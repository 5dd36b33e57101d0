import Interpolation.Name
import Interpolation.Text

/-! No character is a name letter and a blank, which is all that the theory of templates knows about
the tables of characters. Sets and maps are what they contain, and maps are compared name by name,
whatever the comparison of values. -/

namespace Interpolation

theorem ne_of_isNameLetter {c d : Char} (hc : isNameLetter c = true) (hd : isNameLetter d = false) :
    c ≠ d := by
  rintro rfl
  exact Bool.noConfusion (hc.symm.trans hd)

namespace Text

def blankCodes : List Nat :=
  [0x09, 0x0a, 0x0b, 0x0c, 0x0d, 0x20, 0x85, 0xa0, 0x1680, 0x2000, 0x2001, 0x2002, 0x2003, 0x2004,
    0x2005, 0x2006, 0x2007, 0x2008, 0x2009, 0x200a, 0x2028, 0x2029, 0x202f, 0x205f, 0x3000]

theorem toNat_mem_blankCodes {c : Char} (h : isBlank c = true) : c.toNat ∈ blankCodes := by
  simp only [isBlank, Bool.or_eq_true, Bool.and_eq_true, decide_eq_true_eq, beq_iff_eq] at h
  simp only [blankCodes, List.mem_cons, List.not_mem_nil, or_false]
  omega

end Text

theorem isNameLetter_eq_false {c : Char} (hlt : c.toNat < 0x10000)
    (hranges : Text.inRanges c.toNat Text.basicAlphanumerics = false) (hne : c.toNat ≠ '_'.toNat) :
    isNameLetter c = false := by
  have hline : c ≠ '_' := by
    rintro rfl
    exact hne rfl
  simp [isNameLetter, Text.isAlphanumeric, hlt, hranges, hline]

theorem isNameLetter_of_isBlank {c : Char} (h : Text.isBlank c = true) :
    isNameLetter c = false := by
  have hmem := Text.toNat_mem_blankCodes h
  have hcodes : ∀ n ∈ Text.blankCodes,
      n < 0x10000 ∧ Text.inRanges n Text.basicAlphanumerics = false ∧ n ≠ '_'.toNat := by
    decide +kernel
  obtain ⟨hlt, hranges, hne⟩ := hcodes _ hmem
  exact isNameLetter_eq_false hlt hranges hne

theorem isBlank_of_isNameLetter {c : Char} (h : isNameLetter c = true) :
    Text.isBlank c = false := by
  cases hblank : Text.isBlank c with
  | false => rfl
  | true => exact Bool.noConfusion (h.symm.trans (isNameLetter_of_isBlank hblank))

theorem isName_iff {s : String} :
    isName s = true ↔ s.toList ≠ [] ∧ ∀ c ∈ s.toList, isNameLetter c = true := by
  simp [isName]

namespace NameSet

theorem nodup_toList (names : NameSet) : names.toList.Nodup := by
  apply names.sorted.imp
  rintro a b hlt rfl
  exact String.lt_irrefl a hlt

theorem eq_of_toList {names others : NameSet} (h : names.toList = others.toList) :
    names = others := by
  cases names
  cases others
  cases h
  rfl

theorem ext_mem {names others : NameSet} (h : ∀ name, name ∈ names ↔ name ∈ others) :
    names = others := by
  apply eq_of_toList
  apply List.Perm.eq_of_pairwise _ names.sorted others.sorted
  · exact (List.perm_ext_iff_of_nodup names.nodup_toList others.nodup_toList).mpr h
  · intro a b _ _ hab hba
    exact absurd (String.lt_trans hab hba) (String.lt_irrefl a)

theorem ofList_toList (names : NameSet) : ofList names.toList = names :=
  ext_mem fun _ => mem_ofList

end NameSet

namespace NameMap

variable {α β : Type}

theorem insertSorted_of_lt {name : String} {value : α} {entries : List (String × α)}
    (h : ∀ x ∈ entries, x.1 < name) :
    insertSorted name value entries = entries ++ [(name, value)] := by
  induction entries with
  | nil => rfl
  | cons first rest ih =>
    have hfirst : first.1 < name := h first List.mem_cons_self
    have hrest := ih fun x hx => h x (List.mem_cons_of_mem first hx)
    have hnot : ¬ name < first.1 := fun hlt => String.lt_irrefl name (String.lt_trans hlt hfirst)
    unfold insertSorted
    rw [if_neg hnot, if_pos hfirst, hrest, List.cons_append]

theorem entries_foldl_insert {entries : List (String × α)} {map : NameMap α}
    (h : (map.entries ++ entries).Pairwise (·.1 < ·.1)) :
    (entries.foldl (fun map entry => map.insert entry.1 entry.2) map).entries =
      map.entries ++ entries := by
  induction entries generalizing map with
  | nil => exact (List.append_nil _).symm
  | cons first rest ih =>
    obtain ⟨-, -, hless⟩ := List.pairwise_append.mp h
    have hinsert : (map.insert first.1 first.2).entries = map.entries ++ [first] :=
      insertSorted_of_lt fun x hx => hless x hx first List.mem_cons_self
    have hassoc : map.entries ++ first :: rest = (map.insert first.1 first.2).entries ++ rest := by
      rw [hinsert, List.append_assoc, List.singleton_append]
    rw [hassoc] at h
    rw [List.foldl_cons, ih h, hassoc]

theorem eq_of_entries {values others : NameMap α} (h : values.entries = others.entries) :
    values = others := by
  cases values
  cases others
  cases h
  rfl

theorem ofList_entries (values : NameMap α) : ofList values.entries = values :=
  eq_of_entries (@entries_foldl_insert α values.entries empty values.sorted)

theorem contains_eq {values : NameMap α} {name : String} :
    values.contains name = (values.get? name).isSome := rfl

theorem contains_iff_mem_names {values : NameMap α} {name : String} :
    values.contains name = true ↔ name ∈ values.names := by
  unfold contains get? names
  induction values.entries with
  | nil => simp
  | cons first rest ih =>
    rw [lookup_cons, List.map_cons, List.mem_cons, ← ih]
    by_cases h : name = first.1 <;> simp [h]

theorem pairwise_names (values : NameMap α) : values.names.Pairwise (· < ·) :=
  List.pairwise_map.mpr values.sorted

theorem nodup_names (values : NameMap α) : values.names.Nodup := by
  apply values.pairwise_names.imp
  rintro a b hlt rfl
  exact String.lt_irrefl a hlt

theorem get?_eq_some_iff {values : NameMap α} {name : String} {value : α} :
    values.get? name = some value ↔ (name, value) ∈ values.entries := by
  obtain ⟨entries, sorted⟩ := values
  unfold get?
  induction entries with
  | nil => simp
  | cons first rest ih =>
    obtain ⟨hfirst, hrest⟩ := List.pairwise_cons.mp sorted
    rw [lookup_cons, List.mem_cons]
    split
    · rename_i heq
      have hnot : (name, value) ∉ rest := fun hmem =>
        String.lt_irrefl name (heq ▸ hfirst (name, value) hmem)
      rw [or_iff_left hnot, Option.some.injEq, Prod.ext_iff]
      exact ⟨fun h => ⟨heq, h.symm⟩, fun h => h.2.symm⟩
    · rename_i hne
      rw [ih hrest, or_iff_right fun h => hne (congrArg Prod.fst h)]

theorem ext_get? {values others : NameMap α} (h : ∀ name, values.get? name = others.get? name) :
    values = others := by
  have hnodup : ∀ map : NameMap α, map.entries.Nodup := fun map =>
    (List.pairwise_map.mp map.nodup_names).imp fun hne heq => hne (congrArg Prod.fst heq)
  apply eq_of_entries
  apply List.Perm.eq_of_pairwise _ values.sorted others.sorted
  · apply (List.perm_ext_iff_of_nodup (hnodup values) (hnodup others)).mpr
    intro entry
    rw [← get?_eq_some_iff, ← get?_eq_some_iff, h]
  · intro a b _ _ hab hba
    exact absurd (String.lt_trans hab hba) (String.lt_irrefl a.1)

theorem get?_foldl_insert_of_ne {entries : List (String × α)} {values : NameMap α} {name : String}
    (h : ∀ entry ∈ entries, entry.1 ≠ name) :
    (entries.foldl (fun map entry => map.insert entry.1 entry.2) values).get? name =
      values.get? name := by
  induction entries generalizing values with
  | nil => rfl
  | cons first rest ih =>
    have hne : name ≠ first.1 := (h first List.mem_cons_self).symm
    rw [List.foldl_cons, ih fun entry hentry => h entry (List.mem_cons_of_mem first hentry),
      get?_insert, if_neg hne]

theorem isSome_eq_of_beq [BEq α] {first second : Option α} (h : (first == second) = true) :
    first.isSome = second.isSome := by
  cases first with
  | none =>
    cases second with
    | none => rfl
    | some other => cases h
  | some value =>
    cases second with
    | none => cases h
    | some other => rfl

theorem lookup_eq_none_of_lt {name : String} {entries : List (String × α)}
    (h : ∀ x ∈ entries, name < x.1) : entries.lookup name = none := by
  induction entries with
  | nil => rfl
  | cons first rest ih =>
    obtain ⟨hfirst, hrest⟩ := List.forall_mem_cons.mp h
    rw [lookup_cons, if_neg (String.ne_of_lt hfirst), ih hrest]

theorem not_head_lt {first other : String × α} {rest others : List (String × α)}
    (hothers : (other :: others).Pairwise (·.1 < ·.1))
    (h : ∀ name, ((first :: rest).lookup name).isSome = ((other :: others).lookup name).isSome) :
    ¬ first.1 < other.1 := by
  intro hlt
  obtain ⟨hother, -⟩ := List.pairwise_cons.mp hothers
  have hnone := lookup_eq_none_of_lt (List.forall_mem_cons.mpr
    ⟨hlt, fun x hx => String.lt_trans hlt (hother x hx)⟩)
  have hsame := h first.1
  rw [hnone, lookup_cons, if_pos rfl] at hsame
  cases hsame

theorem entries_beq_iff [BEq α] {entries others : List (String × α)}
    (hentries : entries.Pairwise (·.1 < ·.1)) (hothers : others.Pairwise (·.1 < ·.1)) :
    (entries == others) = true ↔
      ∀ name, (entries.lookup name == others.lookup name) = true := by
  induction entries generalizing others with
  | nil =>
    cases others with
    | nil => exact iff_of_true rfl fun _ => rfl
    | cons other others =>
      refine iff_of_false Bool.false_ne_true fun h => ?_
      have hsame := h other.1
      rw [lookup_cons, if_pos rfl] at hsame
      cases hsame
  | cons first rest ih =>
    cases others with
    | nil =>
      refine iff_of_false Bool.false_ne_true fun h => ?_
      have hsame := h first.1
      rw [lookup_cons, if_pos rfl] at hsame
      cases hsame
    | cons other others =>
      obtain ⟨hfirst, hrest⟩ := List.pairwise_cons.mp hentries
      obtain ⟨hother, htail⟩ := List.pairwise_cons.mp hothers
      have hhead : (first == other) = (first.1 == other.1 && first.2 == other.2) := rfl
      rw [List.cons_beq_cons, hhead, Bool.and_eq_true_iff, Bool.and_eq_true_iff, beq_iff_eq,
        ih hrest htail]
      constructor
      · rintro ⟨⟨hname, hvalue⟩, hsame⟩ name
        rw [lookup_cons, lookup_cons, hname]
        split
        · exact hvalue
        · exact hsame name
      · intro h
        have hsome := fun name => isSome_eq_of_beq (h name)
        -- Neither head comes before the other map, so they have the same name.
        have hname : first.1 = other.1 :=
          String.le_antisymm (not_head_lt hentries fun name => (hsome name).symm)
            (not_head_lt hothers hsome)
        have hvalue := h first.1
        rw [lookup_cons, if_pos rfl, lookup_cons, if_pos hname] at hvalue
        refine ⟨⟨hname, hvalue⟩, fun name => ?_⟩
        by_cases heq : name = first.1
        · rw [heq, lookup_eq_none_of_lt hfirst, lookup_eq_none_of_lt (hname ▸ hother)]
          rfl
        · have hsame := h name
          rwa [lookup_cons, if_neg heq, lookup_cons, if_neg (hname ▸ heq)] at hsame

/-- Maps are equal when they have the same names, with equal values. -/
theorem beq_iff [BEq α] {values others : NameMap α} :
    (values == others) = true ↔ ∀ name, (values.get? name == others.get? name) = true :=
  entries_beq_iff values.sorted others.sorted

theorem beq_self_iff [BEq α] {values : NameMap α} : (values == values) = true ↔
    ∀ name value, values.get? name = some value → (value == value) = true := by
  rw [beq_iff]
  constructor
  · intro h name value hget
    have hsame := h name
    rwa [hget] at hsame
  · intro h name
    cases hget : values.get? name with
    | none => rfl
    | some value => exact h name value hget

def map (f : α → β) (values : NameMap α) : NameMap β :=
  ⟨values.entries.map fun entry => (entry.1, f entry.2), List.pairwise_map.mpr values.sorted⟩

@[simp] theorem names_map (f : α → β) (values : NameMap α) : (values.map f).names = values.names :=
  List.map_map

@[simp] theorem get?_map (f : α → β) (values : NameMap α) (name : String) :
    (values.map f).get? name = (values.get? name).map f := by
  have hentries : (values.map f).entries =
      values.entries.map fun entry => (entry.1, f entry.2) := rfl
  unfold get?
  rw [hentries]
  induction values.entries with
  | nil => rfl
  | cons first rest ih =>
    rw [List.map_cons, lookup_cons, lookup_cons, ih]
    dsimp only
    split
    · rfl
    · rfl

end NameMap

end Interpolation
