import Interpolation.Text

/-! Names, and sets and maps of names. A name is a nonempty run of alphanumeric characters and
underscores. A set is the strictly increasing list of its members and a map the list of its entries,
strictly increasing by name, in the order of code points; so the order in which they were added
cannot be seen, and reading them out needs no sorting. -/

namespace Interpolation

def isNameLetter (c : Char) : Bool :=
  Text.isAlphanumeric c || c == '_'

def isName (s : String) : Bool :=
  !s.isEmpty && s.toList.all isNameLetter

structure NameSet where
  toList : List String
  sorted : toList.Pairwise (· < ·)
deriving DecidableEq

namespace NameSet

def insertSorted (name : String) : List String → List String
  | [] => [name]
  | first :: rest =>
    if name < first then name :: first :: rest
    else if first < name then first :: insertSorted name rest
    else first :: rest

theorem mem_insertSorted {name x : String} {names : List String} :
    x ∈ insertSorted name names ↔ x = name ∨ x ∈ names := by
  induction names with
  | nil => simp [insertSorted]
  | cons first rest ih =>
    simp only [insertSorted]
    split
    · simp
    · split
      · simp only [List.mem_cons, ih]
        exact or_left_comm
      · have h : first = name := String.le_antisymm ‹_› ‹_›
        simp [h]

theorem sorted_insertSorted (name : String) {names : List String}
    (h : names.Pairwise (· < ·)) : (insertSorted name names).Pairwise (· < ·) := by
  induction names with
  | nil => simp [insertSorted]
  | cons first rest ih =>
    obtain ⟨hfirst, hrest⟩ := List.pairwise_cons.mp h
    simp only [insertSorted]
    split
    · rename_i hlt
      refine List.pairwise_cons.mpr ⟨fun x hx => ?_, h⟩
      rcases List.mem_cons.mp hx with rfl | hx
      · exact hlt
      · exact String.lt_trans hlt (hfirst x hx)
    · split
      · rename_i hlt
        refine List.pairwise_cons.mpr ⟨fun x hx => ?_, ih hrest⟩
        rcases mem_insertSorted.mp hx with rfl | hx
        · exact hlt
        · exact hfirst x hx
      · exact h

def empty : NameSet :=
  ⟨[], List.Pairwise.nil⟩

def insert (names : NameSet) (name : String) : NameSet :=
  ⟨insertSorted name names.toList, sorted_insertSorted name names.sorted⟩

def ofList (names : List String) : NameSet :=
  names.foldl insert empty

def contains (names : NameSet) (name : String) : Bool :=
  names.toList.contains name

instance : Membership String NameSet :=
  ⟨fun names name => name ∈ names.toList⟩

@[simp] theorem mem_toList {name : String} {names : NameSet} :
    name ∈ names.toList ↔ name ∈ names := Iff.rfl

@[simp] theorem contains_iff {name : String} {names : NameSet} :
    names.contains name = true ↔ name ∈ names := by
  simp [contains]

@[simp] theorem not_mem_empty (name : String) : name ∉ empty := by
  simp [← mem_toList, empty]

@[simp] theorem mem_insert {name x : String} {names : NameSet} :
    x ∈ names.insert name ↔ x = name ∨ x ∈ names :=
  mem_insertSorted

@[simp] theorem mem_ofList {x : String} {names : List String} :
    x ∈ ofList names ↔ x ∈ names := by
  suffices ∀ s : NameSet, x ∈ names.foldl insert s ↔ x ∈ s ∨ x ∈ names by
    simpa [ofList] using this empty
  induction names with
  | nil => simp
  | cons first rest ih =>
    intro s
    simp only [List.foldl_cons, ih, mem_insert, List.mem_cons]
    grind

end NameSet

structure NameMap (α : Type) where
  entries : List (String × α)
  sorted : entries.Pairwise (·.1 < ·.1)

namespace NameMap

variable {α : Type}

def insertSorted (name : String) (value : α) : List (String × α) → List (String × α)
  | [] => [(name, value)]
  | first :: rest =>
    if name < first.1 then (name, value) :: first :: rest
    else if first.1 < name then first :: insertSorted name value rest
    else (name, value) :: rest

theorem mem_insertSorted {name : String} {value : α} {x : String × α}
    {entries : List (String × α)} (h : x ∈ insertSorted name value entries) :
    x = (name, value) ∨ x ∈ entries := by
  induction entries with
  | nil => simpa [insertSorted] using h
  | cons first rest ih =>
    simp only [insertSorted] at h
    split at h
    · simpa using h
    · split at h
      · rcases List.mem_cons.mp h with rfl | h
        · simp
        · rcases ih h with h | h <;> simp [h]
      · rcases List.mem_cons.mp h with h | h <;> simp [h]

theorem sorted_insertSorted (name : String) (value : α) {entries : List (String × α)}
    (h : entries.Pairwise (·.1 < ·.1)) :
    (insertSorted name value entries).Pairwise (·.1 < ·.1) := by
  induction entries with
  | nil => simp [insertSorted]
  | cons first rest ih =>
    obtain ⟨hfirst, hrest⟩ := List.pairwise_cons.mp h
    simp only [insertSorted]
    split
    · rename_i hlt
      refine List.pairwise_cons.mpr ⟨fun x hx => ?_, h⟩
      rcases List.mem_cons.mp hx with rfl | hx
      · exact hlt
      · exact String.lt_trans hlt (hfirst x hx)
    · split
      · rename_i hlt
        refine List.pairwise_cons.mpr ⟨fun x hx => ?_, ih hrest⟩
        rcases mem_insertSorted hx with rfl | hx
        · exact hlt
        · exact hfirst x hx
      · have heq : first.1 = name := String.le_antisymm ‹_› ‹_›
        exact List.pairwise_cons.mpr ⟨fun x hx => heq ▸ hfirst x hx, hrest⟩

def empty : NameMap α :=
  ⟨[], List.Pairwise.nil⟩

def insert (map : NameMap α) (name : String) (value : α) : NameMap α :=
  ⟨insertSorted name value map.entries, sorted_insertSorted name value map.sorted⟩

/-- Of two entries with one name the later counts. -/
def ofList (entries : List (String × α)) : NameMap α :=
  entries.foldl (fun map entry => map.insert entry.1 entry.2) empty

def get? (map : NameMap α) (name : String) : Option α :=
  map.entries.lookup name

def contains (map : NameMap α) (name : String) : Bool :=
  (map.get? name).isSome

def names (map : NameMap α) : List String :=
  map.entries.map (·.1)

def size (map : NameMap α) : Nat :=
  map.entries.length

def isEmpty (map : NameMap α) : Bool :=
  map.entries.isEmpty

instance [BEq α] : BEq (NameMap α) :=
  ⟨fun a b => a.entries == b.entries⟩

@[simp] theorem get?_empty (name : String) : (empty : NameMap α).get? name = none := rfl

theorem lookup_cons (x : String) (first : String × α) (rest : List (String × α)) :
    (first :: rest).lookup x = if x = first.1 then some first.2 else rest.lookup x := by
  rw [List.lookup_cons]
  by_cases h : x = first.1
  · simp [h]
  · simp [h, beq_eq_false_iff_ne.mpr h]

theorem lookup_insertSorted (name x : String) (value : α) (entries : List (String × α)) :
    (insertSorted name value entries).lookup x =
      if x = name then some value else entries.lookup x := by
  induction entries with
  | nil => simp [insertSorted, lookup_cons]
  | cons first rest ih =>
    simp only [insertSorted]
    split
    · simp [lookup_cons]
    · split
      · rename_i hlt
        have hne : first.1 ≠ name := fun h => String.lt_irrefl name (h ▸ hlt)
        simp only [lookup_cons, ih]
        by_cases h : x = first.1 <;> simp [h, hne]
      · have heq : first.1 = name := String.le_antisymm ‹_› ‹_›
        by_cases h : x = name <;> simp [lookup_cons, h, heq]

@[simp] theorem get?_insert (map : NameMap α) (name x : String) (value : α) :
    (map.insert name value).get? x = if x = name then some value else map.get? x :=
  lookup_insertSorted name x value map.entries

end NameMap

end Interpolation
