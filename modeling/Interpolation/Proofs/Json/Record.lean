import Interpolation.Json
import Interpolation.Proofs.Json.Document

/-! A JSON record whose fields have different names is read field by field, and it has a text if its
fields have one. -/

namespace Interpolation.Json

theorem isWritten_text (content : String) : IsWritten (text (some content)) := by
  simp [IsWritten, toTokens, Token.isWritten]

theorem isWritten_boolean (b : Bool) : IsWritten (boolean b) := by
  simp [IsWritten, toTokens, Token.isWritten]

theorem isWritten_number (n : Nat) : IsWritten (number (some n)) := by
  simp [IsWritten, toTokens, Token.isWritten]

theorem isWritten_itemTokens {items : List Json} (h : ∀ item ∈ items, item.IsWritten) :
    ∀ token ∈ itemTokens items, token.isWritten = true := by
  induction items with
  | nil => exact List.forall_mem_nil _
  | cons item items ih =>
    obtain ⟨hitem, hitems⟩ := List.forall_mem_cons.mp h
    cases items with
    | nil => exact hitem
    | cons next rest =>
      rw [itemTokens, List.forall_mem_append, List.forall_mem_cons]
      exact ⟨hitem, rfl, ih hitems⟩

theorem isWritten_array {items : List Json} (h : ∀ item ∈ items, item.IsWritten) :
    IsWritten (array items) := by
  rw [IsWritten, toTokens, List.cons_append, List.forall_mem_cons, List.forall_mem_append,
    List.forall_mem_singleton]
  exact ⟨rfl, isWritten_itemTokens h, rfl⟩

theorem isWritten_texts (contents : List String) :
    IsWritten (array (contents.map fun content => text (some content))) := by
  apply isWritten_array
  intro item hitem
  obtain ⟨content, -, rfl⟩ := List.mem_map.mp hitem
  exact isWritten_text content

theorem isWritten_memberTokens {fields : List (String × Json)}
    (h : ∀ field ∈ fields, field.2.IsWritten) :
    ∀ token ∈ memberTokens (fields.map fun (name, value) => (some name, value)),
      token.isWritten = true := by
  induction fields with
  | nil => exact List.forall_mem_nil _
  | cons field fields ih =>
    obtain ⟨hvalue, hfields⟩ := List.forall_mem_cons.mp h
    cases fields with
    | nil =>
      rw [List.map_singleton, memberTokens, List.forall_mem_cons, List.forall_mem_cons]
      exact ⟨rfl, rfl, hvalue⟩
    | cons next rest =>
      rw [List.map_cons, List.map_cons, memberTokens, List.cons_append, List.cons_append,
        List.forall_mem_cons, List.forall_mem_cons, List.forall_mem_append, List.forall_mem_cons]
      exact ⟨rfl, rfl, hvalue, rfl, ih hfields⟩

theorem isWritten_record {fields : List (String × Json)} (h : ∀ field ∈ fields, field.2.IsWritten) :
    IsWritten (record fields) := by
  rw [IsWritten, record, toTokens, List.cons_append, List.forall_mem_cons, List.forall_mem_append,
    List.forall_mem_singleton]
  exact ⟨rfl, isWritten_memberTokens h, rfl⟩

theorem mapM_eq_some {α β : Type} {f : α → Option β} {g : α → β} {xs : List α}
    (h : ∀ x ∈ xs, f x = some (g x)) : xs.mapM f = some (xs.map g) := by
  induction xs with
  | nil => rfl
  | cons x xs ih =>
    obtain ⟨hx, hxs⟩ := List.forall_mem_cons.mp h
    rw [List.mapM_cons, hx, ih hxs]
    rfl

theorem texts?_texts (contents : List String) :
    texts? (array (contents.map fun content => text (some content))) = some contents := by
  rw [texts?, List.mapM_map]
  exact (mapM_eq_some fun _ _ => rfl).trans (congrArg some (List.map_id contents))

theorem count?_number {n : Nat} (h : n < UInt64.size) : count? (number (some n)) = some n :=
  if_pos h

theorem member?_of_mem {fields : List (String × Json)} (hnodup : (fields.map (·.1)).Nodup)
    {field : String × Json} (h : field ∈ fields) :
    member? fields field.1 = some (some field.2) := by
  have hfilter : fields.filter (·.1 == field.1) = [field] := by
    induction fields with
    | nil => cases h
    | cons first rest ih =>
      obtain ⟨hfirst, hrest⟩ := List.nodup_cons.mp hnodup
      have hother : ∀ other ∈ rest, other.1 ≠ first.1 := fun other hother heq =>
        hfirst (List.mem_map.mpr ⟨other, hother, heq⟩)
      rw [List.filter_cons]
      rcases List.mem_cons.mp h with rfl | h
      · have hnil : rest.filter (·.1 == field.1) = [] := by
          rw [List.filter_eq_nil_iff]
          intro other hmem heq
          exact hother other hmem (beq_iff_eq.mp heq)
        rw [if_pos (beq_self_eq_true field.1), hnil]
      · have hne : (first.1 == field.1) = false :=
          beq_eq_false_iff_ne.mpr (hother field h).symm
        rw [hne, ih hrest h]
        rfl
  rw [member?, hfilter]

theorem fields?_record {fields : List (String × Json)} (h : (fields.map (·.1)).Nodup) :
    fields? (fields.map (·.1)) (record fields) = some (fields.map fun field => some field.2) := by
  have hmembers : (fields.map fun field => (some field.1, field.2)).mapM
      (fun member : Option String × Json => member.1.map (·, member.2)) = some fields := by
    rw [List.mapM_map]
    exact (mapM_eq_some fun _ _ => rfl).trans (congrArg some (List.map_id fields))
  have hread : fields? (fields.map (·.1)) (record fields) =
      ((fields.map fun field => (some field.1, field.2)).mapM
        fun member : Option String × Json => member.1.map (·, member.2)).bind
          fun members => (fields.map (·.1)).mapM (member? members) := rfl
  rw [hread, hmembers, Option.bind_some, List.mapM_map]
  exact mapM_eq_some fun field hfield => member?_of_mem h hfield

end Interpolation.Json
