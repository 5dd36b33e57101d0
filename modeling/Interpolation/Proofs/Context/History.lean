import Interpolation.Context
import Interpolation.Proofs.Name
import Mathlib.Data.Finset.Card
import Mathlib.Data.Set.Defs

/-! What a builder answers is settled by the calls made on it, and it can be said without the
builder: the first binding of a name and the first default count, later ones are refused, and
nothing else makes a difference. -/

namespace Interpolation

namespace Context

inductive Answers (history : List Call) : Call → Answer → Prop
  | bound {name : String} {value : Value} (fresh : ∀ earlier, .bind name earlier ∉ history) :
    Answers history (.bind name value) .done
  | alreadyBound {name : String} {value earlier : Value} (taken : .bind name earlier ∈ history) :
    Answers history (.bind name value) (.refused (.alreadyBound name))
  | defaultSet {value : Value} (fresh : ∀ earlier, .setDefault earlier ∉ history) :
    Answers history (.setDefault value) .done
  | defaultTaken {value earlier : Value} (taken : .setDefault earlier ∈ history) :
    Answers history (.setDefault value) (.refused .defaultTaken)
  | built {context : Context} (default : history.findSome? Call.default? = some context.default)
    (values : ∀ name, context.get? name = history.findSome? (Call.value? name))
    (size : context.size = (history.filterMap Call.name?).toFinset.card) :
    Answers history .build (.built context)
  | noDefault (missing : ∀ earlier, .setDefault earlier ∉ history) :
    Answers history .build (.refused .noDefault)

/-- The names and values that a history binds. Of several values for a name the first counts. -/
def bound (history : List Call) : Set (String × Value) :=
  {binding | history.findSome? (Call.value? binding.1) = some binding.2}

namespace Builder

variable (builder : Builder)

theorem get?_call (call : Call) (name : String) : (builder.call call).1.bindings.get? name =
    (builder.bindings.get? name).or (call.value? name) := by
  cases call with
  | setDefault value =>
    change _ = (builder.bindings.get? name).or none
    rw [Option.or_none, Builder.call, setDefault]
    cases builder.default? with
    | none => rfl
    | some other => rfl
  | bind other value =>
    rw [Builder.call, bind]
    -- A name that is bound keeps its value, so only the first binding counts.
    by_cases hbound : builder.bindings.contains other = true
    · rw [if_pos hbound]
      change builder.bindings.get? name = _
      by_cases hname : other = name
      · subst hname
        obtain ⟨earlier, hearlier⟩ := Option.isSome_iff_exists.mp hbound
        rw [hearlier, Option.some_or]
      · rw [Call.value?, if_neg hname, Option.or_none]
    · rw [if_neg hbound]
      change (builder.bindings.insert other value).get? name = _
      rw [NameMap.get?_insert]
      by_cases hname : other = name
      · subst hname
        have hnone : builder.bindings.get? other = none := Option.not_isSome_iff_eq_none.mp hbound
        rw [if_pos rfl, hnone, Option.none_or, Call.value?, if_pos rfl]
      · rw [if_neg (Ne.symm hname), Call.value?, if_neg hname, Option.or_none]
  | build =>
    change _ = (builder.bindings.get? name).or none
    rw [Option.or_none, Builder.call]
    cases builder.build with
    | ok context => rfl
    | error e => rfl

theorem default?_call (call : Call) :
    (builder.call call).1.default? = builder.default?.or call.default? := by
  cases call with
  | setDefault value =>
    rw [Builder.call, setDefault]
    cases hdefault : builder.default? with
    | none => rfl
    | some other => exact hdefault
  | bind name value =>
    change _ = builder.default?.or none
    rw [Option.or_none, Builder.call, bind]
    split
    · rfl
    · rfl
  | build =>
    change _ = builder.default?.or none
    rw [Option.or_none, Builder.call]
    cases builder.build with
    | ok context => rfl
    | error e => rfl

theorem call_build : (builder.call .build).1 = builder := by
  rw [Builder.call]
  cases builder.build with
  | ok context => rfl
  | error e => rfl

theorem attempt_of_refused {change : Except Error Builder} {e : Error}
    (h : (builder.attempt change).2 = .refused e) : (builder.attempt change).1 = builder := by
  cases change with
  | ok next => cases h
  | error other => rfl

theorem call_of_refused {call : Call} {e : Error} (h : (builder.call call).2 = .refused e) :
    (builder.call call).1 = builder := by
  cases call with
  | setDefault value => exact builder.attempt_of_refused h
  | bind name value => exact builder.attempt_of_refused h
  | build => exact builder.call_build

theorem get?_foldl_call (history : List Call) (name : String) :
    (history.foldl (fun builder call => (builder.call call).1) builder).bindings.get? name =
      (builder.bindings.get? name).or (history.findSome? (Call.value? name)) := by
  induction history generalizing builder with
  | nil => exact (Option.or_none).symm
  | cons call history ih =>
    rw [List.foldl_cons, ih, get?_call, Option.or_assoc, List.findSome?_cons]
    cases call.value? name with
    | none => rfl
    | some value => rfl

theorem default?_foldl_call (history : List Call) :
    (history.foldl (fun builder call => (builder.call call).1) builder).default? =
      builder.default?.or (history.findSome? Call.default?) := by
  induction history generalizing builder with
  | nil => exact (Option.or_none).symm
  | cons call history ih =>
    rw [List.foldl_cons, ih, default?_call, Option.or_assoc, List.findSome?_cons]
    cases call.default? with
    | none => rfl
    | some value => rfl

theorem get?_replay (history : List Call) (name : String) :
    (replay history).bindings.get? name = history.findSome? (Call.value? name) :=
  get?_foldl_call .empty history name

theorem default?_replay (history : List Call) :
    (replay history).default? = history.findSome? Call.default? :=
  default?_foldl_call .empty history

theorem replay_concat (history : List Call) (call : Call) :
    replay (history ++ [call]) = ((replay history).call call).1 := by
  rw [replay, List.foldl_append]
  rfl

end Builder

variable {history : List Call}

theorem Call.value?_eq_some_iff {call : Call} {name : String} {value : Value} :
    call.value? name = some value ↔ call = .bind name value := by
  cases call <;> simp [value?]

theorem Call.default?_eq_some_iff {call : Call} {value : Value} :
    call.default? = some value ↔ call = .setDefault value := by
  cases call <;> simp [default?]

theorem mem_of_findSome?_value {name : String} {value : Value}
    (h : history.findSome? (Call.value? name) = some value) : .bind name value ∈ history := by
  obtain ⟨call, hmem, hvalue⟩ := List.exists_of_findSome?_eq_some h
  exact Call.value?_eq_some_iff.mp hvalue ▸ hmem

theorem mem_of_findSome?_default {value : Value}
    (h : history.findSome? Call.default? = some value) : .setDefault value ∈ history := by
  obtain ⟨call, hmem, hvalue⟩ := List.exists_of_findSome?_eq_some h
  exact Call.default?_eq_some_iff.mp hvalue ▸ hmem

theorem findSome?_value_eq_none_iff {name : String} : history.findSome? (Call.value? name) = none ↔
    ∀ earlier, .bind name earlier ∉ history := by
  constructor
  · intro h earlier hmem
    cases (Call.value?_eq_some_iff.mpr rfl).symm.trans (List.findSome?_eq_none_iff.mp h _ hmem)
  · intro h
    apply Option.eq_none_iff_forall_ne_some.mpr
    intro value hvalue
    exact h value (mem_of_findSome?_value hvalue)

theorem findSome?_default_eq_none_iff : history.findSome? Call.default? = none ↔
    ∀ earlier, .setDefault earlier ∉ history := by
  constructor
  · intro h earlier hmem
    cases List.findSome?_eq_none_iff.mp h _ hmem
  · intro h
    apply Option.eq_none_iff_forall_ne_some.mpr
    intro value hvalue
    exact h value (mem_of_findSome?_default hvalue)

theorem mem_filterMap_name? {name : String} :
    name ∈ history.filterMap Call.name? ↔ ∃ value, .bind name value ∈ history := by
  rw [List.mem_filterMap]
  constructor
  · rintro ⟨call, hmem, hname⟩
    cases call with
    | bind other value =>
      obtain rfl : other = name := Option.some.inj hname
      exact ⟨value, hmem⟩
    | setDefault value => cases hname
    | build => cases hname
  · rintro ⟨value, hmem⟩
    exact ⟨.bind name value, hmem, rfl⟩

theorem size_eq_card {context : Context}
    (h : ∀ name, context.get? name = history.findSome? (Call.value? name)) :
    context.size = (history.filterMap Call.name?).toFinset.card := by
  have hsame : (history.filterMap Call.name?).toFinset = context.bindings.names.toFinset := by
    ext name
    rw [List.mem_toFinset, List.mem_toFinset, mem_filterMap_name?,
      ← NameMap.contains_iff_mem_names, NameMap.contains_eq]
    have hget : context.bindings.get? name = history.findSome? (Call.value? name) := h name
    rw [hget, Option.isSome_iff_ne_none, ne_eq, findSome?_value_eq_none_iff]
    exact (not_forall_not).symm
  rw [hsame, List.toFinset_card_of_nodup context.bindings.nodup_names]
  exact (List.length_map _).symm

theorem ext_get? {context other : Context} (hdefault : context.default = other.default)
    (hget : ∀ name, context.get? name = other.get? name) : context = other := by
  obtain ⟨bindings, default⟩ := context
  obtain ⟨bindings', default'⟩ := other
  obtain rfl : bindings = bindings' := NameMap.ext_get? hget
  obtain rfl : default = default' := hdefault
  rfl

theorem answers_replay (history : List Call) (call : Call) :
    Answers history call ((Builder.replay history).call call).2 := by
  cases call with
  | setDefault value =>
    rw [Builder.call, Builder.setDefault, Builder.default?_replay]
    cases h : history.findSome? Call.default? with
    | none => exact .defaultSet (findSome?_default_eq_none_iff.mp h)
    | some default => exact .defaultTaken (mem_of_findSome?_default h)
  | bind name value =>
    rw [Builder.call, Builder.bind, NameMap.contains_eq, Builder.get?_replay]
    cases h : history.findSome? (Call.value? name) with
    | none => exact .bound (findSome?_value_eq_none_iff.mp h)
    | some first => exact .alreadyBound (mem_of_findSome?_value h)
  | build =>
    rw [Builder.call, Builder.build, Builder.default?_replay]
    cases h : history.findSome? Call.default? with
    | none => exact .noDefault (findSome?_default_eq_none_iff.mp h)
    | some default =>
      have hget : ∀ name, get? ⟨(Builder.replay history).bindings, default⟩ name =
          history.findSome? (Call.value? name) := Builder.get?_replay history
      exact .built h hget (size_eq_card hget)

theorem Answers.unique {call : Call} {answer other : Answer} (h : Answers history call answer)
    (h' : Answers history call other) : answer = other := by
  -- Each kind of call has two answers, and their conditions exclude one another.
  cases h with
  | bound fresh =>
    cases h' with
    | bound _ => rfl
    | alreadyBound taken => exact absurd taken (fresh _)
  | alreadyBound taken =>
    cases h' with
    | bound fresh => exact absurd taken (fresh _)
    | alreadyBound _ => rfl
  | defaultSet fresh =>
    cases h' with
    | defaultSet _ => rfl
    | defaultTaken taken => exact absurd taken (fresh _)
  | defaultTaken taken =>
    cases h' with
    | defaultSet fresh => exact absurd taken (fresh _)
    | defaultTaken _ => rfl
  | built default values _ =>
    cases h' with
    | built default' values' _ =>
      apply congrArg Answer.built
      apply ext_get?
      · exact Option.some.inj (default.symm.trans default')
      · intro name
        rw [values, values']
    | noDefault missing => cases default.symm.trans (findSome?_default_eq_none_iff.mpr missing)
  | noDefault missing =>
    cases h' with
    | built default _ _ => cases default.symm.trans (findSome?_default_eq_none_iff.mpr missing)
    | noDefault _ => rfl

theorem call_replay_iff {call : Call} {answer : Answer} :
    ((Builder.replay history).call call).2 = answer ↔ Answers history call answer := by
  constructor
  · rintro rfl
    exact answers_replay history call
  · intro h
    exact (answers_replay history call).unique h

end Context

end Interpolation
