import Interpolation.Proofs.Context.Equality
import Interpolation.Proofs.Context.History

/-! A builder has its own history and nothing else. A step on one builder is no part of the history
of another, not even of a copy made before, and refused calls and builds may be left out of a
history. -/

namespace Interpolation

namespace Context

namespace Session

variable (session : Session)

/-- A step acts on the histories of builders as it acts on builders. -/
theorem builders_step {histories : List (List Call)}
    (h : session.builders = histories.map Builder.replay) (step : Step) :
    (session.step step).builders = (record histories step).map Builder.replay := by
  cases step with
  | call number call =>
    -- The lists are compared number by number, since only one builder is touched.
    apply List.ext_getElem?
    intro other
    simp only [Session.step, record, h, List.getElem?_modify, List.getElem?_map]
    cases histories[other]? with
    | none => rfl
    | some history =>
      by_cases hnumber : number = other
      · simp [hnumber, Builder.replay_concat]
      · simp [hnumber]
  | copy number =>
    simp only [Session.step, record, h, List.map_append, List.getElem?_map]
    cases histories[number]? with
    | none => rfl
    | some history => rfl

theorem builders_run (steps : List Step) :
    (start.run steps).builders = (histories steps).map Builder.replay := by
  suffices ∀ (session : Session) (past : List (List Call)),
      session.builders = past.map Builder.replay →
      (session.run steps).builders = (steps.foldl record past).map Builder.replay from
    this start [[]] rfl
  induction steps with
  | nil => exact fun _ _ h => h
  | cons step steps ih =>
    intro session past h
    exact ih (session.step step) (record past step) (session.builders_step h step)

theorem answer?_run_iff {steps : List Step} {number : Nat} {call : Call} {answer : Answer} :
    (start.run steps).answer? (.call number call) = some answer ↔
      ∃ history, (histories steps)[number]? = some history ∧ Answers history call answer := by
  rw [answer?, builders_run, List.getElem?_map, Option.map_map, Option.map_eq_some_iff]
  simp only [Function.comp_apply, call_replay_iff]

theorem answers_congr {session other : Session} (h : session.builders = other.builders)
    (steps : List Step) : session.answers steps = other.answers steps := by
  induction steps generalizing session other with
  | nil => rfl
  | cons step steps ih =>
    have hanswer : session.answer? step = other.answer? step := by
      cases step with
      | call number call => rw [answer?, answer?, h]
      | copy number => rfl
    have hbuilders : (session.step step).builders = (other.step step).builders := by
      cases step with
      | call number call => rw [Session.step, Session.step, h]
      | copy number => rw [Session.step, Session.step, h]
    rw [answers, answers, hanswer, ih hbuilders]

theorem builders_step_of_idle {number : Nat} {call : Call}
    (h : call = .build ∨ ∃ e, session.answer? (.call number call) = some (.refused e)) :
    (session.step (.call number call)).builders = session.builders := by
  have hsame : ∀ builder, session.builders[number]? = some builder →
      (builder.call call).1 = builder := by
    intro builder hbuilder
    rcases h with rfl | ⟨e, he⟩
    · exact builder.call_build
    · rw [answer?, hbuilder] at he
      exact builder.call_of_refused (Option.some.inj he)
  apply List.ext_getElem?
  intro other
  rw [Session.step, List.getElem?_modify]
  cases hother : session.builders[other]? with
  | none => rfl
  | some builder =>
    by_cases hnumber : number = other
    · subst hnumber
      simp [hsame builder hother]
    · simp [hnumber]

theorem getElem?_builders_step {number : Nat} {step : Step} (h : ∀ call, step ≠ .call number call)
    (hnumber : number < session.builders.length) :
    (session.step step).builders[number]? = session.builders[number]? := by
  cases step with
  | call other call =>
    have hne : other ≠ number := by
      rintro rfl
      exact h call rfl
    exact List.getElem?_modify_ne _ _ hne
  | copy other => exact List.getElem?_append_left hnumber

theorem length_builders_le (step : Step) :
    session.builders.length ≤ (session.step step).builders.length := by
  cases step with
  | call number call => exact Nat.le_of_eq (List.length_modify _ _ _).symm
  | copy number => simp [Session.step]

theorem getElem?_builders_run {number : Nat} {steps : List Step}
    (h : ∀ call, .call number call ∉ steps) (hnumber : number < session.builders.length) :
    (session.run steps).builders[number]? = session.builders[number]? := by
  induction steps generalizing session with
  | nil => rfl
  | cons step steps ih =>
    have hstep : ∀ call, step ≠ .call number call := by
      rintro call rfl
      exact h call List.mem_cons_self
    have hrest : ∀ call, .call number call ∉ steps := fun call hmem =>
      h call (List.mem_cons_of_mem step hmem)
    have hlength := Nat.lt_of_lt_of_le hnumber (session.length_builders_le step)
    exact (ih (session.step step) hrest hlength).trans
      (session.getElem?_builders_step hstep hnumber)

theorem contexts_prefix_step (step : Step) : session.contexts <+: (session.step step).contexts := by
  cases step with
  | call number call => exact List.prefix_append _ _
  | copy number => exact List.prefix_rfl

theorem contexts_prefix_run (steps : List Step) :
    session.contexts <+: (session.run steps).contexts := by
  induction steps generalizing session with
  | nil => exact List.prefix_rfl
  | cons step steps ih => exact (session.contexts_prefix_step step).trans (ih (session.step step))

end Session

theorem eq_of_bound_eq {history other : List Call} {context context' : Context}
    (h : Answers history .build (.built context)) (h' : Answers other .build (.built context'))
    (hbound : bound history = bound other)
    (hdefault : history.findSome? Call.default? = other.findSome? Call.default?) :
    context = context' := by
  cases h with
  | built default values _ =>
    cases h' with
    | built default' values' _ =>
      apply ext_get?
      · exact Option.some.inj (default.symm.trans (hdefault.trans default'))
      · intro name
        rw [values, values']
        apply Option.ext
        intro value
        exact Set.ext_iff.mp hbound (name, value)

/-- The answer to a call is settled by the history of its builder; refused calls and builds have no
effect on later answers; a builder and the contexts that were built are out of reach for calls on
other builders; and contexts with the same bindings and the same default are the same, whatever came
first. Under `==` they are the same unless a float in them is NaN. -/
theorem session_follows_histories (steps : List Step) :
    (∀ number call answer, (Session.start.run steps).answer? (.call number call) = some answer ↔
      ∃ history, (histories steps)[number]? = some history ∧ Answers history call answer) ∧
    (∀ number call later,
      (call = .build ∨
        ∃ e, (Session.start.run steps).answer? (.call number call) = some (.refused e)) →
      ((Session.start.run steps).step (.call number call)).answers later =
        (Session.start.run steps).answers later) ∧
    (∀ number later, (∀ call, .call number call ∉ later) →
      number < (Session.start.run steps).builders.length →
      ((Session.start.run steps).run later).builders[number]? =
        (Session.start.run steps).builders[number]?) ∧
    (∀ later, (Session.start.run steps).contexts <+:
      ((Session.start.run steps).run later).contexts) ∧
    ∀ others number number' history history' context context',
      (histories steps)[number]? = some history →
      (histories others)[number']? = some history' →
      (Session.start.run steps).answer? (.call number .build) = some (.built context) →
      (Session.start.run others).answer? (.call number' .build) = some (.built context') →
      bound history = bound history' →
      history.findSome? Call.default? = history'.findSome? Call.default? →
      context = context' ∧
        ((context == context') = true ↔ context.default.isNaN = false ∧
          ∀ name value, context.get? name = some value → value.isNaN = false) := by
  refine ⟨?answers, ?idle, ?others, ?contexts, ?same⟩
  case answers =>
    intro number call answer
    exact Session.answer?_run_iff
  case idle =>
    intro number call later h
    exact Session.answers_congr ((Session.start.run steps).builders_step_of_idle h) later
  case others =>
    intro number later hcalls hnumber
    exact (Session.start.run steps).getElem?_builders_run hcalls hnumber
  case contexts =>
    intro later
    exact (Session.start.run steps).contexts_prefix_run later
  case same =>
    intro others number number' history history' context context' hhistory hhistory' hbuilt hbuilt'
      hbound hdefault
    obtain ⟨past, hpast, hanswer⟩ := Session.answer?_run_iff.mp hbuilt
    obtain ⟨past', hpast', hanswer'⟩ := Session.answer?_run_iff.mp hbuilt'
    obtain rfl : history = past := Option.some.inj (hhistory.symm.trans hpast)
    obtain rfl : history' = past' := Option.some.inj (hhistory'.symm.trans hpast')
    obtain rfl := eq_of_bound_eq hanswer hanswer' hbound hdefault
    exact ⟨rfl, beq_self_iff⟩

end Context

end Interpolation
