import Mathlib.Data.List.Basic

/-! Labelled transition systems and their finite runs.

A run carries the list of labels it has produced, so that a law about a whole
history is an invariant of the pair of history and state. Nothing here names a
particular program.
-/

set_option autoImplicit false

namespace SoiStud.Library

structure System (State Label : Type*) where
  init : State → Prop
  step : State → Label → State → Prop

namespace System

variable {State Label : Type*} {S : System State Label}

/-- A finite run from an initial state, with the labels of its steps in order. -/
inductive Run (S : System State Label) : List Label → State → Prop where
  | start {s : State} : S.init s → Run S [] s
  | next {history : List Label} {s t : State} {label : Label} :
      Run S history s → S.step s label t → Run S (history ++ [label]) t

def Reachable (S : System State Label) (s : State) : Prop := ∃ history, S.Run history s

theorem Reachable.start {s : State} (initial : S.init s) : S.Reachable s := ⟨[], .start initial⟩

theorem Reachable.next {s t : State} {label : Label} (reached : S.Reachable s)
    (edge : S.step s label t) : S.Reachable t := by
  obtain ⟨history, run⟩ := reached
  exact ⟨history ++ [label], run.next edge⟩

theorem Run.compute {f : State → Label → Option State} (computed : ∀ s label t, f s label = some t → S.step s label t)
    {history labels : List Label} {s t : State} (run : S.Run history s) (result : labels.foldlM f s = some t) :
    S.Run (history ++ labels) t := by
  induction labels generalizing history s with
  | nil =>
    cases result
    rwa [List.append_nil]
  | cons label labels ih =>
    rw [List.foldlM_cons] at result
    obtain ⟨u, first, others⟩ := Option.bind_eq_some_iff.mp result
    have longer := ih (run.next (computed s label u first)) others
    rwa [List.append_assoc] at longer

/-- A run whose steps are computed, and what can be decided of its end. -/
theorem run_of_play {f : State → Label → Option State} (computed : ∀ s label t, f s label = some t → S.step s label t)
    {labels : List Label} {s : State} (initial : S.init s) {good : State → Bool}
    (played : (labels.foldlM f s).any good = true) : ∃ t, S.Run labels t ∧ good t = true := by
  obtain ⟨t, result, holds⟩ := (Option.any_eq_true _ _).mp played
  have run : S.Run ([] ++ labels) t := (Run.start initial).compute computed result
  exact ⟨t, run, holds⟩

/-- A law of histories and states: it holds at the start and every step of a
run extends it. The preservation premise may use that the source is reachable. -/
theorem Run.induction_on {P : List Label → State → Prop} {history : List Label} {s : State}
    (run : S.Run history s) (initially : ∀ s, S.init s → P [] s)
    (preserved : ∀ history s label t, S.Run history s → P history s → S.step s label t →
      P (history ++ [label]) t) : P history s := by
  induction run with
  | start initial => exact initially _ initial
  | next run edge ih => exact preserved _ _ _ _ run ih edge

theorem Run.each {P : List Label → Label → Prop} {history : List Label} {s : State} (run : S.Run history s)
    (steps : ∀ history s label t, S.Run history s → S.step s label t → P history label) :
    ∀ before label after, history = before ++ label :: after → P before label := by
  induction run with
  | start _ =>
    intro before label after none_
    simp at none_
  | @next history s t last run edge ih =>
    intro before label after whole
    rcases List.eq_nil_or_concat after with rfl | ⟨l, later, rfl⟩
    · obtain ⟨rfl, same⟩ := List.append_inj' whole rfl
      obtain rfl := List.singleton_injective same
      exact steps history s last t run edge
    · rw [List.concat_eq_append, ← List.cons_append, ← List.append_assoc] at whole
      exact ih before label l (List.append_inj' whole rfl).1

theorem Reachable.invariant {I : State → Prop} {s : State} (reached : S.Reachable s)
    (initially : ∀ s, S.init s → I s)
    (preserved : ∀ s label t, I s → S.step s label t → I t) : I s := by
  obtain ⟨history, run⟩ := reached
  exact run.induction_on (P := fun _ => I) initially
    fun _ s label t _ holds edge => preserved s label t holds edge

theorem Reachable.invariant_with {J I : State → Prop} {s : State} (reached : S.Reachable s)
    (known : ∀ s, S.Reachable s → J s) (initially : ∀ s, S.init s → I s)
    (preserved : ∀ s label t, J s → I s → S.step s label t → I t) : I s := by
  obtain ⟨history, run⟩ := reached
  exact run.induction_on (P := fun _ => I) initially
    fun history s label t earlier holds edge => preserved s label t (known s ⟨history, earlier⟩) holds edge

/-- A system whose visible steps are steps of another one under a view of the
states, and whose other steps leave the view as it is, has the other's runs. -/
theorem Run.refines {State' Label' : Type*} {A : System State' Label'} {view : State → State'}
    {visible : Label → Option Label'} {history : List Label} {s : State} (run : S.Run history s)
    (initially : ∀ s, S.init s → A.init (view s))
    (hidden : ∀ s label t, S.Reachable s → S.step s label t → visible label = none → view t = view s)
    (shown : ∀ s label t label', S.Reachable s → S.step s label t → visible label = some label' →
      A.step (view s) label' (view t)) : A.Run (history.filterMap visible) (view s) := by
  refine run.induction_on (P := fun history s => A.Run (history.filterMap visible) (view s))
    (fun s initial => .start (initially s initial)) ?_
  intro history s label t earlier simulated edge
  rw [List.filterMap_append]
  cases seen : visible label with
  | none =>
    rw [hidden s label t ⟨history, earlier⟩ edge seen]
    simpa [seen] using simulated
  | some label' =>
    simpa [seen] using simulated.next (shown s label t label' ⟨history, earlier⟩ edge seen)

/-- A system that can follow each step of another one has its runs. -/
theorem Run.simulated {State' : Type*} {A : System State' Label} {R : State → State' → Prop} {history : List Label}
    {s : State} (run : S.Run history s) (initially : ∀ s, S.init s → ∃ a, A.init a ∧ R s a)
    (follows : ∀ s a label t, R s a → S.step s label t → ∃ b, A.step a label b ∧ R t b) :
    ∃ a, A.Run history a ∧ R s a := by
  refine run.induction_on (P := fun history s => ∃ a, A.Run history a ∧ R s a) ?_ ?_
  · intro s initial
    obtain ⟨a, start, related⟩ := initially s initial
    exact ⟨a, .start start, related⟩
  · rintro history s label t _ ⟨a, earlier, related⟩ edge
    obtain ⟨b, step, related⟩ := follows s a label t related edge
    exact ⟨b, earlier.next step, related⟩

def restrict (S : System State Label) (condition : State → Label → State → Prop) :
    System State Label where
  init := S.init
  step s label t := S.step s label t ∧ condition s label t

variable {condition : State → Label → State → Prop}

theorem Run.of_restrict {history : List Label} {s : State}
    (run : (S.restrict condition).Run history s) : S.Run history s := by
  induction run with
  | start initial => exact .start initial
  | next _ edge ih => exact ih.next edge.1

theorem Reachable.of_restrict {s : State} (reached : (S.restrict condition).Reachable s) :
    S.Reachable s := by
  obtain ⟨history, run⟩ := reached
  exact ⟨history, run.of_restrict⟩

/-- A condition that every reachable step meets restricts nothing. -/
theorem Reachable.restrict {s : State} (reached : S.Reachable s)
    (met : ∀ s label t, S.Reachable s → S.step s label t → condition s label t) :
    (S.restrict condition).Reachable s := by
  obtain ⟨history, run⟩ := reached
  induction run with
  | start initial => exact .start initial
  | next run edge ih => exact ih.next ⟨edge, met _ _ _ ⟨_, run⟩ edge⟩

end System
end SoiStud.Library
