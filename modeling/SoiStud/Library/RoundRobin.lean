import Mathlib.Data.List.Nodup
import Mathlib.Logic.Function.Basic

/-! Queues whose head is served and then goes to the tail, and what a full
round of them costs each member. -/

set_option autoImplicit false

namespace SoiStud.Library

variable {σ α : Type*}

inductive Steps (turn : σ → σ → Prop) : Nat → σ → σ → Prop where
  | done {s : σ} : Steps turn 0 s s
  | turn {n : Nat} {s t u : σ} : turn s t → Steps turn n t u → Steps turn (n + 1) s u

section
variable {turn : σ → σ → Prop} {I : Nat → σ → Prop} {n : Nat} {s t : σ}

theorem Steps.invariant (steps : Steps turn n s t) (preserved : ∀ n s t, I (n + 1) s → turn s t → I n t)
    (initially : I n s) : I 0 t := by
  induction steps with
  | done => exact initially
  | turn first _ ih => exact ih (preserved _ _ _ initially first)

theorem Steps.exists (goes : ∀ n s, I (n + 1) s → ∃ t, turn s t)
    (preserved : ∀ n s t, I (n + 1) s → turn s t → I n t) (initially : I n s) : ∃ t, Steps turn n s t := by
  induction n generalizing s with
  | zero => exact ⟨s, .done⟩
  | succ n ih =>
    obtain ⟨u, first⟩ := goes n s initially
    obtain ⟨t, later⟩ := ih (preserved n s u initially first)
    exact ⟨t, .turn first later⟩

end

structure Serves [DecidableEq α] (queue : σ → List α) (charge cost : σ → α → Nat) (s t : σ) : Prop where
  queue : ∀ h rest, queue s = h :: rest → queue t = rest ++ [h] ∧
    charge t = Function.update (charge s) h (charge s h + cost s h)
  cost : cost t = cost s

section
variable [DecidableEq α] {queue : σ → List α} {charge cost : σ → α → Nat} {turn : σ → σ → Prop}
  {I : Nat → σ → Prop} {s t : σ}

theorem Steps.serves {l m : List α} (steps : Steps turn l.length s t)
    (serves : ∀ n s t, I (n + 1) s → turn s t → Serves queue charge cost s t ∧ I n t) (initially : I l.length s)
    (front : queue s = l ++ m) (nodup : l.Nodup) :
    queue t = m ++ l ∧ ∀ p, charge t p = charge s p + if p ∈ l then cost s p else 0 := by
  induction l generalizing s m with
  | nil =>
    cases steps
    simpa using front
  | cons h rest ih =>
    cases steps with
    | @turn _ _ u _ first later =>
      obtain ⟨⟨served, sameCost⟩, left⟩ := serves _ s u initially first
      obtain ⟨moved, paid⟩ := served h (rest ++ m) front
      obtain ⟨absent, nodup⟩ := List.nodup_cons.mp nodup
      obtain ⟨last, charged⟩ := ih later left (by rw [moved, List.append_assoc]) nodup
      refine ⟨by rw [last, List.append_assoc, List.singleton_append], fun p => ?_⟩
      rw [charged, paid, sameCost]
      by_cases same : p = h
      · subst same
        simp [absent]
      · simp [same]

/-- A full round leaves the queue as it was, and each member has paid once. -/
theorem Steps.round (steps : Steps turn (queue s).length s t)
    (serves : ∀ n s t, I (n + 1) s → turn s t → Serves queue charge cost s t ∧ I n t)
    (initially : I (queue s).length s) (nodup : (queue s).Nodup) :
    queue t = queue s ∧ ∀ p ∈ queue s, charge t p = charge s p + cost s p := by
  obtain ⟨last, charged⟩ := steps.serves serves initially (List.append_nil _).symm nodup
  refine ⟨last, fun p member => ?_⟩
  rw [charged, if_pos member]

end

end SoiStud.Library
