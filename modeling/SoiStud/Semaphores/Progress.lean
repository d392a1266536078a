import SoiStud.Semaphores.Guards

/-! Freedom from deadlock.

While the permit is neither being handed on nor used for an access, a condition
that is true has a thread of its kind that is not asleep: the thread that last
gave `mutex` back is awake itself, and it has found every other true condition
without a counted thread.
-/

set_option autoImplicit false

namespace SoiStud.Semaphores

open Library

variable {T : Type}

def Pc.asleep : Pc → Bool
  | .counted | .waiting => true
  | .start | .entered | .woken | .access | .handOff => false

/-- The permit is in `mutex` or in a thread that has just come from there. -/
def State.Calm (s : State T) : Sem ⊕ T → Prop
  | .inl x => x = .mutex
  | .inr t => s.pc t = .entered ∨ s.pc t = .counted

def Awake (kind : T → Kind) (s : State T) : Prop :=
  ∀ place, s.PermitAt place → s.Calm place → ∀ k : Kind, k.guard s.buffer = true →
    ∃ t, kind t = k ∧ (s.pc t).asleep = false

section
variable [Fintype T] [DecidableEq T] {kind : T → Kind} {s s' : State T}

omit [Fintype T] [DecidableEq T] in
theorem awake_main (populated : ∀ k, ∃ t, kind t = k) : Awake kind (main kind false : State T) := by
  intro place permit calm k true_
  obtain ⟨t, same⟩ := populated k
  exact ⟨t, same, rfl⟩

omit [Fintype T] in
theorem awake_other {t : T} {p : Pc} {k : Kind} (moved : s'.pc = Function.update s.pc t p)
    (distinct : kind t ≠ k) (awake : ∃ u, kind u = k ∧ (s.pc u).asleep = false) :
    ∃ u, kind u = k ∧ (s'.pc u).asleep = false := by
  obtain ⟨u, same, up⟩ := awake
  have elsewhere : u ≠ t := by rintro rfl; exact distinct same
  exact ⟨u, same, by simp [moved, elsewhere, up]⟩

omit [Fintype T] in
theorem awake_up {t : T} {p : Pc} {k : Kind} (moved : s'.pc = Function.update s.pc t p)
    (up : p.asleep = false) (awake : ∃ u, kind u = k ∧ (s.pc u).asleep = false) :
    ∃ u, kind u = k ∧ (s'.pc u).asleep = false := by
  obtain ⟨u, same, upBefore⟩ := awake
  by_cases here : u = t
  · exact ⟨t, here ▸ same, by simp [moved, up]⟩
  · exact ⟨u, same, by simp [moved, here, upBefore]⟩

theorem Awake.step (awake : Awake kind s) (inv : Permits kind s) (populated : ∀ k, ∃ t, kind t = k)
    {t : T} {event : Event} (moved : Moves kind s t event s') : Awake kind s' := by
  intro place permit calm k true_
  cases moved with
  | enter at_ mutexOpen =>
    exact awake_up rfl rfl (awake _ (inv.at_lock mutexOpen) rfl k true_)
  | enroll at_ false_ =>
    have distinct : kind t ≠ k := by
      rintro rfl
      simp [false_] at true_
    exact awake_other rfl distinct
      (awake _ (inv.at_thread (t := t) (by rw [at_]; rfl)) (.inl at_) k true_)
  | leave at_ =>
    obtain ⟨u, same, up⟩ := awake _ (inv.at_thread (t := t) (by rw [at_]; rfl)) (.inr at_) k true_
    have elsewhere : u ≠ t := by rintro rfl; simp [at_, Pc.asleep] at up
    exact ⟨u, same, by simp [elsewhere, up]⟩
  | @handOff x at_ woken =>
    have inv' := inv.step (.handOff at_ woken)
    cases permit.open (x := x) (by simp)
    cases calm
    by_cases own : kind t = k
    · exact ⟨t, own, by simp [Pc.asleep]⟩
    · -- the chain has found the condition true, so nobody of that kind is counted
      obtain ⟨u, same⟩ := populated k
      have elsewhere : u ≠ t := by rintro rfl; exact own same
      have nobody := wakes_eq_mutex woken k ((mem_cascade_iff _ _).mpr (Ne.symm own)) (by simpa using true_)
      rw [inv.enrolled k, population_eq_zero_iff] at nobody
      have notListed := nobody u
      refine ⟨u, same, ?_⟩
      cases up : s.pc u <;> simp_all [Pc.asleep, Pc.enrolled]
  -- the permit is at a thread that is past its test, and such a place is not calm
  | pass at_ guard_ =>
    have inside := (permit.inside (t := t) (by simp [Pc.inside]))
    subst inside
    simp [State.Calm] at calm
  | wake at_ condOpen =>
    have inside := (permit.inside (t := t) (by simp [Pc.inside]))
    subst inside
    simp [State.Calm] at calm
  | resume at_ =>
    have inside := (permit.inside (t := t) (by simp [Pc.inside]))
    subst inside
    simp [State.Calm] at calm
  | access at_ done =>
    have inside := (permit.inside (t := t) (by simp [Pc.inside]))
    subst inside
    simp [State.Calm] at calm

theorem awake_of_reachable (populated : ∀ k, ∃ t, kind t = k)
    (reached : (system kind false).Reachable s) : Awake kind s :=
  reached.invariant_with (fun _ => permits_of_reachable) (fun _ initial => initial ▸ awake_main populated)
    fun _ _ _ inv awake moved => awake.step inv populated (moves_of_step moved)

omit [Fintype T] in
theorem step_of_inside {t : T} (inside : (s.pc t).inside = true) : (step kind s t).isSome = true := by
  unfold step
  cases at_ : s.pc t <;> simp_all [Pc.inside]
  split <;> rfl

/-- With at least one thread of each kind no reachable state is a deadlock. -/
theorem no_deadlock (kind : T → Kind) (populated : ∀ k, ∃ t, kind t = k) (s : State T)
    (reached : (system kind false).Reachable s) :
    ∃ t event s', (system kind false).step s (t, event) s' := by
  have inv := permits_of_reachable reached
  suffices unblocked : ∃ t, (step kind s t).isSome = true by
    obtain ⟨t, moves⟩ := unblocked
    obtain ⟨⟨event, s'⟩, moved⟩ := Option.isSome_iff_exists.mp moves
    exact ⟨t, event, s', moved⟩
  obtain ⟨place, permit⟩ := inv.permit
  rcases place with (_ | k) | t
  · -- `mutex` is open: some condition is true and a thread of its kind is awake
    obtain ⟨k, true_⟩ := exists_guard s.buffer (numbers_of_reachable reached).nonnegative
    obtain ⟨t, same, up⟩ := awake_of_reachable populated reached _ permit rfl k true_
    have outside := permit.outside (u := t) (by simp)
    have at_ : s.pc t = .start := by
      cases at_ : s.pc t <;> simp_all [Pc.asleep, Pc.inside]
    have mutexOpen : s.isOpen .mutex = true := (permit (.inl .mutex)).mpr rfl
    exact ⟨t, by simp [step, at_, mutexOpen]⟩
  · -- a condition lock is open: a thread waits for it
    have condOpen : s.isOpen (.cond k) = true := (permit (.inl (.cond k))).mpr rfl
    obtain ⟨t, rfl, waits⟩ := inv.waiter k condOpen
    exact ⟨t, by simp [step, waits, own_routine, condOpen]⟩
  · exact ⟨t, step_of_inside ((permit (.inr t)).mpr rfl)⟩

end

/-- All but the producer of evens wait, and its number has opened the lock of the other producer. -/
theorem no_deadlock_three : ∃ final, play id (main id false) (List.replicate 3 .prodOdd ++ List.replicate 3 .consEven ++
      List.replicate 3 .consOdd ++ List.replicate 4 .prodEven) = some final ∧
    (∀ t, t ≠ .prodEven → final.2.pc t = .waiting) ∧ final.2.isOpen .mutex = false ∧
    final.2.isOpen (.cond .prodOdd) = true ∧ ∃ t event s', (system id false).step final.2 (t, event) s' := by
  have three : (play id (main id false) (List.replicate 3 .prodOdd ++ List.replicate 3 .consEven ++
      List.replicate 3 .consOdd ++ List.replicate 4 .prodEven)).any (fun final =>
        (∀ t, t ≠ .prodEven → final.2.pc t = .waiting) ∧ final.2.isOpen .mutex = false ∧
          final.2.isOpen (.cond .prodOdd) = true) = true := by decide +kernel
  obtain ⟨final, played, waiting⟩ := Option.any_eq_true _ _ |>.mp three
  obtain ⟨waiting, closed, opened⟩ := of_decide_eq_true waiting
  exact ⟨final, played, waiting, closed, opened,
    no_deadlock id (fun k => ⟨k, rfl⟩) final.2 ⟨_, run_play (.start rfl) played⟩⟩

end SoiStud.Semaphores
