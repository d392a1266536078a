import SoiStud.Semaphores.Progress

/-! Waiting threads that are passed over.

The final chain of a routine does not test the routine's own condition. For the
two producers this is harmless: their access makes their own condition false
whenever one of them is still waiting. For the two consumers it is not, and the
law that a free `mutex` leaves nobody waiting with a true condition holds in
exactly those runs in which no consumer gives `mutex` back over a waiting
consumer of its own kind whose condition is true.
-/

set_option autoImplicit false

namespace SoiStud.Semaphores

open Library

variable {T : Type}

/-- Where the permit is while a waiting thread's condition is true and the
thread is about to be served. -/
def State.Serving (kind : T → Kind) (s : State T) : Kind → Sem ⊕ T → Prop
  | .prodEven, .inl x => x = .cond .prodEven
  | .prodOdd, .inl x => x = .cond .prodOdd
  | .consEven, .inl x | .consOdd, .inl x => x ≠ .mutex
  | .prodEven, .inr t => s.pc t = .handOff ∧ kind t = .consEven ∨
      (s.pc t = .woken ∨ s.pc t = .access) ∧ kind t = .prodEven
  | .prodOdd, .inr t => s.pc t = .handOff ∧ (kind t = .prodEven ∨ kind t = .consOdd) ∨
      (s.pc t = .woken ∨ s.pc t = .access) ∧ kind t = .prodOdd
  | .consEven, .inr t | .consOdd, .inr t => s.pc t = .handOff ∨ s.pc t = .woken ∨ s.pc t = .access

/-- A waiting producer of evens finds at least nine evens, a waiting producer of
odds at most one even more than odds; whoever waits with a true condition is
about to be served. -/
structure Attended (kind : T → Kind) (s : State T) (place : Sem ⊕ T) : Prop where
  evens : 0 < s.numOfWaiting .prodEven → 9 ≤ s.buffer.countEven
  odds : 0 < s.numOfWaiting .prodOdd → s.buffer.countEven ≤ s.buffer.countOdd + 1
  serving : ∀ k, 0 < s.numOfWaiting k → k.guard s.buffer = true → s.Serving kind k place

/-- The condition on a step: a consumer at the end of its chain gives `mutex`
back only if no consumer of its own kind waits with a true condition. -/
def OwnKindServed (kind : T → Kind) (s : State T) (label : T × Event) (_ : State T) : Prop :=
  ∀ k, k = .consEven ∨ k = .consOdd → kind label.1 = k → s.pc label.1 = .handOff →
    (routine k).wakes s.numOfWaiting s.buffer = .mutex → k.guard s.buffer = true →
    s.numOfWaiting k = 0

section
variable [Fintype T] [DecidableEq T] {kind : T → Kind} {s s' : State T}

omit [Fintype T] [DecidableEq T] in
theorem Attended.unserved {place : Sem ⊕ T} (attended : Attended kind s place) {k : Kind}
    (waiting : 0 < s.numOfWaiting k) (idle : ¬ s.Serving kind k place) : k.guard s.buffer = false := by
  by_contra true_
  exact idle (attended.serving k waiting (Bool.not_eq_false _ ▸ true_))

omit [Fintype T] [DecidableEq T] in
theorem Attended.frame {place place' : Sem ⊕ T} (attended : Attended kind s place)
    (same : s'.buffer = s.buffer) (fewer : ∀ k, 0 < s'.numOfWaiting k → 0 < s.numOfWaiting k)
    (keeps : ∀ k, s.Serving kind k place → s'.Serving kind k place') : Attended kind s' place' where
  evens waiting := same ▸ attended.evens (fewer _ waiting)
  odds waiting := same ▸ attended.odds (fewer _ waiting)
  serving k waiting true_ := keeps k (attended.serving k (fewer k waiting) (same ▸ true_))

omit [Fintype T] [DecidableEq T] in
/-- Before the access of a thread of another kind, a waiting producer's condition is false. -/
theorem Attended.bounds {t : T} (attended : Attended kind s (.inr t)) (at_ : s.pc t = .access) :
    (0 < s.numOfWaiting .prodEven → kind t ≠ .prodEven → 10 ≤ s.buffer.countEven) ∧
    (0 < s.numOfWaiting .prodOdd → kind t ≠ .prodOdd → s.buffer.countEven ≤ s.buffer.countOdd) := by
  refine ⟨fun waiting distinct => ?_, fun waiting distinct => ?_⟩
  · have false_ := attended.unserved waiting (by simp [State.Serving, at_, distinct])
    have := mt (guard_prodEven s.buffer).mpr (by simp [false_])
    omega
  · have false_ := attended.unserved waiting (by simp [State.Serving, at_, distinct])
    have := mt (guard_prodOdd s.buffer).mpr (by simp [false_])
    omega

omit [Fintype T] [DecidableEq T] in
/-- A thread about to run its chain serves both consumers; what is left are the producers. -/
theorem Attended.of_producers {t : T} (at_ : s.pc t = .handOff)
    (evens : 0 < s.numOfWaiting .prodEven → 9 ≤ s.buffer.countEven)
    (odds : 0 < s.numOfWaiting .prodOdd → s.buffer.countEven ≤ s.buffer.countOdd + 1)
    (even : 0 < s.numOfWaiting .prodEven → s.buffer.countEven < 10 → kind t = .consEven)
    (odd : 0 < s.numOfWaiting .prodOdd → s.buffer.countOdd < s.buffer.countEven →
      kind t = .prodEven ∨ kind t = .consOdd) : Attended kind s (.inr t) where
  evens := evens
  odds := odds
  serving
    | .prodEven, waiting, true_ => .inl ⟨at_, even waiting ((guard_prodEven _).mp true_)⟩
    | .prodOdd, waiting, true_ => .inl ⟨at_, odd waiting ((guard_prodOdd _).mp true_)⟩
    | .consEven, _, _ => .inl at_
    | .consOdd, _, _ => .inl at_

omit [Fintype T] in
/-- The access, kind by kind: what it does to the producers' bounds. A consumer
of evens lets the evens drop to nine, a producer of evens and a consumer of odds
let the evens get one ahead; each of them serves the waiting producer next. -/
theorem Attended.access {t : T} (attended : Attended kind s (.inr t)) (numbers : Numbers kind s)
    (at_ : s.pc t = .access) (true_ : (kind t).guard s.buffer = true) :
    Attended kind ((s.accessBuffer (kind t) t).2.goto t .handOff) (.inr t) := by
  obtain ⟨evensFull, oddsFull⟩ := attended.bounds at_
  have evens := attended.evens
  have odds := attended.odds
  have counts : (kind t).Counts s.buffer ((s.accessBuffer (kind t) t).2.goto t .handOff).buffer :=
    numbers.counts true_
  have here : ((s.accessBuffer (kind t) t).2.goto t .handOff).pc t = .handOff := by simp
  have waits : ((s.accessBuffer (kind t) t).2.goto t .handOff).numOfWaiting = s.numOfWaiting := by simp
  generalize (s.accessBuffer (kind t) t).2.goto t .handOff = u at counts here waits ⊢
  -- `evensFull` and `oddsFull` hold for waiting producers of the other kind, `evens` and `odds` for all
  cases same : kind t with
  | prodEven =>
    rw [same] at counts evensFull oddsFull
    obtain ⟨more, still⟩ := counts
    apply Attended.of_producers here <;> rw [waits]
    · omega
    · intro waiting
      have := oddsFull waiting (by decide)
      omega
    · intro waiting room
      have := evens waiting
      omega
    · exact fun _ _ => .inl same
  | prodOdd =>
    rw [same] at counts evensFull oddsFull
    obtain ⟨still, more⟩ := counts
    apply Attended.of_producers here <;> rw [waits]
    · rwa [still]
    · intro waiting
      have := odds waiting
      omega
    · intro waiting room
      have := evensFull waiting (by decide)
      omega
    · intro waiting behind
      have := odds waiting
      omega
  | consEven =>
    rw [same] at counts evensFull oddsFull
    obtain ⟨less, still⟩ := counts
    apply Attended.of_producers here <;> rw [waits]
    · intro waiting
      have := evensFull waiting (by decide)
      omega
    · intro waiting
      have := oddsFull waiting (by decide)
      omega
    · exact fun _ _ => same
    · intro waiting behind
      have := oddsFull waiting (by decide)
      omega
  | consOdd =>
    rw [same] at counts evensFull oddsFull
    obtain ⟨still, less⟩ := counts
    apply Attended.of_producers here <;> rw [waits]
    · rwa [still]
    · intro waiting
      have := oddsFull waiting (by decide)
      omega
    · intro waiting room
      have := evensFull waiting (by decide)
      omega
    · exact fun _ _ => .inr same

theorem wakes_first {own first : Kind} {rest : List Kind} {numOfWaiting : Kind → Nat} {b : Buffer}
    (true_ : first.guard b = true) (waiting : 0 < numOfWaiting first) :
    (Routine.mk own (first :: rest)).wakes numOfWaiting b = .cond first := by
  simp [Routine.wakes, true_, waiting]

theorem wakes_skip {own first : Kind} {rest : List Kind} {numOfWaiting : Kind → Nat} {b : Buffer}
    (passed : ¬ (0 < numOfWaiting first ∧ first.guard b = true)) :
    (Routine.mk own (first :: rest)).wakes numOfWaiting b = (Routine.mk own rest).wakes numOfWaiting b := by
  have skipped : (first.guard b && decide (numOfWaiting first > 0)) = false := by
    by_contra h
    rw [Bool.not_eq_false, Bool.and_eq_true, decide_eq_true_eq] at h
    exact passed ⟨h.2, h.1⟩
  simp only [Routine.wakes, List.find?_cons, skipped]

omit [Fintype T] [DecidableEq T] in
/-- At the end of the chain a waiting producer with a true condition is the one woken. -/
theorem Attended.wakes_producer {t : T} (attended : Attended kind s (.inr t)) (at_ : s.pc t = .handOff)
    {k : Kind} (producer : k = .prodEven ∨ k = .prodOdd) (waiting : 0 < s.numOfWaiting k)
    (true_ : k.guard s.buffer = true) :
    (routine (kind t)).wakes s.numOfWaiting s.buffer = .cond k := by
  have serving := attended.serving k waiting true_
  rcases producer with rfl | rfl
  · have same : kind t = .consEven := by simpa [State.Serving, at_] using serving
    rw [same]
    exact wakes_first true_ waiting
  · have same : kind t = .prodEven ∨ kind t = .consOdd := by simpa [State.Serving, at_] using serving
    rcases same with same | same <;> rw [same]
    · exact wakes_first true_ waiting
    · -- the producers of evens come first here, but their condition is false
      have idle : ¬ s.Serving kind .prodEven (.inr t) := by simp [State.Serving, at_, same]
      have passed : ¬ (0 < s.numOfWaiting .prodEven ∧ Kind.prodEven.guard s.buffer = true) :=
        fun both => idle (attended.serving _ both.1 both.2)
      exact (wakes_skip passed).trans (wakes_first true_ waiting)

omit [Fintype T] in
theorem Attended.handOff {t : T} {x : Sem} (attended : Attended kind s (.inr t)) (at_ : s.pc t = .handOff)
    (woken : (routine (kind t)).wakes s.numOfWaiting s.buffer = x)
    (served : ∀ k, k = .consEven ∨ k = .consOdd → kind t = k → x = .mutex →
      k.guard s.buffer = true → s.numOfWaiting k = 0) :
    Attended kind (((s.set x true).advance (kind t) t).goto t .start) (.inl x) := by
  refine ⟨by simpa using attended.evens, by simpa using attended.odds, ?_⟩
  simp only [goto_numOfWaiting, advance_numOfWaiting, set_numOfWaiting, goto_buffer, advance_buffer,
    set_buffer]
  intro k waiting true_
  by_cases producer : k = .prodEven ∨ k = .prodOdd
  · have same := attended.wakes_producer at_ producer waiting true_
    rw [woken] at same
    rcases producer with rfl | rfl <;> exact same
  · have consumer : k = .consEven ∨ k = .consOdd := by cases k <;> simp_all
    suffices notMutex : x ≠ .mutex by rcases consumer with rfl | rfl <;> exact notMutex
    intro mutex
    by_cases own : kind t = k
    · have := served k consumer own mutex true_
      omega
    · have := wakes_eq_mutex (woken.trans mutex) k ((mem_cascade_iff _ _).mpr (Ne.symm own)) true_
      omega

omit [Fintype T] [DecidableEq T] in
theorem calm_mutex : s.Calm (.inl .mutex) := rfl

omit [Fintype T] [DecidableEq T] in
theorem State.Calm.not_serving {place : Sem ⊕ T} (calm : s.Calm place) (k : Kind) :
    ¬ s.Serving kind k place := by
  rcases place with x | t
  · cases calm
    cases k <;> simp [State.Serving]
  · rcases calm with at_ | at_ <;> cases k <;> simp [State.Serving, at_]

omit [Fintype T] in
theorem Attended.enroll {t : T} (attended : Attended kind s (.inr t)) (at_ : s.pc t = .entered)
    (false_ : (kind t).guard s.buffer = false) :
    Attended kind ((s.count (kind t) (s.numOfWaiting (kind t) + 1)).goto t .counted) (.inr t) := by
  have calm : s.Calm (.inr t) := .inl at_
  have idle (k : Kind) : ¬ s.Serving kind k (.inr t) := calm.not_serving k
  refine ⟨?_, ?_, ?_⟩ <;> simp only [goto_numOfWaiting, count_numOfWaiting, goto_buffer, count_buffer]
  · intro waiting
    by_cases own : kind t = .prodEven
    · rw [own] at false_
      have := mt (guard_prodEven s.buffer).mpr (by simp [false_])
      omega
    · rw [Function.update_of_ne (Ne.symm own)] at waiting
      exact attended.evens waiting
  · intro waiting
    by_cases own : kind t = .prodOdd
    · rw [own] at false_
      have := mt (guard_prodOdd s.buffer).mpr (by simp [false_])
      omega
    · rw [Function.update_of_ne (Ne.symm own)] at waiting
      exact attended.odds waiting
  · intro k waiting true_
    have other : k ≠ kind t := by
      rintro rfl
      rw [false_] at true_
      cases true_
    rw [Function.update_of_ne other] at waiting
    exact absurd (attended.serving k waiting true_) (idle k)

theorem Attended.step {place : Sem ⊕ T} (attended : Attended kind s place) (permit : s.PermitAt place)
    (inv : Permits kind s) (guarded : Guarded kind s) (numbers : Numbers kind s) {t : T} {event : Event}
    (moved : Moves kind s t event s') (served : OwnKindServed kind s (t, event) s') :
    ∃ place', s'.PermitAt place' ∧ Attended kind s' place' := by
  have inv' := inv.step moved
  cases moved with
  -- what a step does to the place of the permit, and whether it is then serving somebody
  | enter at_ mutexOpen =>
    cases permit.open mutexOpen
    refine ⟨_, inv'.at_thread (t := t) (by simp [Pc.inside]), attended.frame rfl (fun _ => id) ?_⟩
    exact fun k serving => absurd serving (calm_mutex.not_serving k)
  | pass at_ true_ =>
    cases permit.inside (t := t) (by rw [at_]; rfl)
    refine ⟨_, inv'.at_thread (t := t) (by simp [Pc.inside]), attended.frame rfl (fun _ => id) ?_⟩
    exact fun k serving => absurd serving (State.Calm.not_serving (show s.Calm (.inr t) from .inl at_) k)
  | enroll at_ false_ =>
    cases permit.inside (t := t) (by rw [at_]; rfl)
    exact ⟨_, inv'.at_thread (t := t) (by simp [Pc.inside]), attended.enroll at_ false_⟩
  | leave at_ =>
    cases permit.inside (t := t) (by rw [at_]; rfl)
    refine ⟨.inl .mutex, inv'.at_lock (by simp), attended.frame rfl (fun _ => id) ?_⟩
    exact fun k serving => absurd serving (State.Calm.not_serving (show s.Calm (.inr t) from .inr at_) k)
  | wake at_ condOpen =>
    cases permit.open condOpen
    refine ⟨_, inv'.at_thread (t := t) (by simp [Pc.inside]), attended.frame rfl (fun _ => id) ?_⟩
    intro k serving
    cases k <;> simp_all [State.Serving]
  | resume at_ =>
    cases permit.inside (t := t) (by rw [at_]; rfl)
    refine ⟨_, inv'.at_thread (t := t) (by simp [Pc.inside]), attended.frame rfl ?_ ?_⟩
    · intro k waiting
      simp only [goto_numOfWaiting, count_numOfWaiting, Function.update_apply] at waiting
      split at waiting
      next same => subst same; omega
      next => exact waiting
    · intro k serving
      cases k <;> simp_all [State.Serving]
  | access at_ done =>
    cases permit.inside (t := t) (by rw [at_]; rfl)
    exact ⟨_, inv'.at_thread (t := t) (by simp [Pc.inside]),
      attended.access numbers at_ (guarded.armed t at_)⟩
  | @handOff x at_ woken =>
    cases permit.inside (t := t) (by rw [at_]; rfl)
    refine ⟨.inl x, inv'.at_lock (by simp), attended.handOff at_ woken ?_⟩
    rintro k consumer rfl mutex
    exact served (kind t) consumer rfl at_ (woken.trans mutex)

theorem attended_of_reachable (reached : ((system kind false).restrict (OwnKindServed kind)).Reachable s) :
    ∃ place, s.PermitAt place ∧ Attended kind s place := by
  refine reached.invariant_with (I := fun s => ∃ place, s.PermitAt place ∧ Attended kind s place)
    (fun _ => System.Reachable.of_restrict) ?_ ?_
  · rintro s rfl
    have permits : Permits kind (main kind false : State T) := permits_main
    obtain ⟨place, permit⟩ := permits.permit
    exact ⟨place, permit, by simp [main], by simp [main], by simp [main]⟩
  · rintro s label s' known ⟨place, permit, attended⟩ ⟨edge, served⟩
    exact attended.step permit (permits_of_reachable known) (guarded_of_reachable known)
      (numbers_of_reachable known) (moves_of_step edge) served

/-- In every run whose consumers serve their own kind before they give `mutex`
back, a free `mutex` leaves nobody waiting with a true condition. -/
theorem no_waiter_passed_over (kind : T → Kind) (scenario8 : Bool) (s : State T)
    (reached : ((system kind scenario8).restrict (OwnKindServed kind)).Reachable s)
    (free : s.isOpen .mutex = true) (k : Kind) (waiting : 0 < s.numOfWaiting k) :
    k.guard s.buffer = false := by
  cases scenario8 with
  | false =>
    obtain ⟨place, permit, attended⟩ := attended_of_reachable reached
    cases permit.open free
    exact attended.unserved waiting (calm_mutex.not_serving k)
  | true =>
    obtain ⟨history, run⟩ := reached.of_restrict
    obtain ⟨rfl, rfl⟩ := stuck_of_scenario8 run
    simp [main] at free

omit [Fintype T] in
/-- The condition says no more than the law needs: a step that breaks it leads
to a free `mutex` with a waiting thread whose condition is true. -/
theorem passed_over_of_unserved {t : T} {event : Event} (moved : Moves kind s t event s')
    (unserved : ¬ OwnKindServed kind s (t, event) s') :
    s'.isOpen .mutex = true ∧ ∃ k, 0 < s'.numOfWaiting k ∧ k.guard s'.buffer = true := by
  unfold OwnKindServed at unserved
  push Not at unserved
  obtain ⟨_, _, rfl, at_, mutex, true_, waiting⟩ := unserved
  cases moved with
  | @handOff x _ woken =>
    rw [mutex] at woken
    subst woken
    exact ⟨by simp, kind t, by simpa [Nat.pos_iff_ne_zero] using waiting, by simpa using true_⟩
  | _ => simp_all

theorem ownKindServed_of_single
    (single : ∀ t u, kind t = kind u → kind t = .consEven ∨ kind t = .consOdd → t = u)
    (reached : (system kind false).Reachable s) (label : T × Event) : OwnKindServed kind s label s' := by
  rintro k consumer rfl at_ _ _
  rw [(permits_of_reachable reached).enrolled, population_eq_zero_iff]
  rintro u ⟨same, listed⟩
  obtain rfl := single u label.1 same (same ▸ consumer)
  rw [at_] at listed
  cases listed

theorem no_waiter_passed_over_of_single
    (single : ∀ t u, kind t = kind u → kind t = .consEven ∨ kind t = .consOdd → t = u)
    (reached : (system kind false).Reachable s) (free : s.isOpen .mutex = true) {k : Kind}
    (waiting : 0 < s.numOfWaiting k) : k.guard s.buffer = false := by
  have met : ((system kind false).restrict (OwnKindServed kind)).Reachable s := reached.restrict
    fun _ label _ earlier _ => ownKindServed_of_single single earlier label
  obtain ⟨place, permit, attended⟩ := attended_of_reachable met
  cases permit.open free
  exact attended.unserved waiting (calm_mutex.not_serving k)

end

def crew : Fin 5 → Kind
  | 0 => .prodEven
  | 1 => .prodOdd
  | 2 | 3 => .consEven
  | 4 => .consOdd

/-- `0, 1, 2, .., 12` are appended and `0` is taken; both consumers of evens then
find `1` at the head and wait; `1` is taken, one of them is woken and takes `2`. -/
def crewSchedule : List (Fin 5) :=
  [0, 0, 0, 0, 1, 1, 1, 1, 0, 0, 0, 0, 0, 0, 0, 0, 0, 0, 0, 0, 2, 2, 2, 2, 0, 0, 0, 0, 0, 0, 0, 0,
    0, 0, 0, 0, 2, 2, 2, 3, 3, 3, 4, 4, 4, 4, 2, 2, 2, 2]

/-- The second consumer of evens is passed over: `mutex` is free, the thread is
counted as waiting and its condition is true. -/
theorem waiter_passed_over : ∃ s, (system crew false).Reachable s ∧ s.isOpen .mutex = true ∧
    0 < s.numOfWaiting .consEven ∧ canConsEven s.buffer = true := by
  have played : play crew (main crew false) crewSchedule = some _ := rfl
  exact ⟨_, ⟨_, run_play (.start rfl) played⟩, by decide, by decide, by decide⟩

theorem no_waiter_passed_over_single :
    ∃ final, play id (main id false) [.consEven, .consEven, .consEven] = some final ∧
      0 < final.2.numOfWaiting .consEven ∧ Kind.consEven.guard final.2.buffer = false := by
  have played : play id (main id false) [.consEven, .consEven, .consEven] = some _ := rfl
  have reached : (system id false).Reachable _ := ⟨_, run_play (.start rfl) played⟩
  have met : ((system id false).restrict (OwnKindServed id)).Reachable _ := reached.restrict
    fun _ label _ earlier _ => ownKindServed_of_single (fun _ _ same _ => same) earlier label
  exact ⟨_, played, by decide, no_waiter_passed_over id false _ met rfl .consEven (by decide)⟩

end SoiStud.Semaphores
