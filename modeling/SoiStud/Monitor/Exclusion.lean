import SoiStud.Library.Weight
import SoiStud.Monitor.Model

/-! Who is inside the monitor.

A thread whose condition is false releases the monitor twice before it waits,
once in its call and once in `Monitor::wait`. Up to the first of the two there
is one permit for all; after the second there are two.
-/

set_option autoImplicit false

namespace SoiStud.Monitor

open Library

variable {T : Type} [Fintype T] [DecidableEq T] {kind : T → Kind} {s s' : State T}

/-- Between returning from `enter()` or `w.p()` and the next `leave()` or `w.v()`,
also after a call that has ended without either. -/
def Pc.inMonitor : Pc → Bool
  | .start | .left | .queued | .waiting | .reenter => false
  | .back | .entered | .failed | .counted | .woken | .access | .testing _ | .checking _ _ | .leaving | .signalling _
  | .lowering _ | .posting _ => true

def Pc.shares : Pc → Bool
  | .entered | .failed | .left | .woken | .access | .testing _ | .checking _ _ | .signalling _ | .lowering _ => true
  | .start | .back | .counted | .queued | .waiting | .leaving | .posting _ | .reenter => false

/-- In `Monitor::wait`, or past the test of `Condition::signal`. -/
def Pc.handsOver : Pc → Bool
  | .left | .queued | .waiting | .woken | .lowering _ | .posting _ | .reenter => true
  | .start | .back | .entered | .failed | .counted | .access | .testing _ | .checking _ _ | .leaving
  | .signalling _ => false

def Keeps (s : State T) (t : T) : Prop := s.pc t ≠ .counted

instance (s : State T) (t : T) : Decidable (Keeps s t) := inferInstanceAs (Decidable (s.pc t ≠ .counted))

def inMonitor (p : Pc) : Int := if p.inMonitor then 1 else 0

theorem inMonitor_nonneg (p : Pc) : 0 ≤ inMonitor p := by
  unfold inMonitor
  split <;> decide

/-- One permit, in the semaphore or in a thread; nobody has released it in front of `wait()`. -/
structure Exclusive (s : State T) : Prop where
  permit : s.s + weightOf (fun _ => inMonitor) s.pc ≤ 1
  kept : ∀ t, (s.pc t).handsOver = false
  nobody : ∀ k, s.waitingCount k = 0

omit [DecidableEq T] in
theorem exclusive_main : Exclusive (main kind : State T) where
  permit := by
    have outside : weightOf (fun _ => inMonitor) (main kind : State T).pc = 0 := weightOf_eq_zero fun _ => rfl
    have one : (main kind : State T).s = 1 := rfl
    rw [outside, one]
    decide
  kept _ := rfl
  nobody _ := rfl

omit [Fintype T] in
theorem Moves.permit {t : T} {event : Event} (moved : Moves kind s t event s') (kept : s.pc t ≠ .counted)
    (here : (s.pc t).handsOver = false) (nobody : ∀ k, s.waitingCount k = 0) :
    ∃ p, s'.pc = Function.update s.pc t p ∧ p.handsOver = false ∧ s'.waitingCount = s.waitingCount ∧
      s'.s + inMonitor p ≤ s.s + inMonitor (s.pc t) := by
  cases moved with
  | enter at_ isOpen =>
    refine ⟨_, rfl, rfl, rfl, ?_⟩
    rcases at_ with at_ | at_
    all_goals
      simp only [State.goto, at_, inMonitor, Pc.inMonitor]
      grind
  | leaveFirst at_ => exact absurd at_ kept
  | leave at_ =>
    refine ⟨_, rfl, rfl, rfl, ?_⟩
    simp [State.finish, at_, inMonitor, Pc.inMonitor]
  | signal at_ some_ => exact absurd (nobody _) some_
  | signalFails at_ none_ =>
    refine ⟨_, rfl, rfl, rfl, ?_⟩
    simp [State.finish, at_, inMonitor, Pc.inMonitor]
  -- the steps of `wait` and of a `signal` that finds a waiter
  | queue at_ | leaveAgain at_ | wake at_ | resume at_ | lower at_ | post at_ | enterAgain at_ =>
    rw [at_] at here
    cases here
  | _ at_ =>
    refine ⟨_, rfl, rfl, rfl, ?_⟩
    simp [State.goto, State.count, at_, inMonitor, Pc.inMonitor]

theorem Exclusive.step (exclusive : Exclusive s) {t : T} {event : Event} (moved : Moves kind s t event s')
    (kept : s.pc t ≠ .counted) : Exclusive s' := by
  obtain ⟨p, pc, stays, counts, bound⟩ := moved.permit kept (exclusive.kept t) exclusive.nobody
  have permit := exclusive.permit
  refine ⟨?_, ?_, fun k => counts ▸ exclusive.nobody k⟩
  · rw [pc, weightOf_update]
    omega
  · intro u
    rw [pc, Function.update_apply]
    split
    · exact stays
    · exact exclusive.kept u

theorem exclusive_of_reachable (reached : (supervised kind Keeps).Reachable s) : Exclusive s :=
  reached.invariant (fun _ initial => initial ▸ exclusive_main)
    fun _ _ _ exclusive edge => exclusive.step (moves_of_step edge.1) edge.2

theorem Exclusive.alone (exclusive : Exclusive s) {t u : T} (first : (s.pc t).inMonitor = true)
    (second : (s.pc u).inMonitor = true) : t = u := by
  by_contra distinct
  have both := add_le_weightOf (fun _ => inMonitor) s.pc (fun v => inMonitor_nonneg _) distinct
  have permit := exclusive.permit
  simp only [inMonitor, first, second, if_true] at both permit
  omega

/-- An access to the shared state by a thread that does not wait is made inside. -/
theorem Pc.inMonitor_of_shares {p : Pc} (shared : p.shares = true) (kept : p.handsOver = false) :
    p.inMonitor = true := by
  cases p <;> simp_all [Pc.shares, Pc.handsOver, Pc.inMonitor]

/-- While no thread executes the `leave()` in front of `wait()`, there is one thread
in the monitor at most, and nobody else accesses the buffer or a counter. -/
theorem one_in_monitor (kind : T → Kind) (s : State T) (reached : (supervised kind Keeps).Reachable s) :
    (∀ t u, (s.pc t).inMonitor = true → (s.pc u).inMonitor = true → t = u) ∧
    ∀ t u, (s.pc t).shares = true → (s.pc u).shares = true → t = u := by
  have exclusive := exclusive_of_reachable reached
  have inside {v : T} (shared : (s.pc v).shares = true) : (s.pc v).inMonitor = true :=
    Pc.inMonitor_of_shares shared (exclusive.kept v)
  exact ⟨fun t u => exclusive.alone, fun t u first second => exclusive.alone (inside first) (inside second)⟩

theorem one_in_monitor_putEven : ∃ s,
    play id Keeps (main id) [.prodEven, .prodEven, .prodEven, .prodEven] = some s ∧
    s.pc .prodEven = .checking .prodOdd [.consEven, .consOdd] ∧
      ∀ u, (s.pc u).inMonitor = true → u = .prodEven := by
  have played : play id Keeps (main id) [.prodEven, .prodEven, .prodEven, .prodEven] = some _ := rfl
  have reached := reachable_play (.start rfl) played
  exact ⟨_, played, rfl, fun u inside => (one_in_monitor id _ reached).1 u .prodEven inside rfl⟩

/-- A consumer of evens waits, which leaves two permits; `putEven` and `putOdd` reach the buffer together. -/
theorem two_access : ∃ s, (system id).Reachable s ∧ s.pc .prodEven = .access ∧ s.pc .prodOdd = .access := by
  have played : play id anyStep (main id) [.prodEven, .prodEven, .prodEven, .prodEven, .prodEven, .prodEven,
    .prodEven, .prodEven, .prodEven, .consEven, .consEven, .consEven, .consEven, .prodEven, .prodEven, .consEven,
    .consEven, .prodOdd, .prodOdd] = some _ := rfl
  exact ⟨_, reachable_of_play played, rfl, rfl⟩

theorem Exclusive.outside (exclusive : Exclusive s) {t u : T} (inside : (s.pc t).inMonitor = true)
    (other : u ≠ t) : s.pc u = .start := by
  have kept := exclusive.kept u
  have out : (s.pc u).inMonitor = false := Bool.eq_false_iff.mpr fun also => other (exclusive.alone also inside)
  cases at_ : s.pc u <;> simp_all [Pc.handsOver, Pc.inMonitor]

/-- After that `leave()` and the one in `Monitor::wait` two more threads get in. -/
theorem two_in_monitor (reached : (supervised kind Keeps).Reachable s) {t u v : T}
    (at_ : s.pc t = .counted) (first : u ≠ t) (second : v ≠ t) (distinct : u ≠ v) :
    ∃ s', (system kind).Reachable s' ∧ (s'.pc u).inMonitor = true ∧ (s'.pc v).inMonitor = true := by
  have exclusive := exclusive_of_reachable reached
  have inside : (s.pc t).inMonitor = true := by rw [at_]; rfl
  have start := exclusive.outside inside first
  have start' := exclusive.outside inside second
  have played : ∃ s', play kind anyStep s [t, t, t, u, v] = some s' ∧ s'.pc u = .entered ∧ s'.pc v = .entered := by
    simp [play, anyStep, step, State.goto, State.raise, at_, start, start', first, second, distinct, distinct.symm]
  obtain ⟨s', played, inU, inV⟩ := played
  have free : (supervised kind anyStep).Reachable s := reached.of_restrict.restrict fun _ _ _ _ _ => trivial
  exact ⟨s', (reachable_play free played).of_restrict, by rw [inU]; rfl, by rw [inV]; rfl⟩

end SoiStud.Monitor
