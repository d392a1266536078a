import SoiStud.Buffer
import SoiStud.Library.Transition
import Mathlib.Logic.Function.Basic

/-! The monitor solution of the producer/consumer exercise (`monitor.h` and
`ConsProdMonitor.cpp`).

The semaphores of the classes `Monitor` and `Condition` count; a thread moves
through its call one operation on a semaphore, a counter or the buffer at a time.
-/

set_option autoImplicit false

namespace SoiStud.Monitor

/-- The conditions that the final if/else chain of a call tests, in its order. -/
def chain : Kind → List Kind
  | .prodEven => [.prodOdd, .consEven, .consOdd]
  | .prodOdd => [.prodEven, .consEven, .consOdd]
  | .consEven => [.prodEven, .prodOdd, .consOdd]
  | .consOdd => [.prodEven, .prodOdd, .consEven]

/-- Where a thread is in `putEven`, `putOdd`, `getEven` or `getOdd`. -/
inductive Pc where
  /-- before `enter()`, the last call having ended with `leave()` if there was one -/
  | start
  /-- before `enter()`, the last call having ended without `leave()` -/
  | back
  /-- before the test of the thread's own condition -/
  | entered
  /-- before the increment of its `numOf..Waiting` -/
  | failed
  /-- before the `leave()` in front of `wait()` -/
  | counted
  /-- in `Monitor::wait`, before `++cond.waitingCount` -/
  | left
  /-- before the `leave()` in `Monitor::wait` -/
  | queued
  /-- before `w.p()` -/
  | waiting
  /-- before the decrement of its `numOf..Waiting` -/
  | woken
  /-- before `buffer.put` or `buffer.get` -/
  | access
  /-- in the if/else chain, with the conditions that are still to be tested -/
  | testing (rest : List Kind)
  /-- the condition of `k` is true, before the test of its `numOf..Waiting` -/
  | checking (k : Kind) (rest : List Kind)
  /-- before the `leave()` at the end of the chain -/
  | leaving
  /-- in `Condition::signal`, before `if( waitingCount )` -/
  | signalling (k : Kind)
  /-- before `--waitingCount` -/
  | lowering (k : Kind)
  /-- before `w.v()` -/
  | posting (k : Kind)
  /-- before the `enter()` in `Monitor::signal` -/
  | reenter
  deriving DecidableEq, Repr

/-- What a step does to the buffer. -/
inductive Event where
  | silent
  | appended (num : Int)
  | received (val : Int)
  deriving DecidableEq, Repr

/-- `s` is the semaphore of the monitor, `w` and `waitingCount` belong to the
four conditions, `numOfWaiting` holds the counters `numOfProdEvenWaiting`, ..,
`numOfConsOddWaiting`; `i` is the loop variable of a producer. -/
structure State (T : Type) where
  pc : T → Pc
  i : T → Int
  s : Nat
  w : Kind → Nat
  waitingCount : Kind → Int
  numOfWaiting : Kind → Nat
  buffer : Buffer

def main {T : Type} (kind : T → Kind) : State T where
  pc _ := .start
  i t := if kind t = .prodOdd then 1 else 0
  s := 1
  w _ := 0
  waitingCount _ := 0
  numOfWaiting _ := 0
  buffer := ⟨[]⟩

def useBuffer (k : Kind) (num : Int) (buffer : Buffer) : Event × Buffer :=
  match k with
  | .prodEven | .prodOdd => (.appended num, buffer.put num)
  | .consEven | .consOdd => (.received buffer.get.1, buffer.get.2)

/-- `i = (i+2) % 50` after a producer's call. -/
def following (k : Kind) (i : Int) : Int :=
  match k with
  | .prodEven | .prodOdd => (i + 2) % 50
  | .consEven | .consOdd => i

section
variable {T : Type} [DecidableEq T]

def State.goto (s : State T) (t : T) (p : Pc) : State T := { s with pc := Function.update s.pc t p }

def State.finish (kind : T → Kind) (s : State T) (t : T) (p : Pc) : State T :=
  { s with pc := Function.update s.pc t p, i := Function.update s.i t (following (kind t) (s.i t)) }

def State.lower (s : State T) (k : Kind) : State T :=
  { s with waitingCount := Function.update s.waitingCount k (s.waitingCount k - 1) }

def State.raise (s : State T) (k : Kind) : State T :=
  { s with waitingCount := Function.update s.waitingCount k (s.waitingCount k + 1) }

def State.count (s : State T) (k : Kind) (n : Nat) : State T :=
  { s with numOfWaiting := Function.update s.numOfWaiting k n }

def State.permits (s : State T) (k : Kind) (n : Nat) : State T := { s with w := Function.update s.w k n }

/-- The next step of thread `t`, if it is not blocked at a semaphore. -/
def step (kind : T → Kind) (s : State T) (t : T) : Option (Event × State T) :=
  let own := kind t
  match s.pc t with
  | .start | .back => if s.s > 0 then some (.silent, { s with s := s.s - 1 }.goto t .entered) else none
  | .entered => some (.silent, s.goto t (if own.guard s.buffer then .access else .failed))
  | .failed => some (.silent, (s.count own (s.numOfWaiting own + 1)).goto t .counted)
  | .counted => some (.silent, { s with s := s.s + 1 }.goto t .left)
  | .left => some (.silent, (s.raise own).goto t .queued)
  -- `wait` releases the monitor as well
  | .queued => some (.silent, { s with s := s.s + 1 }.goto t .waiting)
  | .waiting => if s.w own > 0 then some (.silent, (s.permits own (s.w own - 1)).goto t .woken) else none
  | .woken => some (.silent, (s.count own (s.numOfWaiting own - 1)).goto t .access)
  | .access =>
      let (event, buffer) := useBuffer own (s.i t) s.buffer
      some (event, { s with buffer := buffer }.goto t (.testing (chain own)))
  | .testing [] => some (.silent, s.goto t .leaving)
  | .testing (k :: rest) =>
      some (.silent, s.goto t (if k.guard s.buffer then .checking k rest else .testing rest))
  | .checking k rest => some (.silent, s.goto t (if s.numOfWaiting k > 0 then .signalling k else .testing rest))
  | .leaving => some (.silent, { s with s := s.s + 1 }.finish kind t .start)
  -- without a waiter in `waitingCount` the call ends here, and nothing is released
  | .signalling k =>
      some (.silent, if s.waitingCount k ≠ 0 then s.goto t (.lowering k) else s.finish kind t .back)
  | .lowering k => some (.silent, (s.lower k).goto t (.posting k))
  | .posting k => some (.silent, (s.permits k (s.w k + 1)).goto t .reenter)
  -- the monitor is entered again, and the call ends without leaving it
  | .reenter => if s.s > 0 then some (.silent, { s with s := s.s - 1 }.finish kind t .back) else none

def system (kind : T → Kind) : Library.System (State T) (T × Event) where
  init s := s = main kind
  step s label s' := step kind s label.1 = some (label.2, s')

inductive Moves (kind : T → Kind) (s : State T) (t : T) : Event → State T → Prop where
  | enter : (s.pc t = .start ∨ s.pc t = .back) → 0 < s.s →
      Moves kind s t .silent ({ s with s := s.s - 1 }.goto t .entered)
  | pass : s.pc t = .entered → (kind t).guard s.buffer = true → Moves kind s t .silent (s.goto t .access)
  | fail : s.pc t = .entered → (kind t).guard s.buffer = false → Moves kind s t .silent (s.goto t .failed)
  | count : s.pc t = .failed →
      Moves kind s t .silent ((s.count (kind t) (s.numOfWaiting (kind t) + 1)).goto t .counted)
  | leaveFirst : s.pc t = .counted → Moves kind s t .silent ({ s with s := s.s + 1 }.goto t .left)
  | queue : s.pc t = .left → Moves kind s t .silent ((s.raise (kind t)).goto t .queued)
  | leaveAgain : s.pc t = .queued → Moves kind s t .silent ({ s with s := s.s + 1 }.goto t .waiting)
  | wake : s.pc t = .waiting → 0 < s.w (kind t) →
      Moves kind s t .silent ((s.permits (kind t) (s.w (kind t) - 1)).goto t .woken)
  | resume : s.pc t = .woken →
      Moves kind s t .silent ((s.count (kind t) (s.numOfWaiting (kind t) - 1)).goto t .access)
  | access {event : Event} {buffer : Buffer} : s.pc t = .access →
      useBuffer (kind t) (s.i t) s.buffer = (event, buffer) →
      Moves kind s t event ({ s with buffer := buffer }.goto t (.testing (chain (kind t))))
  | exhausted : s.pc t = .testing [] → Moves kind s t .silent (s.goto t .leaving)
  | found {k : Kind} {rest : List Kind} : s.pc t = .testing (k :: rest) → k.guard s.buffer = true →
      Moves kind s t .silent (s.goto t (.checking k rest))
  | skip {k : Kind} {rest : List Kind} : s.pc t = .testing (k :: rest) → k.guard s.buffer = false →
      Moves kind s t .silent (s.goto t (.testing rest))
  | choose {k : Kind} {rest : List Kind} : s.pc t = .checking k rest → 0 < s.numOfWaiting k →
      Moves kind s t .silent (s.goto t (.signalling k))
  | nobody {k : Kind} {rest : List Kind} : s.pc t = .checking k rest → s.numOfWaiting k = 0 →
      Moves kind s t .silent (s.goto t (.testing rest))
  | leave : s.pc t = .leaving → Moves kind s t .silent ({ s with s := s.s + 1 }.finish kind t .start)
  | signal {k : Kind} : s.pc t = .signalling k → s.waitingCount k ≠ 0 →
      Moves kind s t .silent (s.goto t (.lowering k))
  | signalFails {k : Kind} : s.pc t = .signalling k → s.waitingCount k = 0 →
      Moves kind s t .silent (s.finish kind t .back)
  | lower {k : Kind} : s.pc t = .lowering k → Moves kind s t .silent ((s.lower k).goto t (.posting k))
  | post {k : Kind} : s.pc t = .posting k →
      Moves kind s t .silent ((s.permits k (s.w k + 1)).goto t .reenter)
  | enterAgain : s.pc t = .reenter → 0 < s.s →
      Moves kind s t .silent ({ s with s := s.s - 1 }.finish kind t .back)

theorem moves_of_step {kind : T → Kind} {s s' : State T} {t : T} {event : Event}
    (moved : step kind s t = some (event, s')) : Moves kind s t event s' := by
  unfold step at moved
  cases at_ : s.pc t with
  | start =>
    simp only [at_] at moved
    split at moved
    next isOpen => cases moved; exact .enter (.inl at_) isOpen
    next => cases moved
  | back =>
    simp only [at_] at moved
    split at moved
    next isOpen => cases moved; exact .enter (.inr at_) isOpen
    next => cases moved
  | entered =>
    simp only [at_] at moved
    split at moved
    next true_ => cases moved; exact .pass at_ true_
    next false_ => cases moved; exact .fail at_ (Bool.not_eq_true _ ▸ false_)
  | failed => simp only [at_] at moved; cases moved; exact .count at_
  | counted => simp only [at_] at moved; cases moved; exact .leaveFirst at_
  | left => simp only [at_] at moved; cases moved; exact .queue at_
  | queued => simp only [at_] at moved; cases moved; exact .leaveAgain at_
  | waiting =>
    simp only [at_] at moved
    split at moved
    next posted => cases moved; exact .wake at_ posted
    next => cases moved
  | woken => simp only [at_] at moved; cases moved; exact .resume at_
  | access => simp only [at_] at moved; cases moved; exact .access at_ rfl
  | testing rest =>
    cases rest with
    | nil => simp only [at_] at moved; cases moved; exact .exhausted at_
    | cons k rest =>
      simp only [at_] at moved
      split at moved
      next true_ => cases moved; exact .found at_ true_
      next false_ => cases moved; exact .skip at_ (Bool.not_eq_true _ ▸ false_)
  | checking k rest =>
    simp only [at_] at moved
    split at moved
    next some_ => cases moved; exact .choose at_ some_
    next none_ => cases moved; exact .nobody at_ (Nat.eq_zero_of_not_pos none_)
  | leaving => simp only [at_] at moved; cases moved; exact .leave at_
  | signalling k =>
    simp only [at_] at moved
    split at moved
    next some_ => cases moved; exact .signal at_ some_
    next none_ => cases moved; exact .signalFails at_ (not_not.mp none_)
  | lowering k => simp only [at_] at moved; cases moved; exact .lower at_
  | posting k => simp only [at_] at moved; cases moved; exact .post at_
  | reenter =>
    simp only [at_] at moved
    split at moved
    next isOpen => cases moved; exact .enterAgain at_ isOpen
    next => cases moved

/-- The runs in which a thread moves only when it is allowed to. -/
def supervised (kind : T → Kind) (allowed : State T → T → Prop) : Library.System (State T) (T × Event) :=
  (system kind).restrict fun s label _ => allowed s label.1

section
variable {kind : T → Kind} {allowed : State T → T → Prop} [∀ s t, Decidable (allowed s t)]

def play (kind : T → Kind) (allowed : State T → T → Prop) [∀ s t, Decidable (allowed s t)] :
    State T → List T → Option (State T)
  | s, [] => some s
  | s, t :: rest =>
    if allowed s t then (step kind s t).bind fun moved => play kind allowed moved.2 rest else none

theorem reachable_play {s final : State T} {schedule : List T} (reached : (supervised kind allowed).Reachable s)
    (played : play kind allowed s schedule = some final) : (supervised kind allowed).Reachable final := by
  induction schedule generalizing s with
  | nil =>
    cases played
    exact reached
  | cons t rest ih =>
    rw [play] at played
    split at played
    next met =>
      obtain ⟨⟨event, next⟩, moved, later⟩ := Option.bind_eq_some_iff.mp played
      have edge : (supervised kind allowed).step s (t, event) next := ⟨moved, met⟩
      exact ih (reached.next edge) later
    next => cases played

def anyStep (_ : State T) (_ : T) : Prop := True

instance (s : State T) (t : T) : Decidable (anyStep s t) := inferInstanceAs (Decidable True)

theorem reachable_of_play {final : State T} {schedule : List T}
    (played : play kind anyStep (main kind) schedule = some final) : (system kind).Reachable final :=
  (reachable_play (.start rfl) played).of_restrict

end

end

theorem mem_chain_iff (k other : Kind) : other ∈ chain k ↔ other ≠ k := by
  cases k <;> cases other <;> decide

end SoiStud.Monitor
