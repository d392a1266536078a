import Mathlib.Algebra.Ring.Nat
import Mathlib.Data.List.Basic
import Mathlib.Logic.Function.Basic
import SoiStud.Library.Ticks

/-! The clock task of the kernel (`clock.c`): the interrupt handler, the work
done for a message of it, and the ready queue of the user processes.

Processes are an arbitrary type; a pointer that may be `NIL_PROC` is an option.
Times have 32 bits and wrap; the ticks that processes are charged are numbers.
-/

set_option autoImplicit false

namespace SoiStud.Kernel

def MILLISEC : Nat := 100

def LONG_MAX : Int32 := 2147483647

def PENDING : Nat := 0x08

def SIG_PENDING : Nat := 0x10

/-- A function in `watch_dog`: `cause_alarm`, or one that a task has given. -/
inductive WatchDog where
  | causeAlarm
  | ofTask (function : Nat)
  deriving DecidableEq, Repr

/-- What the process table holds for the signal of an alarm. -/
structure Entry where
  /-- `SIGALRM` is a member of `p_pending`. -/
  sigAlrm : Bool
  pendCount : Nat
  pFlags : Nat
  deriving DecidableEq, Repr

/-- The variables of the clock task and what it uses of the process table. -/
structure State (Proc : Type) where
  /-- from `rdy_head[USER_Q]` along `p_nextready` -/
  readyQueue : List Proc
  procGrp : Proc → Int
  entry : Proc → Entry
  /-- `p_alarm`, 0 if there is none -/
  alarm : Proc → Int32
  watchDog : Proc → Option WatchDog
  userTime : Proc → Nat
  sysTime : Proc → Nat
  procPtr : Proc
  billPtr : Proc
  prevPtr : Option Proc
  schedTicks : Int
  realtime : Int32
  pendingTicks : Int32
  nextAlarm : Int32
  lostTicks : Nat

/-- What is outside `clock.c`: the machine, and the routines of `proc.c` and of
those who set alarms. -/
structure Machine (Proc : Type) where
  hz : Nat
  /-- There is at least one tick in a quantum. -/
  quantum_pos : 0 < MILLISEC * hz / 1000
  idle : Proc
  hardware : Proc
  /-- `BEG_PROC_ADDR .. END_PROC_ADDR` -/
  procs : List Proc
  /-- The call of a watch dog for a process. -/
  callDog : WatchDog → Proc → State Proc → State Proc
  lockUnready : Proc → State Proc → State Proc
  lockSched : List Proc → List Proc
  lockSched_cons : ∀ h rest, lockSched (h :: rest) = rest ++ [h]
  pickProc : State Proc → State Proc
  pickProc_cons : ∀ s h rest, s.readyQueue = h :: rest → pickProc s = { s with procPtr := h, billPtr := h }

namespace Machine

/-- `SCHED_RATE` -/
def schedRate {Proc : Type} (m : Machine Proc) : Nat := MILLISEC * m.hz / 1000

theorem schedRate_pos {Proc : Type} (m : Machine Proc) : 0 < m.schedRate := m.quantum_pos

section
variable {Proc : Type} [DecidableEq Proc] (m : Machine Proc)

/-- `clock_handler`; tells whether the clock task is to be run. `reentered` is `k_reenter != 0`. -/
def clockHandler (reentered : Bool) (s : State Proc) : Bool × State Proc :=
  let rp := if reentered then m.hardware else s.procPtr
  let ticks := s.lostTicks + 1
  let s := { s with lostTicks := 0, userTime := Function.update s.userTime rp (s.userTime rp + ticks) }
  let s := if rp ≠ s.billPtr ∧ rp ≠ m.idle
    then { s with sysTime := Function.update s.sysTime s.billPtr (s.sysTime s.billPtr + ticks) } else s
  let s := { s with pendingTicks := s.pendingTicks + .ofNat ticks }
  let now := s.realtime + s.pendingTicks
  if s.nextAlarm ≤ now ∨ s.schedTicks = 1 ∧ some s.billPtr = s.prevPtr ∧ s.readyQueue ≠ [] then (true, s)
  else
    let s := { s with schedTicks := s.schedTicks - 1 }
    -- the quantum is reset to the one of group 1, whoever is running
    if s.schedTicks = 0 then (false, { s with schedTicks := m.schedRate, prevPtr := some s.billPtr })
    else (false, s)

/-- `cause_sig` of `SIGALRM`, up to the message to MM. -/
def causeSig (p : Proc) (s : State Proc) : State Proc :=
  let rp := s.entry p
  if rp.sigAlrm then s
  else
    let rp := { rp with sigAlrm := true, pendCount := rp.pendCount + 1 }
    if rp.pFlags &&& PENDING ≠ 0 then { s with entry := Function.update s.entry p rp }
    else
      let s := if rp.pFlags = 0 then m.lockUnready p s else s
      { s with entry := Function.update s.entry p { rp with pFlags := rp.pFlags ||| (PENDING ||| SIG_PENDING) } }

/-- The watch dog of a process, or the signal for it. -/
def alarmRings (p : Proc) (s : State Proc) : State Proc :=
  match s.watchDog p with
  | some function => m.callDog function p s
  | none => m.causeSig p s

/-- The loop of `do_clocktick` over the process table. -/
def ringAlarms : List Proc → State Proc → State Proc
  | [], s => s
  | rp :: rest, s =>
    let s := if s.alarm rp ≠ 0 ∧ s.alarm rp ≤ s.realtime then
        let s := m.alarmRings rp s
        { s with alarm := Function.update s.alarm rp 0 }
      else s
    let s := if s.alarm rp ≠ 0 ∧ s.alarm rp < s.nextAlarm then { s with nextAlarm := s.alarm rp } else s
    ringAlarms rest s

/-- `do_clocktick` without an interrupt in it; `none` if it reads through a null pointer. -/
def doClocktick (s : State Proc) : Option (State Proc) :=
  let s := if s.nextAlarm ≤ s.realtime then m.ringAlarms m.procs { s with nextAlarm := LONG_MAX } else s
  let s := { s with schedTicks := s.schedTicks - 1 }
  if s.schedTicks = 0 then
    let s := if some s.billPtr = s.prevPtr then { s with readyQueue := m.lockSched s.readyQueue } else s
    match s.readyQueue with
    | [] => none
    | head :: _ =>
      let quantum : Nat := if s.procGrp head = 2 then 2 * m.schedRate else m.schedRate
      some { s with schedTicks := quantum, prevPtr := some s.billPtr }
  else some s

def hardInt (s : State Proc) : Option (State Proc) :=
  m.doClocktick { s with realtime := s.realtime + s.pendingTicks, pendingTicks := 0 }

/-- A clock interrupt while a process runs: if the clock task is run, a process
is picked again after it. -/
def tick (s : State Proc) : Option (State Proc) :=
  let (interrupted, s) := m.clockHandler false s
  if interrupted then (m.hardInt s).map m.pickProc else some s

def run : Nat → State Proc → Option (State Proc)
  | 0, s => some s
  | n + 1, s => (m.tick s).bind (run n)

theorem run_add (k n : Nat) (s : State Proc) : m.run (k + n) s = (m.run k s).bind (m.run n) := by
  induction k generalizing s with
  | zero => rw [Nat.zero_add]; rfl
  | succ k ih =>
    rw [Nat.add_right_comm, run, run, Option.bind_assoc]
    exact congrArg _ (funext fun t => ih t)

end
end Machine

namespace State

variable {Proc : Type} (s : State Proc)

def now : Int32 := s.realtime + s.pendingTicks

def charged (p : Proc) : Nat := s.userTime p + s.sysTime p

def Due (p : Proc) : Prop := s.alarm p ≠ 0 ∧ s.alarm p ≤ s.realtime

instance (p : Proc) : Decidable (s.Due p) := inferInstanceAs (Decidable (s.alarm p ≠ 0 ∧ s.alarm p ≤ s.realtime))

/-- `realtime += pending_ticks` -/
def transferred : State Proc := { s with realtime := s.realtime + s.pendingTicks, pendingTicks := 0 }

@[simp] theorem transferred_now : s.transferred.now = s.now := Int32.add_zero _

structure Keeps (s t : State Proc) : Prop where
  alarm : t.alarm = s.alarm
  watchDog : t.watchDog = s.watchDog
  schedTicks : t.schedTicks = s.schedTicks
  prevPtr : t.prevPtr = s.prevPtr
  realtime : t.realtime = s.realtime
  pendingTicks : t.pendingTicks = s.pendingTicks
  nextAlarm : t.nextAlarm = s.nextAlarm

theorem Keeps.refl : s.Keeps s := ⟨rfl, rfl, rfl, rfl, rfl, rfl, rfl⟩

end State

/-! ## What the handler and the clock task do -/

section
variable {Proc : Type} [DecidableEq Proc]

def State.Interrupts (s : State Proc) : Prop :=
  s.nextAlarm ≤ s.now + .ofNat (s.lostTicks + 1) ∨ s.schedTicks = 1 ∧ some s.billPtr = s.prevPtr ∧ s.readyQueue ≠ []

instance (s : State Proc) : Decidable s.Interrupts :=
  inferInstanceAs (Decidable (s.nextAlarm ≤ s.now + .ofNat (s.lostTicks + 1) ∨
    s.schedTicks = 1 ∧ some s.billPtr = s.prevPtr ∧ s.readyQueue ≠ []))

def Machine.account (m : Machine Proc) (reentered : Bool) (s : State Proc) : State Proc :=
  let rp := if reentered then m.hardware else s.procPtr
  let ticks := s.lostTicks + 1
  let s := { s with lostTicks := 0, userTime := Function.update s.userTime rp (s.userTime rp + ticks) }
  let s := if rp ≠ s.billPtr ∧ rp ≠ m.idle
    then { s with sysTime := Function.update s.sysTime s.billPtr (s.sysTime s.billPtr + ticks) } else s
  { s with pendingTicks := s.pendingTicks + .ofNat ticks }

structure Accounted (s t : State Proc) : Prop where
  queue : t.readyQueue = s.readyQueue
  groups : t.procGrp = s.procGrp
  schedTicks : t.schedTicks = s.schedTicks
  billPtr : t.billPtr = s.billPtr
  prevPtr : t.prevPtr = s.prevPtr
  nextAlarm : t.nextAlarm = s.nextAlarm
  now : t.now = s.now + .ofNat (s.lostTicks + 1)

theorem account_spec (m : Machine Proc) (reentered : Bool) (s : State Proc) : Accounted s (m.account reentered s) := by
  unfold Machine.account
  generalize (if reentered then m.hardware else s.procPtr) = rp
  by_cases billed : rp ≠ s.billPtr ∧ rp ≠ m.idle
  · simp only [if_pos billed]
    exact ⟨rfl, rfl, rfl, rfl, rfl, rfl, (Int32.add_assoc _ _ _).symm⟩
  · simp only [if_neg billed]
    exact ⟨rfl, rfl, rfl, rfl, rfl, rfl, (Int32.add_assoc _ _ _).symm⟩

theorem clockHandler_eq (m : Machine Proc) (reentered : Bool) (s : State Proc) :
    m.clockHandler reentered s =
      if s.Interrupts then (true, m.account reentered s)
      else if s.schedTicks = 1
        then (false, { m.account reentered s with schedTicks := m.schedRate, prevPtr := some s.billPtr })
        else (false, { m.account reentered s with schedTicks := s.schedTicks - 1 }) := by
  obtain ⟨queue, -, ticks, bill, prev, alarm, now⟩ := account_spec m reentered s
  have condition : (m.account reentered s).nextAlarm ≤ (m.account reentered s).now ∨
      (m.account reentered s).schedTicks = 1 ∧ some (m.account reentered s).billPtr = (m.account reentered s).prevPtr ∧
        (m.account reentered s).readyQueue ≠ [] ↔ s.Interrupts := by
    rw [alarm, now, ticks, bill, prev, queue, State.Interrupts]
  by_cases interrupts : s.Interrupts
  · rw [if_pos interrupts]
    exact if_pos (condition.mpr interrupts)
  have calm := mt condition.mp interrupts
  rw [if_neg interrupts]
  by_cases last : s.schedTicks = 1
  · have zero : (m.account reentered s).schedTicks - 1 = 0 := by omega
    rw [if_pos last, ← bill]
    exact (if_neg calm).trans (if_pos zero)
  · have more : ¬ (m.account reentered s).schedTicks - 1 = 0 := by omega
    rw [if_neg last, ← ticks]
    exact (if_neg calm).trans (if_neg more)

/-- The quantum `do_clocktick` gives the process at the head. -/
def Machine.quantum (m : Machine Proc) (s : State Proc) (p : Proc) : Nat :=
  if s.procGrp p = 2 then 2 * m.schedRate else m.schedRate

/-- The first half of `do_clocktick`. -/
def Machine.lookForAlarms (m : Machine Proc) (s : State Proc) : State Proc :=
  if s.nextAlarm ≤ s.realtime then m.ringAlarms m.procs { s with nextAlarm := LONG_MAX } else s

def Machine.rotated (m : Machine Proc) (s : State Proc) : List Proc :=
  if some s.billPtr = s.prevPtr then m.lockSched s.readyQueue else s.readyQueue

def Machine.countDown (m : Machine Proc) (s : State Proc) : Option (State Proc) :=
  if s.schedTicks = 1 then
    match m.rotated s with
    | [] => none
    | head :: rest =>
      some { s with readyQueue := head :: rest, schedTicks := m.quantum s head, prevPtr := some s.billPtr }
  else some { s with schedTicks := s.schedTicks - 1 }

theorem doClocktick_eq (m : Machine Proc) (s : State Proc) : m.doClocktick s = m.countDown (m.lookForAlarms s) := by
  unfold Machine.doClocktick Machine.countDown
  -- the alarms are the same on both sides
  generalize alarms : m.lookForAlarms s = u
  rw [Machine.lookForAlarms] at alarms
  simp only [alarms, Int.sub_eq_zero]
  by_cases same : some u.billPtr = u.prevPtr
  · simp only [Machine.rotated, if_pos same]
    cases m.lockSched u.readyQueue <;> rfl
  · simp only [Machine.rotated, if_neg same]
    cases queue : u.readyQueue <;> simp only [Machine.quantum]

end
end SoiStud.Kernel
