import SoiStud.Kernel.Clock
import SoiStud.Library.Transition

/-! The clock task and the synchronous alarm task (`clock.c`).

The clock task keeps the time of the next alarm, so that it need not look at every
process at every tick. It wakes the other task only when that one has said that it is
going to sleep, and may be blocked in doing so; the other task sends messages to those
whose synchronous alarm has gone off, and may be blocked in that. A task runs until it
blocks, and interrupts come at any time: a step of the clock task ends where the handler
reads or changes what it works on.
-/

set_option autoImplicit false

namespace SoiStud.Kernel.Alarms

open Library

/-! ## The two tasks -/

/-- Where the clock task is. -/
inductive Place (Proc : Type) where
  | receive
  /-- in `do_clocktick`, with an alarm to be looked for -/
  | alarmed
  /-- in the loop over the process table, with this rest of it -/
  | looks (rest : List Proc)
  /-- blocked in `cause_alarm` -/
  | sends (rp : Proc) (rest : List Proc)
  /-- about to turn off an alarm that has rung -/
  | rang (rp : Proc) (rest : List Proc)
  /-- `sched_ticks` has come to zero -/
  | expired
  /-- about to read the group of the process at the head -/
  | reads
  /-- about to change `prev_ptr` -/
  | reloaded
  /-- in `common_setalarm`, with the alarm recorded -/
  | recorded
  /-- in the loop of `common_setalarm` -/
  | searches (rest : List Proc)
  deriving DecidableEq

def Place.waits {Proc : Type} : Place Proc → Bool
  | .receive => true
  | _ => false

def Place.blocked {Proc : Type} : Place Proc → Bool
  | .receive | .sends _ _ => true
  | .alarmed | .looks _ | .rang _ _ | .expired | .reads | .reloaded | .recorded | .searches _ => false

/-- Where `syn_alrm_task` is: before its first pass, blocked in a `send`, blocked in `receive`, or with a
message that it has received. -/
inductive SynPlace (Proc : Type) where
  | starts
  | sends (rest : List Proc)
  | receives
  | received
  deriving DecidableEq

structure Tasks (Proc : Type) where
  clock : State Proc
  bootTime : Int32
  synTable : Proc → Bool
  synAlAlive : Bool
  place : Place Proc
  syn : SynPlace Proc

/-- The process table holds every process. Signals, and the watch dogs, let alarms and time be. -/
structure Host (Proc : Type) [DecidableEq Proc] extends Machine Proc where
  everybody : ∀ p, p ∈ procs
  istaskp : Proc → Bool
  callDog_keeps : ∀ function p s, State.Keeps s (callDog function p s)
  lockUnready_keeps : ∀ p s, State.Keeps s (lockUnready p s)

def secondsLeft (hz : Nat) (alarm realtime : Int32) : Int32 :=
  if alarm = 0 then 0 else (alarm - realtime + .ofNat (hz - 1)) / .ofNat hz

section
variable {Proc : Type} [DecidableEq Proc] (k : Host Proc)

namespace Tasks

variable (s : Tasks Proc)

def transferred : Tasks Proc := { s with clock := s.clock.transferred }

/-- `do_clocktick` up to the change of `next_alarm`, with the ticks transferred. -/
def hardInt : Tasks Proc :=
  { s.transferred with place := if s.clock.nextAlarm ≤ s.clock.now then .alarmed else .looks [] }

/-- `next_alarm = LONG_MAX` -/
def reset (place : Place Proc) : Tasks Proc := { s with clock := { s.clock with nextAlarm := LONG_MAX }, place := place }

def look (rp : Proc) (place : Place Proc) : Tasks Proc :=
  let clock := if s.clock.alarm rp ≠ 0 ∧ s.clock.alarm rp < s.clock.nextAlarm
    then { s.clock with nextAlarm := s.clock.alarm rp } else s.clock
  { s with clock := clock, place := place }

/-- `rp->p_alarm = 0`; `do_xit` does this too. -/
def turnOff (rp : Proc) : Tasks Proc := { s with clock := { s.clock with alarm := Function.update s.clock.alarm rp 0 } }

def fork (parent child : Proc) : Tasks Proc :=
  { s with clock := { s.clock with alarm := Function.update s.clock.alarm child (s.clock.alarm parent) } }

/-- `--sched_ticks == 0` -/
def countDown : Tasks Proc :=
  { s with
    clock := { s.clock with schedTicks := s.clock.schedTicks - 1 }
    place := if s.clock.schedTicks - 1 = 0 then .expired else .receive }

def reload (schedRate : Nat) (grp : Int) : Tasks Proc :=
  let schedTicks : Nat := if grp = 2 then 2 * schedRate else schedRate
  { s with clock := { s.clock with schedTicks := schedTicks }, place := .reloaded }

/-- `prev_ptr = bill_ptr` -/
def record : Tasks Proc := { s with clock := { s.clock with prevPtr := some s.clock.billPtr }, place := .receive }

/-- `common_setalarm`, up to the search for the next alarm. -/
def commonSetalarm (p : Proc) (deltaTicks : Int32) (function : Option WatchDog) : Tasks Proc :=
  { s with
    clock := { s.clock with
      -- a sum that wraps is an alarm that has been reached already
      alarm := Function.update s.clock.alarm p (if deltaTicks = 0 then 0 else s.clock.realtime + deltaTicks)
      watchDog := Function.update s.clock.watchDog p function }
    place := .recorded }

/-- The first entry of `syn_table` that is set, and what is behind it. -/
def nextSet (table : Proc → Bool) : List Proc → Option (Proc × List Proc)
  | [] => none
  | p :: rest => if table p then some (p, rest) else nextSet table rest

def clockInt (p : Proc) (rest : List Proc) : Tasks Proc :=
  { s with synTable := Function.update s.synTable p false, syn := .sends rest }

/-- There is no work: `receive` blocks, unless the clock task is already blocked in its `send`. -/
def sleep : Tasks Proc :=
  match s.place with
  | .sends rp rest => { s with synAlAlive := false, syn := .received, place := .rang rp rest }
  | _ => { s with synAlAlive := false, syn := .receives }

end Tasks

namespace Host

/-- The watch dog is called, or the process gets a signal. -/
def ring (rp : Proc) (rest : List Proc) (s : Tasks Proc) : Tasks Proc :=
  if s.clock.watchDog rp = some .causeAlarm then
    let s := { s with synTable := Function.update s.synTable rp true }
    if s.synAlAlive then { s with place := .rang rp rest }
    -- the task has said that it is going to sleep, and may not have come to its `receive`
    else match s.syn with
      | .receives => { s with syn := .received, place := .rang rp rest }
      | .starts | .sends _ | .received => { s with place := .sends rp rest }
  else { s with clock := k.alarmRings rp s.clock, place := .rang rp rest }

/-- `if (bill_ptr == prev_ptr) lock_sched()` -/
def reschedule (s : Tasks Proc) : Tasks Proc :=
  { s with clock := { s.clock with readyQueue := k.rotated s.clock }, place := .reads }

def doSetalarm (p : Proc) (deltaTicks : Int32) (function : Nat) (s : Tasks Proc) : Tasks Proc :=
  s.transferred.commonSetalarm p deltaTicks (if k.istaskp p ∧ function ≠ 0 then some (.ofTask function) else none)

def doGetTime (s : Tasks Proc) : Int32 := s.bootTime + s.clock.realtime / .ofNat k.hz

def doSetTime (newTime : Int32) (s : Tasks Proc) : Tasks Proc :=
  { s with bootTime := newTime - s.clock.realtime / .ofNat k.hz }

/-- A pass of `syn_alrm_task` from the beginning of `syn_table`. -/
def pass (s : Tasks Proc) : Option Proc × Tasks Proc :=
  match Tasks.nextSet s.synTable k.procs with
  | some (p, rest) => (some p, s.clockInt p rest)
  | none => (none, s.sleep)

/-- The task goes on behind a `send`, and there is one more pass after this one. -/
def goOn (rest : List Proc) (s : Tasks Proc) : Option Proc × Tasks Proc :=
  match Tasks.nextSet s.synTable rest with
  | some (p, rest) => (some p, s.clockInt p rest)
  -- one more pass, since `work_done` is false
  | none => k.pass s

end Host

def doSetsynAlrm (p : Proc) (deltaTicks : Int32) (s : Tasks Proc) : Tasks Proc :=
  s.transferred.commonSetalarm p deltaTicks (some .causeAlarm)

/-! ## Runs -/

inductive Label (Proc : Type) where
  /-- an interrupt; so many ticks are counted, and the clock task is called for -/
  | clockHandler (ticks : Nat) (called : Bool)
  | hardInt
  | reset
  /-- the alarm of a process has not been reached -/
  | look
  | ring (p : Proc)
  | turnOff (p : Proc)
  /-- the end of the loop -/
  | countDown
  | lockSched
  | reload
  /-- the group of the process at the head is read through a null pointer -/
  | nullRead
  | record
  | setAlarm (p : Proc) (deltaTicks : Int32) (function : Nat) (left : Int32)
  | setSynAlarm (p : Proc) (deltaTicks : Int32) (left : Int32)
  | search
  /-- the end of `common_setalarm` -/
  | reply
  | getUptime (uptime : Int32)
  | getTime (time : Int32)
  | setTime (newTime : Int32)
  | exit (p : Proc)
  /-- `waits`: the clock task waits for a message, and is not in its loop -/
  | fork (parent child : Proc) (waits : Bool)
  /-- a pass of `syn_alrm_task`, up to a `CLOCK_INT` or to its end -/
  | syn (sent : Option Proc)
  | elsewhere

/-- Nobody sets a synchronous alarm before `syn_alrm_task` has run. -/
inductive Steps (s : Tasks Proc) : Label Proc → Tasks Proc → Prop where
  | clockHandler {reentered called : Bool} {t : State Proc} : k.clockHandler reentered s.clock = (called, t) →
      Steps s (.clockHandler (s.clock.lostTicks + 1) called) { s with clock := t }
  | hardInt : s.place = .receive → Steps s .hardInt s.hardInt
  | alarmed : s.place = .alarmed → Steps s .reset (s.reset (.looks k.procs))
  | look {rp : Proc} {rest : List Proc} : s.place = .looks (rp :: rest) → ¬ s.clock.Due rp →
      Steps s .look (s.look rp (.looks rest))
  | ring {rp : Proc} {rest : List Proc} : s.place = .looks (rp :: rest) → s.clock.Due rp →
      Steps s (.ring rp) (k.ring rp rest s)
  | turnOff {rp : Proc} {rest : List Proc} : s.place = .rang rp rest →
      Steps s (.turnOff rp) { s.turnOff rp with place := .looks rest }
  | countDown : s.place = .looks [] → Steps s .countDown s.countDown
  | lockSched : s.place = .expired → Steps s .lockSched (k.reschedule s)
  | reload {head : Proc} {rest : List Proc} : s.place = .reads → s.clock.readyQueue = head :: rest →
      Steps s .reload (s.reload k.schedRate (s.clock.procGrp head))
  -- whatever is found there is taken for a group
  | nullRead {grp : Int} : s.place = .reads → s.clock.readyQueue = [] → Steps s .nullRead (s.reload k.schedRate grp)
  | record : s.place = .reloaded → Steps s .record s.record
  | setAlarm {p : Proc} {deltaTicks : Int32} {function : Nat} : s.place = .receive →
      Steps s (.setAlarm p deltaTicks function (secondsLeft k.hz (s.clock.alarm p) s.clock.transferred.realtime))
        (k.doSetalarm p deltaTicks function s)
  | setSynAlarm {p : Proc} {deltaTicks : Int32} : s.place = .receive → s.syn ≠ .starts →
      Steps s (.setSynAlarm p deltaTicks (secondsLeft k.hz (s.clock.alarm p) s.clock.transferred.realtime))
        (doSetsynAlrm p deltaTicks s)
  | recorded : s.place = .recorded → Steps s .reset (s.reset (.searches k.procs))
  | search {rp : Proc} {rest : List Proc} : s.place = .searches (rp :: rest) →
      Steps s .search (s.look rp (.searches rest))
  | reply : s.place = .searches [] → Steps s .reply { s with place := .receive }
  | getUptime : s.place = .receive → Steps s (.getUptime s.clock.transferred.realtime) s.transferred
  | getTime : s.place = .receive → Steps s (.getTime (k.doGetTime s.transferred)) s.transferred
  | setTime {newTime : Int32} : s.place = .receive → Steps s (.setTime newTime) (k.doSetTime newTime s.transferred)
  | exit {p : Proc} : s.place.blocked = true → Steps s (.exit p) (s.turnOff p)
  | fork {parent child : Proc} : s.place.blocked = true →
      Steps s (.fork parent child s.place.waits) (s.fork parent child)
  | starts {sent : Option Proc} {t : Tasks Proc} : s.syn = .starts →
      k.pass { s with synAlAlive := true, synTable := fun _ => false } = (sent, t) → Steps s (.syn sent) t
  | wakes {sent : Option Proc} {t : Tasks Proc} : s.syn = .received → k.pass { s with synAlAlive := true } = (sent, t) →
      Steps s (.syn sent) t
  | goesOn {rest : List Proc} {sent : Option Proc} {t : Tasks Proc} : s.syn = .sends rest → k.goOn rest s = (sent, t) →
      Steps s (.syn sent) t
  /-- what the rest of the kernel does; while the clock task runs no user process comes or goes -/
  | elsewhere {t : State Proc} : s.clock.Keeps t →
      (s.place.blocked = true ∨ t.readyQueue = s.clock.readyQueue ∧ t.procGrp = s.clock.procGrp) →
      Steps s .elsewhere { s with clock := t }

/-- From the boot on. -/
def tasks : System (Tasks Proc) (Label Proc) where
  init s := (∀ p, s.clock.alarm p = 0) ∧ s.clock.realtime = 0 ∧ s.clock.pendingTicks = 0 ∧ s.bootTime = 0 ∧
    (∀ p, s.clock.watchDog p = none) ∧ (∀ p, s.synTable p = false) ∧ s.synAlAlive = true ∧ s.place = .receive ∧
    s.syn = .starts
  step := Steps k

/-! ## A clock tick without interrupts -/

variable {k} {history : List (Label Proc)} {s : Tasks Proc} {c : State Proc} {p : Proc}

theorem Host.causeSig_keeps (k : Host Proc) (p : Proc) (c : State Proc) : c.Keeps (k.causeSig p c) := by
  have unready := k.lockUnready_keeps p c
  unfold Machine.causeSig
  dsimp only
  split
  · exact .refl c
  · split
    · exact ⟨rfl, rfl, rfl, rfl, rfl, rfl, rfl⟩
    · split
      · exact ⟨unready.alarm, unready.watchDog, unready.schedTicks, unready.prevPtr, unready.realtime,
          unready.pendingTicks, unready.nextAlarm⟩
      · exact ⟨rfl, rfl, rfl, rfl, rfl, rfl, rfl⟩

theorem Host.alarmRings_keeps (k : Host Proc) (p : Proc) (c : State Proc) : c.Keeps (k.alarmRings p c) := by
  unfold Machine.alarmRings
  split
  · exact k.callDog_keeps _ p c
  · exact k.causeSig_keeps p c

theorem run_ringAlarms (run : (tasks k).Run history s) {procs : List Proc} (at_ : s.place = .looks procs)
    (plain : ∀ p, s.clock.watchDog p ≠ some .causeAlarm) : ∃ labels, (tasks k).Run (history ++ labels)
      { s with clock := k.ringAlarms procs s.clock, place := .looks [] } := by
  induction procs generalizing history s with
  | nil => exact ⟨[], by rwa [List.append_nil, Machine.ringAlarms, ← at_]⟩
  | cons rp rest ih =>
    by_cases due : s.clock.Due rp
    · have ringing := run.next (Steps.ring at_ due)
      rw [Host.ring, if_neg (plain rp)] at ringing
      have off := ringing.next (Steps.turnOff rfl)
      obtain ⟨labels, looped⟩ := ih off rfl fun p => by
        change (k.alarmRings rp s.clock).watchDog p ≠ _
        rw [(k.alarmRings_keeps rp s.clock).watchDog]
        exact plain p
      refine ⟨.ring rp :: .turnOff rp :: labels, ?_⟩
      have now : s.clock.alarm rp ≠ 0 ∧ s.clock.alarm rp ≤ s.clock.realtime := due
      -- an alarm that has rung is off, and does not count for the next one
      simp only [Machine.ringAlarms, if_pos now, Function.update_self, ne_eq, not_true_eq_false, false_and, if_false]
      simpa [Tasks.turnOff] using looped
    · have looked := run.next (Steps.look at_ due)
      obtain ⟨labels, looped⟩ := ih looked rfl fun p => by
        unfold Tasks.look
        dsimp only
        split <;> exact plain p
      refine ⟨.look :: labels, ?_⟩
      have later : ¬ (s.clock.alarm rp ≠ 0 ∧ s.clock.alarm rp ≤ s.clock.realtime) := due
      simp only [Machine.ringAlarms, if_neg later]
      simpa [Tasks.look] using looped

theorem run_countDown (run : (tasks k).Run history s) (at_ : s.place = .looks []) (ran : k.countDown s.clock = some c) :
    ∃ labels, (tasks k).Run (history ++ labels) { s with clock := c, place := .receive } := by
  have counted := run.next (Steps.countDown at_)
  unfold Tasks.countDown at counted
  -- the last tick of a quantum leads on to the reload
  by_cases last : s.clock.schedTicks = 1
  · have zero : s.clock.schedTicks - 1 = 0 := by omega
    rw [Machine.countDown, if_pos last] at ran
    rw [if_pos zero] at counted
    have called := counted.next (Steps.lockSched rfl)
    cases queue : k.rotated s.clock with
    | nil => simp [queue] at ran
    | cons head rest =>
      rw [queue] at ran
      cases ran
      have done := (called.next (Steps.reload rfl queue)).next (Steps.record rfl)
      refine ⟨[.countDown, .lockSched, .reload, .record], ?_⟩
      simpa [Host.reschedule, Tasks.reload, Tasks.record, Machine.quantum, ← queue, Machine.rotated] using done
  · have more : ¬ s.clock.schedTicks - 1 = 0 := by omega
    rw [Machine.countDown, if_neg last] at ran
    cases ran
    rw [if_neg more] at counted
    exact ⟨[.countDown], counted⟩

/-- Without an interrupt and without synchronous alarms the steps are those of `do_clocktick`. -/
theorem run_hardInt (run : (tasks k).Run history s) (waits : s.place = .receive)
    (plain : ∀ p, s.clock.watchDog p ≠ some .causeAlarm) (ran : k.hardInt s.clock = some c) :
    ∃ labels, (tasks k).Run (history ++ labels) { s with clock := c } := by
  rw [Machine.hardInt, doClocktick_eq] at ran
  change k.countDown (k.lookForAlarms s.clock.transferred) = some c at ran
  have begun := run.next (Steps.hardInt waits)
  have done {labels : List (Label Proc)} {u : Tasks Proc} (looked : (tasks k).Run (history ++ labels) u)
      (at_ : u.place = .looks []) (same : u = { s with clock := u.clock, place := u.place })
      (clock : k.countDown u.clock = some c) : ∃ labels, (tasks k).Run (history ++ labels) { s with clock := c } := by
    obtain ⟨more, counted⟩ := run_countDown looked at_ clock
    rw [same] at counted
    refine ⟨labels ++ more, ?_⟩
    rw [← List.append_assoc]
    simpa [← waits] using counted
  -- with an alarm to be looked for the table is gone through first
  by_cases reached : s.clock.nextAlarm ≤ s.clock.now
  · rw [Tasks.hardInt, if_pos reached] at begun
    have reset := begun.next (Steps.alarmed rfl)
    obtain ⟨labels, looped⟩ := run_ringAlarms reset rfl plain
    have lookFor : k.lookForAlarms s.clock.transferred =
        k.ringAlarms k.procs { s.clock.transferred with nextAlarm := LONG_MAX } := if_pos reached
    rw [lookFor] at ran
    rw [List.append_assoc, List.append_assoc] at looped
    exact done looped rfl rfl ran
  · rw [Tasks.hardInt, if_neg reached] at begun
    have lookFor : k.lookForAlarms s.clock.transferred = s.clock.transferred := if_neg reached
    rw [lookFor] at ran
    exact done begun rfl rfl ran

end

/-! ## A small system -/

inductive Client where
  | clock
  | idle
  | inet
  | fs
  | sh
  | date
  deriving DecidableEq, Repr

theorem smallHost_quantum : 0 < MILLISEC * 60 / 1000 := by decide

def smallHost : Host Client where
  hz := 60
  quantum_pos := smallHost_quantum
  idle := .idle
  hardware := .clock
  procs := [.clock, .idle, .inet, .fs, .sh, .date]
  callDog _ _ s := s
  lockUnready p s := { s with readyQueue := s.readyQueue.filter (· ≠ p) }
  lockSched
    | [] => []
    | h :: rest => rest ++ [h]
  lockSched_cons _ _ := rfl
  pickProc s :=
    match s.readyQueue with
    | [] => s
    | h :: _ => { s with procPtr := h, billPtr := h }
  pickProc_cons s h rest queue := by simp [queue]
  everybody p := by cases p <;> decide
  istaskp
    | .clock | .idle => true
    | .inet | .fs | .sh | .date => false
  callDog_keeps _ _ s := .refl s
  lockUnready_keeps _ _ := ⟨rfl, rfl, rfl, rfl, rfl, rfl, rfl⟩

def smallBoot : Tasks Client where
  clock :=
    { readyQueue := [.sh], procGrp := fun _ => 1, entry := fun _ => ⟨false, 0, 0⟩, alarm := fun _ => 0
      watchDog := fun _ => none, userTime := fun _ => 0, sysTime := fun _ => 0, procPtr := .sh, billPtr := .sh
      prevPtr := none, schedTicks := 6, realtime := 0, pendingTicks := 0, nextAlarm := 0, lostTicks := 0 }
  bootTime := 0
  synTable _ := false
  synAlAlive := true
  place := .receive
  syn := .starts

theorem smallBoot_init : (tasks smallHost).init smallBoot :=
  ⟨fun _ => rfl, rfl, rfl, rfl, fun _ => rfl, fun _ => rfl, rfl, rfl, rfl⟩

def play (s : Tasks Client) : Label Client → Option (Tasks Client)
  | .clockHandler ticks called =>
    let (interrupted, t) := smallHost.clockHandler false s.clock
    if ticks = s.clock.lostTicks + 1 ∧ interrupted = called then some { s with clock := t } else none
  | .hardInt => if s.place = .receive then some s.hardInt else none
  | .reset =>
    match s.place with
    | .alarmed => some (s.reset (.looks smallHost.procs))
    | .recorded => some (s.reset (.searches smallHost.procs))
    | _ => none
  | .look =>
    match s.place with
    | .looks (rp :: rest) => if ¬ s.clock.Due rp then some (s.look rp (.looks rest)) else none
    | _ => none
  | .ring p =>
    match s.place with
    | .looks (rp :: rest) => if s.clock.Due rp ∧ rp = p then some (smallHost.ring rp rest s) else none
    | _ => none
  | .turnOff p =>
    match s.place with
    | .rang rp rest => if rp = p then some { s.turnOff rp with place := .looks rest } else none
    | _ => none
  | .countDown => if s.place = .looks [] then some s.countDown else none
  | .lockSched => if s.place = .expired then some (smallHost.reschedule s) else none
  | .reload =>
    match s.clock.readyQueue with
    | head :: _ => if s.place = .reads then some (s.reload smallHost.schedRate (s.clock.procGrp head)) else none
    | [] => none
  | .nullRead => if s.place = .reads ∧ s.clock.readyQueue = [] then some (s.reload smallHost.schedRate 0) else none
  | .record => if s.place = .reloaded then some s.record else none
  | .setAlarm p deltaTicks function left =>
    if s.place = .receive ∧ left = secondsLeft 60 (s.clock.alarm p) s.clock.transferred.realtime
      then some (smallHost.doSetalarm p deltaTicks function s) else none
  | .setSynAlarm p deltaTicks left =>
    if s.place = .receive ∧ s.syn ≠ .starts ∧ left = secondsLeft 60 (s.clock.alarm p) s.clock.transferred.realtime
      then some (doSetsynAlrm p deltaTicks s) else none
  | .search =>
    match s.place with
    | .searches (rp :: rest) => some (s.look rp (.searches rest))
    | _ => none
  | .reply => if s.place = .searches [] then some { s with place := .receive } else none
  | .fork parent child waits =>
    if s.place.blocked = true ∧ s.place.waits = waits then some (s.fork parent child) else none
  | .syn sent =>
    let (sent', t) := match s.syn with
      | .starts => smallHost.pass { s with synAlAlive := true, synTable := fun _ => false }
      | .sends rest => smallHost.goOn rest s
      | .receives | .received => smallHost.pass { s with synAlAlive := true }
    if s.syn ≠ .receives ∧ sent' = sent then some t else none
  | _ => none

theorem play_steps {s t : Tasks Client} {label : Label Client} (played : play s label = some t) :
    Steps smallHost s label t := by
  unfold play at played
  split at played
  · rename_i ticks called
    split at played
    rename_i interrupted t ran
    split at played <;> cases played
    rename_i meant
    obtain ⟨rfl, rfl⟩ := meant
    exact .clockHandler ran
  · split at played <;> cases played
    rename_i waits
    exact .hardInt waits
  · split at played <;> cases played
    · rename_i at_
      exact .alarmed at_
    · rename_i at_
      exact .recorded at_
  · split at played
    · rename_i rp rest at_
      split at played <;> cases played
      rename_i early
      exact .look at_ early
    · cases played
  · split at played
    · rename_i rp rest at_
      split at played <;> cases played
      rename_i meant
      obtain ⟨due, rfl⟩ := meant
      exact .ring at_ due
    · cases played
  · split at played
    · rename_i rp rest at_
      split at played <;> cases played
      rename_i meant
      subst meant
      exact .turnOff at_
    · cases played
  · split at played <;> cases played
    rename_i at_
    exact .countDown at_
  · split at played <;> cases played
    rename_i at_
    exact .lockSched at_
  · split at played
    · rename_i head rest queue
      split at played <;> cases played
      rename_i at_
      exact .reload at_ queue
    · cases played
  · split at played <;> cases played
    rename_i meant
    exact .nullRead meant.1 meant.2
  · split at played <;> cases played
    rename_i at_
    exact .record at_
  · split at played <;> cases played
    rename_i meant
    obtain ⟨waits, rfl⟩ := meant
    exact .setAlarm waits
  · split at played <;> cases played
    rename_i meant
    obtain ⟨waits, started, rfl⟩ := meant
    exact .setSynAlarm waits started
  · split at played <;> cases played
    rename_i at_
    exact .search at_
  · split at played <;> cases played
    rename_i at_
    exact .reply at_
  · split at played <;> cases played
    rename_i meant
    obtain ⟨blocked, rfl⟩ := meant
    exact .fork blocked
  · rename_i sent
    cases at_ : s.syn <;> rw [at_] at played <;> dsimp only at played <;> split at played <;> cases played <;>
      rename_i meant <;> obtain ⟨awake, rfl⟩ := meant
    · exact .starts at_ rfl
    · exact .goesOn at_ rfl
    · exact absurd rfl awake
    · exact .wakes at_ rfl
  · cases played

def smallSearch : List (Label Client) := .reset :: List.replicate 6 .search ++ [.reply]

end SoiStud.Kernel.Alarms
