import Mathlib.Data.Finset.Card
import Mathlib.Data.Fintype.Card
import SoiStud.Kernel.Groups
import SoiStud.Library.Chain
import SoiStud.Library.Transition

/-! The requests by which the system task (`kernel/system.c`) changes who may run, and
the signals of the kernel, of which `inform` tells the memory manager.

A slot of the process table is named by its process, and `NIL_PROC` is `none`. A
failed assertion and a panic have no result. The routines of `proc.c` are a parameter,
and what processes do with `send` and `receive` between the requests is a relation.
-/

set_option autoImplicit false

namespace SoiStud.Kernel.SystemTask

open Library

/-! ## The process table -/

/-- The bits of `p_flags`. -/
inductive Flag where
  | NO_MAP
  | SENDING
  | RECEIVING
  | PENDING
  | SIG_PENDING
  | P_STOP
  deriving DecidableEq, Repr

structure MemMap where
  memVir : Nat
  memPhys : Nat
  memLen : Nat
  deriving DecidableEq, Repr

/-- What these requests need of `struct proc`. No flag is set where `p_flags == 0`, and `ANY` is `none`. -/
structure Slot (Proc Sig : Type) where
  pFlags : Finset Flag
  pPriority : Priority
  pPending : Finset Sig
  pPendcount : Nat
  pGetfrom : Option Proc
  pCallerq : Option Proc
  pSendlink : Option Proc
  pMap : List MemMap
  pPid : Int
  pAlarm : Int32
  userTime : Nat
  sysTime : Nat
  childUtime : Nat
  childStime : Nat
  procGrp : Int
  /-- of `p_reg`: `sp`, `pc`, `retreg`, and `TRACEBIT` of `psw` -/
  sp : Int
  pc : Int
  retreg : Int
  traceBit : Bool

section
variable {Proc Sig : Type}

namespace Slot

def isemptyp (rp : Slot Proc Sig) : Prop := rp.pPriority = .none

def isuserp (rp : Slot Proc Sig) : Prop := rp.pPriority = .user

instance (rp : Slot Proc Sig) : Decidable rp.isemptyp := inferInstanceAs (Decidable (rp.pPriority = .none))

instance (rp : Slot Proc Sig) : Decidable rp.isuserp := inferInstanceAs (Decidable (rp.pPriority = .user))

def WaitsForAny (rp : Slot Proc Sig) : Prop := .RECEIVING ∈ rp.pFlags ∧ rp.pGetfrom = none

instance (rp : Slot Proc Sig) : Decidable rp.WaitsForAny :=
  inferInstanceAs (Decidable (.RECEIVING ∈ rp.pFlags ∧ rp.pGetfrom = none))

variable (rp rc : Slot Proc Sig)

def raise (flag : Flag) : Slot Proc Sig := { rp with pFlags := insert flag rp.pFlags }

def clear (flag : Flag) : Slot Proc Sig := { rp with pFlags := rp.pFlags.erase flag }

/-- `sigaddset(&rp->p_pending, sig_nr); ++rp->p_pendcount` -/
def note [DecidableEq Sig] (sig : Sig) : Slot Proc Sig :=
  { rp with pPending := insert sig rp.pPending, pPendcount := rp.pPendcount + 1 }

def told : Slot Proc Sig := { rp with pPending := ∅, pFlags := rp.pFlags.erase .PENDING }

def countDown : Slot Proc Sig := { rp with pPendcount := rp.pPendcount - 1 }

/-- What `do_fork` makes of the copy of the parent's slot. -/
def forked (pid : Int) : Slot Proc Sig :=
  -- what is not named here the child has from its parent, `p_alarm` among it
  { rp with
    pFlags := insert .NO_MAP rp.pFlags \ {.PENDING, .SIG_PENDING, .P_STOP}
    pPending := ∅
    pPendcount := 0
    pPid := pid
    retreg := 0
    userTime := 0
    sysTime := 0
    childUtime := 0
    childStime := 0
    procGrp := 1 }

def mapped (map : List MemMap) : Slot Proc Sig := { rp with pMap := map, pFlags := rp.pFlags.erase .NO_MAP }

def execed (stackPtr ipPtr : Int) : Slot Proc Sig :=
  { rp with sp := stackPtr, pc := ipPtr, pFlags := rp.pFlags.erase .RECEIVING }

def accumulate : Slot Proc Sig :=
  { rp with
    childUtime := rp.childUtime + (rc.userTime + rc.childUtime)
    childStime := rp.childStime + (rc.sysTime + rc.childStime) }

def stopped : Slot Proc Sig := { rp with pFlags := insert .P_STOP rp.pFlags, traceBit := false }

def stepped : Slot Proc Sig := { rp with traceBit := true, pFlags := rp.pFlags.erase .P_STOP }

def signedOn : Slot Proc Sig := { rp with pPriority := .server, pPid := 0 }

def unalarmed : Slot Proc Sig := { rp with pAlarm := 0 }

def linkTo (next : Option Proc) : Slot Proc Sig := { rp with pSendlink := next }

def headTo (head : Option Proc) : Slot Proc Sig := { rp with pCallerq := head }

def exited : Slot Proc Sig := { rp with pPending := ∅, pPendcount := 0, pFlags := ∅, pPriority := .none }

end Slot

/-- The process table, `sig_procs`, and the members of the ready queues. -/
structure State (Proc Sig : Type) where
  proc : Proc → Slot Proc Sig
  sigProcs : Int
  ready : List Proc

/-- The order of the process table, and the processes and the signal that the code names. -/
structure Table (Proc Sig : Type) where
  /-- up to `END_TASK_ADDR` -/
  tasks : List Proc
  /-- from `BEG_SERV_ADDR` on -/
  servers : List Proc
  everybody : ∀ p, p ∈ tasks ++ servers
  apart : ∀ p ∈ tasks, p ∉ servers
  IDLE : Proc
  IDLE_mem : IDLE ∈ tasks
  HARDWARE : Proc
  HARDWARE_mem : HARDWARE ∈ tasks
  MM_PROC_NR : Proc
  SIGTRAP : Sig

abbrev Told (Proc Sig : Type) : Type := Option (Proc × Finset Sig)

inductive Reply where
  | OK
  | E_BAD_PROC
  | EIO
  | EPERM
  | EFAULT
  deriving DecidableEq, Repr

variable [DecidableEq Proc]

def State.put (s : State Proc Sig) (p : Proc) (rp : Slot Proc Sig) : State Proc Sig :=
  { s with proc := Function.update s.proc p rp }

@[simp] theorem State.put_self (s : State Proc Sig) (p : Proc) (rp : Slot Proc Sig) : (s.put p rp).proc p = rp := by
  simp [State.put]

theorem State.put_other (s : State Proc Sig) {p q : Proc} (rp : Slot Proc Sig) (other : q ≠ p) :
    (s.put p rp).proc q = s.proc q := by simp [State.put, other]

/-- A flag of a blocked process is cleared, and it is ready if this was the last one. -/
structure Released (p : Proc) (flag : Flag) (s t : State Proc Sig) : Prop where
  proc : t.proc = Function.update s.proc p ((s.proc p).clear flag)
  sigProcs : t.sigProcs = s.sigProcs
  ready : t.ready.Perm (if (s.proc p).pFlags.erase flag = ∅ then p :: s.ready else s.ready)

/-- The routines of `proc.c`. A message from `HARDWARE` reaches MM when it waits for anybody's. -/
structure Outside (k : Table Proc Sig) where
  lockReady : Proc → State Proc Sig → List Proc
  lockReady_perm : ∀ p s, (lockReady p s).Perm (p :: s.ready)
  lockUnready : Proc → State Proc Sig → List Proc
  lockUnready_perm : ∀ p s, (lockUnready p s).Perm (s.ready.erase p)
  lockMiniSend : State Proc Sig → Option (State Proc Sig)
  lockMiniSend_waits : ∀ s, (s.proc k.MM_PROC_NR).WaitsForAny →
    ∃ t, lockMiniSend s = some t ∧ Released k.MM_PROC_NR .RECEIVING s t

end

section
variable {Proc Sig : Type} [DecidableEq Proc] [DecidableEq Sig] {k : Table Proc Sig} (out : Outside k)

namespace Outside

def readied (p : Proc) (s : State Proc Sig) : State Proc Sig := { s with ready := out.lockReady p s }

def unreadied (p : Proc) (s : State Proc Sig) : State Proc Sig := { s with ready := out.lockUnready p s }

/-! ## Signals -/

def inform (s : State Proc Sig) : Option (State Proc Sig × Told Proc Sig) :=
  match k.servers.find? fun rp => .PENDING ∈ (s.proc rp).pFlags with
  | none => some (s, none)
  | some rp => do
    let map := (s.proc rp).pPending
    let s ← out.lockMiniSend { s with sigProcs := s.sigProcs - 1 }
    some (s.put rp (s.proc rp).told, some (rp, map))

/-- `cause_sig` up to the look at MM, for a process of which no signal is pending. -/
def mark (p : Proc) (sig : Sig) (s : State Proc Sig) : State Proc Sig :=
  let rp := (s.proc p).note sig
  let s := if rp.pFlags = ∅ then out.unreadied p s else s
  { s.put p ((rp.raise .PENDING).raise .SIG_PENDING) with sigProcs := s.sigProcs + 1 }

def causeSig (p : Proc) (sig : Sig) (s : State Proc Sig) : Option (State Proc Sig × Told Proc Sig) :=
  let rp := s.proc p
  if sig ∈ rp.pPending then some (s, none)
  else if .PENDING ∈ rp.pFlags then some (s.put p (rp.note sig), none)
  else
    let s := out.mark p sig s
    if ¬ (s.proc k.MM_PROC_NR).WaitsForAny then some (s, none) else out.inform s

def doKill (pr : Proc) (signum : Sig) (s : State Proc Sig) : Option (State Proc Sig × Told Proc Sig) :=
  if ¬ (s.proc pr).isuserp then none else out.causeSig pr signum s

/-- MM has finished one of the signals. -/
def doEndsig (p : Proc) (s : State Proc Sig) : Option (Reply × State Proc Sig) :=
  let rp := s.proc p
  if rp.isemptyp then some (.E_BAD_PROC, s)
  else if ¬ rp.isuserp then none
  else if rp.pPendcount = 0 then some (.OK, s)
  else
    let rp := rp.countDown
    if rp.pPendcount ≠ 0 then some (.OK, s.put p rp)
    else
      let rp := rp.clear .SIG_PENDING
      let s := s.put p rp
      some (.OK, if rp.pFlags = ∅ then out.readied p s else s)

/-! ## Processes come and go -/

end Outside

def doFork (parent child : Proc) (pid : Int) (s : State Proc Sig) : Option (State Proc Sig) :=
  if ¬ (s.proc parent).isuserp ∨ ¬ (s.proc child).isemptyp then none
  else some (s.put child ((s.proc parent).forked pid))

namespace Outside

def doNewmap (p : Proc) (map : List MemMap) (s : State Proc Sig) : State Proc Sig :=
  let oldFlags := (s.proc p).pFlags
  let rp := (s.proc p).mapped map
  let s := s.put p rp
  if oldFlags ≠ ∅ ∧ rp.pFlags = ∅ then out.readied p s else s

def doExec (p : Proc) (traced : Bool) (stackPtr ipPtr : Int) (s : State Proc Sig) :
    Option (State Proc Sig × Told Proc Sig) :=
  if ¬ (s.proc p).isuserp then none
  else (if traced then out.causeSig p k.SIGTRAP s else some (s, none)).map fun (s, told) =>
    -- made ready whenever no flag is left, whether or not it was blocked before
    let rp := (s.proc p).execed stackPtr ipPtr
    let s := s.put p rp
    (if rp.pFlags = ∅ then out.readied p s else s, told)

end Outside

/-- The inner loop of `do_xit`, behind a process of a queue. -/
def unlinkBehind (rc : Proc) : Nat → Proc → State Proc Sig → Option (State Proc Sig)
  | 0, _, _ => none
  | fuel + 1, np, s =>
    match (s.proc np).pSendlink with
    | none => some s
    | some xp =>
      if xp = rc then some (s.put np ((s.proc np).linkTo (s.proc xp).pSendlink))
      else unlinkBehind rc fuel xp s

/-- The loop of `do_xit` over the queues of those who wish to send. -/
def unqueue (rc : Proc) (fuel : Nat) : List Proc → State Proc Sig → Option (State Proc Sig)
  | [], s => some s
  | rp :: rest, s =>
    match (s.proc rp).pCallerq with
    | none => unqueue rc fuel rest s
    | some np =>
      -- at the head of a queue the loop is left; the `break` further down leaves the walk only
      if np = rc then some (s.put rp ((s.proc rp).headTo (s.proc rc).pSendlink))
      else do
        let s ← unlinkBehind rc fuel np s
        unqueue rc fuel rest s

namespace Outside

/-- `do_xit` up to the queues. -/
def leave (parent procNr : Proc) (s : State Proc Sig) : State Proc Sig :=
  let rc := s.proc procNr
  let s := s.put parent ((s.proc parent).accumulate rc)
  let s := s.put procNr (s.proc procNr).unalarmed
  if rc.pFlags = ∅ then out.unreadied procNr s else s

end Outside

/-- `do_xit` behind the queues. -/
def vacate (procNr : Proc) (s : State Proc Sig) : State Proc Sig :=
  let s := if .PENDING ∈ (s.proc procNr).pFlags then { s with sigProcs := s.sigProcs - 1 } else s
  s.put procNr (s.proc procNr).exited

namespace Outside

/-- The fuel is enough to go through a queue. -/
def doXit [Fintype Proc] (parent procNr : Proc) (s : State Proc Sig) : Option (State Proc Sig) :=
  if ¬ (s.proc parent).isuserp ∨ ¬ (s.proc procNr).isuserp then none
  else
    let s := out.leave parent procNr s
    (if .SENDING ∈ (s.proc procNr).pFlags then unqueue procNr (Fintype.card Proc) (k.tasks ++ k.servers) s
      else some s).map (vacate procNr)

/-! ## Stopping and resuming -/

/-- The requests of `do_trace` that stop a process or let it run. -/
inductive Request where
  | T_STOP
  | T_RESUME
  | T_STEP
  deriving DecidableEq, Repr

def doTrace (p : Proc) (request : Request) (s : State Proc Sig) : Reply × State Proc Sig :=
  let rp := s.proc p
  if rp.isemptyp then ( Reply.EIO, s)
  else match request with
    | .T_STOP =>
      let s := if rp.pFlags = ∅ then out.unreadied p s else s
      (.OK, s.put p rp.stopped)
    -- made ready even if it has not been stopped
    | .T_RESUME =>
      let rp := rp.clear .P_STOP
      let s := s.put p rp
      (.OK, if rp.pFlags = ∅ then out.readied p s else s)
    | .T_STEP =>
      let rp := rp.stepped
      let s := s.put p rp
      (.OK, if rp.pFlags = ∅ then out.readied p s else s)

end Outside

/-- The request `SYSSIGNON` of `do_sysctl`; `copied` is whether the answer could be copied to the process. -/
def signOn (p : Proc) (priv copied : Bool) (s : State Proc Sig) : Reply × State Proc Sig :=
  if !priv ∨ ¬ (s.proc p).isuserp then (.EPERM, s)
  else if !copied then (.EFAULT, s)
  else (.OK, s.put p (s.proc p).signedOn)

end

/-! ## Runs -/

section
variable {Proc Sig : Type} [DecidableEq Proc]

/-- A process gets a flag, and is no longer ready if it is the first one. -/
structure Blocked (p : Proc) (rp : Slot Proc Sig) (s t : State Proc Sig) : Prop where
  proc : t.proc = Function.update s.proc p rp
  sigProcs : t.sigProcs = s.sigProcs
  ready : t.ready.Perm (if (s.proc p).pFlags = ∅ then s.ready.erase p else s.ready)

def Slot.charge (rp : Slot Proc Sig) (user sys : Nat) : Slot Proc Sig :=
  { rp with userTime := rp.userTime + user, sysTime := rp.sysTime + sys }

def Slot.receives (rp : Slot Proc Sig) (source : Option Proc) : Slot Proc Sig :=
  { rp with pFlags := insert .RECEIVING rp.pFlags, pGetfrom := source }

def State.link (s : State Proc Sig) : Option Proc → Option Proc
  | none => none
  | some p => (s.proc p).pSendlink

/-- Which processes wish to send to which, in the order of their queues. -/
def State.Queued (s : State Proc Sig) (queue : Proc → List Proc) : Prop :=
  ∀ d, Chain s.link none (s.proc d).pCallerq ((queue d).map some)

structure Slot.Same (rp rq : Slot Proc Sig) : Prop where
  pPriority : rq.pPriority = rp.pPriority
  pPending : rq.pPending = rp.pPending
  pPendcount : rq.pPendcount = rp.pPendcount
  pGetfrom : rq.pGetfrom = rp.pGetfrom
  userTime : rq.userTime = rp.userTime
  sysTime : rq.sysTime = rp.sysTime
  childUtime : rq.childUtime = rp.childUtime
  childStime : rq.childStime = rp.childStime

structure Sends (p dest : Proc) (s t : State Proc Sig) : Prop where
  slots : ∀ q, (s.proc q).Same (t.proc q)
  flags : ∀ q, (t.proc q).pFlags = if q = p then insert .SENDING (s.proc p).pFlags else (s.proc q).pFlags
  sigProcs : t.sigProcs = s.sigProcs
  ready : t.ready.Perm (if (s.proc p).pFlags = ∅ then s.ready.erase p else s.ready)
  queued : ∀ queue, s.Queued queue → t.Queued (Function.update queue dest (queue dest ++ [p]))

structure Sent (p dest : Proc) (s t : State Proc Sig) : Prop where
  slots : ∀ q, (s.proc q).Same (t.proc q)
  flags : ∀ q, (t.proc q).pFlags = if q = p then (s.proc p).pFlags.erase .SENDING else (s.proc q).pFlags
  sigProcs : t.sigProcs = s.sigProcs
  ready : t.ready.Perm (if (s.proc p).pFlags.erase .SENDING = ∅ then p :: s.ready else s.ready)
  queued : ∀ queue, s.Queued queue → p ∈ queue dest ∧ t.Queued (Function.update queue dest ((queue dest).erase p))

def Table.IsIdleHardware (k : Table Proc Sig) (p : Proc) : Prop := p = k.IDLE ∨ p = k.HARDWARE

instance (k : Table Proc Sig) (p : Proc) : Decidable (k.IsIdleHardware p) :=
  inferInstanceAs (Decidable (p = k.IDLE ∨ p = k.HARDWARE))

/-- What processes do with `send` and `receive`. Nobody waits to send to a user process. -/
inductive Ipc (k : Table Proc Sig) (s : State Proc Sig) : State Proc Sig → Prop where
  | receives {p : Proc} {source : Option Proc} {t : State Proc Sig} : ¬ k.IsIdleHardware p → ¬ (s.proc p).isemptyp →
      .RECEIVING ∉ (s.proc p).pFlags → (p = k.MM_PROC_NR → source ≠ none) →
      Blocked p ((s.proc p).receives source) s t → Ipc k s t
  | received {p : Proc} {t : State Proc Sig} : ¬ k.IsIdleHardware p → .RECEIVING ∈ (s.proc p).pFlags →
      Released p .RECEIVING s t → Ipc k s t
  | sends {p dest : Proc} {t : State Proc Sig} : ¬ k.IsIdleHardware p → ¬ (s.proc p).isemptyp →
      .SENDING ∉ (s.proc p).pFlags → ¬ (s.proc dest).isuserp → ¬ (s.proc dest).isemptyp → Sends p dest s t → Ipc k s t
  | sent {p dest : Proc} {t : State Proc Sig} : ¬ k.IsIdleHardware p → .SENDING ∈ (s.proc p).pFlags → Sent p dest s t →
      Ipc k s t

structure Elsewhere (s t : State Proc Sig) : Prop where
  slots : ∀ q, (s.proc q).Same (t.proc q)
  flags : ∀ q, (t.proc q).pFlags = (s.proc q).pFlags
  queues : ∀ q, (t.proc q).pCallerq = (s.proc q).pCallerq ∧ (t.proc q).pSendlink = (s.proc q).pSendlink
  sigProcs : t.sigProcs = s.sigProcs
  ready : t.ready.Perm s.ready

/-- The kernel, and the signals that MM has been told of and has not finished. -/
structure World (Proc Sig : Type) where
  state : State Proc Sig
  unfinished : Proc → Finset Sig

inductive Event (Proc Sig : Type) where
  | causeSig (p : Proc) (sig : Sig)
  | kill (p : Proc) (sig : Sig)
  | endsig (p : Proc) (sig : Sig)
  | fork (parent child : Proc)
  | newmap (p : Proc)
  | exec (p : Proc) (traced : Bool)
  | exit (parent p : Proc)
  | trace (p : Proc) (request : Outside.Request)
  | signOn (p : Proc)
  /-- the clock handler has charged ticks; they are lost if the slot is empty -/
  | charge (p : Proc) (user sys : Nat) (lost : Bool)
  /-- MM waits for work -/
  | getWork
  | ipc
  | elsewhere

structure Label (Proc Sig : Type) where
  event : Event Proc Sig
  told : Told Proc Sig

end

section
variable {Proc Sig : Type} [DecidableEq Proc] [DecidableEq Sig] [Fintype Proc] {k : Table Proc Sig} (out : Outside k)

def World.after (w : World Proc Sig) (s : State Proc Sig) : Told Proc Sig → World Proc Sig
  | none => { w with state := s }
  | some (p, map) => { state := s, unfinished := Function.update w.unfinished p map }

/-- Signals are for user processes. MM ends each signal that it is told of once, and all of them
before it waits for work or makes a process. It is its own processes that it maps and traces: one that
forks or execs waits for MM, and one that is resumed has been stopped. -/
inductive Steps (w : World Proc Sig) : Label Proc Sig → World Proc Sig → Prop where
  | causeSig {p : Proc} {sig : Sig} {s : State Proc Sig} {told : Told Proc Sig} : (w.state.proc p).isuserp →
      out.causeSig p sig w.state = some (s, told) → Steps w ⟨.causeSig p sig, told⟩ (w.after s told)
  | kill {p : Proc} {sig : Sig} {s : State Proc Sig} {told : Told Proc Sig} :
      out.doKill p sig w.state = some (s, told) → Steps w ⟨.kill p sig, told⟩ (w.after s told)
  | endsig {p : Proc} {sig : Sig} {r : Reply} {s : State Proc Sig} : sig ∈ w.unfinished p →
      out.doEndsig p w.state = some (r, s) →
      Steps w ⟨.endsig p sig, none⟩ ⟨s, Function.update w.unfinished p ((w.unfinished p).erase sig)⟩
  | fork {parent child : Proc} {pid : Int} {s : State Proc Sig} : .SENDING ∉ (w.state.proc parent).pFlags →
      w.unfinished child = ∅ → doFork parent child pid w.state = some s →
      Steps w ⟨.fork parent child, none⟩ { w with state := s }
  | newmap {p : Proc} {map : List MemMap} : p ∈ k.servers →
      Steps w ⟨.newmap p, none⟩ { w with state := out.doNewmap p map w.state }
  | exec {p : Proc} {traced : Bool} {sp pc : Int} {s : State Proc Sig} {told : Told Proc Sig} :
      .RECEIVING ∈ (w.state.proc p).pFlags → out.doExec p traced sp pc w.state = some (s, told) →
      Steps w ⟨.exec p traced, told⟩ (w.after s told)
  | exit {parent p : Proc} {s : State Proc Sig} : parent ≠ p → out.doXit parent p w.state = some s →
      Steps w ⟨.exit parent p, none⟩ { w with state := s }
  | trace {p : Proc} {request : Outside.Request} {r : Reply} {s : State Proc Sig} : p ∈ k.servers →
      (request ≠ .T_STOP → .P_STOP ∈ (w.state.proc p).pFlags) → out.doTrace p request w.state = (r, s) →
      Steps w ⟨.trace p request, none⟩ { w with state := s }
  | signOn {p : Proc} {priv copied : Bool} {r : Reply} {s : State Proc Sig} : signOn p priv copied w.state = (r, s) →
      Steps w ⟨.signOn p, none⟩ { w with state := s }
  -- `do_xit` leaves `bill_ptr` at the slot
  | charge {p : Proc} {user sys : Nat} : Steps w ⟨.charge p user sys (w.state.proc p).isemptyp, none⟩
      { w with state := w.state.put p ((w.state.proc p).charge user sys) }
  | getWork {t s : State Proc Sig} {told : Told Proc Sig} : (∀ p, w.unfinished p = ∅) →
      .RECEIVING ∉ (w.state.proc k.MM_PROC_NR).pFlags →
      Blocked k.MM_PROC_NR ((w.state.proc k.MM_PROC_NR).receives none) w.state t →
      -- `inform` is called when MM blocks and there is somebody to tell it of
      (if t.sigProcs ≠ 0 then out.inform t else some (t, none)) = some (s, told) →
      Steps w ⟨.getWork, told⟩ (w.after s told)
  | ipc {s : State Proc Sig} : Ipc k w.state s → Steps w ⟨.ipc, none⟩ { w with state := s }
  | elsewhere {s : State Proc Sig} : Elsewhere w.state s → Steps w ⟨.elsewhere, none⟩ { w with state := s }

/-- From the boot on: every process of the boot image can run. -/
def kernel : System (World Proc Sig) (Label Proc Sig) where
  init w := (∀ p, (w.state.proc p).pFlags = ∅ ∧ (w.state.proc p).pPending = ∅ ∧ (w.state.proc p).pPendcount = 0 ∧
      (w.state.proc p).pCallerq = none ∧ w.unfinished p = ∅ ∧ (w.state.proc p).userTime = 0 ∧ (w.state.proc p).sysTime = 0 ∧
      (w.state.proc p).childUtime = 0 ∧ (w.state.proc p).childStime = 0) ∧
    (∀ p ∈ k.tasks, (w.state.proc p).pPriority = .task ∨ (w.state.proc p).pPriority = .idle) ∧
    (w.state.proc k.MM_PROC_NR).pPriority = .server ∧
    w.state.sigProcs = 0 ∧ w.state.ready.Nodup ∧
    ∀ p, p ∈ w.state.ready ↔ ¬ k.IsIdleHardware p ∧ ¬ (w.state.proc p).isemptyp
  step := Steps out

end
end SoiStud.Kernel.SystemTask
