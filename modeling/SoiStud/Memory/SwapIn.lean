import SoiStud.Library.Transition
import SoiStud.Memory.Conservation

/-! Swapping processes in and turning swapping off (`alloc.c`), and the main loop of
the memory manager around them (`mm/main.c`).

A pointer to a process is its index, and `NULL` the index behind the last slot. What
`pmp` points to is `in_queue` (`none`) or the `mp_swapq` of a process. The functions
of `call_vec` and `check_pending` are elsewhere; of what they do, `Acts` states what
this code has to rely on.
-/

set_option autoImplicit false

namespace SoiStud.Memory
open Library

def Constants.null (c : Constants) : Nat := c.nrProcs

/-- `&mproc[LOW_USER]` and the processes behind it -/
def Constants.users (c : Constants) : List Nat := List.range' c.lowUser (c.nrProcs - c.lowUser)

/-- What the main loop adds to the variables of `alloc.c`: of each process the flag `SWAPIN`,
`mp_swapq` and `reply_res`, and `in_queue`. -/
structure Manager where
  state : State
  swapin : Nat → Bool
  swapq : Nat → Nat
  replyRes : Nat → Int
  inQueue : Nat

namespace Manager

def mproc (m : Manager) (rmp : Nat) : Mproc := m.state.mproc rmp

def deref (m : Manager) : Option Nat → Nat
  | none => m.inQueue
  | some rmp => m.swapq rmp

def assign (m : Manager) (pmp : Option Nat) (rmp : Nat) : Manager :=
  match pmp with
  | none => { m with inQueue := rmp }
  | some prev => { m with swapq := Function.update m.swapq prev rmp }

end Manager

/-- The loop of `swap_inqueue`, up to the link that ends the queue. -/
def lastLink (c : Constants) (m : Manager) : Nat → Option Nat → Except Fault (Option Nat)
  | 0, _ => .error .outOfFuel
  | fuel + 1, pmp => if m.deref pmp = c.null then .ok pmp else lastLink c m fuel (some (m.deref pmp))

def swapInqueue (c : Constants) (rmp : Nat) (m : Manager) : Except Fault Manager :=
  if m.swapin rmp then .ok m
  else do
    let pmp ← lastLink c m (c.nrProcs + 1) none
    let m := (m.assign pmp rmp).assign (some rmp) c.null
    .ok { m with swapin := Function.update m.swapin rmp true }

def setreply (c : Constants) (procNr : Nat) (result : Int) (m : Manager) : Except Fault Manager :=
  let m := { m with
    replyRes := Function.update m.replyRes procNr result
    state := m.state.putProc procNr { m.mproc procNr with reply := true } }
  -- a process on swap has to come in before it gets its reply
  if (m.mproc procNr).onswap then swapInqueue c procNr m else .ok m

/-- How a round of the loop of `swap_in` ends. -/
inductive SwapIn where
  | ended
  /-- the loop goes on with this `pmp` -/
  | next (pmp : Option Nat)
  /-- the process has come in, and `check_pending` is called for it -/
  | came (rmp : Nat)
  deriving DecidableEq, Repr

def bringIn (c : Constants) (rmp size newBase : Nat) (s : State) : Except Fault State := do
  let oldBase := (s.mproc rmp).d.memPhys
  let s := s.putProc rmp ((s.mproc rmp).moveTo newBase)
  let s ← freeMem c oldBase size s
  .ok (s.putProc rmp { s.mproc rmp with onswap := false })

/-- The loop body of `swap_in` up to the call of `check_pending`. -/
def swapInRound (c : Constants) (pmp : Option Nat) (m : Manager) : Except Fault (SwapIn × Manager) :=
  let rmp := m.deref pmp
  if rmp = c.null then .ok (.ended, m)
  else if !m.swapin rmp then
    -- the process was killed
    .ok (.next pmp, m.assign pmp (m.swapq rmp))
  else do
    let size := (m.mproc rmp).size
    let (found, s) ← allocMem c size m.state
    match found with
    -- there is no room for it now, and the next one is tried
    | none => .ok (.next (some rmp), { m with state := s })
    | some newBase =>
      let s ← bringIn c rmp size newBase s
      let m := { m with state := s, swapin := Function.update m.swapin rmp false }
      .ok (.came rmp, m.assign pmp (m.swapq rmp))

/-- The first loop of `swap_off`. -/
def queueAll (c : Constants) : List Nat → Manager → Except Fault Manager
  | [], m => .ok m
  | rmp :: rest, m =>
    if (m.mproc rmp).onswap then do
      let m ← swapInqueue c rmp m
      queueAll c rest m
    else queueAll c rest m

/-- The last loop of `swap_off`. -/
def removeSwapHoles (c : Constants) : Nat → Nat → Option Nat → State → Except Fault State
  | 0, _, _, _ => .error .outOfFuel
  | fuel + 1, hp, prev, s => do
    let (hp, prev) ← walk c s (fun h => h.base < s.swapBase) (c.nrHoles + 1) hp prev
    if hp = c.nil then .ok s
    else
      let s ← delSlot prev hp s
      -- the loop goes on behind the first hole: `hp = hole_head` comes before `hp = hp->h_next`
      if s.holeHead = c.nil then .error .nilHole
      else removeSwapHoles c fuel (s.next s.holeHead) (some s.holeHead) s

inductive SwapOff where
  | ENOMEM
  | OK
  deriving DecidableEq, Repr

/-- `swap_off` behind its call of `swap_in`. -/
def swapOffEnd (c : Constants) (s : State) : Except Fault (SwapOff × State) :=
  if c.users.any fun rmp => (s.mproc rmp).onswap then .ok (.ENOMEM, s)
  else do
    let s ← removeSwapHoles c (c.nrHoles + 1) s.holeHead none s
    .ok (.OK, { s with swapFd := -1 })

/-- The loop body of the main loop's last loop, with the reply that is sent. -/
def sendReply (procNr : Nat) (m : Manager) : Option Int × Manager :=
  if (m.mproc procNr).reply && !(m.mproc procNr).onswap then
    (some (m.replyRes procNr), { m with state := m.state.putProc procNr { m.mproc procNr with reply := false } })
  else (none, m)

/-! ## The main loop -/

/-- Where the memory manager is. `swapOff` is behind the call of `swap_in` in `swap_off`. A call
comes with its sender and the slots that have become free during it; `swap_in` runs in such a call,
of `swap_off`, or in the main loop itself. -/
inductive Control where
  | getWork
  | call (who : Int) (freed : List Nat)
  | swapIn (caller : Option (Int × List Nat)) (pmp : Option Nat)
  | checkPending (caller : Option (Int × List Nat)) (pmp : Option Nat)
  | swapOff (who : Int) (freed : List Nat)
  | reply (procNr : Nat)

def Control.behind (caller : Option (Int × List Nat)) (pmp : Option Nat) : SwapIn → Control
  | .ended =>
    match caller with
    | none => .reply 0
    | some (who, freed) => .swapOff who freed
  | .next pmp => .swapIn caller pmp
  | .came _ => .checkPending caller pmp

structure Mm where
  manager : Manager
  others : List Extent
  owners : List Nat
  given : List Extent
  control : Control

namespace Mm

def world (m : Mm) : World := ⟨m.manager.state, m.others, m.owners, m.given⟩

def withWorld (m : Mm) (w : World) : Mm :=
  { m with manager := { m.manager with state := w.state }, others := w.others, owners := w.owners, given := w.given }

def Present (c : Constants) (m : Mm) (i : Nat) : Prop := i < c.nrProcs ∧ (c.lowUser ≤ i → i ∈ m.owners)

end Mm

/-- What the functions of the calls do, and `check_pending`. -/
inductive Act where
  | memory (event : Event)
  | setreply (procNr : Nat) (result : Int)
  | swapInqueue (rmp : Nat)
  | exit (rmp : Nat)
  | elsewhere

structure Elsewhere (c : Constants) (m m' : Mm) : Prop where
  settings : m'.manager.state = { m.manager.state with mproc := m'.manager.state.mproc }
  rest : m'.manager.swapin = m.manager.swapin ∧ m'.manager.inQueue = m.manager.inQueue ∧ m'.given = m.given ∧
    m'.control = m.control
  nodup : m'.owners.Nodup
  balance : ∀ x, tally x m'.world.live = tally x m.world.live
  old : ∀ i ∈ m.owners, i ∈ m'.owners ∧ (m'.manager.mproc i).reply = (m.manager.mproc i).reply ∧
    (m'.manager.mproc i).onswap = (m.manager.mproc i).onswap ∧
    ((m.manager.mproc i).onswap = true → (m'.manager.mproc i).image = (m.manager.mproc i).image)
  new : ∀ i ∈ m'.owners, i ∉ m.owners → InTurn c i ∧ (m'.manager.mproc i).reply = false ∧
    (m'.manager.mproc i).onswap = false
  links : ∀ i, i ∉ m'.owners ∨ i ∈ m.owners → m'.manager.swapq i = m.manager.swapq i ∧
    m'.manager.replyRes i = m.manager.replyRes i
  others : ∀ i, i ∉ m'.owners → m'.manager.mproc i = m.manager.mproc i

def Mproc.exited (rmp : Mproc) : Mproc :=
  { rmp with paused := false, waiting := false, sigsuspended := false, traced := false, reply := false, onswap := false }

inductive Acts (c : Constants) (m : Mm) : Act → Mm → Prop where
  | memory {event : Event} {w : World} : event ≠ .elsewhere → Moves c m.world event w →
      Acts c m (.memory event) (m.withWorld w)
  | setreply {procNr : Nat} {result : Int} {manager : Manager} : m.Present c procNr →
      setreply c procNr result m.manager = .ok manager →
      Acts c m (.setreply procNr result) { m with manager := manager }
  | swapInqueue {rmp : Nat} {manager : Manager} : (m.manager.mproc rmp).onswap = true →
      swapInqueue c rmp m.manager = .ok manager → Acts c m (.swapInqueue rmp) { m with manager := manager }
  | exit {rmp : Nat} {s : State} : rmp ∈ m.owners →
      freeMem c (m.manager.mproc rmp).image.base (m.manager.mproc rmp).image.len m.manager.state = .ok s →
      Acts c m (.exit rmp) { m with
        manager := { m.manager with
          state := s.putProc rmp (s.mproc rmp).exited
          swapin := Function.update m.manager.swapin rmp false }
        owners := m.owners.erase rmp }
  | elsewhere {m' : Mm} : Elsewhere c m m' → Acts c m .elsewhere m'

def Act.frees : Act → List Nat
  | .exit rmp => [rmp]
  | .memory _ | .setreply _ _ | .swapInqueue _ | .elsewhere => []

inductive Label where
  | act (a : Act)
  | sent (procNr : Nat) (result : Int)
  /-- a step of the code between these -/
  | goesOn

/-- A slot that has become free in a call is not used again in that call; no process is
made in `check_pending`, and none is killed there that is on swap. -/
inductive Steps (c : Constants) (m : Mm) : Label → Mm → Prop where
  | getWork (who : Int) : m.control = .getWork → Steps c m .goesOn { m with control := .call who [] }
  | act {who : Int} {freed : List Nat} {a : Act} {m' : Mm} : m.control = .call who freed → Acts c m a m' →
      (∀ i ∈ m'.owners, i ∉ m.owners → i ∉ freed) →
      Steps c m (.act a) { m' with control := .call who (a.frees ++ freed) }
  | swapOff {who : Int} {freed : List Nat} {manager : Manager} : m.control = .call who freed →
      m.manager.state.swapFd ≠ -1 → queueAll c c.users m.manager = .ok manager →
      Steps c m .goesOn { m with manager := manager, control := .swapIn (some (who, freed)) none }
  | swapOffEnd {who : Int} {freed : List Nat} {r : SwapOff} {s : State} : m.control = .swapOff who freed →
      swapOffEnd c m.manager.state = .ok (r, s) →
      Steps c m .goesOn { m with
        manager := { m.manager with state := s }
        given := if r = .OK then m.given.filter fun e => e.base < s.swapBase else m.given
        control := .call who freed }
  | result {who : Nat} {freed : List Nat} {result : Int} {manager : Manager} : m.control = .call who freed →
      m.Present c who → setreply c who result m.manager = .ok manager →
      Steps c m (.act (.setreply who result)) { m with manager := manager, control := .swapIn none none }
  | noMessage {who : Int} {freed : List Nat} : m.control = .call who freed →
      Steps c m .goesOn { m with control := .swapIn none none }
  | round {caller : Option (Int × List Nat)} {pmp : Option Nat} {ends : SwapIn} {manager : Manager} :
      m.control = .swapIn caller pmp → swapInRound c pmp m.manager = .ok (ends, manager) →
      Steps c m .goesOn { m with manager := manager, control := .behind caller pmp ends }
  | pending {caller : Option (Int × List Nat)} {pmp : Option Nat} {a : Act} {m' : Mm} :
      m.control = .checkPending caller pmp → Acts c m a m' → (∀ i ∈ m'.owners, i ∈ m.owners) →
      (∀ i ∈ a.frees, (m.manager.mproc i).onswap = false) → Steps c m (.act a) m'
  | checked {caller : Option (Int × List Nat)} {pmp : Option Nat} : m.control = .checkPending caller pmp →
      Steps c m .goesOn { m with control := .swapIn caller pmp }
  | sends {procNr : Nat} {result : Int} {manager : Manager} : m.control = .reply procNr → procNr < c.nrProcs →
      sendReply procNr m.manager = (some result, manager) →
      Steps c m (.sent procNr result) { m with manager := manager, control := .reply (procNr + 1) }
  | passes {procNr : Nat} {manager : Manager} : m.control = .reply procNr → procNr < c.nrProcs →
      sendReply procNr m.manager = (none, manager) →
      Steps c m .goesOn { m with manager := manager, control := .reply (procNr + 1) }
  | allSent : m.control = .reply c.nrProcs → Steps c m .goesOn { m with control := .getWork }

def Mproc.idle (p : Mproc) : Prop := p = p.exited

/-- The memory manager from the end of `mm_init` on. The processes of the boot image lie
below the memory that the kernel reports. -/
def mm (c : Constants) : System Mm Label where
  init m := ∃ mproc replies last total out, Described replies ∧ toClicks last.m1_i2 = 0 ∧
    memInit c (replies ++ [last]) total (static c mproc) = .ok (m.manager.state, out) ∧
    (∀ i, (mproc i).idle) ∧ m.owners.Nodup ∧ (∀ i ∈ m.owners, InTurn c i) ∧
    (images m.owners mproc ++ chunks replies).Pairwise (fun e f => e.top ≤ f.base ∨ f.top ≤ e.base) ∧
    (∀ e ∈ images m.owners mproc ++ chunks replies, e.top < m.manager.state.swapBase) ∧
    m.others = [] ∧ m.given = images m.owners mproc ++ chunks replies ∧
    (∀ i, m.manager.swapin i = false) ∧ m.manager.inQueue = c.null ∧ m.control = .getWork
  step := Steps c

end SoiStud.Memory
