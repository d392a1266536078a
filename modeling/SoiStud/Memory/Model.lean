import Mathlib.Algebra.Ring.Nat
import Mathlib.Data.List.Basic
import Mathlib.Logic.Function.Basic

/-! The memory allocator of the memory manager (`alloc.c`): the hole table, first
fit and worst fit, and swapping processes out.

A pointer into `hole` or `mproc` is an index, and `NIL_HOLE` the index behind the
last hole; a predecessor is `none` where the variable holds no hole yet. Reading
through `NIL_HOLE` and a panic are faults. The copying of a process to the swap
file and the kernel calls that follow it touch nothing of this and are left out.
-/

set_option autoImplicit false

namespace SoiStud.Memory

/-- What the headers of the system provide: `NR_PROCS`, `LOW_USER` and `CLICK_SHIFT`. -/
structure Constants where
  nrProcs : Nat
  lowUser : Nat
  clickShift : Nat
  lowUser_lt : lowUser < nrProcs

def Constants.nrHoles (c : Constants) : Nat := 2 * c.nrProcs

/-- `NIL_HOLE` -/
def Constants.nil (c : Constants) : Nat := c.nrHoles

/-- The number of values of `phys_clicks`, an unsigned number of 32 bits. -/
def clickRange : Nat := 2 ^ 32

def plus (a b : Nat) : Nat := (a + b) % clickRange

def minus (a b : Nat) : Nat := (((a : Int) - b) % clickRange).toNat

/-- `struct hole`: `h_next`, `h_base` and `h_len`. -/
structure Hole where
  next : Nat
  base : Nat
  len : Nat
  deriving DecidableEq, Repr

/-- An entry of `mp_seg`: `mem_vir`, `mem_phys` and `mem_len`. -/
structure Segment where
  memVir : Nat
  memPhys : Nat
  memLen : Nat
  deriving DecidableEq, Repr

/-- The flags of `mp_flags` and the entries `D` and `S` of `mp_seg`. -/
structure Mproc where
  paused : Bool
  waiting : Bool
  sigsuspended : Bool
  traced : Bool
  reply : Bool
  onswap : Bool
  d : Segment
  s : Segment
  deriving DecidableEq, Repr

/-- The variables of `alloc.c` and the process table. -/
structure State where
  hole : Nat → Hole
  holeHead : Nat
  freeSlots : Nat
  swapFd : Int
  swapOffset : Nat
  swapBase : Nat
  swapMaxsize : Nat
  outswap : Nat
  worstFitFlag : Int
  mproc : Nat → Mproc

inductive Fault where
  /-- a read or write through `NIL_HOLE` or a pointer that has not been set -/
  | nilHole
  /-- `panic("Hole table full", NO_NUM)` -/
  | holeTableFull
  /-- a loop was cut off -/
  | outOfFuel
  deriving DecidableEq, Repr

@[simp] theorem ok_bind {α β : Type} (a : α) (f : α → Except Fault β) : (Except.ok a >>= f) = f a := rfl

@[simp] theorem error_bind {α β : Type} (e : Fault) (f : α → Except Fault β) :
    ((Except.error e : Except Fault α) >>= f) = .error e := rfl

theorem bind_eq_ok {α β : Type} {x : Except Fault α} {f : α → Except Fault β} {b : β} :
    (x >>= f) = .ok b ↔ ∃ a, x = .ok a ∧ f a = .ok b := by
  cases x <;> simp

theorem bind_eq_error {α β : Type} {x : Except Fault α} {f : α → Except Fault β} {e : Fault} :
    (x >>= f) = .error e ↔ x = .error e ∨ ∃ a, x = .ok a ∧ f a = .error e := by
  cases x <;> simp

namespace State

def put (s : State) (hp : Nat) (h : Hole) : State := { s with hole := Function.update s.hole hp h }

def putProc (s : State) (rmp : Nat) (p : Mproc) : State := { s with mproc := Function.update s.mproc rmp p }

end State

/-- The initial values of the variables; what is not given one is zero. -/
def static (c : Constants) (mproc : Nat → Mproc) : State where
  hole _ := ⟨c.nil, 0, 0⟩
  holeHead := c.nil
  freeSlots := c.nil
  swapFd := -1
  swapOffset := 0
  swapBase := 0
  swapMaxsize := 0
  outswap := c.lowUser
  worstFitFlag := 0
  mproc := mproc

/-- The end of `del_slot`: the entry becomes the first free slot. -/
def State.release (s : State) (hp : Nat) : State :=
  { s.put hp { s.hole hp with next := s.freeSlots } with freeSlots := hp }

def delSlot (prev : Option Nat) (hp : Nat) (s : State) : Except Fault State :=
  if hp = s.holeHead then .ok (State.release { s with holeHead := (s.hole hp).next } hp)
  else
    match prev with
    | none => .error .nilHole
    | some p => .ok ((s.put p { s.hole p with next := (s.hole hp).next }).release hp)

/-- One half of `merge`: absorb the successor if it begins where the hole ends. -/
def absorbNext (c : Constants) (hp : Nat) (s : State) : Except Fault State :=
  let next := (s.hole hp).next
  if next = c.nil then .ok s
  else if plus (s.hole hp).base (s.hole hp).len = (s.hole next).base then
    delSlot (some hp) next (s.put hp { s.hole hp with len := plus (s.hole hp).len (s.hole next).len })
  else .ok s

def merge (c : Constants) (hp : Nat) (s : State) : Except Fault State :=
  let next := (s.hole hp).next
  if next = c.nil then .ok s
  else if plus (s.hole hp).base (s.hole hp).len = (s.hole next).base then do
    let s ← absorbNext c hp s
    absorbNext c hp s
  else absorbNext c next s

/-- The loops that go along the hole list and keep the predecessor: they stop at the end
of the list or at a hole that `onward` does not pass over. -/
def walk (c : Constants) (s : State) (onward : Hole → Bool) : Nat → Nat → Option Nat → Except Fault (Nat × Option Nat)
  | 0, _, _ => .error .outOfFuel
  | fuel + 1, hp, prev =>
    if hp ≠ c.nil ∧ onward (s.hole hp) then walk c s onward fuel (s.hole hp).next (some hp) else .ok (hp, prev)

namespace State

/-- The first free slot is taken for a block. -/
def fillSlot (s : State) (base clicks : Nat) : State :=
  { s.put s.freeSlots { s.hole s.freeSlots with base := base, len := clicks } with
    freeSlots := (s.hole s.freeSlots).next }

def linkFront (s : State) (new : Nat) : State :=
  { s.put new { s.hole new with next := s.holeHead } with holeHead := new }

def linkBehind (s : State) (prev new : Nat) : State :=
  let s := s.put new { s.hole new with next := (s.hole prev).next }
  s.put prev { s.hole prev with next := new }

end State

def freeMem (c : Constants) (base clicks : Nat) (s : State) : Except Fault State :=
  if clicks = 0 then .ok s
  else if s.freeSlots = c.nil then .error .holeTableFull
  else
    let new := s.freeSlots
    let s := s.fillSlot base clicks
    if s.holeHead = c.nil ∨ base ≤ (s.hole s.holeHead).base then merge c new (s.linkFront new)
    else do
      let found ← walk c s (fun h => h.base < base) (c.nrHoles + 1) s.holeHead none
      match found.2 with
      | none => .error .nilHole
      | some prev => merge c prev (s.linkBehind prev new)

/-- The message that answers `SYS_MEM`: base and size of a chunk, and the total. -/
structure SysMem where
  m1_i1 : Int
  m1_i2 : Int
  m1_i3 : Int
  deriving DecidableEq, Repr

/-- An `int` assigned to a variable of type `phys_clicks`. -/
def toClicks (i : Int) : Nat := (i % clickRange).toNat

/-- The loop of `mem_init` over the answers, the last one being of size zero, with the
variables behind `total` and `free`. -/
def addChunks (c : Constants) : List SysMem → Nat → Nat → State → Except Fault (State × Nat × Nat)
  | [], total, free, s => .ok (s, total, free)
  | mess :: replies, total, free, s => do
    let base := toClicks mess.m1_i1
    let size := toClicks mess.m1_i2
    if size = 0 then .ok (s, total, free)
    else
      let s ← freeMem c base size s
      addChunks c replies (toClicks mess.m1_i3) (plus free size)
        (if s.swapBase < plus base size then { s with swapBase := plus base size } else s)

def clearTable (c : Constants) (s : State) : State :=
  { s with
    hole := fun hp => { s.hole hp with next := if hp = c.nrHoles - 1 then c.nil else hp + 1 }
    holeHead := c.nil
    freeSlots := 0 }

def memInit (c : Constants) (replies : List SysMem) (total : Nat) (s : State) :
    Except Fault (State × Nat × Nat) := do
  let (s, total, free) ← addChunks c replies total 0 (clearTable c s)
  -- so that no hole of the swap area touches one of memory
  let s := { s with swapBase := plus s.swapBase 1 }
  .ok ({ s with swapMaxsize := minus 0 s.swapBase }, total, free)

/-- What `swap_on` returns; after success there is no `return`. -/
inductive SwapOn where
  | busy
  | failed (errno : Int)
  | done
  deriving DecidableEq, Repr

def swapSize (c : Constants) (s : State) (size : Nat) : Nat := min (size >>> c.clickShift) s.swapMaxsize

/-- `opened` is what `open` returns: a file descriptor, or an error number along with -1. -/
def swapOn (c : Constants) (opened : Except Int Nat) (offset size : Nat) (s : State) : Except Fault (SwapOn × State) :=
  if s.swapFd ≠ -1 then .ok (.busy, s)
  else
    match opened with
    | .error errno => .ok (.failed errno, { s with swapFd := -1 })
    | .ok fd => do
      let s := { s with swapFd := fd, swapOffset := offset }
      if swapSize c s size > 0 then
        let s ← freeMem c s.swapBase (swapSize c s size) s
        .ok (.done, s)
      else .ok (.done, s)

def doWorstFit (m1_i1 : Int) (s : State) : State :=
  if m1_i1 = 0 ∨ m1_i1 = 1 then { s with worstFitFlag := m1_i1 } else s

/-- Bite a piece off a hole, and delete the hole if it is used up. -/
def bite (clicks hp : Nat) (prev : Option Nat) (s : State) : Except Fault (Nat × State) :=
  let oldBase := (s.hole hp).base
  let s := s.put hp { s.hole hp with base := plus (s.hole hp).base clicks, len := (s.hole hp).len - clicks }
  if (s.hole hp).len = 0 then (delSlot prev hp s).map fun s => (oldBase, s) else .ok (oldBase, s)

/-- Blocked on a call of the memory manager, not on swap yet and not otherwise to be avoided. -/
def Mproc.candidate (rmp : Mproc) : Bool :=
  (rmp.paused || rmp.waiting || rmp.sigsuspended) && !(rmp.traced || rmp.reply || rmp.onswap)

def Mproc.size (rmp : Mproc) : Nat := minus (plus rmp.s.memVir rmp.s.memLen) rmp.d.memVir

def Mproc.moveTo (rmp : Mproc) (newBase : Nat) : Mproc :=
  { rmp with
    d := { rmp.d with memPhys := newBase }
    s := { rmp.s with memPhys := plus newBase (minus rmp.s.memVir rmp.d.memVir) } }

/-- The processes in the order in which `swap_out` looks at them, from the one behind
`outswap` round to `outswap`. -/
def roundFrom (c : Constants) (outswap : Nat) : List Nat :=
  List.range' (outswap + 1) (c.nrProcs - outswap - 1) ++ List.range' c.lowUser (outswap + 1 - c.lowUser)

/-- The loop body of `swap_out`; `none` stands for `continue`. -/
def trySwap (c : Constants) (rmp : Nat) (s : State) : Except Fault (Option State) :=
  let p := s.mproc rmp
  if !p.candidate then .ok none
  else do
    -- holes of the swap area only
    let (hp, prev) ← walk c s (fun h => !(h.base ≥ s.swapBase && h.len ≥ p.size)) (c.nrHoles + 1) s.holeHead none
    if hp = c.nil then .ok none
    else
      let (newBase, s) ← bite p.size hp prev s
      let s := s.putProc rmp (p.moveTo newBase)
      let s ← freeMem c p.d.memPhys p.size s
      let s := s.putProc rmp { s.mproc rmp with onswap := true }
      .ok (some { s with outswap := rmp })

def swapOutFrom (c : Constants) : List Nat → State → Except Fault (Bool × State)
  | [], s => .ok (false, s)
  | rmp :: rest, s => do
    match ← trySwap c rmp s with
    | some s => .ok (true, s)
    | none => swapOutFrom c rest s

def swapOut (c : Constants) (s : State) : Except Fault (Bool × State) := swapOutFrom c (roundFrom c s.outswap) s

/-- The loop of `alloc_mem` with first fit. `none` stands for `NO_MEM`. -/
def firstFit (c : Constants) (clicks : Nat) : Nat → Option Nat → State → Except Fault (Option Nat × State)
  | 0, _, _ => .error .outOfFuel
  | fuel + 1, prev, s => do
    -- a round begins with the predecessor that the last one ended with
    let (hp, prev) ← walk c s (fun h => h.base < s.swapBase && h.len < clicks) (c.nrHoles + 1) s.holeHead prev
    if hp ≠ c.nil ∧ (s.hole hp).base < s.swapBase then
      let (oldBase, s) ← bite clicks hp prev s
      .ok (some oldBase, s)
    else
      let (swapped, s) ← swapOut c s
      if swapped then firstFit c clicks fuel prev s else .ok (none, s)

structure Search where
  prev : Option Nat
  biggestHole : Nat
  biggestHolePrev : Option Nat
  deriving DecidableEq, Repr

def findBiggest (c : Constants) (s : State) : Nat → Nat → Search → Except Fault Search
  | 0, _, _ => .error .outOfFuel
  | fuel + 1, hp, found =>
    if hp ≠ c.nil ∧ (s.hole hp).base < s.swapBase then
      let found :=
        if (s.hole hp).len > (s.hole found.biggestHole).len then
          { found with biggestHole := hp, biggestHolePrev := found.prev }
        else found
      findBiggest c s fuel (s.hole hp).next { found with prev := some hp }
    else .ok found

/-- The loop of `alloc_mem` with worst fit. `none` stands for `NO_MEM`. -/
def worstFit (c : Constants) (clicks : Nat) : Nat → Option Nat → State → Except Fault (Option Nat × State)
  | 0, _, _ => .error .outOfFuel
  | fuel + 1, prev, s => do
    -- the head is the first candidate, wherever it lies
    let found ← findBiggest c s (c.nrHoles + 1) s.holeHead ⟨prev, s.holeHead, none⟩
    -- with an empty list `biggestHole->h_len` is read through `NIL_HOLE`
    if found.biggestHole = c.nil then .error .nilHole
    else if (s.hole found.biggestHole).len ≥ clicks then
      let (oldBase, s) ← bite clicks found.biggestHole found.biggestHolePrev s
      .ok (some oldBase, s)
    else
      let (swapped, s) ← swapOut c s
      if swapped then worstFit c clicks fuel found.prev s else .ok (none, s)

def allocMem (c : Constants) (clicks : Nat) (s : State) : Except Fault (Option Nat × State) :=
  if s.worstFitFlag = 0 then firstFit c clicks (c.nrProcs + 1) none s else worstFit c clicks (c.nrProcs + 1) none s

end SoiStud.Memory
