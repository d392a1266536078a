import Mathlib.Data.Fin.Basic
import Mathlib.Logic.Function.Basic

/-! The system calls that read and set the group of a process: the handlers of
MM (`mm/main.c`) and those of the system task (`kernel/system.c`).

Neither layer looks at the process index. The index of a task, of a server or of
an empty slot is served like that of a user process, and one outside the table
has no meaning at all: `proc_addr` takes its pointer from beside `pproc_addr`.
-/

set_option autoImplicit false

namespace SoiStud.Kernel

inductive Priority where
  | none
  | task
  | server
  | user
  | idle
  deriving DecidableEq, Repr

/-- What these calls need of `struct proc`. -/
structure Slot where
  pPriority : Priority
  procGrp : Int
  deriving DecidableEq, Repr

def Slot.isuserp (rp : Slot) : Prop := rp.pPriority = .user

instance (rp : Slot) : Decidable rp.isuserp := inferInstanceAs (Decidable (rp.pPriority = .user))

structure Message where
  mType : Int
  m1_i1 : Int
  m1_i2 : Int
  deriving DecidableEq, Repr

/-- The sizes of the process table, and an error code; inside the system these are negative. -/
structure Headers where
  nrTasks : Nat
  nrProcs : Nat
  ENOENT : Int
  ENOENT_neg : ENOENT < 0

def GET_PROC_GRP : Int := 78

def SET_PROC_GRP : Int := 79

def SYS_GETGRP : Int := 22

def SYS_SETGRP : Int := 23

namespace Headers

variable (h : Headers)

/-- The places of the process table, the tasks first. -/
abbrev Place : Type := Fin (h.nrTasks + h.nrProcs)

abbrev Table : Type := h.Place → Slot

/-- The answer of a call, the slots it has read or written, and the table after it. -/
structure Done where
  answer : Int
  touched : List h.Place
  table : h.Table

def isokprocn (n : Int) : Prop := 0 ≤ n + h.nrTasks ∧ n + h.nrTasks < h.nrProcs + h.nrTasks

instance (n : Int) : Decidable (h.isokprocn n) :=
  inferInstanceAs (Decidable (0 ≤ n + h.nrTasks ∧ n + h.nrTasks < h.nrProcs + h.nrTasks))

/-- The slot of `proc_addr`; none for an index outside of the array. -/
def procAddr (n : Int) : Option h.Place :=
  if ok : h.isokprocn n then some ⟨(n + h.nrTasks).toNat, by have := ok.1; have := ok.2; omega⟩ else none

section SystemTask

/-- `get_proc_grp` of the system task; `none` where it follows a pointer from outside of the array. -/
def getProcGrp (m : Message) (table : h.Table) : Option h.Done :=
  (h.procAddr m.m1_i1).map fun p => ⟨(table p).procGrp, [p], table⟩

def setProcGrp (m : Message) (table : h.Table) : Option h.Done :=
  let targetGrp := m.m1_i2
  if targetGrp = 1 ∨ targetGrp = 2 then
    (h.procAddr m.m1_i1).map fun p => ⟨targetGrp, [p], Function.update table p { table p with procGrp := targetGrp }⟩
  else some ⟨h.ENOENT, [], table⟩

/-- `sys_task` with one message; the other functions of the task are a parameter. -/
def sysTask (others : Message → h.Table → Option h.Done) (m : Message) (table : h.Table) : Option h.Done :=
  if m.mType = SYS_GETGRP then h.getProcGrp m table
  else if m.mType = SYS_SETGRP then h.setProcGrp m table
  else others m table

end SystemTask

section MM

variable (others : Message → h.Table → Option h.Done)

def taskcall (syscallnr : Int) (m : Message) : h.Table → Option h.Done := h.sysTask others { m with mType := syscallnr }

def mmGetProcGrp (mmIn : Message) : h.Table → Option h.Done := h.taskcall others SYS_GETGRP mmIn

def mmSetProcGrp (mmIn : Message) : h.Table → Option h.Done := h.taskcall others SYS_SETGRP mmIn

/-- The round of MM's main loop for one message; `calls` are the other entries of `call_vec`. -/
def mmCall (calls : Message → h.Table → Option h.Done) (mmIn : Message) (table : h.Table) : Option h.Done :=
  if mmIn.mType = GET_PROC_GRP then h.mmGetProcGrp others mmIn table
  else if mmIn.mType = SET_PROC_GRP then h.mmSetProcGrp others mmIn table
  else calls mmIn table

end MM

/-! ## What the calls may do -/

/-- The index of the message is that of a user process. -/
def Addressed (m : Message) (table : h.Table) : Prop := ∃ p, h.procAddr m.m1_i1 = some p ∧ (table p).isuserp

/-- Either one slot is touched, that of a user process, or the answer is an error
and the table is as before. -/
def Guarded (table : h.Table) (result : Option h.Done) : Prop :=
  ∃ done, result = some done ∧
    ((∃ p, done.touched = [p] ∧ (table p).isuserp ∧ ∀ q, q ≠ p → done.table q = table q) ∨
      (done.touched = [] ∧ done.answer < 0 ∧ done.table = table))

variable {h} {table : h.Table} {m : Message} {others calls : Message → h.Table → Option h.Done}

/-- A call that touches the slot of its index alone is guarded if and only if the index is that of a user process. -/
theorem guarded_map_iff {done : h.Place → h.Done} (one : ∀ p, (done p).touched = [p])
    (frame : ∀ p q, q ≠ p → (done p).table q = table q) :
    h.Guarded table ((h.procAddr m.m1_i1).map done) ↔ h.Addressed m table := by
  constructor
  · rintro ⟨result, called, ways⟩
    obtain ⟨p, found, rfl⟩ := Option.map_eq_some_iff.mp called
    rw [one] at ways
    obtain ⟨q, same, user, _⟩ | ⟨none, _⟩ := ways
    · cases same
      exact ⟨p, found, user⟩
    · cases none
  · rintro ⟨p, found, user⟩
    exact ⟨done p, by rw [found, Option.map_some], .inl ⟨p, one p, user, frame p⟩⟩

theorem getProcGrp_guarded : h.Guarded table (h.getProcGrp m table) ↔ h.Addressed m table :=
  guarded_map_iff (fun _ => rfl) fun _ _ _ => rfl

theorem setProcGrp_guarded : h.Guarded table (h.setProcGrp m table) ↔
    h.Addressed m table ∨ (m.m1_i2 ≠ 1 ∧ m.m1_i2 ≠ 2) := by
  unfold setProcGrp
  by_cases known : m.m1_i2 = 1 ∨ m.m1_i2 = 2
  · rw [if_pos known, guarded_map_iff (fun _ => rfl) fun _ _ other => Function.update_of_ne other _ _]
    exact ⟨.inl, fun either => either.resolve_right fun unknown => known.elim unknown.1 unknown.2⟩
  · rw [if_neg known]
    exact ⟨fun _ => .inr (not_or.mp known), fun _ => ⟨_, rfl, .inr ⟨rfl, h.ENOENT_neg, rfl⟩⟩⟩

/-- A call reads and writes the slot of a user process only, or is refused, if and
only if its index is that of a user process or it asks for a group that does not exist. -/
theorem mmCall_guarded_iff (m : Message) (table : h.Table) (call : m.mType = GET_PROC_GRP ∨ m.mType = SET_PROC_GRP) :
    h.Guarded table (h.mmCall others calls m table) ↔
      h.Addressed m table ∨ (m.mType = SET_PROC_GRP ∧ m.m1_i2 ≠ 1 ∧ m.m1_i2 ≠ 2) := by
  obtain get | set := call
  · have forwarded : h.mmCall others calls m table = h.getProcGrp { m with mType := SYS_GETGRP } table := by
      rw [mmCall, if_pos get]
      rfl
    rw [forwarded, getProcGrp_guarded, get]
    exact ⟨.inl, fun either => either.resolve_right fun refused => absurd refused.1 (by decide)⟩
  · have notGet : m.mType ≠ GET_PROC_GRP := by
      rw [set]
      decide
    have forwarded : h.mmCall others calls m table = h.setProcGrp { m with mType := SYS_SETGRP } table := by
      rw [mmCall, if_neg notGet, if_pos set]
      rfl
    rw [forwarded, setProcGrp_guarded, and_iff_right set]
    rfl

theorem setProcGrp_unguarded (m : Message) (table : h.Table) {p : h.Place} (known : m.m1_i2 = 1 ∨ m.m1_i2 = 2)
    (found : h.procAddr m.m1_i1 = some p) (other : ¬ (table p).isuserp) : ¬ h.Guarded table (h.setProcGrp m table) := by
  rw [setProcGrp_guarded]
  rintro (⟨q, again, user⟩ | ⟨notOne, notTwo⟩)
  · rw [found] at again
    cases again
    exact other user
  · exact known.elim notOne notTwo

/-! ## The index of a task -/

def minixHeaders : Headers where
  nrTasks := 10
  nrProcs := 32
  ENOENT := -2
  ENOENT_neg := by decide

def oneUser : minixHeaders.Table := fun p =>
  if p.val < 10 then ⟨.task, 0⟩ else if p.val < 12 then ⟨.server, 0⟩ else if p.val = 12 then ⟨.user, 1⟩ else ⟨.none, 0⟩

theorem mmCall_guarded_iff_user :
    minixHeaders.Guarded oneUser (minixHeaders.mmCall (fun _ _ => none) (fun _ _ => none) ⟨79, 2, 2⟩ oneUser) :=
  (mmCall_guarded_iff ⟨79, 2, 2⟩ oneUser (.inr rfl)).mpr (.inl ⟨⟨12, by decide⟩, by decide, by decide⟩)

/-- A user process puts the system task into group 2, sets the group of an empty
slot, and has a group read past the end of the table. -/
theorem mmCall_unguarded :
    (∃ done, minixHeaders.mmCall (fun _ _ => none) (fun _ _ => none) ⟨79, -2, 2⟩ oneUser = some done ∧
      done.touched = [⟨8, by decide⟩] ∧ (done.table ⟨8, by decide⟩) = ⟨.task, 2⟩) ∧
    ¬ minixHeaders.Guarded oneUser (minixHeaders.mmCall (fun _ _ => none) (fun _ _ => none) ⟨79, -2, 2⟩ oneUser) ∧
    ¬ minixHeaders.Guarded oneUser (minixHeaders.mmCall (fun _ _ => none) (fun _ _ => none) ⟨79, 7, 2⟩ oneUser) ∧
    ¬ minixHeaders.Guarded oneUser (minixHeaders.mmCall (fun _ _ => none) (fun _ _ => none) ⟨78, 32, 0⟩ oneUser) := by
  refine ⟨⟨_, rfl, by decide, by decide⟩, ?_, ?_, ?_⟩
  · exact setProcGrp_unguarded ⟨23, -2, 2⟩ oneUser (p := ⟨8, by decide⟩) (.inr rfl) rfl (by decide)
  · exact setProcGrp_unguarded ⟨23, 7, 2⟩ oneUser (p := ⟨17, by decide⟩) (.inr rfl) rfl (by decide)
  · rintro ⟨done, called, _⟩
    cases called

end Headers
end SoiStud.Kernel
