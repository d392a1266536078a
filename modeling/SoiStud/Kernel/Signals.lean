import SoiStud.Kernel.SystemTask
import SoiStud.Library.Population
import SoiStud.Library.Roster

/-! No signal of the kernel gets lost, and none is delivered twice.

`p_pending` holds the signals that MM has not been told of, and `p_pendcount` counts
these and the ones it has not finished. A process with a signal of either kind is
blocked. MM is told of all of them as soon as it waits for work.
-/

set_option autoImplicit false

namespace SoiStud.Kernel.SystemTask

open Library

/-! ## The books of one process -/

section
variable {Proc Sig : Type}

def Slot.Runs (rp : Slot Proc Sig) : Prop := ¬ rp.isemptyp ∧ rp.pFlags = ∅

structure Slot.Counted (rp : Slot Proc Sig) (unfinished : Finset Sig) : Prop where
  pending : .PENDING ∈ rp.pFlags ↔ rp.pPending ≠ ∅
  sigPending : .SIG_PENDING ∈ rp.pFlags ↔ rp.pPendcount ≠ 0
  pendcount : ¬ rp.isemptyp → rp.pPendcount = rp.pPending.card + unfinished.card
  empty : rp.isemptyp → rp.pFlags = ∅

def Slot.mark (rp : Slot Proc Sig) : Int := if .PENDING ∈ rp.pFlags then 1 else 0

variable {s t : State Proc Sig} {p q : Proc} {rp rq : Slot Proc Sig} {unfinished : Finset Sig}

theorem Slot.isuserp.present (user : rp.isuserp) : ¬ rp.isemptyp := by
  unfold Slot.isemptyp
  rw [user]
  decide

theorem Slot.Counted.pending_eq_empty (counted : rp.Counted unfinished) (unmarked : .PENDING ∉ rp.pFlags) :
    rp.pPending = ∅ := by
  by_contra some_
  exact unmarked (counted.pending.mpr some_)

theorem Slot.Counted.nonempty (counted : rp.Counted unfinished) {flag : Flag} (set : flag ∈ rp.pFlags) : ¬ rp.isemptyp := by
  intro empty
  rw [counted.empty empty] at set
  exact Finset.notMem_empty _ set

theorem Slot.Counted.congr (counted : rp.Counted unfinished) (pending : .PENDING ∈ rq.pFlags ↔ .PENDING ∈ rp.pFlags)
    (sigPending : .SIG_PENDING ∈ rq.pFlags ↔ .SIG_PENDING ∈ rp.pFlags) (signals : rq.pPending = rp.pPending)
    (count : rq.pPendcount = rp.pPendcount) (priority : rq.isemptyp ↔ rp.isemptyp)
    (empty : rp.pFlags = ∅ → rp.isemptyp → rq.pFlags = ∅) : rq.Counted unfinished where
  pending := by rw [pending, signals, counted.pending]
  sigPending := by rw [sigPending, count, counted.sigPending]
  pendcount present := by rw [count, signals, counted.pendcount (mt priority.mpr present)]
  empty isEmpty := empty (counted.empty (priority.mp isEmpty)) (priority.mp isEmpty)

variable [DecidableEq Sig] {sig : Sig}

theorem Slot.Counted.note {rp : Slot Proc Sig} (counted : rp.Counted unfinished) (present : ¬ rp.isemptyp)
    (new : sig ∉ rp.pPending) (pending : .PENDING ∈ rp.pFlags) : (rp.note sig).Counted unfinished where
  pending := iff_of_true pending (Finset.insert_ne_empty sig rp.pPending)
  sigPending := by
    have count := counted.pendcount present
    have positive := Finset.card_pos.mpr (Finset.nonempty_iff_ne_empty.mpr (counted.pending.mp pending))
    exact iff_of_true (counted.sigPending.mpr (by omega)) (Nat.succ_ne_zero _)
  pendcount _ := by
    change rp.pPendcount + 1 = (insert sig rp.pPending).card + unfinished.card
    rw [counted.pendcount present, Finset.card_insert_of_notMem new]
    omega
  empty empty := absurd empty present

theorem Slot.Counted.mark {rp : Slot Proc Sig} (counted : rp.Counted unfinished) (present : ¬ rp.isemptyp)
    (new : sig ∉ rp.pPending) : (((rp.note sig).raise .PENDING).raise .SIG_PENDING).Counted unfinished where
  pending := iff_of_true (by simp [Slot.raise]) (Finset.insert_ne_empty sig rp.pPending)
  sigPending := iff_of_true (by simp [Slot.raise]) (Nat.succ_ne_zero _)
  pendcount _ := by
    change rp.pPendcount + 1 = (insert sig rp.pPending).card + unfinished.card
    rw [counted.pendcount present, Finset.card_insert_of_notMem new]
    omega
  empty empty := absurd empty present

end

/-! ## The books of the kernel -/

section
variable {Proc Sig : Type} [DecidableEq Proc] {k : Table Proc Sig} {s t u : State Proc Sig} {p q : Proc}

inductive Requeued (k : Table Proc Sig) (p : Proc) (s t : State Proc Sig) : Prop where
  | stays : ((s.proc p).Runs ↔ (t.proc p).Runs) → t.ready.Perm s.ready → Requeued k p s t
  | leaves : ¬ (t.proc p).Runs → t.ready.Perm (s.ready.erase p) → Requeued k p s t
  | joins : ¬ k.IsIdleHardware p → ¬ (s.proc p).Runs → (t.proc p).Runs → t.ready.Perm (p :: s.ready) → Requeued k p s t

structure Changes (k : Table Proc Sig) (p : Proc) (s t : State Proc Sig) : Prop where
  others : ∀ q ≠ p, (t.proc q).pFlags = (s.proc q).pFlags ∧ (t.proc q).pPriority = (s.proc q).pPriority ∧
    (t.proc q).pPending = (s.proc q).pPending ∧ (t.proc q).pPendcount = (s.proc q).pPendcount
  priority : (t.proc p).pPriority = (s.proc p).pPriority ∨ (s.proc p).isuserp ∨ (s.proc p).isemptyp
  sigProcs : t.sigProcs + (s.proc p).mark = s.sigProcs + (t.proc p).mark
  requeued : Requeued k p s t

structure Balanced [Fintype Proc] (k : Table Proc Sig) (s : State Proc Sig) (unfinished : Proc → Finset Sig) : Prop where
  counted : ∀ p, (s.proc p).Counted (unfinished p)
  tasks : ∀ p ∈ k.tasks, (s.proc p).pPriority = .task ∨ (s.proc p).pPriority = .idle
  mm : (s.proc k.MM_PROC_NR).pPriority = .server
  marked : ∀ p, .PENDING ∈ (s.proc p).pFlags → p ∈ k.servers ∧ p ≠ k.MM_PROC_NR
  sigProcs : s.sigProcs = population fun p => .PENDING ∈ (s.proc p).pFlags
  ready : Roster (fun p => ¬ k.IsIdleHardware p ∧ (s.proc p).Runs) s.ready

omit [DecidableEq Proc] in
theorem Table.IsIdleHardware.task (pseudo : k.IsIdleHardware p) : p ∈ k.tasks := by
  rcases pseudo with rfl | rfl
  · exact k.IDLE_mem
  · exact k.HARDWARE_mem

omit [DecidableEq Proc] in
theorem Table.real_of_server (server : p ∈ k.servers) : ¬ k.IsIdleHardware p := fun pseudo => k.apart p pseudo.task server

variable [Fintype Proc] {unfinished unfinished' : Proc → Finset Sig}

namespace Balanced

omit [DecidableEq Proc] in
theorem isServer (balanced : Balanced k s unfinished) (task : (s.proc p).pPriority ≠ .task)
    (idle : (s.proc p).pPriority ≠ .idle) : p ∈ k.servers := by
  refine (List.mem_append.mp (k.everybody p)).resolve_left fun isTask => ?_
  rcases balanced.tasks p isTask with same | same
  · exact task same
  · exact idle same

omit [DecidableEq Proc] in
theorem user_isServer (balanced : Balanced k s unfinished) (user : (s.proc p).isuserp) : p ∈ k.servers := by
  apply balanced.isServer <;> rw [user] <;> decide

omit [DecidableEq Proc] in
theorem mm_isServer (balanced : Balanced k s unfinished) : k.MM_PROC_NR ∈ k.servers := by
  apply balanced.isServer <;> rw [balanced.mm] <;> decide

omit [DecidableEq Proc] in
theorem user_ne_mm (balanced : Balanced k s unfinished) (user : (s.proc p).isuserp) : p ≠ k.MM_PROC_NR := by
  rintro rfl
  have both := balanced.mm.symm.trans user
  cases both

omit [DecidableEq Proc] in
theorem mm_present (balanced : Balanced k s unfinished) : ¬ (s.proc k.MM_PROC_NR).isemptyp := by
  unfold Slot.isemptyp
  rw [balanced.mm]
  decide

omit [DecidableEq Proc] in
theorem sigProcs_ne_zero (balanced : Balanced k s unfinished) : s.sigProcs ≠ 0 ↔ ∃ p, .PENDING ∈ (s.proc p).pFlags := by
  rw [balanced.sigProcs, Ne, Int.natCast_eq_zero, population_eq_zero_iff]
  simp

theorem changes (balanced : Balanced k s unfinished) (changes : Changes k p s t) (counted : (t.proc p).Counted (unfinished' p))
    (others : ∀ q ≠ p, unfinished' q = unfinished q)
    (marked : .PENDING ∈ (t.proc p).pFlags → p ∈ k.servers ∧ p ≠ k.MM_PROC_NR) : Balanced k t unfinished' where
  counted q := by
    rcases eq_or_ne q p with rfl | other
    · exact counted
    · obtain ⟨flags, priority, pending, count⟩ := changes.others q other
      rw [others q other]
      apply (balanced.counted q).congr <;> simp only [flags, priority, pending, count, Slot.isemptyp]
      exact fun empty _ => empty
  tasks q task := by
    rcases eq_or_ne q p with rfl | other
    · rcases changes.priority with same | user | empty
      · rw [same]
        exact balanced.tasks q task
      · exact absurd (balanced.user_isServer user) (k.apart q task)
      · rcases balanced.tasks q task with isTask | isTask <;> rw [empty] at isTask <;> cases isTask
    · rw [(changes.others q other).2.1]
      exact balanced.tasks q task
  mm := by
    rcases eq_or_ne k.MM_PROC_NR p with same | other
    · rcases changes.priority with kept | user | empty
      · rw [same, kept, ← same]
        exact balanced.mm
      · exact absurd same.symm (balanced.user_ne_mm user)
      · exact absurd (same ▸ empty) balanced.mm_present
    · rw [(changes.others _ other).2.1]
      exact balanced.mm
  marked q set := by
    rcases eq_or_ne q p with rfl | other
    · exact marked set
    · rw [(changes.others q other).1] at set
      exact balanced.marked q set
  -- only this slot can change its mark, so the count changes by its mark
  sigProcs := by
    have same (q : Proc) (other : q ≠ p) : .PENDING ∈ (t.proc q).pFlags ↔ .PENDING ∈ (s.proc q).pFlags := by
      rw [(changes.others q other).1]
    have total := population_change p same
    have counts := changes.sigProcs
    have before := balanced.sigProcs
    unfold Slot.mark at counts
    split_ifs at total counts <;> omega
  ready := by
    have same (q : Proc) (other : q ≠ p) : (¬ k.IsIdleHardware q ∧ (t.proc q).Runs) ↔
        (¬ k.IsIdleHardware q ∧ (s.proc q).Runs) := by
      unfold Slot.Runs Slot.isemptyp
      rw [(changes.others q other).1, (changes.others q other).2.1]
    cases changes.requeued with
    | stays runs order =>
      refine (balanced.ready.congr fun q => ?_).perm order
      rcases eq_or_ne q p with rfl | other
      · rw [runs]
      · exact same q other
    | leaves stopped order => exact (balanced.ready.leave same fun runs => stopped runs.2).perm order
    | joins real waited runs order => exact (balanced.ready.join same (fun ran => waited ran.2) ⟨real, runs⟩).perm order

end Balanced
end

/-! ## Signals come in, and MM is told -/

section
variable {Proc Sig : Type} [DecidableEq Proc] {k : Table Proc Sig} {s t : State Proc Sig} {p : Proc} {told : Told Proc Sig}

theorem Requeued.blocks (order : t.ready.Perm (if (s.proc p).pFlags = ∅ then s.ready.erase p else s.ready))
    (stops : ¬ (t.proc p).Runs) : Requeued k p s t := by
  by_cases ran : (s.proc p).pFlags = ∅
  · rw [if_pos ran] at order
    exact .leaves stops order
  · rw [if_neg ran] at order
    exact .stays (iff_of_false (fun runs => ran runs.2) stops) order

theorem Requeued.releases (order : t.ready.Perm (if (t.proc p).pFlags = ∅ then p :: s.ready else s.ready))
    (real : ¬ k.IsIdleHardware p) (present : ¬ (t.proc p).isemptyp) (flagged : (s.proc p).pFlags ≠ ∅) :
    Requeued k p s t := by
  have waited : ¬ (s.proc p).Runs := fun runs => flagged runs.2
  by_cases last : (t.proc p).pFlags = ∅
  · rw [if_pos last] at order
    exact .joins real waited ⟨present, last⟩ order
  · rw [if_neg last] at order
    exact .stays (iff_of_false waited fun runs => last runs.2) order

theorem Changes.put {rp : Slot Proc Sig} (proc : t.proc = Function.update s.proc p rp)
    (priority : rp.pPriority = (s.proc p).pPriority ∨ (s.proc p).isuserp ∨ (s.proc p).isemptyp)
    (sigProcs : t.sigProcs + (s.proc p).mark = s.sigProcs + rp.mark) (requeued : Requeued k p s t) : Changes k p s t where
  others q other := by
    rw [proc, Function.update_of_ne other]
    exact ⟨rfl, rfl, rfl, rfl⟩
  priority := by rwa [proc, Function.update_self]
  sigProcs := by rwa [proc, Function.update_self]
  requeued := requeued

structure Reflagged (p : Proc) (s t : State Proc Sig) : Prop where
  others : ∀ q ≠ p, (t.proc q).pFlags = (s.proc q).pFlags ∧ (t.proc q).pPriority = (s.proc q).pPriority ∧
    (t.proc q).pPending = (s.proc q).pPending ∧ (t.proc q).pPendcount = (s.proc q).pPendcount
  slot : (t.proc p).pPriority = (s.proc p).pPriority ∧ (t.proc p).pPending = (s.proc p).pPending ∧
    (t.proc p).pPendcount = (s.proc p).pPendcount
  pending : .PENDING ∈ (t.proc p).pFlags ↔ .PENDING ∈ (s.proc p).pFlags
  sigPending : .SIG_PENDING ∈ (t.proc p).pFlags ↔ .SIG_PENDING ∈ (s.proc p).pFlags
  sigProcs : t.sigProcs = s.sigProcs

theorem Reflagged.put {rp : Slot Proc Sig} (proc : t.proc = Function.update s.proc p rp)
    (slot : rp.pPriority = (s.proc p).pPriority ∧ rp.pPending = (s.proc p).pPending ∧ rp.pPendcount = (s.proc p).pPendcount)
    (pending : .PENDING ∈ rp.pFlags ↔ .PENDING ∈ (s.proc p).pFlags)
    (sigPending : .SIG_PENDING ∈ rp.pFlags ↔ .SIG_PENDING ∈ (s.proc p).pFlags) (sigProcs : t.sigProcs = s.sigProcs) :
    Reflagged p s t where
  others q other := by
    rw [proc, Function.update_of_ne other]
    exact ⟨rfl, rfl, rfl, rfl⟩
  slot := by rwa [proc, Function.update_self]
  pending := by rwa [proc, Function.update_self]
  sigPending := by rwa [proc, Function.update_self]
  sigProcs := sigProcs

variable {out : Outside k}

theorem unreadied_ready : (if (s.proc p).pFlags = ∅ then out.unreadied p s else s).ready.Perm
    (if (s.proc p).pFlags = ∅ then s.ready.erase p else s.ready) := by
  split
  · exact out.lockUnready_perm p s
  · exact .refl _

theorem inform_cases (waits : (s.proc k.MM_PROC_NR).WaitsForAny) (found : ∃ p ∈ k.servers, .PENDING ∈ (s.proc p).pFlags)
    (ran : out.inform s = some (t, told)) :
    ∃ rp u, .PENDING ∈ (s.proc rp).pFlags ∧ told = some (rp, (s.proc rp).pPending) ∧ Released k.MM_PROC_NR .RECEIVING s u ∧
      t.proc = Function.update u.proc rp (u.proc rp).told ∧ t.sigProcs = s.sigProcs - 1 ∧ t.ready = u.ready := by
  unfold Outside.inform at ran
  split at ran
  · rename_i nobody
    obtain ⟨p, member, set⟩ := found
    have unset := List.find?_eq_none.mp nobody p member
    simp [set] at unset
  · rename_i rp somebody
    have set := List.find?_some somebody
    obtain ⟨u, sent, released⟩ := out.lockMiniSend_waits { s with sigProcs := s.sigProcs - 1 } waits
    simp only [sent, Option.bind_eq_bind, Option.bind_some, Option.some.injEq, Prod.mk.injEq] at ran
    obtain ⟨rfl, rfl⟩ := ran
    refine ⟨rp, { u with sigProcs := s.sigProcs }, by simpa using set, rfl, ?_, rfl, released.sigProcs, rfl⟩
    exact ⟨released.proc, rfl, released.ready⟩

/-- The signals that MM has not been told of. -/
def State.pending (s : State Proc Sig) (p : Proc) : Finset Sig := (s.proc p).pPending

theorem State.pending_update {rp : Slot Proc Sig} (proc : t.proc = Function.update s.proc p rp) :
    t.pending = Function.update s.pending p rp.pPending := by
  funext q
  unfold State.pending
  rw [proc]
  rcases eq_or_ne q p with rfl | other
  · rw [Function.update_self, Function.update_self]
  · rw [Function.update_of_ne other, Function.update_of_ne other]

/-- What is left when MM has been told. -/
def tell (awaiting : Proc → Finset Sig) : Told Proc Sig → Proc → Finset Sig
  | none => awaiting
  | some (p, _) => Function.update awaiting p ∅

structure Untouched (k : Table Proc Sig) (s t : State Proc Sig) : Prop where
  slots : ∀ q, (t.proc q).pPriority = (s.proc q).pPriority ∧ (t.proc q).pGetfrom = (s.proc q).pGetfrom ∧
    (t.proc q).pCallerq = (s.proc q).pCallerq ∧ (t.proc q).pSendlink = (s.proc q).pSendlink
  times : ∀ q, (t.proc q).userTime = (s.proc q).userTime ∧ (t.proc q).sysTime = (s.proc q).sysTime ∧
    (t.proc q).childUtime = (s.proc q).childUtime ∧ (t.proc q).childStime = (s.proc q).childStime
  flags : ∀ q flag, flag ≠ .PENDING → flag ≠ .SIG_PENDING → (flag = .RECEIVING → q ≠ k.MM_PROC_NR) →
    (flag ∈ (t.proc q).pFlags ↔ flag ∈ (s.proc q).pFlags)

omit [DecidableEq Proc] in
theorem Untouched.refl (k : Table Proc Sig) (s : State Proc Sig) : Untouched k s s :=
  ⟨fun _ => ⟨rfl, rfl, rfl, rfl⟩, fun _ => ⟨rfl, rfl, rfl, rfl⟩, fun _ _ _ _ _ => Iff.rfl⟩

omit [DecidableEq Proc] in
theorem Untouched.trans {u : State Proc Sig} (first : Untouched k s t) (second : Untouched k t u) : Untouched k s u where
  slots q := by simp only [second.slots q, first.slots q, and_self]
  times q := by simp only [second.times q, first.times q, and_self]
  flags q flag one two mm := (second.flags q flag one two mm).trans (first.flags q flag one two mm)

theorem Untouched.update {rp : Slot Proc Sig} (proc : t.proc = Function.update s.proc p rp)
    (slot : rp.pPriority = (s.proc p).pPriority ∧ rp.pGetfrom = (s.proc p).pGetfrom ∧ rp.pCallerq = (s.proc p).pCallerq ∧
      rp.pSendlink = (s.proc p).pSendlink)
    (times : rp.userTime = (s.proc p).userTime ∧ rp.sysTime = (s.proc p).sysTime ∧ rp.childUtime = (s.proc p).childUtime ∧
      rp.childStime = (s.proc p).childStime)
    (flags : ∀ flag, flag ≠ .PENDING → flag ≠ .SIG_PENDING → (flag = .RECEIVING → p ≠ k.MM_PROC_NR) →
      (flag ∈ rp.pFlags ↔ flag ∈ (s.proc p).pFlags)) : Untouched k s t where
  slots q := by
    rcases eq_or_ne q p with rfl | other
    · rwa [proc, Function.update_self]
    · rw [proc, Function.update_of_ne other]
      exact ⟨rfl, rfl, rfl, rfl⟩
  times q := by
    rcases eq_or_ne q p with rfl | other
    · rwa [proc, Function.update_self]
    · rw [proc, Function.update_of_ne other]
      exact ⟨rfl, rfl, rfl, rfl⟩
  flags q flag pending sigPending mm := by
    rcases eq_or_ne q p with rfl | other
    · rw [proc, Function.update_self]
      exact flags flag pending sigPending mm
    · rw [proc, Function.update_of_ne other]

structure Signalled (k : Table Proc Sig) (s t : State Proc Sig) (awaiting : Proc → Finset Sig) (told : Told Proc Sig) :
    Prop where
  untouched : Untouched k s t
  pending : t.pending = tell awaiting told
  told : ∀ p map, told = some (p, map) → map = awaiting p ∧ map ≠ ∅

section
variable [DecidableEq Sig] {sig : Sig}

theorem mark_proc : (out.mark p sig s).proc =
    Function.update s.proc p ((((s.proc p).note sig).raise .PENDING).raise .SIG_PENDING) := by
  unfold Outside.mark
  dsimp only
  split <;> rfl

theorem mark_sigProcs : (out.mark p sig s).sigProcs = s.sigProcs + 1 := by
  unfold Outside.mark
  dsimp only
  split <;> rfl

theorem mark_untouched : Untouched k s (out.mark p sig s) :=
  .update mark_proc ⟨rfl, rfl, rfl, rfl⟩ ⟨rfl, rfl, rfl, rfl⟩ fun flag pending sigPending _ => by
    simp [Slot.raise, Slot.note, pending, sigPending]

end

variable [Fintype Proc] {unfinished : Proc → Finset Sig}

namespace Balanced

omit [DecidableEq Proc] in
theorem same (balanced : Balanced k s unfinished)
    (slots : ∀ q, (t.proc q).pFlags = (s.proc q).pFlags ∧ (t.proc q).pPriority = (s.proc q).pPriority ∧
      (t.proc q).pPending = (s.proc q).pPending ∧ (t.proc q).pPendcount = (s.proc q).pPendcount)
    (sigProcs : t.sigProcs = s.sigProcs) (ready : t.ready.Perm s.ready) : Balanced k t unfinished where
  counted q := by
    obtain ⟨flags, priority, pending, count⟩ := slots q
    apply (balanced.counted q).congr <;> simp only [flags, priority, pending, count, Slot.isemptyp]
    exact fun empty _ => empty
  tasks q task := by
    rw [(slots q).2.1]
    exact balanced.tasks q task
  mm := by rw [(slots _).2.1, balanced.mm]
  marked q set := by
    rw [(slots q).1] at set
    exact balanced.marked q set
  sigProcs := by
    rw [sigProcs, balanced.sigProcs]
    exact congrArg _ (population_congr fun q => by rw [(slots q).1])
  ready := by
    refine (balanced.ready.congr fun q => ?_).perm ready
    unfold Slot.Runs Slot.isemptyp
    rw [(slots q).1, (slots q).2.1]

theorem reflag (balanced : Balanced k s unfinished) (reflagged : Reflagged p s t) (present : ¬ (s.proc p).isemptyp)
    (requeued : Requeued k p s t) : Balanced k t unfinished := by
  obtain ⟨others, ⟨priority, signals, count⟩, pending, sigPending, sigProcs⟩ := reflagged
  have changes : Changes k p s t := ⟨others, .inl priority, by simp only [Slot.mark, pending, sigProcs], requeued⟩
  refine balanced.changes changes ?_ (fun _ _ => rfl) fun marked => balanced.marked p (pending.mp marked)
  refine (balanced.counted p).congr pending sigPending signals count ?_ fun _ empty => absurd empty present
  unfold Slot.isemptyp
  rw [priority]

theorem released {flag : Flag} (balanced : Balanced k s unfinished) (released : Released p flag s t)
    (real : ¬ k.IsIdleHardware p) (set : flag ∈ (s.proc p).pFlags) (pending : flag ≠ .PENDING)
    (sigPending : flag ≠ .SIG_PENDING) : Balanced k t unfinished := by
  have present := (balanced.counted p).nonempty set
  have slot : t.proc p = (s.proc p).clear flag := by rw [released.proc, Function.update_self]
  refine balanced.reflag (.put released.proc ⟨rfl, rfl, rfl⟩ ?_ ?_ released.sigProcs) present
    (.releases ?_ real ?_ (Finset.ne_empty_of_mem set))
  · simp [Slot.clear, pending.symm]
  · simp [Slot.clear, sigPending.symm]
  · rw [slot]
    exact released.ready
  · rw [slot]
    exact present

theorem inform (balanced : Balanced k s unfinished) (finished : ∀ p, unfinished p = ∅)
    (waits : (s.proc k.MM_PROC_NR).WaitsForAny) (some_ : s.sigProcs ≠ 0) (ran : out.inform s = some (t, told)) :
    ∃ p, told = some (p, s.pending p) ∧ Balanced k t (Function.update unfinished p (s.pending p)) ∧
      ¬ (t.proc k.MM_PROC_NR).WaitsForAny ∧ Signalled k s t s.pending told := by
  obtain ⟨p, set⟩ := balanced.sigProcs_ne_zero.mp some_
  obtain ⟨rp, u, set, rfl, released, proc, sigProcs, ready⟩ := inform_cases waits ⟨p, (balanced.marked p set).1, set⟩ ran
  have other : rp ≠ k.MM_PROC_NR := (balanced.marked rp set).2
  have slot : u.proc rp = s.proc rp := by rw [released.proc, Function.update_of_ne other]
  have pending : s.pending rp ≠ ∅ := (balanced.counted rp).pending.mp set
  have present := (balanced.counted rp).nonempty set
  have count := (balanced.counted rp).pendcount present
  have blocked : .SIG_PENDING ∈ (s.proc rp).pFlags := by
    rw [(balanced.counted rp).sigPending, count]
    have positive := Finset.card_pos.mpr (Finset.nonempty_iff_ne_empty.mpr pending)
    unfold State.pending at positive
    omega
  -- MM is released from its `receive` first, then the process is unmarked
  have received := balanced.released released (Table.real_of_server balanced.mm_isServer) waits.1 (by decide) (by decide)
  have left : .SIG_PENDING ∈ (s.proc rp).told.pFlags := Finset.mem_erase.mpr ⟨by decide, blocked⟩
  have changes : Changes k rp u t := by
    refine .put proc (.inl rfl) ?_ (.stays (iff_of_false ?_ ?_) (by rw [ready]))
    · rw [slot, sigProcs, released.sigProcs]
      simp [Slot.mark, Slot.told, set]
    · rw [slot]
      exact fun runs => Finset.ne_empty_of_mem set runs.2
    · rw [proc, Function.update_self, slot]
      exact fun runs => Finset.ne_empty_of_mem left runs.2
  refine ⟨rp, rfl, received.changes changes ?_ (fun q other => Function.update_of_ne other _ _) fun marked => ?_, ?_, ?_⟩
  · rw [proc, Function.update_self, Function.update_self, slot]
    constructor
    · simp [Slot.told]
    · simpa [Slot.told] using (balanced.counted rp).sigPending
    · intro _
      change (s.proc rp).pPendcount = _
      rw [count, finished rp]
      simp [State.pending, Slot.told]
    · exact fun empty => absurd empty present
  · rw [proc, Function.update_self] at marked
    simp [Slot.told] at marked
  · rw [proc, Function.update_of_ne other.symm, released.proc, Function.update_self]
    simp [Slot.WaitsForAny, Slot.clear]
  · refine ⟨?_, ?_, fun p map same => ?_⟩
    · refine .trans (.update released.proc ⟨rfl, rfl, rfl, rfl⟩ ⟨rfl, rfl, rfl, rfl⟩ fun flag _ _ mm => ?_)
        (.update proc ⟨rfl, rfl, rfl, rfl⟩ ⟨rfl, rfl, rfl, rfl⟩ fun flag pending _ _ => ?_)
      · have kept : flag ≠ .RECEIVING := fun same => mm same rfl
        simp [Slot.clear, kept]
      · simp [Slot.told, pending]
    · have kept : u.pending = s.pending := (State.pending_update released.proc).trans (Function.update_eq_self _ _)
      rw [State.pending_update proc, kept]
      rfl
    · cases same
      exact ⟨rfl, pending⟩

end Balanced

/-- The books are right, and MM does not wait for work while there is something to tell or to finish. -/
structure Sound (k : Table Proc Sig) (w : World Proc Sig) : Prop where
  balanced : Balanced k w.state w.unfinished
  idle : (w.state.proc k.MM_PROC_NR).WaitsForAny → w.state.sigProcs = 0 ∧ ∀ p, w.unfinished p = ∅

variable [DecidableEq Sig] {w : World Proc Sig} {sig : Sig}

theorem Balanced.mark (balanced : Balanced k s unfinished) (user : (s.proc p).isuserp) (new : sig ∉ (s.proc p).pPending)
    (unmarked : .PENDING ∉ (s.proc p).pFlags) : Balanced k (out.mark p sig s) unfinished := by
  have changes : Changes k p s (out.mark p sig s) := by
    refine .put mark_proc (.inl rfl) ?_ (.blocks ?_ ?_)
    · rw [mark_sigProcs]
      simp [Slot.mark, Slot.raise, unmarked]
    · exact unreadied_ready
    · rw [mark_proc, Function.update_self]
      exact fun runs => Finset.insert_ne_empty _ _ runs.2
  refine balanced.changes changes ?_ (fun _ _ => rfl) fun _ => ⟨balanced.user_isServer user, balanced.user_ne_mm user⟩
  rw [mark_proc, Function.update_self]
  exact (balanced.counted p).mark user.present new

theorem Balanced.note (balanced : Balanced k s unfinished) (new : sig ∉ (s.proc p).pPending)
    (marked : .PENDING ∈ (s.proc p).pFlags) : Balanced k (s.put p ((s.proc p).note sig)) unfinished := by
  have slot : (s.put p ((s.proc p).note sig)).proc p = (s.proc p).note sig := Function.update_self _ _ _
  have changes : Changes k p s (s.put p ((s.proc p).note sig)) := .put rfl (.inl rfl) rfl (.stays (by rw [slot]; rfl) (.refl _))
  refine balanced.changes changes ?_ (fun _ _ => rfl) fun _ => balanced.marked p marked
  rw [slot]
  exact (balanced.counted p).note ((balanced.counted p).nonempty marked) new marked

def State.accepting (s : State Proc Sig) (p : Proc) (sig : Sig) : Proc → Finset Sig :=
  Function.update s.pending p (insert sig (s.pending p))

theorem Sound.causeSig (sound : Sound k w) (user : (w.state.proc p).isuserp)
    (ran : out.causeSig p sig w.state = some (s, told)) :
    Sound k (w.after s told) ∧ Signalled k w.state s (w.state.accepting p sig) told := by
  obtain ⟨balanced, idle⟩ := sound
  have other := (balanced.user_ne_mm user).symm
  unfold Outside.causeSig at ran
  dsimp only at ran
  -- pending already; marked already; MM waits and is told at once; or MM is busy and told later
  split_ifs at ran with known marked busy
  · cases ran
    have same : w.state.accepting p sig = w.state.pending := by
      unfold State.accepting State.pending
      rw [Finset.insert_eq_of_mem known]
      exact Function.update_eq_self _ _
    exact ⟨⟨balanced, idle⟩, .refl k _, same.symm, fun _ _ none_ => by cases none_⟩
  · cases ran
    refine ⟨⟨balanced.note known marked, fun waits => ?_⟩, ?_, ?_, fun _ _ none_ => by cases none_⟩
    · -- MM is not waiting, since there is somebody to tell it of
      change (Function.update w.state.proc p _ _).WaitsForAny at waits
      rw [Function.update_of_ne other] at waits
      exact absurd (idle waits).1 (balanced.sigProcs_ne_zero.mpr ⟨p, marked⟩)
    · exact .update rfl ⟨rfl, rfl, rfl, rfl⟩ ⟨rfl, rfl, rfl, rfl⟩ fun _ _ _ _ => Iff.rfl
    · exact State.pending_update (t := w.state.put p ((w.state.proc p).note sig)) rfl
  · have accepted : (out.mark p sig w.state).pending = w.state.accepting p sig := State.pending_update mark_proc
    have slot : (out.mark p sig w.state).proc k.MM_PROC_NR = w.state.proc k.MM_PROC_NR := by
      rw [mark_proc, Function.update_of_ne other]
    have finished := (idle (slot ▸ busy)).2
    have some_ : (out.mark p sig w.state).sigProcs ≠ 0 := by
      rw [mark_sigProcs, (idle (slot ▸ busy)).1]
      decide
    obtain ⟨q, rfl, informed, stops, signalled⟩ := (balanced.mark user known marked).inform finished busy some_ ran
    exact ⟨⟨informed, fun waits => absurd waits stops⟩, mark_untouched.trans signalled.untouched,
      accepted ▸ signalled.pending, accepted ▸ signalled.told⟩
  · cases ran
    exact ⟨⟨balanced.mark user known marked, fun waits => absurd waits busy⟩, mark_untouched, State.pending_update mark_proc,
      fun _ _ none_ => by cases none_⟩

end
end SoiStud.Kernel.SystemTask
