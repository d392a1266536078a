import Mathlib.Algebra.BigOperators.Group.Finset.Piecewise
import SoiStud.Kernel.Senders

/-! No clock tick gets lost in a fork or an exit.

A new process starts from nothing, whatever its parent's slot holds, and the times of a
process that exits, with those it has from its own children, go to the parent. Ticks that
are charged to its slot before another process runs are lost.
-/

set_option autoImplicit false

namespace SoiStud.Kernel.SystemTask

open Library

section
variable {Proc Sig : Type}

def Slot.account (rp : Slot Proc Sig) : Nat :=
  if rp.isemptyp then 0 else rp.userTime + rp.sysTime + (rp.childUtime + rp.childStime)

def State.account [Fintype Proc] (s : State Proc Sig) : Nat := ∑ p, (s.proc p).account

def ticks (history : List (Label Proc Sig)) : Nat := history.foldl (fun charged label => charged + label.event.ticks) 0

def lostTicks (history : List (Label Proc Sig)) : Nat := history.foldl (fun lost label => lost + label.event.lost) 0

variable [Fintype Proc] {k : Table Proc Sig} {s t : State Proc Sig} {p q : Proc} {rp rq : Slot Proc Sig}

omit [Fintype Proc] in
theorem Slot.account_eq (empty : rq.isemptyp ↔ rp.isemptyp) (user : rq.userTime = rp.userTime)
    (sys : rq.sysTime = rp.sysTime) (childU : rq.childUtime = rp.childUtime) (childS : rq.childStime = rp.childStime) :
    rq.account = rp.account := by
  unfold Slot.account
  simp only [empty, user, sys, childU, childS]

omit [Fintype Proc] in
theorem Slot.Same.account (same : rp.Same rq) : rq.account = rp.account := by
  refine Slot.account_eq ?_ same.userTime same.sysTime same.childUtime same.childStime
  unfold Slot.isemptyp
  rw [same.pPriority]

omit [Fintype Proc] in
theorem Slot.isuserp.account (user : rp.isuserp) :
    rp.account = rp.userTime + rp.sysTime + (rp.childUtime + rp.childStime) := if_neg user.present

theorem account_congr (same : ∀ q, (t.proc q).account = (s.proc q).account) : t.account = s.account :=
  Finset.sum_congr rfl fun q _ => same q

theorem Keeps.account (keeps : Keeps s t) : t.account = s.account := by
  refine account_congr fun q => ?_
  obtain ⟨user, sys, childU, childS⟩ := (keeps q).times
  exact Slot.account_eq (keeps q).empty user sys childU childS

variable [DecidableEq Proc]

theorem account_update (proc : t.proc = Function.update s.proc p rp) :
    t.account + (s.proc p).account = s.account + rp.account := by
  unfold State.account
  have accounts : (fun q => (t.proc q).account) = Function.update (fun q => (s.proc q).account) p rp.account := by
    funext q
    rw [proc]
    rcases eq_or_ne q p with rfl | other
    · rw [Function.update_self, Function.update_self]
    · rw [Function.update_of_ne other, Function.update_of_ne other]
  have rest := Finset.sum_erase_add Finset.univ (fun q => (s.proc q).account) (Finset.mem_univ p)
  rw [accounts, Finset.sum_update_of_mem (Finset.mem_univ p), ← rest, Finset.sdiff_singleton_eq_erase]
  omega

theorem Puts.account (puts : Puts p rp s t) (same : rp.account = (s.proc p).account) : t.account = s.account := by
  have total := account_update puts.proc
  omega

variable {out : Outside k}

theorem fork_account {parent child : Proc} {pid : Int} (ran : doFork parent child pid s = some t) :
    t.account = s.account := by
  obtain ⟨user, empty, rfl⟩ := doFork_cases ran
  refine Puts.account (p := child) ⟨rfl, rfl⟩ ?_
  have starts : ((s.proc parent).forked pid).account = 0 := by
    unfold Slot.account
    split <;> rfl
  rw [starts]
  exact (if_pos empty).symm

theorem exit_account {parent : Proc} (apart : parent ≠ p) (ran : out.doXit parent p s = some t) :
    t.account = s.account := by
  obtain ⟨parentUser, user, u, relinked, rfl⟩ := doXit_cases ran
  have given := account_update (s := s) (t := s.put parent ((s.proc parent).accumulate (s.proc p))) rfl
  have gets : ((s.proc parent).accumulate (s.proc p)).account = (s.proc parent).account + (s.proc p).account := by
    have still : ((s.proc parent).accumulate (s.proc p)).isuserp := parentUser
    rw [still.account, parentUser.account, user.account]
    unfold Slot.accumulate
    dsimp only
    omega
  have left : (out.leave parent p s).account = (s.put parent ((s.proc parent).accumulate (s.proc p))).account :=
    Puts.account ⟨leave_proc, leave_sigProcs⟩ rfl
  have linked (q : Proc) : (u.proc q).account = ((out.leave parent p s).proc q).account := by
    obtain ⟨head, next, same⟩ := relinked.slots q
    rw [same]
    rfl
  have own : (u.proc p).account = (s.proc p).account := by
    rw [linked, leave_proc, Function.update_self, Function.update_of_ne apart.symm]
    rfl
  have gone : (u.proc p).exited.account = 0 := if_pos rfl
  have vacated := account_update (vacate_proc (s := u) (p := p))
  rw [account_congr linked, left, own, gone] at vacated
  omega

variable [DecidableEq Sig] {w w' : World Proc Sig}

omit [Fintype Proc] [DecidableEq Proc] [DecidableEq Sig] in
theorem Event.lost_eq_zero {event : Event Proc Sig} (uncharged : event.ticks = 0) : event.lost = 0 := by
  unfold Event.lost
  split
  · exact uncharged
  · rfl

omit [DecidableEq Sig] in
theorem charge_account {user sys : Nat} :
    (s.put p ((s.proc p).charge user sys)).account + ( Event.charge p user sys (s.proc p).isemptyp : Event Proc Sig).lost =
      s.account + (user + sys) := by
  have total := account_update (s := s) (t := s.put p ((s.proc p).charge user sys)) rfl
  have same : ((s.proc p).charge user sys).isemptyp ↔ (s.proc p).isemptyp := Iff.rfl
  by_cases empty : (s.proc p).isemptyp
  · have before : (s.proc p).account = 0 := if_pos empty
    have after : ((s.proc p).charge user sys).account = 0 := if_pos (same.mpr empty)
    simp only [empty, decide_true, Event.lost, Event.ticks]
    omega
  · have more : ((s.proc p).charge user sys).account = (s.proc p).account + (user + sys) := by
      unfold Slot.account
      rw [if_neg empty, if_neg (mt same.mp empty)]
      unfold Slot.charge
      dsimp only
      omega
    simp only [empty, decide_false, Event.lost]
    omega

theorem Steps.account {label : Label Proc Sig} (steps : Steps out w label w') (sound : Sound k w) :
    w'.state.account + label.event.lost = w.state.account + label.event.ticks := by
  have moved := sound.moved steps
  generalize label.event = event at moved ⊢
  cases moved with
  | keeps uncharged keeps => rw [keeps.account, uncharged, Event.lost_eq_zero uncharged]
  | fork idle ran => exact fork_account ran
  | exit apart ran => exact exit_account apart ran
  | charge same =>
    rw [same]
    exact charge_account
  | ipc ipc =>
    cases ipc with
    | receives _ _ _ _ blocked => exact Puts.account ⟨blocked.proc, blocked.sigProcs⟩ rfl
    | received _ _ released => exact Puts.account ⟨released.proc, released.sigProcs⟩ rfl
    | sends _ _ _ _ _ sends => exact account_congr fun q => (sends.slots q).account
    | sent _ _ sent => exact account_congr fun q => (sent.slots q).account

/-- The times of the processes that have not exited add up to the ticks that have been charged and are not lost. -/
theorem ticks_accounted {history : List (Label Proc Sig)} (run : (kernel out).Run history w) :
    w.state.account + lostTicks history = ticks history := by
  refine run.induction_on (P := fun history w => w.state.account + lostTicks history = ticks history) ?_ ?_
  · rintro w ⟨idle, -⟩
    refine Finset.sum_eq_zero fun p _ => ?_
    obtain ⟨-, -, -, -, -, user, sys, childU, childS⟩ := idle p
    simp [Slot.account, user, sys, childU, childS]
  · intro history w label w' earlier accounted steps
    have more := steps.account (sound_of_run earlier).1
    unfold ticks lostTicks at accounted ⊢
    simp only [List.foldl_append, List.foldl_cons, List.foldl_nil]
    omega

end

/-! ## A process exits, and its slot is used again -/

def smallBill : List (Label Who Signal) :=
  [⟨.charge .user 3 1 false, none⟩, ⟨.exit .shell .user, none⟩, ⟨.charge .user 0 2 true, none⟩,
    ⟨.fork .shell .user, none⟩]

theorem ticks_accounted_smallBill : ∃ w, (kernel smallOutside).Run smallBill w ∧ (w.state.proc .user).account = 0 ∧
    (w.state.proc .shell).account = 4 ∧ w.state.account + 2 = 6 := by
  have played : ((smallBill.foldlM play smallBoot).any fun w => (w.state.proc .user).account = 0 ∧
      (w.state.proc .shell).account = 4) = true := by decide
  obtain ⟨w, run, ends⟩ := System.run_of_play (fun _ _ _ => play_steps) smallBoot_init played
  obtain ⟨user, shell⟩ := of_decide_eq_true ends
  exact ⟨w, run, user, shell, ticks_accounted run⟩

end SoiStud.Kernel.SystemTask
