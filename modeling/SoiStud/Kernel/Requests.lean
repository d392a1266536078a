import SoiStud.Kernel.Signals

/-! The requests of the system task keep the books of the signals and the ready queues.

Of each request it is said first what it makes of the process table.
-/

set_option autoImplicit false

namespace SoiStud.Kernel.SystemTask

open Library

/-! ## What the requests do -/

section
variable {Proc Sig : Type} [DecidableEq Proc] {k : Table Proc Sig} {out : Outside k} {s t : State Proc Sig} {p : Proc}
  {rp : Slot Proc Sig}

structure Puts (p : Proc) (rp : Slot Proc Sig) (s t : State Proc Sig) : Prop where
  proc : t.proc = Function.update s.proc p rp
  sigProcs : t.sigProcs = s.sigProcs

theorem Puts.slot (puts : Puts p rp s t) : t.proc p = rp := by rw [puts.proc, Function.update_self]

theorem Puts.other {q : Proc} (puts : Puts p rp s t) (other : q ≠ p) : t.proc q = s.proc q := by
  rw [puts.proc, Function.update_of_ne other]

theorem readied_puts : Puts p rp s (if rp.pFlags = ∅ then out.readied p (s.put p rp) else s.put p rp) := by
  split <;> exact ⟨rfl, rfl⟩

theorem readied_ready : (if rp.pFlags = ∅ then out.readied p (s.put p rp) else s.put p rp).ready.Perm
    (if rp.pFlags = ∅ then p :: s.ready else s.ready) := by
  split
  · exact out.lockReady_perm p _
  · exact .refl _

theorem unreadied_blocked : Blocked p rp s ((if (s.proc p).pFlags = ∅ then out.unreadied p s else s).put p rp) where
  proc := by split <;> rfl
  sigProcs := by split <;> rfl
  ready := unreadied_ready

structure Resumes (p : Proc) (rp : Slot Proc Sig) (s t : State Proc Sig) : Prop extends Puts p rp s t where
  ready : t.ready.Perm (if rp.pFlags = ∅ then p :: s.ready else s.ready)

theorem readied_resumes : Resumes p rp s (if rp.pFlags = ∅ then out.readied p (s.put p rp) else s.put p rp) :=
  ⟨readied_puts, readied_ready⟩

theorem doEndsig_cases {r : Reply} (ran : out.doEndsig p s = some (r, t)) :
    t = s ∧ ((s.proc p).isemptyp ∨ (s.proc p).pPendcount = 0) ∨
    (s.proc p).isuserp ∧ (s.proc p).pPendcount ≠ 0 ∧
      ((s.proc p).countDown.pPendcount ≠ 0 ∧ t = s.put p (s.proc p).countDown ∨
        (s.proc p).countDown.pPendcount = 0 ∧ Resumes p ((s.proc p).countDown.clear .SIG_PENDING) s t) := by
  unfold Outside.doEndsig at ran
  dsimp only at ran
  split at ran
  · rename_i empty
    cases ran
    exact .inl ⟨rfl, .inl empty⟩
  · split at ran
    · cases ran
    · rename_i user
      split at ran
      · rename_i none_
        cases ran
        exact .inl ⟨rfl, .inr none_⟩
      · rename_i some_
        refine .inr ⟨not_not.mp user, some_, ?_⟩
        split at ran
        · rename_i more
          cases ran
          exact .inl ⟨more, rfl⟩
        · rename_i last
          obtain ⟨-, rfl⟩ := Prod.mk.inj (Option.some.inj ran)
          exact .inr ⟨not_not.mp last, readied_resumes⟩

theorem doFork_cases {parent child : Proc} {pid : Int} (ran : doFork parent child pid s = some t) :
    (s.proc parent).isuserp ∧ (s.proc child).isemptyp ∧ t = s.put child ((s.proc parent).forked pid) := by
  unfold doFork at ran
  split at ran
  · cases ran
  · rename_i meant
    cases ran
    rw [not_or, not_not, not_not] at meant
    exact ⟨meant.1, meant.2, rfl⟩

theorem doNewmap_cases (out : Outside k) (s : State Proc Sig) (p : Proc) (map : List MemMap) :
    (s.proc p).pFlags = ∅ ∧ out.doNewmap p map s = s.put p ((s.proc p).mapped map) ∨
    (s.proc p).pFlags ≠ ∅ ∧ Resumes p ((s.proc p).mapped map) s (out.doNewmap p map s) := by
  unfold Outside.doNewmap
  by_cases ran : (s.proc p).pFlags = ∅
  · exact .inl ⟨ran, if_neg fun both => both.1 ran⟩
  · refine .inr ⟨ran, ?_⟩
    simp only [ne_eq, ran, not_false_eq_true, true_and]
    exact readied_resumes

theorem doNewmap_puts {map : List MemMap} : Puts p ((s.proc p).mapped map) s (out.doNewmap p map s) := by
  rcases doNewmap_cases out s p map with ⟨-, same⟩ | ⟨-, resumes⟩
  · rw [same]
    exact ⟨rfl, rfl⟩
  · exact resumes.toPuts

theorem doTrace_cases {request : Outside.Request} {r : Reply} (ran : out.doTrace p request s = (r, t)) :
    t = s ∨ ¬ (s.proc p).isemptyp ∧
      (request = .T_STOP ∧ Blocked p (s.proc p).stopped s t ∨
        request ≠ .T_STOP ∧ ∃ rp, (rp = (s.proc p).clear .P_STOP ∨ rp = (s.proc p).stepped) ∧ Resumes p rp s t) := by
  unfold Outside.doTrace at ran
  dsimp only at ran
  split at ran
  · cases ran
    exact .inl rfl
  · rename_i present
    refine .inr ⟨present, ?_⟩
    cases request with
    | T_STOP =>
      obtain ⟨-, rfl⟩ := Prod.mk.inj ran
      exact .inl ⟨rfl, unreadied_blocked⟩
    | T_RESUME =>
      obtain ⟨-, rfl⟩ := Prod.mk.inj ran
      exact .inr ⟨by decide, _, .inl rfl, readied_resumes⟩
    | T_STEP =>
      obtain ⟨-, rfl⟩ := Prod.mk.inj ran
      exact .inr ⟨by decide, _, .inr rfl, readied_resumes⟩

theorem signOn_cases {priv copied : Bool} {r : Reply} (ran : signOn p priv copied s = (r, t)) :
    t = s ∨ (s.proc p).isuserp ∧ t = s.put p (s.proc p).signedOn := by
  unfold signOn at ran
  split at ran
  · cases ran
    exact .inl rfl
  · rename_i meant
    rw [not_or, not_not] at meant
    split at ran
    · cases ran
      exact .inl rfl
    · cases ran
      exact .inr ⟨meant.2, rfl⟩

structure Relinked (s t : State Proc Sig) : Prop where
  slots : ∀ q, ∃ head next, t.proc q = ((s.proc q).headTo head).linkTo next
  sigProcs : t.sigProcs = s.sigProcs
  ready : t.ready = s.ready

omit [DecidableEq Proc] in
theorem Relinked.refl (s : State Proc Sig) : Relinked s s := ⟨fun _ => ⟨_, _, rfl⟩, rfl, rfl⟩

omit [DecidableEq Proc] in
theorem Relinked.trans {u : State Proc Sig} (first : Relinked s t) (second : Relinked t u) : Relinked s u where
  slots q := by
    obtain ⟨_, _, same⟩ := first.slots q
    obtain ⟨head, next, again⟩ := second.slots q
    refine ⟨head, next, ?_⟩
    rw [again, same]
    rfl
  sigProcs := second.sigProcs.trans first.sigProcs
  ready := second.ready.trans first.ready

theorem Relinked.put (linked : ∃ head next, rp = ((s.proc p).headTo head).linkTo next) : Relinked s (s.put p rp) where
  slots q := by
    rcases eq_or_ne q p with rfl | other
    · obtain ⟨head, next, rfl⟩ := linked
      exact ⟨head, next, Function.update_self _ _ _⟩
    · exact ⟨_, _, Function.update_of_ne other _ _⟩
  sigProcs := rfl
  ready := rfl

theorem unlinkBehind_relinked {rc np : Proc} {fuel : Nat} (ran : unlinkBehind rc fuel np s = some t) : Relinked s t := by
  induction fuel generalizing np with
  | zero => cases ran
  | succ fuel ih =>
    unfold unlinkBehind at ran
    split at ran
    · cases ran
      exact .refl s
    · split at ran
      · cases ran
        exact .put ⟨(s.proc np).pCallerq, _, rfl⟩
      · exact ih ran

theorem unqueue_relinked {rc : Proc} {fuel : Nat} {slots : List Proc} (ran : unqueue rc fuel slots s = some t) :
    Relinked s t := by
  induction slots generalizing s with
  | nil =>
    cases ran
    exact .refl _
  | cons rp rest ih =>
    unfold unqueue at ran
    split at ran
    · exact ih ran
    · split at ran
      · cases ran
        exact .put ⟨(s.proc rc).pSendlink, (s.proc rp).pSendlink, rfl⟩
      · obtain ⟨u, unlinked, ran⟩ := Option.bind_eq_some_iff.mp ran
        exact (unlinkBehind_relinked unlinked).trans (ih ran)

theorem doXit_cases [Fintype Proc] {parent : Proc} (ran : out.doXit parent p s = some t) :
    (s.proc parent).isuserp ∧ (s.proc p).isuserp ∧ ∃ u, Relinked (out.leave parent p s) u ∧ t = vacate p u := by
  unfold Outside.doXit at ran
  split at ran
  · cases ran
  · rename_i users
    rw [not_or, not_not, not_not] at users
    obtain ⟨u, unqueued, rfl⟩ := Option.map_eq_some_iff.mp ran
    refine ⟨users.1, users.2, u, ?_, rfl⟩
    split at unqueued
    · exact unqueue_relinked unqueued
    · cases unqueued
      exact .refl _

theorem leave_proc {parent : Proc} : (out.leave parent p s).proc =
    Function.update (Function.update s.proc parent ((s.proc parent).accumulate (s.proc p))) p
      (Function.update s.proc parent ((s.proc parent).accumulate (s.proc p)) p).unalarmed := by
  unfold Outside.leave
  dsimp only
  split <;> rfl

theorem leave_ready {parent : Proc} : (out.leave parent p s).ready.Perm
    (if (s.proc p).pFlags = ∅ then s.ready.erase p else s.ready) := by
  unfold Outside.leave
  dsimp only
  split
  · exact out.lockUnready_perm p _
  · exact .refl _

theorem leave_sigProcs {parent : Proc} : (out.leave parent p s).sigProcs = s.sigProcs := by
  unfold Outside.leave
  dsimp only
  split <;> rfl

theorem leave_slot (out : Outside k) (s : State Proc Sig) (parent p q : Proc) : ∃ times : Slot Proc Sig, (out.leave parent p s).proc q =
    { s.proc q with pAlarm := times.pAlarm, childUtime := times.childUtime, childStime := times.childStime } := by
  rw [leave_proc]
  rcases eq_or_ne q p with rfl | other
  · rw [Function.update_self]
    rcases eq_or_ne q parent with rfl | other
    · rw [Function.update_self]
      exact ⟨((s.proc q).accumulate (s.proc q)).unalarmed, rfl⟩
    · rw [Function.update_of_ne other]
      exact ⟨(s.proc q).unalarmed, rfl⟩
  · rw [Function.update_of_ne other]
    rcases eq_or_ne q parent with rfl | other
    · rw [Function.update_self]
      exact ⟨(s.proc q).accumulate (s.proc p), rfl⟩
    · rw [Function.update_of_ne other]
      exact ⟨s.proc q, rfl⟩

theorem vacate_proc : (vacate p s).proc = Function.update s.proc p (s.proc p).exited := by
  unfold vacate
  dsimp only
  split <;> rfl

theorem Relinked.leaving {parent : Proc} (relinked : Relinked (out.leave parent p s) t) (q : Proc) :
    (t.proc q).pFlags = (s.proc q).pFlags ∧ (t.proc q).pPriority = (s.proc q).pPriority ∧
      (t.proc q).pPending = (s.proc q).pPending ∧ (t.proc q).pPendcount = (s.proc q).pPendcount ∧
      (t.proc q).pGetfrom = (s.proc q).pGetfrom := by
  obtain ⟨head, next, same⟩ := relinked.slots q
  obtain ⟨times, before⟩ := leave_slot out s parent p q
  rw [same, before]
  exact ⟨rfl, rfl, rfl, rfl, rfl⟩

variable [DecidableEq Sig]

theorem doExec_cases {traced : Bool} {sp pc : Int} {told : Told Proc Sig} (ran : out.doExec p traced sp pc s = some (t, told)) :
    (s.proc p).isuserp ∧ ∃ u, (if traced then out.causeSig p k.SIGTRAP s else some (s, none)) = some (u, told) ∧
      Resumes p ((u.proc p).execed sp pc) u t := by
  unfold Outside.doExec at ran
  split at ran
  · cases ran
  · rename_i user
    refine ⟨not_not.mp user, ?_⟩
    obtain ⟨⟨u, told'⟩, trapped, ran⟩ := Option.map_eq_some_iff.mp ran
    cases ran
    exact ⟨u, trapped, readied_resumes⟩

end

/-! ## The books -/

section
variable {Proc Sig : Type} [DecidableEq Proc] [Fintype Proc] {k : Table Proc Sig} {out : Outside k} {s t u : State Proc Sig}
  {p q : Proc} {rp : Slot Proc Sig} {unfinished : Proc → Finset Sig}

namespace Balanced

theorem resumes {flag : Flag} (balanced : Balanced k s unfinished) (resumes : Resumes p rp s t)
    (real : ¬ k.IsIdleHardware p) (set : flag ∈ (s.proc p).pFlags) (flags : rp.pFlags = (s.proc p).pFlags.erase flag)
    (slot : rp.pPriority = (s.proc p).pPriority ∧ rp.pPending = (s.proc p).pPending ∧ rp.pPendcount = (s.proc p).pPendcount)
    (pending : flag ≠ .PENDING) (sigPending : flag ≠ .SIG_PENDING) : Balanced k t unfinished := by
  have present := (balanced.counted p).nonempty set
  refine balanced.reflag (.put resumes.proc slot ?_ ?_ resumes.sigProcs) present
    (.releases ?_ real ?_ (Finset.ne_empty_of_mem set))
  · simp [flags, pending.symm]
  · simp [flags, sigPending.symm]
  · rw [resumes.slot]
    exact resumes.ready
  · unfold Slot.isemptyp
    rwa [resumes.slot, slot.1]

theorem blocked {flag : Flag} (balanced : Balanced k s unfinished) (blocked : Blocked p rp s t)
    (present : ¬ (s.proc p).isemptyp) (flags : rp.pFlags = insert flag (s.proc p).pFlags)
    (slot : rp.pPriority = (s.proc p).pPriority ∧ rp.pPending = (s.proc p).pPending ∧ rp.pPendcount = (s.proc p).pPendcount)
    (pending : flag ≠ .PENDING) (sigPending : flag ≠ .SIG_PENDING) : Balanced k t unfinished := by
  refine balanced.reflag (.put blocked.proc slot ?_ ?_ blocked.sigProcs) present (.blocks blocked.ready fun runs => ?_)
  · simp [flags, pending.symm]
  · simp [flags, sigPending.symm]
  · rw [blocked.proc, Function.update_self] at runs
    exact Finset.insert_ne_empty flag _ (flags.symm.trans runs.2)

theorem newmap (balanced : Balanced k s unfinished) (server : p ∈ k.servers) (map : List MemMap) :
    Balanced k (out.doNewmap p map s) unfinished := by
  rcases doNewmap_cases out s p map with ⟨ran, same⟩ | ⟨waited, resumes⟩
  · rw [same]
    refine balanced.same (fun q => ?_) rfl (.refl _)
    rcases eq_or_ne q p with rfl | other
    · simp [State.put, Slot.mapped, ran]
    · simp [State.put, other]
  · by_cases unmapped : .NO_MAP ∈ (s.proc p).pFlags
    · exact balanced.resumes resumes (Table.real_of_server server) unmapped rfl ⟨rfl, rfl, rfl⟩ (by decide) (by decide)
    · have flags : ((s.proc p).mapped map).pFlags = (s.proc p).pFlags := Finset.erase_eq_of_notMem unmapped
      have ready := resumes.ready
      rw [flags, if_neg waited] at ready
      refine balanced.same (fun q => ?_) resumes.sigProcs ready
      rcases eq_or_ne q p with rfl | other
      · rw [resumes.slot]
        exact ⟨flags, rfl, rfl, rfl⟩
      · rw [resumes.other other]
        exact ⟨rfl, rfl, rfl, rfl⟩

theorem trace {request : Outside.Request} {r : Reply} (balanced : Balanced k s unfinished) (server : p ∈ k.servers)
    (stopped : request ≠ .T_STOP → .P_STOP ∈ (s.proc p).pFlags) (ran : out.doTrace p request s = (r, t)) :
    Balanced k t unfinished := by
  rcases doTrace_cases ran with rfl | ⟨present, ⟨rfl, stops⟩ | ⟨resumed, rp, rfl | rfl, resumes⟩⟩
  · exact balanced
  · exact balanced.blocked stops present rfl ⟨rfl, rfl, rfl⟩ (by decide) (by decide)
  · exact balanced.resumes resumes (Table.real_of_server server) (stopped resumed) rfl ⟨rfl, rfl, rfl⟩ (by decide) (by decide)
  · exact balanced.resumes resumes (Table.real_of_server server) (stopped resumed) rfl ⟨rfl, rfl, rfl⟩ (by decide) (by decide)

theorem signOn {priv copied : Bool} {r : Reply} (balanced : Balanced k s unfinished)
    (ran : signOn p priv copied s = (r, t)) : Balanced k t unfinished := by
  rcases signOn_cases ran with rfl | ⟨user, rfl⟩
  · exact balanced
  · have slot : (s.put p (s.proc p).signedOn).proc p = (s.proc p).signedOn := Function.update_self _ _ _
    have present := user.present
    have signed : ¬ (s.proc p).signedOn.isemptyp := by simp [Slot.isemptyp, Slot.signedOn]
    have changes : Changes k p s (s.put p (s.proc p).signedOn) := by
      refine .put rfl (.inr (.inl user)) rfl (.stays ?_ (.refl _))
      rw [slot]
      exact and_congr (iff_of_true present signed) Iff.rfl
    refine balanced.changes changes ?_ (fun _ _ => rfl) fun marked => balanced.marked p (by rwa [slot] at marked)
    rw [slot]
    exact (balanced.counted p).congr Iff.rfl Iff.rfl rfl rfl (iff_of_false signed present) fun _ empty => absurd empty present

theorem fork {parent child : Proc} {pid : Int} (balanced : Balanced k s unfinished) (finished : unfinished child = ∅)
    (ran : doFork parent child pid s = some t) : Balanced k t unfinished := by
  obtain ⟨user, empty, rfl⟩ := doFork_cases ran
  have slot : (s.put child ((s.proc parent).forked pid)).proc child = (s.proc parent).forked pid := Function.update_self _ _ _
  have unset := (balanced.counted child).empty empty
  have unmarked : .PENDING ∉ ((s.proc parent).forked pid).pFlags := by simp [Slot.forked]
  have changes : Changes k child s (s.put child ((s.proc parent).forked pid)) := by
    refine .put rfl (.inr (.inr empty)) ?_ (.stays (iff_of_false (fun runs => runs.1 empty) ?_) (.refl _))
    · simp [Slot.mark, unmarked, unset, State.put]
    · rw [slot]
      intro runs
      have set : .NO_MAP ∈ ((s.proc parent).forked pid).pFlags := by simp [Slot.forked]
      exact Finset.ne_empty_of_mem set runs.2
  refine balanced.changes changes ?_ (fun _ _ => rfl) fun marked => absurd (by rwa [slot] at marked) unmarked
  rw [slot, finished]
  refine ⟨by simp [Slot.forked], by simp [Slot.forked], fun _ => rfl, fun isEmpty => ?_⟩
  have both := user.symm.trans isEmpty
  cases both

theorem exit {parent : Proc} (balanced : Balanced k s unfinished) (ran : out.doXit parent p s = some t) :
    Balanced k t unfinished := by
  obtain ⟨-, user, u, relinked, rfl⟩ := doXit_cases ran
  have slot : (vacate p u).proc p = (u.proc p).exited := by rw [vacate_proc, Function.update_self]
  have changes : Changes k p s (vacate p u) := by
    refine ⟨fun q other => ?_, .inr (.inl user), ?_, .blocks ?_ ?_⟩
    · rw [vacate_proc, Function.update_of_ne other]
      obtain ⟨flags, priority, pending, count, -⟩ := relinked.leaving q
      exact ⟨flags, priority, pending, count⟩
    · rw [slot]
      have sigProcs := relinked.sigProcs.trans leave_sigProcs
      unfold vacate
      by_cases marked : Flag.PENDING ∈ (s.proc p).pFlags
      · simp [State.put, Slot.mark, Slot.exited, (relinked.leaving p).1, marked, sigProcs]
      · simp [State.put, Slot.mark, Slot.exited, (relinked.leaving p).1, marked, sigProcs]
    · have ready : (vacate p u).ready = u.ready := by
        unfold vacate
        dsimp only
        split <;> rfl
      rw [ready, relinked.ready]
      exact leave_ready
    · rw [slot]
      exact fun runs => runs.1 rfl
  refine balanced.changes changes ?_ (fun _ _ => rfl) fun marked => ?_
  · rw [slot]
    exact ⟨by simp [Slot.exited], by simp [Slot.exited], fun present => absurd rfl present, fun _ => rfl⟩
  · rw [slot] at marked
    exact absurd marked (Finset.notMem_empty _)

theorem endsig [DecidableEq Sig] {sig : Sig} {r : Reply} (balanced : Balanced k s unfinished) (told : sig ∈ unfinished p)
    (ran : out.doEndsig p s = some (r, t)) :
    Balanced k t (Function.update unfinished p ((unfinished p).erase sig)) := by
  have others (q : Proc) (other : q ≠ p) : Function.update unfinished p ((unfinished p).erase sig) q = unfinished q :=
    Function.update_of_ne other _ _
  have positive : 0 < (unfinished p).card := Finset.card_pos.mpr ⟨sig, told⟩
  have fewer : ((unfinished p).erase sig).card = (unfinished p).card - 1 := Finset.card_erase_of_mem told
  rcases doEndsig_cases ran with ⟨rfl, unneeded⟩ | ⟨user, some_, ⟨more, rfl⟩ | ⟨last, resumes⟩⟩
  · -- the process has exited in the meantime
    have empty : (t.proc p).isemptyp := by
      refine unneeded.elim id fun none_ => by_contra fun present => ?_
      have count := (balanced.counted p).pendcount present
      omega
    have changes : Changes k p t t := ⟨fun _ _ => ⟨rfl, rfl, rfl, rfl⟩, .inl rfl, rfl, .stays Iff.rfl (.refl _)⟩
    obtain ⟨pending, sigPending, -, flags⟩ := balanced.counted p
    exact balanced.changes changes ⟨pending, sigPending, fun present => absurd empty present, flags⟩ others (balanced.marked p)
  · -- others are left, pending or to be ended, and the process stays blocked
    have count := (balanced.counted p).pendcount user.present
    have slot : (s.put p (s.proc p).countDown).proc p = (s.proc p).countDown := Function.update_self _ _ _
    have changes : Changes k p s (s.put p (s.proc p).countDown) :=
      .put rfl (.inl rfl) rfl (.stays (by rw [slot]; rfl) (.refl _))
    refine balanced.changes changes ?_ others fun marked => balanced.marked p (by rwa [slot] at marked)
    rw [slot, Function.update_self]
    refine ⟨(balanced.counted p).pending, iff_of_true ((balanced.counted p).sigPending.mpr some_) more, fun _ => ?_,
      fun empty => absurd empty user.present⟩
    rw [fewer]
    change (s.proc p).pPendcount - 1 = (s.proc p).pPending.card + _
    omega
  · have count := (balanced.counted p).pendcount user.present
    have blocked := (balanced.counted p).sigPending.mpr some_
    have mark : .PENDING ∈ ((s.proc p).countDown.clear .SIG_PENDING).pFlags ↔ .PENDING ∈ (s.proc p).pFlags := by
      simp [Slot.countDown, Slot.clear]
    have changes : Changes k p s t := by
      refine .put resumes.proc (.inl rfl) ?_ (.releases ?_ ?_ ?_ (Finset.ne_empty_of_mem blocked))
      · simp only [Slot.mark, mark, resumes.sigProcs]
      · rw [resumes.slot]
        exact resumes.ready
      · exact Table.real_of_server (balanced.user_isServer user)
      · rw [resumes.slot]
        exact user.present
    refine balanced.changes changes ?_ others fun marked => balanced.marked p (by rwa [resumes.slot, mark] at marked)
    rw [resumes.slot, Function.update_self]
    refine ⟨mark.trans (balanced.counted p).pending, iff_of_false (by simp [Slot.clear]) (not_not.mpr last), fun _ => ?_,
      fun empty => absurd empty user.present⟩
    change (s.proc p).pPendcount - 1 = 0 at last
    rw [fewer]
    change (s.proc p).pPendcount - 1 = (s.proc p).pPending.card + _
    omega

end Balanced
end
end SoiStud.Kernel.SystemTask
