import SoiStud.Kernel.Delivery

/-! The queues of those who wish to send.

A process that is blocked in `send` stands in one queue, once, and nobody else stands in
any. `do_xit` goes through all queues to take an exiting process out of its own; it comes
to an end, and leaves the order of the others as it is.
-/

set_option autoImplicit false

namespace SoiStud.Kernel.SystemTask

open Library

section
variable {Proc Sig : Type} {s t : State Proc Sig} {p q d : Proc} {queue : Proc → List Proc}

structure Senders (s : State Proc Sig) (queue : Proc → List Proc) : Prop where
  queued : s.Queued queue
  sending : ∀ p, .SENDING ∈ (s.proc p).pFlags ↔ ∃ d, p ∈ queue d
  apart : ∀ d e p, p ∈ queue d → p ∈ queue e → d = e
  closed : ∀ d, (s.proc d).isuserp ∨ (s.proc d).isemptyp → queue d = []

theorem State.Queued.nodup (queued : s.Queued queue) (d : Proc) : (queue d).Nodup := (queued d).nodup.of_map

theorem State.Queued.unique {queue' : Proc → List Proc} (queued : s.Queued queue) (again : s.Queued queue') : queue = queue' :=
  funext fun d => List.map_injective_iff.mpr (Option.some_injective Proc) ((queued d).unique (again d))

theorem State.Queued.congr (queued : s.Queued queue) (heads : ∀ d, (t.proc d).pCallerq = (s.proc d).pCallerq)
    (links : ∀ d, ∀ p ∈ queue d, (t.proc p).pSendlink = (s.proc p).pSendlink) : t.Queued queue := by
  intro d
  rw [heads]
  refine (queued d).congr fun link member => ?_
  obtain ⟨p, here, rfl⟩ := List.mem_map.mp member
  exact links d p here

theorem Senders.congr (senders : Senders s queue) (heads : ∀ d, (t.proc d).pCallerq = (s.proc d).pCallerq)
    (links : ∀ p, .SENDING ∈ (s.proc p).pFlags → (t.proc p).pSendlink = (s.proc p).pSendlink)
    (sending : ∀ p, .SENDING ∈ (t.proc p).pFlags ↔ .SENDING ∈ (s.proc p).pFlags)
    (closed : ∀ d, (t.proc d).isuserp ∨ (t.proc d).isemptyp → (s.proc d).isuserp ∨ (s.proc d).isemptyp) : Senders t queue where
  queued := senders.queued.congr heads fun d p member => links p ((senders.sending p).mpr ⟨d, member⟩)
  sending p := (sending p).trans (senders.sending p)
  apart := senders.apart
  closed d unwanted := senders.closed d (closed d unwanted)

end

/-! ## The loops of `do_xit` -/

section
variable {Proc Sig : Type} [DecidableEq Proc] {s t : State Proc Sig} {rc np : Proc} {queue : Proc → List Proc} {l : List Proc}

theorem link_headTo (s : State Proc Sig) (rp : Proc) (head : Option Proc) :
    (s.put rp ((s.proc rp).headTo head)).link = s.link := by
  funext link
  cases link with
  | none => rfl
  | some p =>
    unfold State.link
    dsimp only
    rcases eq_or_ne p rp with rfl | other
    · rw [State.put_self]
      rfl
    · rw [s.put_other _ other]

theorem unlinkBehind_spec {fuel : Nat} (chain : Chain s.link none (some np) ((np :: l).map some)) (other : np ≠ rc)
    (enough : l.length < fuel) :
    ∃ t, unlinkBehind rc fuel np s = some t ∧ Chain t.link none (some np) ((np :: l.erase rc).map some) ∧
      (∀ q, (t.proc q).pCallerq = (s.proc q).pCallerq) ∧ ∀ q ∉ np :: l, (t.proc q).pSendlink = (s.proc q).pSendlink := by
  induction fuel generalizing np l with
  | zero => omega
  | succ fuel ih =>
    unfold unlinkBehind
    have tail : Chain s.link none (s.proc np).pSendlink (l.map some) := chain.tail
    cases l with
    | nil =>
      have ends : (s.proc np).pSendlink = none := tail.eq_nil
      rw [ends]
      exact ⟨s, rfl, chain, fun _ => rfl, fun _ _ => rfl⟩
    | cons xp rest =>
      have next : (s.proc np).pSendlink = some xp := tail.head_eq
      have once : np ∉ xp :: rest := (List.nodup_cons.mp chain.nodup.of_map).1
      rw [next] at tail ⊢
      dsimp only
      split
      · rename_i found
        subst found
        -- `np` is linked to the process behind the one that exits
        refine ⟨_, rfl, ?_, fun q => ?_, fun q outside => ?_⟩
        · rw [List.erase_cons_head]
          refine .link (by simp) ?_
          change Chain _ none ((s.put np _).proc np).pSendlink _
          rw [State.put_self]
          refine Chain.congr (a := (s.proc xp).pSendlink) tail.tail fun link member => ?_
          obtain ⟨p, here, rfl⟩ := List.mem_map.mp member
          have apart : p ≠ np := fun same => once (List.mem_cons_of_mem _ (same ▸ here))
          exact congrArg Slot.pSendlink (s.put_other _ apart)
        · rcases eq_or_ne q np with rfl | apart
          · rw [State.put_self]
            rfl
          · rw [s.put_other _ apart]
        · have apart : q ≠ np := fun same => outside (same ▸ List.mem_cons_self)
          rw [s.put_other _ apart]
      · rename_i missed
        obtain ⟨t, ran, linked, heads, links⟩ := ih tail missed (by simpa using enough)
        refine ⟨t, ran, ?_, heads, fun q outside => links q fun member => outside (List.mem_cons_of_mem _ member)⟩
        rw [List.erase_cons_tail (by simpa using missed)]
        refine .link (by simp) ?_
        change Chain t.link none (t.proc np).pSendlink _
        rw [links np once, next]
        exact linked

theorem unqueue_spec {fuel : Nat} (rc : Proc) (slots : List Proc) (queued : s.Queued queue)
    (apart : ∀ d e p, p ∈ queue d → p ∈ queue e → d = e) (enough : ∀ d, (queue d).length ≤ fuel) :
    ∃ t, unqueue rc fuel slots s = some t ∧ t.Queued fun d => if d ∈ slots then (queue d).erase rc else queue d := by
  -- along the process table; the queues that the loop has passed no longer hold the process
  induction slots generalizing s queue with
  | nil => exact ⟨s, rfl, by simpa using queued⟩
  | cons rp rest ih =>
    unfold unqueue
    have chain := queued rp
    cases line : queue rp with
    | nil =>
      rw [line] at chain
      rw [show (s.proc rp).pCallerq = none from chain.eq_nil]
      obtain ⟨t, ran, after⟩ := ih queued apart enough
      refine ⟨t, ran, fun d => ?_⟩
      rcases eq_or_ne d rp with rfl | other
      · simpa [line] using after d
      · simpa [other] using after d
    | cons np l =>
      rw [line] at chain
      have head : (s.proc rp).pCallerq = some np := chain.head_eq
      have elsewhere (d : Proc) (other : d ≠ rp) (p : Proc) (here : p ∈ queue d) : p ∉ np :: l :=
        fun member => other (apart d rp p here (line ▸ member))
      rw [head]
      dsimp only
      split
      · -- the process is at the head of its queue, and in no other one
        rename_i found
        subst found
        refine ⟨_, rfl, fun d => ?_⟩
        rw [link_headTo]
        dsimp only
        rcases eq_or_ne d rp with rfl | other
        · rw [if_pos List.mem_cons_self, State.put_self, line, List.erase_cons_head]
          exact chain.tail
        · have absent : np ∉ queue d := fun here => elsewhere d other np here List.mem_cons_self
          rw [s.put_other _ other, List.erase_of_not_mem absent, ite_self]
          exact queued d
      · -- the `break` of the walk does not end the loop over the table, so the other queues are walked too
        rename_i missed
        have shorter : l.length < fuel := by
          have longest := enough rp
          rw [line, List.length_cons] at longest
          omega
        obtain ⟨u, ran, linked, heads, links⟩ := unlinkBehind_spec (head ▸ chain) missed shorter
        have shortened : np :: l.erase rc = (queue rp).erase rc := by
          rw [line, List.erase_cons_tail (by simpa using missed)]
        have fewer (d : Proc) : (Function.update queue rp (np :: l.erase rc) d).Sublist (queue d) := by
          rcases eq_or_ne d rp with rfl | other
          · rw [Function.update_self, shortened]
            exact List.erase_sublist
          · rw [Function.update_of_ne other]
        have relinked : u.Queued (Function.update queue rp (np :: l.erase rc)) := by
          intro d
          rw [heads]
          rcases eq_or_ne d rp with rfl | other
          · rw [Function.update_self, head]
            exact linked
          · rw [Function.update_of_ne other]
            refine (queued d).congr fun link member => ?_
            obtain ⟨p, here, rfl⟩ := List.mem_map.mp member
            exact links p (elsewhere d other p here)
        obtain ⟨t, others, after⟩ := ih relinked (fun d e p one two => apart d e p ((fewer d).subset one) ((fewer e).subset two))
          fun d => (fewer d).length_le.trans (enough d)
        refine ⟨t, by simp [ran, others], fun d => ?_⟩
        have last := after d
        dsimp only at last ⊢
        rcases eq_or_ne d rp with rfl | other
        · have gone : rc ∉ (queue d).erase rc := (queued.nodup d).not_mem_erase
          rw [Function.update_self, shortened, List.erase_of_not_mem gone, ite_self] at last
          rwa [if_pos List.mem_cons_self]
        · rw [Function.update_of_ne other] at last
          simpa [other] using last

end

/-! ## What the steps do to the queues -/

section
variable {Proc Sig : Type} [DecidableEq Proc] [Fintype Proc] {k : Table Proc Sig} {out : Outside k} {s t : State Proc Sig}
  {p q d : Proc} {queue : Proc → List Proc}

/-- The loop of `do_xit` comes to an end, and takes the process from its queue. -/
theorem Senders.unqueue (senders : Senders s queue) (out : Outside k) (parent p : Proc) :
    ∃ u, (if Flag.SENDING ∈ ((out.leave parent p s).proc p).pFlags then
        unqueue p (Fintype.card Proc) (k.tasks ++ k.servers) (out.leave parent p s) else some (out.leave parent p s)) = some u ∧
      Relinked (out.leave parent p s) u ∧ u.Queued fun d => (queue d).erase p := by
  have left : (out.leave parent p s).Queued queue := by
    refine senders.queued.congr (fun d => ?_) fun d q _ => ?_
    · obtain ⟨times, same⟩ := leave_slot out s parent p d
      rw [same]
    · obtain ⟨times, same⟩ := leave_slot out s parent p q
      rw [same]
  have sending : Flag.SENDING ∈ ((out.leave parent p s).proc p).pFlags ↔ ∃ d, p ∈ queue d := by
    rw [((Relinked.refl _).leaving p).1]
    exact senders.sending p
  split
  · obtain ⟨u, ran, queued⟩ := unqueue_spec p (k.tasks ++ k.servers) left senders.apart
      fun d => (senders.queued.nodup d).length_le_card
    have everywhere : (fun d => if d ∈ k.tasks ++ k.servers then (queue d).erase p else queue d) = fun d => (queue d).erase p :=
      funext fun d => if_pos (k.everybody d)
    exact ⟨u, ran, unqueue_relinked ran, everywhere ▸ queued⟩
  · rename_i unset
    rw [sending, not_exists] at unset
    have nowhere : queue = fun d => (queue d).erase p := funext fun d => (List.erase_of_not_mem (unset d)).symm
    exact ⟨_, rfl, .refl _, nowhere ▸ left⟩

theorem Senders.exit {parent : Proc} (senders : Senders s queue) (out : Outside k) (user : (s.proc parent).isuserp) (exits : (s.proc p).isuserp) :
    ∃ t, out.doXit parent p s = some t ∧ Senders t fun d => (queue d).erase p := by
  obtain ⟨u, unqueued, relinked, queued⟩ := senders.unqueue out parent p
  have ran : out.doXit parent p s = some (vacate p u) := by
    unfold Outside.doXit
    rw [if_neg (by simp [user, exits])]
    simp only [unqueued, Option.map_some]
  have slot : (vacate p u).proc p = (u.proc p).exited := by rw [vacate_proc, Function.update_self]
  have others (q : Proc) (other : q ≠ p) : (vacate p u).proc q = u.proc q := by rw [vacate_proc, Function.update_of_ne other]
  refine ⟨_, ran, queued.congr (fun d => ?_) (fun _ q _ => ?_), fun q => ?_, fun d e q one two => ?_, fun d unwanted => ?_⟩
  · rcases eq_or_ne d p with rfl | other
    · rw [slot]
      rfl
    · rw [others d other]
  · rcases eq_or_ne q p with rfl | other
    · rw [slot]
      rfl
    · rw [others q other]
  · rcases eq_or_ne q p with rfl | other
    · rw [slot]
      refine iff_of_false (Finset.notMem_empty _) ?_
      rintro ⟨d, member⟩
      exact (senders.queued.nodup d).not_mem_erase member
    · rw [others q other, (relinked.leaving q).1, senders.sending]
      simp only [List.mem_erase_of_ne other]
  · exact senders.apart d e q (List.mem_of_mem_erase one) (List.mem_of_mem_erase two)
  · -- nobody waits to send to a user process or to an empty slot
    have closed : queue d = [] := by
      refine senders.closed d ?_
      rcases eq_or_ne d p with rfl | other
      · exact .inl exits
      · unfold Slot.isuserp Slot.isemptyp at unwanted ⊢
        rwa [others d other, (relinked.leaving d).2.1] at unwanted
    rw [closed]
    rfl

theorem Senders.fork {parent child : Proc} {pid : Int} {unfinished : Proc → Finset Sig} (senders : Senders s queue)
    (balanced : Balanced k s unfinished) (idle : .SENDING ∉ (s.proc parent).pFlags)
    (ran : doFork parent child pid s = some t) : Senders t queue := by
  obtain ⟨user, empty, rfl⟩ := doFork_cases ran
  have head (d : Proc) (unwanted : (s.proc d).isuserp ∨ (s.proc d).isemptyp) : (s.proc d).pCallerq = none := by
    have chain := senders.queued d
    rw [senders.closed d unwanted] at chain
    exact chain.eq_nil
  have unset : .SENDING ∉ (s.proc child).pFlags := by
    rw [(balanced.counted child).empty empty]
    exact Finset.notMem_empty _
  refine senders.congr (fun d => ?_) (fun q sends => ?_) (fun q => ?_) fun d => ?_
  · rcases eq_or_ne d child with rfl | other
    · rw [State.put_self, head d (.inr empty)]
      exact head parent (.inl user)
    · rw [s.put_other _ other]
  · have other : q ≠ child := fun same => unset (same ▸ sends)
    rw [s.put_other _ other]
  · rcases eq_or_ne q child with rfl | other
    · rw [State.put_self]
      exact iff_of_false (by simp [Slot.forked, idle]) unset
    · rw [s.put_other _ other]
  · rcases eq_or_ne d child with rfl | other
    · exact fun _ => .inr empty
    · rw [s.put_other _ other]
      exact id

omit [DecidableEq Proc] [Fintype Proc] in
theorem Senders.keeps (senders : Senders s queue) (keeps : Keeps s t) : Senders t queue :=
  senders.congr (fun d => (keeps d).links.1) (fun q _ => (keeps q).links.2) (fun q => (keeps q).sending)
    fun d => Or.imp (keeps d).user (keeps d).empty.mp

omit [Fintype Proc] in
theorem Senders.put {rp : Slot Proc Sig} (senders : Senders s queue) (proc : t.proc = Function.update s.proc p rp)
    (links : rp.pCallerq = (s.proc p).pCallerq ∧ rp.pSendlink = (s.proc p).pSendlink)
    (sending : .SENDING ∈ rp.pFlags ↔ .SENDING ∈ (s.proc p).pFlags)
    (closed : rp.isuserp ∨ rp.isemptyp → (s.proc p).isuserp ∨ (s.proc p).isemptyp) : Senders t queue := by
  have slots (q : Proc) : q = p ∧ t.proc q = rp ∨ t.proc q = s.proc q := by
    rw [proc]
    rcases eq_or_ne q p with rfl | other
    · exact .inl ⟨rfl, Function.update_self _ _ _⟩
    · exact .inr (Function.update_of_ne other _ _)
  refine senders.congr (fun d => ?_) (fun q _ => ?_) (fun q => ?_) fun d => ?_
  · rcases slots d with ⟨rfl, slot⟩ | slot
    · rw [slot, links.1]
    · rw [slot]
  · rcases slots q with ⟨rfl, slot⟩ | slot
    · rw [slot, links.2]
    · rw [slot]
  · rcases slots q with ⟨rfl, slot⟩ | slot
    · rw [slot, sending]
    · rw [slot]
  · rcases slots d with ⟨rfl, slot⟩ | slot
    · rwa [slot]
    · rw [slot]
      exact id

omit [Fintype Proc] in
theorem Senders.ipc (senders : Senders s queue) (ipc : Ipc k s t) : ∃ queue, Senders t queue := by
  cases ipc with
  | receives real present unset elsewhere blocked =>
    exact ⟨queue, senders.put blocked.proc ⟨rfl, rfl⟩ (by simp [Slot.receives]) id⟩
  | received real set released =>
    exact ⟨queue, senders.put released.proc ⟨rfl, rfl⟩ (by simp [Slot.clear]) id⟩
  | @sends p dest _ real present unset wanted there sends =>
    -- a process that is not yet blocked in send stands in no queue
    have fresh (d : Proc) : p ∉ queue d := fun here => unset ((senders.sending p).mpr ⟨d, here⟩)
    have member (d q : Proc) : q ∈ Function.update queue dest (queue dest ++ [p]) d ↔ q ∈ queue d ∨ d = dest ∧ q = p := by
      rcases eq_or_ne d dest with rfl | other
      · simp
      · simp [other]
    refine ⟨_, sends.queued queue senders.queued, fun q => ?_, fun d e q one two => ?_, fun d unwanted => ?_⟩
    · simp only [sends.flags, member]
      rcases eq_or_ne q p with rfl | other
      · simp
      · simp [other, senders.sending]
    · rw [member] at one two
      rcases one with one | ⟨rfl, rfl⟩ <;> rcases two with two | ⟨rfl, same⟩
      · exact senders.apart d e q one two
      · exact absurd (same ▸ one) (fresh d)
      · exact absurd two (fresh e)
      · rfl
    · have before : (s.proc d).isuserp ∨ (s.proc d).isemptyp := by
        unfold Slot.isuserp Slot.isemptyp at unwanted ⊢
        rwa [(sends.slots d).pPriority] at unwanted
      have other : d ≠ dest := by
        rintro rfl
        exact before.elim wanted there
      rw [Function.update_of_ne other]
      exact senders.closed d before
  | @sent p dest _ real set sent =>
    obtain ⟨here, queued⟩ := sent.queued queue senders.queued
    have member (d q : Proc) : q ∈ Function.update queue dest ((queue dest).erase p) d ↔ q ∈ queue d ∧ q ≠ p := by
      rcases eq_or_ne d dest with rfl | other
      · rw [Function.update_self, (senders.queued.nodup d).mem_erase_iff, and_comm]
      · rw [Function.update_of_ne other]
        refine ⟨fun member => ⟨member, ?_⟩, And.left⟩
        rintro rfl
        exact other (senders.apart d dest q member here)
    refine ⟨_, queued, fun q => ?_, fun d e q one two => ?_, fun d unwanted => ?_⟩
    · simp only [sent.flags, member]
      rcases eq_or_ne q p with rfl | other
      · simp
      · simp [other, senders.sending]
    · exact senders.apart d e q ((member d q).mp one).1 ((member e q).mp two).1
    · have before : (s.proc d).isuserp ∨ (s.proc d).isemptyp := by
        unfold Slot.isuserp Slot.isemptyp at unwanted ⊢
        rwa [(sent.slots d).pPriority] at unwanted
      refine List.eq_nil_iff_forall_not_mem.mpr fun q inside => ?_
      have inside := ((member d q).mp inside).1
      rw [senders.closed d before] at inside
      cases inside

variable [DecidableEq Sig] {w w' : World Proc Sig}

theorem Senders.step {label : Label Proc Sig} (senders : Senders w.state queue) (sound : Sound k w)
    (steps : Steps out w label w') : ∃ queue, Senders w'.state queue := by
  have moved := sound.moved steps
  generalize label.event = event at moved
  cases moved with
  | keeps _ keeps => exact ⟨queue, senders.keeps keeps⟩
  | fork idle ran => exact ⟨queue, senders.fork sound.balanced idle ran⟩
  | exit apart ran =>
    obtain ⟨user, exits, -⟩ := doXit_cases ran
    obtain ⟨t, again, after⟩ := senders.exit out user exits
    obtain rfl := Option.some.inj (again.symm.trans ran)
    exact ⟨_, after⟩
  | charge same =>
    rw [same]
    exact ⟨queue, senders.put rfl ⟨rfl, rfl⟩ Iff.rfl id⟩
  | ipc ipc => exact senders.ipc ipc

/-! ## Runs -/

structure Scheduled (out : Outside k) (s : State Proc Sig) : Prop where
  nodup : s.ready.Nodup
  ready : ∀ p, p ∈ s.ready ↔ ¬ k.IsIdleHardware p ∧ ¬ (s.proc p).isemptyp ∧ (s.proc p).pFlags = ∅
  sigProcs : s.sigProcs = (Finset.univ.filter fun p => .PENDING ∈ (s.proc p).pFlags).card
  senders : ∃ queue, Senders s queue ∧ ∀ parent p, (s.proc parent).isuserp → (s.proc p).isuserp →
    ∃ t, out.doXit parent p s = some t ∧ Senders t fun d => (queue d).erase p

theorem senders_of_reachable (reached : (kernel out).Reachable w) : ∃ queue, Senders w.state queue := by
  refine reached.invariant_with (I := fun w => ∃ queue, Senders w.state queue) (J := Sound k) ?_ ?_ ?_
  · rintro w ⟨history, run⟩
    exact (sound_of_run run).1
  · rintro w ⟨idle, -⟩
    refine ⟨fun _ => [], fun d => ?_, fun p => ?_, nofun, fun _ _ => rfl⟩
    · rw [(idle d).2.2.2.1]
      exact .stop
    · rw [(idle p).1]
      simp
  · rintro w label w' sound ⟨queue, senders⟩ steps
    exact senders.step sound steps

theorem scheduled_of_reachable (reached : (kernel out).Reachable w) : Scheduled out w.state := by
  obtain ⟨history, run⟩ := id reached
  obtain ⟨⟨balanced, -⟩, -⟩ := sound_of_run run
  obtain ⟨queue, senders⟩ := senders_of_reachable reached
  exact ⟨balanced.ready.nodup, balanced.ready.mem_iff, balanced.sigProcs, queue, senders, fun _ _ => senders.exit out⟩

end

/-! ## Two processes that wish to send to MM -/

def State.sendFirst (s : State Who Signal) (p dest : Who) : State Who Signal :=
  (s.put dest ((s.proc dest).headTo (some p))).block p (((s.proc p).linkTo none).raise .SENDING)

def State.sendNext (s : State Who Signal) (p last : Who) : State Who Signal :=
  (s.put last ((s.proc last).linkTo (some p))).block p (((s.proc p).linkTo none).raise .SENDING)

def jam₁ : State Who Signal := smallBoot.state.sendFirst .user .mm

def jam₂ : State Who Signal := jam₁.sendNext .shell .user

def inLine (l : List Who) : Who → List Who
  | .mm => l
  | _ => []

theorem smallBoot_queued : smallBoot.state.Queued (inLine []) := by
  intro d
  cases d <;> exact .stop

theorem jam₁_queued : jam₁.Queued (inLine [.user]) := by
  intro d
  cases d
  case mm => exact .link (a := some Who.user) (by decide) .stop
  all_goals exact .stop

theorem jam₂_queued : jam₂.Queued (inLine [.user, .shell]) := by
  intro d
  cases d
  case mm => exact .link (a := some Who.user) (by decide) (.link (a := some Who.shell) (by decide) .stop)
  all_goals exact .stop

theorem jam_sends₁ : Sends .user .mm smallBoot.state jam₁ where
  slots q := by cases q <;> exact ⟨rfl, rfl, rfl, rfl, rfl, rfl, rfl, rfl⟩
  flags q := by cases q <;> rfl
  sigProcs := rfl
  ready := .refl _
  queued queue known := by
    obtain rfl := known.unique smallBoot_queued
    convert jam₁_queued using 1
    funext d
    cases d <;> rfl

theorem jam_sends₂ : Sends .shell .mm jam₁ jam₂ where
  slots q := by cases q <;> exact ⟨rfl, rfl, rfl, rfl, rfl, rfl, rfl, rfl⟩
  flags q := by cases q <;> rfl
  sigProcs := rfl
  ready := .refl _
  queued queue known := by
    obtain rfl := known.unique jam₁_queued
    convert jam₂_queued using 1
    funext d
    cases d <;> rfl

theorem scheduled_of_reachable_jam : (kernel smallOutside).Reachable { smallBoot with state := jam₂ } ∧
    jam₂.Queued (inLine [.user, .shell]) ∧ Scheduled smallOutside jam₂ := by
  have first : (kernel smallOutside).Reachable { smallBoot with state := jam₁ } :=
    (System.Reachable.start smallBoot_init).next (Steps.ipc (.sends (by decide) (by decide) (by decide) (by decide) (by decide) jam_sends₁))
  have second : (kernel smallOutside).Reachable { smallBoot with state := jam₂ } :=
    first.next (Steps.ipc (w := { smallBoot with state := jam₁ }) (.sends (by decide) (by decide) (by decide) (by decide) (by decide) jam_sends₂))
  exact ⟨second, jam₂_queued, scheduled_of_reachable second⟩

end SoiStud.Kernel.SystemTask
