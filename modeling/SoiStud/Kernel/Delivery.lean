import SoiStud.Kernel.Requests

/-! The signals of a run of the kernel, and what MM is told of them.

Each signal that a process is sent is one of those that MM is told of next for this
process, unless the process exits before. MM is never told of anything else, and when
it waits for work it has been told of everything and has finished it.
-/

set_option autoImplicit false

namespace SoiStud.Kernel.SystemTask

open Library

/-! ## What awaits MM -/

section
variable {Proc Sig : Type} [DecidableEq Proc] [DecidableEq Sig] (k : Table Proc Sig)

def accept (awaiting : Proc → Finset Sig) : Event Proc Sig → Proc → Finset Sig
  | .causeSig p sig | .kill p sig => Function.update awaiting p (insert sig (awaiting p))
  | .exec p true => Function.update awaiting p (insert k.SIGTRAP (awaiting p))
  | .exit _ p => Function.update awaiting p ∅
  | .exec _ false | .endsig _ _ | .fork _ _ | .newmap _ | .trace _ _ | .signOn _ | .charge _ _ _ _ | .getWork | .ipc |
    .elsewhere => awaiting

def await (awaiting : Proc → Finset Sig) (label : Label Proc Sig) : Proc → Finset Sig :=
  tell (accept k awaiting label.event) label.told

def awaited (history : List (Label Proc Sig)) : Proc → Finset Sig := history.foldl (await k) fun _ => ∅

theorem awaited_append (history : List (Label Proc Sig)) (label : Label Proc Sig) :
    awaited k (history ++ [label]) = await k (awaited k history) label := by simp [awaited]

end

section
variable {Proc Sig : Type} [DecidableEq Proc] [DecidableEq Sig] [Fintype Proc] {k : Table Proc Sig} {out : Outside k}
  {w w' : World Proc Sig} {s t : State Proc Sig} {p : Proc} {told : Told Proc Sig} {unfinished : Proc → Finset Sig}

structure Stepped (k : Table Proc Sig) (w : World Proc Sig) (label : Label Proc Sig) (w' : World Proc Sig) : Prop where
  sound : Sound k w'
  pending : w'.state.pending = await k w.state.pending label
  told : ∀ p map, label.told = some (p, map) → map = accept k w.state.pending label.event p ∧ map ≠ ∅

/-- A step in which MM does not begin to wait, and is told of nothing. -/
theorem Sound.quiet {event : Event Proc Sig} (sound : Sound k w) (balanced : Balanced k s w.unfinished)
    (waits : (s.proc k.MM_PROC_NR).WaitsForAny → (w.state.proc k.MM_PROC_NR).WaitsForAny)
    (sigProcs : s.sigProcs = w.state.sigProcs) (pending : s.pending = accept k w.state.pending event) : Stepped k w ⟨event, none⟩ { w with state := s } where
  sound := ⟨balanced, fun waiting => by rw [sigProcs]; exact sound.idle (waits waiting)⟩
  pending := pending
  told _ _ none_ := by cases none_

theorem Sound.signalled {event : Event Proc Sig} (sound : Sound k (w.after s told))
    (signalled : Signalled k w.state s (accept k w.state.pending event) told) :
    Stepped k w ⟨event, told⟩ (w.after s told) where
  sound := sound
  pending := by
    cases told <;> exact signalled.pending
  told := signalled.told

omit [DecidableEq Proc] [DecidableEq Sig] [Fintype Proc] in
theorem State.pending_congr (slots : ∀ q, (t.proc q).pPending = (s.proc q).pPending) : t.pending = s.pending :=
  funext slots

theorem Sound.exec {traced : Bool} {sp pc : Int} (sound : Sound k w) (waiting : .RECEIVING ∈ (w.state.proc p).pFlags)
    (ran : out.doExec p traced sp pc w.state = some (s, told)) :
    Stepped k w ⟨.exec p traced, told⟩ (w.after s told) := by
  obtain ⟨user, u, trapped, resumes⟩ := doExec_cases ran
  have other := sound.balanced.user_ne_mm user
  have first : Sound k (w.after u told) ∧ Signalled k w.state u (accept k w.state.pending (.exec p traced)) told := by
    cases traced with
    | true => exact sound.causeSig user trapped
    | false =>
      cases trapped
      exact ⟨sound, .refl k _, rfl, fun _ _ none_ => by cases none_⟩
  obtain ⟨⟨balanced, idle⟩, untouched, pending, tells⟩ := first
  have state (v : State Proc Sig) : (w.after v told).state = v := by cases told <;> rfl
  have unfinished : (w.after s told).unfinished = (w.after u told).unfinished := by cases told <;> rfl
  rw [state] at balanced idle
  have still : .RECEIVING ∈ (u.proc p).pFlags :=
    (untouched.flags p _ (by decide) (by decide) fun _ => other).mpr waiting
  have server := sound.balanced.user_isServer user
  have after := balanced.resumes resumes (Table.real_of_server server) still rfl ⟨rfl, rfl, rfl⟩ (by decide) (by decide)
  have same : s.pending = u.pending := (State.pending_update resumes.proc).trans (Function.update_eq_self _ _)
  refine ⟨⟨?_, ?_⟩, ?_, tells⟩
  · rw [state, unfinished]
    exact after
  · rw [state, unfinished, resumes.other other.symm, resumes.sigProcs]
    exact idle
  · rw [state, same, pending]
    rfl

theorem Sound.exit {parent : Proc} (sound : Sound k w) (ran : out.doXit parent p w.state = some s) :
    Stepped k w ⟨.exit parent p, none⟩ { w with state := s } := by
  have balanced := sound.balanced.exit ran
  obtain ⟨-, user, u, relinked, rfl⟩ := doXit_cases ran
  have other := sound.balanced.user_ne_mm user
  have proc : (vacate p u).proc = Function.update u.proc p (u.proc p).exited := vacate_proc
  have signals : u.pending = w.state.pending := State.pending_congr fun q => (relinked.leaving q).2.2.1
  refine ⟨⟨balanced, fun waits => ?_⟩, ?_, fun _ _ none_ => by cases none_⟩
  · dsimp only at waits
    obtain ⟨flags, -, -, -, getfrom⟩ := relinked.leaving k.MM_PROC_NR
    rw [proc, Function.update_of_ne other.symm] at waits
    unfold Slot.WaitsForAny at waits
    rw [flags, getfrom] at waits
    obtain ⟨none_, finished⟩ := sound.idle waits
    have unmarked : .PENDING ∉ (u.proc p).pFlags := by
      rw [(relinked.leaving p).1]
      exact fun set => sound.balanced.sigProcs_ne_zero.mpr ⟨p, set⟩ none_
    refine ⟨?_, finished⟩
    unfold vacate
    rw [if_neg unmarked]
    exact (relinked.sigProcs.trans leave_sigProcs).trans none_
  · change (vacate p u).pending = Function.update w.state.pending p ∅
    rw [State.pending_update proc, signals]
    rfl

theorem Sound.endsig {sig : Sig} {r : Reply} (sound : Sound k w) (told : sig ∈ w.unfinished p)
    (ran : out.doEndsig p w.state = some (r, s)) :
    Stepped k w ⟨.endsig p sig, none⟩ ⟨s, Function.update w.unfinished p ((w.unfinished p).erase sig)⟩ := by
  have balanced := sound.balanced.endsig told ran
  have busy : ¬ (w.state.proc k.MM_PROC_NR).WaitsForAny := by
    intro waits
    rw [(sound.idle waits).2 p] at told
    exact Finset.notMem_empty _ told
  have kept : s.proc k.MM_PROC_NR = w.state.proc k.MM_PROC_NR ∧ s.pending = w.state.pending := by
    rcases doEndsig_cases ran with ⟨rfl, -⟩ | ⟨user, -, ⟨-, rfl⟩ | ⟨-, resumes⟩⟩
    · exact ⟨rfl, rfl⟩
    · exact ⟨Function.update_of_ne (sound.balanced.user_ne_mm user).symm _ _,
        (State.pending_update (t := w.state.put p (w.state.proc p).countDown) rfl).trans (Function.update_eq_self _ _)⟩
    · exact ⟨resumes.other (sound.balanced.user_ne_mm user).symm,
        (State.pending_update resumes.proc).trans (Function.update_eq_self _ _)⟩
  refine ⟨⟨balanced, fun waits => ?_⟩, kept.2, fun _ _ none_ => by cases none_⟩
  dsimp only at waits
  rw [kept.1] at waits
  exact absurd waits busy

omit [DecidableEq Sig] in
theorem Sound.informed (sound : Sound k w) (finished : ∀ p, w.unfinished p = ∅)
    (blocked : Blocked k.MM_PROC_NR ((w.state.proc k.MM_PROC_NR).receives none) w.state t)
    (ran : (if t.sigProcs ≠ 0 then out.inform t else some (t, none)) = some (s, told)) :
    Sound k (w.after s told) ∧ Signalled k t s t.pending told := by
  have waits : (t.proc k.MM_PROC_NR).WaitsForAny := by
    rw [blocked.proc, Function.update_self]
    exact ⟨Finset.mem_insert_self _ _, rfl⟩
  have balanced : Balanced k t w.unfinished :=
    sound.balanced.blocked blocked sound.balanced.mm_present rfl ⟨rfl, rfl, rfl⟩ (by decide) (by decide)
  split at ran
  · rename_i some_
    obtain ⟨q, rfl, informed, stops, signalled⟩ := balanced.inform finished waits some_ ran
    exact ⟨⟨informed, fun waiting => absurd waiting stops⟩, signalled⟩
  · rename_i none_
    cases ran
    exact ⟨⟨balanced, fun _ => ⟨not_not.mp none_, finished⟩⟩, .refl k _, rfl, fun _ _ none_ => by cases none_⟩

theorem Sound.getWork (sound : Sound k w) (finished : ∀ p, w.unfinished p = ∅)
    (blocked : Blocked k.MM_PROC_NR ((w.state.proc k.MM_PROC_NR).receives none) w.state t)
    (ran : (if t.sigProcs ≠ 0 then out.inform t else some (t, none)) = some (s, told)) :
    Stepped k w ⟨.getWork, told⟩ (w.after s told) := by
  obtain ⟨after, -, pending, tells⟩ := sound.informed finished blocked ran
  have signals : t.pending = w.state.pending := (State.pending_update blocked.proc).trans (Function.update_eq_self _ _)
  rw [signals] at pending tells
  refine ⟨after, ?_, tells⟩
  cases told <;> exact pending

theorem Sound.reflags {event : Event Proc Sig} (sound : Sound k w) (balanced : Balanced k s w.unfinished)
    (sigProcs : s.sigProcs = w.state.sigProcs) (signals : ∀ q, (s.proc q).pPending = (w.state.proc q).pPending)
    (receiving : .RECEIVING ∈ (s.proc k.MM_PROC_NR).pFlags → (s.proc k.MM_PROC_NR).pGetfrom = none →
      (w.state.proc k.MM_PROC_NR).WaitsForAny)
    (silent : accept k w.state.pending event = w.state.pending) : Stepped k w ⟨event, none⟩ { w with state := s } :=
  sound.quiet balanced (fun waits => receiving waits.1 waits.2) sigProcs
    ((State.pending_congr signals).trans silent.symm)

theorem Sound.elsewhere (sound : Sound k w) (elsewhere : Elsewhere w.state s) :
    Stepped k w ⟨.elsewhere, none⟩ { w with state := s } := by
  refine sound.reflags ?_ elsewhere.sigProcs (fun q => (elsewhere.slots q).pPending) (fun set source => ?_) rfl
  · refine sound.balanced.same (fun q => ?_) elsewhere.sigProcs elsewhere.ready
    obtain ⟨priority, pending, pendcount, -⟩ := elsewhere.slots q
    exact ⟨elsewhere.flags q, priority, pending, pendcount⟩
  · rw [elsewhere.flags] at set
    exact ⟨set, (elsewhere.slots _).pGetfrom.symm.trans source⟩

theorem Puts.step {rp : Slot Proc Sig} {event : Event Proc Sig} (puts : Puts p rp w.state s) (sound : Sound k w)
    (balanced : Balanced k s w.unfinished) (signals : rp.pPending = (w.state.proc p).pPending)
    (receiving : p = k.MM_PROC_NR → .RECEIVING ∈ rp.pFlags → rp.pGetfrom = none → (w.state.proc p).WaitsForAny)
    (silent : accept k w.state.pending event = w.state.pending) :
    Stepped k w ⟨event, none⟩ { w with state := s } := by
  refine sound.reflags balanced puts.sigProcs (fun q => ?_) (fun set source => ?_) silent
  · rcases eq_or_ne q p with rfl | other
    · rw [puts.slot, signals]
    · rw [puts.other other]
  · rcases eq_or_ne k.MM_PROC_NR p with same | other
    · rw [same, puts.slot] at set source
      rw [same]
      exact receiving same.symm set source
    · rw [puts.other other] at set source
      exact ⟨set, source⟩

theorem Sound.ipc (sound : Sound k w) (ipc : Ipc k w.state s) : Stepped k w ⟨.ipc, none⟩ { w with state := s } := by
  cases ipc with
  | receives real present unset elsewhere blocked =>
    rename_i q source
    refine Puts.step ⟨blocked.proc, blocked.sigProcs⟩ sound ?_ rfl (fun same _ any => absurd any (elsewhere same)) rfl
    exact sound.balanced.blocked blocked present rfl ⟨rfl, rfl, rfl⟩ (by decide) (by decide)
  | received real set released =>
    refine Puts.step ⟨released.proc, released.sigProcs⟩ sound ?_ rfl (fun _ still => ?_) rfl
    · exact sound.balanced.released released real set (by decide) (by decide)
    · exact absurd still (Finset.notMem_erase _ _)
  | sends real present unset wanted there sends =>
    rename_i q dest
    have flags : (s.proc q).pFlags = insert .SENDING (w.state.proc q).pFlags := (sends.flags q).trans (if_pos rfl)
    refine sound.reflags (sound.balanced.reflag (p := q) ?_ present (.blocks sends.ready fun runs => ?_)) sends.sigProcs
      (fun q => (sends.slots q).pPending) (fun set source => ?_) rfl
    · refine ⟨fun r other => ?_, ?_, by simp [flags], by simp [flags], sends.sigProcs⟩
      · have slots := sends.slots r
        exact ⟨(sends.flags r).trans (if_neg other), slots.pPriority, slots.pPending, slots.pPendcount⟩
      · exact ⟨(sends.slots q).pPriority, (sends.slots q).pPending, (sends.slots q).pPendcount⟩
    · exact Finset.insert_ne_empty _ _ (flags.symm.trans runs.2)
    · refine ⟨?_, (sends.slots _).pGetfrom.symm.trans source⟩
      rw [sends.flags] at set
      split at set
      · rename_i same
        simpa [same] using set
      · exact set
  | sent real set sent =>
    rename_i q dest
    have flags : (s.proc q).pFlags = (w.state.proc q).pFlags.erase .SENDING := (sent.flags q).trans (if_pos rfl)
    have present := (sound.balanced.counted q).nonempty set
    refine sound.reflags (sound.balanced.reflag (p := q) ?_ present (.releases ?_ real ?_ ?_)) sent.sigProcs
      (fun q => (sent.slots q).pPending) (fun set source => ?_) rfl
    · refine ⟨fun r other => ?_, ?_, by simp [flags], by simp [flags], sent.sigProcs⟩
      · have slots := sent.slots r
        exact ⟨(sent.flags r).trans (if_neg other), slots.pPriority, slots.pPending, slots.pPendcount⟩
      · exact ⟨(sent.slots q).pPriority, (sent.slots q).pPending, (sent.slots q).pPendcount⟩
    · rw [flags]
      exact sent.ready
    · unfold Slot.isemptyp
      rw [(sent.slots q).pPriority]
      exact present
    · exact Finset.ne_empty_of_mem set
    · refine ⟨?_, (sent.slots _).pGetfrom.symm.trans source⟩
      rw [sent.flags] at set
      split at set
      · rename_i same
        rw [same]
        exact Finset.mem_of_mem_erase set
      · exact set

theorem Sound.step (sound : Sound k w) {label : Label Proc Sig} (steps : Steps out w label w') :
    Stepped k w label w' := by
  cases steps with
  | causeSig user ran =>
    obtain ⟨after, signalled⟩ := sound.causeSig user ran
    exact Sound.signalled after signalled
  | kill ran =>
    unfold Outside.doKill at ran
    split at ran
    · cases ran
    · rename_i user
      obtain ⟨after, signalled⟩ := sound.causeSig (not_not.mp user) ran
      exact Sound.signalled after signalled
  | endsig told ran => exact sound.endsig told ran
  -- a child has nothing pending, and its slot was empty
  | fork idle finished ran =>
    have balanced := sound.balanced.fork finished ran
    obtain ⟨user, empty, rfl⟩ := doFork_cases ran
    rename_i parent child pid
    refine Puts.step ⟨rfl, rfl⟩ sound balanced ?_ (fun same => ?_) rfl
    · have counted := sound.balanced.counted child
      exact (counted.pending_eq_empty (by rw [counted.empty empty]; decide)).symm
    · exact absurd (same ▸ empty) sound.balanced.mm_present
  | newmap server =>
    rename_i q map
    exact doNewmap_puts.step sound (sound.balanced.newmap server map) rfl
      (fun _ set source => ⟨Finset.mem_of_mem_erase set, source⟩) rfl
  | exec waiting ran => exact sound.exec waiting ran
  | exit apart ran => exact sound.exit ran
  | trace server stopped ran =>
    have balanced := sound.balanced.trace server stopped ran
    rcases doTrace_cases ran with rfl | ⟨present, ⟨rfl, stops⟩ | ⟨resumed, rp, rfl | rfl, resumes⟩⟩
    · exact sound.quiet balanced id rfl rfl
    · exact Puts.step ⟨stops.proc, stops.sigProcs⟩ sound balanced rfl
        (fun _ set source => ⟨Finset.mem_of_mem_insert_of_ne set (by decide), source⟩) rfl
    · exact resumes.toPuts.step sound balanced rfl (fun _ set source => ⟨Finset.mem_of_mem_erase set, source⟩) rfl
    · exact resumes.toPuts.step sound balanced rfl (fun _ set source => ⟨Finset.mem_of_mem_erase set, source⟩) rfl
  | signOn ran =>
    have balanced := sound.balanced.signOn ran
    rcases signOn_cases ran with rfl | ⟨user, rfl⟩
    · exact sound.quiet balanced id rfl rfl
    · exact Puts.step ⟨rfl, rfl⟩ sound balanced rfl (fun _ set source => ⟨set, source⟩) rfl
  -- times only
  | charge =>
    rename_i q user sys
    have puts : Puts q ((w.state.proc q).charge user sys) w.state (w.state.put q ((w.state.proc q).charge user sys)) :=
      ⟨rfl, rfl⟩
    refine puts.step sound (sound.balanced.same (fun r => ?_) rfl (.refl _)) rfl (fun _ set source => ⟨set, source⟩) rfl
    rcases eq_or_ne r q with rfl | other
    · rw [puts.slot]
      exact ⟨rfl, rfl, rfl, rfl⟩
    · rw [puts.other other]
      exact ⟨rfl, rfl, rfl, rfl⟩
  | getWork finished unset blocked ran => exact sound.getWork finished blocked ran
  | ipc ipc => exact sound.ipc ipc
  | elsewhere elsewhere => exact sound.elsewhere elsewhere

/-! ## What the steps keep -/

structure Slot.Kept (rp rq : Slot Proc Sig) : Prop where
  links : rq.pCallerq = rp.pCallerq ∧ rq.pSendlink = rp.pSendlink
  sending : .SENDING ∈ rq.pFlags ↔ .SENDING ∈ rp.pFlags
  times : rq.userTime = rp.userTime ∧ rq.sysTime = rp.sysTime ∧ rq.childUtime = rp.childUtime ∧
    rq.childStime = rp.childStime
  empty : rq.isemptyp ↔ rp.isemptyp
  user : rq.isuserp → rp.isuserp

def Keeps (s t : State Proc Sig) : Prop := ∀ q, (s.proc q).Kept (t.proc q)

omit [DecidableEq Proc] [DecidableEq Sig] [Fintype Proc] in
theorem Slot.Kept.refl (rp : Slot Proc Sig) : rp.Kept rp := ⟨⟨rfl, rfl⟩, Iff.rfl, ⟨rfl, rfl, rfl, rfl⟩, Iff.rfl, id⟩

omit [DecidableEq Proc] [DecidableEq Sig] [Fintype Proc] in
theorem Keeps.refl (s : State Proc Sig) : Keeps s s := fun _ => .refl _

omit [DecidableEq Proc] [DecidableEq Sig] [Fintype Proc] in
theorem Keeps.trans {u : State Proc Sig} (first : Keeps s t) (second : Keeps t u) : Keeps s u := fun q =>
  { links := by simp only [(second q).links, (first q).links, and_self]
    sending := (second q).sending.trans (first q).sending
    times := by simp only [(second q).times, (first q).times, and_self]
    empty := (second q).empty.trans (first q).empty
    user := (first q).user ∘ (second q).user }

omit [DecidableEq Sig] [Fintype Proc] in
theorem Puts.keeps {rp : Slot Proc Sig} (puts : Puts p rp s t) (kept : (s.proc p).Kept rp) : Keeps s t := by
  intro q
  rcases eq_or_ne q p with rfl | other
  · rwa [puts.slot]
  · rw [puts.other other]
    exact .refl _

omit [DecidableEq Proc] [DecidableEq Sig] [Fintype Proc] in
theorem Untouched.keeps (untouched : Untouched k s t) : Keeps s t := by
  intro q
  obtain ⟨priority, -, links⟩ := untouched.slots q
  refine ⟨links, untouched.flags q _ (by decide) (by decide) nofun, untouched.times q, ?_, priority.symm.trans⟩
  unfold Slot.isemptyp
  rw [priority]

/-- The ticks that the clock handler has charged. -/
def Event.ticks : Event Proc Sig → Nat
  | .charge _ user sys _ => user + sys
  | .causeSig _ _ | .kill _ _ | .endsig _ _ | .fork _ _ | .newmap _ | .exec _ _ | .exit _ _ | .trace _ _ | .signOn _ |
    .getWork | .ipc | .elsewhere => 0

/-- Those of them that no process gets. -/
def Event.lost : Event Proc Sig → Nat
  | .charge p user sys true => ( Event.charge p user sys true : Event Proc Sig).ticks
  | _ => 0

/-- A step keeps these, but for a fork, an exit, a clock tick and what processes send. -/
inductive Moved (out : Outside k) (s t : State Proc Sig) : Event Proc Sig → Prop where
  | keeps {event : Event Proc Sig} : event.ticks = 0 → Keeps s t → Moved out s t event
  | fork {parent child : Proc} {pid : Int} : .SENDING ∉ (s.proc parent).pFlags → doFork parent child pid s = some t →
      Moved out s t (.fork parent child)
  | exit {parent p : Proc} : parent ≠ p → out.doXit parent p s = some t → Moved out s t (.exit parent p)
  | charge {p : Proc} {user sys : Nat} : t = s.put p ((s.proc p).charge user sys) →
      Moved out s t (.charge p user sys (s.proc p).isemptyp)
  | ipc : Ipc k s t → Moved out s t .ipc

theorem Sound.moved {label : Label Proc Sig} (sound : Sound k w) (steps : Steps out w label w') :
    Moved out w.state w'.state label.event := by
  have state (s : State Proc Sig) (told : Told Proc Sig) : (w.after s told).state = s := by cases told <;> rfl
  cases steps with
  | causeSig user ran =>
    rw [state]
    exact .keeps rfl (sound.causeSig user ran).2.untouched.keeps
  | kill ran =>
    unfold Outside.doKill at ran
    split at ran
    · cases ran
    · rename_i user
      rw [state]
      exact .keeps rfl (sound.causeSig (not_not.mp user) ran).2.untouched.keeps
  | endsig told ran =>
    rcases doEndsig_cases ran with ⟨rfl, -⟩ | ⟨user, -, ⟨-, rfl⟩ | ⟨-, resumes⟩⟩
    · exact .keeps rfl (.refl _)
    · exact .keeps rfl (Puts.keeps ⟨rfl, rfl⟩ ⟨⟨rfl, rfl⟩, Iff.rfl, ⟨rfl, rfl, rfl, rfl⟩, Iff.rfl, id⟩)
    · exact .keeps rfl (resumes.toPuts.keeps
        ⟨⟨rfl, rfl⟩, by simp [Slot.clear, Slot.countDown], ⟨rfl, rfl, rfl, rfl⟩, Iff.rfl, id⟩)
  | fork idle finished ran => exact .fork idle ran
  | newmap server =>
    exact .keeps rfl (doNewmap_puts.keeps ⟨⟨rfl, rfl⟩, by simp [Slot.mapped], ⟨rfl, rfl, rfl, rfl⟩, Iff.rfl, id⟩)
  | exec waiting ran =>
    rename_i p traced sp pc s told
    obtain ⟨user, u, trapped, resumes⟩ := doExec_cases ran
    have first : Keeps w.state u := by
      cases traced with
      | true => exact (sound.causeSig user trapped).2.untouched.keeps
      | false =>
        cases trapped
        exact .refl _
    rw [state]
    refine .keeps rfl (first.trans (resumes.toPuts.keeps ?_))
    exact ⟨⟨rfl, rfl⟩, by simp [Slot.execed], ⟨rfl, rfl, rfl, rfl⟩, Iff.rfl, id⟩
  | exit apart ran => exact .exit apart ran
  | trace server stopped ran =>
    rcases doTrace_cases ran with rfl | ⟨present, ⟨rfl, stops⟩ | ⟨resumed, rp, rfl | rfl, resumes⟩⟩
    · exact .keeps rfl (.refl _)
    · exact .keeps rfl (Puts.keeps ⟨stops.proc, stops.sigProcs⟩
        ⟨⟨rfl, rfl⟩, by simp [Slot.stopped], ⟨rfl, rfl, rfl, rfl⟩, Iff.rfl, id⟩)
    · exact .keeps rfl (resumes.toPuts.keeps ⟨⟨rfl, rfl⟩, by simp [Slot.clear], ⟨rfl, rfl, rfl, rfl⟩, Iff.rfl, id⟩)
    · exact .keeps rfl (resumes.toPuts.keeps ⟨⟨rfl, rfl⟩, by simp [Slot.stepped], ⟨rfl, rfl, rfl, rfl⟩, Iff.rfl, id⟩)
  | signOn ran =>
    rcases signOn_cases ran with rfl | ⟨user, rfl⟩
    · exact .keeps rfl (.refl _)
    · refine .keeps rfl (Puts.keeps ⟨rfl, rfl⟩ ⟨⟨rfl, rfl⟩, Iff.rfl, ⟨rfl, rfl, rfl, rfl⟩, ?_, ?_⟩)
      -- a user process becomes a server
      · exact iff_of_false (by simp [Slot.isemptyp, Slot.signedOn]) user.present
      · simp [Slot.isuserp, Slot.signedOn]
  | charge => exact .charge rfl
  | getWork finished unset blocked ran =>
    rw [state]
    refine .keeps rfl (.trans (Puts.keeps ⟨blocked.proc, blocked.sigProcs⟩ ?_)
      (sound.informed finished blocked ran).2.untouched.keeps)
    exact ⟨⟨rfl, rfl⟩, by simp [Slot.receives], ⟨rfl, rfl, rfl, rfl⟩, Iff.rfl, id⟩
  | ipc ipc => exact .ipc ipc
  | elsewhere elsewhere =>
    refine .keeps rfl fun q => ?_
    obtain ⟨priority, -, -, -, user, sys, childU, childS⟩ := elsewhere.slots q
    refine ⟨elsewhere.queues q, by rw [elsewhere.flags], ⟨user, sys, childU, childS⟩, ?_, priority.symm.trans⟩
    unfold Slot.isemptyp
    rw [priority]

/-! ## Runs -/

theorem sound_init (initial : (kernel out).init w) : Sound k w ∧ ∀ p, w.state.pending p = ∅ := by
  obtain ⟨idle, tasks, mm, none_, nodup, ready⟩ := initial
  have finished (p : Proc) : w.unfinished p = ∅ := (idle p).2.2.2.2.1
  refine ⟨⟨⟨fun p => ?_, tasks, mm, fun p set => ?_, ?_, nodup, fun p => ?_⟩, fun _ => ⟨none_, finished⟩⟩,
    fun p => (idle p).2.1⟩
  · obtain ⟨flags, signals, count, -⟩ := idle p
    exact ⟨by simp [flags, signals], by simp [flags, count], fun _ => by simp [signals, count, finished p], fun _ => flags⟩
  · rw [(idle p).1] at set
    exact absurd set (Finset.notMem_empty _)
  · have nobody : population (fun p => Flag.PENDING ∈ (w.state.proc p).pFlags) = 0 :=
      population_eq_zero_iff.mpr fun p set => by
        rw [(idle p).1] at set
        exact Finset.notMem_empty _ set
    rw [none_, nobody]
    rfl
  · rw [ready]
    exact and_congr_right' ⟨fun present => ⟨present, (idle p).1⟩, fun runs => runs.1⟩

theorem sound_of_run {history : List (Label Proc Sig)} (run : (kernel out).Run history w) :
    Sound k w ∧ w.state.pending = awaited k history := by
  refine run.induction_on (P := fun history w => Sound k w ∧ w.state.pending = awaited k history) ?_ ?_
  · exact fun w initial => ⟨(sound_init initial).1, funext (sound_init initial).2⟩
  · intro history w label w' _ ⟨sound, pending⟩ steps
    have stepped := sound.step steps
    rw [awaited_append, ← pending]
    exact ⟨stepped.sound, stepped.pending⟩

/-- What MM has been told in a run, and what it has still to be told and to finish. -/
structure Delivered (k : Table Proc Sig) (history : List (Label Proc Sig)) (w : World Proc Sig) : Prop where
  /-- MM is told of all the signals that a process has been sent since MM was last told of its signals. -/
  told : ∀ before label after, history = before ++ label :: after → ∀ p map, label.told = some (p, map) →
    map = accept k (awaited k before) label.event p ∧ map ≠ ∅
  /-- The signals of which MM has not been told are in the process table. -/
  pending : ∀ p, (w.state.proc p).pPending = awaited k history p
  /-- When MM waits for work, it has been told of every signal and has finished it. -/
  idle : (w.state.proc k.MM_PROC_NR).WaitsForAny → ∀ p, awaited k history p = ∅ ∧ w.unfinished p = ∅
  /-- Until then the process is blocked. -/
  blocked : ∀ p, ¬ (w.state.proc p).isemptyp →
    (w.state.proc p).pPendcount = (awaited k history p).card + (w.unfinished p).card ∧
      ((awaited k history p).Nonempty ∨ (w.unfinished p).Nonempty → p ∉ w.state.ready)

theorem signals_delivered {history : List (Label Proc Sig)} (run : (kernel out).Run history w) :
    Delivered k history w := by
  obtain ⟨⟨balanced, idle⟩, pending⟩ := sound_of_run run
  have known (p : Proc) : (w.state.proc p).pPending = awaited k history p := congrFun pending p
  refine ⟨?_, known, fun waits p => ?_, fun p present => ?_⟩
  · refine run.each fun before w label w' earlier steps p map tells => ?_
    obtain ⟨sound, pending⟩ := sound_of_run earlier
    rw [← pending]
    exact (sound.step steps).told p map tells
  · obtain ⟨none_, finished⟩ := idle waits
    refine ⟨?_, finished p⟩
    rw [← known]
    exact (balanced.counted p).pending_eq_empty fun set => balanced.sigProcs_ne_zero.mpr ⟨p, set⟩ none_
  · have count := (balanced.counted p).pendcount present
    rw [known] at count
    refine ⟨count, fun some_ member => ?_⟩
    have runs := ((balanced.ready.mem_iff p).mp member).2
    have blocked : .SIG_PENDING ∈ (w.state.proc p).pFlags := by
      rw [(balanced.counted p).sigPending, count]
      rcases some_ with some_ | some_ <;> have positive := Finset.card_pos.mpr some_ <;> omega
    exact Finset.ne_empty_of_mem blocked runs.2

end

/-! ## A small kernel -/

inductive Who where
  | idle
  | hardware
  | mm
  | user
  | shell
  deriving DecidableEq, Repr

instance : Fintype Who := ⟨{.idle, .hardware, .mm, .user, .shell}, fun p => by cases p <;> decide⟩

inductive Signal where
  | SIGINT
  | SIGTRAP
  deriving DecidableEq, Repr

def small : Table Who Signal where
  tasks := [.idle, .hardware]
  servers := [.mm, .user, .shell]
  everybody p := by cases p <;> decide
  apart := by decide
  IDLE := .idle
  IDLE_mem := by decide
  HARDWARE := .hardware
  HARDWARE_mem := by decide
  MM_PROC_NR := .mm
  SIGTRAP := .SIGTRAP

def State.block (s : State Who Signal) (p : Who) (rp : Slot Who Signal) : State Who Signal :=
  { s with proc := Function.update s.proc p rp, ready := if (s.proc p).pFlags = ∅ then s.ready.erase p else s.ready }

def State.release (s : State Who Signal) (p : Who) (flag : Flag) : State Who Signal :=
  { s with
    proc := Function.update s.proc p ((s.proc p).clear flag)
    ready := if (s.proc p).pFlags.erase flag = ∅ then p :: s.ready else s.ready }

def smallOutside : Outside small where
  lockReady p s := p :: s.ready
  lockReady_perm _ _ := .refl _
  lockUnready p s := s.ready.erase p
  lockUnready_perm _ _ := .refl _
  lockMiniSend s := if (s.proc .mm).WaitsForAny then some (s.release .mm .RECEIVING) else none
  lockMiniSend_waits s waits := ⟨s.release .mm .RECEIVING, if_pos waits, rfl, rfl, .refl _⟩

def slotOf (priority : Priority) : Slot Who Signal :=
  ⟨∅, priority, ∅, 0, none, none, none, [], 0, 0, 0, 0, 0, 0, 1, 0, 0, 0, false⟩

def smallBoot : World Who Signal where
  state := ⟨fun | .idle => slotOf .idle | .hardware => slotOf .task | .mm => slotOf .server | .user | .shell => slotOf .user,
    0, [.mm, .user, .shell]⟩
  unfinished _ := ∅

theorem smallBoot_init : (kernel smallOutside).init smallBoot := by
  refine ⟨fun p => ?_, by decide, rfl, rfl, by decide, fun p => ?_⟩
  · cases p <;> exact ⟨rfl, rfl, rfl, rfl, rfl, rfl, rfl, rfl, rfl⟩
  · cases p <;> decide

def play (w : World Who Signal) (label : Label Who Signal) : Option (World Who Signal) :=
  match label.event with
  | .causeSig p sig =>
    match smallOutside.causeSig p sig w.state with
    | some (s, told) => if (w.state.proc p).isuserp ∧ told = label.told then some (w.after s told) else none
    | none => none
  | .endsig p sig =>
    match smallOutside.doEndsig p w.state with
    | some (_, s) =>
      if sig ∈ w.unfinished p ∧ label.told = none then
        some ⟨s, Function.update w.unfinished p ((w.unfinished p).erase sig)⟩
      else none
    | none => none
  | .fork parent child =>
    match doFork parent child 0 w.state with
    | some s =>
      if .SENDING ∉ (w.state.proc parent).pFlags ∧ w.unfinished child = ∅ ∧ label.told = none then some { w with state := s }
      else none
    | none => none
  | .exit parent p =>
    match smallOutside.doXit parent p w.state with
    | some s => if parent ≠ p ∧ label.told = none then some { w with state := s } else none
    | none => none
  | .charge p user sys lost =>
    if lost = decide (w.state.proc p).isemptyp ∧ label.told = none then
      some { w with state := w.state.put p ((w.state.proc p).charge user sys) }
    else none
  | .getWork =>
    let t := w.state.block .mm ((w.state.proc .mm).receives none)
    match if t.sigProcs ≠ 0 then smallOutside.inform t else some (t, none) with
    | some (s, told) =>
      if (∀ p, w.unfinished p = ∅) ∧ .RECEIVING ∉ (w.state.proc .mm).pFlags ∧ told = label.told then some (w.after s told)
      else none
    | none => none
  | _ => none

theorem play_steps {w w' : World Who Signal} {label : Label Who Signal} (played : play w label = some w') :
    Steps smallOutside w label w' := by
  obtain ⟨event, told⟩ := label
  unfold play at played
  cases event <;> dsimp only at played
  case causeSig p sig =>
    split at played
    · rename_i s told' ran
      split at played
      · rename_i meant
        cases played
        obtain ⟨user, rfl⟩ := meant
        exact .causeSig user ran
      · cases played
    · cases played
  case endsig p sig =>
    split at played
    · rename_i r s ran
      split at played
      · rename_i meant
        cases played
        obtain ⟨finishes, rfl⟩ := meant
        exact .endsig finishes ran
      · cases played
    · cases played
  case fork parent child =>
    split at played
    · rename_i s ran
      split at played
      · rename_i meant
        cases played
        obtain ⟨idle, finished, rfl⟩ := meant
        exact .fork idle finished ran
      · cases played
    · cases played
  case exit parent p =>
    split at played
    · rename_i s ran
      split at played
      · rename_i meant
        cases played
        obtain ⟨apart, rfl⟩ := meant
        exact .exit apart ran
      · cases played
    · cases played
  case charge p user sys lost =>
    split at played
    · rename_i meant
      cases played
      obtain ⟨rfl, rfl⟩ := meant
      exact .charge
    · cases played
  case getWork =>
    split at played
    · rename_i s told' ran
      split at played
      · rename_i meant
        cases played
        obtain ⟨finished, unset, rfl⟩ := meant
        have blocked : Blocked .mm ((w.state.proc .mm).receives none) w.state
            (w.state.block .mm ((w.state.proc .mm).receives none)) := ⟨rfl, rfl, .refl _⟩
        exact .getWork finished unset blocked ran
      · cases played
    · cases played
  all_goals cases played

def smallDay : List (Label Who Signal) :=
  [⟨.getWork, none⟩, ⟨.causeSig .user .SIGINT, some (.user, {.SIGINT})⟩, ⟨.causeSig .user .SIGTRAP, none⟩,
    ⟨.endsig .user .SIGINT, none⟩, ⟨.getWork, some (.user, {.SIGTRAP})⟩, ⟨.endsig .user .SIGTRAP, none⟩, ⟨.getWork, none⟩]

theorem signals_delivered_smallDay : ∃ w, (kernel smallOutside).Run smallDay w ∧ (w.state.proc .mm).WaitsForAny ∧
    w.state.ready = [.user, .shell] ∧ Delivered small smallDay w := by
  have played : ((smallDay.foldlM play smallBoot).any fun w =>
      (w.state.proc .mm).WaitsForAny ∧ w.state.ready = [.user, .shell]) = true := by decide
  obtain ⟨w, run, ends⟩ := System.run_of_play (fun _ _ _ => play_steps) smallBoot_init played
  obtain ⟨waits, ready⟩ := of_decide_eq_true ends
  exact ⟨w, run, waits, ready, signals_delivered run⟩

end SoiStud.Kernel.SystemTask
