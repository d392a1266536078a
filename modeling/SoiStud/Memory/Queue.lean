import SoiStud.Memory.SwapIn
import SoiStud.Memory.Rounds

/-! The queue of processes that are to come in.

It is only cleaned while `swap_in` runs: a process that is killed stays linked. What
keeps the links good all the same is that such a slot is not used again before, so
that nothing is queued that is still linked. In front of `pmp` all processes want to
come in, behind it some may have been killed.
-/

set_option autoImplicit false

namespace SoiStud.Memory
open Library

/-! ## The links -/

section
variable {c : Constants} {m m' : Manager} {queue passed ahead rest : List Nat} {rmp fuel : Nat} {pmp : Option Nat}

@[simp] theorem assign_state (m : Manager) (pmp : Option Nat) (rmp : Nat) : (m.assign pmp rmp).state = m.state := by
  cases pmp <;> rfl

@[simp] theorem assign_swapin (m : Manager) (pmp : Option Nat) (rmp : Nat) : (m.assign pmp rmp).swapin = m.swapin := by
  cases pmp <;> rfl

@[simp] theorem assign_replyRes (m : Manager) (pmp : Option Nat) (rmp : Nat) :
    (m.assign pmp rmp).replyRes = m.replyRes := by
  cases pmp <;> rfl

/-- The queue of processes that want to come in. -/
def Manager.Queue (c : Constants) (m : Manager) (queue : List Nat) : Prop := Chain m.swapq c.null m.inQueue queue

theorem queue_congr (chain : m.Queue c queue) (links : ∀ i ∈ queue, m'.swapq i = m.swapq i)
    (head : m'.inQueue = m.inQueue) : m'.Queue c queue := by
  unfold Manager.Queue
  rw [head]
  exact Chain.congr chain links

theorem deref_getLast? (chain : m.Queue c (passed ++ ahead)) : Chain m.swapq c.null (m.deref passed.getLast?) ahead := by
  rcases List.eq_nil_or_concat passed with rfl | ⟨l, p, rfl⟩
  · exact chain
  · rw [List.concat_eq_append] at chain ⊢
    rw [List.getLast?_concat]
    rw [Manager.Queue, List.append_assoc] at chain
    exact chain.behind

theorem unlink_queue (chain : m.Queue c (passed ++ rmp :: rest)) :
    (m.assign passed.getLast? (m.swapq rmp)).Queue c (passed ++ rest) := by
  have nodup : (passed ++ rmp :: rest).Nodup := Chain.nodup chain
  rcases List.eq_nil_or_concat passed with rfl | ⟨l, p, rfl⟩
  · exact Chain.tail chain
  · rw [List.concat_eq_append] at chain nodup ⊢
    rw [List.getLast?_concat]
    rw [Manager.Queue, List.append_assoc] at chain ⊢
    rw [List.append_assoc] at nodup
    have notFront : p ∉ l := fun member => (List.nodup_append.mp nodup).2.2 p member p (by simp) rfl
    have notRest : p ∉ rest := by
      have tail := (List.nodup_cons.mp (List.nodup_append.mp nodup).2.1).1
      exact fun member => tail (by simp [member])
    apply Chain.splice chain
    · intro x member
      have other : x ≠ p := fun same => notFront (same ▸ member)
      exact Function.update_of_ne other _ _
    · change Chain (Function.update m.swapq p (m.swapq rmp)) c.null (Function.update m.swapq p (m.swapq rmp) p) rest
      rw [Function.update_self]
      apply Chain.congr (chain.behind.tail)
      intro x member
      have other : x ≠ p := fun same => notRest (same ▸ member)
      exact Function.update_of_ne other _ _

theorem lastLink_eq (chain : Chain m.swapq c.null (m.deref pmp) ahead) (enough : ahead.length < fuel) :
    lastLink c m fuel pmp = .ok (ahead.getLast?.or pmp) := by
  induction ahead generalizing pmp fuel with
  | nil =>
    obtain ⟨fuel, rfl⟩ := Nat.exists_eq_succ_of_ne_zero (Nat.ne_of_gt enough)
    exact if_pos chain.eq_nil
  | cons rmp rest ih =>
    obtain ⟨fuel, rfl⟩ := Nat.exists_eq_succ_of_ne_zero (Nat.ne_of_gt (Nat.zero_lt_of_lt enough))
    have here : m.deref pmp = rmp := chain.head_eq
    have behind : lastLink c m fuel (some rmp) = .ok (rest.getLast?.or (some rmp)) :=
      ih chain.tail (Nat.lt_of_succ_lt_succ enough)
    rw [lastLink, if_neg chain.ne_nil, here, behind, List.getLast?_cons]
    cases rest.getLast? <;> rfl

theorem append_queue (chain : m.Queue c queue) (fresh : rmp ∉ queue) (slot : rmp ≠ c.null) :
    ((m.assign queue.getLast? rmp).assign (some rmp) c.null).Queue c (queue ++ [rmp]) := by
  rcases List.eq_nil_or_concat queue with rfl | ⟨l, p, rfl⟩
  · refine .link slot ?_
    change Chain _ c.null (Function.update m.swapq rmp c.null rmp) []
    rw [Function.update_self]
    exact .stop
  · rw [List.concat_eq_append] at chain fresh ⊢
    rw [List.getLast?_concat]
    have nodup : (l ++ [p]).Nodup := Chain.nodup chain
    have notFront : p ∉ l := fun member => (List.nodup_append.mp nodup).2.2 p member p (by simp) rfl
    have other : p ≠ rmp := fun same => fresh (by simp [same])
    apply Chain.extend chain fresh slot
    · intro x member
      have notNew : x ≠ rmp := fun same => fresh (by simp [← same, member])
      have notLast : x ≠ p := fun same => notFront (same ▸ member)
      exact (Function.update_of_ne notNew _ _).trans (Function.update_of_ne notLast _ _)
    · exact (Function.update_of_ne other _ _).trans (Function.update_self _ _ _)
    · exact Function.update_self _ _ _

/-- What `swap_inqueue` does with a process: it stands in the queue afterwards, and at its end if it was not there. -/
structure Enqueued (c : Constants) (rmp : Nat) (queue : List Nat) (m m' : Manager) : Prop where
  state : m'.state = m.state
  replyRes : m'.replyRes = m.replyRes
  queue : (m.swapin rmp = true ∧ m' = m) ∨
    (m.swapin rmp = false ∧ m'.swapin = Function.update m.swapin rmp true ∧ m'.Queue c (queue ++ [rmp]))

theorem swapInqueue_spec (chain : m.Queue c queue) (slots : ∀ i ∈ queue, i < c.nrProcs) (slot : rmp < c.nrProcs)
    (fresh : m.swapin rmp = false → rmp ∉ queue) :
    ∃ m', swapInqueue c rmp m = .ok m' ∧ Enqueued c rmp queue m m' := by
  unfold swapInqueue
  cases marked : m.swapin rmp with
  | true => exact ⟨m, if_pos rfl, rfl, rfl, .inl ⟨marked, rfl⟩⟩
  | false =>
    have few : queue.length < c.nrProcs + 1 := by
      have within : queue ⊆ List.range c.nrProcs := fun i member => List.mem_range.mpr (slots i member)
      have count := List.Nodup.length_le_of_subset (Chain.nodup chain) within
      rw [List.length_range] at count
      exact Nat.lt_succ_of_le count
    have last : lastLink c m (c.nrProcs + 1) none = .ok queue.getLast? := by
      have ended : lastLink c m (c.nrProcs + 1) none = .ok (queue.getLast?.or none) := lastLink_eq chain few
      rw [ended, Option.or_none]
    rw [if_neg (by simp), last]
    refine ⟨_, rfl, by simp, by simp, .inr ⟨marked, by simp, ?_⟩⟩
    have longer := append_queue chain (fresh marked) (Nat.ne_of_lt slot)
    exact queue_congr longer (fun _ _ => rfl) rfl

end

/-! ## What the allocator does to the flags -/

section
variable {c : Constants} {s s' t : State} {w w' : World} {n rmp : Nat}

def Mproc.blocked (p : Mproc) : Bool := p.paused || p.waiting || p.sigsuspended

theorem candidate_flags {p : Mproc} (candidate : p.candidate = true) :
    p.blocked = true ∧ p.reply = false ∧ p.onswap = false := by
  simp only [Mproc.candidate, Bool.and_eq_true, Bool.not_eq_true', Bool.or_eq_false_iff] at candidate
  exact ⟨candidate.1, candidate.2.1.2, candidate.2.2⟩

structure SweptOut (s s' : State) : Prop where
  flags : ∀ i, (s'.mproc i).reply = (s.mproc i).reply ∧ (s'.mproc i).blocked = (s.mproc i).blocked
  still : ∀ i, (s.mproc i).onswap = true → s'.mproc i = s.mproc i
  out : ∀ i, (s'.mproc i).onswap = true → (s.mproc i).onswap = true ∨ (s.mproc i).candidate = true
  candidate : ∀ i, (s'.mproc i).candidate = true → s'.mproc i = s.mproc i

theorem SweptOut.of_mproc (same : s'.mproc = s.mproc) : SweptOut s s' := by
  constructor <;> intro i <;> rw [same]
  · exact ⟨rfl, rfl⟩
  · exact fun _ => rfl
  · exact .inl
  · exact fun _ => rfl

theorem SweptOut.trans (first : SweptOut s t) (second : SweptOut t s') : SweptOut s s' where
  flags i := ⟨(second.flags i).1.trans (first.flags i).1, (second.flags i).2.trans (first.flags i).2⟩
  still i was := by
    have kept := first.still i was
    rw [← kept]
    exact second.still i (kept ▸ was)
  out i out := by
    rcases second.out i out with before | candidate
    · exact first.out i before
    · exact .inr (first.candidate i candidate ▸ candidate)
  candidate i candidate := by
    have later := second.candidate i candidate
    exact later.trans (first.candidate i (later ▸ candidate))

theorem SwappedOut.sweptOut (swapped : SwappedOut rmp s s') : SweptOut s s' := by
  obtain ⟨candidate, -, -, base, moved⟩ := swapped
  obtain ⟨-, -, inMemory⟩ := candidate_flags candidate
  constructor <;> intro i <;> rw [moved] <;> rcases eq_or_ne i rmp with rfl | other
  · rw [Function.update_self]
    exact ⟨rfl, rfl⟩
  · rw [Function.update_of_ne other]
    exact ⟨rfl, rfl⟩
  · intro was
    rw [inMemory] at was
    cases was
  · exact fun _ => Function.update_of_ne other _ _
  · exact fun _ => .inr candidate
  · rw [Function.update_of_ne other]
    exact .inl
  · intro again
    rw [Function.update_self] at again
    cases (candidate_flags again).2.2
  · exact fun _ => Function.update_of_ne other _ _

theorem SwappedOuts.sweptOut (outs : SwappedOuts c n s t) : SweptOut s t := by
  induction outs with
  | none => exact .of_mproc rfl
  | more ran _ ih =>
    obtain ⟨rmp, -, steps⟩ := swapOut_steps ran
    exact steps.swappedOut.sweptOut.trans ih

theorem allocMem_sweptOut {clicks : Nat} {found : Option Nat} (ran : allocMem c clicks s = .ok (found, s')) :
    SweptOut s s' := by
  rw [allocMem_eq] at ran
  obtain ⟨n, t, outs, last⟩ := rounds_cases ran
  refine outs.sweptOut.trans (.of_mproc ?_)
  cases last with
  | taken _ bitten => exact (bite_kept bitten).2.mproc_eq
  | gaveUp _ _ => rfl

theorem swapOn_frame {opened : Except Int Nat} {offset size : Nat} {r : SwapOn}
    (ran : swapOn c opened offset size s = .ok (r, s')) :
    s'.mproc = s.mproc ∧ s'.swapBase = s.swapBase ∧ s'.swapMaxsize = s.swapMaxsize := by
  unfold swapOn at ran
  split at ran
  · cases ran
    exact ⟨rfl, rfl, rfl⟩
  · cases opened with
    | error errno =>
      cases ran
      exact ⟨rfl, rfl, rfl⟩
    | ok fd =>
      dsimp only at ran
      split at ran
      · obtain ⟨t, freed, returned⟩ := bind_eq_ok.mp ran
        cases returned
        rw [freeMem_kept freed]
        exact ⟨rfl, rfl, rfl⟩
      · cases ran
        exact ⟨rfl, rfl, rfl⟩

theorem Moves.sweptOut {event : Event} (moves : Moves c w event w') (inside : event ≠ .elsewhere) :
    SweptOut w.state w'.state ∧ w'.owners = w.owners := by
  cases moves with
  | swapOn ran => exact ⟨.of_mproc (swapOn_frame ran).1, rfl⟩
  | @doWorstFit flag =>
    refine ⟨.of_mproc ?_, rfl⟩
    change (Memory.doWorstFit flag w.state).mproc = w.state.mproc
    unfold Memory.doWorstFit
    split <;> rfl
  | allocMem _ ran => exact ⟨allocMem_sweptOut ran, rfl⟩
  | freeMem _ ran => exact ⟨.of_mproc (freeMem_kept ran).mproc_eq, rfl⟩
  | elsewhere => exact absurd rfl inside

end

/-! ## The queue in a run -/

/-- The queue at any time: who is marked is on swap and linked, and who is linked is marked or has exited. -/
structure Waiting (c : Constants) (m : Mm) (queue : List Nat) : Prop where
  chain : m.manager.Queue c queue
  slots : ∀ i ∈ queue, i < c.nrProcs
  nodup : m.owners.Nodup
  turn : ∀ i ∈ m.owners, InTurn c i
  marked : ∀ i, m.manager.swapin i = true → i ∈ queue ∧ (m.manager.mproc i).onswap = true
  owned : ∀ i, (m.manager.mproc i).onswap = true → i ∈ m.owners
  idle : ∀ i, i ∉ m.owners → (m.manager.mproc i).blocked = false
  stale : ∀ i ∈ queue, m.manager.swapin i = true ∨ i ∉ m.owners

/-- Who is owed a reply and on swap is marked. -/
def Called (m : Manager) : Prop := ∀ i, (m.mproc i).reply = true → (m.mproc i).onswap = true → m.swapin i = true

section
variable {c : Constants} {m m' : Mm} {manager : Manager} {queue : List Nat} {a : Act} {rmp : Nat}

theorem Waiting.slot (waiting : Waiting c m queue) (out : (m.manager.mproc rmp).onswap = true) : rmp < c.nrProcs :=
  (waiting.turn rmp (waiting.owned rmp out)).2

/-- Who is on swap and not marked is not linked either. -/
theorem Waiting.unlinked (waiting : Waiting c m queue) (out : (m.manager.mproc rmp).onswap = true)
    (unmarked : m.manager.swapin rmp = false) : rmp ∉ queue := by
  intro member
  rcases waiting.stale rmp member with marked | gone
  · rw [unmarked] at marked
    cases marked
  · exact gone (waiting.owned rmp out)

structure Joins (c : Constants) (queue more : List Nat) (leaving : List Nat) (m m' : Mm) : Prop where
  waiting : Waiting c m' (queue ++ more)
  marked : ∀ i ∈ more, m'.manager.swapin i = true
  keeps : ∀ i, m.manager.swapin i = true → i ∉ leaving → m'.manager.swapin i = true
  control : m'.control = m.control

theorem Waiting.swept {s : State} (waiting : Waiting c m queue) (swept : SweptOut m.manager.state s)
    (state : m'.manager = { m.manager with state := s }) (owners : m'.owners = m.owners) : Waiting c m' queue := by
  have mproc (i : Nat) : m'.manager.mproc i = s.mproc i := by
    rw [state]
    rfl
  have swapin : m'.manager.swapin = m.manager.swapin := by rw [state]
  refine ⟨?_, waiting.slots, owners ▸ waiting.nodup, owners ▸ waiting.turn, ?_, ?_, ?_, ?_⟩
  · exact queue_congr waiting.chain (fun i _ => by rw [state]) (by rw [state])
  · intro i marked
    rw [swapin] at marked
    obtain ⟨member, out⟩ := waiting.marked i marked
    rw [mproc, swept.still i out]
    exact ⟨member, out⟩
  · intro i out
    rw [mproc] at out
    rw [owners]
    -- only processes that block can be swapped out, and they belong to somebody
    rcases swept.out i out with before | candidate
    · exact waiting.owned i before
    · by_contra stranger
      have blocked := (candidate_flags candidate).1
      exact absurd blocked (by
        rw [Bool.not_eq_true]
        exact waiting.idle i stranger)
  · intro i stranger
    rw [owners] at stranger
    rw [mproc, (swept.flags i).2]
    exact waiting.idle i stranger
  · intro i member
    rw [swapin, owners]
    exact waiting.stale i member

theorem Waiting.enqueue (waiting : Waiting c m queue) (out : (m.manager.mproc rmp).onswap = true)
    (ran : swapInqueue c rmp m.manager = .ok manager) :
    ∃ more, Joins c queue more [] m { m with manager := manager } ∧ manager.swapin rmp = true ∧
      manager.state = m.manager.state ∧ manager.replyRes = m.manager.replyRes := by
  obtain ⟨manager', done, state, replyRes, outcome⟩ :=
    swapInqueue_spec waiting.chain waiting.slots (waiting.slot out) (waiting.unlinked out)
  rw [done] at ran
  cases ran
  -- a marked process is in the queue already; any other is linked at the end
  rcases outcome with ⟨already, same⟩ | ⟨unmarked, marks, chain⟩
  · cases same
    exact ⟨[], ⟨by rw [List.append_nil]; exact waiting, by simp, fun i marked _ => marked, rfl⟩, already, rfl,
      rfl⟩
  · have mproc (i : Nat) : manager.mproc i = m.manager.mproc i := congrFun (congrArg State.mproc state) i
    have self : manager.swapin rmp = true := by
      rw [marks]
      exact Function.update_self _ _ _
    have keeps (i : Nat) (marked : m.manager.swapin i = true) : manager.swapin i = true := by
      rcases eq_or_ne i rmp with rfl | other
      · exact self
      · rw [marks, Function.update_of_ne other]
        exact marked
    refine ⟨[rmp], ⟨⟨chain, ?_, waiting.nodup, waiting.turn, ?_, ?_, ?_, ?_⟩, ?_, fun i marked _ => keeps i marked,
      rfl⟩, self, state, replyRes⟩
    · intro i member
      rcases List.mem_append.mp member with member | member
      · exact waiting.slots i member
      · exact List.mem_singleton.mp member ▸ waiting.slot out
    · intro i marked
      change manager.swapin i = true at marked
      rw [mproc]
      rcases eq_or_ne i rmp with rfl | other
      · exact ⟨by simp, out⟩
      · rw [marks, Function.update_of_ne other] at marked
        obtain ⟨member, out⟩ := waiting.marked i marked
        exact ⟨List.mem_append_left _ member, out⟩
    · intro i
      rw [mproc]
      exact waiting.owned i
    · intro i
      rw [mproc]
      exact waiting.idle i
    · intro i member
      rcases List.mem_append.mp member with member | member
      · exact (waiting.stale i member).imp_left (keeps i)
      · exact .inl (List.mem_singleton.mp member ▸ self)
    · intro i member
      exact List.mem_singleton.mp member ▸ self

theorem Called.swept {s : State} (called : Called m.manager) (swept : SweptOut m.manager.state s) :
    Called { m.manager with state := s } := by
  intro i reply out
  change (s.mproc i).reply = true at reply
  rw [(swept.flags i).1] at reply
  rcases swept.out i out with before | candidate
  · exact called i reply before
  · have none_ := (candidate_flags candidate).2.1
    exact absurd (reply.symm.trans none_) (by decide)

theorem Joins.called {more : List Nat} (joins : Joins c queue more [] m { m with manager := manager })
    (state : manager.state = m.manager.state) (called : Called m.manager) : Called manager := by
  intro i reply out
  have mproc : manager.mproc i = m.manager.mproc i := congrFun (congrArg State.mproc state) i
  rw [mproc] at reply out
  exact joins.keeps i (called i reply out) List.not_mem_nil

theorem Waiting.congr (waiting : Waiting c m queue) (swapin : m'.manager.swapin = m.manager.swapin)
    (links : m'.manager.swapq = m.manager.swapq) (head : m'.manager.inQueue = m.manager.inQueue)
    (owners : m'.owners = m.owners) (flags : ∀ i, (m'.manager.mproc i).onswap = (m.manager.mproc i).onswap ∧
      (m'.manager.mproc i).blocked = (m.manager.mproc i).blocked) : Waiting c m' queue where
  chain := queue_congr waiting.chain (fun i _ => congrFun links i) head
  slots := waiting.slots
  nodup := owners ▸ waiting.nodup
  turn := owners ▸ waiting.turn
  marked i marked := by
    rw [(flags i).1]
    exact waiting.marked i (swapin ▸ marked)
  owned i out := by
    rw [(flags i).1] at out
    exact owners ▸ waiting.owned i out
  idle i stranger := by
    rw [(flags i).2]
    exact waiting.idle i (owners ▸ stranger)
  stale i member := by
    rw [swapin, owners]
    exact waiting.stale i member

theorem Waiting.setreply {result : Int} (waiting : Waiting c m queue) (called : Called m.manager)
    (ran : setreply c rmp result m.manager = .ok manager) :
    ∃ more, Joins c queue more [] m { m with manager := manager } ∧ Called manager ∧
      manager.mproc = Function.update m.manager.mproc rmp { m.manager.mproc rmp with reply := true } ∧
      manager.replyRes = Function.update m.manager.replyRes rmp result := by
  let noted : Manager := { m.manager with
    replyRes := Function.update m.manager.replyRes rmp result
    state := m.manager.state.putProc rmp { m.manager.mproc rmp with reply := true } }
  have mproc : noted.mproc = Function.update m.manager.mproc rmp { m.manager.mproc rmp with reply := true } := rfl
  have same (i : Nat) : (noted.mproc i).onswap = (m.manager.mproc i).onswap ∧
      (noted.mproc i).blocked = (m.manager.mproc i).blocked := by
    rw [mproc]
    rcases eq_or_ne i rmp with rfl | other
    · rw [Function.update_self]
      exact ⟨rfl, rfl⟩
    · rw [Function.update_of_ne other]
      exact ⟨rfl, rfl⟩
  have before : Waiting c { m with manager := noted } queue := waiting.congr rfl rfl rfl rfl same
  have others (i : Nat) (other : i ≠ rmp) (reply : (noted.mproc i).reply = true) (out : (noted.mproc i).onswap = true) :
      m.manager.swapin i = true := by
    rw [mproc, Function.update_of_ne other] at reply out
    exact called i reply out
  unfold Memory.setreply at ran
  -- a process on swap is queued; one in memory gets its reply from the main loop
  by_cases out : (noted.mproc rmp).onswap = true
  · have ran : swapInqueue c rmp noted = .ok manager := (if_pos out).symm.trans ran
    obtain ⟨more, joins, self, state, replyRes⟩ := before.enqueue out ran
    refine ⟨more, ⟨joins.waiting, joins.marked, joins.keeps, rfl⟩, ?_, ?_, replyRes⟩
    · intro i reply out
      have after : manager.mproc i = noted.mproc i := congrFun (congrArg State.mproc state) i
      rw [after] at reply out
      rcases eq_or_ne i rmp with rfl | other
      · exact self
      · exact joins.keeps i (others i other reply out) List.not_mem_nil
    · exact (congrArg State.mproc state).trans mproc
  · have ran : (.ok noted : Except Fault Manager) = .ok manager := (if_neg out).symm.trans ran
    have final : manager = noted := (Except.ok.inj ran).symm
    rw [final]
    refine ⟨[], ⟨by rw [List.append_nil]; exact before, by simp, fun i marked _ => marked, rfl⟩, ?_, mproc, rfl⟩
    intro i reply on
    rcases eq_or_ne i rmp with rfl | other
    · exact absurd on out
    · exact others i other reply on

theorem Waiting.queueAll (l : List Nat) (waiting : Waiting c m queue) (ran : queueAll c l m.manager = .ok manager) :
    ∃ more, Joins c queue more [] m { m with manager := manager } ∧ manager.state = m.manager.state ∧
      manager.replyRes = m.manager.replyRes := by
  induction l generalizing m queue with
  | nil =>
    cases ran
    exact ⟨[], ⟨by rw [List.append_nil]; exact waiting, by simp, fun i marked _ => marked, rfl⟩, rfl, rfl⟩
  | cons rmp rest ih =>
    by_cases out : (m.manager.mproc rmp).onswap = true
    · rw [Memory.queueAll, if_pos out, bind_eq_ok] at ran
      obtain ⟨t, queued, ran⟩ := ran
      obtain ⟨more, joins, -, state, replyRes⟩ := waiting.enqueue out queued
      obtain ⟨later, joins', state', replyRes'⟩ := ih joins.waiting ran
      refine ⟨more ++ later, ⟨?_, ?_, ?_, rfl⟩, state'.trans state, replyRes'.trans replyRes⟩
      · rw [← List.append_assoc]
        exact joins'.waiting
      · intro i member
        rcases List.mem_append.mp member with member | member
        · exact joins'.keeps i (joins.marked i member) List.not_mem_nil
        · exact joins'.marked i member
      · exact fun i marked stays => joins'.keeps i (joins.keeps i marked stays) List.not_mem_nil
    · rw [Memory.queueAll, if_neg out] at ran
      exact ih waiting ran

/-- A process that exits stays linked. -/
theorem Waiting.exit {s : State} (waiting : Waiting c m queue) (called : Called m.manager) (kept : Kept m.manager.state s)
    (final : m' = { m with
      manager := { m.manager with
        state := s.putProc rmp (s.mproc rmp).exited
        swapin := Function.update m.manager.swapin rmp false }
      owners := m.owners.erase rmp }) : Joins c queue [] [rmp] m m' ∧ Called m'.manager := by
  subst final
  let gone : State := s.putProc rmp (s.mproc rmp).exited
  have self : gone.mproc rmp = (s.mproc rmp).exited := Function.update_self _ _ _
  -- every other process keeps its entry
  have others (i : Nat) (other : i ≠ rmp) : gone.mproc i = m.manager.mproc i :=
    (Function.update_of_ne other _ _).trans (congrFun kept.mproc_eq i)
  have marked (i : Nat) (marked : Function.update m.manager.swapin rmp false i = true) :
      i ≠ rmp ∧ m.manager.swapin i = true := by
    rcases eq_or_ne i rmp with rfl | other
    · rw [Function.update_self] at marked
      cases marked
    · rw [Function.update_of_ne other] at marked
      exact ⟨other, marked⟩
  have keeps (i : Nat) (other : i ≠ rmp) (marked : m.manager.swapin i = true) :
      Function.update m.manager.swapin rmp false i = true := by
    rw [Function.update_of_ne other]
    exact marked
  refine ⟨⟨?_, by simp, fun i marked stays => keeps i (by simpa using stays) marked, rfl⟩, ?_⟩
  · rw [List.append_nil]
    refine ⟨queue_congr waiting.chain (fun _ _ => rfl) rfl, waiting.slots, waiting.nodup.erase _, fun i member =>
      waiting.turn i (List.mem_of_mem_erase member), fun i want => ?_, fun i out => ?_, fun i stranger => ?_,
      fun i member => ?_⟩
    · obtain ⟨other, old⟩ := marked i want
      obtain ⟨member, out⟩ := waiting.marked i old
      change i ∈ queue ∧ (gone.mproc i).onswap = true
      rw [others i other]
      exact ⟨member, out⟩
    · change (gone.mproc i).onswap = true at out
      rcases eq_or_ne i rmp with rfl | other
      · rw [self] at out
        cases out
      · rw [others i other] at out
        exact (List.mem_erase_of_ne other).mpr (waiting.owned i out)
    · change (gone.mproc i).blocked = false
      rcases eq_or_ne i rmp with rfl | other
      · rw [self]
        rfl
      · rw [others i other]
        exact waiting.idle i fun member => stranger ((List.mem_erase_of_ne other).mpr member)
    · -- a link without an owner: the next `swap_in` takes it out
      rcases eq_or_ne i rmp with rfl | other
      · exact .inr waiting.nodup.not_mem_erase
      · rcases waiting.stale i member with old | gone
        · exact .inl (keeps i other old)
        · exact .inr fun member => gone (List.mem_of_mem_erase member)
  · intro i reply out
    change (gone.mproc i).reply = true at reply
    change (gone.mproc i).onswap = true at out
    rcases eq_or_ne i rmp with rfl | other
    · rw [self] at reply
      cases reply
    · rw [others i other] at reply out
      exact keeps i other (called i reply out)

/-- The rest of the system leaves the queue as it is, as long as no linked slot gets a new process. -/
theorem Waiting.elsewhere (waiting : Waiting c m queue) (called : Called m.manager) (outside : Elsewhere c m m')
    (fresh : ∀ i ∈ m'.owners, i ∉ m.owners → i ∉ queue) : Joins c queue [] [] m m' ∧ Called m'.manager := by
  obtain ⟨swapin, inQueue, -, control⟩ := outside.rest
  -- a slot that nobody had is in memory when it gets a process
  have onswap (i : Nat) : (m'.manager.mproc i).onswap = (m.manager.mproc i).onswap ∧
      ((m'.manager.mproc i).reply = true → (m.manager.mproc i).reply = true ∨ (m'.manager.mproc i).onswap = false) := by
    by_cases old : i ∈ m.owners
    · obtain ⟨-, reply, same, -⟩ := outside.old i old
      exact ⟨same, fun replies => .inl (reply ▸ replies)⟩
    · have before : (m.manager.mproc i).onswap = false := by
        rw [← Bool.not_eq_true]
        exact fun out => old (waiting.owned i out)
      by_cases new : i ∈ m'.owners
      · obtain ⟨-, -, after⟩ := outside.new i new old
        exact ⟨after.trans before.symm, fun _ => .inr after⟩
      · rw [outside.others i new]
        exact ⟨rfl, .inl⟩
  refine ⟨⟨?_, by simp, fun i marked _ => swapin ▸ marked, control⟩, fun i reply out => ?_⟩
  · rw [List.append_nil]
    refine ⟨queue_congr waiting.chain (fun i member => ?_) inQueue, waiting.slots, outside.nodup, fun i member => ?_,
      fun i marked => ?_, fun i out => ?_, fun i stranger => ?_, fun i member => ?_⟩
    · apply (outside.links i ?_).1
      by_cases old : i ∈ m.owners
      · exact .inr old
      · exact .inl fun new => fresh i new old member
    · by_cases old : i ∈ m.owners
      · exact waiting.turn i old
      · exact (outside.new i member old).1
    · rw [(onswap i).1]
      exact waiting.marked i (swapin ▸ marked)
    · rw [(onswap i).1] at out
      exact (outside.old i (waiting.owned i out)).1
    · rw [outside.others i stranger]
      exact waiting.idle i fun old => stranger (outside.old i old).1
    · rw [swapin]
      rcases waiting.stale i member with marked | gone
      · exact .inl marked
      · exact .inr fun new => fresh i new gone member
  · rw [swapin]
    rcases (onswap i).2 reply with before | inMemory
    · exact called i before ((onswap i).1 ▸ out)
    · rw [inMemory] at out
      cases out

theorem Acts.joins (acts : Acts c m a m') (waiting : Waiting c m queue) (called : Called m.manager)
    (fresh : ∀ i ∈ m'.owners, i ∉ m.owners → i ∉ queue) :
    ∃ more, Joins c queue more a.frees m m' ∧ Called m'.manager := by
  cases acts with
  | memory inside moves =>
    obtain ⟨swept, owners⟩ := moves.sweptOut inside
    refine ⟨[], ⟨?_, by simp, fun i marked _ => marked, rfl⟩, called.swept swept⟩
    rw [List.append_nil]
    exact waiting.swept swept rfl owners
  | setreply _ ran =>
    obtain ⟨more, joins, called, -⟩ := waiting.setreply called ran
    exact ⟨more, joins, called⟩
  | swapInqueue out ran =>
    obtain ⟨more, joins, -, state, -⟩ := waiting.enqueue out ran
    exact ⟨more, joins, joins.called state called⟩
  | exit _ freed =>
    obtain ⟨joins, called⟩ := waiting.exit called (freeMem_kept freed) rfl
    exact ⟨[], joins, called⟩
  | elsewhere outside =>
    obtain ⟨joins, called⟩ := waiting.elsewhere called outside fresh
    exact ⟨[], joins, called⟩

end

/-! ## The loop of `swap_in` -/

def Stage (c : Constants) (m : Manager) (queue : List Nat) : Control → Prop
  | .getWork => (∀ i ∈ queue, m.swapin i = true) ∧ ∀ i < c.nrProcs, (m.mproc i).reply = true → (m.mproc i).onswap = true
  | .call _ freed | .swapOff _ freed => ∀ i ∈ queue, m.swapin i = true ∨ i ∈ freed
  | .swapIn _ pmp | .checkPending _ pmp =>
    ∃ passed ahead, queue = passed ++ ahead ∧ pmp = passed.getLast? ∧ ∀ i ∈ passed, m.swapin i = true
  | .reply procNr => (∀ i ∈ queue, m.swapin i = true) ∧ ∀ i < procNr, (m.mproc i).reply = true → (m.mproc i).onswap = true

section
variable {c : Constants} {m : Mm} {manager : Manager} {queue passed ahead rest : List Nat} {rmp : Nat}
  {caller : Option (Int × List Nat)} {ends : SwapIn}

theorem Waiting.unlink (waiting : Waiting c m (passed ++ rmp :: rest)) (others : ∀ i ≠ rmp, manager.mproc i = m.manager.mproc i)
    (inMemory : (manager.mproc rmp).onswap = false) (blocked : (manager.mproc rmp).blocked = (m.manager.mproc rmp).blocked)
    (swapin : ∀ i, manager.swapin i = true ↔ i ≠ rmp ∧ m.manager.swapin i = true)
    (links : manager.swapq = (m.manager.assign passed.getLast? (m.manager.swapq rmp)).swapq)
    (head : manager.inQueue = (m.manager.assign passed.getLast? (m.manager.swapq rmp)).inQueue) :
    Waiting c { m with manager := manager } (passed ++ rest) := by
  have nodup := Chain.nodup waiting.chain
  have absent : rmp ∉ passed ++ rest := by
    have front : rmp ∉ passed := fun member => (List.nodup_append.mp nodup).2.2 rmp member rmp (by simp) rfl
    have back := (List.nodup_cons.mp (List.nodup_append.mp nodup).2.1).1
    simp [front, back]
  have linked {i : Nat} (other : i ≠ rmp) : i ∈ passed ++ rmp :: rest ↔ i ∈ passed ++ rest := by simp [other]
  refine ⟨queue_congr (unlink_queue waiting.chain) (fun i _ => congrFun links i) head, fun i member => ?_, waiting.nodup,
    waiting.turn, fun i marked => ?_, fun i out => ?_, fun i stranger => ?_, fun i member => ?_⟩
  · have other : i ≠ rmp := fun same => absent (same ▸ member)
    exact waiting.slots i ((linked other).mpr member)
  · obtain ⟨other, old⟩ := (swapin i).mp marked
    obtain ⟨member, out⟩ := waiting.marked i old
    change i ∈ passed ++ rest ∧ (manager.mproc i).onswap = true
    rw [others i other]
    exact ⟨(linked other).mp member, out⟩
  · change (manager.mproc i).onswap = true at out
    rcases eq_or_ne i rmp with rfl | other
    · rw [inMemory] at out
      cases out
    · rw [others i other] at out
      exact waiting.owned i out
  · change (manager.mproc i).blocked = false
    rcases eq_or_ne i rmp with rfl | other
    · rw [blocked]
      exact waiting.idle i stranger
    · rw [others i other]
      exact waiting.idle i stranger
  · have other : i ≠ rmp := fun same => absent (same ▸ member)
    exact (waiting.stale i ((linked other).mpr member)).imp_left fun marked => (swapin i).mpr ⟨other, marked⟩

theorem bringIn_mproc {size newBase : Nat} {s s' : State} (ran : bringIn c rmp size newBase s = .ok s') :
    s'.mproc = Function.update s.mproc rmp { (s.mproc rmp).moveTo newBase with onswap := false } := by
  rw [bringIn, bind_eq_ok] at ran
  obtain ⟨t, freed, returned⟩ := ran
  cases returned
  have before : t.mproc = Function.update s.mproc rmp ((s.mproc rmp).moveTo newBase) := (freeMem_kept freed).mproc_eq
  change Function.update t.mproc rmp { t.mproc rmp with onswap := false } = _
  rw [before, Function.update_self, Function.update_idem]

structure Rounded (c : Constants) (m : Mm) (manager : Manager) (control : Control) : Prop where
  queue : ∃ queue, Waiting c { m with manager := manager } queue ∧ Called manager ∧ Stage c manager queue control
  reply : ∀ i, (manager.mproc i).reply = (m.manager.mproc i).reply
  replyRes : manager.replyRes = m.manager.replyRes

theorem Waiting.cleaned (waiting : Waiting c m (passed ++ rmp :: rest)) (called : Called m.manager)
    (front : ∀ i ∈ passed, m.manager.swapin i = true) (unmarked : m.manager.swapin rmp = false) :
    Rounded c m (m.manager.assign passed.getLast? (m.manager.swapq rmp)) (.swapIn caller passed.getLast?) := by
  -- a process on swap that is linked is marked
  have inMemory : (m.manager.mproc rmp).onswap = false := by
    rw [← Bool.not_eq_true]
    exact fun out => waiting.unlinked out unmarked (by simp)
  have mproc (i : Nat) : (m.manager.assign passed.getLast? (m.manager.swapq rmp)).mproc i = m.manager.mproc i := by
    unfold Manager.mproc
    rw [assign_state]
  refine ⟨⟨passed ++ rest, ?_, fun i => ?_, passed, rest, rfl, rfl, fun i member => ?_⟩, fun i => by rw [mproc], by simp⟩
  · refine waiting.unlink (fun i _ => mproc i) (by rw [mproc, inMemory]) (by rw [mproc]) (fun i => ?_) rfl rfl
    rw [assign_swapin]
    refine ⟨fun want => ⟨fun same => ?_, want⟩, And.right⟩
    rw [same, unmarked] at want
    cases want
  · rw [mproc, assign_swapin]
    exact called i
  · rw [assign_swapin]
    exact front i member

theorem Waiting.came {newBase size : Nat} {t : State} (waiting : Waiting c m (passed ++ rmp :: rest)) (called : Called m.manager)
    (front : ∀ i ∈ passed, m.manager.swapin i = true) (brought : bringIn c rmp size newBase m.manager.state = .ok t) :
    Rounded c m
      (Manager.assign { m.manager with state := t, swapin := Function.update m.manager.swapin rmp false } passed.getLast?
        (m.manager.swapq rmp)) (.checkPending caller passed.getLast?) := by
  -- the processes that were passed stay where they are, and marked
  have notPassed (i : Nat) (member : i ∈ passed) : i ≠ rmp :=
    (List.nodup_append.mp (Chain.nodup waiting.chain)).2.2 i member rmp (by simp)
  have mproc : (Manager.assign { m.manager with state := t, swapin := Function.update m.manager.swapin rmp false }
      passed.getLast? (m.manager.swapq rmp)).mproc =
      Function.update m.manager.mproc rmp { (m.manager.mproc rmp).moveTo newBase with onswap := false } := by
    unfold Manager.mproc
    rw [assign_state]
    exact bringIn_mproc brought
  refine ⟨⟨passed ++ rest, ?_, fun i => ?_, passed, rest, rfl, rfl, fun i member => ?_⟩, fun i => ?_, by simp⟩
  · refine waiting.unlink (fun i other => ?_) ?_ ?_ (fun i => ?_) ?_ ?_
    · rw [mproc]
      exact Function.update_of_ne other _ _
    · rw [mproc, Function.update_self]
    · rw [mproc, Function.update_self]
      rfl
    · rw [assign_swapin]
      change Function.update m.manager.swapin rmp false i = true ↔ i ≠ rmp ∧ m.manager.swapin i = true
      rcases eq_or_ne i rmp with rfl | other
      · simp
      · simp [other]
    · cases passed.getLast? <;> rfl
    · cases passed.getLast? <;> rfl
  · rw [mproc, assign_swapin]
    intro reply out
    rcases eq_or_ne i rmp with rfl | other
    · rw [Function.update_self] at out
      cases out
    · rw [Function.update_of_ne other] at reply out
      exact (Function.update_of_ne other _ _).trans (called i reply out)
  · rw [assign_swapin]
    exact (Function.update_of_ne (notPassed i member) _ _).trans (front i member)
  · rw [mproc]
    rcases eq_or_ne i rmp with rfl | other
    · rw [Function.update_self]
      rfl
    · rw [Function.update_of_ne other]

theorem Waiting.round (waiting : Waiting c m (passed ++ ahead)) (called : Called m.manager)
    (front : ∀ i ∈ passed, m.manager.swapin i = true) (ran : swapInRound c passed.getLast? m.manager = .ok (ends, manager)) :
    Rounded c m manager (.behind caller passed.getLast? ends) := by
  have pointed := deref_getLast? waiting.chain
  unfold swapInRound at ran
  dsimp only at ran
  cases ahead with
  | nil =>
    -- the end of the queue
    rw [if_pos pointed.eq_nil] at ran
    cases ran
    rw [List.append_nil] at waiting
    refine ⟨⟨passed, waiting, called, ?_⟩, fun _ => rfl, rfl⟩
    cases caller with
    | none => exact ⟨front, fun i before => absurd before (Nat.not_lt_zero i)⟩
    | some caller => exact fun i member => .inl (front i member)
  | cons rmp rest =>
    have here : m.manager.deref passed.getLast? = rmp := pointed.head_eq
    rw [if_neg pointed.ne_nil, here] at ran
    cases marked : m.manager.swapin rmp with
    | false =>
      rw [marked, if_pos (by rfl)] at ran
      cases ran
      exact waiting.cleaned called front marked
    | true =>
      rw [marked, if_neg (by simp), bind_eq_ok] at ran
      obtain ⟨⟨found, s⟩, allocated, ran⟩ := ran
      have swept := allocMem_sweptOut allocated
      have after : Waiting c { m with manager := { m.manager with state := s } } (passed ++ rmp :: rest) :=
        waiting.swept swept rfl rfl
      cases found with
      | none =>
        -- no memory for this one
        cases ran
        refine ⟨⟨passed ++ rmp :: rest, after, called.swept swept, passed ++ [rmp], rest, by simp, by simp, ?_⟩,
          fun i => (swept.flags i).1, rfl⟩
        intro i member
        rcases List.mem_append.mp member with member | member
        · exact front i member
        · exact List.mem_singleton.mp member ▸ marked
      | some newBase =>
        dsimp only at ran
        rw [bind_eq_ok] at ran
        obtain ⟨t, brought, returned⟩ := ran
        cases returned
        have came : Rounded c { m with manager := { m.manager with state := s } } _ (.checkPending caller passed.getLast?) :=
          after.came (called.swept swept) front brought
        exact ⟨came.queue, fun i => (came.reply i).trans (swept.flags i).1, came.replyRes⟩

end

end SoiStud.Memory
