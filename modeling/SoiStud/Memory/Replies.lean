import SoiStud.Memory.Queue

/-! No reply of the memory manager gets lost.

A result that `setreply` has put down stays in the table until it is sent, unless the
process exits. A process that is owed one is in memory when the last loop of the main
loop comes to it, or it is on swap and stands in the queue of `swap_in`.
-/

set_option autoImplicit false

namespace SoiStud.Memory
open Library

/-! ## The main loop -/

/-- What a step does to the results that have been set and not been sent. -/
def owe (debts : Nat → Option Int) : Label → Nat → Option Int
  | .act (.setreply procNr result) => Function.update debts procNr (some result)
  | .act (.exit rmp) => Function.update debts rmp none
  | .sent procNr _ => Function.update debts procNr none
  | .act (.memory _) | .act (.swapInqueue _) | .act .elsewhere | .goesOn => debts

def owed (history : List Label) : Nat → Option Int := history.foldl owe fun _ => none

theorem owed_append (history : List Label) (label : Label) : owed (history ++ [label]) = owe (owed history) label := by
  simp [owed]

structure Answering (c : Constants) (m : Mm) (debts : Nat → Option Int) : Prop where
  debts : ∀ i, debts i = if (m.manager.mproc i).reply then some (m.manager.replyRes i) else none
  present : ∀ i, (m.manager.mproc i).reply = true → m.Present c i

section
variable {c : Constants} {m m' : Mm} {manager : Manager} {queue : List Nat} {debts : Nat → Option Int} {a : Act}
  {label : Label} {rmp : Nat}

theorem Answering.congr (answering : Answering c m debts) (reply : ∀ i, (m'.manager.mproc i).reply = (m.manager.mproc i).reply)
    (replyRes : m'.manager.replyRes = m.manager.replyRes) (owners : m'.owners = m.owners) : Answering c m' debts where
  debts i := by
    rw [reply, replyRes]
    exact answering.debts i
  present i set := by
    rw [reply] at set
    unfold Mm.Present
    rw [owners]
    exact answering.present i set

theorem Answering.setreply {result : Int} (answering : Answering c m debts) (present : m.Present c rmp)
    (mproc : m'.manager.mproc = Function.update m.manager.mproc rmp { m.manager.mproc rmp with reply := true })
    (replyRes : m'.manager.replyRes = Function.update m.manager.replyRes rmp result) (owners : m'.owners = m.owners) :
    Answering c m' (owe debts (.act (.setreply rmp result))) := by
  constructor <;> intro i
  · rw [mproc, replyRes]
    change Function.update debts rmp (some result) i = _
    rcases eq_or_ne i rmp with rfl | other
    · simp
    · rw [Function.update_of_ne other, Function.update_of_ne other, Function.update_of_ne other]
      exact answering.debts i
  · unfold Mm.Present
    rw [mproc, owners]
    rcases eq_or_ne i rmp with rfl | other
    · exact fun _ => present
    · rw [Function.update_of_ne other]
      exact answering.present i

theorem Answering.clear (answering : Answering c m debts) (others : ∀ i ≠ rmp, (m'.manager.mproc i).reply = (m.manager.mproc i).reply)
    (cleared : (m'.manager.mproc rmp).reply = false) (replyRes : m'.manager.replyRes = m.manager.replyRes)
    (owners : ∀ i ≠ rmp, i ∈ m.owners → i ∈ m'.owners) : Answering c m' (Function.update debts rmp none) := by
  constructor <;> intro i <;> rcases eq_or_ne i rmp with rfl | other
  · rw [Function.update_self, cleared]
    rfl
  · rw [Function.update_of_ne other, others i other, replyRes]
    exact answering.debts i
  · rw [cleared]
    intro set
    cases set
  · rw [others i other]
    exact fun set => (answering.present i set).imp_right fun owned user => owners i other (owned user)

theorem Acts.answering (acts : Acts c m a m') (waiting : Waiting c m queue) (called : Called m.manager)
    (answering : Answering c m debts) : Answering c m' (owe debts (.act a)) := by
  cases acts with
  | memory inside moves =>
    obtain ⟨swept, owners⟩ := moves.sweptOut inside
    exact answering.congr (fun i => (swept.flags i).1) rfl owners
  | setreply present ran =>
    obtain ⟨-, -, -, mproc, replyRes⟩ := waiting.setreply called ran
    exact answering.setreply present mproc replyRes rfl
  | swapInqueue out ran =>
    obtain ⟨-, -, -, state, replyRes⟩ := waiting.enqueue out ran
    exact answering.congr (fun i => congrArg Mproc.reply (congrFun (congrArg State.mproc state) i)) replyRes rfl
  | @exit rmp s _ freed =>
    have mproc : s.mproc = m.manager.state.mproc := (freeMem_kept freed).mproc_eq
    refine answering.clear (fun i other => ?_) ?_ rfl fun i other member => (List.mem_erase_of_ne other).mpr member
    · exact congrArg Mproc.reply ((Function.update_of_ne other _ _).trans (congrFun mproc i))
    · exact congrArg Mproc.reply (Function.update_self rmp _ s.mproc)
  | elsewhere outside =>
    have reply (i : Nat) : (m'.manager.mproc i).reply = (m.manager.mproc i).reply ∧
        ((m.manager.mproc i).reply = true → m'.manager.replyRes i = m.manager.replyRes i) := by
      -- only slots that nobody had get new processes, and a new process is owed nothing
      by_cases old : i ∈ m.owners
      · exact ⟨(outside.old i old).2.1, fun _ => (outside.links i (.inr old)).2⟩
      · by_cases new : i ∈ m'.owners
        · obtain ⟨turn, after, -⟩ := outside.new i new old
          have before : (m.manager.mproc i).reply = false := by
            rw [← Bool.not_eq_true]
            exact fun set => old ((answering.present i set).2 turn.1)
          exact ⟨after.trans before.symm, fun set => absurd (before.symm.trans set) (by decide)⟩
        · rw [outside.others i new]
          exact ⟨rfl, fun _ => (outside.links i (.inl new)).2⟩
    constructor <;> intro i
    · rw [(reply i).1]
      refine (answering.debts i).trans ?_
      cases set : (m.manager.mproc i).reply with
      | false => rfl
      | true => simp [(reply i).2 set]
    · rw [(reply i).1]
      exact fun set => (answering.present i set).imp_right fun owned user => (outside.old i (owned user)).1

theorem removeSwapHoles_kept {fuel hp : Nat} {prev : Option Nat} {s s' : State}
    (ran : removeSwapHoles c fuel hp prev s = .ok s') : Kept s s' := by
  induction fuel generalizing hp prev s with
  | zero => cases ran
  | succ fuel ih =>
    rw [removeSwapHoles, bind_eq_ok] at ran
    obtain ⟨found, -, ran⟩ := ran
    dsimp only at ran
    split at ran
    · cases ran
      exact .refl _
    · rw [bind_eq_ok] at ran
      obtain ⟨t, deleted, ran⟩ := ran
      split at ran
      · cases ran
      · exact ((delSlot_stays _ _ s).kept deleted).trans (ih ran)

theorem swapOffEnd_mproc {r : SwapOff} {s s' : State} (ran : swapOffEnd c s = .ok (r, s')) : s'.mproc = s.mproc := by
  unfold swapOffEnd at ran
  split at ran
  · cases ran
    rfl
  · obtain ⟨t, removed, returned⟩ := bind_eq_ok.mp ran
    cases returned
    exact (removeSwapHoles_kept removed).mproc_eq

theorem sendReply_eq (procNr : Nat) (manager : Manager) :
    (sendReply procNr manager = (none, manager) ∧
      ((manager.mproc procNr).reply = true → (manager.mproc procNr).onswap = true)) ∨
    (manager.mproc procNr).reply = true ∧ (manager.mproc procNr).onswap = false ∧
      sendReply procNr manager = (some (manager.replyRes procNr),
        { manager with state := manager.state.putProc procNr { manager.mproc procNr with reply := false } }) := by
  unfold sendReply
  cases reply : (manager.mproc procNr).reply <;> cases out : (manager.mproc procNr).onswap <;> simp

structure Running (c : Constants) (m : Mm) (debts : Nat → Option Int) : Prop where
  queue : ∃ queue, Waiting c m queue ∧ Called m.manager ∧ Stage c m.manager queue m.control
  answering : Answering c m debts

theorem Waiting.anywhere (waiting : Waiting c m queue) (control : Control) :
    Waiting c { m with control := control } queue := waiting.congr rfl rfl rfl rfl fun _ => ⟨rfl, rfl⟩

theorem Answering.anywhere (answering : Answering c m debts) (control : Control) :
    Answering c { m with control := control } debts := answering.congr (fun _ => rfl) rfl rfl

theorem Running.act {who : Int} {freed : List Nat} (running : Running c m debts) (place : m.control = .call who freed)
    (acts : Acts c m a m') (fresh : ∀ i ∈ m'.owners, i ∉ m.owners → i ∉ freed) :
    Running c { m' with control := .call who (a.frees ++ freed) } (owe debts (.act a)) := by
  obtain ⟨⟨queue, waiting, called, stage⟩, answering⟩ := running
  rw [place] at stage
  have unlinked (i : Nat) (new : i ∈ m'.owners) (was : i ∉ m.owners) : i ∉ queue := by
    intro member
    rcases stage i member with marked | free
    · exact was (waiting.owned i (waiting.marked i marked).2)
    · exact fresh i new was free
  obtain ⟨more, joins, called'⟩ := acts.joins waiting called unlinked
  refine ⟨⟨queue ++ more, joins.waiting.anywhere _, called', fun i member => ?_⟩,
    (acts.answering waiting called answering).anywhere _⟩
  rcases List.mem_append.mp member with old | new
  · rcases stage i old with marked | free
    · by_cases leaves : i ∈ a.frees
      · exact .inr (List.mem_append_left _ leaves)
      · exact .inl (joins.keeps i marked leaves)
    · exact .inr (List.mem_append_right _ free)
  · exact .inl (joins.marked i new)

theorem Running.pending {caller : Option (Int × List Nat)} {pmp : Option Nat} (running : Running c m debts)
    (place : m.control = .checkPending caller pmp) (acts : Acts c m a m') (fresh : ∀ i ∈ m'.owners, i ∈ m.owners)
    (inMemory : ∀ i ∈ a.frees, (m.manager.mproc i).onswap = false) : Running c m' (owe debts (.act a)) := by
  obtain ⟨⟨queue, waiting, called, stage⟩, answering⟩ := running
  rw [place] at stage
  obtain ⟨passed, ahead, rfl, at_, front⟩ := stage
  obtain ⟨more, joins, called'⟩ := acts.joins waiting called fun i new was => absurd (fresh i new) was
  refine ⟨⟨(passed ++ ahead) ++ more, joins.waiting, called', ?_⟩, acts.answering waiting called answering⟩
  rw [joins.control, place]
  refine ⟨passed, ahead ++ more, by rw [List.append_assoc], at_, fun i member => ?_⟩
  have marked := front i member
  refine joins.keeps i marked fun leaves => ?_
  have out := (waiting.marked i marked).2
  rw [inMemory i leaves] at out
  cases out

theorem Running.replies {procNr : Nat} {out : Option Int} (running : Running c m debts) (place : m.control = .reply procNr)
    (ran : sendReply procNr m.manager = (out, manager)) :
    Running c { m with manager := manager, control := .reply (procNr + 1) }
      (if out.isSome then Function.update debts procNr none else debts) ∧ (out.isSome → out = debts procNr) := by
  obtain ⟨⟨queue, waiting, called, stage⟩, answering⟩ := running
  rw [place] at stage
  obtain ⟨clean, behind⟩ := stage
  -- the slot is owed nothing or is on swap; or the reply is sent
  rcases sendReply_eq procNr m.manager with ⟨none_, kept⟩ | ⟨reply, inMemory, sent⟩
  · rw [none_] at ran
    cases ran
    refine ⟨⟨⟨queue, waiting.anywhere _, called, clean, fun i before => ?_⟩, answering.anywhere _⟩, by simp⟩
    rcases Nat.lt_succ_iff_lt_or_eq.mp before with before | rfl
    · exact behind i before
    · exact kept
  · rw [sent] at ran
    cases ran
    let p : Mproc := { m.manager.mproc procNr with reply := false }
    have self : (m.manager.state.putProc procNr p).mproc procNr = p := Function.update_self _ _ _
    have others (i : Nat) (other : i ≠ procNr) : (m.manager.state.putProc procNr p).mproc i = m.manager.mproc i :=
      Function.update_of_ne other _ _
    have flags (i : Nat) : ((m.manager.state.putProc procNr p).mproc i).onswap = (m.manager.mproc i).onswap ∧
        ((m.manager.state.putProc procNr p).mproc i).blocked = (m.manager.mproc i).blocked := by
      rcases eq_or_ne i procNr with rfl | other
      · rw [self]
        exact ⟨rfl, rfl⟩
      · rw [others i other]
        exact ⟨rfl, rfl⟩
    have set (i : Nat) (reply : ((m.manager.state.putProc procNr p).mproc i).reply = true) :
        i ≠ procNr ∧ (m.manager.mproc i).reply = true := by
      rcases eq_or_ne i procNr with rfl | other
      · rw [self] at reply
        cases reply
      · rw [others i other] at reply
        exact ⟨other, reply⟩
    refine ⟨⟨⟨queue, waiting.congr rfl rfl rfl rfl flags, fun i reply out => ?_, clean, fun i before reply => ?_⟩, ?_⟩, ?_⟩
    · exact called i (set i reply).2 ((flags i).1 ▸ out)
    · obtain ⟨other, reply⟩ := set i reply
      have earlier : i < procNr := Nat.lt_of_le_of_ne (Nat.le_of_lt_succ before) other
      exact (flags i).1.trans (behind i earlier reply)
    · refine answering.clear (fun i other => ?_) ?_ rfl fun _ _ member => member
      · exact congrArg Mproc.reply (others i other)
      · exact congrArg Mproc.reply self
    · intro _
      rw [answering.debts, reply]
      rfl

theorem Running.step (running : Running c m debts) (steps : Steps c m label m') : Running c m' (owe debts label) := by
  cases steps with
  | act place acts fresh => exact running.act place acts fresh
  | pending place acts fresh inMemory => exact running.pending place acts fresh inMemory
  | sends place _ ran => exact (running.replies place ran).1
  | passes place _ ran => exact (running.replies place ran).1
  | getWork who place =>
    obtain ⟨⟨queue, waiting, called, stage⟩, answering⟩ := running
    rw [place] at stage
    exact ⟨⟨queue, waiting.anywhere _, called, fun i member => .inl (stage.1 i member)⟩, answering.anywhere _⟩
  | swapOff place _ ran =>
    obtain ⟨⟨queue, waiting, called, stage⟩, answering⟩ := running
    obtain ⟨more, joins, state, replyRes⟩ := waiting.queueAll c.users ran
    refine ⟨⟨queue ++ more, joins.waiting.anywhere _, joins.called state called, [], queue ++ more, rfl, rfl, by simp⟩, ?_⟩
    exact answering.congr (fun i => congrArg Mproc.reply (congrFun (congrArg State.mproc state) i)) replyRes rfl
  | @swapOffEnd who freed r s place ran =>
    obtain ⟨⟨queue, waiting, called, stage⟩, answering⟩ := running
    rw [place] at stage
    have same : s.mproc = m.manager.state.mproc := swapOffEnd_mproc ran
    have swept : SweptOut m.manager.state s := .of_mproc same
    refine ⟨⟨queue, waiting.swept swept rfl rfl, called.swept swept, stage⟩, ?_⟩
    exact answering.congr (fun i => (swept.flags i).1) rfl rfl
  | result place present ran =>
    obtain ⟨⟨queue, waiting, called, stage⟩, answering⟩ := running
    obtain ⟨more, joins, called', mproc, replyRes⟩ := waiting.setreply called ran
    exact ⟨⟨queue ++ more, joins.waiting.anywhere _, called', [], queue ++ more, rfl, rfl, by simp⟩,
      answering.setreply present mproc replyRes rfl⟩
  | noMessage place =>
    obtain ⟨⟨queue, waiting, called, stage⟩, answering⟩ := running
    exact ⟨⟨queue, waiting.anywhere _, called, [], queue, rfl, rfl, by simp⟩, answering.anywhere _⟩
  | @round caller pmp ends manager place ran =>
    obtain ⟨⟨queue, waiting, called, stage⟩, answering⟩ := running
    rw [place] at stage
    obtain ⟨passed, ahead, rfl, rfl, front⟩ := stage
    have rounded : Rounded c m manager (.behind caller passed.getLast? ends) := waiting.round called front ran
    obtain ⟨⟨queue', waiting', called', stage'⟩, reply, replyRes⟩ := rounded
    exact ⟨⟨queue', waiting'.anywhere _, called', stage'⟩, answering.congr reply replyRes rfl⟩
  | checked place =>
    obtain ⟨⟨queue, waiting, called, stage⟩, answering⟩ := running
    rw [place] at stage
    exact ⟨⟨queue, waiting.anywhere _, called, stage⟩, answering.anywhere _⟩
  | allSent place =>
    obtain ⟨⟨queue, waiting, called, stage⟩, answering⟩ := running
    rw [place] at stage
    exact ⟨⟨queue, waiting.anywhere _, called, stage⟩, answering.anywhere _⟩

theorem addChunks_mproc {replies : List SysMem} {total free : Nat} {s s' : State} {out : Nat × Nat}
    (ran : addChunks c replies total free s = .ok (s', out)) : s'.mproc = s.mproc := by
  induction replies generalizing total free s with
  | nil =>
    cases ran
    rfl
  | cons mess rest ih =>
    rw [addChunks] at ran
    split at ran
    · cases ran
      rfl
    · obtain ⟨t, freed, ran⟩ := bind_eq_ok.mp ran
      refine (ih ran).trans ?_
      rw [← (freeMem_kept freed).mproc_eq]
      split <;> rfl

theorem memInit_mproc {replies : List SysMem} {total : Nat} {mproc : Nat → Mproc} {s : State} {out : Nat × Nat}
    (ran : memInit c replies total (static c mproc) = .ok (s, out)) : s.mproc = mproc := by
  rw [memInit, bind_eq_ok] at ran
  obtain ⟨⟨t, later⟩, added, returned⟩ := ran
  cases returned
  exact addChunks_mproc added

theorem running_init (initial : (mm c).init m) : Running c m fun _ => none := by
  obtain ⟨mproc, replies, last, total, out, -, -, ran, idle, nodup, turn, -, -, -, -, swapin, inQueue, control⟩ := initial
  have same (i : Nat) : m.manager.mproc i = (mproc i).exited := (congrFun (memInit_mproc ran) i).trans (idle i)
  have reply (i : Nat) : (m.manager.mproc i).reply = false := by
    rw [same]
    rfl
  have onswap (i : Nat) : (m.manager.mproc i).onswap = false := by
    rw [same]
    rfl
  refine ⟨⟨[], ⟨?_, by simp, nodup, turn, by simp [swapin], by simp [onswap], fun i _ => ?_, by simp⟩, by simp [Called, reply],
    ?_⟩, fun i => by simp [reply], by simp [reply]⟩
  · unfold Manager.Queue
    rw [inQueue]
    exact .stop
  · rw [same]
    rfl
  · rw [control]
    exact ⟨by simp, by simp [reply]⟩

end

/-- The replies in a run: what has been set and not been sent is in the table, a reply that is sent is the
last one that was set and has not been sent before, and whenever the memory manager waits for work,
exactly the processes that are marked are in the queue, with everyone who is still owed a reply. -/
structure Answered (c : Constants) (history : List Label) (m : Mm) : Prop where
  debts : ∀ i, owed history i = if (m.manager.mproc i).reply then some (m.manager.replyRes i) else none
  sent : ∀ before i result after, history = before ++ .sent i result :: after → owed before i = some result
  queued : m.control = .getWork → ∃ queue, Chain m.manager.swapq c.null m.manager.inQueue queue ∧
    (∀ i, i ∈ queue ↔ m.manager.swapin i = true) ∧
    ∀ i result, owed history i = some result → (m.manager.mproc i).onswap = true ∧ i ∈ queue

section
variable {c : Constants} {m m' : Mm} {history : List Label} {label : Label}

theorem running_of_run (run : (mm c).Run history m) : Running c m (owed history) := by
  refine run.induction_on (P := fun history m => Running c m (owed history)) (fun _ => running_init) ?_
  intro history m label m' _ running steps
  rw [owed_append]
  exact running.step steps

theorem owed_of_sent {i : Nat} {result : Int} (running : Running c m (owed history))
    (steps : Steps c m (.sent i result) m') : owed history i = some result := by
  cases steps with
  | sends place _ ran => exact ((running.replies place ran).2 rfl).symm

theorem sent_of_run (run : (mm c).Run history m) (before : List Label) (i : Nat) (result : Int) (after : List Label)
    (whole : history = before ++ .sent i result :: after) : owed before i = some result := by
  refine run.each (P := fun before label => ∀ i result, label = .sent i result → owed before i = some result) ?_ _ _ _ whole
    i result rfl
  rintro history m _ m' run steps i result rfl
  exact owed_of_sent (running_of_run run) steps

theorem replies_answered (run : (mm c).Run history m) : Answered c history m := by
  obtain ⟨⟨queue, waiting, called, stage⟩, answering⟩ := running_of_run run
  refine ⟨answering.debts, sent_of_run run, fun place => ?_⟩
  rw [place] at stage
  refine ⟨queue, waiting.chain, fun i => ⟨stage.1 i, fun marked => (waiting.marked i marked).1⟩, fun i result debt => ?_⟩
  rw [answering.debts] at debt
  cases set : (m.manager.mproc i).reply with
  | false => simp [set] at debt
  | true =>
    have out := stage.2 i (answering.present i set).1 set
    exact ⟨out, (waiting.marked i (called i set out)).1⟩

end

theorem Elsewhere.putProc {c : Constants} {m : Mm} {rmp : Nat} {p : Mproc} (nodup : m.owners.Nodup) (member : rmp ∈ m.owners)
    (reply : p.reply = (m.manager.mproc rmp).reply) (onswap : p.onswap = (m.manager.mproc rmp).onswap)
    (image : p.image = (m.manager.mproc rmp).image) :
    Elsewhere c m { m with manager := { m.manager with state := m.manager.state.putProc rmp p } } := by
  refine ⟨rfl, ⟨rfl, rfl, rfl, rfl⟩, nodup, fun x => ?_, fun i old => ⟨old, ?_⟩, fun i new old => absurd new old,
    fun _ _ => ⟨rfl, rfl⟩, fun i stranger => ?_⟩
  · change tally x (m.others ++ images m.owners (Function.update m.manager.state.mproc rmp p)) = _
    have same : p.image = (m.manager.state.mproc rmp).image := image
    rw [images_update_same same]
    rfl
  · change (Function.update m.manager.mproc rmp p i).reply = _ ∧ (Function.update m.manager.mproc rmp p i).onswap = _ ∧
      (_ → (Function.update m.manager.mproc rmp p i).image = _)
    rcases eq_or_ne i rmp with rfl | other
    · rw [Function.update_self]
      exact ⟨reply, onswap, fun _ => image⟩
    · rw [Function.update_of_ne other]
      exact ⟨rfl, rfl, fun _ => rfl⟩
  · have other : i ≠ rmp := by
      intro same
      exact stranger (same ▸ member)
    exact Function.update_of_ne other _ _

def sleeper (rmp : Nat) : Mproc := if rmp = 0 then { idle with d := ⟨0, 0, 4⟩, s := ⟨4, 0, 0⟩ } else idle

/-- The process waits and is swapped out for the second of two blocks; then a reply is set for it, but
there is no memory to bring it in. -/
def smallNight : Except Fault ((State × Nat × Nat) × (SwapOn × State) × (Option Nat × State) × (Option Nat × State) ×
    Manager × (SwapIn × Manager) × SwapIn × Manager) := do
  let booted ← memInit small ([⟨10, 5, 15⟩] ++ [⟨0, 0, 15⟩]) 0 (static small sleeper)
  let on ← swapOn small (.ok 3) 0 8 booted.1
  let first ← allocMem small 5 (on.2.putProc 0 { on.2.mproc 0 with waiting := true })
  let second ← allocMem small 4 first.2
  let noted ← setreply small 0 7 ⟨second.2, fun _ => false, fun _ => 2, fun _ => 0, 2⟩
  let round ← swapInRound small none noted
  let last ← swapInRound small (some 0) round.2
  .ok (booted, on, first, second, noted, round, last)

def firstFits (c : Constants) (boot : List Extent) : System Mm Label where
  init m := (mm c).init m ∧ m.given = boot
  step m label m' := Steps c m label m' ∧ m.manager.state.worstFitFlag = 0

theorem run_of_firstFits {c : Constants} {boot : List Extent} {history : List Label} {m : Mm}
    (run : (firstFits c boot).Run history m) : (mm c).Run history m := by
  induction run with
  | start initial => exact .start initial.1
  | next _ steps ih => exact ih.next steps.1

theorem smallStart {s : State} {out : Nat × Nat} (base : s.swapBase = 16)
    (boot : memInit small ([⟨10, 5, 15⟩] ++ [⟨0, 0, 15⟩]) 0 (static small sleeper) = .ok (s, out)) :
    (firstFits small [⟨0, 4⟩, ⟨10, 5⟩]).Run [] ⟨⟨s, fun _ => false, fun _ => 2, fun _ => 0, 2⟩, [], [0], [⟨0, 4⟩, ⟨10, 5⟩],
      .getWork⟩ := by
  have turn : ∀ i ∈ [0], InTurn small i := by
    unfold InTurn
    decide
  have apart : (images [0] sleeper ++ chunks [⟨10, 5, 15⟩]).Pairwise fun e f => e.top ≤ f.base ∨ f.top ≤ e.base := by
    decide
  have below : ∀ e ∈ images [0] sleeper ++ chunks [⟨10, 5, 15⟩], e.top < s.swapBase := by
    rw [base]
    decide
  refine .start ⟨⟨sleeper, [⟨10, 5, 15⟩], ⟨0, 0, 15⟩, 0, out, by unfold Described; decide, rfl, boot, fun i => ?_,
    List.nodup_singleton 0, turn, apart, below, rfl, rfl, fun _ => rfl, rfl, rfl⟩, rfl⟩
  unfold sleeper
  split <;> rfl

theorem small_owned {s : State} (idle : (s.mproc 1).candidate = false) : Owned small [0] s := by
  intro i turn candidate
  have two : i < 2 := turn.2
  rcases Nat.lt_succ_iff_lt_or_eq.mp two with zero | rfl
  · exact List.mem_singleton.mpr (Nat.lt_one_iff.mp zero)
  · rw [idle] at candidate
    cases candidate

theorem smallNight_run : ∃ history m, (firstFits small [⟨0, 4⟩, ⟨10, 5⟩]).Run history m ∧ m.control = .getWork ∧
    owed history 0 = some 7 ∧ (m.manager.mproc 0).onswap = true ∧ m.owners = [0] := by
  have played : smallNight.toOption.any (fun night => night.1.1.swapBase = 16 ∧ night.2.2.1.1 = some 10 ∧
      night.2.2.2.1.1 = some 0 ∧ (night.2.1.2.mproc 1).candidate = false ∧ (night.2.2.1.2.mproc 1).candidate = false ∧
      night.2.2.2.2.2.1.1 = .next (some 0) ∧ night.2.2.2.2.2.2.1 = .ended ∧
      (night.2.2.2.2.2.2.2.mproc 0).onswap = true ∧ (night.2.2.2.2.2.2.2.mproc 1).reply = false ∧
      night.1.1.worstFitFlag = 0 ∧ night.2.1.2.worstFitFlag = 0 ∧ night.2.2.1.2.worstFitFlag = 0 ∧
      night.2.2.2.1.2.worstFitFlag = 0 ∧ night.2.2.2.2.1.state.worstFitFlag = 0 ∧
      night.2.2.2.2.2.1.2.state.worstFitFlag = 0 ∧ night.2.2.2.2.2.2.2.state.worstFitFlag = 0) = true := by
    decide +kernel
  cases run : smallNight with
  | error e =>
    rw [run] at played
    cases played
  | ok night =>
    obtain ⟨⟨s₁, out⟩, ⟨r, s₂⟩, ⟨found₁, s₃⟩, ⟨found₂, s₄⟩, noted, ⟨ends₁, m₁⟩, ends₂, m₂⟩ := night
    rw [run] at played
    simp only [Except.toOption, Option.any_some, decide_eq_true_eq] at played
    obtain ⟨base, rfl, rfl, idle₂, idle₃, rfl, rfl, asleep, quiet, f₁, f₂, f₃, f₄, f₅, f₆, f₇⟩ := played
    simp only [smallNight, bind_eq_ok] at run
    obtain ⟨booted, boot, on, turnedOn, first, took₁, second, took₂, noted', noting, round, looked, last, ended, same⟩ := run
    cases same
    have start := smallStart base boot
    have on := (start.next ⟨Steps.getWork 1 rfl, f₁⟩).next ⟨Steps.act (a := .memory (.swapOn (.ok 3) 0 8)) rfl
      (.memory (by simp) (.swapOn turnedOn)) (by exact fun i new old => absurd new old), f₁⟩
    have waits := on.next ⟨Steps.act (a := .elsewhere) rfl
      (.elsewhere (.putProc (p := { s₂.mproc 0 with waiting := true }) (List.nodup_singleton 0) (List.mem_singleton_self 0)
        rfl rfl rfl)) (by exact fun i new old => absurd new old), f₂⟩
    have first := waits.next ⟨Steps.act (a := .memory (.allocMem 5 (some 10))) rfl
      (.memory (by simp) (.allocMem (small_owned idle₂) took₁)) (by exact fun i new old => absurd new old), f₂⟩
    have second := first.next ⟨Steps.act (a := .memory (.allocMem 4 (some 0))) rfl
      (.memory (by simp) (.allocMem (small_owned idle₃) took₂)) (by exact fun i new old => absurd new old), f₃⟩
    have present : 0 < small.nrProcs ∧ (small.lowUser ≤ 0 → 0 ∈ [0]) := by decide
    have noted := second.next ⟨Steps.act (a := .setreply 0 7) rfl (.setreply present noting)
      (by exact fun i new old => absurd new old), f₄⟩
    have looked := ((noted.next ⟨Steps.noMessage rfl, f₅⟩).next ⟨Steps.round rfl looked, f₅⟩).next ⟨Steps.round rfl ended, f₆⟩
    have kept : sendReply 0 m₂ = (none, m₂) := by simp [sendReply, asleep]
    have none_ : sendReply 1 m₂ = (none, m₂) := by simp [sendReply, quiet]
    have final := ((looked.next ⟨Steps.passes rfl (by decide) kept, f₇⟩).next ⟨Steps.passes rfl (by decide) none_, f₇⟩).next
      ⟨Steps.allSent rfl, f₇⟩
    exact ⟨_, _, final, rfl, rfl, asleep, rfl⟩

theorem replies_answered_smallNight : ∃ history m, (mm small).Run history m ∧ m.control = .getWork ∧
    owed history 0 = some 7 ∧ Answered small history m := by
  obtain ⟨history, m, run, place, debt, -⟩ := smallNight_run
  have plain := run_of_firstFits run
  exact ⟨history, m, plain, place, debt, replies_answered plain⟩

end SoiStud.Memory
