import SoiStud.Kernel.Clock
import SoiStud.Library.RoundRobin

/-! What a full rotation of the ready queue charges each process.

The handler resets the quantum once in every turn, before `do_clocktick` does:
only then are `bill_ptr` and `prev_ptr` equal. A turn is therefore the quantum
of the group and, on top of it, a quantum of group 1.
-/

set_option autoImplicit false

namespace SoiStud.Kernel

variable {Proc : Type} {s t u : State Proc} {h : Proc} {rest : List Proc}

namespace State

structure Running (s : State Proc) (h : Proc) (rest : List Proc) : Prop where
  queue : s.readyQueue = h :: rest
  proc : s.procPtr = h
  bill : s.billPtr = h
  lost : s.lostTicks = 0

/-- At least two user processes are ready, all of them of group 1 or 2. -/
structure ReadyUsers (s : State Proc) : Prop where
  nodup : s.readyQueue.Nodup
  two : 2 ≤ s.readyQueue.length
  groups : ∀ p ∈ s.readyQueue, s.procGrp p = 1 ∨ s.procGrp p = 2

/-- No alarm falls due within so many ticks. -/
def Quiet (s : State Proc) (n : Nat) : Prop := s.now.toInt + n < s.nextAlarm.toInt

instance (s : State Proc) (n : Nat) : Decidable (s.Quiet n) :=
  inferInstanceAs (Decidable (s.now.toInt + n < s.nextAlarm.toInt))

theorem Quiet.mono {j k : Nat} (quiet : s.Quiet k) (fewer : j ≤ k) : s.Quiet j := by
  unfold Quiet at *
  omega

theorem Quiet.toInt_now {k : Nat} (quiet : s.Quiet k) : (s.now + .ofNat k).toInt = s.now.toInt + k :=
  Library.toInt_add_ofNat (Int.lt_trans quiet s.nextAlarm.toInt_lt)

theorem Quiet.early {k : Nat} (quiet : s.Quiet k) : ¬ s.nextAlarm ≤ s.now + .ofNat k := by
  rw [Int32.not_le, Int32.lt_iff_toInt_lt, quiet.toInt_now]
  exact quiet

theorem Quiet.later {j k : Nat} (quiet : s.Quiet (j + k)) (now : t.now = s.now + .ofNat j)
    (nextAlarm : t.nextAlarm = s.nextAlarm) : t.Quiet k := by
  unfold Quiet
  rw [now, nextAlarm, (quiet.mono (Nat.le_add_right j k)).toInt_now]
  unfold Quiet at quiet
  omega

end State

structure Served [DecidableEq Proc] (s : State Proc) (h : Proc) (k : Nat) (u : State Proc) : Prop where
  queue : u.readyQueue = s.readyQueue
  groups : u.procGrp = s.procGrp
  proc : u.procPtr = s.procPtr
  bill : u.billPtr = s.billPtr
  lost : u.lostTicks = 0
  nextAlarm : u.nextAlarm = s.nextAlarm
  now : u.now = s.now + .ofNat k
  charged : u.charged = Function.update s.charged h (s.charged h + k)

section
variable [DecidableEq Proc]

theorem Served.refl (running : s.Running h rest) : Served s h 0 s where
  queue := rfl
  groups := rfl
  proc := rfl
  bill := rfl
  lost := running.lost
  nextAlarm := rfl
  now := (Int32.add_zero _).symm
  charged := (Function.update_eq_self h s.charged).symm

theorem Served.trans {j k : Nat} (first : Served s h j t) (second : Served t h k u) : Served s h (j + k) u where
  queue := second.queue.trans first.queue
  groups := second.groups.trans first.groups
  proc := second.proc.trans first.proc
  bill := second.bill.trans first.bill
  lost := second.lost
  nextAlarm := second.nextAlarm.trans first.nextAlarm
  now := by rw [second.now, first.now, Int32.add_assoc, ← Int32.ofNat_add]
  charged := by
    rw [second.charged, first.charged, Function.update_self, Function.update_idem, Nat.add_assoc]

theorem Served.running {k : Nat} (served : Served s h k t) (running : s.Running h rest) : t.Running h rest where
  queue := served.queue.trans running.queue
  proc := served.proc.trans running.proc
  bill := served.bill.trans running.bill
  lost := served.lost

def State.accounted (s : State Proc) (h : Proc) : State Proc :=
  { s with lostTicks := 0, userTime := Function.update s.userTime h (s.userTime h + 1),
           pendingTicks := s.pendingTicks + .ofNat 1 }

theorem charged_accounted : (s.accounted h).charged = Function.update s.charged h (s.charged h + 1) := by
  funext p
  by_cases same : p = h
  · subst same
    simp only [State.charged, State.accounted, Function.update_self]
    omega
  · simp only [State.charged, State.accounted, Function.update_of_ne same]

variable {m : Machine Proc}

theorem account_of_running (running : s.Running h rest) : m.account false s = s.accounted h := by
  obtain ⟨queue, proc, bill, lost⟩ := running
  cases s
  dsimp only at queue proc bill lost
  subst queue proc bill lost
  simp only [Machine.account, Bool.false_eq_true, if_false, Nat.zero_add, ne_eq, not_true_eq_false, false_and,
    State.accounted]

omit [DecidableEq Proc] in
/-- Between alarms the handler calls for the clock task when the second quantum of a turn ends. -/
theorem interrupts_of_running (running : s.Running h rest) (quiet : s.Quiet 1) :
    s.Interrupts ↔ s.schedTicks = 1 ∧ some h = s.prevPtr := by
  have early : ¬ s.nextAlarm ≤ s.now + .ofNat (s.lostTicks + 1) := by
    rw [running.lost]
    exact quiet.early
  simp only [State.Interrupts, early, running.bill, running.queue, false_or, ne_eq, reduceCtorEq, not_false_eq_true,
    and_true]

theorem clockHandler_of_running (running : s.Running h rest) (quiet : s.Quiet 1) :
    m.clockHandler false s =
      if s.schedTicks = 1 ∧ some h = s.prevPtr then (true, s.accounted h)
      else if s.schedTicks = 1
        then (false, { s.accounted h with schedTicks := m.schedRate, prevPtr := some h })
        else (false, { s.accounted h with schedTicks := s.schedTicks - 1 }) := by
  rw [clockHandler_eq, account_of_running running, running.bill]
  simp only [interrupts_of_running running quiet]

theorem tick_counts (running : s.Running h rest) (quiet : s.Quiet 1) (more : s.schedTicks ≠ 1) :
    ∃ u, m.tick s = some u ∧ Served s h 1 u ∧ u.schedTicks = s.schedTicks - 1 ∧ u.prevPtr = s.prevPtr := by
  refine ⟨{ s.accounted h with schedTicks := s.schedTicks - 1 }, ?_, ?_, rfl, rfl⟩
  · simp only [Machine.tick, clockHandler_of_running running quiet, more, false_and, if_false, Bool.false_eq_true]
  · exact ⟨rfl, rfl, rfl, rfl, rfl, rfl, (Int32.add_assoc _ _ _).symm, charged_accounted⟩

/-- The first quantum of a turn ends in the handler. -/
theorem tick_resets (running : s.Running h rest) (quiet : s.Quiet 1) (last : s.schedTicks = 1)
    (new : s.prevPtr ≠ some h) :
    ∃ u, m.tick s = some u ∧ Served s h 1 u ∧ u.schedTicks = m.schedRate ∧ u.prevPtr = some h := by
  refine ⟨{ s.accounted h with schedTicks := m.schedRate, prevPtr := some h }, ?_, ?_, rfl, rfl⟩
  · simp only [Machine.tick, clockHandler_of_running running quiet, last, Ne.symm new, and_false, if_false, if_true,
      Bool.false_eq_true]
  · exact ⟨rfl, rfl, rfl, rfl, rfl, rfl, (Int32.add_assoc _ _ _).symm, charged_accounted⟩

/-- Just after a rotation: the new head runs, for the first time since. -/
structure JustRotated (m : Machine Proc) (s : State Proc) (h : Proc) (rest : List Proc) : Prop where
  running : s.Running h rest
  schedTicks : s.schedTicks = m.quantum s h
  prevPtr : s.prevPtr ≠ some h

/-- The second quantum of a turn ends in the clock task, which rotates the queue. -/
theorem tick_rotates {next : Proc} {others : List Proc} (running : s.Running h (next :: others))
    (quiet : s.Quiet 1) (last : s.schedTicks = 1) (old : s.prevPtr = some h) (distinct : next ≠ h) :
    ∃ u, m.tick s = some u ∧ JustRotated m u next (others ++ [h]) ∧ u.procGrp = s.procGrp ∧
      u.nextAlarm = s.nextAlarm ∧ u.now = s.now + .ofNat 1 ∧ u.charged = Function.update s.charged h (s.charged h + 1) := by
  have early : ¬ s.nextAlarm ≤ s.realtime + (s.pendingTicks + .ofNat 1) := by
    rw [← Int32.add_assoc]
    exact quiet.early
  refine ⟨{ s.accounted h with
    realtime := s.realtime + (s.pendingTicks + .ofNat 1), pendingTicks := 0, readyQueue := next :: (others ++ [h]),
    schedTicks := (m.quantum s next : Nat), prevPtr := some h, procPtr := next, billPtr := next }, ?_, ?_, rfl, rfl, ?_,
    charged_accounted⟩
  · simp only [Machine.tick, clockHandler_of_running running quiet, last, old, and_self, if_true, Machine.hardInt,
      doClocktick_eq, Machine.lookForAlarms, Machine.countDown, Machine.rotated, State.accounted, early, if_false,
      running.bill, running.queue, m.lockSched_cons, List.cons_append, Option.map_some, Machine.quantum]
    rw [m.pickProc_cons _ next (others ++ [h]) rfl]
  · exact ⟨⟨rfl, rfl, rfl, rfl⟩, rfl, fun same => distinct (Option.some.inj same).symm⟩
  · simp only [State.now, Int32.add_zero, Int32.add_assoc]

/-- Whichever tick rotates the queue, it leaves the new head at the start of its quantum. -/
theorem justRotated_of_tick {next : Proc} {others : List Proc} (running : s.Running h (next :: others))
    (quiet : s.Quiet 1) (distinct : next ≠ h) (ticked : m.tick s = some t)
    (moved : t.readyQueue ≠ s.readyQueue) : JustRotated m t next (others ++ [h]) := by
  by_cases last : s.schedTicks = 1
  · by_cases old : s.prevPtr = some h
    · obtain ⟨u, again, rotated, _⟩ := tick_rotates running quiet last old distinct
      cases ticked.symm.trans again
      exact rotated
    · obtain ⟨u, again, served, _⟩ := tick_resets (m := m) running quiet last old
      cases ticked.symm.trans again
      exact absurd served.queue moved
  · obtain ⟨u, again, served, _⟩ := tick_counts (m := m) running quiet last
    cases ticked.symm.trans again
    exact absurd served.queue moved

/-! ## A turn -/

theorem Machine.run_succ (k : Nat) : m.run (k + 1) s = (m.run k s).bind m.tick := by
  rw [m.run_add k 1]
  congr 1
  funext u
  exact Option.bind_fun_some _

theorem run_counts (running : s.Running h rest) {k : Nat} (more : k < s.schedTicks)
    (quiet : s.Quiet k) :
    ∃ u, m.run k s = some u ∧ Served s h k u ∧ u.schedTicks = s.schedTicks - k ∧ u.prevPtr = s.prevPtr := by
  induction k with
  | zero => exact ⟨s, rfl, .refl running, (Int.sub_zero _).symm, rfl⟩
  | succ k ih =>
    obtain ⟨t, ran, served, left, prev⟩ := ih (by omega) (quiet.mono (Nat.le_succ k))
    have later : t.Quiet 1 := quiet.later served.now served.nextAlarm
    obtain ⟨u, ticked, once, one, same⟩ := tick_counts (m := m) (served.running running) later (by omega)
    refine ⟨u, ?_, served.trans once, ?_, same.trans prev⟩
    · rw [m.run_succ, ran, Option.bind_some, ticked]
    · rw [one, left]
      omega

/-- The ticks of a turn: the quantum of the group, and the one the handler resets it to. -/
def Machine.turnTicks (m : Machine Proc) (s : State Proc) (p : Proc) : Nat := m.quantum s p + m.schedRate

omit [DecidableEq Proc] in
theorem Machine.quantum_ne_zero (m : Machine Proc) (s : State Proc) (p : Proc) : m.quantum s p ≠ 0 := by
  have := m.schedRate_pos
  unfold quantum
  split <;> omega

/-- A turn, tick by tick: first the quantum of the group, then that of group 1. -/
theorem turn_runs {next : Proc} {others : List Proc} (rotated : JustRotated m s h (next :: others))
    (distinct : next ≠ h) (quiet : s.Quiet (m.turnTicks s h)) :
    (∀ j < m.turnTicks s h, ∃ u, m.run j s = some u ∧ Served s h j u) ∧
    ∃ t, m.run (m.turnTicks s h) s = some t ∧ JustRotated m t next (others ++ [h]) ∧ t.procGrp = s.procGrp ∧
      t.nextAlarm = s.nextAlarm ∧ t.now = s.now + .ofNat (m.turnTicks s h) ∧
      t.charged = Function.update s.charged h (s.charged h + m.turnTicks s h) := by
  obtain ⟨q, quantum⟩ := Nat.exists_eq_succ_of_ne_zero (m.quantum_ne_zero s h)
  obtain ⟨r, rate⟩ := Nat.exists_eq_succ_of_ne_zero (Nat.ne_of_gt m.schedRate_pos)
  have ticks := rotated.schedTicks
  rw [quantum] at ticks
  rw [Machine.turnTicks, quantum, rate] at quiet ⊢
  -- up to the last tick of the first quantum
  obtain ⟨a, ranA, servedA, leftA, prevA⟩ := run_counts (m := m) rotated.running (k := q) (by omega)
    (quiet.mono (by omega))
  have runningA := servedA.running rotated.running
  obtain ⟨b, tickB, onceB, leftB, prevB⟩ := tick_resets (m := m) runningA
    ((quiet.mono (show q + 1 ≤ _ by omega)).later servedA.now servedA.nextAlarm) (by omega)
    (by rw [prevA]; exact rotated.prevPtr)
  have ranB : m.run (q + 1) s = some b := by rw [m.run_succ, ranA, Option.bind_some, tickB]
  have servedB : Served s h (q + 1) b := servedA.trans onceB
  have runningB := servedB.running rotated.running
  -- the ticks of the second quantum
  have second {k : Nat} (within : k < r + 1) : ∃ u, m.run (q + 1 + k) s = some u ∧ Served s h (q + 1 + k) u ∧
      u.schedTicks = b.schedTicks - k ∧ u.prevPtr = b.prevPtr := by
    obtain ⟨u, ran, served, left, prev⟩ := run_counts (m := m) runningB (k := k) (by omega)
      ((quiet.mono (show q + 1 + k ≤ _ by omega)).later servedB.now servedB.nextAlarm)
    exact ⟨u, by rw [m.run_add, ranB, Option.bind_some, ran], servedB.trans served, left, prev⟩
  refine ⟨fun j within => ?_, ?_⟩
  · by_cases first : j ≤ q
    · obtain ⟨u, ran, served, _⟩ := run_counts (m := m) rotated.running (k := j) (by omega) (quiet.mono (by omega))
      exact ⟨u, ran, served⟩
    · obtain ⟨k, rfl⟩ := Nat.exists_eq_add_of_le (Nat.lt_of_not_le first)
      obtain ⟨u, ran, served, _⟩ := second (k := k) (by omega)
      exact ⟨u, ran, served⟩
  · obtain ⟨c, ranC, servedC, leftC, prevC⟩ := second (Nat.lt_succ_self r)
    have runningC := servedC.running rotated.running
    obtain ⟨t, tickT, rotatedT, groups, alarm, now, charged⟩ := tick_rotates (m := m) runningC
      ((quiet.mono (show q + 1 + r + 1 ≤ _ by omega)).later servedC.now servedC.nextAlarm) (by omega)
      (by rw [prevC, prevB]) distinct
    refine ⟨t, ?_, rotatedT, groups.trans servedC.groups, alarm.trans servedC.nextAlarm, ?_, ?_⟩
    · rw [show q.succ + r.succ = q + 1 + r + 1 by omega, m.run_succ, ranC, Option.bind_some, tickT]
    · rw [now, servedC.now, Int32.add_assoc, ← Int32.ofNat_add]
      congr 2
    · rw [charged, servedC.charged, Function.update_self, Function.update_idem]
      congr 1

/-! ## A rotation -/

def Turn (m : Machine Proc) (s t : State Proc) : Prop :=
  ∃ k, (∀ j < k, ∃ u, m.run j s = some u ∧ u.readyQueue = s.readyQueue) ∧ m.run k s = some t ∧
    t.readyQueue ≠ s.readyQueue

/-- Every process of the ready queue has its turn. -/
def FullRotation (m : Machine Proc) (s t : State Proc) : Prop :=
  Library.Steps (Turn m) s.readyQueue.length s t

/-- Each process of group 2 has been charged twice as many ticks as each one of group 1. -/
def Doubled (s t : State Proc) : Prop :=
  ∀ p ∈ s.readyQueue, ∀ q ∈ s.readyQueue, s.procGrp p = 2 → s.procGrp q = 1 →
    t.charged p - s.charged p = 2 * (t.charged q - s.charged q)

omit [DecidableEq Proc] in
theorem JustRotated.queue (rotated : JustRotated m s h rest) : s.readyQueue = h :: rest := rotated.running.queue

theorem Turn.unique (first : Turn m s t) (second : Turn m s u) : t = u := by
  obtain ⟨j, keepsJ, ranJ, movedJ⟩ := first
  obtain ⟨k, keepsK, ranK, movedK⟩ := second
  rcases Nat.lt_trichotomy j k with less | rfl | more
  · obtain ⟨v, ran, same⟩ := keepsK j less
    rw [ranJ] at ran
    cases ran
    exact absurd same movedJ
  · rw [ranJ] at ranK
    exact Option.some.inj ranK
  · obtain ⟨v, ran, same⟩ := keepsJ k more
    rw [ranK] at ran
    cases ran
    exact absurd same movedK

structure Rotating (m : Machine Proc) (n : Nat) (s : State Proc) : Prop where
  rotated : ∃ h rest, JustRotated m s h rest
  nodup : s.readyQueue.Nodup
  two : 2 ≤ s.readyQueue.length
  enough : n ≤ s.readyQueue.length
  quiet : s.Quiet ((s.readyQueue.take n).map (m.turnTicks s)).sum

theorem turn_of_rotating {n : Nat} (rotating : Rotating m (n + 1) s) :
    ∃ t, Turn m s t ∧ Rotating m n t ∧
      Library.Serves State.readyQueue State.charged m.turnTicks s t := by
  obtain ⟨⟨h, rest, rotated⟩, nodup, two, enough, quiet⟩ := rotating
  have front := rotated.queue
  rw [front] at nodup two enough quiet
  obtain ⟨next, others, rfl⟩ : ∃ next others, rest = next :: others := by
    cases rest with
    | nil => simp at two
    | cons next others => exact ⟨next, others, rfl⟩
  obtain ⟨absent, _⟩ := List.nodup_cons.mp nodup
  rw [List.take_succ_cons, List.map_cons, List.sum_cons] at quiet
  obtain ⟨keeps, t, ran, rotatedT, groups, alarm, now, charged⟩ := turn_runs rotated
    (fun same => absent (by simp [same])) (quiet.mono (Nat.le_add_right _ _))
  have frontT : t.readyQueue = next :: (others ++ [h]) := rotatedT.queue
  -- a quantum depends on the groups only, and a turn keeps them
  have costs : m.turnTicks t = m.turnTicks s := by
    funext p
    unfold Machine.turnTicks Machine.quantum
    rw [groups]
  have moved : t.readyQueue ≠ s.readyQueue := by
    rw [frontT, front]
    intro same
    exact absent (by simp [(List.cons.inj same).1])
  refine ⟨t, ⟨_, fun j within => ?_, ran, moved⟩, ⟨⟨_, _, rotatedT⟩, ?_, ?_, ?_, ?_⟩, fun h' rest' front' => ?_, costs⟩
  · obtain ⟨u, ran, served⟩ := keeps j within
    exact ⟨u, ran, served.queue⟩
  · rw [frontT]
    exact (List.perm_append_singleton h (next :: others)).nodup_iff.mpr nodup
  · rw [frontT]
    simp
  · rw [frontT]
    simp only [List.length_cons, List.length_append, List.length_nil] at enough ⊢
    omega
  · have kept : (next :: (others ++ [h])).take n = (next :: others).take n := by
      rw [← List.cons_append]
      exact List.take_append_of_le_length (Nat.le_of_succ_le_succ enough)
    rw [frontT, costs, kept]
    exact quiet.later now alarm
  · rw [front] at front'
    cases front'
    exact ⟨frontT, charged⟩

theorem rotation_charges (users : s.ReadyUsers) (rotated : JustRotated m s h rest)
    (noAlarm : s.Quiet (s.readyQueue.map (m.turnTicks s)).sum) :
    (∃ t, FullRotation m s t) ∧ ∀ t, FullRotation m s t → t.readyQueue = s.readyQueue ∧
      (∃ h rest, JustRotated m t h rest) ∧ ∀ p ∈ s.readyQueue, t.charged p = s.charged p + m.turnTicks s p := by
  have rotating : Rotating m s.readyQueue.length s :=
    ⟨⟨h, rest, rotated⟩, users.nodup, users.two, Nat.le_refl _, by rwa [List.take_length]⟩
  have serves (n : Nat) (s t : State Proc) (rotating : Rotating m (n + 1) s) (turn : Turn m s t) :
      Library.Serves State.readyQueue State.charged m.turnTicks s t ∧ Rotating m n t := by
    obtain ⟨u, again, left, served⟩ := turn_of_rotating rotating
    obtain rfl := turn.unique again
    exact ⟨served, left⟩
  have preserved (n : Nat) (s t : State Proc) (rotating : Rotating m (n + 1) s) (turn : Turn m s t) :
      Rotating m n t := (serves n s t rotating turn).2
  constructor
  · refine Library.Steps.exists (fun n s rotating => ?_) preserved rotating
    obtain ⟨u, turn, _⟩ := turn_of_rotating rotating
    exact ⟨u, turn⟩
  · intro t full
    obtain ⟨queue, charged⟩ := full.round serves rotating users.nodup
    exact ⟨queue, (full.invariant preserved rotating).rotated, charged⟩

omit [DecidableEq Proc] in
theorem turnTicks_of_group {p : Proc} {g : Int} (group : s.procGrp p = g) (known : g = 1 ∨ g = 2) :
    m.turnTicks s p = (if g = 2 then 3 else 2) * m.schedRate := by
  unfold Machine.turnTicks Machine.quantum
  rcases known with rfl | rfl <;> simp [group] <;> omega

/-- From any moment just after a rotation there is a full rotation, and in it the
processes of group 2 get exactly twice the ticks of those of group 1 if and only
if there are not processes of both groups: a turn is three quanta for group 2 and
two for group 1. -/
theorem doubled_iff (m : Machine Proc) (s : State Proc) (h : Proc) (rest : List Proc) (users : s.ReadyUsers)
    (rotated : JustRotated m s h rest)
    (noAlarm : s.Quiet (s.readyQueue.map (m.turnTicks s)).sum) :
    (∃ t, FullRotation m s t) ∧ ∀ t, FullRotation m s t →
      (Doubled s t ↔ ¬ ((∃ p ∈ s.readyQueue, s.procGrp p = 2) ∧ ∃ q ∈ s.readyQueue, s.procGrp q = 1)) := by
  obtain ⟨goes, charges⟩ := rotation_charges users rotated noAlarm
  refine ⟨goes, fun t full => ?_⟩
  obtain ⟨_, _, charged⟩ := charges t full
  constructor
  · rintro doubled ⟨⟨p, memberP, groupP⟩, q, memberQ, groupQ⟩
    have shares := doubled p memberP q memberQ groupP groupQ
    rw [charged p memberP, charged q memberQ, turnTicks_of_group groupP (.inr rfl),
      turnTicks_of_group groupQ (.inl rfl)] at shares
    simp only [if_true, if_false, Nat.add_sub_cancel_left, show (1 : Int) ≠ 2 by decide] at shares
    have := m.schedRate_pos
    omega
  · intro oneGroup p memberP q memberQ groupP groupQ
    exact absurd ⟨⟨p, memberP, groupP⟩, q, memberQ, groupQ⟩ oneGroup

/-! ## Two processes of different groups -/

/-- MINIX runs at 60 ticks a second; the processes are numbers here, 2 and 3 the idle and the hardware task. -/
def minix : Machine (Fin 4) where
  hz := 60
  quantum_pos := by decide
  idle := 2
  hardware := 3
  procs := [0, 1, 2, 3]
  callDog _ _ s := s
  lockUnready p s := { s with readyQueue := s.readyQueue.filter (· ≠ p) }
  lockSched
    | [] => []
    | h :: rest => rest ++ [h]
  lockSched_cons _ _ := rfl
  pickProc s :=
    match s.readyQueue with
    | [] => { s with procPtr := 2, billPtr := 2 }
    | h :: _ => { s with procPtr := h, billPtr := h }
  pickProc_cons s h rest queue := by simp [queue]

def bothGroups : State (Fin 4) where
  readyQueue := [0, 1]
  procGrp p := if p = 0 then 2 else 1
  entry _ := ⟨false, 0, 0⟩
  alarm _ := 0
  watchDog _ := none
  userTime _ := 0
  sysTime _ := 0
  procPtr := 0
  billPtr := 0
  prevPtr := some 1
  schedTicks := 12
  realtime := 0
  pendingTicks := 0
  nextAlarm := LONG_MAX
  lostTicks := 0

theorem bothGroups_users : bothGroups.ReadyUsers := ⟨by decide, by decide, by decide⟩

theorem bothGroups_rotated : JustRotated minix bothGroups 0 [1] := ⟨⟨rfl, rfl, rfl, rfl⟩, rfl, by decide⟩

theorem doubled_iff_bothGroups :
    (∃ t, FullRotation minix bothGroups t) ∧ ∀ t, FullRotation minix bothGroups t → (Doubled bothGroups t ↔
      ¬ ((∃ p ∈ bothGroups.readyQueue, bothGroups.procGrp p = 2) ∧
        ∃ q ∈ bothGroups.readyQueue, bothGroups.procGrp q = 1)) :=
  doubled_iff minix bothGroups 0 [1] bothGroups_users bothGroups_rotated (by decide)

/-- 18 ticks for the process of group 2, 12 for the one of group 1. -/
theorem not_doubled : ∃ (m : Machine (Fin 4)) (s t : State (Fin 4)) (h : Fin 4) (rest : List (Fin 4)),
    s.ReadyUsers ∧ JustRotated m s h rest ∧ s.Quiet (s.readyQueue.map (m.turnTicks s)).sum ∧
    FullRotation m s t ∧ t.charged 0 = 18 ∧ t.charged 1 = 12 ∧ ¬ Doubled s t := by
  have quiet : bothGroups.Quiet (bothGroups.readyQueue.map (minix.turnTicks bothGroups)).sum := by decide
  obtain ⟨⟨t, full⟩, charges⟩ := rotation_charges bothGroups_users bothGroups_rotated quiet
  obtain ⟨_, _, charged⟩ := charges t full
  have first : t.charged 0 = 18 := charged 0 (by decide)
  have second : t.charged 1 = 12 := charged 1 (by decide)
  refine ⟨minix, bothGroups, t, 0, [1], bothGroups_users, bothGroups_rotated, quiet, full, first, second, ?_⟩
  intro doubled
  have shares := doubled 0 (by decide) 1 (by decide) rfl rfl
  rw [first, second] at shares
  revert shares
  decide

end
end SoiStud.Kernel
