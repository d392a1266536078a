import Mathlib.Logic.Basic
import SoiStud.Kernel.Alarms

/-! The alarm clock that the tasks follow.

An alarm clock is told when an alarm is set or goes with its process, and when a child gets
that of its parent. At each look it lets those ring that have been reached.
-/

set_option autoImplicit false

namespace SoiStud.Kernel.Alarms

open Library

/-! ## An alarm clock -/

/-- The ticks so far, and those before the last look; the alarms that are set, and the one that rings;
which of them are synchronous, and the processes that are owed a message; the second in which the clock began. -/
structure Book (Proc : Type) where
  elapsed : Nat
  looked : Nat
  deadline : Proc → Int32
  /-- It came in the middle of a look, which may have been past it. -/
  astray : Proc → Bool
  rung : Option Proc
  synchronous : Proc → Bool
  owed : Proc → Bool
  boot : Int32

section
variable {Proc : Type} [DecidableEq Proc]

namespace Book

def blank : Book Proc := ⟨0, 0, fun _ => 0, fun _ => false, none, fun _ => false, fun _ => false, 0⟩

variable (hz : Nat) (b : Book Proc)

/-- An alarm is set for so many ticks from now, or turned off. -/
def set (p : Proc) (deltaTicks : Int32) (synchronous : Bool) : Book Proc :=
  { b with
    deadline := Function.update b.deadline p (if deltaTicks = 0 then 0 else .ofNat b.elapsed + deltaTicks)
    astray := Function.update b.astray p false
    synchronous := Function.update b.synchronous p synchronous }

def turnOff (p : Proc) : Book Proc := { b with deadline := Function.update b.deadline p 0 }

def fork (parent child : Proc) (waits : Bool) : Book Proc :=
  { b with
    deadline := Function.update b.deadline child (b.deadline parent)
    astray := Function.update b.astray child (b.astray parent || !waits) }

def enter : Label Proc → Book Proc
  | .clockHandler ticks _ => { b with elapsed := b.elapsed + ticks }
  | .hardInt => { b with looked := b.elapsed }
  | .ring p => { b with rung := some p, owed := Function.update b.owed p (b.synchronous p || b.owed p) }
  | .turnOff p => { b.turnOff p with rung := none }
  | .setAlarm p deltaTicks _ _ => b.set p deltaTicks false
  | .setSynAlarm p deltaTicks _ => b.set p deltaTicks true
  | .setTime newTime => { b with boot := newTime - .ofNat b.elapsed / .ofNat hz }
  | .exit p => b.turnOff p
  | .fork parent child waits => b.fork parent child waits
  | .syn (some p) => { b with owed := Function.update b.owed p false }
  | .syn none | .reset | .look | .countDown | .lockSched | .reload | .nullRead | .record | .search | .reply
  | .getUptime _ | .getTime _ | .elsewhere => b

/-- No alarm rings before its time, and at the end of a look none is left that has been reached. -/
def Allows : Label Proc → Prop
  | .ring p => b.rung = none ∧ b.deadline p ≠ 0 ∧ b.deadline p ≤ .ofNat b.looked
  | .turnOff p => b.rung = some p
  | .countDown => ∀ p, b.deadline p ≠ 0 → b.astray p = false → .ofNat b.looked < b.deadline p
  | .setAlarm p _ _ left | .setSynAlarm p _ left => left = secondsLeft hz (b.deadline p) (.ofNat b.elapsed)
  | .getUptime uptime => uptime = .ofNat b.elapsed
  | .getTime time => time = b.boot + .ofNat b.elapsed / .ofNat hz
  | .syn (some p) => b.owed p = true
  | .syn none | .clockHandler _ _ | .hardInt | .reset | .look | .lockSched | .reload | .nullRead | .record | .search
  | .reply | .setTime _ | .exit _ | .fork _ _ _ | .elsewhere => True

end Book

def alarmClock (hz : Nat) : System (Book Proc) (Label Proc) where
  init b := b = .blank
  step b label b' := b.Allows hz label ∧ b' = b.enter hz label

/-! ## The tasks follow it -/

def Place.ringing : Place Proc → Option Proc
  | .sends rp _ | .rang rp _ => some rp
  | .receive | .alarmed | .looks _ | .expired | .reads | .reloaded | .recorded | .searches _ => none

def Book.Next (b : Book Proc) (clock : State Proc) (p : Proc) : Prop :=
  b.deadline p ≠ 0 → b.astray p = false → clock.nextAlarm ≤ b.deadline p

def Book.Behind (b : Book Proc) (clock : State Proc) (p : Proc) : Prop :=
  b.deadline p ≠ 0 → b.astray p = false → .ofNat b.looked < b.deadline p ∧ clock.nextAlarm ≤ b.deadline p

def Looked (b : Book Proc) (clock : State Proc) : Place Proc → Prop
  | .receive | .expired | .reads | .reloaded => ∀ p, b.Next clock p
  | .alarmed => clock.realtime = .ofNat b.looked
  | .looks rest => clock.realtime = .ofNat b.looked ∧ ∀ p ∉ rest, b.Behind clock p
  | .sends rp rest | .rang rp rest => clock.realtime = .ofNat b.looked ∧ ∀ p ∉ rest, p ≠ rp → b.Behind clock p
  | .recorded => True
  | .searches rest => ∀ p ∉ rest, b.Next clock p

/-- `syn_al_alive`; and nothing is left to do for a task that sleeps. -/
def Awake (s : Tasks Proc) : SynPlace Proc → Prop
  | .starts => s.synAlAlive = true ∧ (∀ p, s.synTable p = false) ∧ ∀ p, s.clock.watchDog p ≠ some .causeAlarm
  | .sends _ => s.synAlAlive = true
  | .received => s.synAlAlive = false
  | .receives => s.synAlAlive = false ∧ (∀ p, s.synTable p = false) ∧ ∀ rp rest, s.place ≠ .sends rp rest

structure Kept (b : Book Proc) (s : Tasks Proc) : Prop where
  now : s.clock.now = .ofNat b.elapsed
  alarm : s.clock.alarm = b.deadline
  rung : b.rung = s.place.ringing
  synchronous : ∀ p, b.synchronous p = true ↔ s.clock.watchDog p = some .causeAlarm
  boot : s.bootTime = b.boot
  owed : b.owed = s.synTable
  looked : Looked b s.clock s.place
  awake : Awake s s.syn

variable {k : Host Proc} {b b' : Book Proc} {s t : Tasks Proc} {c : State Proc} {p rp : Proc} {rest : List Proc}
  {place : Place Proc}

theorem clockHandler_clock {m : Machine Proc} {reentered called : Bool} {s c : State Proc}
    (ran : m.clockHandler reentered s = (called, c)) :
    c.alarm = s.alarm ∧ c.watchDog = s.watchDog ∧ c.realtime = s.realtime ∧ c.nextAlarm = s.nextAlarm ∧
      c.pendingTicks = s.pendingTicks + .ofNat (s.lostTicks + 1) := by
  have accounts : (m.account reentered s).alarm = s.alarm ∧ (m.account reentered s).watchDog = s.watchDog ∧
      (m.account reentered s).realtime = s.realtime ∧ (m.account reentered s).nextAlarm = s.nextAlarm ∧
      (m.account reentered s).pendingTicks = s.pendingTicks + .ofNat (s.lostTicks + 1) := by
    unfold Machine.account
    dsimp only
    generalize (if reentered then m.hardware else s.procPtr) = rp
    by_cases billed : rp ≠ s.billPtr ∧ rp ≠ m.idle
    · simp only [if_pos billed, and_self]
    · simp only [if_neg billed, and_self]
  rw [clockHandler_eq] at ran
  split at ran
  · cases ran
    exact accounts
  · split at ran <;> cases ran <;> exact accounts

omit [DecidableEq Proc] in
theorem Awake.keeps (awake : Awake s s.syn) (syn : t.syn = s.syn) (alive : t.synAlAlive = s.synAlAlive)
    (table : t.synTable = s.synTable) (place : ∀ rp rest, t.place = .sends rp rest → s.place = .sends rp rest)
    (watchDog : s.syn = .starts → ∀ p, t.clock.watchDog p = some .causeAlarm → s.clock.watchDog p = some .causeAlarm) :
    Awake t t.syn := by
  rw [syn]
  cases at_ : s.syn with
  | starts =>
    rw [at_] at awake
    obtain ⟨awake, empty, unset⟩ := awake
    exact ⟨alive.trans awake, table ▸ empty, fun p set => unset p (watchDog at_ p set)⟩
  | sends rest =>
    rw [at_] at awake
    exact alive.trans awake
  | receives =>
    rw [at_] at awake
    obtain ⟨asleep, empty, free⟩ := awake
    exact ⟨alive.trans asleep, table ▸ empty, fun rp rest blocked => free rp rest (place rp rest blocked)⟩
  | received =>
    rw [at_] at awake
    exact alive.trans awake

omit [DecidableEq Proc] in
theorem Looked.keeps (looked : Looked b s.clock place) (realtime : c.realtime = s.clock.realtime)
    (nextAlarm : c.nextAlarm = s.clock.nextAlarm) : Looked b c place := by
  cases place <;> simp only [Looked, Book.Next, Book.Behind, realtime, nextAlarm] at looked ⊢ <;> exact looked

omit [DecidableEq Proc] in
theorem Looked.fewer (looked : Looked b c place) (same : b'.looked = b.looked)
    (fewer : ∀ p, b'.deadline p ≠ 0 → b'.astray p = false → b.deadline p = b'.deadline p ∧ b.astray p = false) :
    Looked b' c place := by
  have next (p : Proc) (first : b.Next c p) : b'.Next c p := by
    intro some_ known
    obtain ⟨deadline, before⟩ := fewer p some_ known
    rw [← deadline] at some_ ⊢
    exact first some_ before
  have behind (p : Proc) (past : b.Behind c p) : b'.Behind c p := by
    intro some_ known
    obtain ⟨deadline, before⟩ := fewer p some_ known
    rw [← deadline] at some_ ⊢
    rw [same]
    exact past some_ before
  cases place with
  | receive | expired | reads | reloaded => exact fun p => next p (looked p)
  | alarmed => exact looked.trans (congrArg _ same.symm)
  | looks rest => exact ⟨looked.1.trans (congrArg _ same.symm), fun p outside => behind p (looked.2 p outside)⟩
  | sends rp rest | rang rp rest =>
    exact ⟨looked.1.trans (congrArg _ same.symm), fun p outside other => behind p (looked.2 p outside other)⟩
  | recorded => trivial
  | searches rest => exact fun p outside => next p (looked p outside)

omit [DecidableEq Proc] in
theorem Kept.wait {elapsed : Nat} (kept : Kept b s) (alarm : c.alarm = s.clock.alarm)
    (watchDog : c.watchDog = s.clock.watchDog) (realtime : c.realtime = s.clock.realtime)
    (nextAlarm : c.nextAlarm = s.clock.nextAlarm) (now : c.now = .ofNat elapsed) :
    Kept { b with elapsed := elapsed } { s with clock := c } where
  now := now
  alarm := alarm.trans kept.alarm
  rung := kept.rung
  synchronous p := (kept.synchronous p).trans (by dsimp only; rw [watchDog])
  boot := kept.boot
  owed := kept.owed
  looked := (kept.looked.keeps realtime nextAlarm).fewer rfl fun _ _ known => ⟨rfl, known⟩
  awake := kept.awake.keeps rfl rfl rfl (fun _ _ => id) fun _ p => by dsimp only; rw [watchDog]; exact id

omit [DecidableEq Proc] in
theorem Kept.elsewhere (kept : Kept b s) (keeps : s.clock.Keeps c) : Kept b { s with clock := c } := by
  refine kept.wait keeps.alarm keeps.watchDog keeps.realtime keeps.nextAlarm ?_
  rw [← kept.now]
  unfold State.now
  rw [keeps.realtime, keeps.pendingTicks]

theorem Kept.clockHandler {reentered called : Bool} (kept : Kept b s)
    (ran : k.clockHandler reentered s.clock = (called, c)) :
    Kept { b with elapsed := b.elapsed + (s.clock.lostTicks + 1) } { s with clock := c } := by
  obtain ⟨alarm, watchDog, realtime, nextAlarm, pendingTicks⟩ := clockHandler_clock ran
  refine kept.wait alarm watchDog realtime nextAlarm ?_
  rw [Int32.ofNat_add, ← kept.now]
  unfold State.now
  rw [realtime, pendingTicks, Int32.add_assoc]

omit [DecidableEq Proc] in
theorem Kept.move (kept : Kept b s) (alarm : c.alarm = s.clock.alarm) (watchDog : c.watchDog = s.clock.watchDog)
    (now : c.now = s.clock.now) (ringing : place.ringing = s.place.ringing)
    (free : ∀ rp rest, place ≠ .sends rp rest) (looked : Looked b c place) :
    Kept b { s with clock := c, place := place } where
  now := now.trans kept.now
  alarm := alarm.trans kept.alarm
  rung := kept.rung.trans ringing.symm
  synchronous p := (kept.synchronous p).trans (by dsimp only; rw [watchDog])
  boot := kept.boot
  owed := kept.owed
  looked := looked
  awake := kept.awake.keeps rfl rfl rfl (fun rp rest blocked => absurd blocked (free rp rest)) fun _ p => by
    dsimp only
    rw [watchDog]
    exact id

/-! ### Messages for the clock task -/

omit [DecidableEq Proc] in
theorem Kept.transferred (kept : Kept b s) (waits : s.place = .receive) : Kept b s.transferred := by
  have looked := kept.looked
  rw [waits] at looked
  have free (rp : Proc) (rest : List Proc) : s.place ≠ .sends rp rest := by
    rw [waits]
    nofun
  have first : Looked b s.clock.transferred s.place := by
    rw [waits]
    exact looked
  exact kept.move rfl rfl s.clock.transferred_now rfl free first

omit [DecidableEq Proc] in
theorem Kept.realtime (kept : Kept b s) : s.clock.transferred.realtime = .ofNat b.elapsed := kept.now

omit [DecidableEq Proc] in
theorem Kept.hardInt (kept : Kept b s) (waits : s.place = .receive) :
    Kept { b with looked := b.elapsed } s.hardInt := by
  have looked := kept.looked
  rw [waits] at looked
  have entered : Kept { b with looked := b.elapsed } s := by
    obtain ⟨now, alarm, rung, synchronous, boot, owed, -, awake⟩ := kept
    refine ⟨now, alarm, rung, synchronous, boot, owed, ?_, awake⟩
    rw [waits]
    exact looked
  refine entered.move rfl rfl s.clock.transferred_now ?_ ?_ ?_
  · rw [waits]
    split <;> rfl
  · split <;> nofun
  · split
    · exact kept.realtime
    · rename_i early
      refine ⟨kept.realtime, fun p _ some_ known => ?_⟩
      have first := looked p some_ known
      rw [kept.now] at early
      exact ⟨Int32.lt_of_lt_of_le (Int32.not_le.mp early) first, first⟩

theorem Kept.set {deltaTicks : Int32} {function : Option WatchDog} {synchronous : Bool} (kept : Kept b s)
    (waits : s.place = .receive) (same : synchronous = true ↔ function = some .causeAlarm)
    (later : s.syn = .starts → function ≠ some .causeAlarm) :
    Kept (b.set p deltaTicks synchronous) (s.transferred.commonSetalarm p deltaTicks function) where
  now := s.clock.transferred_now.trans kept.now
  alarm := by
    unfold Tasks.commonSetalarm Book.set
    dsimp only
    rw [← kept.realtime, ← kept.alarm]
    rfl
  rung := by
    refine kept.rung.trans ?_
    rw [waits]
    rfl
  synchronous q := by
    unfold Tasks.commonSetalarm Book.set
    dsimp only
    rcases eq_or_ne q p with rfl | other
    · rwa [Function.update_self, Function.update_self]
    · rw [Function.update_of_ne other, Function.update_of_ne other]
      exact kept.synchronous q
  boot := kept.boot
  owed := kept.owed
  -- the search for the next alarm begins anew
  looked := trivial
  awake := by
    refine kept.awake.keeps rfl rfl rfl nofun fun starts q set => ?_
    unfold Tasks.commonSetalarm at set
    dsimp only at set
    rcases eq_or_ne q p with rfl | other
    · rw [Function.update_self] at set
      exact absurd set (later starts)
    · rwa [Function.update_of_ne other] at set

theorem Kept.exit (kept : Kept b s) : Kept (b.turnOff p) (s.turnOff p) where
  now := kept.now
  alarm := congrArg (Function.update · p 0) kept.alarm
  rung := kept.rung
  synchronous := kept.synchronous
  boot := kept.boot
  owed := kept.owed
  looked := by
    refine Looked.fewer (kept.looked.keeps rfl rfl) rfl fun q some_ known => ⟨?_, known⟩
    -- an alarm that is turned off is none
    rcases eq_or_ne q p with rfl | other
    · exact absurd (Function.update_self q 0 b.deadline) some_
    · exact (Function.update_of_ne other 0 b.deadline).symm
  awake := kept.awake.keeps rfl rfl rfl (fun _ _ => id) fun _ _ => id

/-- A child that comes while the clock task is in its loop goes astray. -/
theorem Kept.fork {child : Proc} (kept : Kept b s) (blocked : s.place.blocked = true) :
    Kept (b.fork p child s.place.waits) (s.fork p child) where
  now := kept.now
  alarm := by
    unfold Tasks.fork Book.fork
    dsimp only
    rw [kept.alarm]
  rung := kept.rung
  synchronous := kept.synchronous
  boot := kept.boot
  owed := kept.owed
  looked := by
    -- in its loop the clock task may be past the child already
    have looked := kept.looked
    change Looked _ (s.fork p child).clock s.place
    cases at_ : s.place with
    | receive =>
      rw [at_] at looked
      intro q
      unfold Book.Next Book.fork Place.waits
      dsimp only
      rcases eq_or_ne q child with rfl | other
      · rw [Function.update_self, Function.update_self, Bool.not_true, Bool.or_false]
        exact looked p
      · rw [Function.update_of_ne other, Function.update_of_ne other]
        exact looked q
    | sends rp rest =>
      rw [at_] at looked
      refine Looked.fewer (looked.keeps rfl rfl) rfl fun q some_ known => ?_
      unfold Book.fork Place.waits at *
      dsimp only at *
      rcases eq_or_ne q child with rfl | other
      · rw [Function.update_self, Bool.not_false, Bool.or_true] at known
        cases known
      · rw [Function.update_of_ne other] at known ⊢
        exact ⟨rfl, known⟩
    | _ =>
      rw [at_] at blocked
      cases blocked
  awake := kept.awake.keeps rfl rfl rfl (fun _ _ => id) fun _ _ => id

/-! ### The loops over the process table -/

omit [DecidableEq Proc] in
theorem Kept.reset (kept : Kept b s) (looked : Looked b { s.clock with nextAlarm := LONG_MAX } place)
    (ringing : place.ringing = s.place.ringing) (free : ∀ rp rest, place ≠ .sends rp rest) : Kept b (s.reset place) :=
  kept.move rfl rfl rfl ringing free looked

omit [DecidableEq Proc] in
theorem look_spec (s : Tasks Proc) (rp : Proc) (place : Place Proc) :
    (s.look rp place).clock.nextAlarm ≤ s.clock.nextAlarm ∧
      (s.clock.alarm rp ≠ 0 → (s.look rp place).clock.nextAlarm ≤ s.clock.alarm rp) := by
  unfold Tasks.look
  dsimp only
  split
  · rename_i earlier
    exact ⟨Int32.le_of_lt earlier.2, fun _ => Int32.le_refl _⟩
  · rename_i later
    exact ⟨Int32.le_refl _, fun some_ => Int32.not_lt.mp fun less => later ⟨some_, less⟩⟩

omit [DecidableEq Proc] in
theorem look_clock (s : Tasks Proc) (rp : Proc) (place : Place Proc) :
    (s.look rp place).clock.alarm = s.clock.alarm ∧ (s.look rp place).clock.watchDog = s.clock.watchDog ∧
      (s.look rp place).clock.realtime = s.clock.realtime ∧ (s.look rp place).clock.now = s.clock.now := by
  unfold Tasks.look
  dsimp only
  split <;> exact ⟨rfl, rfl, rfl, rfl⟩

omit [DecidableEq Proc] in
theorem Kept.look (kept : Kept b s) (at_ : s.place = .looks (rp :: rest)) (early : ¬ s.clock.Due rp) :
    Kept b (s.look rp (.looks rest)) := by
  have looked := kept.looked
  rw [at_] at looked
  obtain ⟨alarm, watchDog, realtime, now⟩ := look_clock s rp (.looks rest)
  obtain ⟨sooner, first⟩ := look_spec s rp (.looks rest)
  refine kept.move alarm watchDog now (by rw [at_]; rfl) nofun ⟨realtime.trans looked.1, fun q outside some_ known => ?_⟩
  rcases eq_or_ne q rp with rfl | other
  · rw [← kept.alarm] at some_ ⊢
    refine ⟨?_, first some_⟩
    rw [← looked.1]
    exact Int32.not_le.mp fun reached => early ⟨some_, reached⟩
  · obtain ⟨unreached, before⟩ := looked.2 q (by simp [other, outside]) some_ known
    exact ⟨unreached, Int32.le_trans sooner before⟩

omit [DecidableEq Proc] in
theorem Kept.search (kept : Kept b s) (at_ : s.place = .searches (rp :: rest)) : Kept b (s.look rp (.searches rest)) := by
  have looked := kept.looked
  rw [at_] at looked
  obtain ⟨alarm, watchDog, -, now⟩ := look_clock s rp (.searches rest)
  obtain ⟨sooner, first⟩ := look_spec s rp (.searches rest)
  refine kept.move alarm watchDog now (by rw [at_]; rfl) nofun fun q outside some_ known => ?_
  rcases eq_or_ne q rp with rfl | other
  · rw [← kept.alarm] at some_ ⊢
    exact first some_
  · exact Int32.le_trans sooner (looked q (by simp [other, outside]) some_ known)

theorem Kept.turnOff (kept : Kept b s) (at_ : s.place = .rang rp rest) :
    b.rung = some rp ∧ Kept { b.turnOff rp with rung := none } { s.turnOff rp with place := .looks rest } := by
  have looked := kept.looked
  have rung := kept.rung
  rw [at_] at looked rung
  refine ⟨rung, kept.now, congrArg (Function.update · rp 0) kept.alarm, rfl, kept.synchronous, kept.boot, kept.owed,
    ⟨looked.1, fun q outside some_ known => ?_⟩, kept.awake.keeps rfl rfl rfl nofun fun _ _ => id⟩
  have deadline : ({ b.turnOff rp with rung := none } : Book Proc).deadline = Function.update b.deadline rp 0 := rfl
  rw [deadline] at some_ ⊢
  rcases eq_or_ne q rp with rfl | other
  · exact absurd (Function.update_self q 0 b.deadline) some_
  · rw [Function.update_of_ne other] at some_ ⊢
    exact looked.2 q outside other some_ known

omit [DecidableEq Proc] in
theorem Kept.countDown (kept : Kept b s) (at_ : s.place = .looks []) :
    (∀ p, b.deadline p ≠ 0 → b.astray p = false → .ofNat b.looked < b.deadline p) ∧ Kept b s.countDown := by
  have looked := kept.looked
  rw [at_] at looked
  -- the loop has passed everybody
  have next (q : Proc) : b.Next s.clock q := fun some_ known => (looked.2 q (by simp) some_ known).2
  refine ⟨fun p some_ known => (looked.2 p (by simp) some_ known).1, kept.move rfl rfl rfl ?_ ?_ ?_⟩
  · rw [at_]
    split <;> rfl
  · split <;> nofun
  · split <;> exact next

omit [DecidableEq Proc] in
theorem Kept.finish (kept : Kept b s) (next : ∀ p, b.Next s.clock p) (quiet : s.place.ringing = none)
    (alarm : c.alarm = s.clock.alarm) (watchDog : c.watchDog = s.clock.watchDog) (now : c.now = s.clock.now)
    (nextAlarm : c.nextAlarm = s.clock.nextAlarm)
    (ends : place = .receive ∨ place = .reads ∨ place = .reloaded) : Kept b { s with clock := c, place := place } := by
  have later (q : Proc) : b.Next c q := fun some_ known => by
    rw [nextAlarm]
    exact next q some_ known
  rcases ends with rfl | rfl | rfl <;> exact kept.move alarm watchDog now quiet.symm nofun later

theorem ring_cases (k : Host Proc) (s : Tasks Proc) (rp : Proc) (rest : List Proc) :
    s.clock.watchDog rp ≠ some .causeAlarm ∧
        k.ring rp rest s = { s with clock := k.alarmRings rp s.clock, place := .rang rp rest } ∨
    s.clock.watchDog rp = some .causeAlarm ∧ ∃ place syn, k.ring rp rest s =
        { s with
          synTable := Function.update s.synTable rp true
          place := place
          syn := syn } ∧
      (s.synAlAlive = true ∧ place = .rang rp rest ∧ syn = s.syn ∨
        s.syn = .receives ∧ place = .rang rp rest ∧ syn = .received ∨
        s.synAlAlive ≠ true ∧ s.syn ≠ .receives ∧ place = .sends rp rest ∧ syn = s.syn) := by
  unfold Host.ring
  dsimp only
  by_cases synchronous : s.clock.watchDog rp = some .causeAlarm
  · rw [if_pos synchronous]
    refine .inr ⟨synchronous, ?_⟩
    by_cases alive : s.synAlAlive = true
    · rw [if_pos alive]
      exact ⟨_, _, rfl, .inl ⟨alive, rfl, rfl⟩⟩
    · rw [if_neg alive]
      cases syn : s.syn with
      | receives => exact ⟨_, _, rfl, .inr (.inl ⟨rfl, rfl, rfl⟩)⟩
      | starts => exact ⟨_, _, rfl, .inr (.inr ⟨alive, nofun, rfl, rfl⟩)⟩
      | sends l => exact ⟨_, _, rfl, .inr (.inr ⟨alive, nofun, rfl, rfl⟩)⟩
      | received => exact ⟨_, _, rfl, .inr (.inr ⟨alive, nofun, rfl, rfl⟩)⟩
  · rw [if_neg synchronous]
    exact .inl ⟨synchronous, rfl⟩

theorem Kept.ring (kept : Kept b s) (at_ : s.place = .looks (rp :: rest)) (due : s.clock.Due rp) :
    b.Allows k.hz (.ring rp) ∧ Kept (b.enter k.hz (.ring rp)) (k.ring rp rest s) := by
  have looked := kept.looked
  have rung := kept.rung
  rw [at_] at looked rung
  refine ⟨⟨rung, ?_⟩, ?_⟩
  · rw [← kept.alarm, ← looked.1]
    exact due
  -- what comes out, whether or not the clock task is blocked
  have made (t : Tasks Proc) (keeps : s.clock.Keeps t.clock) (boot : t.bootTime = s.bootTime)
      (place : t.place = .rang rp rest ∨ t.place = .sends rp rest)
      (table : Function.update b.owed rp (b.synchronous rp || b.owed rp) = t.synTable) (awake : Awake t t.syn) :
      Kept (b.enter k.hz (.ring rp)) t := by
    refine ⟨?_, keeps.alarm.trans kept.alarm, ?_, fun q => ?_, boot.trans kept.boot, table, ?_, awake⟩
    · unfold State.now
      rw [keeps.realtime, keeps.pendingTicks]
      exact kept.now
    · rcases place with place | place <;> rw [place] <;> rfl
    · rw [keeps.watchDog]
      exact kept.synchronous q
    · have behind : t.clock.realtime = .ofNat b.looked ∧ ∀ q ∉ rest, q ≠ rp → b.Behind t.clock q := by
        refine ⟨keeps.realtime.trans looked.1, fun q outside other some_ known => ?_⟩
        rw [keeps.nextAlarm]
        exact looked.2 q (by simp [other, outside]) some_ known
      rcases place with place | place <;> rw [place] <;> exact behind
  obtain ⟨plain, same⟩ | ⟨synchronous, place, syn, same, ways⟩ := ring_cases k s rp rest
  · have unset : b.synchronous rp = false := by
      by_contra set
      exact plain ((kept.synchronous rp).mp (by simpa using set))
    have keeps := k.alarmRings_keeps rp s.clock
    rw [same]
    refine made _ keeps rfl (.inl rfl) ?_ (kept.awake.keeps rfl rfl rfl nofun fun _ q => ?_)
    · rw [unset, Bool.false_or, Function.update_eq_self]
      exact kept.owed
    · dsimp only
      rw [keeps.watchDog]
      exact id
  · have set := (kept.synchronous rp).mpr synchronous
    have awake := kept.awake
    have table : Function.update b.owed rp (b.synchronous rp || b.owed rp) = Function.update s.synTable rp true := by
      rw [set, Bool.true_or, kept.owed]
    rw [same]
    -- the other task is at work, sleeps, or has not come to its `receive`, and the clock task blocks
    obtain ⟨alive, rfl, rfl⟩ | ⟨asleep, rfl, rfl⟩ | ⟨asleep, waits, rfl, rfl⟩ := ways
    · refine made _ (.refl _) rfl (.inl rfl) table ?_
      dsimp only
      cases at_ : s.syn <;> rw [at_] at awake
      · exact absurd synchronous (awake.2.2 rp)
      · exact alive
      · exact absurd (alive.symm.trans awake.1) nofun
      · exact absurd (alive.symm.trans awake) nofun
    · rw [asleep] at awake
      exact made _ (.refl _) rfl (.inl rfl) table awake.1
    · refine made _ (.refl _) rfl (.inr rfl) table ?_
      dsimp only
      cases at_ : s.syn <;> rw [at_] at awake
      · exact absurd awake.1 asleep
      · exact absurd awake asleep
      · exact absurd at_ waits
      · exact awake

/-! ### The synchronous alarm task -/

omit [DecidableEq Proc] in
theorem nextSet_some {table : Proc → Bool} {l : List Proc} (found : Tasks.nextSet table l = some (p, rest)) :
    table p = true := by
  induction l with
  | nil => cases found
  | cons q l ih =>
    unfold Tasks.nextSet at found
    split at found
    · rename_i set
      cases found
      exact set
    · exact ih found

omit [DecidableEq Proc] in
theorem nextSet_none {table : Proc → Bool} {l : List Proc} (nothing : Tasks.nextSet table l = none) :
    ∀ q ∈ l, table q = false := by
  induction l with
  | nil => nofun
  | cons q l ih =>
    unfold Tasks.nextSet at nothing
    split at nothing
    · cases nothing
    · rename_i unset
      intro r member
      rcases List.mem_cons.mp member with rfl | member
      · simpa using unset
      · exact ih nothing r member

theorem Kept.clockInt (kept : Kept b s) :
    Kept { b with owed := Function.update b.owed p false }
      (({ s with synAlAlive := true } : Tasks Proc).clockInt p rest) :=
  ⟨kept.now, kept.alarm, kept.rung, kept.synchronous, kept.boot, by rw [kept.owed]; rfl, kept.looked, rfl⟩

omit [DecidableEq Proc] in
theorem Kept.sleep (kept : Kept b s) (nothing : ∀ q, s.synTable q = false) :
    Kept b ({ s with synAlAlive := true } : Tasks Proc).sleep := by
  have looked := kept.looked
  unfold Tasks.sleep
  dsimp only
  split
  · rename_i rp rest blocked
    rw [blocked] at looked
    refine ⟨kept.now, kept.alarm, kept.rung.trans ?_, kept.synchronous, kept.boot, kept.owed, looked, rfl⟩
    rw [blocked]
    rfl
  · rename_i free
    exact ⟨kept.now, kept.alarm, kept.rung, kept.synchronous, kept.boot, kept.owed, looked, rfl, nothing, free⟩

theorem Kept.pass {sent : Option Proc} (kept : Kept b s) (ran : k.pass { s with synAlAlive := true } = (sent, t)) :
    b.Allows k.hz (.syn sent) ∧ Kept (b.enter k.hz (.syn sent)) t := by
  unfold Host.pass at ran
  split at ran
  · rename_i p rest found
    cases ran
    exact ⟨(congrFun kept.owed p).trans (nextSet_some found), kept.clockInt⟩
  · rename_i nothing
    cases ran
    exact ⟨trivial, kept.sleep fun q => nextSet_none nothing q (k.everybody q)⟩

theorem Kept.goOn {sent : Option Proc} (kept : Kept b s) (at_ : s.syn = .sends rest) (ran : k.goOn rest s = (sent, t)) :
    b.Allows k.hz (.syn sent) ∧ Kept (b.enter k.hz (.syn sent)) t := by
  have awake := kept.awake
  rw [at_] at awake
  have alive : s = { s with synAlAlive := true } := by
    rw [← awake]
  unfold Host.goOn at ran
  split at ran
  · rename_i p rest' found
    cases ran
    rw [alive]
    exact ⟨(congrFun kept.owed p).trans (nextSet_some found), kept.clockInt⟩
  · rw [alive] at ran
    exact kept.pass ran

/-! ## Runs -/

theorem Kept.step {label : Label Proc} (kept : Kept b s) (steps : Steps k s label t) :
    (alarmClock k.hz).step b label (b.enter k.hz label) ∧ Kept (b.enter k.hz label) t := by
  have looked := kept.looked
  -- one lemma for each step; where the task only moves on, what it has looked at stays
  cases steps with
  | clockHandler ran => exact ⟨⟨trivial, rfl⟩, kept.clockHandler ran⟩
  | hardInt waits => exact ⟨⟨trivial, rfl⟩, kept.hardInt waits⟩
  | alarmed at_ =>
    rw [at_] at looked
    refine ⟨⟨trivial, rfl⟩, kept.reset ⟨looked, fun p outside => ?_⟩ (by rw [at_]; rfl) nofun⟩
    exact absurd (k.everybody p) outside
  | look at_ early => exact ⟨⟨trivial, rfl⟩, kept.look at_ early⟩
  | ring at_ due =>
    obtain ⟨reached, after⟩ := kept.ring at_ due
    exact ⟨⟨reached, rfl⟩, after⟩
  | turnOff at_ =>
    obtain ⟨rung, after⟩ := kept.turnOff at_
    exact ⟨⟨rung, rfl⟩, after⟩
  | countDown at_ =>
    obtain ⟨none_, after⟩ := kept.countDown at_
    exact ⟨⟨none_, rfl⟩, after⟩
  | lockSched at_ =>
    rw [at_] at looked
    exact ⟨⟨trivial, rfl⟩, kept.finish looked (by rw [at_]; rfl) rfl rfl rfl rfl (.inr (.inl rfl))⟩
  | reload at_ | nullRead at_ =>
    rw [at_] at looked
    exact ⟨⟨trivial, rfl⟩, kept.finish looked (by rw [at_]; rfl) rfl rfl rfl rfl (.inr (.inr rfl))⟩
  | record at_ =>
    rw [at_] at looked
    exact ⟨⟨trivial, rfl⟩, kept.finish looked (by rw [at_]; rfl) rfl rfl rfl rfl (.inl rfl)⟩
  | setAlarm waits =>
    refine ⟨⟨?_, rfl⟩, kept.set waits ?_ fun _ => ?_⟩
    · rw [Book.Allows, kept.alarm, kept.realtime]
    · split <;> simp
    · split <;> simp
  | setSynAlarm waits started =>
    refine ⟨⟨?_, rfl⟩, kept.set waits (iff_of_true rfl rfl) fun starts => absurd starts started⟩
    rw [Book.Allows, kept.alarm, kept.realtime]
  | recorded at_ =>
    refine ⟨⟨trivial, rfl⟩, kept.reset (fun p outside => ?_) (by rw [at_]; rfl) nofun⟩
    exact absurd (k.everybody p) outside
  | search at_ => exact ⟨⟨trivial, rfl⟩, kept.search at_⟩
  | reply at_ =>
    rw [at_] at looked
    exact ⟨⟨trivial, rfl⟩, kept.move rfl rfl rfl (by rw [at_]; rfl) nofun fun p => looked p (by simp)⟩
  | getUptime waits => exact ⟨⟨kept.realtime, rfl⟩, kept.transferred waits⟩
  | getTime waits =>
    refine ⟨⟨?_, rfl⟩, kept.transferred waits⟩
    rw [Book.Allows, ← kept.boot, ← kept.realtime]
    rfl
  | setTime waits =>
    obtain ⟨now, alarm, rung, synchronous, -, owed, looked, awake⟩ := kept.transferred waits
    refine ⟨⟨trivial, rfl⟩, now, alarm, rung, synchronous, ?_, owed, looked,
      awake.keeps rfl rfl rfl (fun _ _ => id) fun _ _ => id⟩
    rw [Book.enter, ← kept.realtime]
    rfl
  | exit => exact ⟨⟨trivial, rfl⟩, kept.exit⟩
  | fork blocked => exact ⟨⟨trivial, rfl⟩, kept.fork blocked⟩
  | starts at_ ran =>
    have awake := kept.awake
    rw [at_] at awake
    have empty : s.synTable = fun _ => false := funext awake.2.1
    rw [← empty] at ran
    obtain ⟨allowed, after⟩ := kept.pass ran
    exact ⟨⟨allowed, rfl⟩, after⟩
  | wakes at_ ran =>
    obtain ⟨allowed, after⟩ := kept.pass ran
    exact ⟨⟨allowed, rfl⟩, after⟩
  | goesOn at_ ran =>
    obtain ⟨allowed, after⟩ := kept.goOn at_ ran
    exact ⟨⟨allowed, rfl⟩, after⟩
  | elsewhere keeps => exact ⟨⟨trivial, rfl⟩, kept.elsewhere keeps⟩

theorem kept_blank (initial : (tasks k).init s) : Kept .blank s := by
  obtain ⟨alarm, realtime, pendingTicks, boot, watchDog, empty, alive, place, syn⟩ := initial
  refine ⟨?_, funext alarm, ?_, fun p => ?_, boot, (funext empty).symm, ?_, ?_⟩
  · unfold State.now
    rw [realtime, pendingTicks]
    rfl
  · rw [place]
    rfl
  · exact iff_of_false nofun (by simp [watchDog])
  · rw [place]
    exact fun p some_ => absurd rfl some_
  · rw [syn]
    exact ⟨alive, empty, by simp [watchDog]⟩

/-- The tasks do what the alarm clock allows. -/
theorem follows_alarmClock {history : List (Label Proc)} (run : (tasks k).Run history s) :
    ∃ b, (alarmClock k.hz).Run history b ∧ Kept b s :=
  run.simulated (R := fun s b => Kept b s) (fun _ initial => ⟨.blank, rfl, kept_blank initial⟩)
    fun _ _ _ _ kept steps => ⟨_, kept.step steps⟩

end
end SoiStud.Kernel.Alarms
