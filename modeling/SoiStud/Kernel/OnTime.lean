import Mathlib.Data.List.Induction
import Mathlib.Order.Lattice
import SoiStud.Kernel.AlarmClock

/-! The alarms go off when they should.

This is so while the clock does not wrap: times have 32 bits, and an alarm that would come
after the last of them comes at once.
-/

set_option autoImplicit false

namespace SoiStud.Kernel.Alarms

open Library

section
variable {Proc : Type}

/-- The ticks that have been counted. -/
def ticks (history : List (Label Proc)) : Nat :=
  (history.map fun | .clockHandler ticks _ => ticks | _ => 0).sum

/-- An alarm is set for a process, or turned off if there are no ticks. -/
def Label.Sets (p : Proc) (deltaTicks : Int32) : Label Proc → Prop
  | .setAlarm q delta _ _ | .setSynAlarm q delta _ => q = p ∧ delta = deltaTicks
  | _ => False

/-- `p_alarm` of the process is written. -/
def Label.Touches (p : Proc) : Label Proc → Prop
  | .setAlarm q _ _ _ | .setSynAlarm q _ _ | .turnOff q | .exit q | .fork _ q _ => q = p
  | _ => False

/-- An alarm that was set for the first process is one of the other: it is still there, or a child has got it.
A `calm` one has been copied only while the clock task was not in its loop. -/
inductive Passes (calm : Bool) (q : Proc) : List (Label Proc) → Proc → Prop where
  | start : Passes calm q [] q
  | keeps {late : List (Label Proc)} {label : Label Proc} {p : Proc} : Passes calm q late p → ¬ label.Touches p →
      Passes calm q (late ++ [label]) p
  | forks {late : List (Label Proc)} {p child : Proc} {waits : Bool} : Passes calm q late p →
      (calm = true → waits = true) → Passes calm q (late ++ [.fork p child waits]) child

variable {history late : List (Label Proc)} {label : Label Proc} {p q : Proc} {calm : Bool} {deltaTicks : Int32}

theorem ticks_append (before after : List (Label Proc)) : ticks (before ++ after) = ticks before + ticks after := by
  simp [ticks]

theorem ticks_cons (label : Label Proc) (history : List (Label Proc)) :
    ticks (label :: history) = ticks [label] + ticks history :=
  ticks_append [label] history

theorem Label.Sets.ticks (sets : label.Sets p deltaTicks) : ticks [label] = 0 := by
  cases label <;> first | exact sets.elim | rfl

/-- Neither the ticks nor an alarm come to the end of the numbers. -/
structure InRange (history : List (Label Proc)) : Prop where
  elapsed : ticks history < 2 ^ 31
  sets : ∀ early label late q (deltaTicks : Int32), history = early ++ label :: late → label.Sets q deltaTicks →
    0 ≤ deltaTicks.toInt ∧ ticks early + deltaTicks.toInt < 2 ^ 31

theorem inRange_of_bound (bound : Nat) (elapsed : ticks history + bound < 2 ^ 31)
    (sets : ∀ label ∈ history, ∀ q deltaTicks, label.Sets q deltaTicks → 0 ≤ deltaTicks.toInt ∧ deltaTicks.toInt ≤ bound) :
    InRange history where
  elapsed := by omega
  sets early label late q deltaTicks whole changed := by
    obtain ⟨positive, less⟩ := sets label (by simp [whole]) q deltaTicks changed
    rw [whole, ticks_append] at elapsed
    exact ⟨positive, by omega⟩

variable [DecidableEq Proc] {hz : Nat} {b : Book Proc}

/-! ## What an alarm clock does -/

theorem enter_elapsed : (b.enter hz label).elapsed = b.elapsed + ticks [label] := by
  cases label with
  | syn sent => cases sent <;> rfl
  | clockHandler n called => simp [Book.enter, ticks]
  | _ => rfl

theorem enter_untouched (hz : Nat) (b : Book Proc) (untouched : ¬ label.Touches p) :
    (b.enter hz label).deadline p = b.deadline p ∧ (b.enter hz label).astray p = b.astray p := by
  cases label with
  | syn sent => cases sent <;> exact ⟨rfl, rfl⟩
  | setAlarm q delta function left | setSynAlarm q delta left | fork parent q waits =>
    exact ⟨Function.update_of_ne (Ne.symm untouched) _ _, Function.update_of_ne (Ne.symm untouched) _ _⟩
  | turnOff q | exit q => exact ⟨Function.update_of_ne (Ne.symm untouched) _ _, rfl⟩
  | _ => exact ⟨rfl, rfl⟩

theorem enter_sets (hz : Nat) (b : Book Proc) (sets : label.Sets p deltaTicks) :
    (b.enter hz label).deadline p = (if deltaTicks = 0 then 0 else .ofNat b.elapsed + deltaTicks) ∧
      (b.enter hz label).astray p = false := by
  cases label <;>
    first | exact sets.elim | (obtain ⟨rfl, rfl⟩ := sets; exact ⟨Function.update_self _ _ _, Function.update_self _ _ _⟩)

theorem enter_touches (hz : Nat) (b : Book Proc) (touches : label.Touches p) :
    (∃ deltaTicks, label.Sets p deltaTicks) ∨ (∃ parent waits, label = .fork parent p waits) ∨
      (b.enter hz label).deadline p = 0 := by
  cases label with
  | setAlarm q delta function left => exact .inl ⟨delta, touches, rfl⟩
  | setSynAlarm q delta left => exact .inl ⟨delta, touches, rfl⟩
  | fork parent q waits =>
    obtain rfl := touches
    exact .inr (.inl ⟨parent, waits, rfl⟩)
  | turnOff q | exit q =>
    obtain rfl := touches
    exact .inr (.inr (Function.update_self _ _ _))
  | _ => exact touches.elim

theorem enter_looked (other : label ≠ .hardInt) : (b.enter hz label).looked = b.looked := by
  cases label with
  | syn sent => cases sent <;> rfl
  | hardInt => exact absurd rfl other
  | _ => rfl

theorem enter_rung (rings : ∀ q, label ≠ .ring q) (ends : ∀ q, label ≠ .turnOff q) :
    (b.enter hz label).rung = b.rung := by
  cases label with
  | syn sent => cases sent <;> rfl
  | ring q => exact absurd rfl (rings q)
  | turnOff q => exact absurd rfl (ends q)
  | _ => rfl

/-- The alarm clock when all this has happened. -/
def book (hz : Nat) (history : List (Label Proc)) : Book Proc := history.foldl (Book.enter hz) .blank

theorem book_append (before after : List (Label Proc)) :
    book hz (before ++ after) = after.foldl (Book.enter hz) (book hz before) := List.foldl_append

theorem book_concat (history : List (Label Proc)) (label : Label Proc) :
    book hz (history ++ [label]) = (book hz history).enter hz label := book_append history [label]

theorem book_of_run (run : (alarmClock hz).Run history b) : b = book hz history := by
  refine run.induction_on (P := fun history b => b = book hz history) ?_ ?_
  · exact fun b initial => initial
  · rintro history b label b' _ rfl ⟨-, rfl⟩
    exact (book_concat history label).symm

theorem book_elapsed (history : List (Label Proc)) : (book hz history).elapsed = ticks history := by
  induction history using List.reverseRecOn with
  | nil => rfl
  | append_singleton history label ih => rw [book_concat, enter_elapsed, ih, ticks_append]

theorem book_looked (hz : Nat) (history : List (Label Proc)) : (book hz history).looked ≤ ticks history := by
  induction history using List.reverseRecOn with
  | nil => exact Nat.zero_le _
  | append_singleton history label ih =>
    rw [book_concat, ticks_append]
    by_cases looks : label = .hardInt
    · rw [looks]
      exact (book_elapsed history).le.trans (Nat.le_add_right _ _)
    · rw [enter_looked looks]
      exact ih.trans (Nat.le_add_right _ _)

theorem foldl_looked {look : List (Label Proc)} (others : .hardInt ∉ look) :
    (look.foldl (Book.enter hz) b).looked = b.looked := by
  induction look generalizing b with
  | nil => rfl
  | cons label look ih =>
    rw [List.mem_cons, not_or] at others
    rw [List.foldl_cons, ih others.2, enter_looked (Ne.symm others.1)]

/-- An alarm that has been set, and has passed to a process. -/
theorem deadline_passes (hz : Nat) (early : List (Label Proc)) (sets : label.Sets q deltaTicks) (some_ : deltaTicks ≠ 0)
    (passes : Passes calm q late p) :
    (book hz (early ++ label :: late)).deadline p = .ofNat (ticks early) + deltaTicks ∧
      (calm = true → (book hz (early ++ label :: late)).astray p = false) := by
  -- along the steps since it was set; a fork hands it on as it is
  induction passes with
  | start =>
    obtain ⟨deadline, known⟩ := enter_sets hz (book hz early) sets
    rw [book_concat, deadline, if_neg some_, book_elapsed]
    exact ⟨rfl, fun _ => known⟩
  | @keeps late later p _ untouched ih =>
    obtain ⟨deadline, known⟩ := enter_untouched hz (book hz (early ++ label :: late)) untouched
    rw [← List.cons_append, ← List.append_assoc, book_concat, deadline, known]
    exact ih
  | @forks late p child waits _ quiet ih =>
    rw [← List.cons_append, ← List.append_assoc, book_concat]
    refine ⟨(Function.update_self _ _ _).trans ih.1, fun calm => (Function.update_self _ _ _).trans ?_⟩
    rw [ih.2 calm, quiet calm]
    rfl

theorem passes_of_deadline (some_ : (book hz history).deadline p ≠ 0) : ∃ early label q deltaTicks late,
    history = early ++ label :: late ∧ label.Sets q deltaTicks ∧ deltaTicks ≠ 0 ∧ Passes false q late p := by
  induction history using List.reverseRecOn generalizing p with
  | nil => exact absurd rfl some_
  | append_singleton history label ih =>
    rw [book_concat] at some_
    -- the last step that wrote the alarm set it, or copied one that had been set
    by_cases touches : label.Touches p
    · obtain ⟨deltaTicks, sets⟩ | ⟨parent, waits, rfl⟩ | none_ := enter_touches hz (book hz history) touches
      · rw [(enter_sets hz _ sets).1] at some_
        exact ⟨history, label, p, deltaTicks, [], rfl, sets, fun zero => some_ (if_pos zero), .start⟩
      · have parents : (book hz history).deadline parent ≠ 0 := fun zero => some_ ((Function.update_self _ _ _).trans zero)
        obtain ⟨early, first, q, deltaTicks, late, rfl, sets, nonzero, passes⟩ := ih parents
        exact ⟨early, first, q, deltaTicks, late ++ [.fork parent p waits], by simp, sets, nonzero, passes.forks nofun⟩
      · exact absurd none_ some_
    · rw [(enter_untouched hz _ touches).1] at some_
      obtain ⟨early, first, q, deltaTicks, late, rfl, sets, nonzero, passes⟩ := ih some_
      exact ⟨early, first, q, deltaTicks, _, by simp, sets, nonzero, passes.keeps touches⟩

theorem allowed_of_run (run : (alarmClock hz).Run history b) :
    ∀ before label after, history = before ++ label :: after → (book hz before).Allows hz label :=
  run.each fun before b label _ earlier step => by
    rw [← book_of_run earlier]
    exact step.1

/-- An alarm rings until it is turned off. -/
theorem rung_stays {before middle : List (Label Proc)} (after : List (Label Proc))
    (allowed : ∀ early label late, before ++ .ring p :: (middle ++ after) = early ++ label :: late →
      (book hz early).Allows hz label) (rings : .turnOff p ∉ middle) :
    (book hz (before ++ .ring p :: middle)).rung = some p := by
  induction middle using List.reverseRecOn generalizing after with
  | nil =>
    rw [book_concat]
    rfl
  | append_singleton middle label ih =>
    rw [List.mem_append, not_or, List.mem_singleton] at rings
    have earlier := ih (label :: after) (by simpa using allowed) rings.1
    have now := allowed (before ++ .ring p :: middle) label after (by simp)
    rw [← List.cons_append, ← List.append_assoc, book_concat]
    rw [enter_rung ?_ ?_, earlier]
    · rintro q rfl
      exact absurd (earlier.symm.trans now.1) nofun
    · rintro q rfl
      obtain rfl := Option.some.inj (earlier.symm.trans now)
      exact rings.2 rfl

/-! ## Runs of the tasks -/

structure Timely (k : Host Proc) (history : List (Label Proc)) (s : Tasks Proc) : Prop where
  /-- An alarm that rings has been set for the process, or for one that it comes from, at least so many ticks before. -/
  ring : ∀ before p after, history = before ++ .ring p :: after → ∃ early label q, ∃ deltaTicks : Int32, ∃ late,
    before = early ++ label :: late ∧ label.Sets q deltaTicks ∧ Passes false q late p ∧ 0 < deltaTicks.toInt ∧
      deltaTicks.toInt ≤ ticks late
  /-- It is turned off before the next one rings. -/
  once : ∀ before p middle q after, history = before ++ .ring p :: (middle ++ .ring q :: after) → .turnOff p ∈ middle
  /-- `do_clocktick` leaves no alarm that has been reached. -/
  look : ∀ early label late look after q (deltaTicks : Int32) p,
    history = (early ++ label :: (late ++ .hardInt :: look)) ++ .countDown :: after → label.Sets q deltaTicks →
    deltaTicks ≠ 0 → deltaTicks.toInt ≤ ticks late → .hardInt ∉ look → ¬ Passes true q (late ++ .hardInt :: look) p
  /-- The clock task is called for in the tick that reaches an alarm. -/
  called : s.place = .receive → ∀ early label late q (deltaTicks : Int32) p, history = early ++ label :: late →
    label.Sets q deltaTicks → deltaTicks ≠ 0 → Passes true q late p →
    deltaTicks.toInt ≤ ticks late + (s.clock.lostTicks + 1) → ticks history + (s.clock.lostTicks + 1) < 2 ^ 31 →
    ∀ reentered, (k.clockHandler reentered s.clock).1 = true

variable {k : Host Proc} {s : Tasks Proc}

omit [DecidableEq Proc] in
theorem InRange.deadline (range : InRange history) {early : List (Label Proc)} (whole : history = early ++ label :: late)
    (sets : label.Sets q deltaTicks) (some_ : deltaTicks ≠ 0) :
    0 < deltaTicks.toInt ∧ (.ofNat (ticks early) + deltaTicks : Int32).toInt = ticks early + deltaTicks.toInt ∧
      (.ofNat (ticks early) + deltaTicks : Int32) ≠ 0 := by
  obtain ⟨positive, fits⟩ := range.sets early label late q deltaTicks whole sets
  have number := toInt_ofNat_add positive fits
  have nonzero : deltaTicks.toInt ≠ 0 := fun zero => some_ (Int32.toInt_inj.mp (zero.trans Int32.toInt_zero.symm))
  have more : 0 < deltaTicks.toInt := by omega
  refine ⟨more, number, fun zero => ?_⟩
  rw [zero, Int32.toInt_zero] at number
  omega

theorem timely_of_inRange (range : InRange history) (followed : (alarmClock k.hz).Run history b) (kept : Kept b s) :
    Timely k history s := by
  obtain rfl := book_of_run followed
  have allowed := allowed_of_run followed
  refine ⟨?_, ?_, ?_, ?_⟩
  -- an alarm that rings was ahead of the clock when it was set, and is not when the task looks
  · intro before p after whole
    obtain ⟨-, some_, reached⟩ := allowed before _ after whole
    obtain ⟨early, label, q, deltaTicks, late, rfl, sets, nonzero, passes⟩ := passes_of_deadline some_
    obtain ⟨positive, number, -⟩ := range.deadline (by rw [whole, List.append_assoc]; rfl) sets nonzero
    refine ⟨early, label, q, deltaTicks, late, rfl, sets, passes, positive, ?_⟩
    have seen := book_looked k.hz (early ++ label :: late)
    have short : ticks (early ++ label :: late) ≤ ticks history := by
      rw [whole, ticks_append (early ++ label :: late)]
      exact Nat.le_add_right _ _
    have bound := range.elapsed
    rw [(deadline_passes k.hz early sets nonzero passes).1, Int32.le_iff_toInt_le, number,
      Int32.toInt_ofNat_of_lt (by omega)] at reached
    rw [ticks_append, ticks_cons, sets.ticks] at seen
    omega
  · -- it would still ring, and a look does not let another one ring then
    intro before p middle q after whole
    by_contra rings
    have still := rung_stays (.ring q :: after) (by rw [← whole]; exact allowed) rings
    obtain ⟨silent, -⟩ := allowed (before ++ .ring p :: middle) (.ring q) after (by simp [whole])
    exact absurd (still.symm.trans silent) nofun
  · intro early label late look after q deltaTicks p whole sets nonzero reached once passes
    -- else it would be there behind the loop, which leaves later ones only
    obtain ⟨deadline, known⟩ := deadline_passes k.hz early sets nonzero passes
    obtain ⟨positive, number, some_⟩ := range.deadline (by rw [whole, List.append_assoc]; rfl) sets nonzero
    have left := allowed _ .countDown after whole p (by rw [deadline]; exact some_) (known rfl)
    have looked : (book k.hz (early ++ label :: (late ++ .hardInt :: look))).looked = ticks early + ticks late := by
      have front : early ++ label :: (late ++ .hardInt :: look) = (early ++ label :: late) ++ .hardInt :: look := by simp
      rw [front, book_append, List.foldl_cons, foldl_looked once]
      change (book k.hz (early ++ label :: late)).elapsed = _
      rw [book_elapsed, ticks_append, ticks_cons, sets.ticks, Nat.zero_add]
    have short : ticks early + ticks late ≤ ticks history := by
      rw [whole, ticks_append, ticks_append, ticks_cons, ticks_append]
      omega
    have bound := range.elapsed
    rw [deadline, looked, Int32.lt_iff_toInt_lt, number, Int32.toInt_ofNat_of_lt (by omega)] at left
    omega
  · -- `next_alarm` is no later than the alarm, and the handler compares with it
    rintro waits early label late q deltaTicks p rfl sets nonzero passes reached bound reentered
    have looked := kept.looked
    rw [waits] at looked
    obtain ⟨deadline, known⟩ := deadline_passes k.hz early sets nonzero passes
    obtain ⟨positive, number, some_⟩ := range.deadline rfl sets nonzero
    have next := looked p (by rw [deadline]; exact some_) (known rfl)
    have interrupts : s.clock.Interrupts := by
      refine .inl (Int32.le_trans next ?_)
      rw [deadline, kept.now, book_elapsed, ← Int32.ofNat_add, Int32.le_iff_toInt_le, number,
        Int32.toInt_ofNat_of_lt bound, ticks_append, ticks_cons, sets.ticks]
      omega
    rw [clockHandler_eq, if_pos interrupts]

/-- The tasks do what an alarm clock allows, and it is in time while the clock does not wrap. -/
theorem alarms_on_time (run : (tasks k).Run history s) :
    ((∃ b, (alarmClock k.hz).Run history b) ∧ s.clock.now = .ofNat (ticks history)) ∧
      (InRange history → Timely k history s) := by
  obtain ⟨b, followed, kept⟩ := follows_alarmClock run
  refine ⟨⟨⟨b, followed⟩, ?_⟩, fun range => timely_of_inRange range followed kept⟩
  rw [kept.now, book_of_run followed, book_elapsed]

end

/-! ## Two servers with synchronous alarms, and a child with the alarm of its parent -/

def smallWatch : List (Label Client) :=
  .syn none :: .setSynAlarm .inet 1 0 :: smallSearch ++ .setSynAlarm .fs 1 0 :: smallSearch ++
    .setAlarm .sh 1 0 0 :: smallSearch ++
    [.fork .sh .date true, .clockHandler 1 true, .hardInt, .reset, .look, .look, .ring .inet, .turnOff .inet, .ring .fs,
      .syn (some .inet), .syn (some .fs), .syn none, .syn none, .turnOff .fs, .ring .sh, .turnOff .sh, .ring .date,
      .turnOff .date, .countDown]

theorem smallWatch_run (labels : List (Label Client)) (good : Tasks Client → Bool)
    (played : (labels.foldlM play smallBoot).any good = true) :
    ∃ s, (tasks smallHost).Run labels s ∧ good s = true :=
  System.run_of_play (fun _ _ _ => play_steps) smallBoot_init played

def Label.oneTick : Label Client → Bool
  | .setAlarm _ deltaTicks _ _ | .setSynAlarm _ deltaTicks _ => deltaTicks = 1
  | _ => true

theorem smallWatch_inRange : InRange smallWatch := by
  have small : ∀ label ∈ smallWatch, label.oneTick = true := by decide
  refine inRange_of_bound 1 (by decide) fun label member q deltaTicks sets => ?_
  have one := small label member
  cases label <;>
    first | exact sets.elim | (obtain ⟨-, rfl⟩ := sets; obtain rfl := of_decide_eq_true one; decide)

theorem alarms_on_time_smallWatch : ∃ s, (tasks smallHost).Run smallWatch s ∧ s.place = .receive ∧
    (∃ b, (alarmClock 60).Run smallWatch b) ∧ Timely smallHost smallWatch s := by
  obtain ⟨s, run, place⟩ := smallWatch_run smallWatch (·.place = .receive) (by decide +kernel)
  obtain ⟨⟨clock, -⟩, timely⟩ := alarms_on_time run
  exact ⟨s, run, of_decide_eq_true place, clock, timely smallWatch_inRange⟩

end SoiStud.Kernel.Alarms
