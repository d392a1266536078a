import SoiStud.Kernel.OnTime
import SoiStud.Library.Population
import SoiStud.Library.Since

/-! No synchronous alarm gets lost between the two tasks.

Each `CLOCK_INT` is for a synchronous alarm that has rung since the last one. The synchronous
alarm task does not go to sleep while there is one to send, and the clock task does not stay
blocked.
-/

set_option autoImplicit false

namespace SoiStud.Kernel.Alarms

open Library

section
variable {Proc : Type} [DecidableEq Proc] {k : Host Proc} {hz : Nat} {history : List (Label Proc)} {s t : Tasks Proc}
  {b : Book Proc} {p : Proc} {rest : List Proc} {label : Label Proc}

def Synchronous (p : Proc) : List (Label Proc) → Prop :=
  Since (fun _ label => ∃ deltaTicks left, label = .setSynAlarm p deltaTicks left)
    fun label => ∃ deltaTicks, label.Sets p deltaTicks

def Owed (p : Proc) : List (Label Proc) → Prop :=
  Since (fun early label => label = .ring p ∧ Synchronous p early) fun label => label = .syn (some p)

theorem enter_synchronous (other : ∀ deltaTicks, ¬ label.Sets p deltaTicks) :
    (b.enter hz label).synchronous p = b.synchronous p := by
  cases label with
  | syn sent => cases sent <;> rfl
  | setAlarm q delta function left => exact Function.update_of_ne (fun same => other delta ⟨same.symm, rfl⟩) _ _
  | setSynAlarm q delta left => exact Function.update_of_ne (fun same => other delta ⟨same.symm, rfl⟩) _ _
  | _ => rfl

theorem book_synchronous (hz : Nat) : (book hz history).synchronous p = true ↔ Synchronous p history := by
  induction history using List.reverseRecOn with
  | nil => exact iff_of_false nofun not_since_nil
  | append_singleton history label ih =>
    unfold Synchronous at ih ⊢
    rw [book_concat, since_append, ← ih]
    by_cases sets : ∃ deltaTicks, label.Sets p deltaTicks
    · simp only [sets, not_true_eq_false, false_and, or_false]
      obtain ⟨deltaTicks, sets⟩ := sets
      cases label with
      | setAlarm q delta function left =>
        obtain ⟨rfl, -⟩ := sets
        exact iff_of_false (by simp [Book.enter, Book.set]) nofun
      | setSynAlarm q delta left =>
        obtain ⟨rfl, -⟩ := sets
        exact iff_of_true (by simp [Book.enter, Book.set]) ⟨_, _, rfl⟩
      | _ => exact sets.elim
    · have plain : ¬ ∃ deltaTicks left, label = .setSynAlarm p deltaTicks left := by
        rintro ⟨deltaTicks, left, rfl⟩
        exact sets ⟨deltaTicks, rfl, rfl⟩
      rw [enter_synchronous (not_exists.mp sets)]
      simp [sets, plain]

theorem book_owed (hz : Nat) : (book hz history).owed p = true ↔ Owed p history := by
  induction history using List.reverseRecOn with
  | nil => exact iff_of_false nofun not_since_nil
  | append_singleton history label ih =>
    unfold Owed at ih ⊢
    rw [book_concat, since_append, ← ih, ← book_synchronous hz]
    cases label with
    | ring q =>
      rcases eq_or_ne p q with rfl | other
      · simp [Book.enter]
      · simp [Book.enter, other, other.symm]
    | syn sent =>
      cases sent with
      | none => simp [Book.enter]
      | some q =>
        rcases eq_or_ne p q with rfl | other
        · simp [Book.enter]
        · simp [Book.enter, other, other.symm]
    | _ => simp [Book.enter, Book.set, Book.turnOff, Book.fork]

/-! ## The task gets to sleep -/

def Tasks.Free (s : Tasks Proc) : Prop := ∀ rp rest, s.place ≠ .sends rp rest

omit [DecidableEq Proc] in
theorem sleep_spec :
    s.sleep.synTable = s.synTable ∧ s.sleep.Free ∧
      (s.sleep.syn = .receives ∨ s.sleep.syn = .received ∧ ¬ s.Free) := by
  unfold Tasks.sleep Tasks.Free
  split
  · rename_i rp rest blocked
    exact ⟨rfl, nofun, .inr ⟨rfl, fun free => free rp rest blocked⟩⟩
  · rename_i free
    exact ⟨rfl, free, .inl rfl⟩

def Slept (s t : Tasks Proc) : Prop :=
  (∀ q, t.synTable q = false) ∧ t.Free ∧ (t.syn = .receives ∨ t.syn = .received ∧ ¬ s.Free)

theorem pass_slept (ran : k.pass s = (none, t)) : Slept s t := by
  unfold Host.pass at ran
  split at ran
  · cases ran
  · rename_i nothing
    cases ran
    obtain ⟨table, free, syn⟩ := sleep_spec (s := s)
    exact ⟨fun q => (congrFun table q).trans (nextSet_none nothing q (k.everybody q)), free, syn⟩

theorem syn_steps (k : Host Proc) (awake : s.syn ≠ .receives) :
    ∃ sent t, Steps k s (.syn sent) t ∧ (sent = none → Slept s t) := by
  have slept {u : Tasks Proc} (place : u.place = s.place) (nothing : (k.pass u).1 = none) : Slept s (k.pass u).2 := by
    have slept : Slept u (k.pass u).2 := pass_slept (k := k) (by rw [← nothing])
    unfold Slept Tasks.Free at slept ⊢
    rwa [place] at slept
  cases at_ : s.syn with
  | starts => exact ⟨_, _, .starts at_ rfl, slept rfl⟩
  | sends rest =>
    refine ⟨_, _, .goesOn at_ rfl, fun nothing => ?_⟩
    split at nothing
    · cases nothing
    · exact slept rfl nothing
  | receives => exact absurd at_ awake
  | received => exact ⟨_, _, .wakes at_ rfl, slept rfl⟩

theorem sleeps_after [Fintype Proc] {n : Nat} (run : (tasks k).Run history s)
    (entries : population (s.synTable · = true) = n) :
    ∃ labels t, (tasks k).Run (history ++ labels) t ∧ (∀ label ∈ labels, ∃ sent, label = .syn sent) ∧
      labels.length ≤ n + 2 ∧ t.syn = .receives := by
  -- on the number of entries, which every message lowers by one
  induction n using Nat.strong_induction_on generalizing history s with
  | _ n ih =>
    by_cases asleep : s.syn = .receives
    · exact ⟨[], s, by simpa using run, nofun, Nat.zero_le _, asleep⟩
    obtain ⟨b, followed, kept⟩ := follows_alarmClock run
    obtain ⟨sent, t, steps, slept⟩ := syn_steps k asleep
    obtain ⟨⟨allowed, -⟩, after⟩ := kept.step steps
    have next : (tasks k).Run (history ++ [.syn sent]) t := run.next steps
    cases sent with
    | some p =>
      have set : s.synTable p = true := (congrFun kept.owed p).symm.trans allowed
      have table : t.synTable = Function.update s.synTable p false := by
        rw [← after.owed, ← kept.owed]
        rfl
      have fewer : population (s.synTable · = true) = population (t.synTable · = true) + 1 := by
        refine population_leave (fun q other => ?_) set ?_
        · rw [table, Function.update_of_ne other]
        · rw [table, Function.update_self]
          nofun
      obtain ⟨labels, u, onward, syn, short, done⟩ := ih _ (by omega) next rfl
      refine ⟨.syn (some p) :: labels, u, by simpa using onward, ?_, ?_, done⟩
      · rintro label member
        rcases List.mem_cons.mp member with rfl | member
        · exact ⟨_, rfl⟩
        · exact syn label member
      · rw [List.length_cons]
        omega
    | none =>
      obtain ⟨empty, free, done | ⟨woken, -⟩⟩ := slept rfl
      · exact ⟨[.syn none], t, next, by simp, by simp, done⟩
      · -- the message of the clock task is taken, and nothing more is to do
        obtain ⟨sent, u, again, slept⟩ := syn_steps k (s := t) (by rw [woken]; nofun)
        obtain ⟨⟨allowed, -⟩, -⟩ := after.step again
        have last : sent = none := by
          cases sent with
          | none => rfl
          | some q =>
            have set : t.synTable q = true := (congrFun after.owed q).symm.trans allowed
            rw [empty q] at set
            cases set
        obtain ⟨-, -, done | ⟨-, blocked⟩⟩ := slept last
        · refine ⟨[.syn none, .syn sent], u, ?_, by simp, by simp, done⟩
          have run : (tasks k).Run (history ++ [.syn none] ++ [.syn sent]) u := next.next again
          simpa using run
        · exact absurd free blocked

/-! ## Runs -/

structure Sent (k : Host Proc) [Fintype Proc] (history : List (Label Proc)) (s : Tasks Proc) : Prop where
  /-- A process is sent a message if its synchronous alarm has rung since it was last sent one. -/
  owed : ∀ before p after, history = before ++ .syn (some p) :: after → Owed p before
  /-- Before the task sleeps, all have been sent, and the clock task is not blocked. -/
  quiet : s.syn = .receives → s.Free ∧ ∀ p, ¬ Owed p history
  /-- It needs no more steps for this than there are processes, and two. -/
  sleeps : ∃ labels t, (tasks k).Run (history ++ labels) t ∧ (∀ label ∈ labels, ∃ sent, label = .syn sent) ∧
    labels.length ≤ Fintype.card Proc + 2 ∧ t.syn = .receives

theorem clock_ints_sent [Fintype Proc] (run : (tasks k).Run history s) : Sent k history s := by
  obtain ⟨b, followed, kept⟩ := follows_alarmClock run
  obtain rfl := book_of_run followed
  refine ⟨fun before p after whole => ?_, fun asleep => ?_, ?_⟩
  · exact (book_owed k.hz).mp (allowed_of_run followed before _ after whole)
  · have awake := kept.awake
    rw [asleep] at awake
    obtain ⟨-, empty, free⟩ := awake
    refine ⟨free, fun p owed => ?_⟩
    have set := (congrFun kept.owed p).symm.trans ((book_owed k.hz).mpr owed)
    rw [empty p] at set
    cases set
  · obtain ⟨labels, t, onward, syn, short, done⟩ := sleeps_after run rfl
    refine ⟨labels, t, onward, syn, short.trans (Nat.add_le_add_right ?_ 2), done⟩
    exact Finset.card_le_univ _

end

instance : Fintype Client := ⟨{.clock, .idle, .inet, .fs, .sh, .date}, fun p => by cases p <;> decide⟩

/-- The clock task is blocked at first. -/
theorem clock_ints_sent_smallWatch :
    (∃ s, (tasks smallHost).Run (smallWatch.take 37) s ∧ s.place = .sends .fs [.sh, .date] ∧ Sent smallHost (smallWatch.take 37) s) ∧
    ∃ s, (tasks smallHost).Run smallWatch s ∧ s.syn = .receives ∧ Sent smallHost smallWatch s := by
  constructor
  · obtain ⟨s, run, place⟩ := smallWatch_run (smallWatch.take 37) (·.place = .sends .fs [.sh, .date]) (by decide +kernel)
    exact ⟨s, run, of_decide_eq_true place, clock_ints_sent run⟩
  · obtain ⟨s, run, syn⟩ := smallWatch_run smallWatch (·.syn = .receives) (by decide +kernel)
    exact ⟨s, run, of_decide_eq_true syn, clock_ints_sent run⟩

end SoiStud.Kernel.Alarms
