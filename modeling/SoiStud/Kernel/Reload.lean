import SoiStud.Kernel.Alarms

/-! Where `sched_ticks` is reloaded.

The handler does it by the quantum of group 1. `do_clocktick` reads the group of the process
at the head of the ready queue, and does not look whether there is one: an alarm brings the
clock task here although no process is ready, or takes the last ready process away.
-/

set_option autoImplicit false

namespace SoiStud.Kernel.Alarms

open Library

section
variable {Proc : Type} [DecidableEq Proc] (k : Host Proc)

/-- `sched_ticks` gets a new quantum in this step. -/
def Tasks.reloads (s : Tasks Proc) : Label Proc → Bool
  | .clockHandler _ called => !called && s.clock.schedTicks = 1
  | .reload | .nullRead => true
  | _ => false

structure World (Proc : Type) where
  tasks : Tasks Proc
  reloads : List (State Proc)

def World.enter (w : World Proc) (label : Label Proc) (s : Tasks Proc) : World Proc :=
  ⟨s, if w.tasks.reloads label then w.reloads ++ [s.clock] else w.reloads⟩

def watched : System (World Proc) (Label Proc) where
  init w := (tasks k).init w.tasks ∧ w.reloads = []
  step w label w' := Steps k w.tasks label w'.tasks ∧ w' = w.enter label w'.tasks

/-- The quantum is the one of the group of the process at the head, if there is one. -/
def RightQuantum (m : Machine Proc) (s : State Proc) : Prop := ∀ head ∈ s.readyQueue.head?, s.schedTicks = m.quantum s head

instance (m : Machine Proc) (s : State Proc) : Decidable (RightQuantum m s) :=
  inferInstanceAs (Decidable (∀ head ∈ s.readyQueue.head?, s.schedTicks = m.quantum s head))

/-- The group has been read of a process only, and every reload was right. -/
structure World.Right (history : List (Label Proc)) (w : World Proc) : Prop where
  noNull : .nullRead ∉ history
  quantum : ∀ s ∈ w.reloads, RightQuantum k.toMachine s

/-- What must hold before a step: the handler's reload finds no process of group 2 at the head of the queue,
and when `do_clocktick` counts the last tick of a quantum some process is ready. -/
def Tasks.Fits (s : Tasks Proc) : Label Proc → Prop
  | .clockHandler _ _ => s.clock.schedTicks = 1 → ¬ s.clock.Interrupts →
      ∀ head ∈ s.clock.readyQueue.head?, s.clock.procGrp head ≠ 2
  | .countDown => s.clock.schedTicks = 1 → s.clock.readyQueue ≠ []
  | _ => True

variable {k} {s t : Tasks Proc} {w u : World Proc} {label : Label Proc} {history : List (Label Proc)}

/-! ## The handler -/

theorem clockHandler_cases (m : Machine Proc) (reentered : Bool) (s : State Proc) :
    ∃ interrupted t, m.clockHandler reentered s = (interrupted, t) ∧ t.readyQueue = s.readyQueue ∧
      t.procGrp = s.procGrp ∧
      ((s.Interrupts ∧ interrupted = true ∧ t.schedTicks = s.schedTicks) ∨
       (¬ s.Interrupts ∧ interrupted = false ∧ s.schedTicks = 1 ∧ t.schedTicks = m.schedRate) ∨
       (¬ s.Interrupts ∧ interrupted = false ∧ s.schedTicks ≠ 1 ∧ t.schedTicks = s.schedTicks - 1)) := by
  have accounted := account_spec m reentered s
  rw [clockHandler_eq]
  split
  next interrupts => exact ⟨_, _, rfl, accounted.queue, accounted.groups, .inl ⟨interrupts, rfl, accounted.schedTicks⟩⟩
  next calm =>
    split
    next last => exact ⟨_, _, rfl, accounted.queue, accounted.groups, .inr (.inl ⟨calm, rfl, last, rfl⟩)⟩
    next more => exact ⟨_, _, rfl, accounted.queue, accounted.groups, .inr (.inr ⟨calm, rfl, more, rfl⟩)⟩

omit [DecidableEq Proc] in
theorem quantum_eq_schedRate (m : Machine Proc) (s : State Proc) (p : Proc) :
    m.quantum s p = m.schedRate ↔ s.procGrp p ≠ 2 := by
  have := m.schedRate_pos
  unfold Machine.quantum
  split <;> grind

theorem clockHandler_fits {ticks : Nat} {called : Bool} (steps : Steps k s (.clockHandler ticks called) t) :
    t.place = s.place ∧ t.clock.readyQueue = s.clock.readyQueue ∧
      (s.reloads (.clockHandler ticks called) = true ↔ s.clock.schedTicks = 1 ∧ ¬ s.clock.Interrupts) ∧
      (s.reloads (.clockHandler ticks called) = true →
        (RightQuantum k.toMachine t.clock ↔ s.Fits (.clockHandler ticks called))) := by
  cases steps with
  | @clockHandler reentered called c ran =>
    obtain ⟨_, _, handled, queue, groups, ways⟩ := clockHandler_cases k.toMachine reentered s.clock
    rw [handled] at ran
    cases ran
    refine ⟨rfl, queue, ?_, fun reloads => ?_⟩
    · obtain ⟨interrupts, rfl, -⟩ | ⟨calm, rfl, last, -⟩ | ⟨-, rfl, more, -⟩ := ways
      · simp [Tasks.reloads, interrupts]
      · simp [Tasks.reloads, calm, last]
      · simp [Tasks.reloads, more]
    obtain ⟨-, rfl, -⟩ | ⟨calm, rfl, last, reload⟩ | ⟨-, rfl, more, -⟩ := ways
    · simp [Tasks.reloads] at reloads
    · -- the handler has set the quantum of group 1
      unfold RightQuantum Tasks.Fits
      dsimp only
      rw [queue, reload]
      simp only [last, calm, Int.natCast_inj, eq_comm (a := k.schedRate), quantum_eq_schedRate, groups, not_false_eq_true,
        true_implies]
    · simp [Tasks.reloads, more] at reloads

/-! ## Between the last tick of a quantum and the reload -/

/-- `sched_ticks` has come to zero, and the group is still to be read. -/
def Place.Ending (place : Place Proc) : Prop := place = .expired ∨ place = .reads

/-- The group will be read through a null pointer. -/
def Tasks.Doomed (s : Tasks Proc) : Prop := s.place.Ending ∧ s.clock.readyQueue = []

omit [DecidableEq Proc] in
theorem Place.Ending.awake {place : Place Proc} (ends : place.Ending) : place.blocked = false := by
  rcases ends with rfl | rfl <;> rfl

omit [DecidableEq Proc] in
theorem sleep_ending : s.sleep.clock = s.clock ∧ (s.sleep.place = s.place ∨ ¬ s.place.Ending ∧ ¬ s.sleep.place.Ending) := by
  unfold Tasks.sleep Place.Ending
  split
  · rename_i rp rest blocked
    rw [blocked]
    exact ⟨rfl, .inr ⟨by simp, by simp⟩⟩
  · exact ⟨rfl, .inl rfl⟩

theorem pass_ending {sent : Option Proc} (ran : k.pass s = (sent, t)) :
    t.clock = s.clock ∧ (t.place = s.place ∨ ¬ s.place.Ending ∧ ¬ t.place.Ending) := by
  unfold Host.pass at ran
  split at ran <;> cases ran
  · exact ⟨rfl, .inl rfl⟩
  · exact sleep_ending

theorem goOn_ending {rest : List Proc} {sent : Option Proc} (ran : k.goOn rest s = (sent, t)) :
    t.clock = s.clock ∧ (t.place = s.place ∨ ¬ s.place.Ending ∧ ¬ t.place.Ending) := by
  unfold Host.goOn at ran
  split at ran
  · cases ran
    exact ⟨rfl, .inl rfl⟩
  · exact pass_ending ran

theorem ring_place (k : Host Proc) (rp : Proc) (rest : List Proc) (s : Tasks Proc) : ¬ (k.ring rp rest s).place.Ending := by
  unfold Host.ring Place.Ending
  dsimp only
  split
  · split
    · simp
    · split <;> simp
  · simp

/-- How a step gets there, stays there, and leaves. -/
theorem ending_cases (steps : Steps k s label t) :
    (¬ s.place.Ending ∧ ¬ t.place.Ending) ∨ (t.place = s.place ∧ t.clock.readyQueue = s.clock.readyQueue) ∨
      (label = .countDown ∧ s.clock.schedTicks = 1 ∧ ¬ s.place.Ending ∧ t.clock.readyQueue = s.clock.readyQueue) ∨
      (label = .lockSched ∧ s.place.Ending ∧ t.place.Ending ∧ t.clock.readyQueue = k.rotated s.clock) ∨
      (label = .reload ∧ s.clock.readyQueue ≠ [] ∧ ¬ t.place.Ending) ∨
      (label = .nullRead ∧ s.Doomed ∧ ¬ t.place.Ending) := by
  have syn (ways : t.clock = s.clock ∧ (t.place = s.place ∨ ¬ s.place.Ending ∧ ¬ t.place.Ending)) :
      (¬ s.place.Ending ∧ ¬ t.place.Ending) ∨ (t.place = s.place ∧ t.clock.readyQueue = s.clock.readyQueue) := by
    obtain ⟨same, stays | free⟩ := ways
    · exact .inr ⟨stays, congrArg _ same⟩
    · exact .inl free
  have free {place : Place Proc} (at_ : s.place = place) (other : ¬ place.Ending) : ¬ s.place.Ending := at_ ▸ other
  cases steps with
  | clockHandler ran =>
    obtain ⟨place, queue, -, -⟩ := clockHandler_fits (.clockHandler ran)
    exact .inr (.inl ⟨place, queue⟩)
  | hardInt waits =>
    refine .inl ⟨free waits (by simp [Place.Ending]), ?_⟩
    unfold Tasks.hardInt Place.Ending
    dsimp only
    split <;> simp
  | alarmed at_ | recorded at_ | setAlarm at_ | setSynAlarm at_ | reply at_ | turnOff at_ | look at_ | search at_ | record at_ =>
    exact .inl ⟨free at_ (by simp [Place.Ending]), by simp [Place.Ending, Tasks.reset, Tasks.look, Tasks.record,
      Host.doSetalarm, doSetsynAlrm, Tasks.commonSetalarm]⟩
  | ring at_ => exact .inl ⟨free at_ (by simp [Place.Ending]), ring_place k _ _ s⟩
  | countDown at_ =>
    by_cases last : s.clock.schedTicks - 1 = 0
    · exact .inr (.inr (.inl ⟨rfl, by omega, free at_ (by simp [Place.Ending]), rfl⟩))
    · refine .inl ⟨free at_ (by simp [Place.Ending]), ?_⟩
      unfold Tasks.countDown Place.Ending
      simp [last]
  | lockSched at_ => exact .inr (.inr (.inr (.inl ⟨rfl, .inl at_, .inr rfl, rfl⟩)))
  | reload at_ queue => exact .inr (.inr (.inr (.inr (.inl ⟨rfl, by simp [queue], by simp [Place.Ending, Tasks.reload]⟩))))
  | nullRead at_ queue =>
    exact .inr (.inr (.inr (.inr (.inr ⟨rfl, ⟨.inr at_, queue⟩, by simp [Place.Ending, Tasks.reload]⟩))))
  | getUptime | getTime | setTime | exit | fork => exact .inr (.inl ⟨rfl, rfl⟩)
  | starts at_ ran | wakes at_ ran =>
    have ways := pass_ending ran
    exact (syn ways).imp id .inl
  | goesOn at_ ran => exact (syn (goOn_ending ran)).imp id .inl
  | elsewhere keeps rest =>
    -- while the clock task runs nobody changes the ready queue
    by_cases ends : s.place.Ending
    · rw [ends.awake] at rest
      obtain blocked | ⟨queue, -⟩ := rest
      · cases blocked
      · exact .inr (.inl ⟨rfl, queue⟩)
    · exact .inl ⟨ends, ends⟩

/-! ## The property over whole runs -/

omit [DecidableEq Proc] in
theorem enter_reloads (w : World Proc) (label : Label Proc) (s : Tasks Proc) :
    (w.enter label s).reloads = if w.tasks.reloads label then w.reloads ++ [s.clock] else w.reloads := rfl

theorem right_of_enter : (w.enter label s).Right k (history ++ [label]) ↔
    w.Right k history ∧ label ≠ .nullRead ∧ (w.tasks.reloads label = true → RightQuantum k.toMachine s.clock) := by
  constructor
  · rintro ⟨noNull, quantum⟩
    rw [List.mem_append, not_or, List.mem_singleton] at noNull
    rw [enter_reloads] at quantum
    refine ⟨⟨noNull.1, fun c member => quantum c ?_⟩, Ne.symm noNull.2, fun reloads => quantum _ ?_⟩
    · split
      · exact List.mem_append_left _ member
      · exact member
    · rw [if_pos reloads]
      exact List.mem_concat_self
  · rintro ⟨⟨noNull, quantum⟩, other, right⟩
    refine ⟨by simp [noNull, Ne.symm other], fun c member => ?_⟩
    rw [enter_reloads] at member
    split at member
    · rename_i reloads
      rcases List.mem_append.mp member with earlier | last
      · exact quantum c earlier
      · rw [List.mem_singleton.mp last]
        exact right reloads
    · exact quantum c member

/-- The reload of the clock task is right where there is a group to be read. -/
theorem reload_cases (steps : Steps k s label t) (reloads : s.reloads label = true) :
    (RightQuantum k.toMachine t.clock ↔ s.Fits label) ∨ label = .nullRead := by
  cases label with
  | clockHandler ticks called => exact .inl ((clockHandler_fits steps).2.2.2 reloads)
  | reload =>
    cases steps with
    | reload at_ queue =>
      refine .inl (iff_of_true (fun head front => ?_) trivial)
      change head ∈ s.clock.readyQueue.head? at front
      rw [queue] at front
      cases front
      rfl
  | nullRead => exact .inr rfl
  | _ => cases reloads

theorem rotated_ne_nil (m : Machine Proc) {s : State Proc} (some_ : s.readyQueue ≠ []) : m.rotated s ≠ [] := by
  unfold Machine.rotated
  split
  · obtain ⟨head, rest, queue⟩ := List.exists_cons_of_ne_nil some_
    simp [queue, m.lockSched_cons]
  · exact some_

/-- A step that fits is right, and it does not lead to a null pointer. -/
theorem right_of_fits (steps : Steps k s label t) (fits : s.Fits label) (sound : ¬ s.Doomed) :
    (label ≠ .nullRead ∧ (s.reloads label = true → RightQuantum k.toMachine t.clock)) ∧ ¬ t.Doomed := by
  have other : label ≠ .nullRead := by
    rintro rfl
    cases steps with
    | nullRead at_ empty => exact sound ⟨.inr at_, empty⟩
  refine ⟨⟨other, fun reloads => ?_⟩, ?_⟩
  · obtain right | null := reload_cases steps reloads
    · exact right.mpr fits
    · exact absurd null other
  · rintro ⟨ends, empty⟩
    obtain ⟨-, free⟩ | ⟨place, queue⟩ | ⟨rfl, last, -, queue⟩ | ⟨-, ending, -, queue⟩ | ⟨-, -, free⟩ | ⟨-, -, free⟩ :=
      ending_cases steps
    · exact free ends
    · exact sound ⟨place ▸ ends, queue ▸ empty⟩
    · exact fits last (queue ▸ empty)
    · exact rotated_ne_nil k.toMachine (fun none_ => sound ⟨ending, none_⟩) (queue ▸ empty)
    · exact free ends
    · exact free ends

/-- A step that does not fit is not right, or leads to a null pointer. -/
theorem doomed_of_right (nil : k.lockSched [] = []) (steps : Steps k s label t)
    (right : label ≠ .nullRead ∧ (s.reloads label = true → RightQuantum k.toMachine t.clock))
    (bad : s.Doomed ∨ ¬ s.Fits label) : t.Doomed := by
  obtain ⟨other, quantum⟩ := right
  -- doomed already; or this step does not fit
  rcases bad with ⟨ending, empty⟩ | unfit
  · obtain ⟨free, -⟩ | ⟨place, queue⟩ | ⟨-, -, free, -⟩ | ⟨-, -, ends, queue⟩ | ⟨-, some_, -⟩ | ⟨null, -⟩ := ending_cases steps
    · exact absurd ending free
    · exact ⟨place ▸ ending, queue.trans empty⟩
    · exact absurd ending free
    · refine ⟨ends, queue.trans ?_⟩
      unfold Machine.rotated
      rw [empty, nil, ite_self]
    · exact absurd empty some_
    · exact absurd null other
  · cases label with
    | clockHandler ticks called =>
      obtain ⟨-, -, when, right⟩ := clockHandler_fits steps
      have reloads : s.reloads (.clockHandler ticks called) = true := by
        unfold Tasks.Fits at unfit
        simp only [Classical.not_imp] at unfit
        obtain ⟨last, calm, -⟩ := unfit
        exact when.mpr ⟨last, calm⟩
      exact absurd ((right reloads).mp (quantum reloads)) unfit
    | countDown =>
      unfold Tasks.Fits at unfit
      simp only [Classical.not_imp, not_not] at unfit
      obtain ⟨last, empty⟩ := unfit
      cases steps with
      | countDown at_ =>
        refine ⟨.inl (if_pos ?_), empty⟩
        omega
    | _ => exact absurd trivial unfit

/-- In a run of clock interrupts, alarms and changes of the ready queue whose steps all fit, the group is never
read through a null pointer and every reload is right. No other run is so, but those that are on the way to a null pointer. -/
theorem right_iff_fits (run : (watched k).Run history w) :
    (((watched k).restrict fun w label _ => w.tasks.Fits label).Run history w → w.Right k history) ∧
      (k.lockSched [] = [] → w.Right k history → ¬ w.tasks.Doomed →
        ((watched k).restrict fun w label _ => w.tasks.Fits label).Run history w) := by
  constructor
  · intro fitting
    refine (fitting.induction_on (P := fun history w => w.Right k history ∧ ¬ w.tasks.Doomed) ?_ ?_).1
    · rintro w ⟨⟨-, -, -, -, -, -, -, waits, -⟩, none_⟩
      refine ⟨⟨nofun, by simp [none_]⟩, ?_⟩
      rintro ⟨ending, -⟩
      rw [waits] at ending
      simp [Place.Ending] at ending
    · rintro history w label u - ⟨right, sound⟩ ⟨⟨steps, entered⟩, fits⟩
      obtain ⟨now, still⟩ := right_of_fits steps fits sound
      rw [entered]
      exact ⟨right_of_enter.mpr ⟨right, now⟩, still⟩
  · -- a step that does not fit is not right or leads to a null pointer, and there is no way back from there
    intro nil
    have either : w.Right k history → w.tasks.Doomed ∨
        ((watched k).restrict fun w label _ => w.tasks.Fits label).Run history w := by
      induction run with
      | start initial => exact fun _ => .inr (.start initial)
      | @next history w u label earlier edge ih =>
        obtain ⟨steps, entered⟩ := edge
        intro right
        rw [entered] at right
        obtain ⟨before, now⟩ := right_of_enter.mp right
        obtain doomed | fitting := ih before
        · exact .inl (doomed_of_right nil steps now (.inl doomed))
        · by_cases fits : w.tasks.Fits label
          · exact .inr (fitting.next ⟨⟨steps, entered⟩, fits⟩)
          · exact .inl (doomed_of_right nil steps now (.inr fits))
    exact fun right sound => (either right).resolve_left sound

end

/-! ## An alarm at the end of a quantum -/

def booted (group : Int) : World Client where
  tasks := { smallBoot with clock := { smallBoot.clock with procGrp := fun _ => group } }
  reloads := []

theorem booted_init (group : Int) : (watched smallHost).init (booted group) :=
  ⟨⟨fun _ => rfl, rfl, rfl, rfl, fun _ => rfl, fun _ => rfl, rfl, rfl, rfl⟩, rfl⟩

def watch (w : World Client) (label : Label Client) : Option (World Client) := (play w.tasks label).map (w.enter label)

theorem watch_steps {w u : World Client} {label : Label Client} (watching : watch w label = some u) :
    (watched smallHost).step w label u := by
  obtain ⟨s, played, rfl⟩ := Option.map_eq_some_iff.mp watching
  exact ⟨play_steps played, rfl⟩

theorem run_of_booted (group : Int) (labels : List (Label Client)) (good : World Client → Bool)
    (played : (labels.foldlM watch (booted group)).any good = true) :
    ∃ w, (watched smallHost).Run labels w ∧ good w = true :=
  System.run_of_play (fun _ _ _ => watch_steps) (booted_init group) played

/-- The first tick looks for alarms; four more leave one tick of the quantum. -/
def fiveTicks : List (Label Client) :=
  [.clockHandler 1 true, .hardInt, .reset] ++ List.replicate 6 .look ++ .countDown :: List.replicate 4 (.clockHandler 1 false)

def twoQuanta : List (Label Client) :=
  fiveTicks ++ List.replicate 6 (.clockHandler 1 false) ++
    [.clockHandler 1 true, .hardInt, .countDown, .lockSched, .reload, .record]

theorem right_iff_fits_booted : ∃ w, (watched smallHost).Run twoQuanta w ∧ w.reloads.length = 2 ∧
    (((watched smallHost).restrict fun w label _ => w.tasks.Fits label).Run twoQuanta w → w.Right smallHost twoQuanta) ∧
    (w.Right smallHost twoQuanta →
      ((watched smallHost).restrict fun w label _ => w.tasks.Fits label).Run twoQuanta w) := by
  obtain ⟨w, run, ends⟩ := run_of_booted 1 twoQuanta (fun w => w.reloads.length = 2 ∧ w.tasks.place = .receive)
    (by decide +kernel)
  obtain ⟨reloads, waits⟩ := of_decide_eq_true ends
  obtain ⟨right, fitting⟩ := right_iff_fits run
  refine ⟨w, run, reloads, right, fun met => fitting rfl met ?_⟩
  rintro ⟨ending, -⟩
  rw [waits] at ending
  rcases ending with other | other <;> cases other

def lastTick : List (Label Client) :=
  fiveTicks ++ .setAlarm .sh 1 0 0 :: smallSearch ++
    [.clockHandler 1 true, .hardInt, .reset, .look, .look, .look, .look, .ring .sh, .turnOff .sh, .look, .countDown,
      .lockSched, .nullRead]

/-- The group is read through a null pointer; or the shell is of group 2 and its first quantum ends in the handler. -/
theorem reload_fails :
    (∃ w, (watched smallHost).Run lastTick w ∧ ¬ w.Right smallHost lastTick) ∧
    ∃ w, (watched smallHost).Run (fiveTicks ++ [.clockHandler 1 false]) w ∧
      ¬ w.Right smallHost (fiveTicks ++ [.clockHandler 1 false]) := by
  constructor
  · obtain ⟨w, run, -⟩ := run_of_booted 1 lastTick (fun _ => true) (by decide +kernel)
    exact ⟨w, run, fun right => right.noNull (by simp [lastTick])⟩
  · obtain ⟨w, run, wrong⟩ := run_of_booted 2 (fiveTicks ++ [.clockHandler 1 false])
      (fun w => w.reloads.any fun s => ¬ RightQuantum smallHost.toMachine s) (by decide +kernel)
    obtain ⟨s, member, unfit⟩ := List.any_eq_true.mp wrong
    exact ⟨w, run, fun right => of_decide_eq_true unfit (right.quantum s member)⟩

end SoiStud.Kernel.Alarms
