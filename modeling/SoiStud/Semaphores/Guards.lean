import SoiStud.Semaphores.Permits

/-! What each access finds in the buffer.

A woken thread does not test its condition again. The condition was true when
another thread tested it, and the permit passed from that thread to the woken
one without anybody touching the buffer in between.
-/

set_option autoImplicit false

namespace SoiStud.Semaphores

open Library

variable {T : Type} [Fintype T] [DecidableEq T] {kind : T → Kind} {s s' : State T}

/-- The condition holds wherever somebody relies on it: at an open condition
lock, in a woken thread and in a thread about to access the buffer. -/
structure Guarded (kind : T → Kind) (s : State T) : Prop where
  offered : ∀ k, s.isOpen (.cond k) = true → k.guard s.buffer = true
  woken : ∀ t, s.pc t = .woken → (kind t).guard s.buffer = true
  armed : ∀ t, s.pc t = .access → (kind t).guard s.buffer = true

omit [Fintype T] [DecidableEq T] in
theorem guarded_of_thread {t : T} (permit : s.PermitAt (.inr t))
    (here : s.pc t = .woken ∨ s.pc t = .access → (kind t).guard s.buffer = true) : Guarded kind s where
  offered k isOpen := by
    rw [permit.closed] at isOpen
    cases isOpen
  woken u at_ := by
    cases permit.inside (t := u) (by rw [at_]; rfl)
    exact here (.inl at_)
  armed u at_ := by
    cases permit.inside (t := u) (by rw [at_]; rfl)
    exact here (.inr at_)

omit [Fintype T] [DecidableEq T] in
theorem guarded_of_lock {x : Sem} (permit : s.PermitAt (.inl x))
    (here : ∀ k, x = .cond k → k.guard s.buffer = true) : Guarded kind s where
  offered k isOpen := here k (by cases permit.open isOpen; rfl)
  woken u at_ := by cases permit.inside (t := u) (by rw [at_]; rfl)
  armed u at_ := by cases permit.inside (t := u) (by rw [at_]; rfl)

theorem Guarded.step (guarded : Guarded kind s) (inv : Permits kind s) {t : T} {event : Event}
    (moved : Moves kind s t event s') : Guarded kind s' := by
  have inv' := inv.step moved
  cases moved with
  | enter at_ mutexOpen =>
    exact guarded_of_thread (inv'.at_thread (t := t) (by simp [Pc.inside])) (by simp)
  | pass at_ true_ =>
    exact guarded_of_thread (inv'.at_thread (t := t) (by simp [Pc.inside])) (by simpa using true_)
  | enroll at_ false_ =>
    exact guarded_of_thread (inv'.at_thread (t := t) (by simp [Pc.inside])) (by simp)
  | leave at_ =>
    exact guarded_of_lock (inv'.at_lock (x := .mutex) (by simp)) (by simp)
  | wake at_ condOpen =>
    have true_ := guarded.offered (kind t) condOpen
    exact guarded_of_thread (inv'.at_thread (t := t) (by simp [Pc.inside])) (by simpa using true_)
  | resume at_ =>
    have true_ := guarded.woken t at_
    exact guarded_of_thread (inv'.at_thread (t := t) (by simp [Pc.inside])) (by simpa using true_)
  | access at_ done =>
    exact guarded_of_thread (inv'.at_thread (t := t) (by simp [Pc.inside])) (by simp)
  | @handOff x at_ woken =>
    refine guarded_of_lock (inv'.at_lock (x := x) (by simp)) ?_
    rintro k rfl
    simpa using (wakes_eq_cond woken).1

omit [Fintype T] [DecidableEq T] in
theorem guarded_main : Guarded kind (main kind false : State T) :=
  guarded_of_lock (x := .mutex) (by rintro ((_ | k) | t) <;> simp [State.has, main, Pc.inside])
    (by simp)

theorem guarded_of_reachable (reached : (system kind false).Reachable s) : Guarded kind s :=
  reached.invariant_with (fun _ => permits_of_reachable) (fun _ initial => initial ▸ guarded_main)
    fun _ _ _ inv guarded moved => guarded.step inv (moves_of_step moved)

structure Numbers (kind : T → Kind) (s : State T) : Prop where
  even : ∀ t, kind t = .prodEven → 0 ≤ s.i t ∧ s.i t % 2 = 0
  odd : ∀ t, kind t = .prodOdd → 0 ≤ s.i t ∧ s.i t % 2 = 1
  nonnegative : ∀ num ∈ s.buffer.buffer, 0 ≤ num
  evens : s.buffer.countEven ≤ 10
  odds : s.buffer.countOdd ≤ 10

omit [Fintype T] [DecidableEq T] in
theorem numbers_main (scenario8 : Bool) : Numbers kind (main kind scenario8 : State T) where
  even t same := by simp [main, same]
  odd t same := by simp [main, same]
  nonnegative := by simp [main]
  evens := by simp [main, Buffer.countEven]
  odds := by simp [main, Buffer.countOdd]

omit [Fintype T] [DecidableEq T] in
theorem Numbers.frame (numbers : Numbers kind s) (loop : s'.i = s.i) (same : s'.buffer = s.buffer) :
    Numbers kind s' where
  even t k := by rw [loop]; exact numbers.even t k
  odd t k := by rw [loop]; exact numbers.odd t k
  nonnegative := by rw [same]; exact numbers.nonnegative
  evens := by rw [same]; exact numbers.evens
  odds := by rw [same]; exact numbers.odds

omit [Fintype T] in
theorem Numbers.advance (numbers : Numbers kind s) (t : T) :
    Numbers kind (s.advance (kind t) t) := by
  refine ⟨?_, ?_, by simpa using numbers.nonnegative, by simpa using numbers.evens,
    by simpa using numbers.odds⟩
  · intro u same
    have before := numbers.even u same
    by_cases here : u = t
    · subst here
      simp only [State.advance, same, Function.update_self]
      omega
    · cases at_ : kind t <;> simpa [State.advance, here] using before
  · intro u same
    have before := numbers.odd u same
    by_cases here : u = t
    · subst here
      simp only [State.advance, same, Function.update_self]
      omega
    · cases at_ : kind t <;> simpa [State.advance, here] using before

theorem head_mem {b : Buffer} (nonempty : 0 < b.count) :
    b.peekFirst ∈ b.buffer ∧ ∀ num ∈ b.get.2.buffer, num ∈ b.buffer := by
  have split_ := Buffer.buffer_eq_cons_get nonempty
  rw [Buffer.get_fst] at split_
  refine ⟨?_, ?_⟩
  · rw [split_]; exact List.mem_cons_self
  · intro num member
    rw [split_]; exact List.mem_cons_of_mem _ member

omit [Fintype T] [DecidableEq T] in
theorem Numbers.counts (numbers : Numbers kind s) {t : T} (true_ : (kind t).guard s.buffer = true) :
    (kind t).Counts s.buffer (s.accessBuffer (kind t) t).2.buffer := by
  cases same : kind t with
  | prodEven =>
    have even := (numbers.even t same).2
    exact ⟨Buffer.countEven_put_even s.buffer even, Buffer.countOdd_put_even s.buffer even⟩
  | prodOdd =>
    have odd : s.i t % 2 ≠ 0 := by
      rw [(numbers.odd t same).2]
      decide
    exact ⟨Buffer.countEven_put_odd s.buffer odd, Buffer.countOdd_put_odd s.buffer odd⟩
  | consEven =>
    rw [same, guard_consEven] at true_
    exact ⟨Buffer.countEven_get_even (by omega) true_.2.2, Buffer.countOdd_get_even (by omega) true_.2.2⟩
  | consOdd =>
    rw [same, guard_consOdd] at true_
    exact ⟨Buffer.countEven_get_odd true_.2.2, Buffer.countOdd_get_odd (by omega) true_.2.2⟩

omit [Fintype T] [DecidableEq T] in
theorem Numbers.access_nonnegative (numbers : Numbers kind s) {t : T}
    (true_ : (kind t).guard s.buffer = true) :
    ∀ num ∈ (s.accessBuffer (kind t) t).2.buffer.buffer, 0 ≤ num := by
  have known := numbers.nonnegative
  cases same : kind t <;> simp only [State.accessBuffer]
  · simpa [Buffer.put, or_imp, forall_and] using ⟨known, (numbers.even t same).1⟩
  · simpa [Buffer.put, or_imp, forall_and] using ⟨known, (numbers.odd t same).1⟩
  · rw [same, guard_consEven] at true_
    exact fun num member => known num ((head_mem (by omega)).2 num member)
  · rw [same, guard_consOdd] at true_
    exact fun num member => known num ((head_mem (by omega)).2 num member)

omit [Fintype T] [DecidableEq T] in
theorem Numbers.access (numbers : Numbers kind s) {t : T} (true_ : (kind t).guard s.buffer = true) :
    Numbers kind (s.accessBuffer (kind t) t).2 := by
  have loop : (s.accessBuffer (kind t) t).2.i = s.i := by simp
  have evens := numbers.evens
  have odds := numbers.odds
  have counts := numbers.counts true_
  have bounds : (s.accessBuffer (kind t) t).2.buffer.countEven ≤ 10 ∧
      (s.accessBuffer (kind t) t).2.buffer.countOdd ≤ 10 := by
    -- a producer adds one, but its own guard leaves room for it
    cases same : kind t <;> rw [same] at true_ counts <;> obtain ⟨even, odd⟩ := counts
    · rw [guard_prodEven] at true_
      omega
    · rw [guard_prodOdd] at true_
      omega
    · omega
    · omega
  exact ⟨fun u => loop ▸ numbers.even u, fun u => loop ▸ numbers.odd u, numbers.access_nonnegative true_,
    bounds.1, bounds.2⟩

omit [Fintype T] in
theorem Numbers.step (numbers : Numbers kind s) (guarded : Guarded kind s) {t : T} {event : Event}
    (moved : Moves kind s t event s') : Numbers kind s' := by
  cases moved with
  | access at_ done => exact (numbers.access (guarded.armed t at_)).frame rfl rfl
  | @handOff x at_ woken =>
    have released : Numbers kind (s.set x true) := numbers.frame rfl rfl
    exact (released.advance t).frame rfl rfl
  | _ => exact numbers.frame rfl rfl

theorem numbers_of_reachable (reached : (system kind false).Reachable s) : Numbers kind s :=
  reached.invariant_with (fun _ => guarded_of_reachable) (fun _ initial => initial ▸ numbers_main false)
    fun _ _ _ guarded numbers moved => numbers.step guarded (moves_of_step moved)

def Event.number : Event → Option Int
  | .appended num => some num
  | _ => none

def Event.value : Event → Option Int
  | .received val => some val
  | _ => none

def produced (history : List (T × Event)) : List Int := history.filterMap fun label => label.2.number

def consumed (history : List (T × Event)) : List Int := history.filterMap fun label => label.2.value

omit [Fintype T] [DecidableEq T] in
theorem produced_snoc (history : List (T × Event)) (t : T) (event : Event) :
    produced (history ++ [(t, event)]) = produced history ++ event.number.toList := by
  cases event <;> simp [produced, Event.number]

omit [Fintype T] [DecidableEq T] in
theorem consumed_snoc (history : List (T × Event)) (t : T) (event : Event) :
    consumed (history ++ [(t, event)]) = consumed history ++ event.value.toList := by
  cases event <;> simp [consumed, Event.value]

omit [Fintype T] in
theorem fifo_step (guarded : Guarded kind s) {t : T} {event : Event}
    (moved : Moves kind s t event s') {history : List (T × Event)}
    (fifo : produced history = consumed history ++ s.buffer.buffer) :
    produced (history ++ [(t, event)]) = consumed (history ++ [(t, event)]) ++ s'.buffer.buffer := by
  rw [produced_snoc, consumed_snoc, fifo]
  cases moved with
  | access at_ done =>
    subst done
    have true_ := guarded.armed t at_
    cases same : kind t with
    | prodEven => simp [State.accessBuffer, Event.number, Event.value, Buffer.put]
    | prodOdd => simp [State.accessBuffer, Event.number, Event.value, Buffer.put]
    | consEven =>
      rw [same, guard_consEven] at true_
      rw [Buffer.buffer_eq_cons_get (b := s.buffer) (by omega)]
      simp [State.accessBuffer, Event.number, Event.value]
    | consOdd =>
      rw [same, guard_consOdd] at true_
      rw [Buffer.buffer_eq_cons_get (b := s.buffer) (by omega)]
      simp [State.accessBuffer, Event.number, Event.value]
  | _ => simp [Event.number, Event.value]

theorem fifo_of_run {history : List (T × Event)} (run : (system kind false).Run history s) :
    produced history = consumed history ++ s.buffer.buffer := by
  refine run.induction_on (P := fun history s => produced history = consumed history ++ s.buffer.buffer)
    ?_ ?_
  · rintro s rfl
    rfl
  · intro history s label t earlier fifo edge
    exact fifo_step (guarded_of_reachable ⟨history, earlier⟩) (moves_of_step edge) fifo

def Event.visited (event : Event) : Option Int := event.number.or event.value

def visits (kind : T → Kind) (history : List (T × Event)) : List (Kind × Int) :=
  history.filterMap fun label => label.2.visited.map (kind label.1, ·)

omit [Fintype T] in
theorem Moves.buffer_eq {t : T} {event : Event} (moved : Moves kind s t event s') :
    event.visited = none ∧ s'.buffer = s.buffer ∨
      s.pc t = .access ∧ event.visited = some ((kind t).visit (s.i t) s.buffer).1 ∧
        s'.buffer = ((kind t).visit (s.i t) s.buffer).2 := by
  cases moved with
  | access at_ done =>
    subst done
    refine .inr ⟨at_, ?_⟩
    cases kind t <;> exact ⟨rfl, rfl⟩
  | _ => exact .inl ⟨rfl, by simp⟩

/-- Every history of the buffer is one that the rules of the exercise allow. -/
theorem specified_of_run {history : List (T × Event)} (run : (system kind false).Run history s) :
    specification.Run (visits kind history) s.buffer := by
  refine run.refines (fun _ initial => initial ▸ rfl) ?_ ?_
  · intro s label s' _ edge hidden
    rcases (moves_of_step edge).buffer_eq with ⟨-, kept⟩ | ⟨-, seen, -⟩
    · exact kept
    · simp [seen] at hidden
  · intro s label s' visit reached edge shown
    have numbers := numbers_of_reachable reached
    rcases (moves_of_step edge).buffer_eq with ⟨unseen, -⟩ | ⟨at_, seen, left⟩
    · simp [unseen] at shown
    · rw [seen] at shown
      cases shown
      rw [left]
      refine specification_visit ((guarded_of_reachable reached).armed label.1 at_)
        (fun even => (numbers.even _ even).2) fun odd => ?_
      rw [(numbers.odd _ odd).2]
      decide

omit [Fintype T] in
/-- In scenario 8 every thread is stuck at the first lock. -/
theorem stuck_of_scenario8 {history : List (T × Event)} (run : (system kind true).Run history s) :
    history = [] ∧ s = main kind true := by
  refine run.induction_on (P := fun history s => history = [] ∧ s = main kind true) ?_ ?_
  · rintro s rfl
    exact ⟨rfl, rfl⟩
  · rintro history s label t _ ⟨_, rfl⟩ edge
    have stuck : step kind (main kind true) label.1 = none := rfl
    simp [system, stuck] at edge

omit [Fintype T] in
/-- What an access finds, for a state in which the conditions are where they are relied on. -/
theorem access_guarded (guarded : Guarded kind s) (numbers : Numbers kind s) (t : T) :
    (∀ num s', step kind s t = some (.appended num, s') →
      (num % 2 = 0 → s.buffer.countEven < 10) ∧
      (num % 2 ≠ 0 → s.buffer.countOdd < s.buffer.countEven)) ∧
    ∀ val s', step kind s t = some (.received val, s') →
      val = s.buffer.peekFirst ∧ val ≠ -1 ∧
      (kind t = .consEven ∧ val % 2 = 0 ∧ 3 ≤ s.buffer.count ∨
        kind t = .consOdd ∧ val % 2 ≠ 0 ∧ 7 ≤ s.buffer.count) := by
  refine ⟨?_, ?_⟩
  · intro num s' moved
    cases moves_of_step moved with
    | access at_ done =>
      have true_ := guarded.armed t at_
      cases same : kind t <;> rw [same] at true_ done <;> simp only [State.accessBuffer] at done
      · cases done
        have even := (numbers.even t same).2
        exact ⟨fun _ => (guard_prodEven _).mp true_, fun odd => absurd even odd⟩
      · cases done
        have odd := (numbers.odd t same).2
        exact ⟨fun even => by omega, fun _ => (guard_prodOdd _).mp true_⟩
      · cases done
      · cases done
  · intro val s' moved
    cases moves_of_step moved with
    | access at_ done =>
      have true_ := guarded.armed t at_
      cases same : kind t <;> rw [same] at true_ done <;> simp only [State.accessBuffer] at done
      · cases done
      · cases done
      · obtain ⟨long, marker, even⟩ := (guard_consEven _).mp true_
        cases done
        rw [Buffer.get_fst]
        exact ⟨rfl, marker, .inl ⟨rfl, even, long⟩⟩
      · obtain ⟨long, marker, odd⟩ := (guard_consOdd _).mp true_
        cases done
        rw [Buffer.get_fst]
        exact ⟨rfl, marker, .inr ⟨rfl, odd, long⟩⟩

/-- The rules of the exercise hold at every access of every run from the state
set up by `main`, and so do the bounds and the order they imply. -/
theorem buffer_rules (kind : T → Kind) (scenario8 : Bool) (history : List (T × Event)) (s : State T)
    (run : (system kind scenario8).Run history s) :
    (∀ t num s', step kind s t = some (.appended num, s') →
      (num % 2 = 0 → s.buffer.countEven < 10) ∧
      (num % 2 ≠ 0 → s.buffer.countOdd < s.buffer.countEven)) ∧
    (∀ t val s', step kind s t = some (.received val, s') →
      val = s.buffer.peekFirst ∧ val ≠ -1 ∧
      (kind t = .consEven ∧ val % 2 = 0 ∧ 3 ≤ s.buffer.count ∨
        kind t = .consOdd ∧ val % 2 ≠ 0 ∧ 7 ≤ s.buffer.count)) ∧
    s.buffer.countEven ≤ 10 ∧ s.buffer.countOdd ≤ 10 ∧ consumed history <+: produced history := by
  cases scenario8 with
  | false =>
    have guarded := guarded_of_reachable ⟨history, run⟩
    have numbers := numbers_of_reachable ⟨history, run⟩
    refine ⟨fun t => (access_guarded guarded numbers t).1, fun t => (access_guarded guarded numbers t).2,
      numbers.evens, numbers.odds, ?_⟩
    rw [fifo_of_run run]
    exact List.prefix_append _ _
  | true =>
    obtain ⟨rfl, rfl⟩ := stuck_of_scenario8 run
    have numbers : Numbers kind (main kind true) := numbers_main true
    have stuck (t : T) : step kind (main kind true) t = none := rfl
    exact ⟨fun t num s' moved => by simp [stuck] at moved,
      fun t val s' moved => by simp [stuck] at moved, numbers.evens, numbers.odds, List.nil_prefix⟩

theorem buffer_rules_two : ∃ final,
    play id (main id false) [.prodEven, .prodEven, .prodEven, .prodEven,
      .prodOdd, .prodOdd, .prodOdd] = some final ∧
    produced final.1 = [0, 1] ∧ final.2.buffer.countEven ≤ 10 ∧
    consumed final.1 <+: produced final.1 := by
  have played : play id (main id false) [.prodEven, .prodEven, .prodEven, .prodEven,
      .prodOdd, .prodOdd, .prodOdd] = some _ := rfl
  have rules := buffer_rules id false _ _ (run_play (.start rfl) played)
  exact ⟨_, played, by decide, rules.2.2.1, rules.2.2.2.2⟩

end SoiStud.Semaphores
