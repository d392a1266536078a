import SoiStud.Library.Weight
import SoiStud.Monitor.Model

/-! What each access finds in the buffer.

Neither a woken thread nor the thread that wakes it tests the condition again. While
a call begins only when nobody is in the midst of one, the two are alone with the
buffer, and what was tested is still true.
-/

set_option autoImplicit false

namespace SoiStud.Monitor

open Library

def Pc.within : Pc → Bool
  | .start | .back | .left | .queued | .waiting | .reenter => false
  | .entered | .failed | .counted | .woken | .access | .testing _ | .checking _ _ | .leaving | .signalling _
  | .lowering _ | .posting _ => true

def Pc.trusts (own : Kind) : Pc → Option Kind
  | .woken | .access => some own
  | .checking k _ | .signalling k | .lowering k | .posting k => some k
  | .start | .back | .entered | .failed | .counted | .left | .queued | .waiting | .testing _ | .leaving
  | .reenter => none

theorem Pc.within_of_trusts {own k : Kind} {p : Pc} (trusted : p.trusts own = some k) : p.within = true := by
  cases p <;> first | rfl | cases trusted

def within (p : Pc) : Int := if p.within then 1 else 0

theorem within_nonneg (p : Pc) : 0 ≤ within p := by
  unfold within
  split <;> decide

def granted (w : Kind → Nat) : Int := weightOf (fun _ (n : Nat) => (n : Int)) w

theorem granted_nonneg (w : Kind → Nat) : 0 ≤ granted w := weightOf_nonneg fun _ => Int.natCast_nonneg _

theorem le_granted (w : Kind → Nat) (k : Kind) : (w k : Int) ≤ granted w :=
  le_weightOf (fun _ (n : Nat) => (n : Int)) w (fun _ => Int.natCast_nonneg _) k

theorem granted_update (w : Kind → Nat) (k : Kind) (n : Nat) :
    granted (Function.update w k n) = granted w - w k + n :=
  weightOf_update _ w k n

structure Numbers {T : Type} (kind : T → Kind) (s : State T) : Prop where
  even : ∀ t, kind t = .prodEven → 0 ≤ s.i t ∧ s.i t % 2 = 0
  odd : ∀ t, kind t = .prodOdd → 0 ≤ s.i t ∧ s.i t % 2 = 1
  nonnegative : ∀ num ∈ s.buffer.buffer, 0 ≤ num

def Event.number : Event → Option Int
  | .silent => none
  | .appended num | .received num => some num

section
variable {T : Type} [DecidableEq T] {kind : T → Kind} {s s' : State T} {t : T} {event : Event}

theorem Moves.buffer_eq (moved : Moves kind s t event s') :
    event = .silent ∧ s'.buffer = s.buffer ∨
      s.pc t = .access ∧ useBuffer (kind t) (s.i t) s.buffer = (event, s'.buffer) := by
  cases moved with
  | access at_ used => exact .inr ⟨at_, used⟩
  | _ => exact .inl ⟨rfl, rfl⟩

theorem following_parity (k : Kind) {i : Int} (nonneg : 0 ≤ i) :
    0 ≤ following k i ∧ following k i % 2 = i % 2 := by
  cases k with
  | prodEven | prodOdd =>
    simp only [following]
    omega
  | consEven | consOdd => exact ⟨nonneg, rfl⟩

theorem Moves.loop (moved : Moves kind s t event s') {u : T} (nonneg : 0 ≤ s.i u) :
    0 ≤ s'.i u ∧ s'.i u % 2 = s.i u % 2 := by
  have counted : s'.i = s.i ∨ s'.i = Function.update s.i t (following (kind t) (s.i t)) := by
    cases moved with
    | leave | signalFails | enterAgain => exact .inr rfl
    | _ => exact .inl rfl
  rcases counted with loop | loop
  · rw [loop]
    exact ⟨nonneg, rfl⟩
  · rw [loop, Function.update_apply]
    split
    next here => exact here ▸ following_parity (kind t) (here ▸ nonneg)
    next => exact ⟨nonneg, rfl⟩

omit [DecidableEq T] in
theorem numbers_main : Numbers kind (main kind : State T) where
  even t same := by simp [main, same]
  odd t same := by simp [main, same]
  nonnegative := by simp [main]

theorem useBuffer_eq_visit (k : Kind) (num : Int) (b : Buffer) :
    (useBuffer k num b).1.number = some (k.visit num b).1 ∧ (useBuffer k num b).2 = (k.visit num b).2 := by
  cases k <;> exact ⟨rfl, rfl⟩

theorem mem_of_mem_get {b : Buffer} {num : Int} (member : num ∈ b.get.2.buffer) : num ∈ b.buffer := by
  rcases b with ⟨_ | ⟨value, rest⟩⟩
  · exact member
  · exact List.mem_cons_of_mem _ member

omit [DecidableEq T] in
/-- A producer puts its loop variable, a consumer only takes. -/
theorem Numbers.visit_nonnegative (numbers : Numbers kind s) (t : T) :
    ∀ num ∈ ((kind t).visit (s.i t) s.buffer).2.buffer, 0 ≤ num := by
  intro num member
  have known := numbers.nonnegative
  cases same : kind t with
  | prodEven =>
    rw [same] at member
    rcases List.mem_append.mp member with old | new
    · exact known num old
    · exact List.mem_singleton.mp new ▸ (numbers.even t same).1
  | prodOdd =>
    rw [same] at member
    rcases List.mem_append.mp member with old | new
    · exact known num old
    · exact List.mem_singleton.mp new ▸ (numbers.odd t same).1
  | consEven | consOdd =>
    rw [same] at member
    exact known num (mem_of_mem_get member)

theorem Numbers.step (numbers : Numbers kind s) (moved : Moves kind s t event s') : Numbers kind s' := by
  refine ⟨?_, ?_, ?_⟩
  · intro u same
    obtain ⟨nonneg, even⟩ := numbers.even u same
    exact even ▸ moved.loop nonneg
  · intro u same
    obtain ⟨nonneg, odd⟩ := numbers.odd u same
    exact odd ▸ moved.loop nonneg
  · rcases moved.buffer_eq with ⟨-, kept⟩ | ⟨-, used⟩
    · rw [kept]
      exact numbers.nonnegative
    · have visited : s'.buffer = _ := used ▸ (useBuffer_eq_visit (kind t) (s.i t) s.buffer).2
      exact visited ▸ numbers.visit_nonnegative t

theorem numbers_of_reachable (reached : (system kind).Reachable s) : Numbers kind s :=
  reached.invariant (fun _ initial => initial ▸ numbers_main)
    fun _ _ _ numbers moved => numbers.step (moves_of_step moved)

section
variable [Fintype T]

/-- The threads in the midst of a call, and the wake-ups that are under way. -/
def State.crowd (s : State T) : Int := weightOf (fun _ => within) s.pc + granted s.w

/-- A call begins only when nobody is in the midst of one and no wake-up is under way. -/
def Alone (s : State T) (t : T) : Prop :=
  s.pc t = .start ∨ s.pc t = .back → (∀ u, (s.pc u).within = false) ∧ ∀ k, s.w k = 0

instance (s : State T) (t : T) : Decidable (Alone s t) := inferInstanceAs <| Decidable <|
  s.pc t = .start ∨ s.pc t = .back → (∀ u, (s.pc u).within = false) ∧ ∀ k, s.w k = 0

theorem Moves.crowd_le (moved : Moves kind s t event s') (begun : s.pc t ≠ .start ∧ s.pc t ≠ .back) :
    s'.crowd ≤ s.crowd := by
  cases moved with
  | enter at_ isOpen => exact absurd at_ (not_or.mpr begun)
  | wake at_ posted =>
    simp only [State.crowd, State.goto, State.permits, weightOf_update, granted_update, at_, within, Pc.within]
    grind
  | post at_ =>
    simp only [State.crowd, State.goto, State.permits, weightOf_update, granted_update, at_, within, Pc.within]
    grind
  | leave at_ | signalFails at_ | enterAgain at_ =>
    simp only [State.crowd, State.finish, weightOf_update, at_, within, Pc.within]
    grind
  | _ at_ =>
    simp only [State.crowd, State.goto, State.count, State.raise, State.lower, weightOf_update, at_, within, Pc.within]
    grind

theorem Moves.crowd_le_one (moved : Moves kind s t event s') (alone : Alone s t) (few : s.crowd ≤ 1) :
    s'.crowd ≤ 1 := by
  by_cases begun : s.pc t ≠ .start ∧ s.pc t ≠ .back
  · exact (moved.crowd_le begun).trans few
  · have at_ : s.pc t = .start ∨ s.pc t = .back := by tauto
    obtain ⟨nobody, none_⟩ := alone at_
    have empty : s.crowd = 0 := by
      have outside : weightOf (fun _ => within) s.pc = 0 := weightOf_eq_zero fun u => by simp [within, nobody u]
      have untaken : granted s.w = 0 := weightOf_eq_zero fun k => by simp [none_ k]
      rw [State.crowd, outside, untaken]
      rfl
    cases moved with
    | enter _ isOpen =>
      have here : within (s.pc t) = 0 := by simp [within, nobody t]
      simp only [State.crowd, State.goto, weightOf_update, within, Pc.within] at empty here ⊢
      grind
    | _ => simp_all

/-- The condition holds wherever somebody relies on it, and there is one such thread at most. -/
structure Guarded (kind : T → Kind) (s : State T) : Prop where
  few : s.crowd ≤ 1
  armed : ∀ t k, (s.pc t).trusts (kind t) = some k → k.guard s.buffer = true
  offered : ∀ k, 0 < s.w k → k.guard s.buffer = true

omit [DecidableEq T] in
theorem guarded_main : Guarded kind (main kind : State T) where
  few := by
    have outside : weightOf (fun _ => within) (main kind : State T).pc = 0 := weightOf_eq_zero fun _ => rfl
    have untaken : granted (main kind : State T).w = 0 := weightOf_eq_zero fun _ => rfl
    rw [State.crowd, outside, untaken]
    decide
  armed _ _ trusted := by cases trusted
  offered k posted := absurd posted (Nat.lt_irrefl 0)

/-- A thread in the midst of a call is alone there, and no wake-up is under way. -/
theorem alone_of_crowd (few : s.crowd ≤ 1) (here : (s.pc t).within = true) :
    (∀ u, (s.pc u).within = true → u = t) ∧ ∀ k, s.w k = 0 := by
  have one : within (s.pc t) = 1 := by simp [within, here]
  unfold State.crowd at few
  refine ⟨?_, ?_⟩
  · intro u also
    by_contra distinct
    have both := add_le_weightOf (fun _ => within) s.pc (fun v => within_nonneg _) distinct
    have another : within (s.pc u) = 1 := by simp [within, also]
    have := granted_nonneg s.w
    simp only [one, another] at both
    omega
  · intro k
    have single := le_weightOf (fun _ => within) s.pc (fun v => within_nonneg _) t
    have := le_granted s.w k
    simp only [one] at single
    omega

omit [Fintype T] in
theorem armed_of_kept {p : Pc} (armed : ∀ t k, (s.pc t).trusts (kind t) = some k → k.guard s.buffer = true)
    (place : s'.pc = Function.update s.pc t p) (kept : s'.buffer = s.buffer)
    (here : ∀ k, p.trusts (kind t) = some k → k.guard s.buffer = true) :
    ∀ t k, (s'.pc t).trusts (kind t) = some k → k.guard s'.buffer = true := by
  intro u k trusted
  rw [kept]
  rw [place, Function.update_apply] at trusted
  split at trusted
  next same => exact here k (same ▸ trusted)
  next => exact armed u k trusted

theorem Guarded.step (guarded : Guarded kind s) (moved : Moves kind s t event s') (alone : Alone s t) :
    Guarded kind s' := by
  have few := moved.crowd_le_one alone guarded.few
  have armed := guarded.armed
  cases moved with
  | pass at_ true_ =>
    refine ⟨few, armed_of_kept armed rfl rfl ?_, guarded.offered⟩
    rintro k ⟨⟩
    exact true_
  | wake at_ posted =>
    refine ⟨few, armed_of_kept armed rfl rfl ?_, ?_⟩
    · rintro k ⟨⟩
      exact guarded.offered (kind t) posted
    · intro k remains
      refine guarded.offered k ?_
      simp only [State.goto, State.permits, Function.update_apply] at remains
      split at remains
      next same => exact same ▸ posted
      next => exact remains
  | resume at_ =>
    refine ⟨few, armed_of_kept armed rfl rfl ?_, guarded.offered⟩
    rintro k ⟨⟩
    exact armed t (kind t) (by rw [at_]; rfl)
  | access at_ used =>
    -- nobody else relies on a condition while the buffer changes
    obtain ⟨single, none_⟩ := alone_of_crowd guarded.few (t := t) (by rw [at_]; rfl)
    refine ⟨few, ?_, fun k posted => absurd posted (by simp [State.goto, none_ k])⟩
    intro u k trusted
    simp only [State.goto, Function.update_apply] at trusted
    split at trusted
    next => cases trusted
    next other => exact absurd (single u (Pc.within_of_trusts trusted)) other
  | found at_ true_ =>
    refine ⟨few, armed_of_kept armed rfl rfl ?_, guarded.offered⟩
    rintro k ⟨⟩
    exact true_
  | choose at_ _ | signal at_ _ | lower at_ =>
    refine ⟨few, armed_of_kept armed rfl rfl ?_, guarded.offered⟩
    rintro k ⟨⟩
    exact armed t _ (by rw [at_]; rfl)
  | @post k at_ =>
    refine ⟨few, armed_of_kept armed rfl rfl (by rintro k ⟨⟩), ?_⟩
    intro other posted
    simp only [State.goto, State.permits, Function.update_apply] at posted
    split at posted
    next same => exact same ▸ armed t k (by rw [at_]; rfl)
    next => exact guarded.offered other posted
  | _ => exact ⟨few, armed_of_kept armed rfl rfl (by rintro k ⟨⟩), guarded.offered⟩

theorem guarded_of_reachable (reached : (supervised kind Alone).Reachable s) : Guarded kind s :=
  reached.invariant (fun _ initial => initial ▸ guarded_main)
    fun _ _ _ guarded edge => guarded.step (moves_of_step edge.1) edge.2

omit [Fintype T] in
/-- An access follows the rules of the exercise if the thread's own condition is true and its number right. -/
theorem Moves.specified (moved : Moves kind s t event s') (numbers : Numbers kind s)
    (armed : s.pc t = .access → (kind t).guard s.buffer = true) {num : Int} (seen : event.number = some num) :
    specification.step s.buffer (kind t, num) s'.buffer := by
  rcases moved.buffer_eq with ⟨rfl, -⟩ | ⟨at_, used⟩
  · cases seen
  obtain ⟨value, left⟩ := useBuffer_eq_visit (kind t) (s.i t) s.buffer
  rw [used] at value left
  have same : num = ((kind t).visit (s.i t) s.buffer).1 := Option.some.inj (seen.symm.trans value)
  have after : s'.buffer = ((kind t).visit (s.i t) s.buffer).2 := left
  rw [same, after]
  refine specification_visit (armed at_) (fun even => (numbers.even t even).2) fun odd => ?_
  rw [(numbers.odd t odd).2]
  decide

def visits (kind : T → Kind) (history : List (T × Event)) : List (Kind × Int) :=
  history.filterMap fun label => label.2.number.map (kind label.1, ·)

/-- While calls begin alone, every access follows the rules of the exercise, and
every history of the buffer is one that they allow. -/
theorem accesses_allowed (kind : T → Kind) (history : List (T × Event)) (s : State T)
    (run : (supervised kind Alone).Run history s) :
    (∀ t num s', step kind s t = some (.appended num, s') →
      kind t = .prodEven ∧ num % 2 = 0 ∧ s.buffer.countEven < 10 ∨
      kind t = .prodOdd ∧ num % 2 ≠ 0 ∧ s.buffer.countOdd < s.buffer.countEven) ∧
    (∀ t val s', step kind s t = some (.received val, s') →
      val = s.buffer.peekFirst ∧
      (kind t = .consEven ∧ val % 2 = 0 ∧ 3 ≤ s.buffer.count ∨
        kind t = .consOdd ∧ val % 2 ≠ 0 ∧ 7 ≤ s.buffer.count)) ∧
    specification.Run (visits kind history) s.buffer := by
  -- at an access the thread's own condition is true
  have armed {s : State T} (reached : (supervised kind Alone).Reachable s) (t : T) (at_ : s.pc t = .access) :
      (kind t).guard s.buffer = true := (guarded_of_reachable reached).armed t (kind t) (by rw [at_]; rfl)
  have specified {s s' : State T} {t : T} {event : Event} {num : Int}
      (reached : (supervised kind Alone).Reachable s) (moved : step kind s t = some (event, s'))
      (seen : event.number = some num) : specification.step s.buffer (kind t, num) s'.buffer :=
    (moves_of_step moved).specified (numbers_of_reachable reached.of_restrict) (armed reached t) seen
  have reached : (supervised kind Alone).Reachable s := ⟨history, run⟩
  refine ⟨?_, ?_, ?_⟩
  · intro t num s' moved
    have allowed := specified reached moved rfl
    rcases (moves_of_step moved).buffer_eq with ⟨hidden, -⟩ | ⟨-, used⟩
    · cases hidden
    · cases same : kind t <;> rw [same] at allowed used
      · exact .inl ⟨rfl, allowed.1, allowed.2.1⟩
      · exact .inr ⟨rfl, allowed.1, allowed.2.1⟩
      · cases used
      · cases used
  · intro t val s' moved
    have allowed := specified reached moved rfl
    rcases (moves_of_step moved).buffer_eq with ⟨hidden, -⟩ | ⟨-, used⟩
    · cases hidden
    · cases same : kind t <;> rw [same] at allowed used
      · cases used
      · cases used
      · obtain ⟨even, long, taken⟩ := allowed
        exact ⟨by rw [← Buffer.get_fst, taken], .inl ⟨rfl, even, long⟩⟩
      · obtain ⟨odd, long, taken⟩ := allowed
        exact ⟨by rw [← Buffer.get_fst, taken], .inr ⟨rfl, odd, long⟩⟩
  · -- of all steps only those that use the buffer are visits
    refine run.refines (fun _ initial => initial ▸ rfl) ?_ ?_
    · intro s label t _ edge hidden
      rcases (moves_of_step edge.1).buffer_eq with ⟨-, kept⟩ | ⟨-, used⟩
      · exact kept
      · have value := (useBuffer_eq_visit (kind label.1) (s.i label.1) s.buffer).1
        rw [used] at value
        simp [value] at hidden
    · intro s label t visit reached edge shown
      obtain ⟨num, seen, rfl⟩ := Option.map_eq_some_iff.mp shown
      exact specified reached edge.1 seen

end

end

theorem accesses_allowed_woken : ∃ s, play id Alone (main id)
    (List.replicate 6 .consEven ++ List.replicate 28 .prodEven ++ List.replicate 2 .consEven) = some s ∧
    s.pc .consEven = .access ∧
    ∀ val s', step id s .consEven = some (.received val, s') → val % 2 = 0 ∧ 3 ≤ s.buffer.count := by
  have served : (play id Alone (main id) (List.replicate 6 .consEven ++ List.replicate 28 .prodEven ++
    List.replicate 2 .consEven)).any (fun s => s.pc .consEven = .access) = true := by decide +kernel
  obtain ⟨s, played, woken⟩ := Option.any_eq_true _ _ |>.mp served
  obtain ⟨history, run⟩ := reachable_play (.start rfl) played
  refine ⟨s, played, of_decide_eq_true woken, fun val s' moved => ?_⟩
  rcases (accesses_allowed id history s run).2.1 .consEven val s' moved with ⟨-, ⟨-, even, long⟩ | ⟨consOdd, -⟩⟩
  · exact ⟨even, long⟩
  · cases consOdd

/-- `putOdd` has found more evens than odds, and appends when there are not. -/
theorem access_unguarded : ∃ s num s', (system id).Reachable s ∧ step id s .prodOdd = some (.appended num, s') ∧
    s.buffer.countEven ≤ s.buffer.countOdd := by
  have played : play id anyStep (main id) [.consEven, .consEven, .consEven, .consEven, .prodEven, .prodEven,
    .prodEven, .prodEven, .consEven, .consEven, .prodOdd, .prodOdd, .prodOdd, .prodOdd, .prodOdd, .prodOdd, .prodOdd,
    .prodOdd, .prodOdd, .prodOdd, .prodOdd, .prodOdd, .prodEven, .prodOdd, .prodOdd, .prodEven, .prodEven, .prodEven,
    .prodOdd, .prodOdd, .prodOdd] = some _ := rfl
  exact ⟨_, _, _, reachable_of_play played, rfl, by decide⟩

end SoiStud.Monitor
