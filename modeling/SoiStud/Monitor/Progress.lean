import SoiStud.Monitor.Guards

/-! Freedom from deadlock.

Every wait adds a permit to the semaphore and every signal takes one out, so that
the two sides agree as long as each signal finds its waiter. A condition that is
true and waited for has somebody who is going to see to it, unless a thread has
counted itself when its condition had become true already.
-/

set_option autoImplicit false

namespace SoiStud.Monitor

open Library

def Pc.enrolled : Pc → Bool
  | .counted | .left | .queued | .waiting | .woken => true
  | .start | .back | .entered | .failed | .access | .testing _ | .checking _ _ | .leaving | .signalling _
  | .lowering _ | .posting _ | .reenter => false

def Pc.lined : Pc → Bool
  | .queued | .waiting => true
  | .start | .back | .entered | .failed | .counted | .left | .woken | .access | .testing _ | .checking _ _
  | .leaving | .signalling _ | .lowering _ | .posting _ | .reenter => false

/-- The thread will see to `k`: it is of that kind and not asleep, it still has to test
the condition, or it is about to hand the monitor over. -/
def Pc.attends (own k : Kind) : Pc → Prop
  | .woken | .access | .signalling _ | .lowering _ | .posting _ => True
  | .testing rest => own = k ∨ k ∈ rest
  | .checking c rest => own = k ∨ c = k ∨ k ∈ rest
  | .start | .back | .entered | .failed | .leaving | .reenter => own = k
  | .counted | .left | .queued | .waiting => False

/-- What a thread has taken from the semaphore and not given back. -/
def taken (p : Pc) : Int :=
  match p with
  | .start | .back | .left | .queued => 0
  | .waiting | .reenter => -1
  | .entered | .failed | .counted | .woken | .access | .testing _ | .checking _ _ | .leaving | .signalling _
  | .lowering _ | .posting _ => 1

section
variable {T : Type} [DecidableEq T] {kind : T → Kind} {s s' : State T} {t : T} {event : Event}

/-- A thread counts itself only while its condition is false, and a signal finds a waiter at
both of its steps. -/
def Heeds (kind : T → Kind) (s : State T) (t : T) : Prop :=
  match s.pc t with
  | .failed => (kind t).guard s.buffer = false
  | .signalling k => s.waitingCount k ≠ 0
  | .lowering k => 0 < s.waitingCount k
  | _ => True

instance (s : State T) (t : T) : Decidable (Heeds kind s t) := by
  unfold Heeds
  split <;> infer_instance

variable [Fintype T]

/-- The permits of the semaphore, those the threads have taken, and two for every wake-up under way. -/
def State.account (s : State T) : Int := s.s + weightOf (fun _ => taken) s.pc + 2 * granted s.w

omit [DecidableEq T] in
theorem account_main : (main kind : State T).account = 1 := by
  have outside : weightOf (fun _ => taken) (main kind : State T).pc = 0 := weightOf_eq_zero fun _ => rfl
  have untaken : granted (main kind : State T).w = 0 := weightOf_eq_zero fun _ => rfl
  rw [State.account, outside, untaken]
  rfl

theorem Moves.account_eq (moved : Moves kind s t event s') (heeds : Heeds kind s t) : s'.account = s.account := by
  cases moved with
  | enter at_ isOpen =>
    rcases at_ with at_ | at_
    all_goals
      simp only [State.account, State.goto, weightOf_update, at_, taken]
      grind
  | wake at_ posted =>
    simp only [State.account, State.goto, State.permits, weightOf_update, granted_update, at_, taken]
    grind
  | post at_ =>
    simp only [State.account, State.goto, State.permits, weightOf_update, granted_update, at_, taken]
    grind
  | signalFails at_ none_ =>
    simp only [Heeds, at_] at heeds
    exact absurd none_ heeds
  | leave at_ | enterAgain at_ =>
    simp only [State.account, State.finish, weightOf_update, at_, taken]
    grind
  | _ at_ =>
    simp only [State.account, State.goto, State.count, State.raise, State.lower, weightOf_update, at_, taken]
    grind

def State.enrolled (kind : T → Kind) (k : Kind) (s : State T) : Int :=
  weightOf (fun t (p : Pc) => if kind t = k ∧ p.enrolled then 1 else 0) s.pc

/-- The threads in line for the condition, less those that a signal is about to serve. -/
def State.lined (kind : T → Kind) (k : Kind) (s : State T) : Int :=
  weightOf (fun t (p : Pc) => if kind t = k ∧ p.lined then 1 else if p = .posting k then -1 else 0) s.pc

/-- The counters and semaphores say where the threads are. -/
structure Accounted (kind : T → Kind) (s : State T) : Prop where
  account : s.account = 1
  enrolled : ∀ k, (s.numOfWaiting k : Int) = s.enrolled kind k
  lined : ∀ k, s.waitingCount k + s.w k = s.lined kind k
  nonneg : ∀ k, 0 ≤ s.waitingCount k

omit [DecidableEq T] in
theorem accounted_main : Accounted kind (main kind : State T) where
  account := account_main
  enrolled k := by
    have none_ : (main kind : State T).enrolled kind k = 0 := weightOf_eq_zero fun _ => by simp [main, Pc.enrolled]
    rw [none_]
    rfl
  lined k := by
    have none_ : (main kind : State T).lined kind k = 0 := weightOf_eq_zero fun _ => by simp [main, Pc.lined]
    rw [none_]
    rfl
  nonneg _ := le_rfl

omit [DecidableEq T] in
theorem Accounted.numOfWaiting_pos (accounted : Accounted kind s) (enrolled : (s.pc t).enrolled = true) :
    0 < s.numOfWaiting (kind t) := by
  have one := le_weightOf (fun u (p : Pc) => if kind u = kind t ∧ p.enrolled then 1 else 0) s.pc
    (fun u => by split <;> decide) t
  have count := accounted.enrolled (kind t)
  simp only [enrolled, and_self, if_true] at one
  simp only [State.enrolled] at count
  omega

theorem Moves.enrolled_eq (moved : Moves kind s t event s') (accounted : Accounted kind s) (k : Kind) :
    (s'.numOfWaiting k : Int) = s'.enrolled kind k := by
  have before := accounted.enrolled k
  cases moved with
  | enter at_ isOpen =>
    rcases at_ with at_ | at_
    all_goals
      simp only [State.enrolled, State.goto, weightOf_update, at_, Pc.enrolled] at before ⊢
      grind
  | count at_ =>
    simp only [State.enrolled, State.goto, State.count, weightOf_update, at_, Pc.enrolled,
      Function.update_apply] at before ⊢
    grind
  | resume at_ =>
    have listed := accounted.numOfWaiting_pos (t := t) (by rw [at_]; rfl)
    simp only [State.enrolled, State.goto, State.count, weightOf_update, at_, Pc.enrolled,
      Function.update_apply] at before ⊢
    grind
  | leave at_ | enterAgain at_ | signalFails at_ =>
    simp only [State.enrolled, State.finish, weightOf_update, at_, Pc.enrolled] at before ⊢
    grind
  | _ at_ =>
    simp only [State.enrolled, State.goto, State.raise, State.lower, State.permits, weightOf_update, at_,
      Pc.enrolled] at before ⊢
    grind

theorem Moves.lined_eq (moved : Moves kind s t event s') (accounted : Accounted kind s) (k : Kind) :
    s'.waitingCount k + s'.w k = s'.lined kind k := by
  have before := accounted.lined k
  cases moved with
  | enter at_ isOpen =>
    rcases at_ with at_ | at_
    all_goals
      simp only [State.lined, State.goto, weightOf_update, at_, Pc.lined] at before ⊢
      grind
  | leave at_ | enterAgain at_ | signalFails at_ =>
    simp only [State.lined, State.finish, weightOf_update, at_, Pc.lined] at before ⊢
    grind
  | _ at_ =>
    simp only [State.lined, State.goto, State.count, State.raise, State.lower, State.permits, weightOf_update, at_,
      Pc.lined, Function.update_apply] at before ⊢
    grind

theorem Accounted.step (accounted : Accounted kind s) (moved : Moves kind s t event s') (heeds : Heeds kind s t) :
    Accounted kind s' where
  account := (moved.account_eq heeds).trans accounted.account
  enrolled := moved.enrolled_eq accounted
  lined := moved.lined_eq accounted
  nonneg k := by
    have before := accounted.nonneg k
    cases moved with
    | queue at_ =>
      simp only [State.goto, State.raise, Function.update_apply]
      grind
    | lower at_ =>
      simp only [Heeds, at_] at heeds
      simp only [State.goto, State.lower, Function.update_apply]
      grind
    | _ => exact before

/-- A condition that is true and waited for has somebody to see to it, or a wake-up is under way. -/
def Attended (kind : T → Kind) (s : State T) : Prop :=
  ∀ k : Kind, k.guard s.buffer = true → 0 < s.numOfWaiting k →
    (∃ t, (s.pc t).attends (kind t) k) ∨ ∃ c, 0 < s.w c

omit [Fintype T] in
/-- A step that leaves the buffer and the wake-ups as they are, and counts nobody of
kind `k`: the moving thread goes on seeing to `k` if it has done so. -/
theorem attended_of_kept {p : Pc} {k : Kind} (attended : Attended kind s) (place : s'.pc = Function.update s.pc t p)
    (posted : s'.w = s.w) (true_ : k.guard s.buffer = true) (waited : 0 < s.numOfWaiting k)
    (here : (s.pc t).attends (kind t) k → p.attends (kind t) k) :
    (∃ u, (s'.pc u).attends (kind u) k) ∨ ∃ c, 0 < s'.w c := by
  rcases attended k true_ waited with ⟨u, attends⟩ | underWay
  · refine .inl ⟨u, ?_⟩
    rw [place, Function.update_apply]
    split
    next same => exact same ▸ here (same ▸ attends)
    next => exact attends
  · exact .inr (posted ▸ underWay)

omit [Fintype T] in
theorem attended_of_mover {p : Pc} {k : Kind} (place : s'.pc = Function.update s.pc t p) (all : p.attends (kind t) k) :
    (∃ u, (s'.pc u).attends (kind u) k) ∨ ∃ c, 0 < s'.w c :=
  .inl ⟨t, by rw [place, Function.update_self]; exact all⟩

omit [Fintype T] in
theorem Attended.step (attended : Attended kind s) (moved : Moves kind s t event s') (heeds : Heeds kind s t) :
    Attended kind s' := by
  intro k true_ waited
  cases moved with
  | enter at_ isOpen =>
    refine attended_of_kept attended rfl rfl true_ waited fun own => ?_
    rcases at_ with at_ | at_ <;> rw [at_] at own <;> exact own
  | pass at_ | wake at_ | resume at_ | choose at_ | signal at_ | lower at_ => exact attended_of_mover rfl trivial
  | access at_ used =>
    refine attended_of_mover rfl ?_
    by_cases own : kind t = k
    · exact .inl own
    · exact .inr ((mem_chain_iff _ _).mpr (Ne.symm own))
  | count at_ =>
    -- the condition of the thread that counts itself is false, so it is another one that is true
    simp only [Heeds, at_] at heeds
    have other : k ≠ kind t := by
      rintro rfl
      exact Bool.false_ne_true (heeds.symm.trans true_)
    simp only [State.goto, State.count, Function.update_of_ne other] at waited
    refine attended_of_kept attended rfl rfl true_ waited fun own => ?_
    rw [at_] at own
    exact absurd own.symm other
  | leaveFirst at_ | queue at_ | leaveAgain at_ =>
    refine attended_of_kept attended rfl rfl true_ waited fun asleep => ?_
    rw [at_] at asleep
    exact asleep
  | skip at_ false_ =>
    refine attended_of_kept attended rfl rfl true_ waited fun tested => ?_
    rw [at_] at tested
    rcases tested with own | member
    · exact .inl own
    · rcases List.mem_cons.mp member with rfl | later
      · exact absurd true_ (by simp [State.goto, false_])
      · exact .inr later
  | found at_ =>
    refine attended_of_kept attended rfl rfl true_ waited fun tested => ?_
    rw [at_] at tested
    exact tested.imp_right fun member => (List.mem_cons.mp member).imp_left Eq.symm
  | nobody at_ none_ =>
    refine attended_of_kept attended rfl rfl true_ waited fun tested => ?_
    rw [at_] at tested
    rcases tested with own | rfl | later
    · exact .inl own
    · exact absurd waited (by simp [State.goto, none_])
    · exact .inr later
  | signalFails at_ none_ =>
    simp only [Heeds, at_] at heeds
    exact absurd none_ heeds
  | @post c at_ =>
    refine .inr ⟨c, ?_⟩
    simp only [State.goto, State.permits, Function.update_self]
    omega
  | fail at_ | exhausted at_ | leave at_ | enterAgain at_ =>
    refine attended_of_kept attended rfl rfl true_ waited fun own => ?_
    rw [at_] at own
    simpa [Pc.attends] using own

omit [Fintype T] [DecidableEq T] in
theorem attended_main : Attended kind (main kind : State T) := fun _ _ waited => absurd waited (Nat.lt_irrefl 0)

theorem accounted_of_reachable (reached : (supervised kind (Heeds kind)).Reachable s) : Accounted kind s :=
  reached.invariant (fun _ initial => initial ▸ accounted_main)
    fun _ _ _ accounted edge => accounted.step (moves_of_step edge.1) edge.2

omit [Fintype T] in
theorem attended_of_reachable (reached : (supervised kind (Heeds kind)).Reachable s) : Attended kind s :=
  reached.invariant (fun _ initial => initial ▸ attended_main)
    fun _ _ _ attended edge => attended.step (moves_of_step edge.1) edge.2

omit [Fintype T] in
/-- Where a thread can be blocked, and by what. -/
theorem blocked_of_stuck (stuck : step kind s t = none) :
    (s.pc t = .start ∨ s.pc t = .back ∨ s.pc t = .reenter) ∧ s.s = 0 ∨ s.pc t = .waiting ∧ s.w (kind t) = 0 := by
  unfold step at stuck
  cases at_ : s.pc t with
  | start | back | reenter =>
    simp only [at_] at stuck
    split at stuck
    next => cases stuck
    next closed => exact .inl ⟨by simp, Nat.eq_zero_of_not_pos closed⟩
  | waiting =>
    simp only [at_] at stuck
    split at stuck
    next => cases stuck
    next unposted => exact .inr ⟨rfl, Nat.eq_zero_of_not_pos unposted⟩
  | testing rest =>
    simp only [at_] at stuck
    cases rest <;> cases stuck
  | _ =>
    simp only [at_] at stuck
    cases stuck

omit [DecidableEq T] in
/-- A permit that has been granted belongs to a thread in line. -/
theorem Accounted.exists_lined (accounted : Accounted kind s) {k : Kind} (posted : 0 < s.w k) :
    ∃ t, kind t = k ∧ (s.pc t).lined = true := by
  by_contra nobody
  have none_ : s.lined kind k ≤ 0 := weightOf_nonpos fun t => by
    have := fun same lined => nobody ⟨t, same, lined⟩
    grind
  have count := accounted.lined k
  have nonneg := accounted.nonneg k
  omega

theorem Accounted.all_waiting (accounted : Accounted kind s) (stuck : ∀ t, Monitor.step kind s t = none) :
    (∀ t, s.pc t = .waiting) ∧ ∀ k, s.w k = 0 := by
  have unposted (k : Kind) : s.w k = 0 := by
    by_contra posted
    obtain ⟨t, rfl, lined⟩ := accounted.exists_lined (Nat.pos_of_ne_zero posted)
    rcases blocked_of_stuck (stuck t) with ⟨at_ | at_ | at_, -⟩ | ⟨-, taken_⟩
    · simp [at_, Pc.lined] at lined
    · simp [at_, Pc.lined] at lined
    · simp [at_, Pc.lined] at lined
    · exact posted taken_
  have account := accounted.account
  have untaken : granted s.w = 0 := weightOf_eq_zero fun k => by simp [unposted k]
  have outside : weightOf (fun _ => taken) s.pc ≤ 0 := weightOf_nonpos fun t => by
    rcases blocked_of_stuck (stuck t) with ⟨at_ | at_ | at_, -⟩ | ⟨at_, -⟩ <;> rw [at_] <;> decide
  rw [State.account, untaken] at account
  refine ⟨fun t => ?_, unposted⟩
  rcases blocked_of_stuck (stuck t) with ⟨-, closed⟩ | ⟨at_, -⟩
  · omega
  · exact at_

/-- While the threads heed what they rely on, with at least one thread of each kind no
reachable state is a deadlock. -/
theorem some_thread_moves (kind : T → Kind) (populated : ∀ k, ∃ t, kind t = k) (s : State T)
    (reached : (supervised kind (Heeds kind)).Reachable s) :
    ∃ t event s', (system kind).step s (t, event) s' := by
  have accounted := accounted_of_reachable reached
  by_contra deadlock
  have stuck (t : T) : step kind s t = none := by
    cases moved : step kind s t with
    | none => rfl
    | some next => exact absurd ⟨t, next.1, next.2, moved⟩ deadlock
  obtain ⟨waiting, unposted⟩ := accounted.all_waiting stuck
  -- some condition is true; a thread of its kind waits, and nobody sees to it
  obtain ⟨k, true_⟩ := exists_guard s.buffer (numbers_of_reachable reached.of_restrict).nonnegative
  obtain ⟨t, rfl⟩ := populated k
  have waited := accounted.numOfWaiting_pos (t := t) (by rw [waiting t]; rfl)
  rcases attended_of_reachable reached (kind t) true_ waited with ⟨u, attends⟩ | ⟨c, posted⟩
  · rw [waiting u] at attends
    exact attends
  · rw [unposted c] at posted
    exact Nat.lt_irrefl 0 posted

end

theorem some_thread_moves_three : ∃ s, play id (Heeds id) (main id)
    (List.replicate 6 .prodOdd ++ List.replicate 6 .consEven ++ List.replicate 6 .consOdd) = some s ∧
    (∀ t, t ≠ .prodEven → s.pc t = .waiting) ∧ ∃ t event s', (system id).step s (t, event) s' := by
  have three : (play id (Heeds id) (main id) (List.replicate 6 .prodOdd ++ List.replicate 6 .consEven ++
    List.replicate 6 .consOdd)).any (fun s => ∀ t, t ≠ .prodEven → s.pc t = .waiting) = true := by decide +kernel
  obtain ⟨s, played, waiting⟩ := Option.any_eq_true _ _ |>.mp three
  exact ⟨s, played, of_decide_eq_true waiting,
    some_thread_moves id (fun k => ⟨k, rfl⟩) s (reachable_play (.start rfl) played)⟩

/-- A deadlock of scenario 7: `putOdd` has counted itself and left, but does not wait yet, so that
the signal of `putEven` finds no waiter and its call ends with the permit. -/
theorem all_blocked : ∃ s, (system id).Reachable s ∧ ∀ t event s', ¬ (system id).step s (t, event) s' := by
  have blocked : (play id anyStep (main id) [.prodOdd, .prodOdd, .prodOdd, .prodOdd, .prodEven, .prodEven, .prodEven,
    .prodEven, .prodEven, .prodEven, .prodOdd, .prodOdd, .prodEven, .prodEven, .prodEven, .prodEven, .prodEven,
    .prodEven, .prodEven, .prodEven, .prodOdd, .prodOdd, .prodOdd, .prodOdd, .prodOdd, .prodOdd, .prodOdd, .prodOdd,
    .prodOdd, .prodOdd, .prodEven]).any (fun s => ∀ t, (step id s t).isNone) = true := by decide +kernel
  obtain ⟨s, played, stuck⟩ := Option.any_eq_true _ _ |>.mp blocked
  refine ⟨s, reachable_of_play played, fun t event s' moved => ?_⟩
  have none_ := of_decide_eq_true stuck t
  rw [show step id s t = some (event, s') from moved] at none_
  cases none_

end SoiStud.Monitor
