import SoiStud.Library.Population
import SoiStud.Semaphores.Model

/-! The single permit of the semaphore solution.

The permit is in one place: an open lock, or a thread between taking a lock and
releasing one. A step moves it along or leaves it where it is, so the number of
open locks and of threads inside always add up to one.
-/

set_option autoImplicit false

namespace SoiStud.Semaphores

open Library

variable {T : Type}

/-- The places where a permit is. -/
def State.has (s : State T) : Sem ⊕ T → Prop
  | .inl x => s.isOpen x = true
  | .inr t => (s.pc t).inside = true

def State.PermitAt (s : State T) (place : Sem ⊕ T) : Prop := ∀ q, s.has q ↔ q = place

def Pc.enrolled : Pc → Bool
  | .counted | .waiting | .woken => true
  | .start | .entered | .access | .handOff => false

theorem State.PermitAt.inside {s : State T} {place : Sem ⊕ T} (permit : s.PermitAt place) {t : T}
    (inside : (s.pc t).inside = true) : place = .inr t := ((permit (.inr t)).mp inside).symm

theorem State.PermitAt.open {s : State T} {place : Sem ⊕ T} (permit : s.PermitAt place) {x : Sem}
    (isOpen : s.isOpen x = true) : place = .inl x := ((permit (.inl x)).mp isOpen).symm

theorem State.PermitAt.closed {s : State T} {t : T} (permit : s.PermitAt (.inr t)) (x : Sem) :
    s.isOpen x = false := by
  by_contra isOpen
  cases permit.open (Bool.not_eq_false _ ▸ isOpen)

theorem State.PermitAt.outside {s : State T} {place : Sem ⊕ T} (permit : s.PermitAt place) {u : T}
    (elsewhere : place ≠ .inr u) : (s.pc u).inside = false := by
  by_contra inside
  exact elsewhere (permit.inside (Bool.not_eq_false _ ▸ inside))

/-- Every step that leaves the locks alone and keeps the thread inside keeps the permit. -/
theorem State.PermitAt.stay [DecidableEq T] {s s' : State T} {t : T} {p : Pc}
    (permit : s.PermitAt (.inr t)) (locks : s'.isOpen = s.isOpen)
    (moved : s'.pc = Function.update s.pc t p) (inside : p.inside = true) :
    s'.PermitAt (.inr t) := by
  rintro (x | u)
  · simpa [State.has, locks] using permit (.inl x)
  · by_cases same : u = t
    · subst same; simp [State.has, moved, inside]
    · simpa [State.has, moved, same] using permit (.inr u)

theorem State.PermitAt.take [DecidableEq T] {s s' : State T} {t : T} {p : Pc} {x : Sem}
    (permit : s.PermitAt (.inl x)) (locks : s'.isOpen = Function.update s.isOpen x false)
    (moved : s'.pc = Function.update s.pc t p) (inside : p.inside = true) :
    s'.PermitAt (.inr t) := by
  rintro (y | u)
  · by_cases same : y = x
    · subst same; simp [State.has, locks]
    · simpa [State.has, locks, same] using permit (.inl y)
  · by_cases same : u = t
    · subst same; simp [State.has, moved, inside]
    · simpa [State.has, moved, same] using permit (.inr u)

theorem State.PermitAt.give [DecidableEq T] {s s' : State T} {t : T} {p : Pc} {x : Sem}
    (permit : s.PermitAt (.inr t)) (locks : s'.isOpen = Function.update s.isOpen x true)
    (moved : s'.pc = Function.update s.pc t p) (outside : p.inside = false) :
    s'.PermitAt (.inl x) := by
  rintro (y | u)
  · by_cases same : y = x
    · subst same; simp [State.has, locks]
    · simpa [State.has, locks, same] using permit (.inl y)
  · by_cases same : u = t
    · subst same; simp [State.has, moved, outside]
    · simpa [State.has, moved, same] using permit (.inr u)

theorem waiter_of_thread {t : T} {kind : T → Kind} {s' : State T} (permit : s'.PermitAt (.inr t)) (k : Kind)
    (isOpen : s'.isOpen (.cond k) = true) : ∃ u, kind u = k ∧ s'.pc u = .waiting := by
  rw [permit.closed] at isOpen
  cases isOpen

theorem waiter_of_mutex {kind : T → Kind} {s' : State T} (permit : s'.PermitAt (.inl .mutex)) (k : Kind)
    (isOpen : s'.isOpen (.cond k) = true) : ∃ u, kind u = k ∧ s'.pc u = .waiting := by
  cases permit.open isOpen

section
variable [Fintype T] [DecidableEq T]

/-- What ties the permit, the locks and the counters together in every reachable state. -/
structure Permits (kind : T → Kind) (s : State T) : Prop where
  permit : ∃ place, s.PermitAt place
  enrolled : ∀ k, s.numOfWaiting k = population fun t => kind t = k ∧ (s.pc t).enrolled = true
  waiter : ∀ k, s.isOpen (.cond k) = true → ∃ t, kind t = k ∧ s.pc t = .waiting

variable {kind : T → Kind} {s s' : State T}

omit [DecidableEq T] in
theorem permits_main : Permits kind (main kind false : State T) where
  permit := by
    refine ⟨.inl .mutex, ?_⟩
    rintro ((_ | k) | t) <;> simp [State.has, main, Pc.inside]
  enrolled k := by
    symm
    simp [main, Pc.enrolled, population_eq_zero_iff]
  waiter k isOpen := by simp [main] at isOpen

omit [DecidableEq T] in
theorem Permits.at_thread (inv : Permits kind s) {t : T} (inside : (s.pc t).inside = true) :
    s.PermitAt (.inr t) := by
  obtain ⟨place, permit⟩ := inv.permit
  exact permit.inside inside ▸ permit

omit [DecidableEq T] in
theorem Permits.at_lock (inv : Permits kind s) {x : Sem} (isOpen : s.isOpen x = true) :
    s.PermitAt (.inl x) := by
  obtain ⟨place, permit⟩ := inv.permit
  exact permit.open isOpen ▸ permit

theorem Permits.enrolled_same (inv : Permits kind s) {t : T} {p : Pc}
    (counters : s'.numOfWaiting = s.numOfWaiting) (moved : s'.pc = Function.update s.pc t p)
    (same : p.enrolled = (s.pc t).enrolled) (k : Kind) :
    s'.numOfWaiting k = population fun t => kind t = k ∧ (s'.pc t).enrolled = true := by
  rw [counters, inv.enrolled k]
  apply population_congr
  intro u
  by_cases here : u = t
  · subst here; simp [moved, same]
  · simp [moved, here]

omit [DecidableEq T] in
theorem Permits.waiting_of_enrolled (inv : Permits kind s) {t : T} {k : Kind}
    (permit : s.PermitAt (.inr t)) (here : (s.pc t).enrolled = false) (counted : 0 < s.numOfWaiting k) :
    ∃ u, kind u = k ∧ s.pc u = .waiting := by
  rw [inv.enrolled k, population_pos_iff] at counted
  obtain ⟨u, same, listed⟩ := counted
  have distinct : u ≠ t := by rintro rfl; simp [here] at listed
  have outside := permit.outside (u := u) (by simpa using distinct.symm)
  refine ⟨u, same, ?_⟩
  cases at_ : s.pc u <;> simp_all [Pc.inside, Pc.enrolled]

theorem Permits.enrolled_join (inv : Permits kind s) {t : T} {p : Pc}
    (counters : s'.numOfWaiting =
      Function.update s.numOfWaiting (kind t) (s.numOfWaiting (kind t) + 1))
    (moved : s'.pc = Function.update s.pc t p) (before : (s.pc t).enrolled = false)
    (after : p.enrolled = true) (k : Kind) :
    s'.numOfWaiting k = population fun u => kind u = k ∧ (s'.pc u).enrolled = true := by
  rw [counters, moved]
  by_cases same : k = kind t
  · subst same
    rw [Function.update_self, inv.enrolled]
    symm
    apply population_join (t := t)
    · intro u distinct
      simp [distinct]
    · simp [before]
    · simp [after]
  · rw [Function.update_of_ne same, inv.enrolled]
    apply population_congr
    intro u
    by_cases here : u = t
    · subst here; simp [Ne.symm same]
    · simp [here]

theorem Permits.enrolled_leave (inv : Permits kind s) {t : T} {p : Pc}
    (counters : s'.numOfWaiting =
      Function.update s.numOfWaiting (kind t) (s.numOfWaiting (kind t) - 1))
    (moved : s'.pc = Function.update s.pc t p) (before : (s.pc t).enrolled = true)
    (after : p.enrolled = false) (k : Kind) :
    s'.numOfWaiting k = population fun u => kind u = k ∧ (s'.pc u).enrolled = true := by
  rw [counters, moved]
  by_cases same : k = kind t
  · subst same
    have left : (population fun u => kind u = kind t ∧ (s.pc u).enrolled = true) =
        (population fun u => kind u = kind t ∧ (Function.update s.pc t p u).enrolled = true) + 1 := by
      apply population_leave (t := t)
      · intro u distinct
        simp [distinct]
      · simp [before]
      · simp [after]
    rw [Function.update_self, inv.enrolled, left]
    omega
  · rw [Function.update_of_ne same, inv.enrolled]
    apply population_congr
    intro u
    by_cases here : u = t
    · subst here; simp [Ne.symm same]
    · simp [here]

theorem Permits.step (inv : Permits kind s) {t : T} {event : Event}
    (moved : Moves kind s t event s') : Permits kind s' := by
  cases moved with
  | enter at_ mutexOpen =>
    have permit : ((s.set .mutex false).goto t .entered).PermitAt (.inr t) :=
      (inv.at_lock mutexOpen).take rfl rfl rfl
    exact ⟨⟨_, permit⟩, inv.enrolled_same rfl rfl (by rw [at_]; rfl), waiter_of_thread permit⟩
  | pass at_ true_ =>
    have permit : (s.goto t .access).PermitAt (.inr t) :=
      (inv.at_thread (by rw [at_]; rfl)).stay rfl rfl rfl
    exact ⟨⟨_, permit⟩, inv.enrolled_same rfl rfl (by rw [at_]; rfl), waiter_of_thread permit⟩
  | enroll at_ false_ =>
    have permit : ((s.count (kind t) (s.numOfWaiting (kind t) + 1)).goto t .counted).PermitAt (.inr t) :=
      (inv.at_thread (by rw [at_]; rfl)).stay rfl rfl rfl
    exact ⟨⟨_, permit⟩, inv.enrolled_join rfl rfl (by rw [at_]; rfl) rfl, waiter_of_thread permit⟩
  | leave at_ =>
    have permit : ((s.set .mutex true).goto t .waiting).PermitAt (.inl .mutex) :=
      (inv.at_thread (by rw [at_]; rfl)).give rfl rfl rfl
    exact ⟨⟨_, permit⟩, inv.enrolled_same rfl rfl (by rw [at_]; rfl), waiter_of_mutex permit⟩
  | wake at_ condOpen =>
    have permit : ((s.set (.cond (kind t)) false).goto t .woken).PermitAt (.inr t) :=
      (inv.at_lock condOpen).take rfl rfl rfl
    exact ⟨⟨_, permit⟩, inv.enrolled_same rfl rfl (by rw [at_]; rfl), waiter_of_thread permit⟩
  | resume at_ =>
    have permit : ((s.count (kind t) (s.numOfWaiting (kind t) - 1)).goto t .access).PermitAt (.inr t) :=
      (inv.at_thread (by rw [at_]; rfl)).stay rfl rfl rfl
    exact ⟨⟨_, permit⟩, inv.enrolled_leave rfl rfl (by rw [at_]; rfl) rfl, waiter_of_thread permit⟩
  | access at_ done =>
    have permit : ((s.accessBuffer (kind t) t).2.goto t .handOff).PermitAt (.inr t) :=
      (inv.at_thread (by rw [at_]; rfl)).stay (p := .handOff) (by simp) (by simp) rfl
    refine ⟨⟨_, permit⟩, ?_, waiter_of_thread permit⟩
    exact inv.enrolled_same (t := t) (p := .handOff) (by simp) (by simp) (by rw [at_]; rfl)
  | @handOff x at_ woken =>
    have before := inv.at_thread (t := t) (by rw [at_]; rfl)
    have permit : (((s.set x true).advance (kind t) t).goto t .start).PermitAt (.inl x) :=
      before.give (p := .start) (by simp) (by simp) rfl
    refine ⟨⟨_, permit⟩, ?_, ?_⟩
    · exact inv.enrolled_same (t := t) (p := .start) (by simp) (by simp) (by rw [at_]; rfl)
    intro k isOpen
    -- the lock released is the one of a kind whose counter is positive
    cases permit.open isOpen
    obtain ⟨u, same, waits⟩ := inv.waiting_of_enrolled before (by rw [at_]; rfl) (wakes_eq_cond woken).2
    have distinct : u ≠ t := by rintro rfl; rw [at_] at waits; cases waits
    exact ⟨u, same, by simp [distinct, waits]⟩

theorem permits_of_reachable (reached : (system kind false).Reachable s) : Permits kind s :=
  reached.invariant (fun _ initial => initial ▸ permits_main)
    fun _ _ _ inv moved => inv.step (moves_of_step moved)

def State.openLocks (s : State T) : Nat := population fun x : Sem => s.isOpen x = true

def State.threadsInside (s : State T) : Nat := population fun t => (s.pc t).inside = true

omit [DecidableEq T] in
theorem State.PermitAt.total {place : Sem ⊕ T} (permit : s.PermitAt place) :
    s.openLocks + s.threadsInside = 1 := by
  cases place with
  | inl x =>
    have lock : s.openLocks = 1 := population_eq_one (t := x) fun y => by
      simpa [State.has] using permit (.inl y)
    have none_ : s.threadsInside = 0 := population_eq_zero_iff.mpr fun u inside => by
      cases permit.inside inside
    rw [lock, none_]
  | inr t =>
    have none_ : s.openLocks = 0 := population_eq_zero_iff.mpr fun x isOpen => by
      cases permit.open isOpen
    have one : s.threadsInside = 1 := population_eq_one (t := t) fun u => by
      simpa [State.has] using permit (.inr u)
    rw [none_, one]

/-- Exactly one permit exists; an open condition lock has a thread that counted
itself and waits for it; a lock is never released while it is open. -/
theorem permit_conservation (kind : T → Kind) (s : State T)
    (reached : (system kind false).Reachable s) :
    s.openLocks + s.threadsInside = 1 ∧
    (∀ k, s.isOpen (.cond k) = true → 0 < s.numOfWaiting k ∧ ∃ t, kind t = k ∧ s.pc t = .waiting) ∧
    ∀ t x s', step kind s t = some (.released x, s') → s.isOpen x = false := by
  have inv := permits_of_reachable reached
  refine ⟨?_, ?_, ?_⟩
  · obtain ⟨place, permit⟩ := inv.permit
    exact permit.total
  · intro k isOpen
    obtain ⟨t, same, waits⟩ := inv.waiter k isOpen
    refine ⟨?_, t, same, waits⟩
    rw [inv.enrolled k, population_pos_iff]
    exact ⟨t, same, by rw [waits]; rfl⟩
  · intro t x s' moved
    have released := moves_of_step moved
    have inside : (s.pc t).inside = true := by
      cases released with
      | leave at_ => rw [at_]; rfl
      | handOff at_ => rw [at_]; rfl
      | access at_ done => rw [at_]; rfl
    exact (inv.at_thread inside).closed x

end

/-- One thread of each kind; the consumer of evens has counted itself and waits. -/
theorem permit_conservation_waiting :
    ∃ final, play id (main id false) [.consEven, .consEven, .consEven] = some final ∧
      final.2.openLocks + final.2.threadsInside = 1 := by
  have played : play id (main id false) [.consEven, .consEven, .consEven] = some _ := rfl
  exact ⟨_, played, (permit_conservation id _ ⟨_, run_play (.start rfl) played⟩).1⟩

end SoiStud.Semaphores
