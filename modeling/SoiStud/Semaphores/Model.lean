import SoiStud.Buffer
import SoiStud.Library.Transition
import Mathlib.Logic.Function.Basic

/-! The semaphore solution of the producer/consumer exercise (`semaphores.cpp`).

The four thread routines, the five locks and the four counters. A lock is a
binary semaphore that any thread may release; a thread moves through its
routine one access to the shared state at a time.
-/

set_option autoImplicit false

namespace SoiStud.Semaphores

/-- The global lock `mutex` and the locks `prodEven`, `prodOdd`, `consEven`, `consOdd`. -/
inductive Sem where
  | mutex
  | cond (k : Kind)
  deriving DecidableEq, Repr

instance : Fintype Sem where
  elems := {.mutex, .cond .prodEven, .cond .prodOdd, .cond .consEven, .cond .consOdd}
  complete
    | .mutex => by decide
    | .cond k => by cases k <;> decide

/-- A routine: the kind naming its condition, counter and lock, and the kinds
its final if/else chain considers waking, in the order of the chain. -/
structure Routine where
  own : Kind
  cascade : List Kind

def a1 : Routine := ⟨.prodEven, [.prodOdd, .consEven, .consOdd]⟩

def a2 : Routine := ⟨.prodOdd, [.prodEven, .consEven, .consOdd]⟩

def b1 : Routine := ⟨.consEven, [.prodEven, .prodOdd, .consOdd]⟩

def b2 : Routine := ⟨.consOdd, [.prodEven, .prodOdd, .consEven]⟩

def routine : Kind → Routine
  | .prodEven => a1
  | .prodOdd => a2
  | .consEven => b1
  | .consOdd => b2

/-- Where a thread is in its routine. -/
inductive Pc where
  /-- before `mutex.lock()` -/
  | start
  /-- `mutex` is held, the condition is not yet tested -/
  | entered
  /-- the condition was false and the thread has counted itself, before `mutex.unlock()` -/
  | counted
  /-- before the `lock()` of the thread's own condition lock -/
  | waiting
  /-- the condition lock is taken, the counter is not yet decremented -/
  | woken
  /-- before `buffer.put` or `buffer.get` -/
  | access
  /-- before the final if/else chain -/
  | handOff
  deriving DecidableEq, Repr

def Pc.inside : Pc → Bool
  | .start | .waiting => false
  | .entered | .counted | .woken | .access | .handOff => true

/-- What a step does that other threads or an observer can see. -/
inductive Event where
  | acquired (x : Sem)
  | tested (outcome : Bool)
  | resumed
  | appended (num : Int)
  | received (val : Int)
  | released (x : Sem)
  deriving DecidableEq, Repr

/-- `i` is the loop variable of a producer; `numOfWaiting` holds the four
counters `numOfProdEvenWaiting`, .., `numOfConsOddWaiting`. -/
structure State (T : Type) where
  pc : T → Pc
  i : T → Int
  isOpen : Sem → Bool
  numOfWaiting : Kind → Nat
  buffer : Buffer

/-- The state set up by `main`: the condition locks are taken, and so is
`mutex` in scenario 8 only. -/
def main {T : Type} (kind : T → Kind) (scenario8 : Bool) : State T where
  pc _ := .start
  i t := if kind t = .prodOdd then 1 else 0
  isOpen
    | .mutex => !scenario8
    | .cond _ => false
  numOfWaiting _ := 0
  buffer := ⟨[]⟩

/-- The lock released by the final if/else chain: the first condition of the
chain that is true and has a waiting thread, and `mutex` if there is none. -/
def Routine.wakes (r : Routine) (numOfWaiting : Kind → Nat) (buffer : Buffer) : Sem :=
  match r.cascade.find? fun k => k.guard buffer && numOfWaiting k > 0 with
  | some k => .cond k
  | none => .mutex

section
variable {T : Type} [DecidableEq T]

def State.goto (s : State T) (t : T) (p : Pc) : State T := { s with pc := Function.update s.pc t p }

def State.set (s : State T) (x : Sem) (value : Bool) : State T :=
  { s with isOpen := Function.update s.isOpen x value }

def State.count (s : State T) (k : Kind) (value : Nat) : State T :=
  { s with numOfWaiting := Function.update s.numOfWaiting k value }

/-- `buffer.put(i)` in a producer, `buffer.get()` in a consumer. -/
def State.accessBuffer (s : State T) (k : Kind) (t : T) : Event × State T :=
  match k with
  | .prodEven | .prodOdd => (.appended (s.i t), { s with buffer := s.buffer.put (s.i t) })
  | .consEven | .consOdd => (.received s.buffer.get.1, { s with buffer := s.buffer.get.2 })

/-- `i = (i+2) % 50` at the end of a producer's loop body. -/
def State.advance (s : State T) (k : Kind) (t : T) : State T :=
  match k with
  | .prodEven | .prodOdd => { s with i := Function.update s.i t ((s.i t + 2) % 50) }
  | .consEven | .consOdd => s

section
variable (s : State T) (t : T) (p : Pc) (x : Sem) (v : Bool) (k : Kind) (n : Nat)

@[simp] theorem goto_pc : (s.goto t p).pc = Function.update s.pc t p := rfl
@[simp] theorem goto_i : (s.goto t p).i = s.i := rfl
@[simp] theorem goto_isOpen : (s.goto t p).isOpen = s.isOpen := rfl
@[simp] theorem goto_numOfWaiting : (s.goto t p).numOfWaiting = s.numOfWaiting := rfl
@[simp] theorem goto_buffer : (s.goto t p).buffer = s.buffer := rfl

omit [DecidableEq T]

@[simp] theorem set_pc : (s.set x v).pc = s.pc := rfl
@[simp] theorem set_i : (s.set x v).i = s.i := rfl
@[simp] theorem set_isOpen : (s.set x v).isOpen = Function.update s.isOpen x v := rfl
@[simp] theorem set_numOfWaiting : (s.set x v).numOfWaiting = s.numOfWaiting := rfl
@[simp] theorem set_buffer : (s.set x v).buffer = s.buffer := rfl

@[simp] theorem count_pc : (s.count k n).pc = s.pc := rfl
@[simp] theorem count_i : (s.count k n).i = s.i := rfl
@[simp] theorem count_isOpen : (s.count k n).isOpen = s.isOpen := rfl
@[simp] theorem count_numOfWaiting :
    (s.count k n).numOfWaiting = Function.update s.numOfWaiting k n := rfl
@[simp] theorem count_buffer : (s.count k n).buffer = s.buffer := rfl

@[simp] theorem accessBuffer_pc : (s.accessBuffer k t).2.pc = s.pc := by cases k <;> rfl
@[simp] theorem accessBuffer_i : (s.accessBuffer k t).2.i = s.i := by cases k <;> rfl
@[simp] theorem accessBuffer_isOpen : (s.accessBuffer k t).2.isOpen = s.isOpen := by cases k <;> rfl
@[simp] theorem accessBuffer_numOfWaiting :
    (s.accessBuffer k t).2.numOfWaiting = s.numOfWaiting := by cases k <;> rfl

variable [DecidableEq T]

@[simp] theorem advance_pc : (s.advance k t).pc = s.pc := by cases k <;> rfl
@[simp] theorem advance_isOpen : (s.advance k t).isOpen = s.isOpen := by cases k <;> rfl
@[simp] theorem advance_numOfWaiting : (s.advance k t).numOfWaiting = s.numOfWaiting := by
  cases k <;> rfl
@[simp] theorem advance_buffer : (s.advance k t).buffer = s.buffer := by cases k <;> rfl

end

/-- The next step of thread `t`, if it is not blocked at a lock. -/
def step (kind : T → Kind) (s : State T) (t : T) : Option (Event × State T) :=
  let own := (routine (kind t)).own
  match s.pc t with
  | .start =>
      if s.isOpen .mutex then some (.acquired .mutex, (s.set .mutex false).goto t .entered) else none
  | .entered =>
      if own.guard s.buffer then some (.tested true, s.goto t .access)
      else some (.tested false, (s.count own (s.numOfWaiting own + 1)).goto t .counted)
  -- the counter is raised under `mutex`, and `mutex` given back before the wait
  | .counted => some (.released .mutex, (s.set .mutex true).goto t .waiting)
  | .waiting =>
      if s.isOpen (.cond own) then some (.acquired (.cond own), (s.set (.cond own) false).goto t .woken)
      else none
  -- the lock taken is the one the waker passed on, so the condition is not tested again
  | .woken => some (.resumed, (s.count own (s.numOfWaiting own - 1)).goto t .access)
  | .access =>
      let (event, s') := s.accessBuffer (kind t) t
      some (event, s'.goto t .handOff)
  | .handOff =>
      -- one lock is released: a waiting thread's, or `mutex` for whoever comes next
      let x := (routine (kind t)).wakes s.numOfWaiting s.buffer
      some (.released x, ((s.set x true).advance (kind t) t).goto t .start)

def system (kind : T → Kind) (scenario8 : Bool) : Library.System (State T) (T × Event) where
  init s := s = main kind scenario8
  step s label s' := step kind s label.1 = some (label.2, s')

inductive Moves (kind : T → Kind) (s : State T) (t : T) : Event → State T → Prop where
  | enter : s.pc t = .start → s.isOpen .mutex = true →
      Moves kind s t (.acquired .mutex) ((s.set .mutex false).goto t .entered)
  | pass : s.pc t = .entered → (kind t).guard s.buffer = true →
      Moves kind s t (.tested true) (s.goto t .access)
  | enroll : s.pc t = .entered → (kind t).guard s.buffer = false →
      Moves kind s t (.tested false)
        ((s.count (kind t) (s.numOfWaiting (kind t) + 1)).goto t .counted)
  | leave : s.pc t = .counted →
      Moves kind s t (.released .mutex) ((s.set .mutex true).goto t .waiting)
  | wake : s.pc t = .waiting → s.isOpen (.cond (kind t)) = true →
      Moves kind s t (.acquired (.cond (kind t))) ((s.set (.cond (kind t)) false).goto t .woken)
  | resume : s.pc t = .woken →
      Moves kind s t .resumed ((s.count (kind t) (s.numOfWaiting (kind t) - 1)).goto t .access)
  | access {event : Event} : s.pc t = .access → (s.accessBuffer (kind t) t).1 = event →
      Moves kind s t event ((s.accessBuffer (kind t) t).2.goto t .handOff)
  | handOff {x : Sem} : s.pc t = .handOff →
      (routine (kind t)).wakes s.numOfWaiting s.buffer = x →
      Moves kind s t (.released x) (((s.set x true).advance (kind t) t).goto t .start)

theorem own_routine (k : Kind) : (routine k).own = k := by cases k <;> rfl

theorem moves_of_step {kind : T → Kind} {s s' : State T} {t : T} {event : Event}
    (moved : step kind s t = some (event, s')) : Moves kind s t event s' := by
  unfold step at moved
  rw [own_routine] at moved
  cases at_ : s.pc t with
  | start =>
    simp only [at_] at moved
    split at moved
    next mutexOpen => cases moved; exact .enter at_ mutexOpen
    next => cases moved
  | entered =>
    simp only [at_] at moved
    split at moved
    next true_ => cases moved; exact .pass at_ true_
    next false_ => cases moved; exact .enroll at_ (Bool.not_eq_true _ ▸ false_)
  | counted => simp only [at_] at moved; cases moved; exact .leave at_
  | waiting =>
    simp only [at_] at moved
    split at moved
    next condOpen => cases moved; exact .wake at_ condOpen
    next => cases moved
  | woken => simp only [at_] at moved; cases moved; exact .resume at_
  | access => simp only [at_] at moved; cases moved; exact .access at_ rfl
  | handOff => simp only [at_] at moved; cases moved; exact .handOff at_ rfl

def play (kind : T → Kind) : State T → List T → Option (List (T × Event) × State T)
  | s, [] => some ([], s)
  | s, t :: rest =>
    match step kind s t with
    | some (event, s') => (play kind s' rest).map fun (tail, final) => ((t, event) :: tail, final)
    | none => none

theorem run_play {kind : T → Kind} {scenario8 : Bool} {s : State T} {schedule : List T}
    {history : List (T × Event)} {final : List (T × Event) × State T}
    (run : (system kind scenario8).Run history s) (played : play kind s schedule = some final) :
    (system kind scenario8).Run (history ++ final.1) final.2 := by
  induction schedule generalizing s history final with
  | nil =>
    cases played
    simpa using run
  | cons t rest ih =>
    simp only [play] at played
    split at played
    next event next moved =>
      obtain ⟨⟨tail, last⟩, played', rfl⟩ := Option.map_eq_some_iff.mp played
      have edge : (system kind scenario8).step s (t, event) next := moved
      simpa using ih (run.next edge) played'
    next => cases played

end

theorem wakes_eq_cond {r : Routine} {numOfWaiting : Kind → Nat} {buffer : Buffer} {k : Kind}
    (woken : r.wakes numOfWaiting buffer = .cond k) :
    k.guard buffer = true ∧ 0 < numOfWaiting k := by
  unfold Routine.wakes at woken
  split at woken
  next found search =>
    cases woken
    simpa using List.find?_some search
  next => cases woken

theorem wakes_eq_mutex {r : Routine} {numOfWaiting : Kind → Nat} {buffer : Buffer}
    (returned : r.wakes numOfWaiting buffer = .mutex) :
    ∀ k ∈ r.cascade, k.guard buffer = true → numOfWaiting k = 0 := by
  unfold Routine.wakes at returned
  split at returned
  next => cases returned
  next search =>
    intro k listed true_
    have := List.find?_eq_none.mp search k listed
    simpa [true_] using this

theorem mem_cascade_iff (k other : Kind) : other ∈ (routine k).cascade ↔ other ≠ k := by
  cases k <;> cases other <;> decide

end SoiStud.Semaphores
