import SoiStud.Memory.Swapping

/-! The outer loop of `alloc_mem`, the same with both policies.

A round searches the hole list, bites the block off the hole that was found, or
swaps a process out and goes round again. What a call changes beside the hole
table tells how many rounds there were: a process that is swapped out stays so.
-/

set_option autoImplicit false

namespace SoiStud.Memory

open Library

variable {c : Constants} {s s' t u : State} {holes slots : List Nat} {hp rmp clicks fuel n : Nat} {prev : Option Nat}

/-- The loop of `swap_out` ends with the first process it can swap out, or with none. -/
theorem swapOutFrom_cases {l : List Nat} {swapped : Bool} (ran : swapOutFrom c l s = .ok (swapped, s')) :
    (swapped = false ∧ s' = s ∧ ∀ rmp ∈ l, trySwap c rmp s = .ok none) ∨
      (swapped = true ∧ ∃ rmp ∈ l, trySwap c rmp s = .ok (some s')) := by
  induction l with
  | nil =>
    cases ran
    exact .inl ⟨rfl, rfl, by simp⟩
  | cons rmp rest ih =>
    rw [swapOutFrom, bind_eq_ok] at ran
    obtain ⟨out, tried, ran⟩ := ran
    cases out with
    | some u =>
      cases ran
      exact .inr ⟨rfl, rmp, List.mem_cons_self, tried⟩
    | none =>
      rcases ih ran with ⟨no, same, none_⟩ | ⟨yes, i, member, done⟩
      · exact .inl ⟨no, same, List.forall_mem_cons.mpr ⟨tried, none_⟩⟩
      · exact .inr ⟨yes, i, List.mem_cons_of_mem _ member, done⟩

theorem swapOut_cases {swapped : Bool} (ran : swapOut c s = .ok (swapped, s')) :
    (swapped = false ∧ s' = s ∧ ∀ rmp ∈ roundFrom c s.outswap, trySwap c rmp s = .ok none) ∨
      (swapped = true ∧ ∃ rmp ∈ roundFrom c s.outswap, SwapSteps c rmp s s') := by
  rcases swapOutFrom_cases ran with none_ | ⟨yes, rmp, member, done⟩
  · exact .inl none_
  · refine .inr ⟨yes, rmp, member, ?_⟩
    rcases trySwap_cases done with ⟨absent, -⟩ | ⟨u, same, steps⟩
    · cases absent
    · cases same
      exact steps

theorem swapOut_steps (ran : swapOut c s = .ok (true, s')) : ∃ rmp ∈ roundFrom c s.outswap, SwapSteps c rmp s s' := by
  rcases swapOut_cases ran with ⟨no, -⟩ | ⟨-, swapped⟩
  · cases no
  · exact swapped

inductive SwappedOuts (c : Constants) : Nat → State → State → Prop where
  | none {s : State} : SwappedOuts c 0 s s
  | more {n : Nat} {s t u : State} : swapOut c s = .ok (true, t) → SwappedOuts c n t u → SwappedOuts c (n + 1) s u

theorem SwappedOut.onswap_eq (swapped : SwappedOut rmp s s') (i : Nat) :
    (s'.mproc i).onswap = if i = rmp then true else (s.mproc i).onswap := by
  obtain ⟨base, moved⟩ := swapped.moved
  rw [moved, Function.update_apply]
  split <;> rfl

theorem SwappedOut.was_in_memory (swapped : SwappedOut rmp s s') : (s.mproc rmp).onswap = false := by
  have candidate := swapped.candidate
  simp only [Mproc.candidate, Bool.and_eq_true, Bool.not_eq_true', Bool.or_eq_false_iff] at candidate
  exact candidate.2.2

theorem SwappedOuts.onswap_of (outs : SwappedOuts c n s t) {i : Nat} (was : (s.mproc i).onswap = true) :
    (t.mproc i).onswap = true := by
  induction outs with
  | none => exact was
  | more ran _ ih =>
    obtain ⟨rmp, -, steps⟩ := swapOut_steps ran
    refine ih ?_
    rw [steps.swappedOut.onswap_eq]
    split
    next => rfl
    next => exact was

theorem SwappedOuts.settings (outs : SwappedOuts c n s t) : t.settings = s.settings := by
  induction outs with
  | none => rfl
  | more ran _ ih =>
    obtain ⟨rmp, -, steps⟩ := swapOut_steps ran
    exact ih.trans steps.swappedOut.settings

theorem SwappedOuts.ready {given others : List Extent} {owners : List Nat} (outs : SwappedOuts c n s t)
    (ready : Ready c given others owners s) (nodup : owners.Nodup) :
    Ready c given others owners t ∧ inMemory c s = inMemory c t + n := by
  induction outs with
  | none => exact ⟨ready, rfl⟩
  | more ran _ ih =>
    rcases swapOut_spec ready nodup with none_ | full | ⟨u, ran', ready', -, fewer⟩
    · cases none_.symm.trans ran
    · cases full.symm.trans ran
    · cases ran'.symm.trans ran
      obtain ⟨last, count⟩ := ih ready'
      exact ⟨last, by omega⟩

/-- A process that was swapped out can be seen in the process table. -/
theorem SwappedOuts.eq_of_mproc (outs : SwappedOuts c n s t) (same : t.mproc = s.mproc) : n = 0 ∧ t = s := by
  cases outs with
  | none => exact ⟨rfl, rfl⟩
  | more ran rest =>
    obtain ⟨rmp, -, steps⟩ := swapOut_steps ran
    have now := rest.onswap_of (i := rmp) (by rw [steps.swappedOut.onswap_eq, if_pos rfl])
    rw [same, steps.swappedOut.was_in_memory] at now
    cases now

abbrev Round := Option Nat → State → Except Fault (Option (Nat × Option Nat) × Option Nat)

def firstRound (c : Constants) (clicks : Nat) : Round := fun prev s => do
  let (hp, prev) ← walk c s (fun h => h.base < s.swapBase && h.len < clicks) (c.nrHoles + 1) s.holeHead prev
  if hp ≠ c.nil ∧ (s.hole hp).base < s.swapBase then .ok (some (hp, prev), prev) else .ok (none, prev)

def worstRound (c : Constants) (clicks : Nat) : Round := fun prev s => do
  let found ← findBiggest c s (c.nrHoles + 1) s.holeHead ⟨prev, s.holeHead, none⟩
  if found.biggestHole = c.nil then .error .nilHole
  else if (s.hole found.biggestHole).len ≥ clicks then
    .ok (some (found.biggestHole, found.biggestHolePrev), found.prev)
  else .ok (none, found.prev)

def rounds (c : Constants) (clicks : Nat) (round : Round) : Nat → Option Nat → State → Except Fault (Option Nat × State)
  | 0, _, _ => .error .outOfFuel
  | fuel + 1, prev, s => do
    match ← round prev s with
    | (some (hp, before), _) => do
      let (oldBase, s) ← bite clicks hp before s
      .ok (some oldBase, s)
    | (none, prev) => do
      let (swapped, s) ← swapOut c s
      if swapped then rounds c clicks round fuel prev s else .ok (none, s)

theorem firstFit_eq : firstFit c clicks fuel prev s = rounds c clicks (firstRound c clicks) fuel prev s := by
  induction fuel generalizing prev s with
  | zero => rfl
  | succ fuel ih =>
    rw [firstFit, rounds, firstRound]
    cases walk c s (fun h => h.base < s.swapBase && h.len < clicks) (c.nrHoles + 1) s.holeHead prev with
    | error e => rfl
    | ok found =>
      simp only [ok_bind, ih]
      split <;> rfl

theorem worstFit_eq : worstFit c clicks fuel prev s = rounds c clicks (worstRound c clicks) fuel prev s := by
  induction fuel generalizing prev s with
  | zero => rfl
  | succ fuel ih =>
    rw [worstFit, rounds, worstRound]
    cases findBiggest c s (c.nrHoles + 1) s.holeHead ⟨prev, s.holeHead, none⟩ with
    | error e => rfl
    | ok found =>
      simp only [ok_bind, ih]
      split
      next => rfl
      next => split <;> rfl

def policy (c : Constants) (clicks : Nat) (s : State) : Round :=
  if s.worstFitFlag = 0 then firstRound c clicks else worstRound c clicks

theorem allocMem_eq : allocMem c clicks s = rounds c clicks (policy c clicks s) (c.nrProcs + 1) none s := by
  unfold allocMem policy
  split
  next => exact firstFit_eq
  next => exact worstFit_eq

inductive LastRound (c : Constants) (clicks : Nat) (round : Round) (t : State) : Option Nat → State → Prop where
  | taken {prev before rest : Option Nat} {hp base : Nat} {s' : State} : round prev t = .ok (some (hp, before), rest) →
      bite clicks hp before t = .ok (base, s') → LastRound c clicks round t (some base) s'
  | gaveUp {prev rest : Option Nat} : round prev t = .ok (none, rest) → swapOut c t = .ok (false, t) →
      LastRound c clicks round t none t

inductive Stops (c : Constants) (clicks : Nat) (round : Round) (t : State) : Except Fault (Option Nat × State) → Prop where
  | failed {prev : Option Nat} {e : Fault} : round prev t = .error e → Stops c clicks round t (.error e)
  | found {prev before rest : Option Nat} {hp : Nat} : round prev t = .ok (some (hp, before), rest) →
      Stops c clicks round t (bite clicks hp before t >>= fun taken => .ok (some taken.1, taken.2))
  | refused {prev rest : Option Nat} {e : Fault} : round prev t = .ok (none, rest) → swapOut c t = .error e →
      Stops c clicks round t (.error e)
  | gaveUp {prev rest : Option Nat} : round prev t = .ok (none, rest) → swapOut c t = .ok (false, t) →
      Stops c clicks round t (.ok (none, t))

theorem rounds_stop (c : Constants) (clicks : Nat) (round : Round) (fuel : Nat) (prev : Option Nat) (s : State) :
    (rounds c clicks round fuel prev s = .error .outOfFuel ∧ ∃ t, SwappedOuts c fuel s t) ∨
      ∃ n t, SwappedOuts c n s t ∧ Stops c clicks round t (rounds c clicks round fuel prev s) := by
  induction fuel generalizing prev s with
  | zero => exact .inl ⟨rfl, s, .none⟩
  | succ fuel ih =>
    rw [rounds]
    cases searched : round prev s with
    | error e => exact .inr ⟨0, s, .none, .failed searched⟩
    | ok outcome =>
      obtain ⟨out, rest⟩ := outcome
      rw [ok_bind]
      cases out with
      | some hole => exact .inr ⟨0, s, .none, .found searched⟩
      | none =>
        cases out : swapOut c s with
        | error e => exact .inr ⟨0, s, .none, .refused searched out⟩
        | ok result =>
          obtain ⟨swapped, t⟩ := result
          simp only [ok_bind]
          cases swapped with
          | true =>
            rcases ih rest t with ⟨fault, u, outs⟩ | ⟨n, u, outs, stops⟩
            · exact .inl ⟨fault, u, .more out outs⟩
            · exact .inr ⟨n + 1, u, .more out outs, stops⟩
          | false =>
            rcases swapOut_cases out with ⟨-, rfl, -⟩ | ⟨yes, -⟩
            · exact .inr ⟨0, _, .none, .gaveUp searched out⟩
            · cases yes

theorem rounds_cases {round : Round} {found : Option Nat} (ran : rounds c clicks round fuel prev s = .ok (found, s')) :
    ∃ n t, SwappedOuts c n s t ∧ LastRound c clicks round t found s' := by
  rcases rounds_stop c clicks round fuel prev s with ⟨fault, -⟩ | ⟨n, t, outs, stops⟩
  · cases fault.symm.trans ran
  generalize rounds c clicks round fuel prev s = result at ran stops
  cases stops with
  | failed _ => cases ran
  | found searched =>
    obtain ⟨⟨base, u⟩, bitten, done⟩ := bind_eq_ok.mp ran
    cases done
    exact ⟨n, t, outs, .taken searched bitten⟩
  | refused _ _ => cases ran
  | gaveUp searched refused =>
    cases ran
    exact ⟨n, _, outs, .gaveUp searched refused⟩

theorem increasing_of_separated (separated : Separated (extents s holes)) :
    holes.Pairwise fun i j => (s.hole i).base < (s.hole j).base := by
  refine (List.pairwise_map.mp separated.apart).imp fun {i j} apart => ?_
  simp only [Extent.top, Hole.extent] at apart
  omega

theorem above_of_head_above {rest : List Nat} (separated : Separated (extents s rest))
    (head : ∀ i ∈ rest.head?, s.swapBase ≤ (s.hole i).base) : ∀ i ∈ rest, s.swapBase ≤ (s.hole i).base := by
  cases rest with
  | nil => simp
  | cons i rest =>
    have first := head i rfl
    obtain ⟨later, -⟩ := List.pairwise_cons.mp (increasing_of_separated separated)
    exact List.forall_mem_cons.mpr ⟨first, fun j member => first.trans (later j member).le⟩

/-- The first hole below `swap_base` that is long enough, or none. -/
theorem firstRound_spec (clicks : Nat) (prev : Option Nat) (table : Table c s holes slots) (separated : Separated (extents s holes)) :
    ∃ out rest, firstRound c clicks prev s = .ok (out, rest) ∧
      (∀ hp before, out = some (hp, before) → Located holes hp before ∧ clicks ≤ (s.hole hp).len ∧
        (s.hole hp).base < s.swapBase) ∧
      (out = none → ∀ i ∈ holes, (s.hole i).base < s.swapBase → (s.hole i).len < clicks) := by
  obtain ⟨passed, rest, hp, ran, rfl, chain, all, stop⟩ := walk_spec prev
    (fun h => h.base < s.swapBase && h.len < clicks) table.linked (Nat.lt_succ_of_le table.length_le)
  rw [firstRound, ran, ok_bind]
  -- the walk stops at a hole that fits, at the swap area, or at the end of the list
  by_cases found : hp ≠ c.nil ∧ (s.hole hp).base < s.swapBase
  · simp only [if_pos found]
    cases rest with
    | nil => exact absurd chain.eq_nil found.1
    | cons i after =>
      obtain rfl := chain.head_eq
      have fit := stop hp rfl
      simp only [found.2, decide_true, Bool.true_and, decide_eq_false_iff_not, Nat.not_lt] at fit
      refine ⟨_, _, rfl, ?_, by simp⟩
      rintro hp' before same
      cases same
      exact ⟨⟨passed, after, rfl, precedes_getLast? passed prev⟩, fit, found.2⟩
  · simp only [if_neg found]
    refine ⟨none, _, rfl, by simp, fun _ i member low => ?_⟩
    rcases List.mem_append.mp member with before | behind
    · have passes := all i before
      simp only [Bool.and_eq_true, decide_eq_true_eq] at passes
      exact passes.2
    · -- the walk ended at the swap area
      rw [extents_append, separated_append] at separated
      refine absurd low (Nat.not_lt.mpr (above_of_head_above separated.2.1 (fun j first => ?_) i behind))
      cases rest with
      | nil => cases first
      | cons k after =>
        cases first
        obtain rfl := chain.head_eq
        exact Nat.not_lt.mp fun below => found ⟨chain.ne_nil, below⟩

/-- Of the holes seen so far the biggest one, the first of its length, and the one before it. -/
structure Biggest (s : State) (seen : List Nat) (found : Search) : Prop where
  last : seen.getLast? = found.prev
  split : ∃ before after, seen = before ++ found.biggestHole :: after ∧ Precedes found.biggestHolePrev before ∧
    (∀ i ∈ before, (s.hole i).len < (s.hole found.biggestHole).len) ∧
    ∀ i ∈ after, (s.hole i).len ≤ (s.hole found.biggestHole).len

theorem Biggest.see {seen : List Nat} {found : Search} (biggest : Biggest s seen found) (hp : Nat) :
    Biggest s (seen ++ [hp])
      (if (s.hole hp).len > (s.hole found.biggestHole).len then ⟨some hp, hp, found.prev⟩
        else { found with prev := some hp }) := by
  have next : (seen ++ [hp]).getLast? = some hp := List.getLast?_concat
  obtain ⟨last, before, after, rfl, pred, shorter, notLonger⟩ := biggest
  split
  next bigger =>
    refine ⟨next, before ++ found.biggestHole :: after, [], rfl, fun p first => last ▸ first, fun i member => ?_, by simp⟩
    rcases List.mem_append.mp member with inFront | behind
    · exact (shorter i inFront).trans bigger
    · rcases List.mem_cons.mp behind with rfl | later
      · exact bigger
      · exact (notLonger i later).trans_lt bigger
  next notBigger =>
    refine ⟨next, before, after ++ [hp], by simp, pred, shorter, fun i member => ?_⟩
    rcases List.mem_append.mp member with inFront | new
    · exact notLonger i inFront
    · obtain rfl := List.mem_singleton.mp new
      exact Nat.not_lt.mp notBigger

theorem findBiggest_biggest {found : Search} {seen rest : List Nat} (chain : Chain s.next c.nil hp rest)
    (biggest : Biggest s seen found) (enough : rest.length < fuel) :
    ∃ found' more rest', findBiggest c s fuel hp found = .ok found' ∧ rest = more ++ rest' ∧
      Biggest s (seen ++ more) found' ∧ (∀ i ∈ more, (s.hole i).base < s.swapBase) ∧
      ∀ i ∈ rest'.head?, s.swapBase ≤ (s.hole i).base := by
  induction fuel generalizing hp found seen rest with
  | zero => exact absurd enough (Nat.not_lt_zero _)
  | succ fuel ih =>
    rw [findBiggest]
    by_cases goes : hp ≠ c.nil ∧ (s.hole hp).base < s.swapBase
    · rw [if_pos goes]
      cases rest with
      | nil => exact absurd chain.eq_nil goes.1
      | cons i after =>
        obtain rfl := chain.head_eq
        obtain ⟨found', more, rest', ran, rfl, biggest', low, stop⟩ :=
          ih chain.tail (biggest.see hp) (Nat.lt_of_succ_lt_succ enough)
        refine ⟨found', hp :: more, rest', ?_, rfl, by simpa using biggest', List.forall_mem_cons.mpr ⟨goes.2, low⟩, stop⟩
        rw [← ran]
        dsimp only
        split <;> rfl
    · rw [if_neg goes]
      refine ⟨found, [], rest, rfl, rfl, by simpa using biggest, by simp, fun i first => ?_⟩
      cases rest with
      | nil => cases first
      | cons j after =>
        cases first
        obtain rfl := chain.head_eq
        exact Nat.not_lt.mp fun below => goes ⟨chain.ne_nil, below⟩

/-- What worst fit takes: the lowest of the longest holes below `swap_base`, but the
first hole of the list if none lies there. -/
structure Longest (s : State) (holes : List Nat) (hp : Nat) (prev : Option Nat) : Prop where
  split : ∃ before after, holes = before ++ hp :: after ∧ Precedes prev before ∧
    (∀ i ∈ before, (s.hole i).len < (s.hole hp).len) ∧
    (∀ i ∈ after, (s.hole i).base < s.swapBase → (s.hole i).len ≤ (s.hole hp).len) ∧
    ((s.hole hp).base < s.swapBase ∨ before = [] ∧ s.swapBase ≤ (s.hole hp).base)

theorem Longest.located (longest : Longest s holes hp prev) : Located holes hp prev := by
  obtain ⟨before, after, split, pred, -⟩ := longest.split
  exact ⟨before, after, split, pred⟩

theorem Longest.len_le (longest : Longest s holes hp prev) {i : Nat} (member : i ∈ holes)
    (low : (s.hole i).base < s.swapBase) : (s.hole i).len ≤ (s.hole hp).len := by
  obtain ⟨before, after, rfl, -, shorter, notLonger, -⟩ := longest.split
  rcases List.mem_append.mp member with inFront | behind
  · exact (shorter i inFront).le
  · rcases List.mem_cons.mp behind with rfl | later
    · exact Nat.le_refl _
    · exact notLonger i later low

theorem findBiggest_longest (prev : Option Nat) (table : Table c s holes slots) (separated : Separated (extents s holes))
    (some_ : holes ≠ []) :
    ∃ found, findBiggest c s (c.nrHoles + 1) s.holeHead ⟨prev, s.holeHead, none⟩ = .ok found ∧
      Longest s holes found.biggestHole found.biggestHolePrev := by
  obtain ⟨first, after, rfl⟩ := List.exists_cons_of_ne_nil some_
  obtain rfl := table.linked.head_eq
  obtain ⟨later, -⟩ := List.pairwise_cons.mp (increasing_of_separated separated)
  have length := table.length_le
  rw [findBiggest]
  by_cases low : (s.hole s.holeHead).base < s.swapBase
  · -- the first step compares the head of the list with itself
    rw [if_pos ⟨table.linked.ne_nil, low⟩, if_neg (Nat.lt_irrefl _)]
    have seen : Biggest s [s.holeHead] ⟨some s.holeHead, s.holeHead, none⟩ :=
      ⟨rfl, [], [], rfl, by simp [Precedes], by simp, by simp⟩
    obtain ⟨found, more, rest, ran, rfl, ⟨-, before, behind, split_, pred, shorter, notLonger⟩, below, stop⟩ :=
      findBiggest_biggest table.linked.tail seen length
    refine ⟨found, ran, before, behind ++ rest, ?_, pred, shorter, fun i member lower => ?_, .inl ?_⟩
    · have split := congrArg (· ++ rest) split_
      simpa using split
    · rcases List.mem_append.mp member with near | far
      · exact notLonger i near
      · rw [← List.cons_append, extents_append, separated_append] at separated
        exact absurd lower (Nat.not_lt.mpr (above_of_head_above separated.2.1 stop i far))
    · have among : found.biggestHole ∈ s.holeHead :: more := by
        change found.biggestHole ∈ [s.holeHead] ++ more
        rw [split_]
        simp
      rcases List.mem_cons.mp among with same | member
      · exact same ▸ low
      · exact below _ member
  · -- a head in the swap area ends the search, and is what it finds
    rw [if_neg fun goes => low goes.2]
    have high := Nat.not_lt.mp low
    refine ⟨_, rfl, [], after, rfl, by simp [Precedes], by simp, fun i member lower => ?_, .inr ⟨rfl, high⟩⟩
    exact absurd lower (Nat.not_lt.mpr (high.trans (later i member).le))

theorem worstRound_empty (prev : Option Nat) (empty : s.holeHead = c.nil) :
    worstRound c clicks prev s = .error .nilHole := by
  have read : findBiggest c s (c.nrHoles + 1) s.holeHead ⟨prev, s.holeHead, none⟩ = .ok ⟨prev, s.holeHead, none⟩ := by
    rw [findBiggest, if_neg fun goes => goes.1 empty]
  rw [worstRound, read, ok_bind]
  exact if_pos empty

theorem worstRound_spec (clicks : Nat) (prev : Option Nat) (table : Table c s holes slots) (separated : Separated (extents s holes))
    (some_ : holes ≠ []) :
    ∃ hp before rest, Longest s holes hp before ∧
      worstRound c clicks prev s = .ok (if clicks ≤ (s.hole hp).len then some (hp, before) else none, rest) := by
  obtain ⟨found, ran, longest⟩ := findBiggest_longest prev table separated some_
  refine ⟨found.biggestHole, found.biggestHolePrev, found.prev, longest, ?_⟩
  have present : found.biggestHole ≠ c.nil := by
    obtain ⟨before, after, rfl, -⟩ := longest.split
    exact table.linked.ne_nil_of_mem (by simp)
  rw [worstRound, ran, ok_bind, if_neg present]
  split <;> rfl

theorem policy_found {before rest : Option Nat} (table : Table c s holes slots) (separated : Separated (extents s holes))
    (ran : policy c clicks s prev s = .ok (some (hp, before), rest)) :
    Located holes hp before ∧ clicks ≤ (s.hole hp).len := by
  unfold policy at ran
  split at ran
  next =>
    obtain ⟨out, rest', ran', found, -⟩ := firstRound_spec clicks prev table separated
    cases ran'.symm.trans ran
    exact ⟨(found hp before rfl).1, (found hp before rfl).2.1⟩
  next =>
    cases holes with
    | nil =>
      rw [worstRound_empty prev table.linked.eq_nil] at ran
      cases ran
    | cons i after =>
      obtain ⟨hp', before', rest', longest, ran'⟩ := worstRound_spec clicks prev table separated (by simp)
      have same := ran'.symm.trans ran
      split at same
      next fit =>
        cases same
        exact ⟨longest.located, fit⟩
      next => cases same

theorem policy_congr (clicks : Nat) (same : t.settings = s.settings) : policy c clicks t = policy c clicks s := by
  simp only [State.settings, Prod.mk.injEq] at same
  unfold policy
  rw [same.2.2.2.2]

/-- A round that finds nothing: every hole below `swap_base` is too short. Worst fit needs a hole to begin with. -/
theorem policy_ends (clicks : Nat) (prev : Option Nat) (table : Table c s holes slots)
    (separated : Separated (extents s holes)) :
    (holes = [] ∧ policy c clicks s prev s = .error .nilHole) ∨
      ∃ out rest, policy c clicks s prev s = .ok (out, rest) ∧
        (out = none → ∀ i ∈ holes, (s.hole i).base < s.swapBase → (s.hole i).len < clicks) := by
  unfold policy
  split
  next =>
    obtain ⟨out, rest, ran, -, none_⟩ := firstRound_spec clicks prev table separated
    exact .inr ⟨out, rest, ran, none_⟩
  next =>
    by_cases some_ : holes = []
    · subst some_
      exact .inl ⟨rfl, worstRound_empty prev table.linked.eq_nil⟩
    · obtain ⟨hp, before, rest, longest, ran⟩ := worstRound_spec clicks prev table separated some_
      refine .inr ⟨_, rest, ran, fun none_ i member low => ?_⟩
      split at none_
      next => cases none_
      next short => exact (longest.len_le member low).trans_lt (Nat.not_le.mp short)

variable {given others : List Extent} {owners : List Nat}

/-- There is always another round or a result: each process is swapped out at most once. -/
theorem rounds_end (prev : Option Nat) (ready : Ready c given others owners s) (nodup : owners.Nodup)
    (enough : inMemory c s < fuel) :
    rounds c clicks (policy c clicks s) fuel prev s = .error .holeTableFull ∨
      (rounds c clicks (policy c clicks s) fuel prev s = .error .nilHole ∧
        ∃ n t, SwappedOuts c n s t ∧ t.holeHead = c.nil) ∨
      ∃ found s', rounds c clicks (policy c clicks s) fuel prev s = .ok (found, s') := by
  -- each round but the last swaps a process out, and there are only so many in memory
  rcases rounds_stop c clicks (policy c clicks s) fuel prev s with ⟨-, t, outs⟩ | ⟨n, t, outs, stops⟩
  · obtain ⟨-, count⟩ := outs.ready ready nodup
    omega
  obtain ⟨ready', -⟩ := outs.ready ready nodup
  obtain ⟨fits, holes, slots, table, separated, balance⟩ := ready'.managed
  rw [← policy_congr clicks outs.settings] at stops ⊢
  generalize rounds c clicks (policy c clicks t) fuel prev s = result at stops ⊢
  cases stops with
  | @failed prev e failed =>
    rcases policy_ends clicks prev table separated with ⟨rfl, unset⟩ | ⟨out, rest, searched, -⟩
    · cases failed.symm.trans unset
      exact .inr (.inl ⟨rfl, n, t, outs, table.linked.eq_nil⟩)
    · cases failed.symm.trans searched
  | found searched =>
    obtain ⟨located, long⟩ := policy_found table separated searched
    obtain ⟨s', bitten, -⟩ := bite_managed fits table separated balance located long
    rw [bitten]
    exact .inr (.inr ⟨_, _, rfl⟩)
  | refused _ refused =>
    rcases swapOut_spec ready' nodup with none_ | full | ⟨u, ran, -⟩
    · cases refused.symm.trans none_
    · cases refused.symm.trans full
      exact .inl rfl
    · cases refused.symm.trans ran
  | gaveUp _ _ => exact .inr (.inr ⟨_, _, rfl⟩)

/-- What `alloc_mem` comes to. It does not run on for ever, since each process is
swapped out at most once. -/
def Allocates (c : Constants) (given others : List Extent) (owners : List Nat) (clicks : Nat) (s : State)
    (result : Except Fault (Option Nat × State)) : Prop :=
  result = .error .holeTableFull ∨ result = .error .nilHole ∨
    (∃ s', result = .ok (none, s') ∧ Ready c given others owners s' ∧ s'.settings = s.settings) ∨
    ∃ base s', result = .ok (some base, s') ∧ Ready c given (⟨base, clicks⟩ :: others) owners s' ∧
      s'.settings = s.settings

theorem allocMem_spec (clicks : Nat) (ready : Ready c given others owners s) (nodup : owners.Nodup) :
    Allocates c given others owners clicks s (allocMem c clicks s) := by
  rw [allocMem_eq]
  rcases rounds_end none ready nodup (Nat.lt_succ_of_le (inMemory_le c s)) with full | ⟨unset, -⟩ | ⟨found, s', ran⟩
  · exact .inl full
  · exact .inr (.inl unset)
  obtain ⟨n, t, outs, last⟩ := rounds_cases ran
  obtain ⟨ready', -⟩ := outs.ready ready nodup
  cases last with
  | gaveUp => exact .inr (.inr (.inl ⟨_, ran, ready', outs.settings⟩))
  | @taken prev before rest hp base s' searched bitten =>
    obtain ⟨fits, holes, slots, table, separated, balance⟩ := ready'.managed
    obtain ⟨located, enough⟩ := policy_found table separated (policy_congr clicks outs.settings ▸ searched)
    obtain ⟨u, again, managed, kept⟩ := bite_managed fits table separated balance located enough
    cases again.symm.trans bitten
    refine .inr (.inr (.inr ⟨_, _, ran, ⟨?_, fun i turn candidate => ?_, ?_⟩, kept.settings_eq.trans outs.settings⟩))
    · rw [kept.mproc_eq]
      exact managed
    · exact ready'.owned i turn (kept.mproc_eq ▸ candidate)
    · exact kept.outswap_eq.symm ▸ ready'.turn

end SoiStud.Memory
