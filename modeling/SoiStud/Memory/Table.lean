import SoiStud.Library.Chain
import SoiStud.Library.Extent
import SoiStud.Memory.Model
import Mathlib.Data.List.Perm.Basic
import Mathlib.Data.List.Range

/-! The hole table: two lists that share its entries.

What taking a hole out of the list and merging holes do to the two lists, and to
the extents that the holes describe.
-/

set_option autoImplicit false

namespace SoiStud.Memory

open Library

variable {c : Constants} {s s' t : State} {before after holes slots : List Nat} {hp : Nat} {prev : Option Nat}

def State.next (s : State) (hp : Nat) : Nat := (s.hole hp).next

/-- The lists from `hole_head` and from `free_slots` go through `holes` and `slots`, which
together are all entries of the table. -/
structure Table (c : Constants) (s : State) (holes slots : List Nat) : Prop where
  linked : Chain s.next c.nil s.holeHead holes
  free : Chain s.next c.nil s.freeSlots slots
  once : (holes ++ slots).Perm (List.range c.nrHoles)

def Hole.extent (h : Hole) : Extent := ⟨h.base, h.len⟩

def extents (s : State) (l : List Nat) : List Extent := l.map fun i => (s.hole i).extent

def Kept (s s' : State) : Prop :=
  s' = { s with hole := s'.hole, holeHead := s'.holeHead, freeSlots := s'.freeSlots }

theorem Kept.refl (s : State) : Kept s s := rfl

theorem Kept.trans (first : Kept s s') (second : Kept s' t) : Kept s t := by
  unfold Kept at first second ⊢
  rw [second, first]

@[simp] theorem extents_nil : extents s [] = [] := rfl

@[simp] theorem extents_cons : extents s (hp :: after) = (s.hole hp).extent :: extents s after := rfl

@[simp] theorem extents_append : extents s (before ++ after) = extents s before ++ extents s after := List.map_append

theorem extents_congr (same : ∀ i ∈ holes, (s'.hole i).extent = (s.hole i).extent) : extents s' holes = extents s holes :=
  List.map_congr_left same

theorem Table.nodup (table : Table c s holes slots) : (holes ++ slots).Nodup :=
  table.once.nodup_iff.mpr List.nodup_range

theorem Table.length_le (table : Table c s holes slots) : holes.length ≤ c.nrHoles := by
  have total := table.once.length_eq
  simp only [List.length_append, List.length_range] at total
  omega

/-- What a hole's predecessor pointer has to be: it does not matter at the head of the list. -/
def Precedes (prev : Option Nat) (before : List Nat) : Prop := ∀ p, before.getLast? = some p → prev = some p

theorem put_next (s : State) (i j : Nat) (h : Hole) : (s.put i h).next j = if j = i then h.next else s.next j := by
  simp only [State.next, State.put, Function.update_apply]
  split <;> rfl

theorem put_extent (s : State) (i j : Nat) {h : Hole} (same : h.extent = (s.hole i).extent) :
    ((s.put i h).hole j).extent = (s.hole j).extent := by
  simp only [State.put, Function.update_apply]
  split
  next here => rw [here, same]
  next => rfl

theorem release_next (s : State) (hp j : Nat) : (s.release hp).next j = if j = hp then s.freeSlots else s.next j :=
  put_next s hp j _

theorem release_extent (s : State) (hp j : Nat) : ((s.release hp).hole j).extent = (s.hole j).extent :=
  put_extent s hp j (h := { s.hole hp with next := s.freeSlots }) rfl

theorem release_spec (linked : Chain s.next c.nil s.holeHead holes) (free : Chain s.next c.nil s.freeSlots slots)
    (present : hp ≠ c.nil) (notHole : hp ∉ holes) (notSlot : hp ∉ slots) :
    Chain (s.release hp).next c.nil (s.release hp).holeHead holes ∧
      Chain (s.release hp).next c.nil (s.release hp).freeSlots (hp :: slots) := by
  refine ⟨linked.congr fun i member => ?_, .link present ?_⟩
  · have other : i ≠ hp := by rintro rfl; exact notHole member
    rw [release_next, if_neg other]
  · have here : (s.release hp).next (s.release hp).freeSlots = s.freeSlots := by rw [release_next]; exact if_pos rfl
    rw [here]
    refine free.congr fun i member => ?_
    have other : i ≠ hp := by rintro rfl; exact notSlot member
    rw [release_next, if_neg other]

/-- `del_slot` moves the hole from its list to the free slots. -/
theorem delSlot_spec (table : Table c s (before ++ hp :: after) slots) (pred : Precedes prev before) :
    ∃ s', delSlot prev hp s = .ok s' ∧ Table c s' (before ++ after) (hp :: slots) ∧
      (∀ i, (s'.hole i).extent = (s.hole i).extent) ∧ Kept s s' := by
  have unique := table.nodup
  have behind : Chain s.next c.nil (s.next hp) after := table.linked.behind
  have present : hp ≠ c.nil := table.linked.ne_nil_of_mem (by simp)
  have once : (before ++ after ++ hp :: slots).Perm (List.range c.nrHoles) := by
    refine List.Perm.trans ?_ table.once
    simp only [List.append_assoc, List.cons_append]
    exact (List.perm_append_left_iff before).mpr List.perm_middle
  rcases before.eq_nil_or_concat with rfl | ⟨l, p, rfl⟩
  · -- at the head of the list
    have first : hp = s.holeHead := table.linked.head_eq.symm
    have notAfter : hp ∉ after := by grind
    have notSlot : hp ∉ slots := by grind
    obtain ⟨linked, free⟩ := release_spec (s := { s with holeHead := s.next hp }) behind table.free present notAfter notSlot
    exact ⟨_, if_pos first, ⟨linked, free, once⟩, release_extent _ hp, rfl⟩
  · -- behind its predecessor, which is linked to what follows
    have last : prev = some p := pred p (by simp)
    have notHead : hp ≠ s.holeHead := by
      cases l with
      | nil =>
        have := table.linked.head_eq
        grind
      | cons a l =>
        have := table.linked.head_eq
        grind
    have notSlot : hp ∉ slots := by grind
    have chain : Chain s.next c.nil s.holeHead (l ++ p :: hp :: after) := by simpa using table.linked
    let unlinked : State := s.put p { s.hole p with next := s.next hp }
    have next_p : unlinked.next p = s.next hp := (put_next s p p _).trans (if_pos rfl)
    have next_other (i : Nat) (other : i ≠ p) : unlinked.next i = s.next i := (put_next s p i _).trans (if_neg other)
    have linked : Chain unlinked.next c.nil unlinked.holeHead (l ++ p :: after) := by
      refine chain.splice (fun i member => next_other i (by grind)) ?_
      rw [next_p]
      exact behind.congr fun i member => next_other i (by grind)
    have free : Chain unlinked.next c.nil unlinked.freeSlots slots :=
      table.free.congr fun i member => next_other i (by grind)
    obtain ⟨linked, free⟩ := release_spec linked free present (by grind) notSlot
    have same (i : Nat) : ((unlinked.release hp).hole i).extent = (s.hole i).extent :=
      (release_extent unlinked hp i).trans (put_extent s p i (h := { s.hole p with next := s.next hp }) rfl)
    subst last
    exact ⟨unlinked.release hp, if_neg notHead, ⟨by simpa using linked, free, once⟩, same, rfl⟩

theorem Table.relink (table : Table c s holes slots) (links : ∀ i, s'.next i = s.next i)
    (head : s'.holeHead = s.holeHead) (free : s'.freeSlots = s.freeSlots) : Table c s' holes slots where
  linked := head ▸ table.linked.congr fun i _ => links i
  free := free ▸ table.free.congr fun i _ => links i
  once := table.once

theorem plus_base_len {n : Nat} {rest : List Nat} (ordered : Ordered (extents s (hp :: n :: rest)))
    (fits : Fits clickRange (extents s (hp :: n :: rest))) :
    plus (s.hole hp).base (s.hole hp).len = (s.hole hp).extent.top := by
  obtain ⟨-, apart, tail⟩ := ordered_cons.mp ordered
  have nonempty : 0 < (s.hole n).extent.len := (ordered_cons.mp tail).1
  have next : (s.hole hp).extent.top ≤ (s.hole n).extent.base := apart _ List.mem_cons_self
  have top := fits.top_le (e := (s.hole n).extent) (by simp) nonempty
  refine Nat.mod_eq_of_lt ?_
  simp only [Extent.top, Hole.extent] at *
  omega

theorem absorbNext_spec (table : Table c s (before ++ hp :: after) slots) (ordered : Ordered (extents s (hp :: after)))
    (fits : Fits clickRange (extents s (hp :: after))) :
    ∃ s' after' slots', absorbNext c hp s = .ok s' ∧ Table c s' (before ++ hp :: after') slots' ∧
      extents s' before = extents s before ∧ extents s' (hp :: after') = absorb (extents s (hp :: after)) ∧
      Kept s s' := by
  have unique := table.nodup
  cases after with
  | nil =>
    have last : s.next hp = c.nil := table.linked.behind.eq_nil
    exact ⟨s, [], slots, if_pos last, table, rfl, rfl, .refl s⟩
  | cons n rest =>
    have chain : Chain s.next c.nil (s.next hp) (n :: rest) := table.linked.behind
    have next : s.next hp = n := chain.head_eq
    have present : s.next hp ≠ c.nil := chain.ne_nil
    have ends := plus_base_len ordered fits
    simp only [extents_cons, absorb]
    by_cases touch : (s.hole hp).extent.top = (s.hole n).extent.base
    · -- the successor is deleted, its length having been added
      have short : (s.hole hp).len + (s.hole n).len < clickRange := by
        have joined : Fits clickRange ((s.hole hp).extent.join (s.hole n).extent :: extents s rest) :=
          fits.mono fun x => by simp [Extent.tally_join touch, Nat.add_assoc]
        exact joined.len_lt List.mem_cons_self
      let joined : State := s.put hp { s.hole hp with len := (s.hole hp).len + (s.hole n).len }
      have written : Kept s joined := rfl
      have links (i : Nat) : joined.next i = s.next i := by
        refine (put_next s hp i _).trans ?_
        split
        next same => exact same ▸ rfl
        next => rfl
      have relinked : Table c joined ((before ++ [hp]) ++ n :: rest) slots := by
        simpa using table.relink links rfl rfl
      obtain ⟨s', ran, table', same, kept⟩ := delSlot_spec relinked
        (show Precedes (some hp) (before ++ [hp]) by simp [Precedes])
      have others (i : Nat) (other : i ≠ hp) : (s'.hole i).extent = (s.hole i).extent := by
        rw [same i]
        simp [joined, State.put, other]
      refine ⟨s', rest, n :: slots, ?_, by simpa using table', extents_congr fun i member => others i (by grind), ?_,
        written.trans kept⟩
      · rw [absorbNext]
        simp only [show (s.hole hp).next = n from next]
        rw [if_neg (next ▸ present), if_pos (by rw [ends]; exact touch), plus, Nat.mod_eq_of_lt short]
        simpa only [joined, show (s.hole hp).next = n from next] using ran
      · rw [if_pos touch, same hp, extents_congr fun i member => others i (by grind)]
        simp [joined, State.put, Hole.extent, Extent.join]
    · -- a gap is left between the two
      refine ⟨s, n :: rest, slots, ?_, table, rfl, ?_, .refl s⟩
      · rw [absorbNext]
        simp only [show (s.hole hp).next = n from next]
        rw [if_neg (next ▸ present), if_neg (by rw [ends]; exact touch)]
      · rw [if_neg touch]
        rfl

theorem merge_spec (table : Table c s (before ++ hp :: after) slots) (ordered : Ordered (extents s (hp :: after)))
    (fits : Fits clickRange (extents s (hp :: after))) :
    ∃ s' after' slots', merge c hp s = .ok s' ∧ Table c s' (before ++ hp :: after') slots' ∧
      extents s' before = extents s before ∧ extents s' (hp :: after') = coalesce (extents s (hp :: after)) ∧
      Kept s s' := by
  cases after with
  | nil =>
    have last : s.next hp = c.nil := table.linked.behind.eq_nil
    exact ⟨s, [], slots, if_pos last, table, rfl, rfl, .refl s⟩
  | cons n rest =>
    have chain : Chain s.next c.nil (s.next hp) (n :: rest) := table.linked.behind
    have next : s.next hp = n := chain.head_eq
    have present : s.next hp ≠ c.nil := chain.ne_nil
    have ends := plus_base_len ordered fits
    by_cases touch : (s.hole hp).extent.top = (s.hole n).extent.base
    · obtain ⟨s₁, after₁, slots₁, ran₁, table₁, same₁, joined, kept₁⟩ := absorbNext_spec table ordered fits
      -- the hole that was joined may touch the next one
      have again := absorbNext_spec table₁ (joined ▸ ordered_absorb ordered)
        (joined ▸ fits.mono fun x => (tally_absorb x _).le)
      obtain ⟨s₂, after₂, slots₂, ran₂, table₂, same₂, joined₂, kept₂⟩ := again
      refine ⟨s₂, after₂, slots₂, ?_, table₂, same₂.trans same₁, ?_, kept₁.trans kept₂⟩
      · rw [merge]
        simp only [show (s.hole hp).next = n from next]
        rw [if_neg (next ▸ present), if_pos (by rw [ends]; exact touch), ran₁]
        exact ran₂
      · rw [joined₂, joined]
        simp only [extents_cons, absorb, coalesce, if_pos touch]
    · -- otherwise the second call starts from the next hole
      have moved : Table c s ((before ++ [hp]) ++ n :: rest) slots := by simpa using table
      obtain ⟨s', rest', slots', ran, table', same, joined, kept⟩ :=
        absorbNext_spec moved (ordered_cons.mp ordered).2.2 (fits.mono fun x => by simp)
      rw [extents_append, extents_append, extents_cons, extents_cons] at same
      obtain ⟨sameBefore, sameHp⟩ := List.append_inj same (by simp [extents])
      refine ⟨s', n :: rest', slots', ?_, by simpa using table', sameBefore, ?_, kept⟩
      · rw [merge]
        simp only [show (s.hole hp).next = n from next]
        rw [if_neg (next ▸ present), if_neg (by rw [ends]; exact touch)]
        exact ran
      · rw [extents_cons, joined, (List.cons.inj sameHp).1]
        simp only [extents_cons, coalesce, if_neg touch]

theorem walk_spec (prev : Option Nat) (onward : Hole → Bool) {fuel : Nat} (chain : Chain s.next c.nil hp holes) (enough : holes.length < fuel) :
    ∃ passed rest hp', walk c s onward fuel hp prev = .ok (hp', passed.getLast?.or prev) ∧ holes = passed ++ rest ∧
      Chain s.next c.nil hp' rest ∧ (∀ i ∈ passed, onward (s.hole i) = true) ∧
      ∀ i ∈ rest.head?, onward (s.hole i) = false := by
  induction fuel generalizing hp prev holes with
  | zero => exact absurd enough (Nat.not_lt_zero _)
  | succ fuel ih =>
    rw [walk]
    cases holes with
    | nil =>
      have ended := chain.eq_nil
      exact ⟨[], [], hp, if_neg fun goes => goes.1 ended, rfl, chain, by simp, by simp⟩
    | cons i rest =>
      obtain rfl := chain.head_eq
      by_cases goes : onward (s.hole hp) = true
      · obtain ⟨passed, rest', hp', ran, rfl, chain', all, stop⟩ :=
          ih (some hp) chain.tail (Nat.lt_of_succ_lt_succ enough)
        refine ⟨hp :: passed, rest', hp', ?_, rfl, chain', List.forall_mem_cons.mpr ⟨goes, all⟩, stop⟩
        rw [if_pos ⟨chain.ne_nil, goes⟩]
        refine ran.trans ?_
        rw [List.getLast?_cons]
        cases passed.getLast? <;> rfl
      · exact ⟨[], hp :: rest, hp, if_neg fun both => goes both.2, rfl, chain, by simp, by simpa using goes⟩

theorem precedes_getLast? (passed : List Nat) (prev : Option Nat) : Precedes (passed.getLast?.or prev) passed := by
  intro p last
  rw [last]
  rfl

/-- Biting a piece off leaves the rest of the hole, or deletes it. -/
theorem bite_spec {clicks : Nat} (table : Table c s (before ++ hp :: after) slots) (pred : Precedes prev before)
    (enough : clicks ≤ (s.hole hp).len) (top : (s.hole hp).extent.top ≤ clickRange) :
    ∃ s' holes' slots', bite clicks hp prev s = .ok ((s.hole hp).base, s') ∧ Table c s' holes' slots' ∧
      extents s' holes' = extents s before ++ ((s.hole hp).extent.cut clicks ++ extents s after) ∧ Kept s s' := by
  have unique := table.nodup
  let bitten : State :=
    s.put hp { s.hole hp with base := plus (s.hole hp).base clicks, len := (s.hole hp).len - clicks }
  have links (i : Nat) : bitten.next i = s.next i := by
    refine (put_next s hp i _).trans ?_
    split
    next same => exact same ▸ rfl
    next => rfl
  have written : Kept s bitten := rfl
  have others (i : Nat) (other : i ≠ hp) : (bitten.hole i).extent = (s.hole i).extent := by
    simp [bitten, State.put, other]
  have rest : (bitten.hole hp).len = (s.hole hp).len - clicks := by simp [bitten, State.put]
  have relinked : Table c bitten (before ++ hp :: after) slots := table.relink links rfl rfl
  have step : bite clicks hp prev s = if (bitten.hole hp).len = 0 then
      (delSlot prev hp bitten).map fun s' => ((s.hole hp).base, s') else .ok ((s.hole hp).base, bitten) := rfl
  -- a hole that is used up leaves the list
  rw [rest] at step
  by_cases all : (s.hole hp).len = clicks
  · obtain ⟨s', ran, table', same, kept⟩ := delSlot_spec relinked pred
    refine ⟨s', before ++ after, hp :: slots, ?_, table', ?_, written.trans kept⟩
    · rw [step, if_pos (by omega), ran]
      rfl
    · rw [extents_congr fun i member => (same i).trans (others i (by grind)), extents_append, Extent.cut,
        if_pos (show (s.hole hp).extent.len = clicks from all)]
      rfl
  · refine ⟨bitten, before ++ hp :: after, slots, ?_, relinked, ?_, written⟩
    · rw [step, if_neg (by omega)]
    · have inside : plus (s.hole hp).base clicks = (s.hole hp).base + clicks := by
        refine Nat.mod_eq_of_lt ?_
        simp only [Extent.top, Hole.extent] at top
        omega
      have left : (bitten.hole hp).extent = ⟨(s.hole hp).base + clicks, (s.hole hp).len - clicks⟩ := by
        rw [← inside]
        simp [bitten, State.put, Hole.extent]
      rw [extents_append, extents_cons, extents_congr fun i member => others i (by grind), left,
        extents_congr fun i member => others i (by grind), Extent.cut,
        if_neg (show (s.hole hp).extent.len ≠ clicks from all)]
      rfl

theorem Table.push {new : Nat} (table : Table c s holes (new :: slots)) (links : ∀ i, i ≠ new → s'.next i = s.next i)
    (first : s'.next new = s.holeHead) (head : s'.holeHead = new) (free : s'.freeSlots = s.next new) :
    Table c s' (new :: holes) slots where
  linked := by
    have unique := table.nodup
    rw [head]
    refine .link (table.free.head_eq ▸ table.free.ne_nil) (first ▸ table.linked.congr fun i member => links i (by grind))
  free := by
    have unique := table.nodup
    rw [free]
    exact table.free.tail.congr fun i member => links i (by grind)
  once := by
    refine List.Perm.trans ?_ table.once
    exact List.perm_middle.symm

theorem Table.insert {new p : Nat} {l : List Nat} (table : Table c s (l ++ p :: after) (new :: slots))
    (links : ∀ i, i ≠ new → i ≠ p → s'.next i = s.next i) (first : s'.next new = s.next p) (second : s'.next p = new)
    (head : s'.holeHead = s.holeHead) (free : s'.freeSlots = s.next new) :
    Table c s' (l ++ p :: new :: after) slots := by
  have unique := table.nodup
  refine ⟨?_, ?_, ?_⟩
  · rw [head]
    refine table.linked.splice (fun i member => links i (by grind) (by grind)) ?_
    rw [second]
    refine .link (table.free.head_eq ▸ table.free.ne_nil) ?_
    rw [first]
    exact table.linked.behind.congr fun i member => links i (by grind) (by grind)
  · rw [free]
    exact table.free.tail.congr fun i member => links i (by grind) (by grind)
  · refine List.Perm.trans ?_ table.once
    simp only [List.append_assoc, List.cons_append]
    refine (List.perm_append_left_iff l).mpr (List.Perm.cons p ?_)
    exact List.perm_middle.symm

section
variable {base clicks : Nat}

structure Added (c : Constants) (s : State) (holes : List Nat) (block : Extent) (s' : State) (holes' slots' : List Nat) :
    Prop where
  table : Table c s' holes' slots'
  separated : Separated (extents s' holes')
  tally : ∀ x, tally x (extents s' holes') = block.tally x + tally x (extents s holes)
  kept : Kept s s'

@[simp] theorem fillSlot_holeHead (s : State) : (s.fillSlot base clicks).holeHead = s.holeHead := rfl

theorem fillSlot_next (s : State) (i : Nat) : (s.fillSlot base clicks).next i = s.next i := by
  refine (put_next s s.freeSlots i _).trans ?_
  split
  next same => exact same ▸ rfl
  next => rfl

theorem fillSlot_extent (s : State) : ((s.fillSlot base clicks).hole s.freeSlots).extent = ⟨base, clicks⟩ := by
  simp [State.fillSlot, State.put, Hole.extent]

theorem fillSlot_hole {i : Nat} (other : i ≠ s.freeSlots) : (s.fillSlot base clicks).hole i = s.hole i := by
  simp [State.fillSlot, State.put, other]

theorem linkFront_spec (table : Table c s holes (s.freeSlots :: slots)) (separated : Separated (extents s holes))
    (fits : Fits clickRange (⟨base, clicks⟩ :: extents s holes)) (nonempty : 0 < clicks)
    (above : ∀ f ∈ extents s holes, (⟨base, clicks⟩ : Extent).top ≤ f.base) :
    ∃ s' holes' slots', merge c s.freeSlots ((s.fillSlot base clicks).linkFront s.freeSlots) = .ok s' ∧
      Added c s holes ⟨base, clicks⟩ s' holes' slots' := by
  have unique := table.nodup
  let new := s.freeSlots
  let filled := s.fillSlot base clicks
  let pushed := filled.linkFront new
  have links (i : Nat) (other : i ≠ new) : pushed.next i = s.next i :=
    (put_next filled new i _).trans ((if_neg other).trans (fillSlot_next s i))
  have first : pushed.next new = s.holeHead := (put_next filled new new _).trans (if_pos rfl)
  have extent (i : Nat) : (pushed.hole i).extent = (filled.hole i).extent :=
    put_extent filled new i (h := { filled.hole new with next := filled.holeHead }) rfl
  have same : extents pushed (new :: holes) = ⟨base, clicks⟩ :: extents s holes := by
    rw [extents_cons, extent new, fillSlot_extent s]
    refine congrArg _ (extents_congr fun i member => ?_)
    rw [extent i, fillSlot_hole (by grind)]
  have ready : Table c pushed ([] ++ new :: holes) slots := table.push links first rfl rfl
  obtain ⟨s', holes', slots', ran, table', -, joined, kept⟩ := merge_spec ready
    (same ▸ ordered_cons.mpr ⟨nonempty, above, separated.ordered⟩) (same ▸ fits)
  have written : Kept s pushed := rfl
  refine ⟨s', new :: holes', slots', ran, table', ?_, fun x => ?_, written.trans kept⟩
  · rw [joined, same]
    exact separated_front separated nonempty above
  · rw [joined, same, tally_coalesce, tally_cons]

theorem linkBehind_spec {l : List Nat} {p : Nat} (table : Table c s (l ++ p :: after) (s.freeSlots :: slots))
    (separated : Separated (extents s (l ++ p :: after)))
    (fits : Fits clickRange (⟨base, clicks⟩ :: extents s (l ++ p :: after))) (nonempty : 0 < clicks)
    (below : (s.hole p).extent.top ≤ base) (above : ∀ f ∈ extents s after, (⟨base, clicks⟩ : Extent).top ≤ f.base) :
    ∃ s' holes' slots', merge c p ((s.fillSlot base clicks).linkBehind p s.freeSlots) = .ok s' ∧
      Added c s (l ++ p :: after) ⟨base, clicks⟩ s' holes' slots' := by
  have unique := table.nodup
  have distinct : p ≠ s.freeSlots := by grind
  let new := s.freeSlots
  let filled := s.fillSlot base clicks
  let linked := filled.put new { filled.hole new with next := filled.next p }
  let behind := filled.linkBehind p new
  have next (i : Nat) : behind.next i = if i = p then new else if i = new then filled.next p else filled.next i :=
    (put_next linked p i _).trans (by rw [put_next filled new i])
  -- the new hole stands right behind `p`; every other link is kept
  have links (i : Nat) (notNew : i ≠ new) (notP : i ≠ p) : behind.next i = s.next i := by
    rw [next, if_neg notP, if_neg notNew, fillSlot_next]
  have first : behind.next new = s.next p := by
    rw [next, if_neg distinct.symm, if_pos rfl, fillSlot_next]
  have second : behind.next p = new := by rw [next, if_pos rfl]
  have extent (i : Nat) : (behind.hole i).extent = (filled.hole i).extent :=
    (put_extent linked p i (h := { linked.hole p with next := new }) rfl).trans
      (put_extent filled new i (h := { filled.hole new with next := filled.next p }) rfl)
  have kept_of_ne (i : Nat) (other : i ≠ new) : (behind.hole i).extent = (s.hole i).extent := by
    rw [extent i, fillSlot_hole other]
  have sameL : extents behind l = extents s l := extents_congr fun i member => kept_of_ne i (by grind)
  have same : extents behind (p :: new :: after) = (s.hole p).extent :: ⟨base, clicks⟩ :: extents s after := by
    rw [extents_cons, extents_cons, kept_of_ne p distinct, extent new, fillSlot_extent s,
      extents_congr fun i member => kept_of_ne i (by grind)]
  have ready : Table c behind (l ++ p :: new :: after) slots := table.insert links first second rfl rfl
  rw [extents_append, extents_cons] at separated
  have ordered : Ordered (extents behind (p :: new :: after)) := by
    rw [same]
    exact ordered_between (separated_append.mp separated).2.1 nonempty below above
  have few : Fits clickRange (extents behind (p :: new :: after)) := by
    rw [same]
    refine fits.mono fun x => ?_
    simp only [extents_append, extents_cons, tally_cons, tally_append]
    omega
  obtain ⟨s', after', slots', ran, table', sameBefore, joined, kept⟩ := merge_spec ready ordered few
  have written : Kept s behind := rfl
  refine ⟨s', l ++ p :: after', slots', ran, table', ?_, fun x => ?_, written.trans kept⟩
  · rw [extents_append, joined, same, sameBefore, sameL]
    exact separated_between separated nonempty below above
  · rw [extents_append, joined, same, sameBefore, sameL, tally_append, tally_coalesce]
    simp only [extents_append, extents_cons, tally_cons, tally_append]
    omega

/-- A block that overlaps no hole joins the holes, if there is a slot for it. -/
theorem freeMem_spec (table : Table c s holes slots) (separated : Separated (extents s holes))
    (fits : Fits clickRange (⟨base, clicks⟩ :: extents s holes)) (some_ : clicks ≠ 0) (room : slots ≠ []) :
    ∃ s' holes' slots', freeMem c base clicks s = .ok s' ∧ Added c s holes ⟨base, clicks⟩ s' holes' slots' := by
  have nonempty : 0 < clicks := Nat.pos_of_ne_zero some_
  -- the block and the holes have no click in common
  have apart : ∀ e ∈ extents s holes, (⟨base, clicks⟩ : Extent).top ≤ e.base ∨ e.top ≤ base := by
    intro e member
    refine apart_of_tally (fun x => ?_) nonempty (separated.nonempty e member)
    have once := fits.once x
    have single := tally_le_of_mem (x := x) member
    rw [tally_cons] at once
    omega
  obtain ⟨new, slots, rfl⟩ := List.exists_cons_of_ne_nil room
  obtain rfl : s.freeSlots = new := table.free.head_eq
  have unique := table.nodup
  let filled := s.fillSlot base clicks
  have head : filled.holeHead = s.holeHead := rfl
  rw [freeMem, if_neg some_, if_neg table.free.ne_nil]
  by_cases front : filled.holeHead = c.nil ∨ base ≤ (filled.hole filled.holeHead).base
  · -- the block becomes the first hole
    refine (if_pos front).symm ▸ linkFront_spec table separated fits nonempty ?_
    refine above_of_head separated apart fun e first => ?_
    cases holes with
    | nil => cases first
    | cons hp rest =>
      cases first
      rw [head, table.linked.head_eq] at front
      rcases front with ended | low
      · exact absurd (table.linked.head_eq.trans ended) table.linked.ne_nil
      · rw [fillSlot_hole (by grind)] at low
        exact low
  · -- it goes behind the last hole that lies below it
    have chain : Chain filled.next c.nil filled.holeHead holes := table.linked.congr fun i _ => fillSlot_next s i
    obtain ⟨passed, rest, hp, ran, rfl, -, all, stop⟩ := walk_spec none (fun h => decide (h.base < base)) chain
      (Nat.lt_succ_of_le table.length_le)
    refine (if_neg front).symm ▸ ?_
    rw [not_or, Nat.not_le] at front
    rcases passed.eq_nil_or_concat with rfl | ⟨l, p, rfl⟩
    · -- the first hole lies below the block
      cases rest with
      | nil => exact absurd chain.eq_nil front.1
      | cons i rest =>
        have low := stop i rfl
        rw [← chain.head_eq] at low
        simp [front.2] at low
    · have reached : walk c filled (fun h => h.base < base) (c.nrHoles + 1) filled.holeHead none = .ok (hp, some p) := by
        rw [ran]
        simp
      rw [reached, ok_bind]
      have sorted : l.concat p ++ rest = l ++ p :: rest := by simp
      rw [sorted] at table separated fits apart unique ⊢
      have passes := all p (by simp)
      rw [fillSlot_hole (by grind)] at passes
      refine linkBehind_spec table separated fits nonempty ?_ ?_
      · rcases apart (s.hole p).extent (by simp) with above | below
        · simp only [Extent.top, Hole.extent] at above
          have := of_decide_eq_true passes
          omega
        · exact below
      · rw [extents_append, extents_cons] at separated
        refine above_of_head (separated_cons.mp (separated_append.mp separated).2.1).2.2
          (fun e member => apart e (by simp [member])) fun e first => ?_
        cases rest with
        | nil => cases first
        | cons i rest =>
          cases first
          have stops := stop i rfl
          rw [fillSlot_hole (by grind)] at stops
          exact Nat.not_lt.mp (of_decide_eq_false stops)

end

/-! ## What stays -/

def Stays (s : State) (result : Except Fault State) : Prop :=
  result = .error .nilHole ∨ ∃ s', result = .ok s' ∧ Kept s s'

theorem Stays.kept {result : Except Fault State} (stays : Stays s result) (ran : result = .ok s') : Kept s s' := by
  obtain unset | ⟨t, done, kept⟩ := stays
  · cases ran.symm.trans unset
  · cases ran.symm.trans done
    exact kept

theorem Stays.error {result : Except Fault State} {e : Fault} (stays : Stays s result) (ran : result = .error e) :
    e = .nilHole := by
  obtain unset | ⟨t, done, -⟩ := stays
  · cases ran.symm.trans unset
    rfl
  · cases ran.symm.trans done

theorem Stays.of_kept {result : Except Fault State} (stays : Stays t result) (kept : Kept s t) : Stays s result :=
  stays.imp id fun ⟨s', done, later⟩ => ⟨s', done, kept.trans later⟩

theorem Stays.bind {result : Except Fault State} {f : State → Except Fault State} (stays : Stays s result)
    (next : ∀ t, Stays t (f t)) : Stays s (result >>= f) := by
  obtain unset | ⟨t, done, kept⟩ := stays
  · rw [unset]
    exact .inl rfl
  · rw [done]
    exact (next t).of_kept kept

theorem delSlot_stays (prev : Option Nat) (hp : Nat) (s : State) : Stays s (delSlot prev hp s) := by
  unfold delSlot
  split
  next => exact .inr ⟨_, rfl, rfl⟩
  next =>
    cases prev with
    | none => exact .inl rfl
    | some p => exact .inr ⟨_, rfl, rfl⟩

theorem absorbNext_stays (c : Constants) (hp : Nat) (s : State) : Stays s (absorbNext c hp s) := by
  unfold absorbNext
  dsimp only
  split
  next => exact .inr ⟨s, rfl, rfl⟩
  next =>
    split
    next => exact (delSlot_stays _ _ _).of_kept rfl
    next => exact .inr ⟨s, rfl, rfl⟩

theorem merge_stays (c : Constants) (hp : Nat) (s : State) : Stays s (merge c hp s) := by
  unfold merge
  dsimp only
  split
  next => exact .inr ⟨s, rfl, rfl⟩
  next =>
    split
    next => exact (absorbNext_stays c hp s).bind fun t => absorbNext_stays c hp t
    next => exact absorbNext_stays c _ s

theorem freeMem_kept {base clicks : Nat} (ran : freeMem c base clicks s = .ok s') : Kept s s' := by
  unfold freeMem at ran
  split at ran
  next =>
    cases ran
    rfl
  next =>
    split at ran
    next => cases ran
    next =>
      dsimp only at ran
      split at ran
      next =>
        refine Kept.trans ?_ ((merge_stays _ _ _).kept ran)
        rfl
      next =>
        obtain ⟨⟨found, pred⟩, -, ran⟩ := bind_eq_ok.mp ran
        cases pred with
        | none => cases ran
        | some p =>
          refine Kept.trans ?_ ((merge_stays _ _ _).kept ran)
          rfl

theorem bite_stays (clicks hp : Nat) (prev : Option Nat) (s : State) :
    bite clicks hp prev s = .error .nilHole ∨ ∃ s', bite clicks hp prev s = .ok ((s.hole hp).base, s') ∧ Kept s s' := by
  unfold bite
  dsimp only
  split
  next =>
    obtain unset | ⟨t, deleted, kept⟩ := delSlot_stays prev hp (s.put hp _)
    · rw [unset]
      exact .inl rfl
    · rw [deleted]
      refine .inr ⟨t, rfl, Kept.trans ?_ kept⟩
      rfl
  next => exact .inr ⟨_, rfl, rfl⟩

theorem bite_kept {base clicks : Nat} (ran : bite clicks hp prev s = .ok (base, s')) :
    base = (s.hole hp).base ∧ Kept s s' := by
  obtain unset | ⟨t, done, kept⟩ := bite_stays clicks hp prev s
  · cases ran.symm.trans unset
  · cases ran.symm.trans done
    exact ⟨rfl, kept⟩

end SoiStud.Memory
