import SoiStud.FileSystem.History
import SoiStud.FileSystem.Rejection
import Mathlib.Data.List.Find

/-! What a search finds once an entry has been made.

Entries are made and looked up by different walks over the slots of a directory.
What a directory held stays where it was, so a name that was found is found
still, unless an element of the same name comes to lie in front of it.
-/

set_option autoImplicit false

namespace SoiStud.FileSystem
namespace VirtualDisc

open Library

variable {s s' a t : VirtualDisc} {chain chain' : Nat → List Nat} {dir d i j : Nat} {name filename : CString}
  {elem : DirectoryElement} {slots : List (Nat × Nat)} {blocks : List Nat} {out : List Output}

theorem placeOn_eq_find (s : VirtualDisc) (filename : CString) (blocks : List Nat) :
    s.placeOn filename blocks = (places blocks).find? fun p => (s.elemAt p).is filename := by
  simp only [placeOn, places, List.find?_flatMap, List.find?_map]
  rfl

theorem newElem_is (name : CString) (i : Nat) :
    (newElem name i).is filename = true ↔ name.bytes.take filenameLen = filename.bytes := by
  simp only [DirectoryElement.is, cname_newElem, Bool.and_eq_true, decide_eq_true_eq]
  exact and_iff_right rfl

theorem newElem_is_self : (newElem name i).is name = true ↔ name.bytes.length ≤ filenameLen := by
  rw [newElem_is, List.take_eq_self_iff]

/-! ## What the directories keep -/

structure Extends (s s' : VirtualDisc) : Prop where
  superblock : s'.superblock = s.superblock
  directories : ∀ d < s.inodesNum, (s.nodeTab d).type = .directory → (s'.nodeTab d).type = .directory
  elems : ∀ d < s.inodesNum, (s.nodeTab d).type = .directory → ∀ p ∈ places (s.chainOf d), (s.elemAt p).used ≠ 0 →
    p ∈ places (s'.chainOf d) ∧ s'.elemAt p = s.elemAt p

theorem Extends.refl (s : VirtualDisc) : s.Extends s where
  superblock := rfl
  directories _ _ directory := directory
  elems _ _ _ _ inside _ := ⟨inside, rfl⟩

theorem Extends.trans (first : s.Extends t) (second : t.Extends s') : s.Extends s' where
  superblock := second.superblock.trans first.superblock
  directories d bounded directory :=
    second.directories d (by rwa [inodesNum_eq first.superblock]) (first.directories d bounded directory)
  elems d bounded directory p inside used := by
    obtain ⟨insideT, same⟩ := first.elems d bounded directory p inside used
    obtain ⟨insideS, again⟩ := second.elems d (by rwa [inodesNum_eq first.superblock])
      (first.directories d bounded directory) p insideT (same ▸ used)
    exact ⟨insideS, again.trans same⟩

structure Recalls (s s' : VirtualDisc) : Prop where
  superblock : s'.superblock = s.superblock
  directories : ∀ d < s.inodesNum, (s.nodeTab d).type = .directory → (s'.nodeTab d).type = .directory
  found : ∀ d, (s.nodeTab d).type = .directory → ∀ n p, s.findElemInDir d n = .ok (some p) →
    s'.findElemInDir d n = .ok (some p) ∧ s'.elemAt p = s.elemAt p

theorem Recalls.refl (s : VirtualDisc) : s.Recalls s where
  superblock := rfl
  directories _ _ directory := directory
  found _ _ _ _ searched := ⟨searched, rfl⟩

theorem Recalls.trans (first : s.Recalls t) (second : t.Recalls s') : s.Recalls s' where
  superblock := second.superblock.trans first.superblock
  directories d bounded directory :=
    second.directories d (by rwa [inodesNum_eq first.superblock]) (first.directories d bounded directory)
  found d directory n p searched := by
    have bounded := inRange_of_findElemInDir searched
    obtain ⟨searchedT, same⟩ := first.found d directory n p searched
    obtain ⟨searchedS, again⟩ := second.found d (first.directories d bounded directory) n p searchedT
    exact ⟨searchedS, again.trans same⟩

theorem Recalls.findInDir (recalls : s.Recalls s') (directory : (s.nodeTab d).type = .directory)
    (found : s.findInDir d filename = .ok (some i)) : s'.findInDir d filename = .ok (some i) := by
  obtain ⟨place, searched, named⟩ := bind_eq_ok.mp found
  obtain ⟨p, rfl, rfl⟩ := Option.map_eq_some_iff.mp (Except.ok.inj named)
  obtain ⟨again, same⟩ := recalls.found d directory filename p searched
  rw [VirtualDisc.findInDir, again, ok_bind, Option.map_some, same]

/-! ## An inode is prepared, and its element placed -/

structure Prepared (s a : VirtualDisc) : Prop where
  superblock : a.superblock = s.superblock
  firsts : a.first = s.first
  blocks : a.datablockTab = s.datablockTab
  marks : a.dataMap = s.dataMap
  types : ∀ i, (s.nodeTab i).type ≠ .empty → (a.nodeTab i).type = (s.nodeTab i).type

theorem prepared_allocate (type : InodeType) (size : Nat) (empty : (s.nodeTab i).type = .empty) :
    s.Prepared (s.allocate i type size) where
  superblock := rfl
  firsts := allocate_first s i type size
  blocks := rfl
  marks := rfl
  types j live := by
    have other : j ≠ i := by
      rintro rfl
      exact live empty
    exact (kept_allocate (fun _ => []) other).type

theorem prepared_newDir (free : s.freeNodes ≠ []) :
    s.Prepared (s.allocate s.findFreeNode .directory (s.nodeTab s.findFreeNode).size) :=
  prepared_allocate .directory _ (findFreeNode_spec free).2

theorem prepared_withReferences (i : Nat) (n : UInt8) : s.Prepared (s.withReferences i n) where
  superblock := rfl
  firsts := withReferences_first s i n
  blocks := rfl
  marks := rfl
  types j _ := withReferences_type s i n j

theorem Prepared.elemAt (prepared : s.Prepared a) (p : Nat × Nat) : a.elemAt p = s.elemAt p := by
  unfold VirtualDisc.elemAt data
  rw [prepared.blocks]

theorem Prepared.pool (prepared : s.Prepared a) (pool : s.PoolOf chain) : a.PoolOf chain := by
  refine pool.frame prepared.superblock prepared.firsts ?_ prepared.marks
  funext b
  unfold next
  rw [prepared.blocks]

theorem Placed.directory (placed : a.Placed chain dir elem slots t chain') (prepared : s.Prepared a)
    (directory : (s.nodeTab d).type = .directory) : (t.nodeTab d).type = .directory := by
  rw [placed.nodes d, ← directory]
  exact prepared.types d (by simp [directory])

theorem Placed.inodes (placed : a.Placed chain dir elem slots t chain') (prepared : s.Prepared a) :
    t.inodesNum = s.inodesNum :=
  inodesNum_eq (placed.superblock.trans prepared.superblock)

theorem Placed.elem_of_used (placed : a.Placed chain dir elem slots t chain') (prepared : s.Prepared a)
    (bounded : d < s.inodesNum) {p : Nat × Nat} (inside : p ∈ places (chain d)) (used : (s.elemAt p).used ≠ 0) :
    p ∈ places (chain' d) ∧ t.elemAt p = s.elemAt p := by
  by_cases here : d = dir
  · subst here
    obtain ⟨taken, front⟩ := placed.front
    have insideT : p ∈ places (chain' d) := by
      rw [front, places_append]
      exact List.mem_append_left _ inside
    refine ⟨insideT, ?_⟩
    rw [placed.filed.others p insideT, prepared.elemAt]
    intro written
    have unused := placed.unused p written inside
    rw [prepared.elemAt] at unused
    exact used unused
  · obtain ⟨same, data⟩ := placed.others d (by rwa [inodesNum_eq prepared.superblock]) here
    refine ⟨same ▸ inside, ?_⟩
    have block := data p.1 (mem_places.mp inside).1
    rw [← prepared.elemAt p]
    unfold elemAt
    rw [block]

theorem Placed.extends (placed : a.Placed chain dir elem slots t chain') (prepared : s.Prepared a)
    (pool : s.PoolOf chain) : s.Extends t where
  superblock := placed.superblock.trans prepared.superblock
  directories _ _ directory := placed.directory prepared directory
  elems d bounded directory p inside used := by
    rw [pool.chainOf_eq bounded] at inside
    rw [placed.pool.chainOf_eq (by rwa [placed.inodes prepared])]
    exact placed.elem_of_used prepared bounded inside used

/-- The first of the slots of a directory with a used element of that name. -/
def firstNamed (s : VirtualDisc) (filename : CString) (slots : List (Nat × Nat)) : Option (Nat × Nat) :=
  slots.find? fun p => (s.elemAt p).is filename

theorem firstNamed_is {p : Nat × Nat} (found : s.firstNamed filename slots = some p) :
    p ∈ slots ∧ (s.elemAt p).is filename = true := by
  have named := List.find?_some found
  exact ⟨List.mem_of_find?_eq_some found, named⟩

theorem findElemInDir_firstNamed (pool : s.PoolOf chain) (inRange : d < s.inodesNum)
    (directory : (s.nodeTab d).type = .directory) (filename : CString) :
    s.findElemInDir d filename = .ok (s.firstNamed filename (places (chain d))) := by
  rw [findElemInDir_eq pool inRange, if_pos directory, placeOn_eq_find]
  rfl

theorem Placed.firstNamed_front (placed : a.Placed chain dir elem slots t chain') (prepared : s.Prepared a)
    (bounded : d < s.inodesNum) (other : d = dir → elem.is filename = false) :
    t.firstNamed filename (places (chain d)) = s.firstNamed filename (places (chain d)) := by
  unfold firstNamed
  apply List.find?_congr
  intro p inside
  by_cases used : (s.elemAt p).used = 0
  · -- it had no name before, and has none that is looked for now
    have unnamed : (s.elemAt p).is filename = false := by simp [DirectoryElement.is, used]
    rw [unnamed]
    by_cases here : d = dir
    · subst here
      obtain ⟨taken, front⟩ := placed.front
      have insideT : p ∈ places (chain' d) := by
        rw [front, places_append]
        exact List.mem_append_left _ inside
      by_cases written : p ∈ slots
      · rw [placed.filed.written p written]
        exact other rfl
      · rw [placed.filed.others p insideT written, prepared.elemAt, unnamed]
    · obtain ⟨_, data⟩ := placed.others d (by rwa [inodesNum_eq prepared.superblock]) here
      have same : t.elemAt p = a.elemAt p := by
        unfold elemAt
        rw [data p.1 (mem_places.mp inside).1]
      rw [same, prepared.elemAt, unnamed]
  · rw [(placed.elem_of_used prepared bounded inside used).2]

theorem Placed.chain_front (placed : a.Placed chain dir elem slots t chain') (prepared : s.Prepared a)
    (bounded : d < s.inodesNum) : ∃ taken, chain' d = chain d ++ taken := by
  by_cases here : d = dir
  · subst here
    exact placed.front
  · obtain ⟨same, _⟩ := placed.others d (by rwa [inodesNum_eq prepared.superblock]) here
    exact ⟨[], by rw [same, List.append_nil]⟩

theorem Placed.recalls (placed : a.Placed chain dir elem slots t chain') (prepared : s.Prepared a)
    (pool : s.PoolOf chain) (new : ∀ n p, (s.nodeTab dir).type = .directory →
      s.findElemInDir dir n = .ok (some p) → elem.is n = false) : s.Recalls t where
  superblock := placed.superblock.trans prepared.superblock
  directories _ _ directory := placed.directory prepared directory
  found d directory n p searched := by
    have bounded := inRange_of_findElemInDir searched
    have other : d = dir → elem.is n = false := by
      rintro rfl
      exact new n p directory searched
    rw [findElemInDir_firstNamed pool bounded directory, Except.ok.injEq] at searched
    have directoryT := placed.directory prepared directory
    have boundedT : d < t.inodesNum := by rwa [placed.inodes prepared]
    obtain ⟨taken, front⟩ := placed.chain_front prepared bounded
    have again : t.firstNamed n (places (chain' d)) = some p := by
      rw [firstNamed, front, places_append, List.find?_append]
      have same := placed.firstNamed_front prepared bounded other
      rw [firstNamed, searched] at same
      rw [same]
      rfl
    refine ⟨by rw [findElemInDir_firstNamed placed.pool boundedT directoryT, again], ?_⟩
    obtain ⟨inside, named⟩ := firstNamed_is searched
    exact (placed.elem_of_used prepared bounded inside (DirectoryElement.used_of_is named)).2

/-! ## Where the new element is found -/

def ahead (blocks : List Nat) (slots : List (Nat × Nat)) : List (Nat × Nat) :=
  (places blocks).takeWhile fun p => decide (p ∉ slots)

/-- A search of the blocks comes to inode `i` once `slots` hold its element. A name
that fits its field is hidden by an older element in front of them; one that does
not fit is never stored. -/
def Uncovers (s : VirtualDisc) (filename : CString) (i : Nat) (blocks : List Nat) (slots : List (Nat × Nat)) : Prop :=
  if filename.bytes.length ≤ filenameLen then
    ∀ p ∈ s.firstNamed filename (ahead blocks slots), (s.elemAt p).inodeId = i
  else ∃ p ∈ s.firstNamed filename ((places blocks).filter fun p => decide (p ∉ slots)), (s.elemAt p).inodeId = i

theorem mem_ahead {p : Nat × Nat} (inside : p ∈ ahead blocks slots) : p ∈ places blocks ∧ p ∉ slots := by
  have elsewhere := List.mem_takeWhile_imp inside
  exact ⟨(List.takeWhile_prefix _).subset inside, of_decide_eq_true elsewhere⟩

theorem Filed.firstNamed_fits (filed : s.Filed blocks elem slots t) (some_ : slots ≠ [])
    (named : elem.is filename = true) : ∃ q ∈ slots, t.firstNamed filename (places blocks) =
      (s.firstNamed filename (ahead blocks slots)).or (some q) := by
  obtain ⟨q₀, written⟩ := List.exists_mem_of_ne_nil slots some_
  have parts := List.takeWhile_append_dropWhile (p := fun p => decide (p ∉ slots)) (l := places blocks)
  have rest_ : (places blocks).dropWhile (fun p => decide (p ∉ slots)) ≠ [] := by
    intro none_
    have all := List.dropWhile_eq_nil_iff.mp none_ q₀ (filed.listed q₀ written)
    exact of_decide_eq_true all written
  obtain ⟨q, rest, first_⟩ := List.exists_cons_of_ne_nil rest_
  have taken : q ∈ slots := by
    have head := List.head_dropWhile_not (fun p => decide (p ∉ slots)) rest_
    simp only [first_, List.head_cons] at head
    simpa using head
  have same : t.firstNamed filename (ahead blocks slots) = s.firstNamed filename (ahead blocks slots) := by
    apply List.find?_congr
    intro p inside
    rw [filed.others p (mem_ahead inside).1 (mem_ahead inside).2]
  refine ⟨q, taken, ?_⟩
  rw [← same]
  unfold firstNamed ahead
  conv => lhs; rw [← parts]
  rw [first_, List.find?_append, List.find?_cons_of_pos (by rw [filed.written q taken, named])]

theorem Filed.firstNamed_other (filed : s.Filed blocks elem slots t) (other : elem.is filename = false) :
    t.firstNamed filename (places blocks) =
      s.firstNamed filename ((places blocks).filter fun p => decide (p ∉ slots)) := by
  unfold firstNamed
  rw [List.find?_filter]
  apply List.find?_congr
  intro p inside
  by_cases written : p ∈ slots
  · simp [filed.written p written, other, written]
  · simp [filed.others p inside written, written]

theorem Filed.uncovers_iff (filed : s.Filed blocks (newElem name i) slots t) (some_ : slots ≠ []) (small : i < 2 ^ 16) :
    (∃ p, t.firstNamed name (places blocks) = some p ∧ (t.elemAt p).inodeId = i) ↔ s.Uncovers name i blocks slots := by
  unfold Uncovers
  by_cases fits : name.bytes.length ≤ filenameLen
  · obtain ⟨q, written, searched⟩ := filed.firstNamed_fits some_ (newElem_is_self.mpr fits)
    rw [if_pos fits, searched]
    cases before : s.firstNamed name (ahead blocks slots) with
    | none =>
      refine iff_of_true ⟨q, rfl, ?_⟩ (by simp)
      rw [filed.written q written, newElem_inodeId name small]
    | some p =>
      obtain ⟨inside, elsewhere⟩ := mem_ahead (firstNamed_is before).1
      have same := filed.others p inside elsewhere
      simp [same]
  · have other : (newElem name i).is name = false := by
      rw [Bool.eq_false_iff]
      exact fun named => fits (newElem_is_self.mp named)
    rw [if_neg fits, filed.firstNamed_other other]
    refine exists_congr fun p => and_congr_right fun found => ?_
    obtain ⟨inside, elsewhere⟩ := List.mem_filter.mp (firstNamed_is found).1
    rw [filed.others p inside (of_decide_eq_true elsewhere)]

theorem Prepared.uncovers_iff (prepared : s.Prepared a) :
    a.Uncovers name i blocks slots ↔ s.Uncovers name i blocks slots := by
  have same : a.elemAt = s.elemAt := funext prepared.elemAt
  unfold Uncovers firstNamed
  rw [same]

theorem Placed.findElemInDir_iff (placed : a.Placed chain dir (newElem name i) slots t chain')
    (prepared : s.Prepared a) (inRange : dir < s.inodesNum) (directory : (s.nodeTab dir).type = .directory)
    (small : i < 2 ^ 16) : (∃ p, t.findElemInDir dir name = .ok (some p) ∧ (t.elemAt p).inodeId = i) ↔
      s.Uncovers name i (chain' dir) slots := by
  have directoryT := placed.directory prepared directory
  rw [findElemInDir_firstNamed placed.pool (by rwa [placed.inodes prepared]) directoryT, ← prepared.uncovers_iff,
    ← placed.filed.uncovers_iff placed.some_ small]
  simp only [Except.ok.injEq]

/-! ## Runs of `make_dir` -/

inductive Component (s : VirtualDisc) (chain : Nat → List Nat) (dir : Nat) (name : CString) (rest : List CString) :
    List Output → VirtualDisc → Prop where
  | blocked {out : List Output} {next : Nat} : s.findInDir dir name = .ok (some next) →
      (s.nodeTab next).type ≠ .directory → Reports out → Component s chain dir name rest out s
  | full {out : List Output} : s.findInDir dir name = .ok none → s.freeNodes = [] → Reports out →
      Component s chain dir name rest out s
  | follows {out : List Output} {next : Nat} {s' : VirtualDisc} : s.findInDir dir name = .ok (some next) →
      next < s.inodesNum → (s.nodeTab next).type = .directory → makeDirFrom rest s next = .ok (out, s') →
      Component s chain dir name rest (warnInvalid name ++ out) s'
  | makes {out : List Output} {t s' : VirtualDisc} {chainT : Nat → List Nat} : s.findInDir dir name = .ok none →
      s.freeNodes ≠ [] → (s.allocate s.findFreeNode .directory (s.nodeTab s.findFreeNode).size).insertDir dir
        (newElem name s.findFreeNode) = .ok (none, t) →
      (s.allocate s.findFreeNode .directory (s.nodeTab s.findFreeNode).size).Placed chain dir
        (newElem name s.findFreeNode) (s.slotsFor (chain dir)) t chainT →
      chainT dir = chain dir ++ s.freeBlocks.take (s.dirNeed (chain dir)) →
      makeDirFrom rest t s.findFreeNode = .ok (out, s') →
      Component s chain dir name rest (warnInvalid name ++ out) s'

theorem makeDirFrom_component (pool : s.PoolOf chain) {rest : List CString}
    (returned : makeDirFrom (name :: rest) s dir = .ok (out, s')) : s.Component chain dir name rest out s' := by
  obtain ⟨found, searched, walked⟩ := bind_eq_ok.mp (makeDirFrom.eq_2 .. ▸ returned)
  have inRange := inRange_of_findInDir searched
  -- the component exists, or is made if there is an inode for it
  cases found with
  | some next =>
    obtain ⟨entry, read, walked⟩ := bind_eq_ok.mp walked
    by_cases nextInRange : next < s.inodesNum
    · rw [node_eq_ok next nextInRange, Except.ok.injEq] at read
      subst read
      by_cases directory : (s.nodeTab next).type = .directory
      · rw [if_pos directory] at walked
        obtain ⟨⟨more, t⟩, walked, same⟩ := bind_eq_ok.mp walked
        cases same
        exact .follows searched nextInRange directory walked
      · rw [if_neg directory] at walked
        cases walked
        exact .blocked searched directory (reports_append.mpr (.inr (reports_cerr _)))
    · rw [node, if_neg nextInRange] at read
      cases read
  | none =>
    by_cases free : s.freeNodes = []
    · rw [findFreeNode_eq_none32_iff.mpr free] at walked
      cases walked
      exact .full searched free (reports_append.mpr (.inr (reports_cerr _)))
    · rw [makeDirFrom_cons free searched] at returned
      obtain ⟨⟨failed, t⟩, inserted, walked⟩ := bind_eq_ok.mp returned
      obtain ⟨quiet, placed⟩ := insertDir_placed ((prepared_newDir free).pool pool) inRange (newElem_storable name _) inserted
      obtain rfl : failed = none := quiet
      obtain ⟨⟨more, u⟩, walked, same⟩ := bind_eq_ok.mp walked
      cases same
      exact .makes searched free inserted placed (Function.update_self ..) walked

theorem makeDirFrom_extends (pool : s.PoolOf chain) (names : List CString)
    (returned : makeDirFrom names s dir = .ok (out, s')) : (∃ chain', s'.PoolOf chain') ∧ s.Extends s' := by
  induction names generalizing s chain dir out with
  | nil =>
    cases returned
    exact ⟨⟨chain, pool⟩, .refl _⟩
  | cons name rest ih =>
    cases makeDirFrom_component pool returned with
    | blocked _ _ _ => exact ⟨⟨chain, pool⟩, .refl _⟩
    | full _ _ _ => exact ⟨⟨chain, pool⟩, .refl _⟩
    | follows _ _ _ walked => exact ih pool walked
    | makes searched free _ placed _ walked =>
      obtain ⟨poolS, later⟩ := ih placed.pool walked
      exact ⟨poolS, (placed.extends (prepared_newDir free) pool).trans later⟩

theorem length_of_validateFilename (valid : validateFilename name = true) : name.bytes.length ≤ filenameLen := by
  simp only [validateFilename, Bool.not_eq_true', Bool.or_eq_false_iff, decide_eq_false_iff_not] at valid
  exact (Nat.lt_of_not_ge valid.1).le

/-- What a quiet run warns of. -/
theorem valid_of_quiet {more : List Output} (quiet : ¬ Reports (warnInvalid name ++ more)) :
    validateFilename name = true ∧ ¬ Reports more := by
  rw [reports_append, not_or, reports_warnInvalid, Bool.not_eq_false] at quiet
  exact quiet

/-- A name that fits and that the search did not find hides nothing. -/
theorem newElem_is_of_absent (fits : name.bytes.length ≤ filenameLen) (absent : s.findElemInDir dir name = .ok none)
    {n : CString} {p : Nat × Nat} (found : s.findElemInDir dir n = .ok (some p)) : (newElem name i).is n = false := by
  rw [Bool.eq_false_iff]
  intro named
  rw [newElem_is, List.take_of_length_le fits] at named
  obtain rfl : name = n := by
    cases name
    cases n
    simpa using named
  rw [absent] at found
  cases found

theorem findElemInDir_none (absent : s.findInDir dir name = .ok none) : s.findElemInDir dir name = .ok none := by
  obtain ⟨place, searched, same⟩ := bind_eq_ok.mp absent
  rw [Except.ok.injEq, Option.map_eq_none_iff] at same
  rw [searched, same]

theorem makeDirFrom_recalls (pool : s.PoolOf chain) (names : List CString)
    (returned : makeDirFrom names s dir = .ok (out, s')) (quiet : ¬ Reports out) : s.Recalls s' := by
  induction names generalizing s chain dir out with
  | nil =>
    cases returned
    exact .refl _
  | cons name rest ih =>
    cases makeDirFrom_component pool returned with
    | blocked _ _ reported => exact absurd reported quiet
    | full _ _ reported => exact absurd reported quiet
    | follows _ _ _ walked => exact ih pool walked (valid_of_quiet quiet).2
    | makes searched free _ placed _ walked =>
      obtain ⟨valid, quiet⟩ := valid_of_quiet quiet
      refine (placed.recalls (prepared_newDir free) pool ?_).trans (ih placed.pool walked quiet)
      intro n p _ found
      exact newElem_is_of_absent (length_of_validateFilename valid) (findElemInDir_none searched) found

/-! ## A path that is made resolves -/

theorem mem_of_mem_takeWhile {α : Type} {P : α → Bool} {l m : List α} {q x : α} (stops : P q = false)
    (inside : x ∈ (l ++ q :: m).takeWhile P) : x ∈ l := by
  induction l with
  | nil => simp [stops] at inside
  | cons y l ih =>
    rw [List.cons_append, List.takeWhile_cons] at inside
    split at inside
    · rcases List.mem_cons.mp inside with rfl | later
      · exact List.mem_cons_self
      · exact List.mem_cons_of_mem _ (ih later)
    · cases inside

theorem ahead_slotsFor {p : Nat × Nat} (some_ : s.slotsFor blocks ≠ [])
    (inside : p ∈ ahead (blocks ++ s.freeBlocks.take (s.dirNeed blocks)) (s.slotsFor blocks)) : p ∈ places blocks := by
  by_cases full : s.roomy blocks = []
  · rw [dirNeed, if_pos full, slotsFor, if_pos full] at inside
    rw [slotsFor, if_pos full] at some_
    cases free : s.freeBlocks with
    | nil => simp [free] at some_
    | cons b rest =>
      obtain ⟨after, slots⟩ : ∃ after, places [b] = (b, 0) :: after := by
        refine ⟨(List.range' 1 408).map fun i => (b, i), ?_⟩
        have numbers : List.range dirElemsPerBlock = 0 :: List.range' 1 408 := List.range_eq_range' ▸ List.range'_succ
        simp [places, numbers]
      rw [free, List.take_succ_cons, List.take_zero, ahead, places_append, slots] at inside
      exact mem_of_mem_takeWhile (by simp) inside
  · rw [dirNeed, if_neg full, List.take_zero, List.append_nil] at inside
    exact (mem_ahead inside).1

theorem Placed.findElemInDir_made (placed : a.Placed chain dir (newElem name i) (s.slotsFor (chain dir)) t chain')
    (grown : chain' dir = chain dir ++ s.freeBlocks.take (s.dirNeed (chain dir))) (prepared : s.Prepared a)
    (pool : s.PoolOf chain) (inRange : dir < s.inodesNum) (directory : (s.nodeTab dir).type = .directory)
    (absent : s.findInDir dir name = .ok none) (fits : name.bytes.length ≤ filenameLen) (small : i < 2 ^ 16) :
    ∃ p, t.findElemInDir dir name = .ok (some p) ∧ (t.elemAt p).inodeId = i := by
  rw [placed.findElemInDir_iff prepared inRange directory small, Uncovers, if_pos fits]
  intro p first_
  obtain ⟨inside, named⟩ := firstNamed_is first_
  have before : p ∈ places (chain dir) := by
    rw [grown] at inside
    exact ahead_slotsFor placed.some_ inside
  have searched := findElemInDir_none absent
  rw [findElemInDir_firstNamed pool inRange directory, Except.ok.injEq, firstNamed, List.find?_eq_none] at searched
  exact absurd named (searched p before)

theorem findInDir_of_findElemInDir {p : Nat × Nat} (found : s.findElemInDir dir name = .ok (some p)) :
    s.findInDir dir name = .ok (some (s.elemAt p).inodeId) := by
  rw [findInDir, found, ok_bind, Option.map_some]

theorem makeDirFrom_of_resolves (names : List CString)
    (resolves : s.findDirInodeFrom names dir = .ok (out, some j)) : makeDirFrom names s dir = .ok (out, s) := by
  induction names generalizing dir out with
  | nil =>
    cases resolves
    rfl
  | cons name rest ih =>
    obtain ⟨found, searched, walked⟩ := bind_eq_ok.mp (findDirInodeFrom.eq_2 .. ▸ resolves)
    rw [makeDirFrom, searched, ok_bind]
    cases found with
    | none => simp at walked
    | some next =>
      obtain ⟨entry, read, walked⟩ := bind_eq_ok.mp walked
      simp only [read, ok_bind]
      split at walked
      next directory =>
        obtain ⟨⟨more, reached⟩, walked, same⟩ := bind_eq_ok.mp walked
        simp only [Except.ok.injEq, Prod.mk.injEq] at same
        obtain ⟨rfl, rfl⟩ := same
        simp only [directory, if_true, ih walked, ok_bind]
      next => simp at walked

theorem findFreeNode_lt {n : Nat} (some_ : s.freeNodes.filter (fun i => decide (i < n)) ≠ []) : s.findFreeNode < n := by
  obtain ⟨i, listed⟩ := List.exists_mem_of_ne_nil _ some_
  obtain ⟨free, small⟩ := List.mem_filter.mp listed
  have sorted : s.freeNodes.Pairwise (· < ·) := List.pairwise_lt_range.filter _
  rw [findFreeNode_eq]
  cases frees : s.freeNodes with
  | nil => simp [frees] at free
  | cons j rest =>
    rw [frees, List.pairwise_cons] at sorted
    rw [frees, List.mem_cons] at free
    have least : j ≤ i := free.elim (fun same => same.ge) fun later => (sorted.1 i later).le
    exact lt_of_le_of_lt least (of_decide_eq_true small)

theorem Placed.freeNodes (placed : (s.allocate s.findFreeNode .directory (s.nodeTab s.findFreeNode).size).Placed chain dir
    elem slots t chain') (free : s.freeNodes ≠ []) : s.freeNodes = s.findFreeNode :: t.freeNodes := by
  apply freeNodes_of_types free (inodesNum_eq placed.superblock)
  · simp [placed.nodes, allocate]
  · intro i other
    simp [placed.nodes, allocate, other]

theorem missing_le (s : VirtualDisc) (names : List CString) (start : Nat) :
    inodesNeeded (s.missing names start) ≤ names.length := by
  induction names generalizing start with
  | nil => exact Nat.zero_le 0
  | cons name rest ih =>
    rw [missing]
    split
    · split
      · exact (ih _).trans (Nat.le_succ _)
      · exact Nat.zero_le _
    · exact le_rfl
    · exact Nat.zero_le _

theorem findDirInodeFrom_leads {names : List CString} {next j : Nat} (searched : s.findInDir dir name = .ok (some next))
    (bounded : next < s.inodesNum) (live : (s.nodeTab next).type = .directory) (valid : validateFilename name = true)
    (resolves : s.findDirInodeFrom names next = .ok ([], some j)) :
    s.findDirInodeFrom (name :: names) dir = .ok ([], some j) := by
  rw [findDirInodeFrom, searched, ok_bind]
  simp only [node_eq_ok next bounded, ok_bind, live, if_true, resolves, warnInvalid, valid, List.append_nil]

theorem Placed.small (placed : (s.allocate s.findFreeNode .directory (s.nodeTab s.findFreeNode).size).Placed chain dir
    elem slots t chain') (free : s.freeNodes ≠ []) {n m : Nat}
    (some_ : m + 1 ≤ (s.freeNodes.filter fun i => decide (i < n)).length) :
    s.findFreeNode < n ∧ m ≤ (t.freeNodes.filter fun i => decide (i < n)).length := by
  have low : s.findFreeNode < n := findFreeNode_lt fun none_ => by
    rw [none_] at some_
    cases some_
  rw [placed.freeNodes free, List.filter_cons_of_pos (by simpa using low), List.length_cons] at some_
  exact ⟨low, Nat.le_of_succ_le_succ some_⟩

/-- What a quiet run has followed or made is there to be followed, one component after the other. -/
theorem makeDirFrom_resolves (pool : s.PoolOf chain) (names : List CString) (inRange : dir < s.inodesNum)
    (directory : (s.nodeTab dir).type = .directory)
    (small : inodesNeeded (s.missing names dir) ≤ (s.freeNodes.filter fun i => decide (i < 2 ^ 16)).length)
    (returned : makeDirFrom names s dir = .ok (out, s')) (quiet : ¬ Reports out) :
    ∃ j, s'.findDirInodeFrom names dir = .ok ([], some j) ∧ (s'.nodeTab j).type = .directory := by
  induction names generalizing s chain dir out with
  | nil =>
    cases returned
    exact ⟨dir, rfl, directory⟩
  | cons name rest ih =>
    -- what leads on here leads on in the disc that the rest of the run leaves
    have leads {t : VirtualDisc} {next : Nat} (recalls : t.Recalls s') (searched : t.findInDir dir name = .ok (some next))
        (directory : (t.nodeTab dir).type = .directory) (bounded : next < t.inodesNum)
        (live : (t.nodeTab next).type = .directory) (valid : validateFilename name = true)
        (rest_ : ∃ j, s'.findDirInodeFrom rest next = .ok ([], some j) ∧ (s'.nodeTab j).type = .directory) :
        ∃ j, s'.findDirInodeFrom (name :: rest) dir = .ok ([], some j) ∧ (s'.nodeTab j).type = .directory := by
      obtain ⟨j, resolves, type⟩ := rest_
      have boundedS : next < s'.inodesNum := by rwa [inodesNum_eq recalls.superblock]
      exact ⟨j, findDirInodeFrom_leads (recalls.findInDir directory searched) boundedS
        (recalls.directories next bounded live) valid resolves, type⟩
    cases makeDirFrom_component pool returned with
    | blocked _ _ reported => exact absurd reported quiet
    | full _ _ reported => exact absurd reported quiet
    | follows searched bounded live walked =>
      obtain ⟨valid, quiet⟩ := valid_of_quiet quiet
      simp only [missing, searched, live, if_true] at small
      exact leads (makeDirFrom_recalls pool rest walked quiet) searched directory bounded live valid
        (ih pool bounded live small walked quiet)
    | @makes out t _ chainT searched free _ placed grown walked =>
      obtain ⟨valid, quiet⟩ := valid_of_quiet quiet
      have prepared := prepared_newDir free
      obtain ⟨low, few⟩ : s.findFreeNode < 2 ^ 16 ∧
          rest.length ≤ (t.freeNodes.filter fun i => decide (i < 2 ^ 16)).length := by
        apply placed.small free
        simpa only [missing, searched, inodesNeeded, List.length_cons] using small
      have bounded : s.findFreeNode < t.inodesNum := by
        rw [placed.inodes prepared]
        exact (findFreeNode_spec free).1
      have live : (t.nodeTab s.findFreeNode).type = .directory := by simp [placed.nodes, allocate]
      obtain ⟨p, found, names⟩ := placed.findElemInDir_made grown prepared pool inRange directory searched
        (length_of_validateFilename valid) low
      have foundInode := findInDir_of_findElemInDir found
      rw [names] at foundInode
      exact leads (makeDirFrom_recalls placed.pool rest walked quiet) foundInode (placed.directory prepared directory)
        bounded live valid (ih placed.pool bounded live ((t.missing_le rest _).trans few) walked quiet)

/-- A path that `make_dir` has made without an error leads to a directory, and is not made again. -/
theorem makeDir_resolves (navigable : s.Navigable chain)
    (without : ∀ i < s.inodesNum, (s.nodeTab i).type = .empty → s.first i = nil64) (path : CString)
    (blocks : s.blocksNeeded (s.effect (.makeDir path)) ≤ s.freeBlocks.length)
    (inodes : inodesNeeded (s.effect (.makeDir path)) ≤ (s.freeNodes.filter fun i => decide (i < 2 ^ 16)).length) :
    ∃ out s', s.makeDir path = .ok (out, s') ∧ (¬ Reports out →
      (∃ j, s'.findDirInode path = .ok ([], some j) ∧ (s'.nodeTab j).type = .directory) ∧
        s'.makeDir path = .ok ([], s')) := by
  have returns : ∃ out s', s.makeDir path = .ok (out, s') := by
    have performs : ∃ out s', s.perform (s.effect (.makeDir path)) = .ok (out, s') := by
      have valid := effect_valid navigable (.makeDir path)
      rcases missing_eq s (components path) 0 with none_ | ⟨dir, names, made⟩
      · exact ⟨[], s, by rw [effect, none_, perform]⟩
      · rw [effect, made] at valid blocks inodes ⊢
        obtain ⟨found, name, rest, rfl, absent⟩ := valid
        rw [blocksNeeded, navigable.pool.chainOf_eq found.inRange] at blocks
        refine makeDirFrom_ok navigable.pool without found.inRange found.directory _ ?_ ?_ blocks
        · intro first_ here
          cases here
          exact absent
        · exact inodes.trans (List.length_filter_le _ _)
    obtain ⟨out, s', performed⟩ := performs
    obtain ⟨out, returned⟩ := (exec_prefixed navigable (.makeDir path)).ok_iff.mpr ⟨out, performed⟩
    exact ⟨out, s', returned⟩
  obtain ⟨out, s', returned⟩ := returns
  refine ⟨out, s', returned, fun quiet => ?_⟩
  obtain ⟨j, resolves, type⟩ := makeDirFrom_resolves navigable.pool (components path) navigable.inodes navigable.root
    inodes returned quiet
  exact ⟨⟨j, resolves, type⟩, makeDirFrom_of_resolves (components path) resolves⟩

theorem makeDir_resolves_inner : ∃ out s', smallDisc.makeDir innerPath = .ok (out, s') ∧ (¬ Reports out →
    (∃ j, s'.findDirInode innerPath = .ok ([], some j) ∧ (s'.nodeTab j).type = .directory) ∧
      s'.makeDir innerPath = .ok ([], s')) :=
  makeDir_resolves ((blank_directoryConsistent (by decide +kernel)).navigable blank_blockConsistent)
    blank_blockConsistent.empty innerPath (by decide +kernel) (by decide +kernel)

end VirtualDisc
end SoiStud.FileSystem
