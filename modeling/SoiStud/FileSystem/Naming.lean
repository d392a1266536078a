import SoiStud.FileSystem.History

/-! Whether a name in a directory is the name of one entry only.

`copy_file_to_disc` and `make_dir` look a name up before they enter it, `link`
does not. What an element holds of a name is cut to the length of its field.
-/

set_option autoImplicit false

namespace SoiStud.FileSystem

def CString.stored (name : CString) : CString :=
  ⟨name.bytes.take filenameLen, fun zero => name.nul (List.mem_of_mem_take zero)⟩

namespace VirtualDisc

open Library

variable {s s' t : VirtualDisc} {chain chain' : Nat → List Nat} {dir file i j : Nat} {name filename : CString}
  {elem e : DirectoryElement} {effect : Effect}

structure Distinct (s : VirtualDisc) (chain : Nat → List Nat) : Prop where
  used : ∀ d < s.inodesNum, ∀ e ∈ s.entries chain d, e.used = 1
  nodup : ∀ d < s.inodesNum, ((s.entries chain d).map DirectoryElement.cname).Nodup

/-! ## What is found by name -/

theorem DirectoryElement.is_iff : e.is filename = true ↔ e.used = 1 ∧ e.cname = filename.bytes := by
  simp [DirectoryElement.is]

theorem lookup_eq (pool : s.PoolOf chain) (inRange : dir < s.inodesNum) (filename : CString) :
    s.lookup dir filename = if (s.nodeTab dir).type = .directory
      then (s.placeOn filename (chain dir)).map fun place => (s.elemAt place).inodeId else none := by
  rw [lookup, findInDir_eq pool inRange]

theorem lookup_eq_none (pool : s.PoolOf chain) (inRange : dir < s.inodesNum)
    (absent : ∀ e ∈ s.entries chain dir, e.is filename ≠ true) : s.lookup dir filename = none := by
  rw [lookup_eq pool inRange]
  split
  next directory =>
    cases placed : s.placeOn filename (chain dir) with
    | none => rfl
    | some place =>
      refine absurd (placeOn_eq_some placed).2.2 (absent _ ?_)
      rw [entries_of_directory directory]
      exact elemAt_mem_usedElems placed
  next => rfl

theorem Distinct.lookup (distinct : s.Distinct chain) (pool : s.PoolOf chain) (inRange : dir < s.inodesNum)
    (listed : e ∈ s.entries chain dir) (named : e.cname = filename.bytes) :
    s.lookup dir filename = some e.inodeId := by
  have is_ : e.is filename = true := DirectoryElement.is_iff.mpr ⟨distinct.used dir inRange e listed, named⟩
  by_cases directory : (s.nodeTab dir).type = .directory
  · have onBlocks := listed
    rw [entries_of_directory directory] at onBlocks
    obtain ⟨place, placed⟩ := placeOn_of_is onBlocks is_
    have found : s.elemAt place ∈ s.entries chain dir := by
      rw [entries_of_directory directory]
      exact elemAt_mem_usedElems placed
    have same : s.elemAt place = e := by
      apply List.inj_on_of_nodup_map (distinct.nodup dir inRange) found listed
      rw [named]
      exact (DirectoryElement.is_iff.mp (placeOn_eq_some placed).2.2).2
    rw [lookup_eq pool inRange, if_pos directory, placed, Option.map_some, same]
  · rw [entries_of_ne directory] at listed
    cases listed

theorem Distinct.not_mem (distinct : s.Distinct chain) (pool : s.PoolOf chain) (inRange : dir < s.inodesNum)
    (absent : s.lookup dir filename = none) : filename.bytes ∉ (s.entries chain dir).map DirectoryElement.cname := by
  intro member
  obtain ⟨e, listed, named⟩ := List.mem_map.mp member
  rw [distinct.lookup pool inRange listed named] at absent
  cases absent

/-! ## What the commands do to what tells entries apart -/

section
variable {Key : Type} {key : DirectoryElement → Key}

def Unique (s : VirtualDisc) (chain : Nat → List Nat) (key : DirectoryElement → Key) : Prop :=
  ∀ d < s.inodesNum, ((s.entries chain d).map key).Nodup

theorem Unique.entered (unique : s.Unique chain key) (entered : s.Entered chain dir j elem [] s' chain')
    (new : key elem ∉ (s.entries chain dir).map key) : s'.Unique chain' key := by
  intro d bounded
  rw [inodesNum_eq entered.superblock] at bounded
  by_cases here : d = dir
  · subst here
    rw [(entered.inserted.map _).nodup_iff, List.map_append, List.map_singleton, ← List.concat_eq_append,
      List.nodup_concat]
    exact ⟨new, unique d bounded⟩
  · rw [entered.others d bounded here]
    exact unique d bounded

theorem Unlinked.fewer (unlinked : s.Unlinked chain dir elem s' chain') {d : Nat} (bounded : d < s.inodesNum) :
    (s'.entries chain' d).Subperm (s.entries chain d) := by
  by_cases here : d = dir
  · subst here
    exact (List.subperm_cons_self).trans unlinked.removed.symm.subperm
  · by_cases live : (s'.nodeTab d).type = .empty
    · rw [entries_of_ne (by simp [live])]
      exact List.nil_subperm
    · rw [unlinked.others d bounded here live]

theorem Unique.unlinked (unique : s.Unique chain key) (unlinked : s.Unlinked chain dir elem s' chain') :
    s'.Unique chain' key := by
  intro d bounded
  rw [inodesNum_eq unlinked.superblock] at bounded
  obtain ⟨l, perm, sub⟩ := unlinked.fewer bounded
  exact (perm.map _).nodup_iff.mp ((sub.map _).nodup (unique d bounded))

theorem Unique.resized {blocks : List Nat} {size : Nat} (unique : s.Unique chain key)
    (resized : s.Resized chain file blocks size s') (isFile : (s.nodeTab file).type = .file) :
    s'.Unique (Function.update chain file blocks) key := by
  intro d bounded
  rw [inodesNum_eq resized.superblock] at bounded
  rw [resized.entries isFile bounded]
  exact unique d bounded

end

/-! ## What is entered once -/

def EntersSingly (s : VirtualDisc) : Effect → Prop
  | .makeDir dir names => s.freeNodes = [] ∨
      s.MakesOnly (s.chainOf dir) (min names.length s.freeNodes.length) ∧
      ∀ i ∈ s.freeNodes.take names.length, i < 2 ^ 16
  | .copy dir _ _ => s.freeNodes = [] ∨ s.AddsOnly (s.chainOf dir) ∧ s.findFreeNode < 2 ^ 16
  | .link dir _ _ => s.AddsOnly (s.chainOf dir)
  | _ => True

instance (s : VirtualDisc) (effect : Effect) : Decidable (s.EntersSingly effect) :=
  match effect with
  | .makeDir _ _ => inferInstanceAs (Decidable (_ ∨ _ ∧ _))
  | .copy _ _ _ => inferInstanceAs (Decidable (_ ∨ _ ∧ _))
  | .link _ _ _ => inferInstanceAs (Decidable (AddsOnly _ _))
  | .nothing | .unlink _ _ _ | .decrease _ _ | .increase _ _ => .isTrue trivial

theorem Made.of_full {names : List CString} {extra : List DirectoryElement}
    (made : Made s chain dir names extra s' chain') (full : s.freeNodes = []) :
    extra = [] ∧ s' = s ∧ chain' = chain := by
  cases made with
  | stop _ => exact ⟨rfl, rfl, rfl⟩
  | next created _ =>
    rw [created.nodes] at full
    cases full

theorem Made.once {names : List CString} {extra : List DirectoryElement} (made : Made s chain dir names extra s' chain')
    (pool : s.PoolOf chain) (inRange : dir < s.inodesNum) (some_ : names ≠ [])
    (singly : s.EntersSingly (.makeDir dir names)) :
    extra = [] ∧ ∀ i ∈ s.freeNodes.take names.length, i < 2 ^ 16 := by
  by_cases free : s.freeNodes = []
  · exact ⟨(made.of_full free).1, by simp [free]⟩
  · obtain ⟨once, small⟩ := singly.resolve_left free
    rw [pool.chainOf_eq inRange] at once
    exact ⟨(made.extra_eq_nil_iff_of_free some_ free).mpr once, small⟩

theorem Tracked.singly {record : Record} (tracked : s.Tracked record chain) (valid : s.Valid chain effect)
    (singly : s.EntersSingly effect) (supplied : s.Supplied effect) (performed : s.Performed chain effect s' chain') :
    ∃ record', s'.Tracked record' chain' := by
  have pool := tracked.blocks.pool
  cases performed with
  | nothing => exact ⟨record, tracked⟩
  | makeDir made =>
    obtain ⟨found, name, rest, rfl, _⟩ := valid
    obtain ⟨none_, small⟩ := made.once pool found.inRange (by simp) singly
    exact ⟨_, tracked.made found.inRange found.directory made none_ small⟩
  | copy entered isFile _ adds =>
    obtain ⟨found, _⟩ := valid
    obtain ⟨once, small⟩ := singly.resolve_left supplied
    rw [pool.chainOf_eq found.inRange] at once
    rw [adds.mpr once] at entered
    exact ⟨_, tracked.copied found.inRange found.directory supplied entered isFile small⟩
  | link entered type _ adds =>
    obtain ⟨found, named⟩ := valid
    have once : s.AddsOnly (s.chainOf _) := singly
    rw [pool.chainOf_eq found.inRange] at once
    rw [adds.mpr once] at entered
    exact ⟨_, tracked.linked found.inRange found.directory named entered type⟩
  | unlink placed named removing nodes unlinked =>
    exact ⟨_, tracked.unlinked valid.1.inRange valid.1.directory placed named removing nodes unlinked⟩
  | decrease resized length => exact ⟨_, tracked.resized resized valid.2.1 length⟩
  | increase resized length => exact ⟨_, tracked.resized resized valid.2 length⟩

/-! ## What the commands do to the names -/

theorem Distinct.unique (distinct : s.Distinct chain) : s.Unique chain DirectoryElement.cname := distinct.nodup

theorem Distinct.entered (distinct : s.Distinct chain) (entered : s.Entered chain dir j elem [] s' chain')
    (inRange : dir < s.inodesNum) (used : elem.used = 1)
    (new : elem.cname ∉ (s.entries chain dir).map DirectoryElement.cname) : s'.Distinct chain' := by
  have size := inodesNum_eq entered.superblock
  constructor
  · intro d bounded e listed
    rw [size] at bounded
    by_cases here : d = dir
    · subst here
      rcases List.mem_append.mp (entered.inserted.mem_iff.mp listed) with old | added
      · exact distinct.used d bounded e old
      · rw [List.mem_singleton.mp added, used]
    · rw [entered.others d bounded here] at listed
      exact distinct.used d bounded e listed
  · exact distinct.unique.entered entered new

theorem Distinct.made {names : List CString} {extra : List DirectoryElement} (distinct : s.Distinct chain)
    (inRange : dir < s.inodesNum) (made : Made s chain dir names extra s' chain') (none_ : extra = [])
    (new : ∀ name ∈ names.head?, name.stored.bytes ∉ (s.entries chain dir).map DirectoryElement.cname) :
    s'.Distinct chain' := by
  induction made with
  | stop _ => exact distinct
  | @next s t s' chain chainT chain' dir j name rest extra created _ ih =>
    rw [List.append_eq_nil_iff, extraDir_eq_nil_iff] at none_
    have entered := created.entered
    rw [extraDir_eq_nil_iff.mpr none_.1] at entered
    have size := inodesNum_eq entered.superblock
    apply ih
    · apply distinct.entered entered inRange rfl
      rw [cname_newElem]
      exact new name rfl
    · rw [size]
      exact created.fresh.1
    · exact none_.2
    · -- the directory made is empty
      intro next _
      rw [entries_of_chain_nil created.empty]
      exact List.not_mem_nil

theorem Distinct.unlinked (distinct : s.Distinct chain) (unlinked : s.Unlinked chain dir elem s' chain') :
    s'.Distinct chain' := by
  constructor
  · intro d bounded e listed
    rw [inodesNum_eq unlinked.superblock] at bounded
    exact distinct.used d bounded e ((unlinked.fewer bounded).subset listed)
  · exact distinct.unique.unlinked unlinked

theorem Distinct.resized {blocks : List Nat} {size : Nat} (distinct : s.Distinct chain)
    (resized : s.Resized chain file blocks size s') (isFile : (s.nodeTab file).type = .file) :
    s'.Distinct (Function.update chain file blocks) := by
  constructor
  · intro d bounded
    rw [inodesNum_eq resized.superblock] at bounded
    rw [resized.entries isFile bounded]
    exact distinct.used d bounded
  · exact distinct.unique.resized resized isFile

/-! ## Runs -/

/-- The name that an effect enters, as it is stored, is not found in the directory
yet, and it is entered once, under the index of its inode. -/
def EntersNew (s : VirtualDisc) : Effect → Prop
  | .makeDir dir names => s.freeNodes = [] ∨ (∀ name ∈ names.head?, s.lookup dir name.stored = none) ∧
      s.MakesOnly (s.chainOf dir) (min names.length s.freeNodes.length) ∧
      ∀ i ∈ s.freeNodes.take names.length, i < 2 ^ 16
  | .copy dir filename _ => s.freeNodes = [] ∨ s.lookup dir filename.stored = none ∧
      s.AddsOnly (s.chainOf dir) ∧ s.findFreeNode < 2 ^ 16
  | .link dir filename _ => s.lookup dir filename.stored = none ∧ s.AddsOnly (s.chainOf dir)
  | _ => True

instance (s : VirtualDisc) (effect : Effect) : Decidable (s.EntersNew effect) :=
  match effect with
  | .makeDir _ _ => inferInstanceAs (Decidable (_ ∨ _ ∧ _ ∧ _))
  | .copy _ _ _ => inferInstanceAs (Decidable (_ ∨ _ ∧ _ ∧ _))
  | .link _ _ _ => inferInstanceAs (Decidable (_ ∧ _))
  | .nothing | .unlink _ _ _ | .decrease _ _ | .increase _ _ => .isTrue trivial

def returning : System VirtualDisc Command where
  init s := ∃ fileName size, s = create fileName size ∧ 0 < s.inodesNum
  step s command t := ∃ out, s.exec command = .ok (out, t)

def New (s : VirtualDisc) (command : Command) (_ : VirtualDisc) : Prop := s.EntersNew (s.effect command)

instance (s t : VirtualDisc) (command : Command) : Decidable (New s command t) :=
  inferInstanceAs (Decidable (s.EntersNew (s.effect command)))

def Orderly (s : VirtualDisc) (chain : Nat → List Nat) : Prop :=
  (∃ record, s.Tracked record chain) ∧ s.Distinct chain

theorem newElem_not_mem (distinct : s.Distinct chain) (pool : s.PoolOf chain) (inRange : dir < s.inodesNum)
    (absent : s.lookup dir name.stored = none) (i : Nat) :
    (newElem name i).cname ∉ (s.entries chain dir).map DirectoryElement.cname := by
  rw [cname_newElem]
  exact distinct.not_mem pool inRange absent

theorem EntersNew.singly (new : s.EntersNew effect) : s.EntersSingly effect := by
  cases effect with
  | makeDir dir names => exact new.imp_right fun ⟨_, once⟩ => once
  | copy dir filename content => exact new.imp_right fun ⟨_, once⟩ => once
  | link dir filename file => exact new.2
  | nothing | unlink | decrease | increase => trivial

theorem Distinct.performed (distinct : s.Distinct chain) (pool : s.PoolOf chain) (valid : s.Valid chain effect)
    (new : s.EntersNew effect) (supplied : s.Supplied effect) (performed : s.Performed chain effect s' chain') :
    s'.Distinct chain' := by
  cases performed with
  | nothing => exact distinct
  | makeDir made =>
    obtain ⟨found, name, rest, rfl, _⟩ := valid
    obtain ⟨none_, _⟩ := made.once pool found.inRange (by simp) (EntersNew.singly new)
    -- only the first name is entered into a directory that holds others
    rcases new with full | ⟨absent, _⟩
    · obtain ⟨_, rfl, rfl⟩ := made.of_full full
      exact distinct
    · exact distinct.made found.inRange made none_ fun name first =>
        distinct.not_mem pool found.inRange (absent name first)
  | copy entered _ _ adds =>
    obtain ⟨found, _⟩ := valid
    obtain ⟨absent, once, _⟩ := new.resolve_left supplied
    rw [pool.chainOf_eq found.inRange] at once
    rw [adds.mpr once] at entered
    exact distinct.entered entered found.inRange rfl (newElem_not_mem distinct pool found.inRange absent _)
  | link entered _ _ adds =>
    obtain ⟨found, _⟩ := valid
    obtain ⟨absent, once⟩ := new
    rw [pool.chainOf_eq found.inRange] at once
    rw [adds.mpr once] at entered
    exact distinct.entered entered found.inRange rfl (newElem_not_mem distinct pool found.inRange absent _)
  | unlink _ _ _ _ unlinked => exact distinct.unlinked unlinked
  | decrease resized _ => exact distinct.resized resized valid.2.1
  | increase resized _ => exact distinct.resized resized valid.2

theorem Orderly.performed (orderly : s.Orderly chain) (valid : s.Valid chain effect) (new : s.EntersNew effect)
    (supplied : s.Supplied effect) (performed : s.Performed chain effect s' chain') : s'.Orderly chain' := by
  obtain ⟨⟨record, tracked⟩, distinct⟩ := orderly
  exact ⟨tracked.singly valid (EntersNew.singly new) supplied performed,
    distinct.performed tracked.blocks.pool valid new supplied performed⟩

theorem orderly_of_reachable (reached : (returning.restrict New).Reachable s) : ∃ chain, s.Orderly chain := by
  apply reached.invariant
  · rintro s ⟨fileName, size, rfl, inodes⟩
    refine ⟨fun _ => [], ⟨fun _ => [], blank_tracked inodes⟩, ?_, ?_⟩
    · intro d _ e listed
      rw [create, blank_entries] at listed
      cases listed
    · intro d _
      rw [create, blank_entries]
      exact .nil
  · rintro s command t ⟨chain, orderly⟩ ⟨⟨out, executed⟩, new⟩
    obtain ⟨record, tracked⟩ := orderly.1
    have navigable := tracked.navigable
    rcases exec_performed_or_refused tracked.blocks navigable executed with ⟨_, chain', _, done, supplied⟩ | same
    · exact ⟨chain', orderly.performed (effect_valid navigable command) new supplied done⟩
    · exact ⟨chain, same ▸ orderly⟩

theorem effect_unlink {pathToDir : CString} (located : s.locate pathToDir filename = some (dir, file)) :
    s.effect (.unlink pathToDir filename) = .unlink dir filename file := by
  simp only [effect, located]

theorem enough_unlink {pathToDir : CString} (located : s.locate pathToDir filename = some (dir, file)) :
    s.Enough (s.effect (.unlink pathToDir filename)) := by
  rw [effect_unlink located]
  exact ⟨Nat.zero_le _, Nat.zero_le _⟩

theorem Orderly.lookup_unlinked {pathToDir : CString} {out : List Output} (orderly : s.Orderly chain)
    (located : s.locate pathToDir filename = some (dir, file))
    (executed : s.exec (.unlink pathToDir filename) = .ok (out, t)) : t.lookup dir filename = none := by
  obtain ⟨⟨record, tracked⟩, distinct⟩ := orderly
  have navigable := tracked.navigable
  have valid := effect_valid navigable (.unlink pathToDir filename)
  obtain ⟨chain', done⟩ := exec_performed tracked.blocks navigable (enough_unlink located) executed
  rw [effect_unlink located] at valid done
  cases done with
  | @unlink _ _ _ place _ _ _ placed _ _ _ unlinked =>
    have inRange := valid.1.inRange
    have size := inodesNum_eq unlinked.superblock
    have names := distinct.nodup dir inRange
    rw [(unlinked.removed.map _).nodup_iff, List.map_cons, List.nodup_cons] at names
    apply lookup_eq_none unlinked.blocks.pool (by rwa [size])
    intro e listed named
    apply names.1
    rw [(DirectoryElement.is_iff.mp (placeOn_eq_some placed).2.2).2, ← (DirectoryElement.is_iff.mp named).2]
    exact List.mem_map_of_mem listed

theorem unlink_returns {pathToDir : CString} (consistent : s.Consistent)
    (located : s.locate pathToDir filename = some (dir, file)) :
    ∃ out t, s.exec (.unlink pathToDir filename) = .ok (out, t) := by
  obtain ⟨out, t, executed, _⟩ := exec_consistent consistent _ (enough_unlink located) (by rw [effect_unlink located]; trivial)
    (by rw [effect_unlink located]; trivial) (by rw [effect_unlink located]; trivial)
  exact ⟨out, t, executed⟩

/-- In every run in which only new names are entered, and once each, the names in a
directory are distinct, a name leads to the entry that has it, and after an
`unlink`, which returns where the disc is consistent, the name is gone. -/
theorem names_distinct (reached : (returning.restrict New).Reachable s) :
    (∀ d < s.inodesNum, ((s.entries s.chainOf d).map DirectoryElement.cname).Nodup) ∧
    (∀ d < s.inodesNum, ∀ e ∈ s.entries s.chainOf d, ∀ filename : CString, e.cname = filename.bytes →
      s.lookup d filename = some e.inodeId) ∧
    ∀ pathToDir filename dir file, s.locate pathToDir filename = some (dir, file) →
      (s.Consistent → ∃ out t, s.exec (.unlink pathToDir filename) = .ok (out, t)) ∧
      ∀ out t, s.exec (.unlink pathToDir filename) = .ok (out, t) → t.lookup dir filename = none := by
  obtain ⟨chain, orderly⟩ := orderly_of_reachable reached
  obtain ⟨record, tracked⟩ := orderly.1
  have distinct := orderly.2
  have pool : s.PoolOf chain := tracked.blocks.pool
  refine ⟨fun d bounded => ?_, fun d bounded e listed filename named => ?_, ?_⟩
  · rw [pool.entries_chainOf bounded]
    exact distinct.nodup d bounded
  · rw [pool.entries_chainOf bounded] at listed
    exact distinct.lookup pool bounded listed named
  · intro pathToDir filename dir file located
    exact ⟨fun consistent => unlink_returns consistent located, fun out t executed =>
      orderly.lookup_unlinked located executed⟩

/-! ## A name given twice -/

theorem returning_after {condition : VirtualDisc → Command → VirtualDisc → Prop}
    (reached : (returning.restrict condition).Reachable s) (command : Command)
    (met : condition s command (s.after command)) (returns : (s.exec command).isOk = true) :
    (returning.restrict condition).Reachable (s.after command) :=
  reached.next ⟨exec_after returns, met⟩

def sharedDisc : VirtualDisc :=
  ((smallDisc.after (.makeDir dirName)).after (.copyFileToDisc fileName rootPath [])).after
    (.link rootPath fileName dirName fileName)

theorem names_distinct_sharedDisc :
    (∀ d < sharedDisc.inodesNum, ((sharedDisc.entries sharedDisc.chainOf d).map DirectoryElement.cname).Nodup) ∧
    (∀ d < sharedDisc.inodesNum, ∀ e ∈ sharedDisc.entries sharedDisc.chainOf d, ∀ filename : CString,
      e.cname = filename.bytes → sharedDisc.lookup d filename = some e.inodeId) ∧
    ∀ pathToDir filename dir file, sharedDisc.locate pathToDir filename = some (dir, file) →
      (sharedDisc.Consistent → ∃ out t, sharedDisc.exec (.unlink pathToDir filename) = .ok (out, t)) ∧
      ∀ out t, sharedDisc.exec (.unlink pathToDir filename) = .ok (out, t) → t.lookup dir filename = none := by
  have start : (returning.restrict New).Reachable smallDisc := .start ⟨_, _, rfl, by decide +kernel⟩
  have made := returning_after start (.makeDir dirName) (by decide +kernel) (by decide +kernel)
  have copied := returning_after made (.copyFileToDisc fileName rootPath []) (by decide +kernel) (by decide +kernel)
  have linked := returning_after copied (.link rootPath fileName dirName fileName) (by decide +kernel)
    (by decide +kernel)
  exact names_distinct linked

def doubledDisc : VirtualDisc :=
  ((smallDisc.after (.copyFileToDisc fileName rootPath [1])).after (.copyFileToDisc linkName rootPath [2])).after
    (.link rootPath linkName rootPath fileName)

/-- `link` enters a name that is there already, and taking it out leaves the other entry. -/
theorem name_doubled : ∃ s, returning.Reachable s ∧
    ¬ ((s.entries s.chainOf 0).map DirectoryElement.cname).Nodup ∧
    ∃ pathToDir filename out t, s.exec (.unlink pathToDir filename) = .ok (out, t) ∧ t.lookup 0 filename ≠ none := by
  have start : (returning.restrict fun _ _ _ => True).Reachable smallDisc := .start ⟨_, _, rfl, by decide +kernel⟩
  have copied := returning_after start (.copyFileToDisc fileName rootPath [1]) trivial (by decide +kernel)
  have both := returning_after copied (.copyFileToDisc linkName rootPath [2]) trivial (by decide +kernel)
  have linked := returning_after both (.link rootPath linkName rootPath fileName) trivial (by decide +kernel)
  have returns : (doubledDisc.exec (.unlink rootPath fileName)).isOk = true := by decide +kernel
  obtain ⟨out, executed⟩ := exec_after returns
  exact ⟨doubledDisc, linked.of_restrict, by decide +kernel, rootPath, fileName, out, _, executed, by decide +kernel⟩

end VirtualDisc
end SoiStud.FileSystem
