import Mathlib.Data.Set.Basic
import Mathlib.Logic.Function.Basic

/-! Directories and files under numbers, as whoever uses a file system sees them.

A tree says of each number what stands under it. A directory gives numbers for
names, and nothing keeps two directories from naming the same number, or a
directory from naming itself.
-/

set_option autoImplicit false

namespace SoiStud.Library

inductive Item (Name Id Byte : Type) where
  | directory (entry : Name → Option Id)
  | file (content : List Byte)

abbrev FileTree (Name Id Byte : Type) := Id → Option (Item Name Id Byte)

namespace FileTree

variable {Name Id Byte : Type}

def find (t : FileTree Name Id Byte) (d : Id) (name : Name) : Option Id :=
  match t d with
  | some (.directory entry) => entry name
  | _ => none

def isDirectory (t : FileTree Name Id Byte) (i : Id) : Bool :=
  match t i with
  | some (.directory _) => true
  | _ => false

def resolve (t : FileTree Name Id Byte) : List Name → Id → Option Id
  | [], d => some d
  | name :: rest, d =>
    match t.find d name with
    | some next => if t.isDirectory next then t.resolve rest next else none
    | none => none

def read (t : FileTree Name Id Byte) (d : Id) (name : Name) : Option (List Byte) :=
  match (t.find d name).bind t with
  | some (.file content) => some content
  | _ => none

def Names (t : FileTree Name Id Byte) (i : Id) : Prop := ∃ d name, t.find d name = some i

variable {t t' : FileTree Name Id Byte} {d i : Id} {name : Name} {entry : Name → Option Id}

theorem find_eq (directory : t d = some (.directory entry)) (name : Name) : t.find d name = entry name := by
  simp only [find, directory]

theorem isDirectory_iff : t.isDirectory i = true ↔ ∃ entry, t i = some (.directory entry) := by
  unfold isDirectory
  split
  next found => simp [found]
  next other => exact ⟨fun no => Bool.noConfusion no, fun ⟨entry, found⟩ => absurd found (other entry)⟩

section
variable [DecidableEq Id] [DecidableEq Name]

def setEntry (t : FileTree Name Id Byte) (d : Id) (name : Name) (i : Option Id) : FileTree Name Id Byte :=
  match t d with
  | some (.directory entry) => Function.update t d (some (.directory (Function.update entry name i)))
  | _ => t

def add (t : FileTree Name Id Byte) (d : Id) (name : Name) (i : Id) (item : Item Name Id Byte) :
    FileTree Name Id Byte :=
  Function.update (t.setEntry d name (some i)) i (some item)

def addDirs : FileTree Name Id Byte → Id → List Name → List Id → FileTree Name Id Byte
  | t, d, name :: names, i :: ids => addDirs (t.add d name i (.directory fun _ => none)) i names ids
  | t, _, _, _ => t

def rewrite (t : FileTree Name Id Byte) (i : Id) (change : List Byte → List Byte) : FileTree Name Id Byte :=
  match t i with
  | some (.file content) => Function.update t i (some (.file (change content)))
  | _ => t

/-- Without that entry `i`, which had names, has none left except in directories
of which the same is true. -/
inductive Lost (t : FileTree Name Id Byte) (d : Id) (name : Name) : Id → Prop where
  | intro {i : Id} : t.Names i → (∀ d' name', (t.setEntry d name none).find d' name' = some i → Lost t d name d') →
      Lost t d name i

open Classical in
/-- An entry is taken out, and with it all that has lost its names by that. A
cycle of directories keeps itself. -/
noncomputable def remove (t : FileTree Name Id Byte) (d : Id) (name : Name) : FileTree Name Id Byte :=
  fun i => if t.Lost d name i then none else t.setEntry d name none i

theorem setEntry_self (directory : t d = some (.directory entry)) (name : Name) (i : Option Id) :
    t.setEntry d name i d = some (.directory (Function.update entry name i)) := by
  simp only [setEntry, directory, Function.update_self]

theorem setEntry_of_ne (other : i ≠ d) (name : Name) (j : Option Id) : t.setEntry d name j i = t i := by
  rcases found : t d with _ | ⟨entry⟩ | ⟨content⟩ <;> simp only [setEntry, found]
  exact Function.update_of_ne other _ _

theorem find_setEntry_self (directory : t d = some (.directory entry)) (name : Name) (i : Option Id) (other : Name) :
    (t.setEntry d name i).find d other = Function.update (t.find d) name i other := by
  rw [find_eq (setEntry_self directory name i)]
  congr 1
  funext name
  rw [find_eq directory]

theorem find_setEntry_of_ne (other : i ≠ d) (name : Name) (j : Option Id) (name' : Name) :
    (t.setEntry d name j).find i name' = t.find i name' := by
  unfold find
  rw [setEntry_of_ne other]

theorem add_self (t : FileTree Name Id Byte) (d : Id) (name : Name) (i : Id) (item : Item Name Id Byte) :
    t.add d name i item i = some item := Function.update_self _ _ _

theorem add_of_ne {j : Id} (other : j ≠ i) (d : Id) (name : Name) (item : Item Name Id Byte) :
    t.add d name i item j = t.setEntry d name (some i) j := Function.update_of_ne other _ _

omit [DecidableEq Name] in
theorem rewrite_self {content : List Byte} (file : t i = some (.file content)) (change : List Byte → List Byte) :
    t.rewrite i change i = some (.file (change content)) := by
  simp only [rewrite, file, Function.update_self]

omit [DecidableEq Name] in
theorem rewrite_of_ne {j : Id} (other : j ≠ i) (change : List Byte → List Byte) : t.rewrite i change j = t j := by
  rcases found : t i with _ | ⟨entry⟩ | ⟨content⟩ <;> simp only [rewrite, found]
  exact Function.update_of_ne other _ _

end

end FileTree
end SoiStud.Library
