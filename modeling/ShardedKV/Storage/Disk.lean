import Mathlib.Data.List.Basic
import Mathlib.Tactic.Common

/-!
# Files

A directory gives names to inodes, and a descriptor is an inode with an offset of its own.  Renaming
moves the name and leaves the inode alone.  An inode that has lost its name is still there for the
descriptors that have it.
-/

namespace ShardedKV.Storage

variable {Name Byte : Type}

/-- Every name leads to an inode, and no two names to the same one. -/
structure Disk (Name Byte : Type) where
  directory : Name → Option Nat
  contents : List (List Byte)
  valid : ∀ name inode, directory name = some inode → inode < contents.length
  single : ∀ name other inode, directory name = some inode → directory other = some inode → name = other

structure Descriptor where
  inode : Nat
  offset : Nat := 0
deriving DecidableEq, Repr

namespace Disk

def empty : Disk Name Byte where
  directory := fun _ => none
  contents := []
  valid := by simp
  single := by simp

def file (disk : Disk Name Byte) (inode : Nat) : List Byte := disk.contents[inode]?.getD []

/-- What is read under a name. -/
def read (disk : Disk Name Byte) (name : Name) : Option (List Byte) := (disk.directory name).map disk.file

/-- The bytes of a file after a write; a gap before the offset is filled with zeros. -/
def overwrite [Zero Byte] (offset : Nat) (data file : List Byte) : List Byte :=
  file.take offset ++ List.replicate (offset - file.length) 0 ++ data ++ file.drop (offset + data.length)

def write [Zero Byte] (disk : Disk Name Byte) (descriptor : Descriptor) (data : List Byte) : Disk Name Byte where
  directory := disk.directory
  contents := disk.contents.modify descriptor.inode (overwrite descriptor.offset data)
  valid := by simpa using disk.valid
  single := disk.single

/-- One write after the other through a descriptor. -/
def writeAll [Zero Byte] (disk : Disk Name Byte) (descriptor : Descriptor) : List (List Byte) → Disk Name Byte
  | [] => disk
  | data :: more =>
    writeAll (disk.write descriptor data) { descriptor with offset := descriptor.offset + data.length } more

/-! ## Writes -/

section Write

variable [Zero Byte] {disk : Disk Name Byte} {inode : Nat} {data : List Byte} {descriptor : Descriptor}

theorem file_write_of_ne (apart : inode ≠ descriptor.inode) :
    (disk.write descriptor data).file inode = disk.file inode := by
  simp [write, file, apart.symm]

theorem file_write_end {name : Name} (named : disk.directory name = some descriptor.inode)
    (atEnd : descriptor.offset = (disk.file descriptor.inode).length) :
    (disk.write descriptor data).file descriptor.inode = disk.file descriptor.inode ++ data := by
  have inside := disk.valid name _ named
  simp only [file, List.getElem?_eq_getElem inside, Option.getD_some] at atEnd
  simp [write, file, List.getElem?_eq_getElem inside, overwrite, atEnd]

theorem read_writeAll {name : Name} {chunks : List (List Byte)} (named : disk.directory name = some descriptor.inode)
    (atEnd : descriptor.offset = (disk.file descriptor.inode).length) :
    (disk.writeAll descriptor chunks).read name = some (disk.file descriptor.inode ++ chunks.flatten) := by
  induction chunks generalizing disk descriptor with
  | nil => simp [writeAll, read, named]
  | cons data more inductionHypothesis =>
    have grown : (disk.write descriptor data).file descriptor.inode = disk.file descriptor.inode ++ data :=
      file_write_end named atEnd
    have named' : (disk.write descriptor data).directory name = some descriptor.inode := named
    rw [writeAll, inductionHypothesis (by exact named') (by simp [grown, atEnd]), grown, List.flatten_cons,
      List.append_assoc]

end Write

/-! ## What is left alone -/

/-- Every name that is not touched leads to the same bytes as before. -/
def Keeps (disk : Disk Name Byte) (touched : Name → Prop) (disk' : Disk Name Byte) : Prop :=
  ∀ name, ¬ touched name → disk'.directory name = disk.directory name ∧
    ∀ inode, disk.directory name = some inode → disk'.file inode = disk.file inode

section Keeps

variable {disk disk' : Disk Name Byte} {touched : Name → Prop} {name : Name}

theorem Keeps.refl : disk.Keeps touched disk := fun _ _ => ⟨rfl, fun _ _ => rfl⟩

theorem Keeps.read (keeps : disk.Keeps touched disk') (apart : ¬ touched name) : disk'.read name = disk.read name := by
  obtain ⟨same, bytes⟩ := keeps name apart
  cases found : disk.directory name with
  | none => simp [Disk.read, same, found]
  | some inode => simp [Disk.read, same, found, bytes inode found]

theorem keeps_write [Zero Byte] {descriptor : Descriptor} {data : List Byte} (touches : touched name)
    (named : disk.directory name = some descriptor.inode) : disk.Keeps touched (disk.write descriptor data) := by
  intro other apart
  refine ⟨rfl, fun inode found => file_write_of_ne ?_⟩
  rintro rfl
  exact apart (disk.single _ _ _ found named ▸ touches)

end Keeps

/-! ## Names -/

variable [DecidableEq Name]

/-- A new empty file takes the name. -/
def make (disk : Disk Name Byte) (name : Name) : Disk Name Byte where
  directory := fun other => if other = name then some disk.contents.length else disk.directory other
  contents := disk.contents ++ [[]]
  valid := by
    intro other inode found
    have old := disk.valid other inode
    rw [List.length_append, List.length_singleton]
    grind
  single := by
    intro one other inode found found'
    have old := disk.valid one inode
    have old' := disk.valid other inode
    have single := disk.single one other inode
    grind

/-- An existing file is cut to length zero in its place. -/
def create (disk : Disk Name Byte) (name : Name) : Disk Name Byte × Nat :=
  match disk.directory name with
  | some inode =>
    ({ disk with
        contents := disk.contents.set inode []
        valid := by simpa using disk.valid }, inode)
  | none => (disk.make name, disk.contents.length)

/-- The inode of the old name takes the new one.  It is assumed that both names are on one file system, so that this
does not fail.  Without a file of the old name nothing happens. -/
def rename (disk : Disk Name Byte) (old new : Name) : Disk Name Byte where
  directory := fun name =>
    if (disk.directory old).isNone then disk.directory name
    else if name = new then disk.directory old
    else if name = old then none
    else disk.directory name
  contents := disk.contents
  valid := by
    intro name inode found
    have valid := disk.valid name inode
    have moved := disk.valid old inode
    grind
  single := by
    intro one other inode found found'
    have single := disk.single one other inode
    have moved := disk.single one old inode
    have moved' := disk.single other old inode
    grind

/-! ## What the operations do to a file -/

section Operations

variable {disk : Disk Name Byte} {name old : Name} {inode : Nat}

@[simp] theorem directory_make : (disk.make name).directory name = some disk.contents.length := by
  simp [make]

@[simp] theorem file_make : (disk.make name).file disk.contents.length = [] := by
  simp [make, file]

theorem directory_create : (disk.create name).1.directory name = some (disk.create name).2 := by
  cases found : disk.directory name <;> simp [create, found]

theorem file_create : (disk.create name).1.file (disk.create name).2 = [] := by
  cases found : disk.directory name with
  | none => simp [create, found]
  | some inode => simp [create, found, file, disk.valid name inode found]

theorem directory_rename (found : disk.directory old = some inode) :
    (disk.rename old name).directory name = some inode := by
  simp [rename, found]

@[simp] theorem file_rename : (disk.rename old name).file = disk.file := rfl

end Operations

section Keeps

variable {disk : Disk Name Byte} {touched : Name → Prop} {name old : Name}

theorem keeps_make (touches : touched name) : disk.Keeps touched (disk.make name) := by
  intro other apart
  have different : other ≠ name := by
    rintro rfl
    exact apart touches
  refine ⟨by simp [make, different], fun inode found => ?_⟩
  simp [make, file, List.getElem?_append_left (disk.valid other inode found)]

theorem keeps_create (touches : touched name) : disk.Keeps touched (disk.create name).1 := by
  cases found : disk.directory name with
  | none =>
    simp only [create, found]
    exact keeps_make touches
  | some inode =>
    intro other apart
    refine ⟨by simp [create, found], fun inode' found' => ?_⟩
    have different : inode ≠ inode' := by
      rintro rfl
      exact apart (disk.single _ _ _ found' found ▸ touches)
    simp [create, found, file, different]

theorem keeps_rename (touchesOld : touched old) (touchesNew : touched name) :
    disk.Keeps touched (disk.rename old name) := by
  intro other apart
  have notOld : other ≠ old := by
    rintro rfl
    exact apart touchesOld
  have notNew : other ≠ name := by
    rintro rfl
    exact apart touchesNew
  exact ⟨by simp [rename, notOld, notNew], fun _ _ => rfl⟩

end Keeps

end Disk

end ShardedKV.Storage
