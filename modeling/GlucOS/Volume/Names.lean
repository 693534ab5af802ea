import GlucOS.Volume.Dir

/-! A directory under the calls that change and search it, and the finite map that it is for. -/

namespace GlucOS

/-! ## The calls -/

/-- A directory whose inode a caller has read. -/
structure DirState where
  /-- GFS. -/
  fs : Gfs
  /-- The caller's inode. -/
  inode : GfsInode

/-- What callers do with a directory. -/
inductive DirEvent
  /-- `GFS_add_dentry`, whose buffer for a block of entries may hold anything. -/
  | add (fname : CharBuf) (ino : Nat) (debbuf : Block)
  /-- `remove_dentry_in_dir_inode`. -/
  | remove (fname : CharBuf)
  /-- `search_dentry_in_dir_inode`. -/
  | search (fname : CharBuf)
  /-- `do_readdir`. -/
  | readdir

/-- One call. -/
def dirStep (dir : DirState) : DirEvent → Option (Int × DirState)
  | .add fname ino debbuf =>
    let (adrt, inode, fs) := addDentry dir.fs dir.inode fname ino debbuf
    some (adrt, ⟨fs, inode⟩)
  | .remove fname =>
    let (rYmr, inode, fs) := removeDentryInDirInode dir.fs dir.inode fname
    some (rYmr, ⟨fs, inode⟩)
  | .search fname =>
    some ((dir.fs.vol.searchDentryInDirInode dir.inode fname).getD dentryInvalidIno, dir)
  | .readdir => some (readdirInode dir.fs.vol dir.inode, dir)

/--
What callers keep to: names are C strings that fit, and are added when they are not found.

Nobody removes "." and "..", as `do_remove` refuses these names.
-/
def DirEvent.Legal (dir : DirState) : DirEvent → Prop
  | .add fname ino _ => (∀ c ∈ fname, c ≠ 0) ∧ fname.length ≤ fnLen ∧ ino < dentryInvalidIno ∧
      dir.fs.vol.searchDentryInDirInode dir.inode fname = none
  | .remove fname => fname.length ≤ fnLen ∧ fname ≠ selfName ∧ fname ≠ parentName
  | .search _ => True
  | .readdir => True

/-! ## What they are for -/

/-- Names, each of which stands for an inode, and the room that is left on the volume. -/
structure NameMap where
  /-- The inode behind each name. -/
  ino : CharBuf → Option Nat
  /-- How many names there are. -/
  count : Nat
  /-- How many blocks are free. -/
  free : Nat

/-- What a call may answer, and what becomes of the names. -/
inductive NameStep : NameMap → DirEvent → Int → NameMap → Prop
  /-- A name is added, for which the directory may have needed blocks. -/
  | added {names : NameMap} {fname : CharBuf} {ino free : Nat} {debbuf : Block} :
    names.count < nDentries → free ≤ names.free →
    NameStep names (.add fname ino debbuf) 0
      ⟨Function.update names.ino fname (some ino), names.count + 1, free⟩
  /-- There are as many names as a directory holds. -/
  | full {names : NameMap} {fname : CharBuf} {ino : Nat} {debbuf : Block} :
    nDentries ≤ names.count → NameStep names (.add fname ino debbuf) 1 names
  /-- No block is left. -/
  | noBlock {names : NameMap} {fname : CharBuf} {ino : Nat} {debbuf : Block} :
    names.count < nDentries → NameStep names (.add fname ino debbuf) 2 { names with free := 0 }
  /-- A name is removed. -/
  | removed {names : NameMap} {fname : CharBuf} {ino : Nat} : names.ino fname = some ino →
    NameStep names (.remove fname) 1
      ⟨Function.update names.ino fname none, names.count - 1, names.free⟩
  /-- There is no such name. -/
  | missed {names : NameMap} {fname : CharBuf} : names.ino fname = none →
    NameStep names (.remove fname) 0 names
  /-- A name is looked up. -/
  | found {names : NameMap} {fname : CharBuf} :
    NameStep names (.search fname) ((names.ino fname).getD dentryInvalidIno) names
  /-- The names are counted. -/
  | counted {names : NameMap} : NameStep names .readdir names.count names

end GlucOS
