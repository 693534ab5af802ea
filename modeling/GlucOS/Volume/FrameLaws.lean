import GlucOS.Gfs.CountLaws

/-! What writing to a file leaves as it was: kinds and links of inodes, and the other bitmap. -/

namespace GlucOS

/-- Inodes are of the same kind, with as many links, and only the block bitmap may differ. -/
structure SameKinds (fs next : Gfs) : Prop where
  /-- Files stay files, and directories stay directories. -/
  type : ∀ ino, (next.vol.inodes ino).type = (fs.vol.inodes ino).type
  /-- No links come or go. -/
  nlink : ∀ ino, (next.vol.inodes ino).nlink = (fs.vol.inodes ino).nlink
  /-- Sectors of other bitmaps. -/
  others : ∀ sidx, ¬ blockBitmap.has sidx → next.bitmaps.cache sidx = fs.bitmaps.cache sidx ∧
    next.bitmaps.disk sidx = fs.bitmaps.disk sidx

section Kinds

variable {fs mid next : Gfs}

/-- Nothing changes. -/
theorem SameKinds.refl (fs : Gfs) : SameKinds fs fs where
  type := fun _ => rfl
  nlink := fun _ => rfl
  others := fun _ _ => ⟨rfl, rfl⟩

/-- One step after the other. -/
theorem SameKinds.trans (first : SameKinds fs mid) (second : SameKinds mid next) :
    SameKinds fs next where
  type := fun ino => (second.type ino).trans (first.type ino)
  nlink := fun ino => (second.nlink ino).trans (first.nlink ino)
  others := by
    intro sidx outside
    rw [(second.others sidx outside).1, (second.others sidx outside).2]
    exact first.others sidx outside

/-- An inode is exchanged for one of its kind. -/
theorem SameKinds.update {ino : Nat} {inode : GfsInode}
    (inodes : next.vol.inodes = Function.update fs.vol.inodes ino inode)
    (type : inode.type = (fs.vol.inodes ino).type)
    (nlink : inode.nlink = (fs.vol.inodes ino).nlink)
    (others : ∀ sidx, ¬ blockBitmap.has sidx →
      next.bitmaps.cache sidx = fs.bitmaps.cache sidx ∧
        next.bitmaps.disk sidx = fs.bitmaps.disk sidx) : SameKinds fs next where
  type := by
    intro other
    rw [inodes]
    by_cases here : other = ino
    · rw [here, Function.update_self, type]
    · rw [Function.update_of_ne here]
  nlink := by
    intro other
    rw [inodes]
    by_cases here : other = ino
    · rw [here, Function.update_self, nlink]
    · rw [Function.update_of_ne here]
  others := others

/-- Neither blocks nor descriptors matter. -/
theorem SameKinds.putBlocks (fs : Gfs) (blocks : Nat → Block) :
    SameKinds fs (fs.putBlocks blocks) :=
  ⟨fun _ => rfl, fun _ => rfl, fun _ _ => ⟨rfl, rfl⟩⟩

/-- So does moving a descriptor. -/
theorem SameKinds.putPos (fs : Gfs) (fd : Int) (desc : FileDesc) (pos : Nat) :
    SameKinds fs (fs.putPos fd desc pos) :=
  ⟨fun _ => rfl, fun _ => rfl, fun _ _ => ⟨rfl, rfl⟩⟩

/-- An inode is written with the same kind. -/
theorem SameKinds.writeInode {ino : Nat} {inode : GfsInode}
    (type : inode.type = (fs.vol.inodes ino).type)
    (nlink : inode.nlink = (fs.vol.inodes ino).nlink) :
    SameKinds fs (fs.writeInode ino inode) := by
  unfold Gfs.writeInode
  by_cases beyond : ino ≥ fs.vol.inodeNum
  · rw [if_pos beyond]
    exact .refl fs
  · rw [if_neg beyond]
    exact .update rfl type nlink fun _ _ => ⟨rfl, rfl⟩

end Kinds

/-- Pointers that are filled in do not change the kind. -/
theorem fillInode_kind (inode : GfsInode) (blocks : Nat → Block) (aptr : List Nat) :
    (fillInode inode blocks aptr).1.type = inode.type ∧
      (fillInode inode blocks aptr).1.nlink = inode.nlink := by
  -- Each of the three stages changes one pointer field only.
  have double : ∀ (inode : GfsInode) (blocks : Nat → Block) (aptr : List Nat),
      (fillDouble inode blocks aptr).1.type = inode.type ∧
        (fillDouble inode blocks aptr).1.nlink = inode.nlink := by
    intro inode blocks aptr
    cases aptr with
    | nil => exact ⟨rfl, rfl⟩
    | cons q aptr =>
      unfold fillDouble
      dsimp only
      split <;> exact ⟨rfl, rfl⟩
  have indirect : ∀ (inode : GfsInode) (blocks : Nat → Block) (aptr : List Nat),
      (fillIndirect inode blocks aptr).1.type = inode.type ∧
        (fillIndirect inode blocks aptr).1.nlink = inode.nlink := by
    intro inode blocks aptr
    cases aptr with
    | nil => exact ⟨rfl, rfl⟩
    | cons q aptr =>
      unfold fillIndirect
      dsimp only
      split <;> exact ⟨rfl, rfl⟩
  unfold fillInode
  dsimp only
  generalize direct : fillDirect inode aptr = first
  have kind : first.1.type = inode.type ∧ first.1.nlink = inode.nlink := by
    rw [← direct]
    exact ⟨rfl, rfl⟩
  have second := indirect first.1 blocks first.2
  generalize fillIndirect first.1 blocks first.2 = mid at *
  have third := double mid.1 mid.2.1 mid.2.2
  exact ⟨third.1.trans (second.1.trans kind.1), third.2.trans (second.2.trans kind.2)⟩

/-- The stage of `do_write` that allocates. -/
theorem extend_kinds (fs : Gfs) (ino n : Nat) : SameKinds fs (fs.extend ino n) := by
  have takes := gfsAllocInBitmap_takes blockBitmap n fs.bitmaps
  unfold Gfs.extend
  generalize gfsAllocInBitmap n blockBitmap fs.bitmaps = granted at *
  dsimp only
  have kind := fillInode_kind (fs.vol.inodes ino) fs.vol.blocks
    (granted.2.map fun ptr => ptr + gfsDatalocBlock)
  generalize fillInode (fs.vol.inodes ino) fs.vol.blocks
    (granted.2.map fun ptr => ptr + gfsDatalocBlock) = filled at *
  exact .update rfl kind.1 kind.2 takes.outside

/-- The end of `do_write`. -/
theorem copyData_kinds (fs : Gfs) (fd : Int) (desc : FileDesc) (len : Nat) (buf : Nat → UInt8) :
    SameKinds fs (fs.copyData fd desc len buf).2 := by
  unfold Gfs.copyData
  dsimp only
  generalize writeData (fs.vol.inodes desc.ino) desc.pos len buf fs.vol.blocks = data
  obtain ⟨blocks, ended⟩ := data
  cases ended with
  | error code => exact .putBlocks fs blocks
  | ok w =>
    dsimp only
    exact ((SameKinds.putBlocks fs blocks).trans (.putPos _ fd desc _)).trans
      (.writeInode rfl rfl)

/-- `do_write`, whatever comes of it. -/
theorem doWrite_kinds (noHeap : Bool) (depth : Nat) :
    ∀ {fs next : Gfs} {fd : Int} {addr len : Nat} {byte : Nat → UInt8} {out : Int},
      doWrite noHeap depth fs fd addr byte len = some (out, next) → SameKinds fs next := by
  -- The padding is a call of its own, to which the same applies.
  induction depth with
  | zero =>
    intro fs next fd addr len byte out done
    cases done
  | succ depth ih =>
    intro fs next fd addr len byte out done
    rw [doWrite] at done
    cases opened : fs.openFile fd oWronly with
    | none =>
      rw [opened] at done
      cases done
      exact .refl fs
    | some desc =>
      rw [opened] at done
      dsimp only at done
      split at done
      · cases done
        exact .refl fs
      split at done
      · cases done
        exact .refl fs
      split at done
      · cases done
        exact .refl fs
      · generalize gfsNbytes2blocks (desc.pos + min len (uint32Max - desc.pos)) = asked at done
        have extended : SameKinds fs (if gfsNbytes2blocks (fs.vol.inodes desc.ino).size < asked
            then fs.extend desc.ino (asked - gfsNbytes2blocks (fs.vol.inodes desc.ino).size)
            else fs) := by
          split
          · exact extend_kinds fs _ _
          · exact .refl fs
        generalize (if gfsNbytes2blocks (fs.vol.inodes desc.ino).size < asked
            then fs.extend desc.ino (asked - gfsNbytes2blocks (fs.vol.inodes desc.ino).size)
            else fs) = grown at done extended
        refine extended.trans ?_
        split at done
        · have resized : SameKinds grown ((grown.putPos fd desc
              (grown.vol.inodes desc.ino).size).putInode desc.ino
                { grown.vol.inodes desc.ino with size := (grown.vol.inodes desc.ino).size +
                    (desc.pos - (grown.vol.inodes desc.ino).size) }) :=
            .update rfl rfl rfl fun _ _ => ⟨rfl, rfl⟩
          refine resized.trans ?_
          split at done
          · cases done
          · rename_i rrt padded_ padding
            refine (ih padding).trans ?_
            split at done
            · cases done
              exact .writeInode rfl rfl
            · rw [Option.some_inj, Prod.mk.injEq] at done
              rw [← done.2]
              exact copyData_kinds _ _ _ _ _
        · rw [Option.some_inj, Prod.mk.injEq] at done
          rw [← done.2]
          exact copyData_kinds _ _ _ _ _

end GlucOS
