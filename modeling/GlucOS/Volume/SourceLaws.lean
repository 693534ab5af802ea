import GlucOS.Gfs.TruthLaws
import GlucOS.Syscall.CopyLaws
import GlucOS.Volume.ReadLaws

/-! Writing a file from the caller's memory is writing the bytes that are there. -/

namespace GlucOS

open Access

/-- The bytes of a buffer in the caller's memory. -/
def Memory.source (mem : Memory) (buf k : Nat) : UInt8 := mem.byte ((buf + k) % 2 ^ 64)

/-! ## Which bytes an array of pointers takes -/

section Count

variable {len : Nat} {buf buf' : Nat → UInt8}

/-- The loop over pointers moves on, up to the length. -/
theorem writePtrs_between (buf : Nat → UInt8) (parr : List Nat) (blocks : Nat → Block)
    (boffset w : Nat) (few : w ≤ len) : w ≤ (writePtrs len buf parr blocks boffset w).2 ∧
      (writePtrs len buf parr blocks boffset w).2 ≤ len := by
  induction parr generalizing blocks boffset w with
  | nil => exact ⟨Nat.le_refl w, few⟩
  | cons ptr parr ih =>
    rw [writePtrs]
    split
    · exact ⟨Nat.le_refl w, few⟩
    · have := ih (Function.update blocks ptr fun byte =>
        if boffset ≤ byte.val ∧ byte.val < boffset + min (blockSize - boffset) (len - w) then
          buf (w + (byte.val - boffset)) else blocks ptr byte) 0
        (w + min (blockSize - boffset) (len - w)) (by omega)
      dsimp only
      omega

/-- It takes no byte of the buffer behind those that it counts. -/
theorem writePtrs_congr (parr : List Nat) (blocks : Nat → Block) (boffset w : Nat) (few : w ≤ len)
    (same : ∀ k < (writePtrs len buf parr blocks boffset w).2, buf' k = buf k) :
    writePtrs len buf' parr blocks boffset w = writePtrs len buf parr blocks boffset w := by
  induction parr generalizing blocks boffset w with
  | nil => rfl
  | cons ptr parr ih =>
    rw [writePtrs] at same
    rw [writePtrs, writePtrs]
    split
    · rfl
    · rename_i valid
      rw [if_neg valid] at same
      dsimp only at same ⊢
      -- The bytes of this block are counted when the loop ends.
      have reaches := (writePtrs_between buf parr (Function.update blocks ptr fun byte =>
        if boffset ≤ byte.val ∧ byte.val < boffset + min (blockSize - boffset) (len - w) then
          buf (w + (byte.val - boffset)) else blocks ptr byte) 0
        (w + min (blockSize - boffset) (len - w))
        (show w + min (blockSize - boffset) (len - w) ≤ len by omega)).1
      have block : (fun byte : Fin blockSize =>
          if boffset ≤ byte.val ∧ byte.val < boffset + min (blockSize - boffset) (len - w) then
            buf' (w + (byte.val - boffset)) else blocks ptr byte) = fun byte =>
          if boffset ≤ byte.val ∧ byte.val < boffset + min (blockSize - boffset) (len - w) then
            buf (w + (byte.val - boffset)) else blocks ptr byte := by
        funext byte
        by_cases here : boffset ≤ byte.val ∧
            byte.val < boffset + min (blockSize - boffset) (len - w)
        · rw [if_pos here, if_pos here]
          exact same _ (by omega)
        · rw [if_neg here, if_neg here]
      rw [block]
      exact ih _ 0 _ (by omega) same

/-- `write_file_on_ptr_arr` writes no more bytes than asked for. -/
theorem writeFileOnPtrArr_le (parr : List Nat) (startPos len : Nat) (buf : Nat → UInt8)
    (blocks : Nat → Block) : (writeFileOnPtrArr parr startPos len buf blocks).2 ≤ len := by
  unfold writeFileOnPtrArr
  split
  · exact Nat.zero_le _
  · exact (writePtrs_between _ _ _ _ _ (Nat.zero_le _)).2

/-- `write_file_on_ptr_arr` takes no byte of the buffer behind those that it counts. -/
theorem writeFileOnPtrArr_congr (buf : Nat → UInt8) {parr : List Nat} {startPos : Nat}
    {blocks : Nat → Block}
    (same : ∀ k < (writeFileOnPtrArr parr startPos len buf blocks).2, buf' k = buf k) :
    writeFileOnPtrArr parr startPos len buf' blocks =
      writeFileOnPtrArr parr startPos len buf blocks := by
  unfold writeFileOnPtrArr at same ⊢
  by_cases none_ : len = 0 ∨ parr.length = 0
  · rw [if_pos none_, if_pos none_]
  · rw [if_neg none_] at same ⊢
    rw [if_neg none_]
    exact writePtrs_congr _ _ _ _ (Nat.zero_le _) same

end Count

/-! ## The stages of `do_write` -/

section Moved

variable {mem : Memory} {buf len pos : Nat}

/-- An array of pointers is filled with the bytes of the buffer. -/
theorem writeFrom_gives {w : Nat} (parr : List Nat) (startPos : Nat) (blocks : Nat → Block)
    (readable : buf ≠ 0 → mem.Readable (buf + w) len) :
    (writeFrom parr startPos len buf w blocks).Gives mem
      (writeFileOnPtrArr parr startPos len (fun k => bufOf buf (mem.source buf) (w + k)) blocks)
      mem := by
  -- As many bytes are read as the pointers take, whatever the bytes are.
  have count := writeFileOnPtrArr_count parr startPos len (fun _ => 0)
    (fun k => bufOf buf (mem.source buf) (w + k)) blocks
  have few := writeFileOnPtrArr_le parr startPos len (fun _ => 0) blocks
  unfold writeFrom
  dsimp only
  by_cases null : buf = 0
  · rw [if_pos null]
    apply Gives.andThen (gives_ret _ mem)
    rw [writeFileOnPtrArr_congr fun k => bufOf buf (mem.source buf) (w + k)]
    · exact gives_ret _ mem
    · intro k _
      rw [bufOf, if_pos null]
      rfl
  · rw [if_neg null]
    have part : mem.Readable (buf + w)
        (writeFileOnPtrArr parr startPos len (fun _ => 0) blocks).2 := fun k below =>
      readable null k (by omega)
    apply Gives.andThen (loadBytes_gives part)
    rw [writeFileOnPtrArr_congr fun k => bufOf buf (mem.source buf) (w + k)]
    · exact gives_ret _ mem
    · intro k below
      rw [← count] at below
      rw [List.getD_eq_getElem?_getD, Memory.getElem?_bytesAt, if_pos below, Option.getD_some,
        bufOf, if_neg null, Memory.source, Nat.add_assoc]

/-- The loop over the double indirect block. -/
theorem writeGroupsFrom_gives (readable : buf ≠ 0 → mem.Readable buf len) (dib : List Nat)
    (i : Nat) (blocks : Nat → Block) (w : Nat) :
    (writeGroupsFrom pos len buf dib i blocks w).Gives mem
      (writeGroups pos len (bufOf buf (mem.source buf)) dib i blocks w) mem := by
  induction dib generalizing i blocks w with
  | nil => exact gives_ret _ mem
  | cons ptr dib ih =>
    rw [writeGroupsFrom, writeGroups]
    by_cases done : len ≤ w ∨ ptr = inodeInvalidPtr
    · rw [if_pos done, if_pos done]
      exact gives_ret _ mem
    · rw [if_neg done, if_neg done]
      split
      · exact gives_ret _ mem
      · apply Gives.andThen (writeFrom_gives _ _ _ fun valid =>
          (readable valid).part (by omega))
        dsimp only
        generalize writeFileOnPtrArr (blocks ptr).ptrs _ (len - w) _ blocks = written
        obtain ⟨next, more⟩ := written
        exact ih _ _ _

/-- The stage that copies the data. -/
theorem writeDataFrom_gives (inode : GfsInode) (blocks : Nat → Block)
    (readable : buf ≠ 0 → mem.Readable buf len) :
    (writeDataFrom inode pos len buf blocks).Gives mem
      (writeData inode pos len (bufOf buf (mem.source buf)) blocks) mem := by
  unfold writeDataFrom writeData
  have first := writeFrom_gives (w := 0) inode.dptr.toList pos blocks readable
  simp only [Nat.zero_add] at first
  apply Gives.andThen first
  generalize writeFileOnPtrArr inode.dptr.toList pos len _ blocks = written1
  obtain ⟨blocks1, w1⟩ := written1
  dsimp only
  by_cases done1 : len ≤ w1
  · rw [if_pos done1, if_pos done1]
    exact gives_ret _ mem
  · rw [if_neg done1, if_neg done1]
    split
    · exact gives_ret _ mem
    · apply Gives.andThen (writeFrom_gives _ _ _ fun valid => (readable valid).part (by omega))
      generalize writeFileOnPtrArr (blocks1 inode.idptr).ptrs _ (len - w1) _ blocks1 = written2
      obtain ⟨blocks2, w2⟩ := written2
      dsimp only
      by_cases done2 : len ≤ w1 + w2
      · rw [if_pos done2, if_pos done2]
        exact gives_ret _ mem
      · rw [if_neg done2, if_neg done2]
        split
        · exact gives_ret _ mem
        · apply Gives.andThen (writeGroupsFrom_gives readable _ _ _ _)
          generalize writeGroups pos len _ _ 0 _ (w1 + w2) = written3
          obtain ⟨next, result⟩ := written3
          cases result with
          | error code => exact gives_ret _ mem
          | ok w => exact gives_ret _ mem

/-- The end of `do_write`. -/
theorem copyDataFrom_gives (fs : Gfs) (fd : Int) (desc : FileDesc)
    (readable : buf ≠ 0 → mem.Readable buf len) :
    (fs.copyDataFrom fd desc len buf).Gives mem
      (some (fs.copyData fd desc len (bufOf buf (mem.source buf)))) mem := by
  unfold Gfs.copyDataFrom Gfs.copyData
  apply Gives.andThen (writeDataFrom_gives _ _ readable)
  dsimp only
  generalize writeData (fs.vol.inodes desc.ino) desc.pos len (bufOf buf (mem.source buf))
    fs.vol.blocks = written
  obtain ⟨blocks, result⟩ := written
  cases result with
  | error code => exact gives_ret _ mem
  | ok w => exact gives_ret _ mem

/-- `do_write` on the caller's memory writes the bytes of the buffer. -/
theorem doWriteFrom_gives (noHeap : Bool) (depth : Nat) (fs : Gfs) (fd : Int)
    (readable : ∀ desc, fs.openFile fd oWronly = some desc → buf < kvaMin → len ≠ 0 → buf ≠ 0 →
      mem.Readable buf (writeLength desc.pos len)) :
    (doWriteFrom noHeap depth fs fd buf len).Gives mem
      (doWrite noHeap (depth + 1) fs fd buf (mem.source buf) len) mem := by
  unfold doWriteFrom
  rw [doWrite]
  cases opened : fs.openFile fd oWronly with
  | none => exact gives_ret _ mem
  | some desc =>
    dsimp only
    by_cases user : kvaMin ≤ buf
    · rw [if_pos user, if_pos user]
      exact gives_ret _ mem
    · rw [if_neg user, if_neg user]
      by_cases none_ : len = 0
      · rw [if_pos none_, if_pos none_]
        exact gives_ret _ mem
      · rw [if_neg none_, if_neg none_]
        have readable := readable desc opened (by omega) none_
        change buf ≠ 0 → mem.Readable buf (min len (uint32Max - desc.pos)) at readable
        generalize min len (uint32Max - desc.pos) = count at readable ⊢
        generalize (if gfsNbytes2blocks (fs.vol.inodes desc.ino).size <
            gfsNbytes2blocks (desc.pos + count) then
          fs.extend desc.ino (gfsNbytes2blocks (desc.pos + count) -
            gfsNbytes2blocks (fs.vol.inodes desc.ino).size) else fs) = grown
        split
        · exact gives_ret _ mem
        · by_cases short : (grown.vol.inodes desc.ino).size < desc.pos
          · -- The padding comes from the kernel, and then the bytes from the caller.
            rw [if_pos short, if_pos short]
            generalize doWrite noHeap depth _ fd 0 (fun _ => 0)
              (desc.pos - (grown.vol.inodes desc.ino).size) = padding
            cases padding with
            | none => exact gives_ret _ mem
            | some result =>
              obtain ⟨rrt, padded⟩ := result
              dsimp only
              split
              · exact gives_ret _ mem
              · exact copyDataFrom_gives padded fd _ readable
          · rw [if_neg short, if_neg short]
            exact copyDataFrom_gives _ fd desc readable

end Moved

end GlucOS
