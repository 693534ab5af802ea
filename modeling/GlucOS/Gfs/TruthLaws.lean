import GlucOS.Gfs.FileLaws

/-! Whether the result of `do_write` tells what it has done. -/

namespace GlucOS

/-! ## The end of a write and its padding -/

section Opened

variable {fs : Gfs} {fd : Int} {flag : Nat} {desc : FileDesc}

/-- An open file is in the table of descriptors. -/
theorem Gfs.openFile_fds (opened : fs.openFile fd flag = some desc) :
    fs.fds fd.toNat = some desc := by
  unfold Gfs.openFile at opened
  split at opened
  · cases opened
  · obtain ⟨found, isFound, allowed⟩ := Option.bind_eq_some_iff.mp opened
    split at allowed
    · cases allowed
    · cases allowed
      exact isFound

/-- It stays open when its position changes. -/
theorem Gfs.openFile_putPos (opened : fs.openFile fd flag = some desc) (pos : Nat) :
    (fs.putPos fd desc pos).openFile fd flag = some { desc with pos } := by
  have isFound := Gfs.openFile_fds opened
  unfold Gfs.openFile at opened ⊢
  split at opened
  · cases opened
  · rename_i inside
    rw [isFound, Option.bind_some] at opened
    split at opened
    · cases opened
    · rename_i allowed
      have self : (fs.putPos fd desc pos).fds fd.toNat = some { desc with pos } :=
        Function.update_self _ _ _
      rw [if_neg inside, self, Option.bind_some]
      exact if_neg allowed

/-- Putting back the position it had changes nothing. -/
theorem Gfs.putPos_fds (opened : fs.openFile fd flag = some desc) (pos : Nat) :
    Function.update (fs.putPos fd desc pos).fds fd.toNat (some desc) = fs.fds := by
  rw [Gfs.putPos, Function.update_idem, Function.update_eq_self_iff]
  exact (Gfs.openFile_fds opened).symm

end Opened

/-- What the buffer of a write holds. -/
def bufOf (addr : Nat) (byte : Nat → UInt8) : Nat → UInt8 := if addr = 0 then fun _ => 0 else byte

/-- A write that needs neither blocks nor padding only copies. -/
theorem doWrite_copies {fs : Gfs} {fd : Int} {desc : FileDesc} (noHeap : Bool) (depth : Nat)
    {addr len : Nat} (byte : Nat → UInt8) (opened : fs.openFile fd oWronly = some desc)
    (user : addr < kvaMin) (some_ : len ≠ 0) (word : desc.pos + len ≤ uint32Max)
    (enough : gfsNbytes2blocks (desc.pos + len) ≤ gfsNbytes2blocks (fs.vol.inodes desc.ino).size)
    (near : desc.pos ≤ (fs.vol.inodes desc.ino).size) :
    doWrite noHeap (depth + 1) fs fd addr byte len =
      some (fs.copyData fd desc len (bufOf addr byte)) := by
  have whole : min len (uint32Max - desc.pos) = len := by omega
  rw [doWrite, opened]
  simp only [if_neg (Nat.not_le.mpr user), if_neg some_, whole, if_neg (Nat.not_lt.mpr near),
    Nat.not_lt.mpr enough, false_and, if_false, bufOf]

/-- A file that keeps its pointers and whose size changes. -/
theorem FileOk.resize {fs next : Gfs} {ino size : Nat} {ps : List Nat} (ok : FileOk fs ino ps)
    (inode : next.vol.inodes ino = { fs.vol.inodes ino with size })
    (blocks : next.vol.blocks = fs.vol.blocks) (bitmaps : next.bitmaps = fs.bitmaps)
    (inodeNum : next.vol.inodeNum = fs.vol.inodeNum) (word : size ≤ uint32Max) :
    FileOk next ino ps where
  exists_ := by
    rw [inodeNum]
    exact ok.exists_
  word := by rwa [inode]
  tree := by
    rw [inode, blocks]
    exact ok.tree.congr rfl rfl rfl fun _ _ => rfl
  nodup := ok.nodup
  held := by
    rw [bitmaps]
    exact ok.held

/-- The padding of a file whose size is below the position. -/
theorem doWrite_pads {fs : Gfs} {fd : Int} {desc : FileDesc} {ps : List Nat} (noHeap : Bool)
    (opened : fs.openFile fd oWronly = some desc) (ok : FileOk fs desc.ino ps)
    (short : (fs.vol.inodes desc.ino).size < desc.pos) (word : desc.pos ≤ uint32Max) :
    -- The padding is a write of its own, from the old end to the position.
    let size := (fs.vol.inodes desc.ino).size
    let npd := desc.pos - size
    let mid := (fs.putPos fd desc size).putInode desc.ino
      { fs.vol.inodes desc.ino with size := size + npd }
    ∃ rrt next,
      (∀ depth, doWrite noHeap (depth + 1) mid fd 0 (fun _ => 0) npd = some (rrt, next)) ∧
      Copied fs next desc.ino ps size desc.pos (fun _ => 0) ∧
      next.vol.inodes desc.ino = { fs.vol.inodes desc.ino with size := desc.pos } ∧
      (∀ code, copyEnd ps.length (roomOf ps.length) size npd = .error code →
        rrt = code ∧ next.fds = (fs.putPos fd desc size).fds) ∧
      ∀ w, copyEnd ps.length (roomOf ps.length) size npd = .ok w → rrt = w ∧ next.fds = fs.fds := by
  intro size npd mid
  have ends : size + npd = desc.pos := Nat.add_sub_of_le (Nat.le_of_lt short)
  have isInode : mid.vol.inodes desc.ino = { fs.vol.inodes desc.ino with size := desc.pos } := by
    rw [← ends]
    exact Function.update_self _ _ _
  have isOpen : mid.openFile fd oWronly = some { desc with pos := size } :=
    Gfs.openFile_putPos opened size
  have midOk : FileOk mid desc.ino ps := ok.resize isInode rfl rfl rfl word
  have copies := fun depth => @doWrite_copies _ _ _ noHeap depth 0 _ (fun _ => 0) isOpen (by decide)
    (show npd ≠ 0 by omega) (show size + npd ≤ uint32Max by omega)
    (show gfsNbytes2blocks (size + npd) ≤ gfsNbytes2blocks (mid.vol.inodes desc.ino).size by
      rw [isInode, ends])
    (show size ≤ (mid.vol.inodes desc.ino).size by
      rw [isInode]
      exact Nat.le_of_lt short)
  obtain ⟨copied, failed, done⟩ := @copyData_spec _ { desc with pos := size } _ _ fd
    (bufOf 0 fun _ => 0) midOk (show size + npd ≤ uint32Max by omega)
  have zero : bufOf 0 (fun _ => 0) = fun _ => 0 := rfl
  dsimp only at copied failed done
  rw [zero, ends] at copied done
  rw [zero] at copies failed
  generalize mid.copyData fd { desc with pos := size } npd (fun _ => 0) = out
    at copies copied failed done
  obtain ⟨rrt, next⟩ := out
  refine ⟨rrt, next, copies,
    ⟨copied.wrote, ?_, ?_, ?_, copied.bitmaps, copied.inodeNum, ?_⟩, ?_, ?_, ?_⟩
  · rw [copied.dptr, isInode]
  · rw [copied.idptr, isInode]
  · rw [copied.diptr, isInode]
  · intro other apart
    rw [copied.others other apart]
    exact Function.update_of_ne apart _ _
  · cases result : copyEnd ps.length (roomOf ps.length) size npd with
    | error code => rw [(failed code result).2.2, isInode]
    | ok w => rw [(done w result).2.2, isInode, Nat.max_self]
  · intro code result
    exact ⟨(failed code result).1, (failed code result).2.1⟩
  · intro w result
    refine ⟨(done w result).1, ?_⟩
    rw [(done w result).2.1]
    exact Gfs.putPos_fds opened size

/-! ## What a result says -/

/-- So many bytes of the buffer were written to an open file. -/
structure Written (fs next : Gfs) (fd : Int) (desc : FileDesc) (buf : Nat → UInt8) (w : Nat) :
    Prop where
  /-- The position advances by their number. -/
  pos : next.fds fd.toNat = some { desc with pos := desc.pos + w }
  /-- The file reaches to their end at least. -/
  size : 0 < w → (next.vol.inodes desc.ino).size =
    max (fs.vol.inodes desc.ino).size (desc.pos + w)
  /-- The bytes are in the file. -/
  new : ∀ k < w, next.byteAt desc.ino (desc.pos + k) = some (buf k)
  /-- All other bytes of it stay. -/
  old : ∀ x < (fs.vol.inodes desc.ino).size, x < desc.pos ∨ desc.pos + w ≤ x → ∀ v,
    fs.byteAt desc.ino x = some v → next.byteAt desc.ino x = some v
  /-- Every byte of the file has a block that is allocated. -/
  blocks : ∀ x < (next.vol.inodes desc.ino).size, next.HasBlock desc.ino x

/-- An open file, and the bitmap of blocks, are as before. -/
structure Untouched (fs next : Gfs) (fd : Int) (desc : FileDesc) : Prop where
  /-- The position. -/
  pos : next.fds fd.toNat = fs.fds fd.toNat
  /-- The inode, with the size. -/
  inode : next.vol.inodes desc.ino = fs.vol.inodes desc.ino
  /-- The contents. -/
  contents : ∀ x < (fs.vol.inodes desc.ino).size, next.byteAt desc.ino x = fs.byteAt desc.ino x
  /-- The bitmap. -/
  bits : ∀ b, blockBitmap.isSet next.bitmaps.cache b = blockBitmap.isSet fs.bitmaps.cache b

/-- The result of a write to an open file tells what has happened. -/
def Tells (fs next : Gfs) (fd : Int) (desc : FileDesc) (buf : Nat → UInt8) (result : Int) : Prop :=
  (0 ≤ result → Written fs next fd desc buf result.toNat) ∧
    (result < 0 → Untouched fs next fd desc)

section Copy

variable {fs base : Gfs} {desc : FileDesc} {ps : List Nat}

/-- When the end of a write tells what the whole write has done. -/
theorem copy_tells (fd : Int) (buf : Nat → UInt8) {len : Nat} (ok : FileOk base desc.ino ps)
    (word : desc.pos + len ≤ uint32Max)
    (size : (base.vol.inodes desc.ino).size = max (fs.vol.inodes desc.ino).size desc.pos)
    (old : ∀ x < (fs.vol.inodes desc.ino).size, ∀ v,
      fs.byteAt desc.ino x = some v → base.byteAt desc.ino x = some v) :
    Tells fs (base.copyData fd desc len buf).2 fd desc buf (base.copyData fd desc len buf).1 ↔
      max (fs.vol.inodes desc.ino).size (desc.pos + len) ≤ roomOf ps.length ∨
      0 < len ∧ roomOf ps.length < desc.pos + len ∧ ps.length ≤ indirectPtrs ∧
        Untouched fs (base.copyData fd desc len buf).2 fd desc := by
  obtain ⟨copied, failed, done⟩ := copyData_spec fd buf ok word
  dsimp only at failed done
  -- Only what the copy returns and leaves matters from here on.
  generalize base.copyData fd desc len buf = out at copied failed done ⊢
  obtain ⟨result, next⟩ := out
  dsimp only at copied failed done ⊢
  by_cases fits : len = 0 ∨ desc.pos + len ≤ roomOf ps.length
  · -- All bytes are written, so that only the blocks of the file are in question.
    obtain ⟨rfl, fds, inode⟩ := done len (by rw [copyEnd, if_pos fits])
    have newSize : (next.vol.inodes desc.ino).size =
        max (fs.vol.inodes desc.ino).size (desc.pos + len) := by
      rw [inode]
      dsimp only
      rw [size]
      omega
    have nextWord : (next.vol.inodes desc.ino).size ≤ uint32Max := by
      have baseWord := ok.word
      rw [newSize]
      omega
    have nextOk := copied.ok ok nextWord
    constructor
    · intro tells
      left
      have written := tells.1 (Int.natCast_nonneg len)
      rw [← newSize]
      by_contra beyond
      have last := written.blocks (roomOf ps.length) (Nat.lt_of_not_le beyond)
      rw [nextOk.hasBlock_iff] at last
      exact Nat.lt_irrefl _ last
    · intro either
      have room : max (fs.vol.inodes desc.ino).size (desc.pos + len) ≤ roomOf ps.length := by
        rcases either with room | ⟨some_, beyond, -⟩
        · exact room
        · omega
      refine ⟨fun _ => ?_, fun negative => absurd negative (Int.not_lt.mpr (Int.natCast_nonneg _))⟩
      rw [Int.toNat_natCast]
      constructor
      · rw [fds, Function.update_self]
      · intro _
        exact newSize
      · intro k inside
        have there : desc.pos + k < roomOf ps.length := by omega
        rw [copied.byteAt ok nextWord, if_pos (by omega), ok.byteAt_some (lt_roomOf.mp there),
          Option.map_some, Nat.add_sub_cancel_left]
      · intro x inside outside v byte
        rw [copied.byteAt ok nextWord, if_neg (by omega)]
        exact old x inside v byte
      · intro x inside
        rw [nextOk.hasBlock_iff]
        omega
  · by_cases few : ps.length ≤ indirectPtrs
    · -- An error, which is true when nothing has happened.
      have negative : result < 0 := by
        by_cases direct : ps.length ≤ directPtrs
        · rw [(failed (-8) (by rw [copyEnd, if_neg fits, if_pos direct])).1]
          decide
        · rw [(failed (-9) (by rw [copyEnd, if_neg fits, if_neg direct, if_pos few])).1]
          decide
      constructor
      · intro tells
        right
        exact ⟨by omega, by omega, few, tells.2 negative⟩
      · intro either
        refine ⟨fun positive => absurd negative (Int.not_lt.mpr positive), fun _ => ?_⟩
        rcases either with room | ⟨-, -, -, untouched⟩
        · omega
        · exact untouched
    · -- Fewer bytes are written than the position advances by.
      have many : ¬ ps.length ≤ directPtrs := by
        intro fewer
        have less : directPtrs ≤ indirectPtrs := by decide
        omega
      obtain ⟨rfl, fds, -⟩ := done (min len (roomOf ps.length - desc.pos)) (by
        rw [copyEnd, if_neg fits, if_neg many, if_neg few])
      constructor
      · intro tells
        have written := tells.1 (Int.natCast_nonneg _)
        rw [Int.toNat_natCast] at written
        have pos := written.pos
        rw [fds, Function.update_self, Option.some_inj, FileDesc.mk.injEq] at pos
        omega
      · intro either
        rcases either with room | ⟨-, -, fewer, -⟩
        · omega
        · exact absurd fewer few

end Copy

/-! ## The whole of `do_write` -/

/-- Blocks that a write asks for. -/
def blocksAsked (fs : Gfs) (desc : FileDesc) (len : Nat) : Nat :=
  gfsNbytes2blocks (desc.pos + len) - gfsNbytes2blocks (fs.vol.inodes desc.ino).size

/--
The writes to an open file with so many blocks whose result is true.

Nothing is written, or there is no kernel heap for the blocks, or there are blocks for all of
the file and of what is written. The last case is that of a disk without a free block, where
the file has no gap and the bytes overwritten are the same.
-/
def TrueWrite (noHeap : Bool) (fs : Gfs) (desc : FileDesc) (n addr : Nat) (buf : Nat → UInt8)
    (len : Nat) : Prop :=
  let size := (fs.vol.inodes desc.ino).size
  let len' := min len (uint32Max - desc.pos)
  let asked := blocksAsked fs desc len'
  let granted := min asked (blockBitmap.clear fs.bitmaps).length
  kvaMin ≤ addr ∨
  (len = 0 ∧ size ≤ roomOf n) ∨
  (len ≠ 0 ∧
    ((0 < asked ∧ noHeap = true) ∨
    max size (desc.pos + len') ≤ roomOf (n + granted) ∨
    (0 < len' ∧ desc.pos ≤ size ∧ roomOf n < desc.pos + len' ∧ n ≤ indirectPtrs ∧ granted = 0 ∧
      ∀ x < size, desc.pos ≤ x → ∀ v, fs.byteAt desc.ino x = some v → v = buf (x - desc.pos))))

/-- Doing nothing and saying so. -/
theorem Untouched.refl (fs : Gfs) (fd : Int) (desc : FileDesc) : Untouched fs fs fd desc :=
  ⟨rfl, rfl, fun _ _ => rfl, fun _ => rfl⟩

/-- Writing no byte is true when the file has its blocks. -/
theorem written_nothing {fs : Gfs} {fd : Int} {desc : FileDesc} {ps : List Nat}
    (buf : Nat → UInt8) (opened : fs.fds fd.toNat = some desc) (ok : FileOk fs desc.ino ps) :
    Written fs fs fd desc buf 0 ↔ (fs.vol.inodes desc.ino).size ≤ roomOf ps.length := by
  constructor
  · intro written
    by_contra beyond
    have last := written.blocks (roomOf ps.length) (Nat.lt_of_not_le beyond)
    rw [ok.hasBlock_iff] at last
    exact Nat.lt_irrefl _ last
  · intro room
    constructor
    · rw [opened, Nat.add_zero]
    · intro positive
      exact absurd positive (Nat.lt_irrefl 0)
    · intro k small
      exact absurd small (Nat.not_lt_zero k)
    · intro x _ _ v byte
      exact byte
    · intro x inside
      rw [ok.hasBlock_iff]
      exact Nat.lt_of_lt_of_le inside room

section Stages

variable {fs grown : Gfs} {desc : FileDesc} {ps qs : List Nat} {len : Nat}

/-- A file that grows keeps the bytes it has. -/
theorem Grown.old (isGrown : Grown fs grown desc.ino ps qs) (ok : FileOk fs desc.ino ps)
    {x : Nat} {v : UInt8} (byte : fs.byteAt desc.ino x = some v) :
    grown.byteAt desc.ino x = some v := by
  rw [isGrown.byteAt ok (ok.lt_of_byteAt byte)]
  exact byte

/-- Without padding, the bytes are copied to the file that has grown. -/
theorem grown_copy_tells (fd : Int) (buf : Nat → UInt8) (isGrown : Grown fs grown desc.ino ps qs)
    (ok : FileOk fs desc.ino ps)
    (word : desc.pos + len ≤ uint32Max) (near : desc.pos ≤ (fs.vol.inodes desc.ino).size) :
    Tells fs (grown.copyData fd desc len buf).2 fd desc buf (grown.copyData fd desc len buf).1 ↔
      max (fs.vol.inodes desc.ino).size (desc.pos + len) ≤ roomOf (ps.length + qs.length) ∨
      (0 < len ∧ roomOf ps.length < desc.pos + len ∧ ps.length ≤ indirectPtrs ∧ qs.length = 0 ∧
        ∀ x < (fs.vol.inodes desc.ino).size, desc.pos ≤ x → ∀ v,
          fs.byteAt desc.ino x = some v → v = buf (x - desc.pos)) := by
  have tells := copy_tells fd buf isGrown.ok word (by
    rw [isGrown.size]
    omega) fun x _ v byte => isGrown.old ok byte
  -- Both sides differ in the case of a copy that fails alone.
  rw [tells, List.length_append]
  apply or_congr_right
  have copied := (copyData_spec fd buf isGrown.ok word).1
  have failed := (copyData_spec fd buf isGrown.ok word).2.1
  rw [List.length_append] at failed
  generalize grown.copyData fd desc len buf = out at copied failed ⊢
  obtain ⟨result, next⟩ := out
  dsimp only at copied failed ⊢
  constructor
  · intro parts
    obtain ⟨some_, beyond, few, untouched⟩ := parts
    -- A new pointer would show in the bitmap.
    have none_ : qs = [] := by
      apply List.eq_nil_iff_forall_not_mem.mpr
      intro q mem
      obtain ⟨b, isB, clear⟩ := isGrown.free q mem
      have bit := untouched.bits b
      rw [copied.bitmaps, isGrown.bits, clear, Bool.false_or, ← isB, decide_eq_true mem] at bit
      cases bit
    subst none_
    have nextWord : (next.vol.inodes desc.ino).size ≤ uint32Max := by
      rw [untouched.inode]
      exact ok.word
    refine ⟨some_, beyond, few, rfl, ?_⟩
    intro x inside from_ v byte
    have low := ok.lt_of_byteAt byte
    have same := untouched.contents x inside
    rw [List.length_nil, Nat.add_zero] at beyond
    rw [copied.byteAt isGrown.ok nextWord, if_pos (by omega), isGrown.old ok byte, byte,
      Option.map_some, Option.some_inj] at same
    exact same.symm
  · intro parts
    obtain ⟨some_, beyond, few, none_, same⟩ := parts
    obtain rfl := List.eq_nil_of_length_eq_zero none_
    refine ⟨some_, beyond, few, ?_⟩
    have ends : ∃ code, copyEnd (ps.length + ([] : List Nat).length)
        (roomOf (ps.length + ([] : List Nat).length)) desc.pos len = .error code := by
      rw [List.length_nil, Nat.add_zero, copyEnd, if_neg (by omega)]
      split
      · exact ⟨_, rfl⟩
      · exact ⟨_, rfl⟩
    obtain ⟨code, ends⟩ := ends
    obtain ⟨-, fds, inodes⟩ := failed code ends
    have nextInode : next.vol.inodes desc.ino = fs.vol.inodes desc.ino := by
      rw [inodes, isGrown.nothing rfl]
    constructor
    · rw [fds, isGrown.fds]
    · exact nextInode
    · intro x inside
      rw [copied.byteAt isGrown.ok (by
        rw [nextInode]
        exact ok.word)]
      have whole := isGrown.ok
      rw [List.append_nil] at whole
      rcases Nat.lt_or_ge x (roomOf ps.length) with low | high
      · obtain ⟨v, byte⟩ : ∃ v, fs.byteAt desc.ino x = some v :=
          ⟨_, ok.byteAt_some (lt_roomOf.mp low)⟩
        rw [isGrown.old ok byte, byte]
        split
        · rename_i written
          rw [Option.map_some, same x inside written.1 v byte]
        · rfl
      · have beyondOf : (dataPtrs ps).length ≤ x / blockSize := by
          rw [← Nat.not_lt, ← lt_roomOf]
          exact Nat.not_lt.mpr high
        rw [whole.byteAt_none beyondOf, ok.byteAt_none beyondOf]
        split <;> rfl
    · intro b
      rw [copied.bitmaps, isGrown.bits]
      simp

/-- With padding, they are copied to the file that was padded after it had grown. -/
theorem padded_copy_tells {base : Gfs} (fd : Int) (buf : Nat → UInt8)
    (isGrown : Grown fs grown desc.ino ps qs) (ok : FileOk fs desc.ino ps)
    (word : desc.pos + len ≤ uint32Max) (short : (fs.vol.inodes desc.ino).size < desc.pos)
    (pads : Copied grown base desc.ino (ps ++ qs) (fs.vol.inodes desc.ino).size desc.pos fun _ => 0)
    (inode : base.vol.inodes desc.ino = { grown.vol.inodes desc.ino with size := desc.pos }) :
    Tells fs (base.copyData fd desc len buf).2 fd desc buf (base.copyData fd desc len buf).1 ↔
      max (fs.vol.inodes desc.ino).size (desc.pos + len) ≤ roomOf (ps.length + qs.length) := by
  have isSize : (base.vol.inodes desc.ino).size = desc.pos := by rw [inode]
  have baseWord : (base.vol.inodes desc.ino).size ≤ uint32Max := by
    rw [isSize]
    omega
  -- The padding lies behind the old bytes.
  have old : ∀ x < (fs.vol.inodes desc.ino).size, ∀ v,
      fs.byteAt desc.ino x = some v → base.byteAt desc.ino x = some v := by
    intro x inside v byte
    rw [pads.byteAt isGrown.ok baseWord, if_neg (by omega)]
    exact isGrown.old ok byte
  have tells := copy_tells fd buf (pads.ok isGrown.ok baseWord) word (by
    rw [isSize]
    exact (Nat.max_eq_right (Nat.le_of_lt short)).symm) old
  rw [tells, List.length_append, or_iff_left]
  intro parts
  obtain ⟨-, -, -, untouched⟩ := parts
  -- The size is not what it was.
  have same := congrArg GfsInode.size untouched.inode
  have atLeast : desc.pos ≤ ((base.copyData fd desc len buf).2.vol.inodes desc.ino).size := by
    obtain ⟨-, failed, done⟩ := copyData_spec fd buf (pads.ok isGrown.ok baseWord) word
    cases ends : copyEnd (ps ++ qs).length (roomOf (ps ++ qs).length) desc.pos len with
    | error code =>
      rw [(failed code ends).2.2, isSize]
    | ok w =>
      rw [(done w ends).2.2]
      dsimp only
      omega
  omega

end Stages

/-- Copying that does not reach its end fails, or writes fewer bytes. -/
theorem copyEnd_short {n room pos len : Nat} (unfit : ¬ (len = 0 ∨ pos + len ≤ room)) :
    (∃ code, copyEnd n room pos len = .error code ∧ code < 0) ∨
      ∃ w, copyEnd n room pos len = .ok w ∧ w < len := by
  rw [copyEnd, if_neg unfit]
  -- The return value depends on where the pointers of the file end.
  by_cases direct : n ≤ directPtrs
  · left
    exact ⟨-8, if_pos direct, by decide⟩
  rw [if_neg direct]
  by_cases few : n ≤ indirectPtrs
  · left
    exact ⟨-9, if_pos few, by decide⟩
  · right
    exact ⟨_, if_neg few, by omega⟩

/-- A file is open in a state with the same descriptors. -/
theorem Gfs.openFile_congr {fs next : Gfs} (same : next.fds = fs.fds) (fd : Int) (flag : Nat) :
    next.openFile fd flag = fs.openFile fd flag := by
  rw [Gfs.openFile, Gfs.openFile, same]

/-- How a write to an open file ends, where `len` is what is left of the length asked for. -/
inductive WriteEnd (noHeap : Bool) (fs : Gfs) (fd : Int) (desc : FileDesc) (ps : List Nat)
    (buf : Nat → UInt8) (len : Nat) : Int → Gfs → Prop
  /-- There is no kernel heap for the blocks. -/
  | noHeap : 0 < blocksAsked fs desc len ∧ noHeap = true →
      WriteEnd noHeap fs fd desc ps buf len (-3) fs
  /-- The file may have grown, and the bytes are copied. -/
  | copied {grown : Gfs} {qs : List Nat} :
      qs.length = min (blocksAsked fs desc len) (blockBitmap.clear fs.bitmaps).length →
      Grown fs grown desc.ino ps qs → ¬ (0 < blocksAsked fs desc len ∧ noHeap = true) →
      desc.pos ≤ (fs.vol.inodes desc.ino).size →
      WriteEnd noHeap fs fd desc ps buf len (grown.copyData fd desc len buf).1
        (grown.copyData fd desc len buf).2
  /-- The gap before the position is padded, and then the bytes are copied. -/
  | padded {grown base : Gfs} {qs : List Nat} :
      qs.length = min (blocksAsked fs desc len) (blockBitmap.clear fs.bitmaps).length →
      Grown fs grown desc.ino ps qs → ¬ (0 < blocksAsked fs desc len ∧ noHeap = true) →
      (fs.vol.inodes desc.ino).size < desc.pos →
      Copied grown base desc.ino (ps ++ qs) (fs.vol.inodes desc.ino).size desc.pos (fun _ => 0) →
      base.vol.inodes desc.ino = { grown.vol.inodes desc.ino with size := desc.pos } →
      base.fds = fs.fds →
      WriteEnd noHeap fs fd desc ps buf len (base.copyData fd desc len buf).1
        (base.copyData fd desc len buf).2
  /-- There are no blocks for the gap, but the size is raised to the position. -/
  | gap {grown base : Gfs} {qs : List Nat} {rrt : Int} :
      qs.length = min (blocksAsked fs desc len) (blockBitmap.clear fs.bitmaps).length →
      Grown fs grown desc.ino ps qs → ¬ (0 < blocksAsked fs desc len ∧ noHeap = true) →
      (fs.vol.inodes desc.ino).size < desc.pos → roomOf (ps ++ qs).length < desc.pos →
      Copied grown base desc.ino (ps ++ qs) (fs.vol.inodes desc.ino).size desc.pos (fun _ => 0) →
      base.vol.inodes desc.ino = { grown.vol.inodes desc.ino with size := desc.pos } →
      base.fds = fs.fds ∨ base.fds = (fs.putPos fd desc (fs.vol.inodes desc.ino).size).fds →
      WriteEnd noHeap fs fd desc ps buf len rrt
        (base.writeInode desc.ino (base.vol.inodes desc.ino))

/-- A write that has bytes to write, to an open file, ends in one of these ways. -/
theorem doWrite_ends {fs : Gfs} {fd : Int} {desc : FileDesc} {ps : List Nat} (noHeap : Bool)
    {addr len : Nat} (byte : Nat → UInt8) (opened : fs.openFile fd oWronly = some desc)
    (ok : FileOk fs desc.ino ps) (word : desc.pos ≤ uint32Max) (user : ¬ kvaMin ≤ addr)
    (some_ : len ≠ 0) :
    ∃ result next, (∀ depth, doWrite noHeap (depth + 2) fs fd addr byte len = some (result, next)) ∧
      WriteEnd noHeap fs fd desc ps (bufOf addr byte) (min len (uint32Max - desc.pos))
        result next := by
  generalize isLen : min len (uint32Max - desc.pos) = len'
  have more : gfsNbytes2blocks (fs.vol.inodes desc.ino).size < gfsNbytes2blocks (desc.pos + len') ↔
      0 < blocksAsked fs desc len' := by
    rw [blocksAsked]
    omega
  -- Without heap room for the pointers nothing is written.
  by_cases heap : 0 < blocksAsked fs desc len' ∧ noHeap = true
  · refine ⟨-3, fs, ?_, .noHeap heap⟩
    intro depth
    rw [doWrite, opened]
    dsimp only
    rw [if_neg user, if_neg some_, isLen, if_pos ⟨more.mpr heap.1, heap.2⟩]
  obtain ⟨grown, qs, isState, granted, isGrown⟩ : ∃ grown qs,
      (if gfsNbytes2blocks (fs.vol.inodes desc.ino).size < gfsNbytes2blocks (desc.pos + len') then
        fs.extend desc.ino (blocksAsked fs desc len') else fs) = grown ∧
      qs.length = min (blocksAsked fs desc len') (blockBitmap.clear fs.bitmaps).length ∧
      Grown fs grown desc.ino ps qs := by
    by_cases asks : 0 < blocksAsked fs desc len'
    · obtain ⟨qs, count, isGrown⟩ := extend_grown ok (blocksAsked fs desc len')
      exact ⟨_, qs, if_pos (more.mpr asks), count, isGrown⟩
    · refine ⟨fs, [], if_neg (mt more.mp asks), ?_, Grown.refl ok⟩
      rw [Nat.eq_zero_of_not_pos asks, Nat.zero_min]
      rfl
  have asked : gfsNbytes2blocks (desc.pos + len') -
      gfsNbytes2blocks (fs.vol.inodes desc.ino).size = blocksAsked fs desc len' := rfl
  -- What is left of the call after the file has grown: the gap is padded, or there is none.
  have gap : ∀ depth rrt base, (grown.vol.inodes desc.ino).size < desc.pos →
      doWrite noHeap (depth + 1)
        ((grown.putPos fd desc (grown.vol.inodes desc.ino).size).putInode desc.ino
          { grown.vol.inodes desc.ino with
            size := (grown.vol.inodes desc.ino).size +
              (desc.pos - (grown.vol.inodes desc.ino).size) }) fd 0 (fun _ => 0)
        (desc.pos - (grown.vol.inodes desc.ino).size) = some (rrt, base) →
      doWrite noHeap (depth + 2) fs fd addr byte len =
        if rrt ≠ ((desc.pos - (grown.vol.inodes desc.ino).size : Nat) : Int) then
          some (rrt, base.writeInode desc.ino (base.vol.inodes desc.ino))
        else some (base.copyData fd ((base.fds fd.toNat).getD desc) len' (bufOf addr byte)) := by
    intro depth rrt base short calls
    rw [doWrite, opened]
    dsimp only
    rw [if_neg user, if_neg some_, isLen, if_neg (fun both => heap ⟨more.mp both.1, both.2⟩)]
    rw [asked, isState, if_pos short, calls]
    rfl
  have body : ∀ depth, ¬ (grown.vol.inodes desc.ino).size < desc.pos →
      doWrite noHeap (depth + 2) fs fd addr byte len =
        some (grown.copyData fd desc len' (bufOf addr byte)) := by
    intro depth near
    rw [doWrite, opened]
    dsimp only
    rw [if_neg user, if_neg some_, isLen, if_neg (fun both => heap ⟨more.mp both.1, both.2⟩)]
    rw [asked, isState, if_neg near]
    rfl
  have opened' : grown.openFile fd oWronly = some desc := by
    rw [Gfs.openFile_congr isGrown.fds, opened]
  by_cases short : (fs.vol.inodes desc.ino).size < desc.pos
  · have short' : (grown.vol.inodes desc.ino).size < desc.pos := by rwa [isGrown.size]
    obtain ⟨rrt, base, calls, pads, inode, failed, done⟩ :=
      doWrite_pads noHeap opened' isGrown.ok short' word
    rw [isGrown.size] at calls pads failed done gap
    have whole : (fs.vol.inodes desc.ino).size + (desc.pos - (fs.vol.inodes desc.ino).size) =
        desc.pos := Nat.add_sub_of_le (Nat.le_of_lt short)
    by_cases fits : desc.pos ≤ roomOf (ps ++ qs).length
    · -- The padding succeeds, and the bytes are copied behind it.
      obtain ⟨rfl, fds⟩ := done _ (by
        rw [copyEnd, whole]
        exact if_pos (.inr fits))
      rw [isGrown.fds] at fds
      refine ⟨_, _, ?_, .padded granted isGrown heap short pads inode fds⟩
      intro depth
      rw [gap depth _ _ short (calls depth), if_neg (not_not.mpr rfl), fds,
        Gfs.openFile_fds opened, Option.getD_some]
    · -- The padding fails, but the size stays raised to the position.
      have unfit : ¬ (desc.pos - (fs.vol.inodes desc.ino).size = 0 ∨
          (fs.vol.inodes desc.ino).size + (desc.pos - (fs.vol.inodes desc.ino).size) ≤
            roomOf (ps ++ qs).length) := by
        omega
      obtain ⟨differs, fds⟩ : rrt ≠ ((desc.pos - (fs.vol.inodes desc.ino).size : Nat) : Int) ∧
          (base.fds = fs.fds ∨
            base.fds = (fs.putPos fd desc (fs.vol.inodes desc.ino).size).fds) := by
        rcases copyEnd_short unfit with ⟨code, ends, negative⟩ | ⟨w, ends, fewer⟩
        · obtain ⟨rfl, fds⟩ := failed code ends
          refine ⟨by omega, .inr ?_⟩
          rw [fds, Gfs.putPos, Gfs.putPos, isGrown.fds]
        · obtain ⟨rfl, fds⟩ := done w ends
          refine ⟨by omega, .inl ?_⟩
          rw [fds, isGrown.fds]
      refine ⟨rrt, _, ?_, .gap granted isGrown heap short (Nat.lt_of_not_le fits) pads inode fds⟩
      intro depth
      rw [gap depth _ _ short (calls depth), if_pos differs]
  · refine ⟨_, _, ?_, .copied granted isGrown heap (Nat.le_of_not_lt short)⟩
    intro depth
    exact body depth (by rwa [isGrown.size])

/-- A file whose inode is written as it is. -/
theorem writeInode_same {base : Gfs} {ino : Nat} {ps : List Nat} (ok : FileOk base ino ps) :
    (base.writeInode ino (base.vol.inodes ino)).vol.inodes = base.vol.inodes ∧
      FileOk (base.writeInode ino (base.vol.inodes ino)) ino ps := by
  have self := Gfs.writeInode_inodes base ino (base.vol.inodes ino) ok.exists_
  rw [Function.update_eq_self] at self
  refine ⟨self, ?_⟩
  have word := ok.word
  apply ok.resize (congrFun self ino) <;> simp [word]

/-- The result of a write to an open file is true for these writes alone. -/
theorem doWrite_tells {fs : Gfs} {fd : Int} {desc : FileDesc} {ps : List Nat} (noHeap : Bool)
    (addr : Nat) (byte : Nat → UInt8) (len : Nat) (opened : fs.openFile fd oWronly = some desc)
    (ok : FileOk fs desc.ino ps) (word : desc.pos ≤ uint32Max) :
    ∃ result next, (∀ depth, doWrite noHeap (depth + 2) fs fd addr byte len = some (result, next)) ∧
      (Tells fs next fd desc (bufOf addr byte) result ↔
        TrueWrite noHeap fs desc ps.length addr (bufOf addr byte) len) := by
  -- A pointer of the kernel is refused, and nothing happens.
  by_cases kernel : kvaMin ≤ addr
  · refine ⟨-2, fs, ?_, ?_⟩
    · intro depth
      rw [doWrite, opened]
      exact if_pos kernel
    · apply iff_of_true
      · exact ⟨fun positive => absurd positive (by decide), fun _ => Untouched.refl fs fd desc⟩
      · left
        exact kernel
  by_cases none_ : len = 0
  · refine ⟨0, fs, ?_, ?_⟩
    · intro depth
      rw [doWrite, opened]
      dsimp only
      rw [if_neg kernel, if_pos none_]
    · have tells : Tells fs fs fd desc (bufOf addr byte) 0 ↔
          Written fs fs fd desc (bufOf addr byte) 0 := by
        constructor
        · intro tells
          exact tells.1 (Int.le_refl 0)
        · intro written
          exact ⟨fun _ => written, fun negative => absurd negative (by decide)⟩
      rw [tells, written_nothing _ (Gfs.openFile_fds opened) ok, TrueWrite]
      simp only [kernel, none_, false_or, true_and, ne_eq, not_true_eq_false, false_and, or_false]
  obtain ⟨result, next, calls, ends⟩ := doWrite_ends noHeap byte opened ok word kernel none_
  refine ⟨result, next, calls, ?_⟩
  rw [TrueWrite]
  have word' : desc.pos + min len (uint32Max - desc.pos) ≤ uint32Max := by omega
  generalize min len (uint32Max - desc.pos) = len' at ends word' ⊢
  simp only [kernel, none_, false_or, false_and, ne_eq, not_false_eq_true, true_and]
  cases ends with
  | noHeap heap =>
    apply iff_of_true
    · exact ⟨fun positive => absurd positive (by decide), fun _ => Untouched.refl fs fd desc⟩
    · left
      exact heap
  | copied granted isGrown heap near =>
    rw [grown_copy_tells fd (bufOf addr byte) isGrown ok word' near, ← granted]
    simp only [heap, near, false_or, true_and]
  | padded granted isGrown heap short pads inode fds =>
    have noThird : ¬ desc.pos ≤ (fs.vol.inodes desc.ino).size := Nat.not_le.mpr short
    rw [padded_copy_tells fd (bufOf addr byte) isGrown ok word' short pads inode, ← granted]
    simp only [heap, noThird, false_and, and_false, false_or, or_false]
  | @gap grown base qs _ granted isGrown heap short beyond pads inode fds =>
    have noThird : ¬ desc.pos ≤ (fs.vol.inodes desc.ino).size := Nat.not_le.mpr short
    have baseWord : (base.vol.inodes desc.ino).size ≤ uint32Max := by rwa [inode]
    obtain ⟨self, nextOk⟩ := writeInode_same (pads.ok isGrown.ok baseWord)
    rw [← granted]
    simp only [heap, noThird, false_and, and_false, false_or, or_false]
    apply iff_of_false
    · intro tells
      rcases lt_or_ge result 0 with negative | positive
      · have same := congrArg GfsInode.size (tells.2 negative).inode
        rw [self, inode] at same
        exact Nat.ne_of_gt short same
      · have last := (tells.1 positive).blocks (roomOf (ps ++ qs).length) (by
          rwa [self, inode])
        rw [nextOk.hasBlock_iff] at last
        exact Nat.lt_irrefl _ last
    · rw [List.length_append] at beyond
      omega

/-! ## Files that are well-formed stay so -/

/-- The well-formed files of a state, each with its pointers. -/
structure FilesOk (fs : Gfs) (files : Nat → Option (List Nat)) : Prop where
  /-- Each of them is well-formed. -/
  ok : ∀ ino ps, files ino = some ps → FileOk fs ino ps
  /-- No block belongs to two of them. -/
  apart : ∀ ino ino' ps ps', ino ≠ ino' → files ino = some ps → files ino' = some ps' →
    ∀ p ∈ ps, p ∉ ps'
  /-- Open files are among them. -/
  opened : ∀ fd desc, fs.fds fd = some desc →
    desc.pos ≤ uint32Max ∧ ∃ ps, files desc.ino = some ps

/-- One file has grown by some blocks that were free, and nothing else has changed. -/
structure Grew (fs next : Gfs) (ino : Nat) (ps qs : List Nat) : Prop where
  /-- The file. -/
  ok : FileOk next ino (ps ++ qs)
  /-- The other inodes. -/
  others : ∀ other, other ≠ ino → next.vol.inodes other = fs.vol.inodes other
  /-- Their number. -/
  inodeNum : next.vol.inodeNum = fs.vol.inodeNum
  /-- The blocks of other files. -/
  outside : ∀ p, p ∉ ps ++ qs → next.vol.blocks p = fs.vol.blocks p
  /-- Blocks stay allocated. -/
  bits : ∀ b, blockBitmap.isSet fs.bitmaps.cache b = true →
    blockBitmap.isSet next.bitmaps.cache b = true
  /-- The blocks were free. -/
  free : ∀ q ∈ qs, ∃ b, q = b + gfsDatalocBlock ∧ blockBitmap.isSet fs.bitmaps.cache b = false

/-- Growing and copying, one after the other. -/
theorem Grown.copied {fs grown next : Gfs} {ino lo hi : Nat} {ps qs : List Nat}
    {buf : Nat → UInt8} (isGrown : Grown fs grown ino ps qs)
    (copied : Copied grown next ino (ps ++ qs) lo hi buf)
    (word : (next.vol.inodes ino).size ≤ uint32Max) : Grew fs next ino ps qs where
  ok := copied.ok isGrown.ok word
  others := by
    intro other apart
    rw [copied.others other apart, isGrown.others other apart]
  inodeNum := by rw [copied.inodeNum, isGrown.inodeNum]
  outside := by
    intro p unused
    rw [copied.wrote.others p fun mem => unused ((dataPtrs_sublist _).subset mem),
      isGrown.outside p unused]
  bits := by
    intro b isSet
    rw [copied.bitmaps, isGrown.bits, isSet, Bool.true_or]
  free := isGrown.free

/-- Copying once more. -/
theorem Grew.copied {fs base next : Gfs} {ino lo hi : Nat} {ps qs : List Nat}
    {buf : Nat → UInt8} (grew : Grew fs base ino ps qs)
    (copied : Copied base next ino (ps ++ qs) lo hi buf)
    (word : (next.vol.inodes ino).size ≤ uint32Max) : Grew fs next ino ps qs where
  ok := copied.ok grew.ok word
  others := by
    intro other apart
    rw [copied.others other apart, grew.others other apart]
  inodeNum := by rw [copied.inodeNum, grew.inodeNum]
  outside := by
    intro p unused
    rw [copied.wrote.others p fun mem => unused ((dataPtrs_sublist _).subset mem),
      grew.outside p unused]
  bits := by
    intro b isSet
    rw [copied.bitmaps]
    exact grew.bits b isSet
  free := grew.free

/-- The end of a write leaves the size a 32-bit number. -/
theorem copyData_word {fs : Gfs} {desc : FileDesc} {ps : List Nat} {len : Nat} (fd : Int)
    (buf : Nat → UInt8) (ok : FileOk fs desc.ino ps) (word : desc.pos + len ≤ uint32Max) :
    ((fs.copyData fd desc len buf).2.vol.inodes desc.ino).size ≤ uint32Max ∧
      ∀ i, (fs.copyData fd desc len buf).2.fds i = fs.fds i ∨
        i = fd.toNat ∧ (fs.copyData fd desc len buf).2.fds i =
          some { desc with pos := desc.pos + len } := by
  obtain ⟨-, failed, done⟩ := copyData_spec fd buf ok word
  have old := ok.word
  -- A copy that fails leaves the inode as it was.
  cases ends : copyEnd ps.length (roomOf ps.length) desc.pos len with
  | error code =>
    obtain ⟨-, fds, inodes⟩ := failed code ends
    rw [inodes, fds]
    exact ⟨old, fun _ => .inl rfl⟩
  | ok w =>
    obtain ⟨-, fds, inode⟩ := done w ends
    rw [inode, fds]
    constructor
    · dsimp only
      omega
    · intro i
      by_cases here : i = fd.toNat
      · subst here
        exact .inr ⟨rfl, Function.update_self _ _ _⟩
      · exact .inl (Function.update_of_ne here _ _)

/-- A write to an open file, whatever it answers, makes that file grow at most. -/
theorem WriteEnd.grew {noHeap : Bool} {fs next : Gfs} {fd : Int} {desc : FileDesc}
    {ps : List Nat} {buf : Nat → UInt8} {len : Nat} {result : Int}
    (ends : WriteEnd noHeap fs fd desc ps buf len result next) (ok : FileOk fs desc.ino ps)
    (word : desc.pos + len ≤ uint32Max) :
    ∃ qs, Grew fs next desc.ino ps qs ∧ ∀ i, next.fds i = fs.fds i ∨
      i = fd.toNat ∧ ∃ pos ≤ uint32Max, next.fds i = some { desc with pos } := by
  -- A copy moves the position of this descriptor alone.
  have copies : ∀ {base : Gfs} {qs : List Nat}, FileOk base desc.ino (ps ++ qs) →
      base.fds = fs.fds → ∀ i,
        (base.copyData fd desc len buf).2.fds i = fs.fds i ∨
        i = fd.toNat ∧ ∃ pos ≤ uint32Max,
          (base.copyData fd desc len buf).2.fds i = some { desc with pos } := by
    intro base qs baseOk fds i
    rcases (copyData_word fd buf baseOk word).2 i with same | ⟨here, new⟩
    · left
      rw [same, fds]
    · right
      exact ⟨here, _, word, new⟩
  cases ends with
  | noHeap heap =>
    refine ⟨[], ⟨?_, fun _ _ => rfl, rfl, fun _ _ => rfl, fun _ isSet => isSet, ?_⟩,
      fun _ => .inl rfl⟩
    · rwa [List.append_nil]
    · intro q mem
      cases mem
  | @copied grown qs granted isGrown heap near =>
    exact ⟨qs, isGrown.copied (copyData_spec fd buf isGrown.ok word).1
      (copyData_word fd buf isGrown.ok word).1, copies isGrown.ok isGrown.fds⟩
  | @padded grown base qs granted isGrown heap short pads inode fds =>
    have grew : Grew fs base desc.ino ps qs := isGrown.copied pads (by
      rw [inode]
      dsimp only
      omega)
    exact ⟨qs, grew.copied (copyData_spec fd buf grew.ok word).1
      (copyData_word fd buf grew.ok word).1, copies grew.ok fds⟩
  | @gap grown base qs _ granted isGrown heap short beyond pads inode fds =>
    have grew : Grew fs base desc.ino ps qs := isGrown.copied pads (by
      rw [inode]
      dsimp only
      omega)
    obtain ⟨self, nextOk⟩ := writeInode_same grew.ok
    refine ⟨qs, ⟨nextOk, ?_, ?_, ?_, ?_, grew.free⟩, ?_⟩
    · rw [self]
      exact grew.others
    · rw [Gfs.writeInode_inodeNum, grew.inodeNum]
    · rw [Gfs.writeInode_blocks]
      exact grew.outside
    · rw [Gfs.writeInode_bitmaps]
      exact grew.bits
    · intro i
      rw [Gfs.writeInode_fds]
      rcases fds with fds | fds
      · left
        rw [fds]
      · rw [fds, Gfs.putPos]
        by_cases here : i = fd.toNat
        · right
          refine ⟨here, (fs.vol.inodes desc.ino).size, ok.word, ?_⟩
          rw [here]
          exact Function.update_self _ _ _
        · left
          exact Function.update_of_ne here _ _

/-- A state stays well-formed when one file grows by blocks that were free. -/
theorem FilesOk.grew {fs next : Gfs} {files : Nat → Option (List Nat)} {fd ino : Nat}
    {ps qs : List Nat} (ok : FilesOk fs files) (isFile : files ino = some ps)
    (grew : Grew fs next ino ps qs)
    (fds : ∀ i, next.fds i = fs.fds i ∨
      i = fd ∧ ∃ desc : FileDesc, desc.ino = ino ∧ desc.pos ≤ uint32Max ∧
        next.fds i = some desc) :
    FilesOk next (Function.update files ino (some (ps ++ qs))) := by
  -- A block of another file was allocated, so that it is none of the new ones.
  have clear : ∀ other rs, other ≠ ino → files other = some rs → ∀ p ∈ rs, p ∉ ps ++ qs := by
    intro other rs apart isOther p mem both
    rcases List.mem_append.mp both with old | new
    · exact ok.apart other ino rs ps apart isOther isFile p mem old
    · obtain ⟨b, -, isSet, isB⟩ := (ok.ok other rs isOther).held p mem
      obtain ⟨b', isB', free⟩ := grew.free p new
      obtain rfl : b = b' := by omega
      rw [isSet] at free
      cases free
  constructor
  · intro other rs isOther
    by_cases here : other = ino
    · subst here
      rw [Function.update_self, Option.some_inj] at isOther
      subst isOther
      exact grew.ok
    · rw [Function.update_of_ne here] at isOther
      have old := ok.ok other rs isOther
      constructor
      · rw [grew.inodeNum]
        exact old.exists_
      · rw [grew.others other here]
        exact old.word
      · rw [grew.others other here]
        apply old.tree.congr rfl rfl rfl
        intro p index
        apply grew.outside
        apply clear other rs here isOther
        exact (dataPtrs_perm rs).mem_iff.mp (List.mem_append_right _ index)
      · exact old.nodup
      · intro p mem
        obtain ⟨b, small, isSet, isB⟩ := old.held p mem
        exact ⟨b, small, grew.bits b isSet, isB⟩
  · intro one other rs rs' apart isOne isOther p mem
    by_cases here : one = ino
    · subst here
      rw [Function.update_self, Option.some_inj] at isOne
      rw [Function.update_of_ne (Ne.symm apart)] at isOther
      subst isOne
      intro both
      exact clear other rs' (Ne.symm apart) isOther p both mem
    · rw [Function.update_of_ne here] at isOne
      by_cases there : other = ino
      · subst there
        rw [Function.update_self, Option.some_inj] at isOther
        subst isOther
        exact clear one rs here isOne p mem
      · rw [Function.update_of_ne there] at isOther
        exact ok.apart one other rs rs' apart isOne isOther p mem
  · intro i desc isOpen
    rcases fds i with same | ⟨-, new, isIno, pos, isNew⟩
    · rw [same] at isOpen
      obtain ⟨pos, rs, isOther⟩ := ok.opened i desc isOpen
      refine ⟨pos, ?_⟩
      by_cases here : desc.ino = ino
      · exact ⟨_, by rw [here, Function.update_self]⟩
      · exact ⟨rs, by rw [Function.update_of_ne here, isOther]⟩
    · rw [isNew, Option.some_inj] at isOpen
      subst isOpen
      exact ⟨pos, _, by rw [isIno, Function.update_self]⟩

/-- Every write leaves the files well-formed, whatever it answers. -/
theorem doWrite_keeps {noHeap : Bool} {depth : Nat} {fs next : Gfs}
    {files : Nat → Option (List Nat)} {fd : Int} {addr len : Nat} {byte : Nat → UInt8}
    {result : Int} (ok : FilesOk fs files)
    (call : doWrite noHeap (depth + 2) fs fd addr byte len = some (result, next)) :
    ∃ files', FilesOk next files' := by
  cases opened : fs.openFile fd oWronly with
  | none =>
    rw [doWrite, opened] at call
    cases call
    exact ⟨files, ok⟩
  | some desc =>
    by_cases idle : kvaMin ≤ addr ∨ len = 0
    · rw [doWrite, opened] at call
      dsimp only at call
      by_cases kernel : kvaMin ≤ addr
      · rw [if_pos kernel] at call
        cases call
        exact ⟨files, ok⟩
      · rw [if_neg kernel, if_pos (idle.resolve_left kernel)] at call
        cases call
        exact ⟨files, ok⟩
    · rw [not_or] at idle
      obtain ⟨word, ps, isFile⟩ := ok.opened _ desc (Gfs.openFile_fds opened)
      obtain ⟨result', next', calls, ends⟩ :=
        doWrite_ends noHeap byte opened (ok.ok _ ps isFile) word idle.1 idle.2
      rw [calls depth] at call
      cases call
      obtain ⟨qs, grew, fds⟩ := ends.grew (ok.ok _ ps isFile) (by omega)
      refine ⟨_, @FilesOk.grew _ _ _ fd.toNat _ _ _ ok isFile grew ?_⟩
      intro i
      rcases fds i with same | ⟨here, pos, isWord, new⟩
      · exact .inl same
      · exact .inr ⟨here, { desc with pos }, rfl, isWord, new⟩

/-- The result of `do_write` tells what has happened, also when no file is open for writing. -/
def WriteTells (fs next : Gfs) (fd : Int) (buf : Nat → UInt8) (result : Int) : Prop :=
  match fs.openFile fd oWronly with
  | none => result = -1 ∧ next = fs
  | some desc => Tells fs next fd desc buf result

/-- The result of `do_write` is true for these writes alone. -/
theorem do_write_true_iff (noHeap : Bool) (fs : Gfs) (fd : Int) (addr : Nat)
    (byte : Nat → UInt8) (len : Nat) (ps : List Nat)
    (ok : ∀ desc, fs.openFile fd oWronly = some desc →
      FileOk fs desc.ino ps ∧ desc.pos ≤ uint32Max) :
    ∃ result next, (∀ depth, doWrite noHeap (depth + 2) fs fd addr byte len = some (result, next)) ∧
      (WriteTells fs next fd (bufOf addr byte) result ↔
        ∀ desc, fs.openFile fd oWronly = some desc →
          TrueWrite noHeap fs desc ps.length addr (bufOf addr byte) len) := by
  unfold WriteTells
  cases opened : fs.openFile fd oWronly with
  | none =>
    refine ⟨-1, fs, ?_, ?_⟩
    · intro depth
      rw [doWrite, opened]
    · apply iff_of_true
      · exact ⟨rfl, rfl⟩
      · intro desc same
        cases same
  | some desc =>
    obtain ⟨fileOk, word⟩ := ok desc opened
    obtain ⟨result, next, calls, tells⟩ := doWrite_tells noHeap addr byte len opened fileOk word
    refine ⟨result, next, calls, ?_⟩
    dsimp only
    rw [tells]
    constructor
    · intro good other same
      cases same
      exact good
    · intro good
      exact good desc rfl

/-- An empty file, open at a position, on a disk with such a bitmap. -/
def emptyFile (word : BitVec 64) (pos : Nat) : Gfs where
  vol :=
    { inodeNum := 2
      inodes := fun _ => { nlink := 1, type := .file, size := 0, dptr := Vector.replicate _ 0,
                           idptr := 0, diptr := 0 }
      blocks := fun _ _ => 0 }
  inodesOnDisk := fun _ => { nlink := 1, type := .file, size := 0, dptr := Vector.replicate _ 0,
                             idptr := 0, diptr := 0 }
  bitmaps := ⟨fun _ _ => word, fun _ _ => word⟩
  fds := fun i => if i = 0 then some { ino := 1, oflags := 3, pos } else none

/-- It is a well-formed file. -/
theorem emptyFile_ok (word : BitVec 64) (pos : Nat) : FileOk (emptyFile word pos) 1 [] where
  exists_ := Nat.lt_succ_self 1
  word := Nat.zero_le _
  tree := ⟨by rfl, rfl, rfl⟩
  nodup := List.nodup_nil
  held := by
    intro p mem
    cases mem

/-- Writing to it when the disk is empty. -/
theorem do_write_true_empty : ∃ result next,
    (∀ depth, doWrite false (depth + 2) (emptyFile 0 0) 0 1 (fun _ => 65) 1 = some (result, next)) ∧
      WriteTells (emptyFile 0 0) next 0 (bufOf 1 fun _ => 65) result := by
  obtain ⟨result, next, calls, tells⟩ :=
    do_write_true_iff false (emptyFile 0 0) 0 1 (fun _ => 65) 1 [] (by
      intro desc opened
      cases opened
      exact ⟨emptyFile_ok 0 0, by decide⟩)
  refine ⟨result, next, calls, tells.mpr ?_⟩
  intro desc opened
  cases opened
  have clear : (blockBitmap.clear (emptyFile 0 0).bitmaps).length = 262144 := by
    have all : blockBitmap.clear (emptyFile 0 0).bitmaps = List.range blockBitmap.bits := by
      apply List.filter_eq_self.mpr
      intro b _
      simp [SecRange.isSet, SectorBuf.bit, emptyFile]
    rw [all, List.length_range, blockBitmap_bits]
  right
  right
  refine ⟨by decide, ?_⟩
  right
  left
  rw [clear]
  decide

/-- With a full disk and a gap before the position, the call fails and has changed the size. -/
theorem do_write_fails_padding :
    ¬ ∀ (noHeap : Bool) (fs : Gfs) (fd : Int) (addr : Nat) (byte : Nat → UInt8) (len : Nat)
      (ps : List Nat), (∀ desc, fs.openFile fd oWronly = some desc →
        FileOk fs desc.ino ps ∧ desc.pos ≤ uint32Max) →
      ∀ result next, doWrite noHeap 2 fs fd addr byte len = some (result, next) →
        WriteTells fs next fd (bufOf addr byte) result := by
  intro claim
  have opened : (emptyFile (BitVec.allOnes 64) 1).openFile 0 oWronly =
      some { ino := 1, oflags := 3, pos := 1 } := by rfl
  obtain ⟨result, next, calls, tells⟩ := doWrite_tells false 1 (fun _ => 65) 1 opened
    (emptyFile_ok _ _) (by decide)
  have said := claim false (emptyFile (BitVec.allOnes 64) 1) 0 1 (fun _ => 65) 1 [] (by
    intro desc same
    rw [opened] at same
    cases same
    exact ⟨emptyFile_ok _ _, by decide⟩) result next (calls 0)
  unfold WriteTells at said
  rw [opened] at said
  have clear : blockBitmap.clear (emptyFile (BitVec.allOnes 64) 1).bitmaps = [] := by
    apply List.filter_eq_nil_iff.mpr
    intro b _
    have isSet : blockBitmap.isSet (emptyFile (BitVec.allOnes 64) 1).bitmaps.cache b = true := by
      change (BitVec.allOnes 64).getMsbD (b % secBits % 64) = true
      rw [BitVec.getMsbD_allOnes, decide_eq_true (Nat.mod_lt _ (by decide))]
    rw [isSet]
    decide
  have good := tells.mp said
  unfold TrueWrite at good
  rw [clear] at good
  rcases good with kernel | nothing | ⟨-, heap | room | ⟨-, near, -⟩⟩
  · exact absurd kernel (by decide)
  · exact absurd nothing.1 (by decide)
  · exact absurd heap.2 (by decide)
  · exact absurd room (by decide)
  · exact absurd near (by decide)

end GlucOS
