import GlucOS.Gfs.FillLaws

/-! Copying data to the blocks of a file: which bytes are written, and how many. -/

namespace GlucOS

/--
Bytes `lo` to `hi` of a file were written.

These are data blocks of it that follow one another, the first of which has number `base`.
-/
structure Wrote (base : Nat) (ds : List Nat) (lo hi : Nat) (buf : Nat → UInt8)
    (blocks next : Nat → Block) : Prop where
  /-- No other block changes. -/
  others : ∀ p, p ∉ ds → next p = blocks p
  /-- Every byte of the range is the new one, and every other byte the old one. -/
  bytes : ∀ d (inside : d < ds.length) (k : Fin blockSize), next ds[d] k =
    if lo ≤ (base + d) * blockSize + k ∧ (base + d) * blockSize + k < hi then
      buf ((base + d) * blockSize + k)
    else blocks ds[d] k

namespace Wrote

variable {base lo hi : Nat} {ds es : List Nat} {buf : Nat → UInt8}
  {blocks mid next : Nat → Block}

/-- Nothing of the range lies in these blocks. -/
theorem nothing
    (outside : hi ≤ lo ∨ hi ≤ base * blockSize ∨ (base + ds.length) * blockSize ≤ lo) :
    Wrote base ds lo hi buf blocks blocks where
  others := fun _ _ => rfl
  bytes := by
    intro d inside k
    rw [if_neg]
    simp only [blockSize] at *
    omega

/-- Blocks that follow are written next. -/
theorem append (first : Wrote base ds lo hi buf blocks mid)
    (second : Wrote (base + ds.length) es lo hi buf mid next) (apart : ∀ p ∈ ds, p ∉ es) :
    Wrote base (ds ++ es) lo hi buf blocks next where
  others := by
    intro p outside
    rw [List.mem_append, not_or] at outside
    rw [second.others p outside.2, first.others p outside.1]
  bytes := by
    intro d inside k
    by_cases here : d < ds.length
    · rw [List.getElem_append_left here, second.others _ (apart _ (List.getElem_mem here)),
        first.bytes d here k]
    · rw [List.length_append] at inside
      have later : d - ds.length < es.length := by omega
      have number : base + ds.length + (d - ds.length) = base + d := by omega
      have unseen : es[d - ds.length] ∉ ds := fun mem => apart _ mem (List.getElem_mem later)
      rw [List.getElem_append_right (by omega), second.bytes _ later k, number,
        first.others _ unseen]

/-- The part of the range before these blocks does not matter. -/
theorem widen {lo' : Nat} {buf' : Nat → UInt8} (wrote : Wrote base ds lo hi buf blocks next)
    (before : lo' = lo ∨ lo' ≤ lo ∧ lo ≤ base * blockSize)
    (same : ∀ x, lo ≤ x → buf' x = buf x) : Wrote base ds lo' hi buf' blocks next where
  others := wrote.others
  bytes := by
    intro d inside k
    have low : base * blockSize ≤ (base + d) * blockSize + k := by
      rw [Nat.add_mul]
      omega
    rw [wrote.bytes d inside k]
    by_cases here : lo ≤ (base + d) * blockSize + k ∧ (base + d) * blockSize + k < hi
    · rw [if_pos here, if_pos (by omega), same _ here.1]
    · rw [if_neg here, if_neg (by omega)]

/-- Only some of the blocks were looked at. -/
theorem part {s e : Nat} (wrote : Wrote (base + s) ((ds.take e).drop s) lo hi buf blocks next)
    (nodup : ds.Nodup) (low : (base + s) * blockSize ≤ lo)
    (high : e < ds.length → hi ≤ (base + e) * blockSize) :
    Wrote base ds lo hi buf blocks next where
  others := by
    intro p outside
    apply wrote.others
    intro mem
    exact outside (List.mem_of_mem_take (List.mem_of_mem_drop mem))
  bytes := by
    intro d inside k
    by_cases here : s ≤ d ∧ d < e
    · have index : d - s < ((ds.take e).drop s).length := by
        simp only [List.length_drop, List.length_take]
        omega
      have bytes := wrote.bytes (d - s) index k
      have number : base + s + (d - s) = base + d := by omega
      have back : s + (d - s) = d := by omega
      simp only [List.getElem_drop, List.getElem_take, number, back] at bytes
      exact bytes
    · have unseen : ds[d] ∉ (ds.take e).drop s := by
        intro mem
        obtain ⟨j, small, is⟩ := List.mem_iff_getElem.mp mem
        simp only [List.length_drop, List.length_take] at small
        rw [List.getElem_drop, List.getElem_take] at is
        have := (List.Nodup.getElem_inj_iff nodup).mp is
        omega
      rw [wrote.others _ unseen, if_neg]
      rintro ⟨above, below⟩
      have bound := k.isLt
      simp only [blockSize] at *
      omega

end Wrote

/-! ## An array of pointers -/

/-- When everything was written the loop changes nothing any more. -/
theorem writePtrs_done {len w : Nat} (buf : Nat → UInt8) (parr : List Nat) (blocks : Nat → Block)
    (boffset : Nat) (done : len ≤ w) : writePtrs len buf parr blocks boffset w = (blocks, w) := by
  have none_ : len - w = 0 := by omega
  induction parr generalizing boffset with
  | nil => rfl
  | cons ptr parr ih =>
    rw [writePtrs]
    split
    · rfl
    · have same : (fun byte : Fin blockSize =>
          if boffset ≤ byte.val ∧ byte.val < boffset + min (blockSize - boffset) (len - w) then
            buf (w + (byte.val - boffset)) else blocks ptr byte) = blocks ptr := by
        funext byte
        rw [if_neg (by omega)]
      dsimp only
      rw [same, Function.update_eq_self, none_, Nat.min_zero, Nat.add_zero]
      exact ih 0

/-- The loop over pointers writes to the valid ones at the beginning. -/
theorem writePtrs_spec (len pos : Nat) (buf : Nat → UInt8) (ds zs : List Nat)
    (none_ : ∀ z ∈ zs, z = inodeInvalidPtr) (valid : ∀ p ∈ ds, p ≠ inodeInvalidPtr)
    (nodup : ds.Nodup) (blocks : Nat → Block) (base boffset w : Nat)
    (place : pos + w = base * blockSize + boffset) (inside : boffset < blockSize)
    (first : boffset = 0 ∨ w = 0) (few : w ≤ len) :
    (writePtrs len buf (ds ++ zs) blocks boffset w).2 =
        w + min (len - w) (ds.length * blockSize - boffset) ∧
      Wrote base ds pos (pos + len) (fun x => buf (x - pos)) blocks
        (writePtrs len buf (ds ++ zs) blocks boffset w).1 := by
  induction ds generalizing blocks base boffset w with
  | nil =>
    have stops : writePtrs len buf ([] ++ zs) blocks boffset w = (blocks, w) := by
      cases zs with
      | nil => rfl
      | cons z zs => exact if_pos (none_ z List.mem_cons_self)
    rw [stops]
    refine ⟨by simp, ⟨fun _ _ => rfl, fun d inside => absurd inside (Nat.not_lt_zero d)⟩⟩
  | cons ptr ds ih =>
    have validRest : ∀ p ∈ ds, p ≠ inodeInvalidPtr := fun p mem =>
      valid p (List.mem_cons_of_mem _ mem)
    rw [List.nodup_cons] at nodup
    obtain ⟨fresh, nodup⟩ := nodup
    rw [List.cons_append, writePtrs, if_neg (valid ptr List.mem_cons_self)]
    dsimp only
    -- The first block holds what is written to it, and what it held elsewhere.
    have wrote : Wrote base [ptr] pos (pos + len) (fun x => buf (x - pos)) blocks
        (Function.update blocks ptr fun byte =>
          if boffset ≤ byte.val ∧ byte.val < boffset + min (blockSize - boffset) (len - w) then
            buf (w + (byte.val - boffset)) else blocks ptr byte) := by
      constructor
      · intro p outside
        rw [Function.update_of_ne (fun same => outside (by simp [same]))]
      · intro d one k
        have zero : d = 0 := by simpa using one
        subst zero
        have bound := k.isLt
        rw [List.getElem_cons_zero, Function.update_self, Nat.add_zero]
        by_cases here : boffset ≤ k.val ∧
            k.val < boffset + min (blockSize - boffset) (len - w)
        · have index : w + (k.val - boffset) = base * blockSize + k - pos := by omega
          rw [if_pos here, if_pos (by omega), index]
        · rw [if_neg here, if_neg (by omega)]
    by_cases enough : len - w ≤ blockSize - boffset
    · -- The data end in this block.
      have all : w + min (blockSize - boffset) (len - w) = len := by omega
      rw [all, writePtrs_done _ _ _ _ (Nat.le_refl len)]
      refine ⟨?_, wrote.append (Wrote.nothing ?_) (by simpa using fresh)⟩
      · rw [List.length_cons, Nat.add_mul]
        omega
      · simp only [List.length_singleton, Nat.add_mul]
        omega
    · have whole : min (blockSize - boffset) (len - w) = blockSize - boffset := by omega
      rw [whole] at wrote ⊢
      obtain ⟨count, rest⟩ := ih validRest nodup _ (base + 1) 0 (w + (blockSize - boffset))
        (by rw [Nat.add_mul]; omega) (by decide) (.inl rfl) (by omega)
      refine ⟨?_, wrote.append rest (by simpa using fresh)⟩
      rw [count, List.length_cons, Nat.add_mul]
      omega

/-- `write_file_on_ptr_arr` for an array whose valid pointers come first. -/
theorem writeFileOnPtrArr_spec {n startPos len pos base : Nat} (buf : Nat → UInt8)
    (ds : List Nat) (some_ : 0 < n) (fits : ds.length ≤ n)
    (valid : ∀ p ∈ ds, p ≠ inodeInvalidPtr) (nodup : ds.Nodup) (blocks : Nat → Block)
    (place : pos = base * blockSize + startPos) (word : startPos + len ≤ uint32Max) :
    (writeFileOnPtrArr (padded ds n) startPos len buf blocks).2 =
        min len (ds.length * blockSize - startPos) ∧
      Wrote base ds pos (pos + len) (fun x => buf (x - pos)) blocks
        (writeFileOnPtrArr (padded ds n) startPos len buf blocks).1 := by
  have length := padded_length fits
  unfold writeFileOnPtrArr
  rw [length]
  by_cases none_ : len = 0
  · rw [if_pos (.inl none_)]
    refine ⟨by simp [none_], Wrote.nothing (.inl ?_)⟩
    omega
  · rw [if_neg (by omega)]
    dsimp only
    have word' : u32 (startPos + len - 1) = startPos + len - 1 := by
      apply Nat.mod_eq_of_lt
      simp only [uint32Max] at word
      omega
    rw [word']
    generalize isEnd : min ((startPos + len - 1) / blockSize) (n - 1) + 1 = e
    -- The pointers that are looked at.
    obtain ⟨zs, looked, noZs⟩ : ∃ zs, ((padded ds n).take e).drop (startPos / blockSize) =
        (ds.take e).drop (startPos / blockSize) ++ zs ∧ ∀ z ∈ zs, z = inodeInvalidPtr := by
      refine ⟨_, by rw [padded, List.take_append, List.drop_append], ?_⟩
      intro z mem
      have mem' : z ∈ List.replicate (n - ds.length) inodeInvalidPtr :=
        List.mem_of_mem_take (List.mem_of_mem_drop mem)
      exact List.eq_of_mem_replicate mem'
    rw [looked]
    have size : ((ds.take e).drop (startPos / blockSize)).length =
        min e ds.length - startPos / blockSize := by
      rw [List.length_drop, List.length_take]
    obtain ⟨count, wrote⟩ := writePtrs_spec len pos buf
      ((ds.take e).drop (startPos / blockSize)) zs noZs
      (fun p mem => valid p (List.mem_of_mem_take (List.mem_of_mem_drop mem)))
      (nodup.sublist ((List.drop_sublist _ _).trans (List.take_sublist _ _))) blocks
      (base + startPos / blockSize) (startPos % blockSize) 0
      (by
        have := Nat.div_add_mod' startPos blockSize
        rw [Nat.add_mul]
        omega)
      (Nat.mod_lt _ (by decide)) (.inr rfl) (Nat.zero_le _)
    refine ⟨?_, wrote.part nodup ?_ ?_⟩
    · rw [count, size]
      simp only [blockSize] at *
      omega
    · have := Nat.div_mul_le_self startPos blockSize
      rw [Nat.add_mul]
      omega
    · intro short
      simp only [blockSize] at *
      omega

/-! ## The double indirect block -/

/-- Rewriting an index block changes nothing. -/
theorem rewrite_index {blocks next : Nat → Block} {ptr : Nat} (same : next ptr = blocks ptr) :
    Function.update next ptr (Block.ofPtrs (blocks ptr).ptrs) = next := by
  rw [Block.ofPtrs_ptrs, ← same, Function.update_eq_self]

/-- The number of the first data block below a pointer of the double indirect block. -/
def groupBase (i : Nat) : Nat := inodeNdptr + (i + 1) * ptrPerBlock

/-- The loop over the pointers of the double indirect block. -/
theorem writeGroups_spec {pos len : Nat} (buf : Nat → UInt8) (word : pos + len ≤ uint32Max)
    (dib : List Nat) (blocks : Nat → Block) (ps : List Nat) (groups : Groups blocks dib ps)
    (nodup : ps.Nodup) (valid : ∀ p ∈ ps, p ≠ inodeInvalidPtr) (i w : Nat) (few : w ≤ len)
    (reached : len ≤ w ∨ ps = [] ∨ groupBase i * blockSize ≤ pos + w) :
    (writeGroups pos len buf dib i blocks w).2 =
        .ok (w + min (len - w)
          ((groupData ps).length * blockSize - (pos + w - groupBase i * blockSize))) ∧
      Wrote (groupBase i) (groupData ps) (pos + w) (pos + len) (fun x => buf (x - pos)) blocks
        (writeGroups pos len buf dib i blocks w).1 := by
  induction dib generalizing blocks ps i w with
  | nil =>
    have none_ : ps = [] := groups
    subst none_
    simp only [writeGroups, groupData, List.length_nil, Nat.zero_mul, Nat.zero_sub, Nat.min_zero,
      Nat.add_zero, true_and]
    exact ⟨fun _ _ => rfl, fun d inside => absurd inside (Nat.not_lt_zero d)⟩
  | cons ptr dib ih =>
    rw [writeGroups]
    by_cases done : len ≤ w
    · rw [if_pos (.inl done)]
      have none_ : len - w = 0 := by omega
      refine ⟨by simp [none_], Wrote.nothing (.inl (by omega))⟩
    · cases ps with
      | nil =>
        rw [if_pos (.inr groups.1)]
        simp only [groupData, List.length_nil, Nat.zero_mul, Nat.zero_sub, Nat.min_zero,
          Nat.add_zero, true_and]
        exact ⟨fun _ _ => rfl, fun d inside => absurd inside (Nat.not_lt_zero d)⟩
      | cons q ps =>
        obtain ⟨rfl, holds, groups⟩ := groups
        rw [List.nodup_cons] at nodup
        obtain ⟨fresh, nodup⟩ := nodup
        have validRest : ∀ p ∈ ps, p ≠ inodeInvalidPtr := fun p mem =>
          valid p (List.mem_cons_of_mem _ mem)
        have base : directBytes + (i + 1) * groupBytes = groupBase i * blockSize := by
          rw [groupBase, directBytes, groupBytes, Nat.add_mul inodeNdptr, Nat.mul_assoc]
        have behind : groupBase i * blockSize ≤ pos + w := by
          rcases reached with all | none_ | behind
          · omega
          · cases none_
          · exact behind
        rw [if_neg (not_or.mpr ⟨done, valid ptr List.mem_cons_self⟩), base,
          if_neg (Nat.not_lt.mpr behind)]
        have next : groupBase (i + 1) = groupBase i + ptrPerBlock := by
          simp only [groupBase, Nat.add_mul, Nat.one_mul]
          omega
        have taken : (ps.take ptrPerBlock).length = min ptrPerBlock ps.length := List.length_take
        obtain ⟨count, wrote⟩ := writeFileOnPtrArr_spec (fun k => buf (w + k)) (ps.take ptrPerBlock)
          (by decide) (List.length_take_le _ _) (fun p mem => validRest p (List.mem_of_mem_take mem))
          (nodup.sublist (List.take_sublist _ _)) blocks
          (Nat.add_sub_cancel' behind).symm (show pos + w - groupBase i * blockSize + (len - w) ≤
            uint32Max by omega)
        rw [← holds] at count wrote
        have all : pos + w + (len - w) = pos + len := by omega
        rw [all] at wrote
        have wrote : Wrote (groupBase i) (ps.take ptrPerBlock) (pos + w) (pos + len)
            (fun x => buf (x - pos)) blocks _ := wrote.widen (.inl rfl) (by
          intro x above
          exact congrArg buf (by omega))
        dsimp only
        generalize writeFileOnPtrArr (blocks ptr).ptrs (pos + w - groupBase i * blockSize) (len - w)
          (fun k => buf (w + k)) blocks = written at count wrote ⊢
        obtain ⟨mid, more⟩ := written
        dsimp only at count wrote ⊢
        have index : mid ptr = blocks ptr :=
          wrote.others ptr fun mem => fresh (List.mem_of_mem_take mem)
        rw [rewrite_index index]
        have parts := nodup
        rw [← List.take_append_drop ptrPerBlock ps, List.nodup_append] at parts
        have groups' : Groups mid dib (ps.drop ptrPerBlock) := by
          apply groups.congr
          intro p mem
          apply wrote.others
          intro taken_
          exact parts.2.2 p taken_ p (groupIndex_subset _ mem) rfl
        -- Either all the data are written, or the group is full, or it is the last one.
        have reached' : len ≤ w + more ∨ ps.drop ptrPerBlock = [] ∨
            groupBase (i + 1) * blockSize ≤ pos + (w + more) := by
          by_cases full : ptrPerBlock ≤ ps.length
          · rw [taken, Nat.min_eq_left full] at count
            rw [next, Nat.add_mul]
            omega
          · exact .inr (.inl (List.drop_eq_nil_of_le (by omega)))
        obtain ⟨count', wrote'⟩ := ih mid (ps.drop ptrPerBlock) groups' parts.2.1
          (fun p mem => validRest p (List.mem_of_mem_drop mem)) (i + 1) (w + more)
          (by omega) reached'
        have few' : more ≤ ptrPerBlock * blockSize - (pos + w - groupBase i * blockSize) := by
          have := Nat.mul_le_mul_right blockSize (List.length_take_le ptrPerBlock ps)
          omega
        constructor
        · rw [count', groupData, List.length_append, Nat.add_mul, next, Nat.add_mul]
          by_cases full : ptrPerBlock ≤ ps.length
          · rw [taken, Nat.min_eq_left full] at count ⊢
            apply congrArg Except.ok
            omega
          · have none_ : ps.drop ptrPerBlock = [] := List.drop_eq_nil_of_le (by omega)
            rw [none_]
            simp only [groupData, List.length_nil, Nat.zero_mul, Nat.zero_sub, Nat.min_zero,
              Nat.add_zero]
            rw [count]
        · rw [groupData]
          apply wrote.append
          · by_cases full : ptrPerBlock ≤ ps.length
            · rw [taken, Nat.min_eq_left full, ← next]
              apply wrote'.widen _ fun _ _ => rfl
              rw [next, Nat.add_mul]
              omega
            · have none_ : ps.drop ptrPerBlock = [] := List.drop_eq_nil_of_le (by omega)
              rw [none_] at wrote' ⊢
              refine ⟨?_, fun d inside => absurd inside (by simp [groupData])⟩
              exact wrote'.others
          · intro p first later
            exact parts.2.2 p first p ((groupData_sublist _).subset later) rfl

/-! ## The whole file -/

/-- How copying ends, for a file with so many pointers and so many bytes in its data blocks. -/
def copyEnd (pointers room pos len : Nat) : Except Int Nat :=
  if len = 0 ∨ pos + len ≤ room then .ok len
  else if pointers ≤ directPtrs then .error (-8)
  else if pointers ≤ indirectPtrs then .error (-9)
  else .ok (min len (room - pos))

/-- Copying writes the range as far as there are data blocks. -/
theorem writeData_spec {inode : GfsInode} {blocks : Nat → Block} {ps : List Nat} {pos len : Nat}
    (buf : Nat → UInt8) (tree : FileTree inode blocks ps) (nodup : ps.Nodup)
    (valid : ∀ p ∈ ps, p ≠ inodeInvalidPtr) (word : pos + len ≤ uint32Max) :
    (writeData inode pos len buf blocks).2 =
        copyEnd ps.length ((dataPtrs ps).length * blockSize) pos len ∧
      Wrote 0 (dataPtrs ps) pos (pos + len) (fun x => buf (x - pos)) blocks
        (writeData inode pos len buf blocks).1 := by
  have nodup1 := nodup.sublist (List.take_sublist inodeNdptr _)
  have length1 : (ps.take inodeNdptr).length = min inodeNdptr ps.length := List.length_take
  obtain ⟨count1, wrote1⟩ := writeFileOnPtrArr_spec buf (ps.take inodeNdptr) (by decide)
    (List.length_take_le _ _) (fun p mem => valid p (List.mem_of_mem_take mem)) nodup1 blocks
    (show pos = 0 * blockSize + pos by omega) word
  rw [← tree.direct] at count1 wrote1
  unfold writeData
  generalize writeFileOnPtrArr inode.dptr.toList pos len buf blocks = written1 at count1 wrote1 ⊢
  obtain ⟨blocks1, w1⟩ := written1
  dsimp only at count1 wrote1 ⊢
  have data : dataPtrs ps = ps.take inodeNdptr ++
      ((ps.drop (directPtrs + 1)).take ptrPerBlock ++ groupData (ps.drop (indirectPtrs + 1))) := by
    rw [dataPtrs, List.append_assoc]
  have nodupData := nodup.sublist (dataPtrs_sublist ps)
  rw [data] at nodupData
  -- Nothing behind the blocks written so far belongs to the range.
  have ends : ∀ {ds es : List Nat} {next : Nat → Block},
      Wrote 0 ds pos (pos + len) (fun x => buf (x - pos)) blocks next → (ds ++ es).Nodup →
      len = 0 ∨ pos + len ≤ ds.length * blockSize →
      Wrote 0 (ds ++ es) pos (pos + len) (fun x => buf (x - pos)) blocks next := by
    intro ds es next wrote apart here
    apply wrote.append (Wrote.nothing (by rw [Nat.zero_add]; omega))
    intro p first later
    exact (List.nodup_append.mp apart).2.2 p first p later rfl
  by_cases done1 : len ≤ w1
  · rw [if_pos done1]
    have here : len = 0 ∨ pos + len ≤ (ps.take inodeNdptr).length * blockSize := by omega
    constructor
    · have enough : len = 0 ∨ pos + len ≤ (dataPtrs ps).length * blockSize := by
        rw [data, List.length_append, Nat.add_mul]
        omega
      rw [copyEnd, if_pos enough, show w1 = len by omega]
    · rw [data]
      exact ends wrote1 nodupData here
  · rw [if_neg done1]
    have second := tree.indirect
    cases rest1 : ps.drop directPtrs with
    | nil =>
      -- There are direct pointers only, and not enough of them.
      have few : ps.length ≤ directPtrs := by
        have := congrArg List.length rest1
        rw [List.length_drop, List.length_nil] at this
        omega
      rw [rest1] at second
      have only : dataPtrs ps = ps.take inodeNdptr := by
        have none1 : ps.drop (directPtrs + 1) = [] := List.drop_eq_nil_of_le (by omega)
        have none2 : ps.drop (indirectPtrs + 1) = [] := by
          apply List.drop_eq_nil_of_le
          simp only [directPtrs, indirectPtrs] at *
          omega
        simp [dataPtrs, none1, none2, groupData]
      rw [if_pos (.inr second), only]
      refine ⟨?_, wrote1⟩
      rw [copyEnd, if_neg (by omega), if_pos few]
    | cons q rs =>
      have many : directPtrs < ps.length := by
        have := congrArg List.length rest1
        rw [List.length_drop, List.length_cons] at this
        omega
      rw [rest1] at second
      obtain ⟨rfl, holds⟩ := second
      have behind1 : ps.drop (directPtrs + 1) = rs := by
        rw [← List.drop_drop, rest1]
        rfl
      -- The direct pointers are all there.
      have enough1 : inodeNdptr ≤ ps.length := Nat.le_of_lt many
      have full1 : (ps.take inodeNdptr).length * blockSize = directBytes := by
        rw [length1, Nat.min_eq_left enough1, directBytes]
      have valid1 : inode.idptr ≠ inodeInvalidPtr :=
        valid _ (List.mem_of_mem_drop (rest1 ▸ List.mem_cons_self))
      have parts := nodup
      rw [← List.take_append_drop inodeNdptr ps, List.nodup_append] at parts
      obtain ⟨-, nodupRest, apart1⟩ := parts
      change (ps.drop directPtrs).Nodup at nodupRest
      rw [rest1, List.nodup_cons] at nodupRest
      obtain ⟨fresh1, nodup2⟩ := nodupRest
      have index1 : blocks1 inode.idptr = blocks inode.idptr := by
        apply wrote1.others
        intro first
        exact apart1 _ first _ (show _ ∈ ps.drop directPtrs from rest1 ▸ List.mem_cons_self) rfl
      have validRs : ∀ p ∈ rs, p ≠ inodeInvalidPtr := fun p mem =>
        valid p (List.mem_of_mem_drop (rest1 ▸ List.mem_cons_of_mem _ mem))
      have length2 : (rs.take ptrPerBlock).length = min ptrPerBlock rs.length := List.length_take
      rw [full1] at count1
      have reached1 : directBytes ≤ pos + w1 := by omega
      rw [if_neg (not_or.mpr ⟨Nat.not_lt.mpr reached1, valid1⟩), index1]
      obtain ⟨count2, wrote2⟩ := writeFileOnPtrArr_spec (fun k => buf (w1 + k))
        (rs.take ptrPerBlock) (by decide) (List.length_take_le _ _)
        (fun p mem => validRs p (List.mem_of_mem_take mem))
        (nodup2.sublist (List.take_sublist _ _)) blocks1
        (show pos + w1 = inodeNdptr * blockSize + (pos + w1 - directBytes) from
          (Nat.add_sub_cancel' reached1).symm)
        (show pos + w1 - directBytes + (len - w1) ≤ uint32Max by omega)
      rw [← holds, show pos + w1 + (len - w1) = pos + len by omega] at wrote2
      rw [← holds] at count2
      generalize writeFileOnPtrArr (blocks inode.idptr).ptrs (pos + w1 - directBytes) (len - w1)
        (fun k => buf (w1 + k)) blocks1 = written2 at count2 wrote2 ⊢
      obtain ⟨blocks2, w2⟩ := written2
      dsimp only at count2 wrote2 ⊢
      have wrote2 : Wrote (0 + (ps.take inodeNdptr).length) (rs.take ptrPerBlock) pos (pos + len)
          (fun x => buf (x - pos)) blocks1 blocks2 := by
        rw [Nat.zero_add, length1, Nat.min_eq_left enough1]
        apply wrote2.widen
        · simp only [directBytes] at reached1 count1
          omega
        · intro x above
          exact congrArg buf (by omega)
      have index2 : blocks2 inode.idptr = blocks inode.idptr := by
        rw [wrote2.others _ fun mem => fresh1 (List.mem_of_mem_take mem), index1]
      rw [rewrite_index index2]
      have apart2 : ∀ p ∈ ps.take inodeNdptr, p ∉ rs.take ptrPerBlock := by
        intro p first second
        exact apart1 p first p (show _ ∈ ps.drop directPtrs from
          rest1 ▸ List.mem_cons_of_mem _ (List.mem_of_mem_take second)) rfl
      have both := wrote1.append wrote2 apart2
      have length12 : (ps.take inodeNdptr ++ rs.take ptrPerBlock).length * blockSize =
          directBytes + (rs.take ptrPerBlock).length * blockSize := by
        rw [List.length_append, Nat.add_mul, full1]
      rw [behind1, ← List.append_assoc] at data nodupData
      by_cases done2 : len ≤ w1 + w2
      · rw [if_pos done2]
        have here : len = 0 ∨ pos + len ≤
            (ps.take inodeNdptr ++ rs.take ptrPerBlock).length * blockSize := by
          rw [length12]
          omega
        constructor
        · have enough : len = 0 ∨ pos + len ≤ (dataPtrs ps).length * blockSize := by
            rw [data, List.length_append, Nat.add_mul]
            omega
          rw [copyEnd, if_pos enough, show w1 + w2 = len by omega]
        · rw [data]
          exact ends both nodupData here
      · rw [if_neg done2]
        have third := tree.double
        cases rest2 : ps.drop indirectPtrs with
        | nil =>
          have few : ps.length ≤ indirectPtrs := by
            have := congrArg List.length rest2
            rw [List.length_drop, List.length_nil] at this
            omega
          rw [rest2] at third
          have only : dataPtrs ps = ps.take inodeNdptr ++ rs.take ptrPerBlock := by
            have none_ : ps.drop (indirectPtrs + 1) = [] := List.drop_eq_nil_of_le (by omega)
            rw [data, none_, groupData, List.append_nil]
          rw [if_pos (show inode.diptr = inodeInvalidPtr from third), only]
          refine ⟨?_, both⟩
          rw [copyEnd, length12, if_neg (by omega), if_neg (Nat.not_le.mpr many), if_pos few]
        | cons c cs =>
          have manyMore : indirectPtrs < ps.length := by
            have := congrArg List.length rest2
            rw [List.length_drop, List.length_cons] at this
            omega
          have enough2 : ptrPerBlock ≤ rs.length := by
            rw [← behind1, List.length_drop]
            simp only [indirectPtrs, directPtrs] at *
            omega
          have below : rs.drop ptrPerBlock = c :: cs := by
            rw [← behind1, List.drop_drop]
            exact rest2
          have behind2 : ps.drop (indirectPtrs + 1) = cs := by
            rw [← List.drop_drop, rest2]
            rfl
          rw [rest2] at third
          obtain ⟨rfl, dib, isDib, groups⟩ := third
          rw [← List.take_append_drop ptrPerBlock rs, below, List.nodup_append] at nodup2
          obtain ⟨-, nodup3, apart3⟩ := nodup2
          rw [List.nodup_cons] at nodup3
          obtain ⟨fresh3, nodup3⟩ := nodup3
          have inRs : ∀ p ∈ inode.diptr :: cs, p ∈ rs := by
            intro p mem
            rw [← below] at mem
            exact List.mem_of_mem_drop mem
          have unseen : ∀ p ∈ inode.diptr :: cs, blocks2 p = blocks p := by
            intro p mem
            rw [wrote2.others p fun second => apart3 p second p mem rfl, wrote1.others]
            intro first
            exact apart1 p first p (show _ ∈ ps.drop directPtrs from
              rest1 ▸ List.mem_cons_of_mem _ (inRs p mem)) rfl
          have groups2 : Groups blocks2 dib cs := groups.congr _ _ fun p mem =>
            unseen p (List.mem_cons_of_mem _ (groupIndex_subset _ mem))
          have full2 : (rs.take ptrPerBlock).length = ptrPerBlock := by
            rw [length2, Nat.min_eq_left enough2]
          rw [full2] at count2 length12
          have start : groupBase 0 * blockSize = directBytes + ptrPerBlock * blockSize := by
            rw [groupBase, directBytes, Nat.zero_add, Nat.one_mul, Nat.add_mul]
          have reached2 : groupBase 0 * blockSize ≤ pos + (w1 + w2) := by
            rw [start]
            omega
          obtain ⟨count3, wrote3⟩ := writeGroups_spec buf word dib blocks2 cs groups2 nodup3
            (fun p mem => validRs p (inRs p (List.mem_cons_of_mem _ mem))) 0 (w1 + w2) (by omega)
            (.inr (.inr reached2))
          have isDib2 : (blocks2 inode.diptr).ptrs = dib := by
            rw [unseen _ List.mem_cons_self, isDib]
          rw [if_neg (validRs _ (inRs _ List.mem_cons_self)), isDib2]
          generalize writeGroups pos len buf dib 0 blocks2 (w1 + w2) = written3 at count3 wrote3 ⊢
          obtain ⟨next, result⟩ := written3
          dsimp only at count3 wrote3
          subst count3
          have index3 : next inode.diptr = blocks2 inode.diptr :=
            wrote3.others _ fun mem => fresh3 ((groupData_sublist _).subset mem)
          dsimp only
          rw [← isDib2, rewrite_index index3]
          have number : 0 + (ps.take inodeNdptr ++ rs.take ptrPerBlock).length = groupBase 0 := by
            rw [List.length_append, length1, Nat.min_eq_left enough1, full2, groupBase]
            omega
          have wrote3 : Wrote (0 + (ps.take inodeNdptr ++ rs.take ptrPerBlock).length)
              (groupData cs) pos (pos + len) (fun x => buf (x - pos)) blocks2 next := by
            rw [number]
            apply wrote3.widen _ fun _ _ => rfl
            rw [start]
            omega
          rw [behind2] at data nodupData
          have all := both.append wrote3 (by
            intro p first later
            exact (List.nodup_append.mp nodupData).2.2 p first p later rfl)
          rw [← data] at all
          refine ⟨?_, all⟩
          have total : (dataPtrs ps).length * blockSize =
              groupBase 0 * blockSize + (groupData cs).length * blockSize := by
            rw [data, List.length_append, Nat.add_mul, length12, start]
          rw [copyEnd, total, if_neg (Nat.not_le.mpr many), if_neg (Nat.not_le.mpr manyMore)]
          split
          · apply congrArg Except.ok
            omega
          · apply congrArg Except.ok
            omega

end GlucOS
