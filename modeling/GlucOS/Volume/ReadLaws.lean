import GlucOS.Gfs.FileLaws
import GlucOS.Volume.Transfer

/-! Reading a file: which bytes reach the caller's memory. -/

namespace GlucOS

open Access

/-! ## Bytes of data blocks -/

/-- The byte at a position of some data blocks. -/
def blockByte (blocks : Nat → Block) (ds : List Nat) (x : Nat) : UInt8 :=
  (blocks (ds.getD (x / blockSize) inodeInvalidPtr)).byte (x % blockSize)

/-- So many bytes from a position on. -/
def blockBytes (blocks : Nat → Block) (ds : List Nat) (pos count : Nat) : List UInt8 :=
  (List.range count).map fun k => blockByte blocks ds (pos + k)

section Bytes

variable {blocks : Nat → Block} {ds es : List Nat} {pos count : Nat}

/-- There are as many as asked for. -/
@[simp] theorem blockBytes_length : (blockBytes blocks ds pos count).length = count := by
  rw [blockBytes, List.length_map, List.length_range]

/-- No bytes are none. -/
@[simp] theorem blockBytes_zero : blockBytes blocks ds pos 0 = [] := rfl

/-- Bytes are equal when each of them is. -/
theorem blockBytes_congr {pos' : Nat}
    (same : ∀ k < count, blockByte blocks ds (pos + k) = blockByte blocks es (pos' + k)) :
    blockBytes blocks ds pos count = blockBytes blocks es pos' count := by
  apply List.map_congr_left
  intro k mem
  exact same k (List.mem_range.mp mem)

/-- Bytes follow one another. -/
theorem blockBytes_add (more : Nat) : blockBytes blocks ds pos (count + more) =
    blockBytes blocks ds pos count ++ blockBytes blocks ds (pos + count) more := by
  rw [blockBytes, List.range_add, List.map_append, List.map_map]
  congr 1
  apply List.map_congr_left
  intro k _
  simp only [Function.comp_apply]
  rw [Nat.add_assoc]

/-- A byte of the first blocks. -/
theorem blockByte_left {x : Nat} (inside : x < ds.length * blockSize) :
    blockByte blocks (ds ++ es) x = blockByte blocks ds x := by
  have index : x / blockSize < ds.length := Nat.div_lt_of_lt_mul (by rwa [Nat.mul_comm])
  rw [blockByte, blockByte, List.getD_append _ _ _ _ index]

/-- A byte of the blocks behind them. -/
theorem blockByte_right (ds : List Nat) (x : Nat) :
    blockByte blocks (ds ++ es) (ds.length * blockSize + x) = blockByte blocks es x := by
  have index : (ds.length * blockSize + x) / blockSize = ds.length + x / blockSize := by
    rw [Nat.add_comm, Nat.add_mul_div_right _ _ (by decide), Nat.add_comm]
  have rest : (ds.length * blockSize + x) % blockSize = x % blockSize := by
    rw [Nat.add_comm, Nat.add_mul_mod_self_right]
  rw [blockByte, blockByte, index, rest, List.getD_append_right _ _ _ _ (Nat.le_add_right _ _),
    Nat.add_sub_cancel_left]

/-- Bytes come from the first blocks as far as these go, and then from those behind them. -/
theorem blockBytes_split : blockBytes blocks (ds ++ es) pos count =
    blockBytes blocks ds pos (min count (ds.length * blockSize - pos)) ++
      blockBytes blocks es (pos + min count (ds.length * blockSize - pos) - ds.length * blockSize)
        (count - min count (ds.length * blockSize - pos)) := by
  generalize isSize : ds.length * blockSize = size
  generalize isFirst : min count (size - pos) = first
  rw [show count = first + (count - first) by omega, blockBytes_add]
  congr 1
  · apply blockBytes_congr
    intro k below
    exact blockByte_left (by omega)
  · rw [show first + (count - first) - first = count - first by omega]
    apply blockBytes_congr
    intro k below
    have index : pos + first + k = ds.length * blockSize + (pos + first - size + k) := by omega
    rw [index, blockByte_right]

/-- Only some of the blocks were looked at. -/
theorem blockBytes_part {s e : Nat} (start : s = pos / blockSize)
    (few : count ≤ ((ds.take e).drop s).length * blockSize - pos % blockSize) :
    blockBytes blocks ((ds.take e).drop s) (pos % blockSize) count =
      blockBytes blocks ds pos count := by
  apply blockBytes_congr
  intro k below
  have whole := Nat.div_add_mod pos blockSize
  have index : (pos + k) / blockSize = s + (pos % blockSize + k) / blockSize := by
    rw [start, ← Nat.mul_add_div (by decide), ← Nat.add_assoc, whole]
  have rest : (pos + k) % blockSize = (pos % blockSize + k) % blockSize := by
    rw [Nat.mod_add_mod]
  have inside : (pos % blockSize + k) / blockSize < ((ds.take e).drop s).length :=
    Nat.div_lt_of_lt_mul (by rw [Nat.mul_comm]; omega)
  rw [blockByte, blockByte, index, rest]
  congr 2
  rw [List.length_drop, List.length_take] at inside
  generalize (pos % blockSize + k) / blockSize = d at inside ⊢
  rw [List.getD_eq_getElem?_getD, List.getD_eq_getElem?_getD, List.getElem?_drop,
    List.getElem?_take_of_lt (by omega)]

end Bytes

/-! ## An array of pointers -/

/-- The loop over pointers reads the valid ones at the beginning. -/
theorem readPtrs_spec {len : Nat} (blocks : Nat → Block) (ds zs : List Nat)
    (none_ : ∀ z ∈ zs, z = inodeInvalidPtr) (valid : ∀ p ∈ ds, p ≠ inodeInvalidPtr)
    (boffset r : Nat) (inside : boffset < blockSize) :
    readPtrs len blocks (ds ++ zs) boffset r =
      blockBytes blocks ds boffset (min (len - r) (ds.length * blockSize - boffset)) := by
  -- The induction follows the blocks, each of which is read from its beginning but the first.
  induction ds generalizing boffset r with
  | nil =>
    rw [List.nil_append, List.length_nil, Nat.zero_mul, Nat.zero_sub, Nat.min_zero,
      blockBytes_zero]
    cases zs with
    | nil => rfl
    | cons z zs => rw [readPtrs, if_pos (none_ z List.mem_cons_self)]
  | cons ptr ds ih =>
    have here := valid ptr List.mem_cons_self
    have size : (ptr :: ds).length * blockSize = ds.length * blockSize + blockSize := by
      rw [List.length_cons, Nat.add_mul, Nat.one_mul]
    have one : [ptr].length * blockSize = blockSize := by rw [List.length_singleton, Nat.one_mul]
    rw [List.cons_append, readPtrs, if_neg here]
    dsimp only
    rw [ih (fun p mem => valid p (List.mem_cons_of_mem _ mem)) 0 _ (by decide),
      ← List.singleton_append (l := ds), blockBytes_split, one, List.singleton_append, size]
    generalize isCount : min (len - r) (ds.length * blockSize + blockSize - boffset) = count
    generalize isMore : min (blockSize - boffset) (len - r) = more
    have first : min count (blockSize - boffset) = more := by omega
    rw [first]
    refine congrArg₂ (fun here later => here ++ later) ?_ ?_
    · -- The first block, from the offset on.
      apply List.map_congr_left
      intro k mem
      have below := List.mem_range.mp mem
      rw [blockByte, Nat.div_eq_of_lt (by omega), Nat.mod_eq_of_lt (by omega)]
      rfl
    · by_cases done : count - more = 0
      · rw [done, show min (len - (r + more)) (ds.length * blockSize - 0) = 0 by omega,
          blockBytes_zero, blockBytes_zero]
      · rw [show boffset + more - blockSize = 0 by omega,
          show min (len - (r + more)) (ds.length * blockSize - 0) = count - more by omega]

/-- `read_file_on_ptr_arr` for an array whose valid pointers come first. -/
theorem readFileOnPtrArr_spec {n startPos len : Nat} (blocks : Nat → Block) (ds : List Nat)
    (some_ : 0 < n) (fits : ds.length ≤ n) (valid : ∀ p ∈ ds, p ≠ inodeInvalidPtr)
    (word : startPos + len ≤ uint32Max) :
    readFileOnPtrArr (padded ds n) startPos len blocks =
      blockBytes blocks ds startPos (min len (ds.length * blockSize - startPos)) := by
  unfold readFileOnPtrArr
  rw [padded_length fits]
  by_cases none_ : len = 0
  · rw [if_pos (.inl none_), none_, Nat.zero_min]
    rfl
  · rw [if_neg (by omega)]
    dsimp only
    have word' : u32 (startPos + len - 1) = startPos + len - 1 := by
      apply Nat.mod_eq_of_lt
      simp only [uint32Max] at word
      omega
    rw [word']
    generalize isEnd : min ((startPos + len - 1) / blockSize) (n - 1) + 1 = e
    -- The pointers that are looked at, without those that lead nowhere.
    have looked : ((padded ds n).take e).drop (startPos / blockSize) =
        (ds.take e).drop (startPos / blockSize) ++
          ((List.replicate (n - ds.length) inodeInvalidPtr).take (e - ds.length)).drop
            (startPos / blockSize - (ds.take e).length) := by
      rw [padded, List.take_append, List.drop_append]
    have size : ((ds.take e).drop (startPos / blockSize)).length =
        min e ds.length - startPos / blockSize := by
      rw [List.length_drop, List.length_take]
    rw [looked, readPtrs_spec blocks _ _
      (fun z mem => List.eq_of_mem_replicate (List.mem_of_mem_take (List.mem_of_mem_drop mem)))
      (fun p mem => valid p (List.mem_of_mem_take (List.mem_of_mem_drop mem))) _ _
      (Nat.mod_lt _ (by decide)), blockBytes_part rfl (Nat.min_le_right _ _), size]
    apply congrArg (blockBytes blocks ds startPos)
    simp only [blockSize] at *
    omega

/-! ## The whole file -/

section Moved

variable {mem : Memory} {buf len pos : Nat} {blocks : Nat → Block}

/-- The loop over the pointers of the double indirect block. -/
theorem readGroups_gives (word : pos + len ≤ uint32Max) (dib ps : List Nat)
    (groups : Groups blocks dib ps) (valid : ∀ p ∈ ps, p ≠ inodeInvalidPtr) (i r : Nat)
    (readable : mem.Readable buf len) (few : r ≤ len)
    (reached : len ≤ r ∨ groupBase i * blockSize ≤ pos + r)
    (enough : len ≤ r ∨ pos + len ≤ (groupBase i + (groupData ps).length) * blockSize) :
    (readGroups pos len buf blocks dib i r).Gives mem len
      (mem.put (buf + r)
        (blockBytes blocks (groupData ps) (pos + r - groupBase i * blockSize) (len - r))) := by
  -- The induction follows the double indirect block, one group of data blocks after the other.
  induction dib generalizing mem ps i r with
  | nil =>
    have none_ : ps = [] := groups
    subst none_
    have done : r = len := by
      rw [groupData, List.length_nil, Nat.add_zero] at enough
      omega
    rw [readGroups, if_pos done, done, Nat.sub_self]
    exact gives_ret _ mem
  | cons ptr dib ih =>
    rw [readGroups]
    by_cases done : len ≤ r
    · rw [if_pos (.inl done), if_pos (show r = len by omega), show len - r = 0 by omega,
        show r = len by omega]
      exact gives_ret _ mem
    · have behind : groupBase i * blockSize ≤ pos + r := by omega
      cases ps with
      | nil =>
        exfalso
        rw [groupData, List.length_nil, Nat.add_zero] at enough
        omega
      | cons q ps =>
        obtain ⟨rfl, holds, groups⟩ := groups
        have validRest : ∀ p ∈ ps, p ≠ inodeInvalidPtr := fun p mem =>
          valid p (List.mem_cons_of_mem _ mem)
        have base : directBytes + (i + 1) * groupBytes = groupBase i * blockSize := by
          rw [groupBase, directBytes, groupBytes, Nat.add_mul inodeNdptr, Nat.mul_assoc]
        have next : groupBase (i + 1) = groupBase i + ptrPerBlock := by
          simp only [groupBase, Nat.add_mul, Nat.one_mul]
          omega
        have taken : (ps.take ptrPerBlock).length = min ptrPerBlock ps.length := List.length_take
        rw [if_neg (not_or.mpr ⟨done, valid ptr List.mem_cons_self⟩), base,
          if_neg (Nat.not_lt.mpr behind), holds, readFileOnPtrArr_spec blocks _ (by decide)
            (List.length_take_le _ _) (fun p mem => validRest p (List.mem_of_mem_take mem))
            (show pos + r - groupBase i * blockSize + (len - r) ≤ uint32Max by omega)]
        dsimp only
        rw [blockBytes_length, groupData, blockBytes_split]
        rw [groupData, List.length_append] at enough
        generalize isMore : min (len - r) ((ps.take ptrPerBlock).length * blockSize -
          (pos + r - groupBase i * blockSize)) = more
        have few' : r + more ≤ len := by omega
        apply Gives.andThen (storeBytes_gives (by
          rw [blockBytes_length]
          exact readable.part few'))
        rw [Memory.put_append, blockBytes_length, Nat.add_assoc]
        have readable' : (mem.put (buf + r) (blockBytes blocks (ps.take ptrPerBlock)
            (pos + r - groupBase i * blockSize) more)).Readable buf len :=
          (Memory.readable_put _).mpr readable
        generalize mem.put (buf + r) (blockBytes blocks (ps.take ptrPerBlock)
          (pos + r - groupBase i * blockSize) more) = mem' at readable' ⊢
        have distributes : (groupBase i + (ps.take ptrPerBlock).length) * blockSize =
            groupBase i * blockSize + (ps.take ptrPerBlock).length * blockSize := Nat.add_mul _ _ _
        -- Either all the data were read, or the group was read to its end.
        by_cases all : len ≤ r + more
        · have rest : len - (r + more) = 0 := by omega
          have rest' : len - r - more = 0 := by omega
          have gives := ih (ps.drop ptrPerBlock) groups
            (fun p mem => validRest p (List.mem_of_mem_drop mem)) (i + 1) (r + more)
            readable' few' (.inl all) (.inl all)
          rw [rest] at gives
          rw [rest']
          exact gives
        · have short : more = (ps.take ptrPerBlock).length * blockSize -
              (pos + r - groupBase i * blockSize) := by omega
          -- A group that is not full is the last one.
          have full : ptrPerBlock ≤ ps.length := by
            by_contra part
            have none_ : ps.drop ptrPerBlock = [] := List.drop_eq_nil_of_le (by omega)
            rw [none_, groupData, List.length_nil, Nat.add_zero, distributes] at enough
            omega
          rw [taken, Nat.min_eq_left full] at short distributes enough ⊢
          rw [← next] at distributes
          have gives := ih (ps.drop ptrPerBlock) groups
            (fun p mem => validRest p (List.mem_of_mem_drop mem)) (i + 1) (r + more)
            readable' few' (.inr (by omega))
            (.inr (by rw [next, Nat.add_assoc]; omega))
          rw [show pos + r - groupBase i * blockSize + more - ptrPerBlock * blockSize =
            pos + (r + more) - groupBase (i + 1) * blockSize by omega,
            show len - r - more = len - (r + more) by omega]
          exact gives

/-- The stage of `do_read` that copies the data, when there are data blocks for them. -/
theorem readData_gives {inode : GfsInode} {ps : List Nat} (tree : FileTree inode blocks ps)
    (valid : ∀ p ∈ ps, p ≠ inodeInvalidPtr) (word : pos + len ≤ uint32Max)
    (enough : pos + len ≤ (dataPtrs ps).length * blockSize) (readable : mem.Readable buf len) :
    (readData inode pos len buf blocks).Gives mem len
      (mem.put buf (blockBytes blocks (dataPtrs ps) pos len)) := by
  have length1 : (ps.take inodeNdptr).length = min inodeNdptr ps.length := List.length_take
  unfold readData
  rw [tree.direct, readFileOnPtrArr_spec blocks _ (by decide) (List.length_take_le _ _)
    (fun p mem => valid p (List.mem_of_mem_take mem)) word]
  have data : dataPtrs ps = ps.take inodeNdptr ++
      ((ps.drop (directPtrs + 1)).take ptrPerBlock ++ groupData (ps.drop (indirectPtrs + 1))) := by
    rw [dataPtrs, List.append_assoc]
  rw [data, blockBytes_split]
  rw [data, List.length_append, List.length_append] at enough
  generalize isFirst : min len ((ps.take inodeNdptr).length * blockSize - pos) = first
  dsimp only
  rw [blockBytes_length, Memory.put_append, blockBytes_length]
  apply Gives.andThen (storeBytes_gives (by
    rw [blockBytes_length]
    intro k below
    exact readable k (by omega)))
  have readable1 : (mem.put buf (blockBytes blocks (ps.take inodeNdptr) pos first)).Readable
      buf len := (Memory.readable_put _).mpr readable
  generalize mem.put buf (blockBytes blocks (ps.take inodeNdptr) pos first) = mem1 at readable1 ⊢
  by_cases done1 : len ≤ first
  · rw [if_pos done1, show len - first = 0 by omega, show first = len by omega]
    exact gives_ret _ mem1
  · -- The direct pointers are all there, and all of their bytes were read.
    rw [if_neg done1]
    cases rest1 : ps.drop directPtrs with
    | nil =>
      exfalso
      have few : ps.length ≤ directPtrs := List.drop_eq_nil_iff.mp rest1
      have none1 : ps.drop (directPtrs + 1) = [] := List.drop_eq_nil_of_le (by omega)
      have none2 : ps.drop (indirectPtrs + 1) = [] := by
        apply List.drop_eq_nil_of_le
        simp only [directPtrs, indirectPtrs] at *
        omega
      rw [none1, none2, groupData, List.take_nil, List.length_nil, Nat.add_zero]
        at enough
      omega
    | cons q rs =>
      have second := tree.indirect
      rw [rest1] at second
      obtain ⟨rfl, holds⟩ := second
      have many : directPtrs < ps.length := by
        have := congrArg List.length rest1
        rw [List.length_drop, List.length_cons] at this
        omega
      have behind1 : ps.drop (directPtrs + 1) = rs := by
        rw [← List.drop_drop, rest1]
        rfl
      have full1 : (ps.take inodeNdptr).length = inodeNdptr := by
        rw [length1]
        exact Nat.min_eq_left (Nat.le_of_lt many)
      have valid1 : inode.idptr ≠ inodeInvalidPtr :=
        valid _ (List.mem_of_mem_drop (rest1 ▸ List.mem_cons_self))
      have validRs : ∀ p ∈ rs, p ≠ inodeInvalidPtr := fun p mem =>
        valid p (List.mem_of_mem_drop (rest1 ▸ List.mem_cons_of_mem _ mem))
      rw [behind1, full1] at enough
      rw [full1] at isFirst
      have size1 : inodeNdptr * blockSize = directBytes := rfl
      rw [size1] at isFirst
      rw [Nat.add_mul, Nat.add_mul, size1] at enough
      rw [if_neg (not_or.mpr ⟨by omega, valid1⟩), holds, readFileOnPtrArr_spec blocks _
        (by decide) (List.length_take_le _ _) (fun p mem => validRs p (List.mem_of_mem_take mem))
        (by omega), behind1, full1, size1, blockBytes_split]
      have length2 : (rs.take ptrPerBlock).length = min ptrPerBlock rs.length := List.length_take
      generalize isSecond : min (len - first) ((rs.take ptrPerBlock).length * blockSize -
        (pos + first - directBytes)) = more
      rw [blockBytes_length, Memory.put_append, blockBytes_length]
      apply Gives.andThen (storeBytes_gives (by
        rw [blockBytes_length]
        exact readable1.part (by omega)))
      have readable2 : (mem1.put (buf + first) (blockBytes blocks (rs.take ptrPerBlock)
          (pos + first - directBytes) more)).Readable buf len :=
        (Memory.readable_put _).mpr readable1
      generalize mem1.put (buf + first)
        (blockBytes blocks (rs.take ptrPerBlock) (pos + first - directBytes) more) = mem2
        at readable2 ⊢
      by_cases done2 : len ≤ first + more
      · rw [if_pos done2, show len - first - more = 0 by omega, show first + more = len by omega]
        exact gives_ret _ mem2
      · -- The indirect block is full as well, so the double indirect one is there.
        rw [if_neg done2]
        cases rest2 : ps.drop indirectPtrs with
        | nil =>
          exfalso
          have none_ : ps.drop (indirectPtrs + 1) = [] := by
            rw [← List.drop_drop, rest2]
            rfl
          rw [none_, groupData, List.length_nil, Nat.zero_mul] at enough
          omega
        | cons c cs =>
          have third := tree.double
          rw [rest2] at third
          obtain ⟨rfl, dib, isDib, groups⟩ := third
          have behind2 : ps.drop (indirectPtrs + 1) = cs := by
            rw [← List.drop_drop, rest2]
            rfl
          have manyMore : indirectPtrs < ps.length := by
            have := congrArg List.length rest2
            rw [List.length_drop, List.length_cons] at this
            omega
          have full2 : (rs.take ptrPerBlock).length = ptrPerBlock := by
            rw [length2, ← behind1, List.length_drop]
            simp only [indirectPtrs, directPtrs] at *
            omega
          have base : groupBase 0 * blockSize = directBytes + ptrPerBlock * blockSize := by
            rw [groupBase, directBytes, Nat.zero_add, Nat.one_mul, Nat.add_mul]
          have validC : ∀ p ∈ inode.diptr :: cs, p ≠ inodeInvalidPtr := fun p mem =>
            valid p (List.mem_of_mem_drop (rest2 ▸ mem))
          rw [full2] at isSecond enough ⊢
          rw [behind2] at enough ⊢
          rw [if_neg (validC _ List.mem_cons_self), isDib]
          have gives := readGroups_gives word dib cs groups
            (fun p mem => validC p (List.mem_cons_of_mem _ mem)) 0 (first + more) readable2
            (by omega) (.inr (by rw [base]; omega)) (.inr (by rw [Nat.add_mul, base]; omega))
          rw [show pos + first - directBytes + more - ptrPerBlock * blockSize =
            pos + (first + more) - groupBase 0 * blockSize by rw [base]; omega,
            show len - first - more = len - (first + more) by omega, Nat.add_assoc]
          exact gives

end Moved

end GlucOS
