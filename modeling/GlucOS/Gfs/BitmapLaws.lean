import GlucOS.Gfs.Bitmap

/-! What the bitmap allocator does to the bits: it takes the least clear ones, and gives one back. -/

namespace GlucOS

/-! ## Lists of clear bits -/

/-- The indexes from `first` on, of which so many are looked at, whose bits are clear. -/
def clearFrom (isSet : Nat → Bool) (first count : Nat) : List Nat :=
  (List.range' first count).filter fun b => !isSet b

/-- Looking at one index. -/
theorem clearFrom_succ (isSet : Nat → Bool) (first count : Nat) :
    clearFrom isSet first (count + 1) =
      (if isSet first then [] else [first]) ++ clearFrom isSet (first + 1) count := by
  unfold clearFrom
  rw [List.range'_succ, List.filter_cons]
  cases isSet first <;> simp

/-- Looking at the indexes in two parts. -/
theorem clearFrom_add (isSet : Nat → Bool) (first left right : Nat) :
    clearFrom isSet first (left + right) =
      clearFrom isSet first left ++ clearFrom isSet (first + left) right := by
  unfold clearFrom
  rw [← List.filter_append, List.range'_append_1]

/-- Only the bits looked at matter. -/
theorem clearFrom_congr {isSet isSet' : Nat → Bool} {first count : Nat}
    (same : ∀ b, first ≤ b → b < first + count → isSet b = isSet' b) :
    clearFrom isSet first count = clearFrom isSet' first count := by
  apply List.filter_congr
  intro b member
  obtain ⟨low, high⟩ := List.mem_range'_1.mp member
  rw [same b low high]

/-- What is found is clear and was looked at. -/
theorem mem_clearFrom {isSet : Nat → Bool} {first count b : Nat} :
    b ∈ clearFrom isSet first count ↔ (first ≤ b ∧ b < first + count) ∧ isSet b = false := by
  unfold clearFrom
  rw [List.mem_filter, List.mem_range'_1]
  simp

/-- What a scan has taken, up to a number, when it goes on with another part. -/
theorem take_more {A : Type} (n : Nat) (taken first second : List A) :
    (taken ++ first.take (n - taken.length)) ++
        second.take (n - (taken ++ first.take (n - taken.length)).length) =
      taken ++ (first ++ second).take (n - taken.length) := by
  rw [List.append_assoc, List.take_append]
  congr 2
  simp only [List.length_append, List.length_take]
  congr 1
  omega

/-! ## The loops of `GFS_alloc_in_bitmap` -/

/-- The loop over the bits of a word takes its clear bits, up to the number that is missing. -/
theorem allocBits_spec (n base : Nat) (fits : base + 64 ≤ 2 ^ 32) (left : Nat) :
    ∀ word iarr, left ≤ 64 → ∃ found,
      found = (clearFrom (fun b => word.getMsbD (b - base)) (base + (64 - left)) left).take
        (n - iarr.length) ∧
      (allocBits n base left word iarr).2 = iarr ++ found ∧
      ∀ k < 64, (allocBits n base left word iarr).1.getMsbD k =
        (word.getMsbD k || decide (base + k ∈ found)) := by
  -- The induction is on the bits left, and every round looks at one of them.
  induction left with
  | zero =>
    intro word iarr _
    refine ⟨[], by simp [clearFrom], by simp [allocBits], ?_⟩
    intro k _
    simp [allocBits]
  | succ left ih =>
    intro word iarr small
    have inside : 64 - (left + 1) < 64 := by omega
    have next : base + (64 - (left + 1)) + 1 = base + (64 - left) := by omega
    have here : base + (64 - (left + 1)) - base = 64 - (left + 1) := by omega
    rw [clearFrom_succ, next]
    simp only [allocBits, here]
    by_cases more : iarr.length < n
    · rw [if_pos more]
      have index : u32 (base + (64 - (left + 1))) = base + (64 - (left + 1)) :=
        u32_of_lt (by omega)
      by_cases clear : word &&& bitMask (64 - (left + 1)) = 0
      · -- A clear bit is set and its index is stored.
        rw [if_pos clear, index]
        have isClear := (and_bitMask inside word).mp clear
        obtain ⟨found, is, stored, bits⟩ :=
          ih (word ||| bitMask (64 - (left + 1))) (iarr ++ [base + (64 - (left + 1))]) (by omega)
        refine ⟨(base + (64 - (left + 1))) :: found, ?_, ?_, ?_⟩
        · rw [is, isClear]
          have same : clearFrom (fun b => (word ||| bitMask (64 - (left + 1))).getMsbD (b - base))
              (base + (64 - left)) left =
              clearFrom (fun b => word.getMsbD (b - base)) (base + (64 - left)) left := by
            apply clearFrom_congr
            intro b low _
            have later : b - base ≠ 64 - (left + 1) := by omega
            rw [or_bitMask inside, decide_eq_false later, Bool.or_false]
          have room : n - iarr.length = (n - (iarr ++ [base + (64 - (left + 1))]).length) + 1 := by
            rw [List.length_append, List.length_singleton]
            omega
          rw [same, room]
          simp
        · rw [stored]
          simp
        · intro k smallK
          rw [bits k smallK, or_bitMask inside]
          have same : k = 64 - (left + 1) ↔ base + k = base + (64 - (left + 1)) := by omega
          simp only [List.mem_cons, same, Bool.decide_or, Bool.or_assoc]
      · -- A bit in use is passed over.
        rw [if_neg clear]
        have isSet : word.getMsbD (64 - (left + 1)) = true := by
          by_contra notSet
          exact clear ((and_bitMask inside word).mpr (by simpa using notSet))
        rw [isSet]
        simpa using ih word iarr (by omega)
    · -- Enough bits were taken, so the loop ends.
      rw [if_neg more]
      have none : n - iarr.length = 0 := by omega
      refine ⟨[], by rw [none, List.take_zero], by simp, ?_⟩
      intro k _
      simp

/-- A bit of a sector, by its offset. -/
def SectorBuf.bit (buf : SectorBuf) (b : Nat) : Bool := (buf (b / 64)).getMsbD (b % 64)

/-- A word without a clear bit has nothing to take. -/
theorem clearFrom_full {word : BitVec 64} (full : word = BitVec.allOnes 64) (base : Nat) :
    clearFrom (fun b => word.getMsbD (b - base)) base 64 = [] := by
  apply List.eq_nil_iff_forall_not_mem.mpr
  intro b member
  obtain ⟨⟨low, high⟩, clear⟩ := mem_clearFrom.mp member
  have isSet := (eq_allOnes_iff word).mp full (b - base) (by omega)
  rw [isSet] at clear
  cases clear

/-- The bits of a word are those of its sector from the word's first bit on. -/
theorem clearFrom_word (buf : SectorBuf) (base i : Nat) :
    clearFrom (fun b => (buf i).getMsbD (b - (base + i * 64))) (base + i * 64) 64 =
      clearFrom (fun b => buf.bit (b - base)) (base + i * 64) 64 := by
  apply clearFrom_congr
  intro b low high
  have word : (b - base) / 64 = i := by omega
  have offset : (b - base) % 64 = b - (base + i * 64) := by omega
  simp only [SectorBuf.bit, word, offset]

/-- The loop over the words of a sector takes its clear bits, and notices whether it did. -/
theorem allocWords_spec (n base : Nat) (fits : base + secBits ≤ 2 ^ 32) (left : Nat) :
    ∀ buf iarr modified, left ≤ secWords → ∃ found,
      found = (clearFrom (fun b => buf.bit (b - base)) (base + (secWords - left) * 64)
        (left * 64)).take (n - iarr.length) ∧
      (allocWords n base left buf iarr modified).2.1 = iarr ++ found ∧
      (∀ i < secWords, ∀ k < 64, ((allocWords n base left buf iarr modified).1 i).getMsbD k =
        ((buf i).getMsbD k || decide (base + i * 64 + k ∈ found))) ∧
      ((allocWords n base left buf iarr modified).2.2 = false →
        modified = false ∧ (allocWords n base left buf iarr modified).1 = buf) := by
  -- The induction is on the words left.
  induction left with
  | zero =>
    intro buf iarr modified _
    refine ⟨[], by simp [clearFrom], by simp [allocWords], ?_, ?_⟩
    · intro i _ k _
      simp [allocWords]
    · exact fun same => ⟨same, rfl⟩
  | succ left ih =>
    intro buf iarr modified small
    have words : secWords = 64 := rfl
    have bits : secBits = 4096 := rfl
    -- The word looked at in this round, and the clear bits of the whole rest.
    obtain ⟨i, isI⟩ : ∃ i, secWords - (left + 1) = i := ⟨_, rfl⟩
    have next : base + i * 64 + 64 = base + (secWords - left) * 64 := by omega
    have parts : clearFrom (fun b => buf.bit (b - base)) (base + i * 64) ((left + 1) * 64) =
        clearFrom (fun b => (buf i).getMsbD (b - (base + i * 64))) (base + i * 64) 64 ++
          clearFrom (fun b => buf.bit (b - base)) (base + (secWords - left) * 64) (left * 64) := by
      rw [clearFrom_word, ← next, ← clearFrom_add]
      congr 1
      omega
    simp only [allocWords, isI]
    by_cases more : iarr.length < n
    · rw [if_pos more]
      by_cases full : buf i = BitVec.allOnes 64
      · -- A full word is passed over.
        rw [if_neg (by simpa using full), parts, clearFrom_full full, List.nil_append]
        exact ih buf iarr modified (by omega)
      · rw [if_pos full]
        obtain ⟨first, isFirst, stored, wordBits⟩ :=
          allocBits_spec n (base + i * 64) (by omega) 64 (buf i) iarr (Nat.le_refl _)
        simp only [Nat.sub_self, Nat.add_zero] at isFirst
        cases ran : allocBits n (base + i * 64) 64 (buf i) iarr with
        | mk word taken =>
        rw [ran] at stored wordBits
        simp only at stored wordBits ⊢
        obtain ⟨second, isSecond, stored', bits', -⟩ :=
          ih (Function.update buf i word) taken true (by omega)
        have later : clearFrom (fun b => SectorBuf.bit (Function.update buf i word) (b - base))
            (base + (secWords - left) * 64) (left * 64) =
            clearFrom (fun b => buf.bit (b - base)) (base + (secWords - left) * 64) (left * 64) := by
          apply clearFrom_congr
          intro b low _
          have apart : (b - base) / 64 ≠ i := by omega
          simp only [SectorBuf.bit, Function.update_of_ne apart]
        rw [later, stored, isFirst] at isSecond
        refine ⟨first ++ second, ?_, ?_, ?_, ?_⟩
        · have more := take_more n iarr
            (clearFrom (fun b => (buf i).getMsbD (b - (base + i * 64))) (base + i * 64) 64)
            (clearFrom (fun b => buf.bit (b - base)) (base + (secWords - left) * 64) (left * 64))
          rw [← isFirst, List.append_assoc] at more
          rw [parts, isSecond, ← isFirst]
          exact List.append_cancel_left more
        · rw [stored', stored, List.append_assoc]
        · intro i' small' k smallK
          rw [bits' i' small' k smallK]
          simp only [List.mem_append, Bool.decide_or]
          by_cases same : i' = i
          · subst same
            rw [Function.update_self, wordBits k smallK, Bool.or_assoc]
          · -- What was found in the word is not in another one.
            have absent : base + i' * 64 + k ∉ first := by
              rw [isFirst]
              intro member
              obtain ⟨⟨low, high⟩, -⟩ := mem_clearFrom.mp (List.mem_of_mem_take member)
              omega
            rw [Function.update_of_ne same, decide_eq_false absent, Bool.false_or]
        · intro unmodified
          have kept := ih (Function.update buf i word) taken true (by omega)
          obtain ⟨-, -, -, -, notModified⟩ := kept
          cases (notModified unmodified).1
    · -- Enough bits were taken, so the loop ends.
      rw [if_neg more]
      have none : n - iarr.length = 0 := by omega
      refine ⟨[], by rw [none, List.take_zero], by simp, ?_, fun same => ⟨same, rfl⟩⟩
      intro i' _ k _
      simp

/-! ## The bits of a bitmap -/

namespace SecRange

variable (range : SecRange)

/-- A bit of a bitmap, by its index. -/
def isSet (sectors : Nat → SectorBuf) (b : Nat) : Bool :=
  (sectors (range.start + b / secBits)).bit (b % secBits)

/-- The sectors of a bitmap. -/
def has (sidx : Nat) : Prop := range.start ≤ sidx ∧ sidx < range.stop

/-- The indexes of clear bits, in increasing order. -/
def clear (mem : SecMem) : List Nat :=
  (List.range range.bits).filter fun b => !range.isSet mem.cache b

/-- On disk, every sector of the bitmap is as in the cache. -/
def Mirrored (mem : SecMem) : Prop :=
  ∀ sidx, range.has sidx → ∀ i < secWords, mem.disk sidx i = mem.cache sidx i

/-- A bitmap lies in the cache, so its indexes fit in 32 bits. -/
theorem bits_fit : range.bits < 2 ^ 32 := by
  have cached := range.cached
  simp only [bits, secBits, sectorSize, gfsCacheEnd, gfsCacheBase] at *
  omega

end SecRange

/-- The loop over the sectors takes clear bits and keeps the disk up to date. -/
theorem allocSecs_spec (n : Nat) (range : SecRange) (left : Nat) :
    ∀ sidx mem iarr, sidx + left = range.stop → range.start ≤ sidx → ∃ found,
      found = (clearFrom (range.isSet mem.cache) ((sidx - range.start) * secBits)
        (left * secBits)).take (n - iarr.length) ∧
      (allocSecs n range.start left sidx mem iarr).2 = iarr ++ found ∧
      (∀ other, sidx ≤ other → other < range.stop → ∀ i < secWords, ∀ k < 64,
        ((allocSecs n range.start left sidx mem iarr).1.cache other i).getMsbD k =
          ((mem.cache other i).getMsbD k ||
            decide ((other - range.start) * secBits + i * 64 + k ∈ found))) ∧
      (∀ other, other < sidx ∨ range.stop ≤ other →
        (allocSecs n range.start left sidx mem iarr).1.cache other = mem.cache other ∧
          (allocSecs n range.start left sidx mem iarr).1.disk other = mem.disk other) ∧
      (∀ other, (∀ i < secWords, mem.disk other i = mem.cache other i) → ∀ i < secWords,
        (allocSecs n range.start left sidx mem iarr).1.disk other i =
          (allocSecs n range.start left sidx mem iarr).1.cache other i) := by
  -- The induction is on the sectors left.
  induction left with
  | zero =>
    intro sidx mem iarr ends _
    refine ⟨[], by simp [clearFrom], by simp [allocSecs], ?_, fun _ _ => ⟨rfl, rfl⟩,
      fun _ same => same⟩
    intro other low high
    omega
  | succ left ih =>
    intro sidx mem iarr ends starts
    have words : secWords = 64 := rfl
    have bits : secBits = 4096 := rfl
    have fit := range.bits_fit
    simp only [SecRange.bits, bits] at fit ih ⊢
    obtain ⟨base, isBase⟩ : ∃ base, (sidx - range.start) * 4096 = base := ⟨_, rfl⟩
    have next : (sidx + 1 - range.start) * 4096 = base + 4096 := by
      rw [← isBase, Nat.succ_sub starts, Nat.succ_mul]
    -- The clear bits of this sector, and those of the sectors after it.
    have parts : clearFrom (range.isSet mem.cache) base ((left + 1) * 4096) =
        clearFrom (fun b => (mem.cache sidx).bit (b - base)) base 4096 ++
          clearFrom (range.isSet mem.cache) (base + 4096) (left * 4096) := by
      have split : (left + 1) * 4096 = 4096 + left * 4096 := by
        rw [Nat.succ_mul, Nat.add_comm]
      rw [split, clearFrom_add]
      congr 1
      apply clearFrom_congr
      intro b low high
      have sector : range.start + b / 4096 = sidx := by omega
      have offset : b % 4096 = b - base := by omega
      simp only [SecRange.isSet, bits, sector, offset]
    simp only [allocSecs, bits, isBase]
    by_cases more : iarr.length < n
    · rw [if_pos more]
      obtain ⟨first, isFirst, stored, bufBits, unmodified⟩ :=
        allocWords_spec n base (by omega) secWords (mem.cache sidx) iarr false
          (Nat.le_refl _)
      simp only [Nat.sub_self, Nat.zero_mul, Nat.add_zero] at isFirst
      cases ran : allocWords n base secWords (mem.cache sidx) iarr false with
      | mk buf rest =>
      obtain ⟨taken, modified⟩ := rest
      rw [ran] at stored bufBits unmodified
      simp only at stored bufBits unmodified ⊢
      -- The state after this sector differs from the one before in this sector only.
      obtain ⟨mid, isMid⟩ : ∃ mid : SecMem, (if modified = true then
          ({ mem with cache := Function.update mem.cache sidx buf } : SecMem).writeSec sidx
        else { mem with cache := Function.update mem.cache sidx buf }) = mid := ⟨_, rfl⟩
      have midCache : mid.cache = Function.update mem.cache sidx buf := by
        rw [← isMid]
        cases modified <;> rfl
      have midDisk : ∀ other, (∀ i < secWords, mem.disk other i = mem.cache other i) →
          ∀ i < secWords, mid.disk other i = mid.cache other i := by
        intro other mirrored i small
        rw [← isMid]
        by_cases same : other = sidx
        · subst same
          cases modified with
          | true => simp [SecMem.writeSec]
          | false => simpa [(unmodified rfl).2] using mirrored i small
        · cases modified <;> simpa [SecMem.writeSec, Function.update_of_ne same] using mirrored i small
      rw [isMid]
      obtain ⟨second, isSecond, stored', bits', others, mirrors⟩ :=
        ih (sidx + 1) mid taken (by omega) (by omega)
      rw [next, stored, isFirst] at isSecond
      have later : clearFrom (range.isSet mid.cache) (base + 4096) (left * 4096) =
          clearFrom (range.isSet mem.cache) (base + 4096) (left * 4096) := by
        apply clearFrom_congr
        intro b low _
        have apart : range.start + b / 4096 ≠ sidx := by omega
        simp only [SecRange.isSet, bits, midCache, Function.update_of_ne apart]
      rw [later] at isSecond
      refine ⟨first ++ second, ?_, ?_, ?_, ?_, ?_⟩
      · have both := take_more n iarr
          (clearFrom (fun b => (mem.cache sidx).bit (b - base)) base 4096)
          (clearFrom (range.isSet mem.cache) (base + 4096) (left * 4096))
        have isFirst' : first = (clearFrom (fun b => (mem.cache sidx).bit (b - base)) base
          4096).take (n - iarr.length) := isFirst
        rw [← isFirst', List.append_assoc] at both
        rw [parts, isSecond, ← isFirst]
        exact List.append_cancel_left both
      · rw [stored', stored, List.append_assoc]
      · intro other low high i smallI k smallK
        simp only [List.mem_append, Bool.decide_or]
        by_cases same : other = sidx
        · subst same
          -- Nothing of this sector is taken later.
          have absent : (other - range.start) * 4096 + i * 64 + k ∉ second := by
            rw [isSecond]
            intro member
            obtain ⟨⟨low', -⟩, -⟩ := mem_clearFrom.mp (List.mem_of_mem_take member)
            omega
          rw [isBase] at absent ⊢
          rw [(others other (Or.inl (by omega))).1, midCache, Function.update_self,
            bufBits i smallI k smallK, decide_eq_false absent, Bool.or_false]
        · have absent : (other - range.start) * 4096 + i * 64 + k ∉ first := by
            rw [isFirst]
            intro member
            obtain ⟨⟨-, high'⟩, -⟩ := mem_clearFrom.mp (List.mem_of_mem_take member)
            omega
          rw [bits' other (by omega) high i smallI k smallK, midCache, Function.update_of_ne same,
            decide_eq_false absent, Bool.false_or]
      · intro other outside
        have apart : other ≠ sidx := by omega
        obtain ⟨cache, disk⟩ := others other (by omega)
        refine ⟨by rw [cache, midCache, Function.update_of_ne apart], ?_⟩
        rw [disk, ← isMid]
        cases modified with
        | true => simp [SecMem.writeSec, Function.update_of_ne apart]
        | false => rfl
      · intro other mirrored
        exact mirrors other (midDisk other mirrored)
    · -- Enough bits were taken, so the loop ends.
      rw [if_neg more]
      have none : n - iarr.length = 0 := by omega
      refine ⟨[], by rw [none, List.take_zero], by simp, ?_, fun _ _ => ⟨rfl, rfl⟩,
        fun _ same => same⟩
      intro other _ _ i _ k _
      simp

/-- What `GFS_alloc_in_bitmap` does when asked for some number of indexes. -/
structure Takes (range : SecRange) (n : Nat) (mem next : SecMem) (iarr : List Nat) : Prop where
  /-- The least clear indexes are taken, in increasing order, up to the number asked for. -/
  least : iarr = (range.clear mem).take n
  /-- Exactly their bits are set. -/
  sets : ∀ b, range.isSet next.cache b = (range.isSet mem.cache b || decide (b ∈ iarr))
  /-- The disk stays equal to the cache. -/
  mirrored : range.Mirrored mem → range.Mirrored next
  /-- No other sector changes. -/
  outside : ∀ sidx, ¬ range.has sidx →
    next.cache sidx = mem.cache sidx ∧ next.disk sidx = mem.disk sidx

/-- `GFS_alloc_in_bitmap` takes the least clear indexes. -/
theorem gfsAllocInBitmap_takes (range : SecRange) (n : Nat) (mem : SecMem) :
    Takes range n mem (gfsAllocInBitmap n range mem).1 (gfsAllocInBitmap n range mem).2 := by
  have bits : secBits = 4096 := rfl
  by_cases proper : range.start ≤ range.stop
  · obtain ⟨found, isFound, stored, sets, others, mirrors⟩ := allocSecs_spec n range
      (range.stop - range.start) range.start mem [] (by omega) (Nat.le_refl _)
    unfold gfsAllocInBitmap
    rw [stored, List.nil_append]
    refine ⟨?_, ?_, ?_, ?_⟩
    · rw [isFound]
      simp only [Nat.sub_self, Nat.zero_mul, List.length_nil, Nat.sub_zero]
      rw [SecRange.clear, clearFrom, List.range_eq_range', SecRange.bits]
    · intro b
      simp only [SecRange.isSet]
      by_cases inside : range.start + b / secBits < range.stop
      · have word : b % secBits / 64 < secWords := by
          have words : secWords = 64 := rfl
          simp only [bits, words]
          omega
        have index : (range.start + b / secBits - range.start) * secBits +
            b % secBits / 64 * 64 + b % secBits % 64 = b := by
          simp only [bits]
          omega
        have bit := sets (range.start + b / secBits) (Nat.le_add_right _ _) inside (b % secBits / 64) word
          (b % secBits % 64) (Nat.mod_lt _ (by decide))
        rw [index] at bit
        exact bit
      · -- Nothing past the end is found.
        have absent : b ∉ found := by
          rw [isFound]
          intro member
          obtain ⟨⟨-, high⟩, -⟩ := mem_clearFrom.mp (List.mem_of_mem_take member)
          simp only [bits] at high inside
          omega
        rw [(others _ (Or.inr (Nat.le_of_not_lt inside))).1, decide_eq_false absent, Bool.or_false]
    · intro mirrored sidx has
      exact mirrors sidx (mirrored sidx has)
    · intro sidx outside
      apply others
      simp only [SecRange.has, not_and, Nat.not_lt] at outside
      rcases Nat.lt_or_ge sidx range.start with before | after
      · exact Or.inl before
      · exact Or.inr (outside after)
  · -- There are no sectors at all.
    have none : range.stop - range.start = 0 := by omega
    have nothing : range.clear mem = [] := by simp [SecRange.clear, SecRange.bits, none]
    unfold gfsAllocInBitmap
    rw [none]
    exact ⟨by simp [allocSecs, nothing], by simp [allocSecs], id, fun _ _ => ⟨rfl, rfl⟩⟩

/-- What `GFS_free_in_bitmap` does with an index of the bitmap. -/
structure Frees (range : SecRange) (bidx : Nat) (mem next : SecMem) : Prop where
  /-- Exactly its bit is cleared. -/
  clears : ∀ b, range.isSet next.cache b = (range.isSet mem.cache b && !decide (b = bidx))
  /-- The disk stays equal to the cache. -/
  mirrored : range.Mirrored mem → range.Mirrored next
  /-- No other sector changes. -/
  outside : ∀ sidx, ¬ range.has sidx →
    next.cache sidx = mem.cache sidx ∧ next.disk sidx = mem.disk sidx

/-- `GFS_free_in_bitmap` clears the bit of an index in range, and refuses any other index. -/
theorem gfsFreeInBitmap_frees (range : SecRange) (bidx : Nat) (mem : SecMem) :
    (range.bits ≤ bidx ∧ gfsFreeInBitmap bidx range mem = (mem, 1)) ∨
      (bidx < range.bits ∧ (gfsFreeInBitmap bidx range mem).2 = 0 ∧
        Frees range bidx mem (gfsFreeInBitmap bidx range mem).1) := by
  have bits : secBits = 4096 := rfl
  have fit := range.bits_fit
  have limit : u32 ((range.stop - range.start) * sectorSize * 8) = range.bits := by
    have same : (range.stop - range.start) * sectorSize * 8 = range.bits := by
      simp only [SecRange.bits, secBits, sectorSize]
      omega
    rw [same, u32_of_lt fit]
  unfold gfsFreeInBitmap
  rw [limit]
  by_cases refused : range.stop ≤ range.start ∨ range.bits ≤ bidx
  · rw [if_pos refused]
    refine Or.inl ⟨?_, rfl⟩
    rcases refused with none | beyond
    · have zero : range.stop - range.start = 0 := by omega
      simp [SecRange.bits, zero]
    · exact beyond
  · rw [if_neg refused]
    simp only [not_or, Nat.not_le] at refused
    have inside : bidx / secBits < range.stop - range.start := by
      have := refused.2
      simp only [SecRange.bits, bits] at *
      omega
    have low : bidx % secBits % 64 < 64 := Nat.mod_lt _ (by decide)
    refine Or.inr ⟨refused.2, rfl, ?_, ?_, ?_⟩
    · intro b
      simp only [SecRange.isSet, SecMem.writeSec]
      by_cases sector : b / secBits = bidx / secBits
      · rw [sector, Function.update_self]
        by_cases word : b % secBits / 64 = bidx % secBits / 64
        · -- The word written: the bits differ by their position in it.
          have same : b % secBits % 64 = bidx % secBits % 64 ↔ b = bidx := by
            simp only [bits] at *
            omega
          simp only [SectorBuf.bit]
          rw [word, Function.update_self, and_not_bitMask low _ (Nat.mod_lt _ (by decide))]
          simp only [same]
        · have differ : b ≠ bidx := by
            rintro rfl
            exact word rfl
          simp only [SectorBuf.bit]
          rw [Function.update_of_ne word, decide_eq_false differ]
          simp
      · have apart : range.start + b / secBits ≠ range.start + bidx / secBits := by omega
        have differ : b ≠ bidx := by
          rintro rfl
          exact sector rfl
        rw [Function.update_of_ne apart, decide_eq_false differ]
        simp
    · intro mirrored sidx has i small
      simp only [SecMem.writeSec]
      by_cases same : sidx = range.start + bidx / secBits
      · simp [same]
      · rw [Function.update_of_ne same, Function.update_of_ne same]
        exact mirrored sidx has i small
    · intro sidx outside
      have apart : sidx ≠ range.start + bidx / secBits := by
        rintro rfl
        exact outside ⟨Nat.le_add_right _ _, by omega⟩
      simp [SecMem.writeSec, Function.update_of_ne apart]

/-! ## Counting -/

/-- How many bits of a range are set. -/
def SecRange.ones (range : SecRange) (mem : SecMem) : Nat :=
  (List.range range.bits).countP fun b => range.isSet mem.cache b

/-- The loop over the words counts the bits that are left in its sector. -/
theorem countWords_spec (buf : SectorBuf) (left : Nat) :
    ∀ count, left ≤ secWords → countWords buf left count =
      count + (List.range' ((secWords - left) * 64) (left * 64)).countP fun b => buf.bit b := by
  induction left with
  | zero => intro count _; simp [countWords]
  | succ left ih =>
    intro count small
    have words : secWords = 64 := rfl
    obtain ⟨i, isI⟩ : ∃ i, secWords - (left + 1) = i := ⟨_, rfl⟩
    have next : (secWords - left) * 64 = i * 64 + 1 * 64 := by omega
    have split : (left + 1) * 64 = 64 + left * 64 := by omega
    -- The word counted in this round, and the rest.
    have word : (List.range' (i * 64) 64).countP (fun b => buf.bit b) =
        (List.range 64).countP fun k => (buf i).getMsbD k := by
      rw [List.range'_eq_map_range, List.countP_map]
      apply List.countP_congr
      intro k member
      have smallK : k < 64 := List.mem_range.mp member
      have index : (i * 64 + k) / 64 = i := by omega
      have offset : (i * 64 + k) % 64 = k := by omega
      simp [SectorBuf.bit, index, offset]
    simp only [countWords, isI]
    rw [ih _ (by omega), onesLoop_countP, split, ← List.range'_append_1, List.countP_append, word,
      next, Nat.one_mul, Nat.add_assoc]

/-- The loop over the sectors counts the bits that are left in its bitmap. -/
theorem countSecs_spec (range : SecRange) (mem : SecMem) (left : Nat) :
    ∀ sidx count, sidx + left = range.stop → range.start ≤ sidx →
      countSecs mem left sidx count = count +
        (List.range' ((sidx - range.start) * secBits) (left * secBits)).countP fun b =>
          range.isSet mem.cache b := by
  induction left with
  | zero => intro sidx count _ _; simp [countSecs]
  | succ left ih =>
    intro sidx count ends starts
    have bits : secBits = 4096 := rfl
    have words : secWords = 64 := rfl
    simp only [bits] at ih ⊢
    obtain ⟨base, isBase⟩ : ∃ base, (sidx - range.start) * 4096 = base := ⟨_, rfl⟩
    have next : (sidx + 1 - range.start) * 4096 = base + 1 * 4096 := by
      rw [← isBase, Nat.succ_sub starts, Nat.succ_mul, Nat.one_mul]
    have split : (left + 1) * 4096 = 4096 + left * 4096 := by rw [Nat.succ_mul, Nat.add_comm]
    have sector : (List.range' base 4096).countP (fun b => range.isSet mem.cache b) =
        (List.range' 0 4096).countP fun b => (mem.cache sidx).bit b := by
      rw [List.range'_eq_map_range, List.countP_map, ← List.range_eq_range']
      apply List.countP_congr
      intro b member
      have small : b < 4096 := List.mem_range.mp member
      have index : range.start + (base + b) / 4096 = sidx := by omega
      have offset : (base + b) % 4096 = b := by omega
      simp only [Function.comp, SecRange.isSet, bits, index, offset]
    simp only [countSecs, isBase]
    rw [ih _ _ (by omega) (by omega), countWords_spec _ _ _ (Nat.le_refl _), split,
      ← List.range'_append_1, List.countP_append, sector, next, Nat.one_mul, words]
    simp only [Nat.sub_self, Nat.zero_mul, Nat.add_assoc]

/-- `GFS_count_in_bitmap` counts the bits that are set. -/
theorem gfsCountInBitmap_ones (range : SecRange) (mem : SecMem) :
    gfsCountInBitmap range mem = range.ones mem := by
  unfold gfsCountInBitmap SecRange.ones SecRange.bits
  by_cases proper : range.start ≤ range.stop
  · rw [countSecs_spec range mem _ _ _ (by omega) (Nat.le_refl _), List.range_eq_range']
    simp
  · have none : range.stop - range.start = 0 := by omega
    rw [none]
    simp [countSecs]

/-- Clear bits and set ones together are all bits. -/
theorem SecRange.clear_add_ones (range : SecRange) (mem : SecMem) :
    (range.clear mem).length + range.ones mem = range.bits := by
  have total := List.length_eq_countP_add_countP (l := List.range range.bits)
    (p := fun b => range.isSet mem.cache b)
  simp only [List.length_range, Bool.not_eq_true, Bool.decide_eq_false] at total
  unfold SecRange.clear SecRange.ones
  rw [← List.countP_eq_length_filter]
  omega

/-! ## The allocator -/

/-- A call of the bitmap allocator. -/
inductive BitmapCall where
  /-- `GFS_alloc_in_bitmap` for some number of indexes. -/
  | alloc (n : Nat)
  /-- `GFS_free_in_bitmap` of one index. -/
  | free (bidx : Nat)

/-- What a call does, and the indexes it hands out. -/
def bitmapStep (range : SecRange) (mem : SecMem) : BitmapCall → SecMem × List Nat
  | .alloc n => gfsAllocInBitmap n range mem
  | .free bidx => ((gfsFreeInBitmap bidx range mem).1, [])

/-- The sectors after some calls. -/
def bitmapRun (range : SecRange) (mem : SecMem) (calls : List BitmapCall) : SecMem :=
  calls.foldl (fun mem call => (bitmapStep range mem call).1) mem

/-- What GFS may rely on for the bitmap of a range of sectors. -/
structure BitmapAllocator (range : SecRange) : Prop where
  /-- `GFS_alloc_in_bitmap` takes the least clear indexes. -/
  takes : ∀ n mem,
    Takes range n mem (gfsAllocInBitmap n range mem).1 (gfsAllocInBitmap n range mem).2
  /-- Their number is the one asked for, or that of all clear bits. -/
  number : ∀ n mem, (gfsAllocInBitmap n range mem).2.length = min n (range.clear mem).length
  /-- They increase. -/
  increasing : ∀ n mem, (gfsAllocInBitmap n range mem).2.Pairwise (· < ·)
  /-- `GFS_free_in_bitmap` clears the bit of an index in range. -/
  frees : ∀ bidx mem, bidx < range.bits → (gfsFreeInBitmap bidx range mem).2 = 0 ∧
    Frees range bidx mem (gfsFreeInBitmap bidx range mem).1
  /-- It refuses any other index and changes nothing. -/
  refuses : ∀ bidx mem, range.bits ≤ bidx → gfsFreeInBitmap bidx range mem = (mem, 1)
  /-- Freeing what was allocated, in whatever order, restores the bitmap. -/
  restores : ∀ n mem (order : List Nat), order.Perm (gfsAllocInBitmap n range mem).2 → ∀ b,
    range.isSet (bitmapRun range (gfsAllocInBitmap n range mem).1 (order.map .free)).cache b =
      range.isSet mem.cache b
  /-- What was handed out is handed out again only after it was freed. -/
  once : ∀ n mem calls m bidx, bidx ∈ (gfsAllocInBitmap n range mem).2 →
    bidx ∈ (gfsAllocInBitmap m range
      (bitmapRun range (gfsAllocInBitmap n range mem).1 calls)).2 → .free bidx ∈ calls
  /-- `GFS_count_in_bitmap` counts the bits that are set. -/
  counts : ∀ mem, gfsCountInBitmap range mem = range.ones mem
  /-- An allocation adds what it hands out to the count. -/
  grows : ∀ n mem, gfsCountInBitmap range (gfsAllocInBitmap n range mem).1 =
    gfsCountInBitmap range mem + (gfsAllocInBitmap n range mem).2.length

/-- What is taken was clear. -/
theorem Takes.clear {range : SecRange} {n : Nat} {mem next : SecMem} {iarr : List Nat}
    (takes : Takes range n mem next iarr) {b : Nat} (member : b ∈ iarr) :
    b < range.bits ∧ range.isSet mem.cache b = false := by
  rw [takes.least] at member
  have isClear := List.mem_of_mem_take member
  simpa [SecRange.clear] using isClear

/-- Leaving out the first entries of a list without repetition. -/
theorem filter_not_mem_take {l : List Nat} (nodup : l.Nodup) (n : Nat) :
    l.filter (fun b => !decide (b ∈ l.take n)) = l.drop n := by
  have parts := List.take_append_drop n l
  have apart : ∀ b ∈ l.drop n, b ∉ l.take n := by
    intro b late early
    rw [← parts] at nodup
    exact (List.nodup_append.mp nodup).2.2 b early b late rfl
  calc l.filter (fun b => !decide (b ∈ l.take n))
      = (l.take n ++ l.drop n).filter (fun b => !decide (b ∈ l.take n)) := by rw [parts]
    _ = l.drop n := by
      rw [List.filter_append]
      have first : (l.take n).filter (fun b => !decide (b ∈ l.take n)) = [] := by
        apply List.filter_eq_nil_iff.mpr
        intro b member
        simp [member]
      have second : (l.drop n).filter (fun b => !decide (b ∈ l.take n)) = l.drop n := by
        apply List.filter_eq_self.mpr
        intro b member
        simp [apart b member]
      rw [first, second, List.nil_append]

/-- What is still clear after an allocation. -/
theorem Takes.left {range : SecRange} {n : Nat} {mem next : SecMem} {iarr : List Nat}
    (takes : Takes range n mem next iarr) : range.clear next = (range.clear mem).drop n := by
  have nodup : (range.clear mem).Nodup := List.nodup_range.filter _
  rw [← filter_not_mem_take nodup n, ← takes.least]
  unfold SecRange.clear
  rw [List.filter_filter]
  apply List.filter_congr
  intro b _
  rw [takes.sets, Bool.not_or, Bool.and_comm]

/-- A call that is not the release of an index leaves its bit set. -/
theorem bitmapStep_keeps {range : SecRange} {mem : SecMem} {bidx : Nat} (call : BitmapCall)
    (isSet : range.isSet mem.cache bidx = true) (other : call ≠ .free bidx) :
    range.isSet (bitmapStep range mem call).1.cache bidx = true := by
  cases call with
  | alloc n =>
    have takes := gfsAllocInBitmap_takes range n mem
    simp only [bitmapStep]
    rw [takes.sets, isSet, Bool.true_or]
  | free freed =>
    have differ : bidx ≠ freed := by
      rintro rfl
      exact other rfl
    simp only [bitmapStep]
    rcases gfsFreeInBitmap_frees range freed mem with ⟨-, same⟩ | ⟨-, -, frees⟩
    · rw [same]
      exact isSet
    · rw [frees.clears, isSet, decide_eq_false differ]
      rfl

/-- Calls that do not free an index leave its bit set. -/
theorem bitmapRun_keeps {range : SecRange} {bidx : Nat} (calls : List BitmapCall) :
    ∀ mem, range.isSet mem.cache bidx = true → .free bidx ∉ calls →
      range.isSet (bitmapRun range mem calls).cache bidx = true := by
  induction calls with
  | nil => exact fun _ isSet _ => isSet
  | cons call rest ih =>
    intro mem isSet kept
    simp only [List.mem_cons, not_or] at kept
    exact ih _ (bitmapStep_keeps call isSet fun same => kept.1 same.symm) kept.2

/-- Freeing a list of indexes clears their bits. -/
theorem bitmapRun_frees {range : SecRange} (order : List Nat) :
    ∀ mem, (∀ i ∈ order, i < range.bits) → ∀ b,
      range.isSet (bitmapRun range mem (order.map .free)).cache b =
        (range.isSet mem.cache b && !decide (b ∈ order)) := by
  induction order with
  | nil => intro mem _ b; simp [bitmapRun]
  | cons first rest ih =>
    intro mem inside b
    have later := ih (gfsFreeInBitmap first range mem).1
      (fun i member => inside i (List.mem_cons_of_mem _ member)) b
    rcases gfsFreeInBitmap_frees range first mem with ⟨beyond, -⟩ | ⟨-, -, frees⟩
    · exact absurd (inside first List.mem_cons_self) (Nat.not_lt.mpr beyond)
    · rw [frees.clears] at later
      simp only [bitmapRun, List.map_cons, List.foldl_cons, bitmapStep] at later ⊢
      rw [later]
      simp only [List.mem_cons, Bool.decide_or, Bool.not_or, Bool.and_assoc]

/-- The bitmap allocator is right on every range of cached sectors. -/
theorem bitmap_allocator (range : SecRange) : BitmapAllocator range := by
  have number : ∀ n mem, (gfsAllocInBitmap n range mem).2.length =
      min n (range.clear mem).length := by
    intro n mem
    rw [(gfsAllocInBitmap_takes range n mem).least, List.length_take]
  have increasing : ∀ n mem, (gfsAllocInBitmap n range mem).2.Pairwise (· < ·) := by
    intro n mem
    rw [(gfsAllocInBitmap_takes range n mem).least]
    exact (List.pairwise_lt_range.filter _).take
  refine ⟨gfsAllocInBitmap_takes range, number, increasing, ?_, ?_, ?_, ?_,
    gfsCountInBitmap_ones range, ?_⟩
  · intro bidx mem inside
    rcases gfsFreeInBitmap_frees range bidx mem with ⟨beyond, -⟩ | ⟨-, code, frees⟩
    · exact absurd inside (Nat.not_lt.mpr beyond)
    · exact ⟨code, frees⟩
  · intro bidx mem beyond
    rcases gfsFreeInBitmap_frees range bidx mem with ⟨-, same⟩ | ⟨inside, -⟩
    · exact same
    · exact absurd inside (Nat.not_lt.mpr beyond)
  · intro n mem order perm b
    have takes := gfsAllocInBitmap_takes range n mem
    rw [bitmapRun_frees order _ (fun i member => (takes.clear (perm.mem_iff.mp member)).1),
      takes.sets]
    by_cases taken : b ∈ (gfsAllocInBitmap n range mem).2
    · -- A bit that was taken was clear before.
      rw [(takes.clear taken).2, decide_eq_true (perm.mem_iff.mpr taken)]
      simp
    · rw [decide_eq_false taken, decide_eq_false fun member => taken (perm.mem_iff.mp member)]
      simp
  · intro n mem calls m bidx first again
    by_contra kept
    have takes := gfsAllocInBitmap_takes range n mem
    have isSet : range.isSet (gfsAllocInBitmap n range mem).1.cache bidx = true := by
      rw [takes.sets, decide_eq_true first, Bool.or_true]
    have still := bitmapRun_keeps calls _ isSet kept
    rw [((gfsAllocInBitmap_takes range m _).clear again).2] at still
    cases still
  · intro n mem
    -- What is no longer clear is what was taken, and all other bits are set before and after.
    have before := range.clear_add_ones mem
    have after := range.clear_add_ones (gfsAllocInBitmap n range mem).1
    rw [(gfsAllocInBitmap_takes range n mem).left, List.length_drop] at after
    rw [gfsCountInBitmap_ones, gfsCountInBitmap_ones, number]
    omega

end GlucOS
