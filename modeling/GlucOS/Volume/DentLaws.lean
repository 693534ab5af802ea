import GlucOS.Gfs.FillLaws
import GlucOS.Lib.Places
import GlucOS.Volume.Dir

/-! The entries of one block: writing one of them, and leaving the others. -/

namespace GlucOS

namespace Block

/-- The bytes of the name of an entry. -/
def nameBytes (block : Block) (j : Nat) : CharBuf :=
  (List.range (fnLen + 1)).map fun k => block.byte (dentSize * j + k)

/-- The inode that an entry names, or the number of none. -/
def inoOf (block : Block) (j : Nat) : Nat := block.word (dentSize / 4 * j + (fnLen + 1) / 4)

/-- An entry, when it is used. -/
def entry (block : Block) (j : Nat) : Option GfsDentry :=
  if block.inoOf j = dentryInvalidIno then none
  else some ⟨block.str (dentSize * j), block.inoOf j⟩

/-- The entries that are used. -/
def used (block : Block) : List GfsDentry :=
  block.dents.filter fun dent => dent.ino ≠ dentryInvalidIno

/-- The names of entries that are used end. -/
def Ended (block : Block) : Prop :=
  ∀ j < dentPerBlock, block.inoOf j ≠ dentryInvalidIno → 0 ∈ block.nameBytes j

variable {block next : Block} {j : Nat} {fname : CharBuf} {ino : Nat}

/-! ## Reading entries -/

/-- The used entries, one after the other. -/
theorem used_eq : block.used = (List.range dentPerBlock).filterMap block.entry := by
  rw [used, dents, List.filter_map, ← List.filterMap_eq_map', ← List.filterMap_eq_filter,
    List.filterMap_filterMap]
  apply List.filterMap_congr
  intro j _
  simp only [entry, inoOf, Function.comp_apply, Option.guard]
  by_cases unused : block.word (dentSize / 4 * j + (fnLen + 1) / 4) = dentryInvalidIno
  · simp [unused]
  · simp [unused]

/-- A name that ends is read within its own bytes. -/
theorem str_eq (inside : j < dentPerBlock) (ends : 0 ∈ block.nameBytes j) :
    block.str (dentSize * j) = (block.nameBytes j).takeWhile fun c => c ≠ 0 := by
  have room : dentSize * j + (fnLen + 1) ≤ blockSize := by
    simp only [dentPerBlock, dentSize, fnLen, blockSize] at *
    omega
  have split : (List.range' (dentSize * j) (blockSize - dentSize * j)).map block.byte =
      block.nameBytes j ++ (List.range' (dentSize * j + (fnLen + 1))
        (blockSize - dentSize * j - (fnLen + 1))).map block.byte := by
    rw [nameBytes, show blockSize - dentSize * j =
      (fnLen + 1) + (blockSize - dentSize * j - (fnLen + 1)) by omega, ← List.range'_append,
      List.map_append, Nat.one_mul, List.range_eq_range', List.range'_eq_map_range,
      List.map_map, Nat.add_sub_cancel_left, List.range_eq_range']
    rfl
  rw [str, split, List.takeWhile_append, if_neg]
  -- The names bytes are not all characters of the name, since one of them is its end.
  intro all
  have whole := List.takeWhile_prefix (p := fun c : UInt8 => decide (c ≠ 0))
    (l := block.nameBytes j)
  have same := whole.eq_of_length all
  rw [← same] at ends
  have := List.mem_takeWhile_imp ends
  simp at this

/-- An entry is known from the inode and the bytes of its name. -/
theorem entry_congr {j' : Nat} (inside : j < dentPerBlock) (inside' : j' < dentPerBlock)
    (ino_ : next.inoOf j' = block.inoOf j)
    (name : next.nameBytes j' = block.nameBytes j)
    (ends : block.inoOf j ≠ dentryInvalidIno → 0 ∈ block.nameBytes j) :
    next.entry j' = block.entry j := by
  unfold entry
  rw [ino_]
  by_cases unused : block.inoOf j = dentryInvalidIno
  · rw [if_pos unused, if_pos unused]
  · rw [if_neg unused, if_neg unused, str_eq inside (ends unused),
      str_eq inside' (by rw [name]; exact ends unused), name]

/-! ## Writing entries -/

/-- The bytes after an inode was written. -/
theorem byte_setIno {x : Nat} (inside : x < blockSize) : (block.setIno j ino).byte x =
    if dentSize * j + fnLen + 1 ≤ x ∧ x < dentSize * (j + 1) then
      UInt8.ofNat (ino / 256 ^ (x - (dentSize * j + fnLen + 1)))
    else block.byte x := by
  simp only [byte, setIno, dif_pos inside]

/-- The bytes after a name was written. -/
theorem byte_setFname {x : Nat} (inside : x < blockSize) : (block.setFname j fname).byte x =
    if dentSize * j ≤ x ∧ x < dentSize * j + fnLen + 1 then
      (GfsVolume.strncpy fname fnLen).getD (x - dentSize * j) 0
    else block.byte x := by
  simp only [byte, setFname, dif_pos inside]

/-- The inode that was written is read back. -/
theorem inoOf_setIno_same (inside : j < dentPerBlock) (small : ino < 2 ^ 32) :
    (block.setIno j ino).inoOf j = ino := by
  have bound : j < 64 := inside
  have parts : ∀ k < 4, (block.setIno j ino).byte (4 * (16 * j + 15) + k) =
      UInt8.ofNat (ino / 256 ^ k) := by
    intro k few
    rw [byte_setIno (by simp only [blockSize]; omega), if_pos (by
      simp only [dentSize, fnLen]
      omega)]
    congr 2
    simp only [dentSize, fnLen]
    congr 1
    omega
  have first := parts 0 (by decide)
  rw [Nat.add_zero] at first
  show (block.setIno j ino).word (16 * j + 15) = ino
  rw [word, first, parts 1 (by decide), parts 2 (by decide), parts 3 (by decide)]
  simp only [UInt8.toNat_ofNat']
  omega

/-- The inodes of the other entries stay. -/
theorem inoOf_setIno_other {j' : Nat} (inside : j' < dentPerBlock) (apart : j' ≠ j) :
    (block.setIno j ino).inoOf j' = block.inoOf j' := by
  have bound : j' < 64 := inside
  have parts : ∀ k < 4, (block.setIno j ino).byte (4 * (16 * j' + 15) + k) =
      block.byte (4 * (16 * j' + 15) + k) := by
    intro k few
    rw [byte_setIno (by simp only [blockSize]; omega), if_neg (by
      simp only [dentSize, fnLen]
      omega)]
  have first := parts 0 (by decide)
  rw [Nat.add_zero] at first
  show (block.setIno j ino).word (16 * j' + 15) = block.word (16 * j' + 15)
  rw [word, word, first, parts 1 (by decide), parts 2 (by decide), parts 3 (by decide)]

/-- Writing an inode leaves all names. -/
theorem nameBytes_setIno {j' : Nat} (inside : j' < dentPerBlock) :
    (block.setIno j ino).nameBytes j' = block.nameBytes j' := by
  have bound : j' < 64 := inside
  apply List.map_congr_left
  intro k mem
  have few : k < 60 := List.mem_range.mp mem
  rw [byte_setIno (by simp only [blockSize, dentSize, fnLen]; omega), if_neg (by
    simp only [dentSize, fnLen]
    omega)]

/-- Writing a name leaves all inodes. -/
theorem inoOf_setFname {j' : Nat} (inside : j' < dentPerBlock) :
    (block.setFname j fname).inoOf j' = block.inoOf j' := by
  have bound : j' < 64 := inside
  have parts : ∀ k < 4, (block.setFname j fname).byte (4 * (16 * j' + 15) + k) =
      block.byte (4 * (16 * j' + 15) + k) := by
    intro k few
    rw [byte_setFname (by simp only [blockSize]; omega), if_neg (by
      simp only [dentSize, fnLen]
      omega)]
  have first := parts 0 (by decide)
  rw [Nat.add_zero] at first
  show (block.setFname j fname).word (16 * j' + 15) = block.word (16 * j' + 15)
  rw [word, word, first, parts 1 (by decide), parts 2 (by decide), parts 3 (by decide)]

/-- Writing a name leaves the other names. -/
theorem nameBytes_setFname_other {j' : Nat} (inside : j' < dentPerBlock) (apart : j' ≠ j) :
    (block.setFname j fname).nameBytes j' = block.nameBytes j' := by
  have bound : j' < 64 := inside
  apply List.map_congr_left
  intro k mem
  have few : k < 60 := List.mem_range.mp mem
  rw [byte_setFname (by simp only [blockSize, dentSize, fnLen]; omega), if_neg (by
    simp only [dentSize, fnLen]
    omega)]

/-- The name that was written ends. -/
theorem nameBytes_setFname_same (inside : j < dentPerBlock) :
    (block.setFname j fname).nameBytes j = GfsVolume.strncpy fname fnLen ++ [0] := by
  have bound : j < 64 := inside
  have length : (GfsVolume.strncpy fname fnLen).length = fnLen := by
    rw [GfsVolume.strncpy, List.length_append, List.length_take, List.length_replicate]
    omega
  apply List.ext_getElem?
  intro k
  rw [nameBytes, List.getElem?_map, List.getElem?_append]
  by_cases few : k < fnLen + 1
  · rw [List.getElem?_range few, Option.map_some, byte_setFname (by
      simp only [blockSize, dentSize, fnLen] at *
      omega), if_pos (by omega), Nat.add_sub_cancel_left, length]
    by_cases name : k < fnLen
    · rw [if_pos name, List.getD_eq_getElem?_getD, List.getElem?_eq_getElem (by omega),
        Option.getD_some]
    · rw [if_neg name, List.getD_eq_default _ _ (by omega), show k - fnLen = 0 by omega]
      rfl
  · rw [List.getElem?_eq_none (by simpa using few), if_neg (by omega),
      List.getElem?_eq_none (by rw [List.length_singleton]; omega), Option.map_none]

/-- It is the name up to `FNLEN` characters. -/
theorem takeWhile_strncpy (clean : ∀ c ∈ fname, c ≠ 0) :
    ((GfsVolume.strncpy fname fnLen ++ [0]).takeWhile fun c => c ≠ 0) = fname.take fnLen := by
  have zeros : ∀ n, (List.replicate n (0 : UInt8) ++ [0]).takeWhile (fun c => c ≠ 0) = [] := by
    intro n
    cases n with
    | zero => rfl
    | succ n => rfl
  rw [GfsVolume.strncpy, List.append_assoc, List.takeWhile_append_of_pos, zeros, List.append_nil]
  intro c member
  simpa using clean c (List.mem_of_mem_take member)

/-! ## What becomes of the entries -/

/-- One entry was changed, and the others stay. -/
structure Changed (block next : Block) (j : Nat) (new : Option GfsDentry) : Prop where
  /-- Entry by entry. -/
  entries : ∀ j' < dentPerBlock, next.entry j' = Function.update block.entry j new j'
  /-- Names still end. -/
  ended : next.Ended

/-- Writing an entry. -/
theorem setDent_changed (inside : j < dentPerBlock) (ended : block.Ended)
    (clean : ∀ c ∈ fname, c ≠ 0) (valid : ino < dentryInvalidIno) :
    Changed block (block.setDent j fname ino) j (some ⟨fname.take fnLen, ino⟩) := by
  have small : ino < 2 ^ 32 := by
    simp only [dentryInvalidIno, uint32Max] at valid
    omega
  have isIno : (block.setDent j fname ino).inoOf j = ino := inoOf_setIno_same inside small
  have isName : (block.setDent j fname ino).nameBytes j =
      GfsVolume.strncpy fname fnLen ++ [0] := by
    rw [setDent, nameBytes_setIno inside, nameBytes_setFname_same inside]
  have ends : 0 ∈ (block.setDent j fname ino).nameBytes j := by
    rw [isName]
    exact List.mem_append_right _ List.mem_cons_self
  have others : ∀ j' < dentPerBlock, j' ≠ j →
      (block.setDent j fname ino).inoOf j' = block.inoOf j' ∧
        (block.setDent j fname ino).nameBytes j' = block.nameBytes j' := by
    intro j' inside' apart
    rw [setDent, inoOf_setIno_other inside' apart, inoOf_setFname inside',
      nameBytes_setIno inside', nameBytes_setFname_other inside' apart]
    exact ⟨rfl, rfl⟩
  constructor
  · intro j' inside'
    by_cases here : j' = j
    · subst here
      rw [Function.update_self, entry, isIno, if_neg (Nat.ne_of_lt valid), str_eq inside ends,
        isName, takeWhile_strncpy clean]
    · obtain ⟨ino_, name⟩ := others j' inside' here
      rw [Function.update_of_ne here]
      exact entry_congr inside' inside' ino_ name (ended j' inside')
  · intro j' inside' isUsed
    by_cases here : j' = j
    · subst here
      exact ends
    · obtain ⟨ino_, name⟩ := others j' inside' here
      rw [name]
      rw [ino_] at isUsed
      exact ended j' inside' isUsed

/-- Giving an entry up. -/
theorem setIno_changed (inside : j < dentPerBlock) (ended : block.Ended) :
    Changed block (block.setIno j dentryInvalidIno) j none := by
  have gone : (block.setIno j dentryInvalidIno).inoOf j = dentryInvalidIno :=
    inoOf_setIno_same inside (by decide)
  constructor
  · intro j' inside'
    by_cases here : j' = j
    · subst here
      rw [Function.update_self, entry, if_pos gone]
    · rw [Function.update_of_ne here]
      exact entry_congr inside' inside' (inoOf_setIno_other inside' here)
        (nameBytes_setIno inside') (ended j' inside')
  · intro j' inside' isUsed
    by_cases here : j' = j
    · subst here
      exact absurd gone isUsed
    · rw [inoOf_setIno_other inside' here] at isUsed
      rw [nameBytes_setIno inside']
      exact ended j' inside' isUsed

/-- The list of used entries, around the one that was changed. -/
theorem Changed.used {new : Option GfsDentry} (changed : Changed block next j new)
    (inside : j < dentPerBlock) : ∃ front back,
      block.used = front ++ ((block.entry j).toList ++ back) ∧
        next.used = front ++ (new.toList ++ back) := by
  obtain ⟨front, back, old, same⟩ := filterMap_update List.nodup_range
    (List.mem_range.mpr inside) block.entry new
  refine ⟨front, back, ?_, ?_⟩
  · rw [used_eq, old]
  · rw [used_eq, ← same]
    apply List.filterMap_congr
    intro j' mem
    exact changed.entries j' (List.mem_range.mp mem)

/-- A block of entries that is new holds one. -/
theorem freshDents_used (debbuf : Block) (clean : ∀ c ∈ fname, c ≠ 0)
    (valid : ino < dentryInvalidIno) :
    (debbuf.freshDents fname ino).used = [⟨fname.take fnLen, ino⟩] ∧
      (debbuf.freshDents fname ino).Ended := by
  have small : ino < 2 ^ 32 := by
    simp only [dentryInvalidIno, uint32Max] at valid
    omega
  -- What the loop over the other entries does to each of them.
  have loop : ∀ (js : List Nat) (start : Block), (∀ j ∈ js, j < dentPerBlock) →
      ∀ j < dentPerBlock,
        (js.foldl (fun block j => block.setIno j dentryInvalidIno) start).inoOf j =
            (if j ∈ js then dentryInvalidIno else start.inoOf j) ∧
          (js.foldl (fun block j => block.setIno j dentryInvalidIno) start).nameBytes j =
            start.nameBytes j := by
    intro js
    induction js with
    | nil =>
      intro start _ j _
      exact ⟨rfl, rfl⟩
    | cons first rest ih =>
      intro start bounds j inside
      obtain ⟨ino_, name⟩ := ih (start.setIno first dentryInvalidIno)
        (fun j mem => bounds j (List.mem_cons_of_mem _ mem)) j inside
      rw [List.foldl_cons, ino_, name, nameBytes_setIno inside]
      refine ⟨?_, rfl⟩
      by_cases later : j ∈ rest
      · rw [if_pos later, if_pos (List.mem_cons_of_mem _ later)]
      · rw [if_neg later]
        by_cases here : j = first
        · subst here
          rw [if_pos List.mem_cons_self, inoOf_setIno_same inside (by decide)]
        · rw [if_neg (by simp [here, later]), inoOf_setIno_other inside here]
  have each := loop (List.range' 1 (dentPerBlock - 1)) (debbuf.setDent 0 fname ino) (by
    intro j mem
    have bounds := List.mem_range'_1.mp mem
    omega)
  have first : 0 < dentPerBlock := by decide
  have isIno : (debbuf.freshDents fname ino).inoOf 0 = ino := by
    rw [freshDents, (each 0 first).1, if_neg (by simp)]
    exact inoOf_setIno_same first small
  have isName : (debbuf.freshDents fname ino).nameBytes 0 =
      GfsVolume.strncpy fname fnLen ++ [0] := by
    rw [freshDents, (each 0 first).2, setDent, nameBytes_setIno first,
      nameBytes_setFname_same first]
  have ends : 0 ∈ (debbuf.freshDents fname ino).nameBytes 0 := by
    rw [isName]
    exact List.mem_append_right _ List.mem_cons_self
  have others : ∀ j < dentPerBlock, j ≠ 0 →
      (debbuf.freshDents fname ino).inoOf j = dentryInvalidIno := by
    intro j inside apart
    rw [freshDents, (each j inside).1, if_pos]
    rw [List.mem_range'_1]
    omega
  constructor
  · have parts : List.range dentPerBlock = 0 :: (List.range (dentPerBlock - 1)).map Nat.succ :=
      List.range_succ_eq_map
    have isEntry : (debbuf.freshDents fname ino).entry 0 = some ⟨fname.take fnLen, ino⟩ := by
      rw [entry, isIno, if_neg (Nat.ne_of_lt valid), str_eq first ends, isName,
        takeWhile_strncpy clean]
    have rest : ((List.range (dentPerBlock - 1)).map Nat.succ).filterMap
        (debbuf.freshDents fname ino).entry = [] := by
      rw [List.filterMap_eq_nil_iff]
      intro j mem
      obtain ⟨k, below, rfl⟩ := List.mem_map.mp mem
      have bound := List.mem_range.mp below
      rw [entry, if_pos (others _ (by omega) (Nat.succ_ne_zero k))]
    rw [used_eq, parts, List.filterMap_cons, isEntry, rest]
  · intro j inside isUsed
    by_cases here : j = 0
    · subst here
      exact ends
    · exact absurd (others j inside here) isUsed

/-- The first entry that is not used. -/
theorem freeDent_some {free : Nat} (found : block.freeDent = some free) :
    free < dentPerBlock ∧ block.entry free = none := by
  obtain ⟨inside, unused, -⟩ := List.findIdx?_eq_some_iff_getElem.mp found
  have bound : free < dentPerBlock := by simpa [dents] using inside
  refine ⟨bound, if_pos ?_⟩
  simpa [dents, inoOf] using unused

/-- A block without unused entries is full. -/
theorem freeDent_none (none_ : block.freeDent = none) : block.used.length = dentPerBlock := by
  rw [used, List.filter_eq_self.mpr]
  · simp [dents]
  · intro dent mem
    have isUsed := List.findIdx?_eq_none_iff.mp none_ dent mem
    simpa using isUsed

end Block

end GlucOS
