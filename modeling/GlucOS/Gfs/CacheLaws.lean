import GlucOS.Gfs.Cache

/-! The block cache is invisible: it answers as the disk alone would. -/

namespace GlucOS

/-- The disk as a map from block indexes to contents, with the answer each call should give. -/
def blockMapStep (map : Nat → Block) : GfscCall → Option Block × (Nat → Block)
  | .read bidx => (some (map bidx), map)
  | .write bidx data => (none, Function.update map bidx data)
  | .inv _ => (none, map)

/-- Block indexes whose sector number `bidx * SEC_PER_BLOCK` does not wrap in 32 bits. -/
def BidxFits (bidx : Nat) : Prop := bidx < 2 ^ 29

/-- Sector numbers of fitting blocks are computed exactly. -/
theorem BidxFits.sec {bidx : Nat} (fits : BidxFits bidx) :
    u32 (bidx * secPerBlock) = bidx * secPerBlock := by
  apply u32_of_lt
  simp only [BidxFits, secPerBlock, blockSize, sectorSize] at *
  omega

/-- No two valid lines carry the same tag. -/
def TagsUnique (cache : Gfsc) : Prop :=
  ∀ (i j : Nat) (first second : GfscLine), cache.blocks[i]? = some first →
    cache.blocks[j]? = some second → first.tag = second.tag → first.tag ≠ 0 → i = j

/-- Every valid line holds the disk contents of the block its tag names. -/
def LinesExact (cache : Gfsc) : Prop :=
  ∀ line ∈ cache.blocks, line.tag ≠ 0 →
    line.block = gfsReadSec cache.disk (line.tag * secPerBlock)

/-- The disk holds the map at every index that fits. -/
def DiskHolds (cache : Gfsc) (map : Nat → Block) : Prop :=
  ∀ bidx, BidxFits bidx → gfsReadSec cache.disk (bidx * secPerBlock) = map bidx

/-- The cache over a disk that holds `map`. -/
structure GfscOk (cache : Gfsc) (map : Nat → Block) : Prop where
  /-- There is a line to use. -/
  someLine : 0 < cache.blocks.length
  /-- Line numbers survive the cast to `uint16_t`. -/
  fewLines : cache.blocks.length ≤ 2 ^ 16
  /-- The order has one entry for each line. -/
  orderSize : cache.lruAseq.length = cache.blocks.length
  /-- The order names existing lines. -/
  orderLines : ∀ i ∈ cache.lruAseq, i < cache.blocks.length
  /-- Only fitting indexes are cached. -/
  tagFits : ∀ line ∈ cache.blocks, line.tag ≠ 0 → BidxFits line.tag
  /-- Valid lines agree with the map. -/
  lineHolds : ∀ line ∈ cache.blocks, line.tag ≠ 0 → line.block = map line.tag
  /-- Valid tags are unique. -/
  unique : TagsUnique cache
  /-- The disk holds the map: the cache is write-through. -/
  diskHolds : DiskHolds cache map

/-- Valid lines equal the disk because both equal the map. -/
theorem GfscOk.linesExact {cache : Gfsc} {map : Nat → Block} (ok : GfscOk cache map) :
    LinesExact cache := by
  intro line member valid
  rw [ok.lineHolds line member valid, ok.diskHolds line.tag (ok.tagFits line member valid)]

/-! Searching and evicting. -/

/-- A successful search names a line with the tag. -/
theorem Gfsc.search_hit {cache : Gfsc} {tag : Nat} (hit : cache.search tag < cache.blocks.length)
    (few : cache.blocks.length ≤ uint32Max) :
    ∃ line, cache.blocks[cache.search tag]? = some line ∧ line.tag = tag := by
  unfold Gfsc.search at *
  cases found : cache.blocks.findIdx? fun line => line.tag == tag with
  | none => simp only [found] at hit; omega
  | some i =>
    obtain ⟨inside, named, -⟩ := List.findIdx?_eq_some_iff_getElem.mp found
    exact ⟨cache.blocks[i], by simp [inside], by simpa using named⟩

/-- A failed search means that no line carries the tag. -/
theorem Gfsc.search_miss {cache : Gfsc} {tag : Nat}
    (miss : cache.blocks.length ≤ cache.search tag) :
    ∀ line ∈ cache.blocks, line.tag ≠ tag := by
  unfold Gfsc.search at miss
  cases found : cache.blocks.findIdx? fun line => line.tag == tag with
  | none => simpa [List.findIdx?_eq_none_iff] using found
  | some i =>
    obtain ⟨inside, -, -⟩ := List.findIdx?_eq_some_iff_getElem.mp found
    simp only [found] at miss
    omega

/-- With a sound LRU order there is always a victim among the lines. -/
theorem GfscOk.victim {cache : Gfsc} {map : Nat → Block} (ok : GfscOk cache map) :
    ∃ i, cache.victim = some i ∧ i < cache.blocks.length := by
  unfold Gfsc.victim
  cases found : cache.blocks.findIdx? fun line => line.tag == 0 with
  | some i =>
    obtain ⟨inside, -, -⟩ := List.findIdx?_eq_some_iff_getElem.mp found
    exact ⟨i, rfl, inside⟩
  | none =>
    have someLine := ok.someLine
    rw [u32Sub_of_le someLine]
    have last : cache.blocks.length - 1 < cache.lruAseq.length := by rw [ok.orderSize]; omega
    exact ⟨cache.lruAseq[cache.blocks.length - 1], by simp [last],
      ok.orderLines _ (List.getElem_mem last)⟩

/-- Choosing a victim retags one existing line. -/
theorem GfscOk.scanOrEvict {cache : Gfsc} {map : Nat → Block} (ok : GfscOk cache map)
    (tag : Nat) : ∃ he line, cache.blocks[he]? = some line ∧ he < cache.blocks.length ∧
      cache.scanOrEvict tag =
        some (he, { cache with blocks := cache.blocks.set he { line with tag } }) := by
  obtain ⟨he, chosen, inside⟩ := ok.victim
  refine ⟨he, cache.blocks[he], by simp [inside], inside, ?_⟩
  simp [Gfsc.scanOrEvict, chosen, List.getElem?_eq_getElem inside]

/-! The LRU order keeps naming existing lines. -/

/-- Shifting keeps the length of the order. -/
@[simp] theorem Gfsc.lruShift_length (aseq : List Nat) (i : Nat) :
    (Gfsc.lruShift aseq i).length = aseq.length := by
  induction i generalizing aseq with
  | zero => rfl
  | succ i ih => simp [Gfsc.lruShift, ih]

/-- Shifting only copies entries that were already there. -/
theorem Gfsc.lruShift_mem {aseq : List Nat} {i entry : Nat} (inside : i < aseq.length)
    (member : entry ∈ Gfsc.lruShift aseq i) : entry ∈ aseq := by
  induction i generalizing aseq with
  | zero => exact member
  | succ i ih =>
    have kept := ih (by simp; omega) member
    rcases List.mem_or_eq_of_mem_set kept with old | copied
    · exact old
    · have old : i < aseq.length := by omega
      simp [copied, old]

/-- The downward search never passes its starting position. -/
theorem Gfsc.lruFind_le (aseq : List Nat) (line start : Nat) :
    Gfsc.lruFind aseq line start ≤ start := by
  induction start with
  | zero => simp [Gfsc.lruFind]
  | succ start ih =>
    simp only [Gfsc.lruFind]
    split <;> omega

/-- Reordering leaves the lines alone. -/
@[simp] theorem Gfsc.aseqMove_blocks (cache : Gfsc) (line : Nat) :
    (cache.aseqMove line).blocks = cache.blocks := rfl

/-- Reordering leaves the disk alone. -/
@[simp] theorem Gfsc.aseqMove_disk (cache : Gfsc) (line : Nat) :
    (cache.aseqMove line).disk = cache.disk := rfl

/-- Moving an existing line to the front keeps the whole cache sound. -/
theorem GfscOk.aseqMove {cache : Gfsc} {map : Nat → Block} (ok : GfscOk cache map) (line : Nat)
    (inside : line < cache.blocks.length) : GfscOk (cache.aseqMove line) map where
  someLine := by simpa using ok.someLine
  fewLines := by simpa using ok.fewLines
  orderSize := by simp [Gfsc.aseqMove, ok.orderSize]
  orderLines := by
    intro entry member
    have start := Gfsc.lruFind_le cache.lruAseq line (u32Sub cache.blocks.length 1)
    rw [u32Sub_of_le ok.someLine] at start
    rcases List.mem_or_eq_of_mem_set member with old | placed
    · rw [u32Sub_of_le ok.someLine] at old
      have size := ok.orderSize
      exact ok.orderLines _ (Gfsc.lruShift_mem (by omega) old)
    · exact placed ▸ inside
  tagFits := by simpa using ok.tagFits
  lineHolds := by simpa using ok.lineHolds
  unique := by simpa [TagsUnique] using ok.unique
  diskHolds := by simpa [DiskHolds] using ok.diskHolds

/-! Placing a block in a line. -/

/-- Modifying an entry that was just set changes the value that is set. -/
theorem set_modify_same {α : Type*} (entries : List α) (i : Nat) (value : α)
    (change : α → α) : (entries.set i value).modify i change = entries.set i (change value) := by
  apply List.ext_getElem?
  intro j
  by_cases same : i = j
  · subst same
    by_cases inside : i < entries.length <;> simp [inside]
  · simp [same]

/-- Modifying a known entry sets its changed value. -/
theorem modify_eq_set {α : Type*} {entries : List α} {i : Nat} {value : α}
    (at_ : entries[i]? = some value) (change : α → α) :
    entries.modify i change = entries.set i (change value) := by
  have inside : i < entries.length := (List.getElem?_eq_some_iff.mp at_).1
  rw [← set_modify_same, ← (List.getElem?_eq_some_iff.mp at_).2, List.set_getElem_self]

/--
A line may take over a block that no other line holds.

Reads place what the map already holds; writes place new contents on the line and the disk.
-/
theorem GfscOk.place {cache : Gfsc} {map : Nat → Block} (ok : GfscOk cache map) (he : Nat)
    {bidx : Nat} (data : Block) (disk : Disk) (fits : BidxFits bidx)
    (fresh : ∀ j line, cache.blocks[j]? = some line → line.tag = bidx → bidx ≠ 0 → j = he)
    (stored : DiskHolds { cache with disk } (Function.update map bidx data)) :
    GfscOk { cache with blocks := cache.blocks.set he ⟨data, bidx⟩, disk }
      (Function.update map bidx data) := by
  -- A line of the new cache is the placed one or an old one at another position.
  have split : ∀ j line, (cache.blocks.set he ⟨data, bidx⟩)[j]? = some line →
      (j = he ∧ line = ⟨data, bidx⟩) ∨ (j ≠ he ∧ cache.blocks[j]? = some line) := by
    intro j line at_
    rw [List.getElem?_set] at at_
    split at at_
    · rename_i same
      split at at_
      · exact .inl ⟨same.symm, (Option.some.inj at_).symm⟩
      · exact absurd at_ (by simp)
    · rename_i other
      exact .inr ⟨fun same => other same.symm, at_⟩
  have keep : ∀ j line, j ≠ he → cache.blocks[j]? = some line → line.tag ≠ 0 →
      line.tag ≠ bidx := by
    intro j line other at_ valid same
    exact other (fresh j line at_ same (same ▸ valid))
  refine ⟨by simpa using ok.someLine, by simpa using ok.fewLines, by simpa using ok.orderSize,
    by simpa using ok.orderLines, ?_, ?_, ?_, stored⟩
  · intro line member valid
    obtain ⟨j, at_⟩ := List.mem_iff_getElem?.mp member
    rcases split j line at_ with ⟨-, rfl⟩ | ⟨-, old⟩
    · exact fits
    · exact ok.tagFits line (List.mem_of_getElem? old) valid
  · intro line member valid
    obtain ⟨j, at_⟩ := List.mem_iff_getElem?.mp member
    rcases split j line at_ with ⟨-, rfl⟩ | ⟨other, old⟩
    · simp
    · rw [Function.update_of_ne (keep j line other old valid)]
      exact ok.lineHolds line (List.mem_of_getElem? old) valid
  · unfold TagsUnique
    intro i j first second atFirst atSecond same valid
    rcases split i first atFirst with ⟨rfl, rfl⟩ | ⟨otherFirst, oldFirst⟩
    · rcases split j second atSecond with ⟨rfl, -⟩ | ⟨otherSecond, oldSecond⟩
      · rfl
      · exact (otherSecond (fresh j second oldSecond same.symm valid)).elim
    · rcases split j second atSecond with ⟨rfl, rfl⟩ | ⟨-, oldSecond⟩
      · exact (keep i first otherFirst oldFirst valid same).elim
      · exact ok.unique i j first second oldFirst oldSecond same valid

/-- Writing a block to the disk updates the map at exactly that index. -/
theorem GfscOk.diskHolds_write {cache : Gfsc} {map : Nat → Block} (ok : GfscOk cache map)
    (bidx : Nat) (data : Block) :
    DiskHolds { cache with disk := gfsWriteSec cache.disk (bidx * secPerBlock) data }
      (Function.update map bidx data) := by
  intro other fits
  by_cases same : other = bidx
  · subst same; simp
  · rw [Function.update_of_ne same, gfsReadSec_write_apart _ _ (by
      simp only [secPerBlock, blockSize, sectorSize]
      omega)]
    exact ok.diskHolds other fits

/-- The performance counters play no part in soundness. -/
theorem GfscOk.of_fields {cache other : Gfsc} {map : Nat → Block} (ok : GfscOk cache map)
    (blocks : other.blocks = cache.blocks) (order : other.lruAseq = cache.lruAseq)
    (disk : other.disk = cache.disk) : GfscOk other map := by
  rcases cache with ⟨_, _, _, _, _, _, _⟩
  rcases other with ⟨_, _, _, _, _, _, _⟩
  simp only at blocks order disk
  subst blocks order disk
  exact ⟨ok.someLine, ok.fewLines, ok.orderSize, ok.orderLines, ok.tagFits, ok.lineHolds,
    ok.unique, ok.diskHolds⟩

/-! Each call answers as the map does. -/

/-- A read returns the map's block and leaves the map alone. -/
theorem GfscOk.readBlock {cache : Gfsc} {map : Nat → Block} (ok : GfscOk cache map) {bidx : Nat}
    (nonzero : bidx ≠ 0) (fits : BidxFits bidx) :
    ∃ flag next, cache.readBlock bidx = some ((flag, map bidx), next) ∧ GfscOk next map := by
  have few := ok.fewLines
  by_cases hit : cache.search bidx < cache.blocks.length
  · -- The line that was found already holds the map's block.
    obtain ⟨line, at_, named⟩ := Gfsc.search_hit hit (Nat.le_trans few (by decide))
    have small : cache.search bidx % 65536 = cache.search bidx := Nat.mod_eq_of_lt (by omega)
    have held : line.block = map bidx := by
      rw [ok.lineHolds line (List.mem_of_getElem? at_) (named ▸ nonzero), named]
    refine ⟨0, { cache with rdhit := cache.rdhit + 1 }.aseqMove (cache.search bidx), ?_, ?_⟩
    · simp [Gfsc.readBlock, Nat.not_le.mpr hit, small, at_, held]
    · have counted : GfscOk { cache with rdhit := cache.rdhit + 1 } map := ok.of_fields rfl rfl rfl
      exact counted.aseqMove _ hit
  · -- A miss loads the disk's block into a line no other line competes with.
    have miss := Gfsc.search_miss (Nat.le_of_not_lt hit)
    obtain ⟨he, line, at_, inside, chosen⟩ := ok.scanOrEvict bidx
    have small : he % 65536 = he := Nat.mod_eq_of_lt (by omega)
    have loaded : gfsReadSec cache.disk (u32 (bidx * secPerBlock)) = map bidx := by
      rw [fits.sec, ok.diskHolds bidx fits]
    have same : Function.update map bidx (map bidx) = map := Function.update_eq_self bidx map
    have placed := ok.place he (map bidx) cache.disk fits
      (fun j other held tagged _ => (miss other (List.mem_of_getElem? held) tagged).elim)
      (same.symm ▸ ok.diskHolds)
    rw [same] at placed
    have counted : GfscOk { cache with
      blocks := cache.blocks.set he ⟨map bidx, bidx⟩, rdmiss := cache.rdmiss + 1 } map :=
      placed.of_fields rfl rfl rfl
    refine ⟨1, _, ?_, counted.aseqMove he (by simpa using inside)⟩
    simp [Gfsc.readBlock, Nat.le_of_not_lt hit, chosen, small, loaded, inside, set_modify_same]

/-- A write changes the map at its index, on the disk as well as in the line. -/
theorem GfscOk.writeBlock {cache : Gfsc} {map : Nat → Block} (ok : GfscOk cache map) {bidx : Nat}
    (fits : BidxFits bidx) (data : Block) :
    ∃ flag next, cache.writeBlock bidx data = some (flag, next) ∧
      GfscOk next (Function.update map bidx data) := by
  have few := ok.fewLines
  have stored := ok.diskHolds_write bidx data
  by_cases hit : cache.search bidx < cache.blocks.length
  · -- The line found is the only one with this tag, so it may be overwritten in place.
    obtain ⟨line, at_, named⟩ := Gfsc.search_hit hit (Nat.le_trans few (by decide))
    have small : cache.search bidx % 65536 = cache.search bidx := Nat.mod_eq_of_lt (by omega)
    have placed := ok.place (cache.search bidx) data _ fits
      (fun j other held tagged valid => ok.unique j _ other line held at_
        (tagged.trans named.symm) (tagged ▸ valid)) stored
    have counted : GfscOk { cache with
      blocks := cache.blocks.set (cache.search bidx) ⟨data, bidx⟩
      disk := gfsWriteSec cache.disk (bidx * secPerBlock) data
      wrhit := cache.wrhit + 1 } (Function.update map bidx data) := placed.of_fields rfl rfl rfl
    refine ⟨0, _, ?_, counted.aseqMove (cache.search bidx) (by simpa using hit)⟩
    simp [Gfsc.writeBlock, Nat.not_le.mpr hit, small, at_, named, fits.sec, Gfsc.aseqMove,
      modify_eq_set at_]
  · -- A miss takes over a line, whose old block stays on the disk.
    have miss := Gfsc.search_miss (Nat.le_of_not_lt hit)
    obtain ⟨he, line, at_, inside, chosen⟩ := ok.scanOrEvict bidx
    have small : he % 65536 = he := Nat.mod_eq_of_lt (by omega)
    have placed := ok.place he data _ fits
      (fun j other held tagged _ => (miss other (List.mem_of_getElem? held) tagged).elim) stored
    have counted : GfscOk { cache with
      blocks := cache.blocks.set he ⟨data, bidx⟩
      disk := gfsWriteSec cache.disk (bidx * secPerBlock) data
      wrmiss := cache.wrmiss + 1 } (Function.update map bidx data) := placed.of_fields rfl rfl rfl
    refine ⟨1, _, ?_, counted.aseqMove he (by simpa using inside)⟩
    simp [Gfsc.writeBlock, Nat.le_of_not_lt hit, chosen, small, inside, fits.sec,
      set_modify_same, Gfsc.aseqMove]

/-- Invalidating a line changes nothing a reader can see. -/
theorem GfscOk.scanAndInv {cache : Gfsc} {map : Nat → Block} (ok : GfscOk cache map)
    (tag : Nat) : GfscOk (cache.scanAndInv tag).2 map := by
  unfold Gfsc.scanAndInv
  cases found : cache.blocks.findIdx? fun line => line.tag == tag with
  | none => exact ok
  | some i =>
    -- A valid line of the new cache is an old line at the same position.
    have old : ∀ (j : Nat) (line : GfscLine),
        (cache.blocks.modify i fun line => { line with tag := 0 })[j]? = some line →
        line.tag ≠ 0 → cache.blocks[j]? = some line := by
      intro j line at_ valid
      rw [List.getElem?_modify] at at_
      obtain ⟨before, held, same⟩ := Option.map_eq_some_iff.mp at_
      split at same
      · exact absurd (same ▸ rfl) valid
      · exact same ▸ held
    have mem : ∀ line ∈ cache.blocks.modify i fun line => { line with tag := 0 },
        line.tag ≠ 0 → line ∈ cache.blocks := by
      intro line member valid
      obtain ⟨j, at_⟩ := List.mem_iff_getElem?.mp member
      exact List.mem_of_getElem? (old j line at_ valid)
    refine ⟨by simpa using ok.someLine, by simpa using ok.fewLines, by simpa using ok.orderSize,
      by simpa using ok.orderLines, fun line member valid => ok.tagFits line (mem line member valid)
      valid, fun line member valid => ok.lineHolds line (mem line member valid) valid, ?_,
      ok.diskHolds⟩
    intro j k first second atFirst atSecond same valid
    exact ok.unique j k first second (old j first atFirst valid)
      (old k second atSecond (same ▸ valid)) same valid

/-! Initialisation. -/

/-- No layout leaves room for more lines than a `uint16_t` can number. -/
theorem gfscBlocksNum_le (dataLoc : Nat) : gfscBlocksNum dataLoc ≤ 2 ^ 16 := by
  unfold gfscBlocksNum gfscLineSize gfsCacheEnd gfsCacheBase sectorSize blockSize
  omega

/-- After initialisation every line is invalid and the map is the disk's own contents. -/
theorem gfsCacheInit_ok {dataLoc : Nat} {memory : Nat → Block} {disk : Disk} {cache : Gfsc}
    (room : 0 < gfscBlocksNum dataLoc) (built : gfsCacheInit dataLoc memory disk = some cache) :
    GfscOk cache fun bidx => gfsReadSec disk (bidx * secPerBlock) := by
  have few := gfscBlocksNum_le dataLoc
  unfold gfsCacheInit at built
  split at built
  · simp at built
  · split at built
    · simp at built
    · cases built
      -- With every tag zero the conditions on valid lines are vacuous.
      have invalid : ∀ line ∈ (List.range (gfscBlocksNum dataLoc)).map
          fun i => (⟨memory i, 0⟩ : GfscLine), line.tag = 0 := by
        intro line member
        obtain ⟨i, -, rfl⟩ := List.mem_map.mp member
        rfl
      refine ⟨by simpa using room, by simpa using few, by simp, ?_,
        fun line member valid => absurd (invalid line member) valid,
        fun line member valid => absurd (invalid line member) valid, ?_, fun _ _ => rfl⟩
      · intro i member
        obtain ⟨j, inside, rfl⟩ := List.mem_map.mp member
        have := List.mem_range.mp inside
        simp only [List.length_map, List.length_range]
        omega
      · intro i j first second atFirst _ _ valid
        exact absurd (invalid first (List.mem_of_getElem? atFirst)) valid

/-! The whole run. -/

/--
The cache is invisible to runs of legal calls: reads answer as the map of initial contents and
later writes does, the disk holds that map, valid lines equal the disk, and tags are unique.
-/
def CacheInvisible (dataLoc : Nat) (legal : Nat → Prop) : Prop :=
  ∀ (memory : Nat → Block) (disk : Disk) (cache : Gfsc),
    gfsCacheInit dataLoc memory disk = some cache →
    ∀ calls : List GfscCall, (∀ call ∈ calls, legal call.bidx) →
      ∃ last, run gfscStep cache calls = some
          ((specRun blockMapStep (fun bidx => gfsReadSec disk (bidx * secPerBlock)) calls).1,
            last) ∧
        (∀ bidx, legal bidx → gfsReadSec last.disk (u32 (bidx * secPerBlock)) =
          (specRun blockMapStep (fun bidx => gfsReadSec disk (bidx * secPerBlock)) calls).2 bidx) ∧
        LinesExact last ∧ TagsUnique last

/-- One call on a sound cache is answered by the map and keeps the cache sound. -/
theorem GfscOk.step {cache : Gfsc} {map : Nat → Block} (ok : GfscOk cache map) (call : GfscCall)
    (legal : call.bidx ≠ 0 ∧ BidxFits call.bidx) :
    ∃ next, gfscStep cache call = some ((blockMapStep map call).1, next) ∧
      GfscOk next (blockMapStep map call).2 := by
  cases call with
  | read bidx =>
    change bidx ≠ 0 ∧ BidxFits bidx at legal
    obtain ⟨flag, next, answered, kept⟩ := GfscOk.readBlock ok legal.1 legal.2
    exact ⟨next, by simp [gfscStep, answered, blockMapStep], kept⟩
  | write bidx data =>
    change bidx ≠ 0 ∧ BidxFits bidx at legal
    obtain ⟨flag, next, answered, kept⟩ := GfscOk.writeBlock ok legal.2 data
    exact ⟨next, by simp [gfscStep, answered, blockMapStep], kept⟩
  | inv tag => exact ⟨_, rfl, ok.scanAndInv tag⟩

/-- With at least one line, the cache is invisible at every non-zero index that fits. -/
theorem cache_invisible {dataLoc : Nat} (room : 0 < gfscBlocksNum dataLoc) :
    CacheInvisible dataLoc fun bidx => bidx ≠ 0 ∧ BidxFits bidx := by
  intro memory disk cache built calls allLegal
  obtain ⟨last, ran, ok⟩ := run_simulates blockMapStep GfscOk
    (fun call => call.bidx ≠ 0 ∧ BidxFits call.bidx)
    (fun state map call ok legal => ok.step call legal) calls cache _
    (gfsCacheInit_ok room built) allLegal
  refine ⟨last, ran, ?_, ok.linesExact, ok.unique⟩
  intro bidx legal
  rw [legal.2.sec]
  exact ok.diskHolds bidx legal.2

/-- The layout `GFS_init` writes leaves room for 3631 lines. -/
theorem cache_invisible_dataLoc : CacheInvisible dataLoc fun bidx => bidx ≠ 0 ∧ BidxFits bidx :=
  cache_invisible (by decide)

/--
Neither restriction can be dropped.

Block indexes 1 and 2²⁹ + 1 name the same sectors, because the sector number wraps in 32 bits, so
two writes leave the disk with only one of them. A layout whose data blocks start in the last
sector leaves no line at all, and the eviction then reads outside the order array.
-/
theorem cache_not_invisible :
    ¬ CacheInvisible dataLoc (fun bidx => bidx ≠ 0 ∧ bidx < 2 ^ 32) ∧
      ¬ CacheInvisible 32767 (fun bidx => bidx ≠ 0 ∧ bidx < 2 ^ 32) := by
  constructor
  · intro claim
    obtain ⟨cache, built⟩ : ∃ cache,
        gfsCacheInit dataLoc (fun _ _ => 0) (fun _ _ => 0) = some cache := ⟨_, rfl⟩
    obtain ⟨last, -, holds, -⟩ := claim _ _ cache built
      [.write 1 fun _ => 0, .write (2 ^ 29 + 1) fun _ => 1] (by simp [GfscCall.bidx])
    have first := holds 1 (by decide)
    have second := holds (2 ^ 29 + 1) (by decide)
    -- Both indexes are multiplied to sector 8.
    have alias_ : u32 ((2 ^ 29 + 1) * secPerBlock) = u32 (1 * secPerBlock) := by decide
    rw [alias_, first] at second
    simpa [specRun, blockMapStep] using congrFun second ⟨0, by decide⟩
  · intro claim
    obtain ⟨last, ran, -⟩ := claim (fun _ _ => 0) (fun _ _ => 0) _ rfl [.read 1]
      (by simp [GfscCall.bidx])
    have none_ : gfscBlocksNum 32767 = 0 := by decide
    simp [run, gfscStep, Gfsc.readBlock, Gfsc.search, Gfsc.scanOrEvict, Gfsc.victim,
      none_] at ran

end GlucOS
