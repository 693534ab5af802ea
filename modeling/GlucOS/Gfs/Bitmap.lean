import GlucOS.Layout
import GlucOS.Lib.Bits

/-! The bitmaps of GFS: allocation, release and counting in the cached sectors. -/

namespace GlucOS

/-- Words of 64 bits in a sector. -/
def secWords : Nat := sectorSize / 8

/-- Bits of a sector. -/
def secBits : Nat := sectorSize * 8

/-- The words of a sector, as `sector_buf_t` holds them. -/
abbrev SectorBuf := Nat → BitVec 64

/-- The cached sectors and the sectors of the disk that they mirror. -/
structure SecMem where
  /-- The sectors from `GFS_CACHE_BASE` on. -/
  cache : Nat → SectorBuf
  /-- The sectors from `GFS_base_sec` on. -/
  disk : Nat → SectorBuf

/-- The sectors of a bitmap, which lie in the cache. -/
structure SecRange where
  /-- `start_sec`. -/
  start : Nat
  /-- `end_sec`. -/
  stop : Nat
  /-- Cached sectors lie before `GFS_CACHE_END`. -/
  cached : stop * sectorSize ≤ gfsCacheEnd - gfsCacheBase

/-- How many bits a bitmap has. -/
def SecRange.bits (range : SecRange) : Nat := (range.stop - range.start) * secBits

/-- `GFS_write_sec` of one cached sector. -/
def SecMem.writeSec (mem : SecMem) (sidx : Nat) : SecMem :=
  { mem with disk := Function.update mem.disk sidx (mem.cache sidx) }

/-! ## Allocation -/

/-- The loop over the bits of a word, of which so many are left, filling `iarr`. -/
def allocBits (n base : Nat) : Nat → BitVec 64 → List Nat → BitVec 64 × List Nat
  | 0, word, iarr => (word, iarr)
  | left + 1, word, iarr =>
    if iarr.length < n then
      let j := 64 - (left + 1)
      if word &&& bitMask j = 0 then
        allocBits n base left (word ||| bitMask j) (iarr ++ [u32 (base + j)])
      else allocBits n base left word iarr
    else (word, iarr)

/-- The loop over the words of a sector; it also tells whether the sector was modified. -/
def allocWords (n base : Nat) : Nat → SectorBuf → List Nat → Bool → SectorBuf × List Nat × Bool
  | 0, buf, iarr, modified => (buf, iarr, modified)
  | left + 1, buf, iarr, modified =>
    if iarr.length < n then
      let i := secWords - (left + 1)
      if buf i ≠ BitVec.allOnes 64 then
        let (word, iarr) := allocBits n (base + i * 64) 64 (buf i) iarr
        allocWords n base left (Function.update buf i word) iarr true
      else allocWords n base left buf iarr modified
    else (buf, iarr, modified)

/-- The loop over the sectors of a bitmap. -/
def allocSecs (n start : Nat) : Nat → Nat → SecMem → List Nat → SecMem × List Nat
  | 0, _, mem, iarr => (mem, iarr)
  | left + 1, sidx, mem, iarr =>
    if iarr.length < n then
      let (buf, iarr, modified) :=
        allocWords n ((sidx - start) * secBits) secWords (mem.cache sidx) iarr false
      let mem := { mem with cache := Function.update mem.cache sidx buf }
      let mem := if modified then mem.writeSec sidx else mem
      allocSecs n start left (sidx + 1) mem iarr
    else (mem, iarr)

/-- `GFS_alloc_in_bitmap`: the indexes written to `iarr`, whose number it returns. -/
def gfsAllocInBitmap (n : Nat) (range : SecRange) (mem : SecMem) : SecMem × List Nat :=
  allocSecs n range.start (range.stop - range.start) range.start mem []

/-! ## Release and counting -/

/-- `GFS_free_in_bitmap`: 0 on success, or 1 when the index is out of range. -/
def gfsFreeInBitmap (bidx : Nat) (range : SecRange) (mem : SecMem) : SecMem × Nat :=
  if range.stop ≤ range.start ∨ u32 ((range.stop - range.start) * sectorSize * 8) ≤ bidx then
    (mem, 1)
  else
    let sidx := range.start + bidx / secBits
    let bidx := bidx % secBits
    let word := mem.cache sidx (bidx / 64) &&& ~~~bitMask (bidx % 64)
    let buf := Function.update (mem.cache sidx) (bidx / 64) word
    ({ mem with cache := Function.update mem.cache sidx buf }.writeSec sidx, 0)

/-- The loop over the words of a sector, adding up their ones. -/
def countWords (buf : SectorBuf) : Nat → Nat → Nat
  | 0, count => count
  | left + 1, count => countWords buf left (onesLoop 64 (buf (secWords - (left + 1))) count)

/-- The loop over the sectors of a bitmap. -/
def countSecs (mem : SecMem) : Nat → Nat → Nat → Nat
  | 0, _, count => count
  | left + 1, sidx, count => countSecs mem left (sidx + 1) (countWords (mem.cache sidx) secWords count)

/-- `GFS_count_in_bitmap`: the number of ones. -/
def gfsCountInBitmap (range : SecRange) (mem : SecMem) : Nat :=
  countSecs mem (range.stop - range.start) range.start 0

end GlucOS
