import GlucOS.Lib.Run
import GlucOS.Layout

/-! The block cache of GFS: lines searched by tag, an LRU order, and write-through to the disk. -/

namespace GlucOS

/-- `GFS_cache_block_t`: one cached block, invalid when its tag is zero. -/
structure GfscLine where
  /-- The cached contents. -/
  block : Block
  /-- The block's index in GFS. -/
  tag : Nat

/-- The cache with the disk below it and its performance counters. -/
structure Gfsc where
  /-- `gfsc_blocks[]`, whose length is `gfsc_blocks_num`. -/
  blocks : List GfscLine
  /-- `gfsc_lru_aseq[]`: line numbers from the most to the least recently used. -/
  lruAseq : List Nat
  /-- The sectors below the cache. -/
  disk : Disk
  /-- Write and read hits and misses. -/
  wrhit : Nat
  rdhit : Nat
  wrmiss : Nat
  rdmiss : Nat

/-- `sizeof(GFS_cache_block_t)`: a block, its tag, and padding to eight bytes. -/
def gfscLineSize : Nat := blockSize + 8

/-- The number of lines that fit behind the cached bitmaps and inodes. -/
def gfscBlocksNum (dataLoc : Nat) : Nat :=
  (gfsCacheEnd - (gfsCacheBase + dataLoc * sectorSize)) / gfscLineSize

/--
`GFS_cache_init`, given the super block's `data_loc` and whatever the line memory held before.

Panics answer with nothing.
-/
def gfsCacheInit (dataLoc : Nat) (memory : Nat → Block) (disk : Disk) : Option Gfsc :=
  if pgBase + npf * normalPageSize > gfsCacheBase then none
  else if gfsCacheBase + dataLoc * sectorSize ≥ gfsCacheEnd then none
  else some
    { blocks := (List.range (gfscBlocksNum dataLoc)).map fun i => ⟨memory i, 0⟩
      lruAseq := (List.range (gfscBlocksNum dataLoc)).map fun i => i % 2 ^ 16
      disk, wrhit := 0, rdhit := 0, wrmiss := 0, rdmiss := 0 }

namespace Gfsc

/-- `gfsc_search`: the first line with this tag, or `UINT32_MAX`. -/
def search (cache : Gfsc) (tag : Nat) : Nat :=
  match cache.blocks.findIdx? fun line => line.tag == tag with
  | some i => i
  | none => uint32Max

/-- The victim of `glru_scan_or_evict`: an invalid line, or else the last of the LRU order. -/
def victim (cache : Gfsc) : Option Nat :=
  match cache.blocks.findIdx? fun line => line.tag == 0 with
  | some i => some i
  -- Without any line the index `gfsc_blocks_num - 1U` wraps and nothing is there to read.
  | none => cache.lruAseq[u32Sub cache.blocks.length 1]?

/-- `glru_scan_or_evict`: choose a line and give it the new tag. -/
def scanOrEvict (cache : Gfsc) (tag : Nat) : Option (Nat × Gfsc) := do
  let i ← cache.victim
  let line ← cache.blocks[i]?
  return (i, { cache with blocks := cache.blocks.set i { line with tag } })

/-- `gfsc_scan_and_inv`: invalidate the first line with this tag; 0 if found, 1 if not. -/
def scanAndInv (cache : Gfsc) (tag : Nat) : Nat × Gfsc :=
  match cache.blocks.findIdx? fun line => line.tag == tag with
  | some i => (0, { cache with
      blocks := cache.blocks.modify i fun line => { line with tag := 0 } })
  | none => (1, cache)

/-- The downward search of `glru_aseq_move`, which stops at position zero without a test. -/
def lruFind (aseq : List Nat) (line : Nat) : Nat → Nat
  | 0 => 0
  | i + 1 => if aseq[i + 1]? = some line then i + 1 else lruFind aseq line i

/-- The shift of `glru_aseq_move`: each entry before position `i` moves one place back. -/
def lruShift (aseq : List Nat) : Nat → List Nat
  | 0 => aseq
  | i + 1 => lruShift (aseq.set (i + 1) (aseq.getD i 0)) i

/-- `glru_aseq_move`: bring a line to the front of the order. -/
def aseqMove (cache : Gfsc) (line : Nat) : Gfsc :=
  -- `GFS_panic` for a missing line only prints, so the shift is made in that case too.
  let i := lruFind cache.lruAseq line (u32Sub cache.blocks.length 1)
  { cache with lruAseq := (lruShift cache.lruAseq i).set 0 line }

/-- `gfsc_read_block`: the hit flag and the data. -/
def readBlock (cache : Gfsc) (bidx : Nat) : Option ((Nat × Block) × Gfsc) := do
  let he := cache.search bidx
  let (he, flagMiss, cache) ←
    if he ≥ cache.blocks.length then do
      let (he, cache) ← cache.scanOrEvict bidx
      let loaded := gfsReadSec cache.disk (u32 (bidx * secPerBlock))
      pure (he, 1, { cache with
        blocks := cache.blocks.modify he fun line => { line with block := loaded }
        rdmiss := cache.rdmiss + 1 })
    else pure (he, 0, { cache with rdhit := cache.rdhit + 1 })
  let cache := cache.aseqMove (he % 2 ^ 16)
  -- Both copies, `block_copy64` and `memcpy`, move the whole block.
  let line ← cache.blocks[he]?
  return ((flagMiss, line.block), cache)

/-- `gfsc_write_block`: the hit flag. -/
def writeBlock (cache : Gfsc) (bidx : Nat) (data : Block) : Option (Nat × Gfsc) := do
  let he := cache.search bidx
  let (he, flagMiss, cache) ←
    if he ≥ cache.blocks.length then do
      let (he, cache) ← cache.scanOrEvict bidx
      pure (he, 1, { cache with wrmiss := cache.wrmiss + 1 })
    else pure (he, 0, { cache with wrhit := cache.wrhit + 1 })
  let cache := { cache with
    blocks := cache.blocks.modify he fun line => { line with block := data } }
  let cache := cache.aseqMove (he % 2 ^ 16)
  let line ← cache.blocks[he]?
  return (flagMiss, { cache with
    disk := gfsWriteSec cache.disk (u32 (bidx * secPerBlock)) line.block })

end Gfsc

/-- The calls made on the cache. -/
inductive GfscCall where
  /-- `gfsc_read_block`. -/
  | read (bidx : Nat)
  /-- `gfsc_write_block`. -/
  | write (bidx : Nat) (data : Block)
  /-- `gfsc_scan_and_inv`. -/
  | inv (tag : Nat)

/-- The block index a call is about. -/
def GfscCall.bidx : GfscCall → Nat
  | read bidx => bidx
  | write bidx _ => bidx
  | inv tag => tag

/-- One call, answered with the data a read returns. -/
def gfscStep (cache : Gfsc) : GfscCall → Option (Option Block × Gfsc)
  | .read bidx => (cache.readBlock bidx).map fun ((_, data), cache) => (some data, cache)
  | .write bidx data => (cache.writeBlock bidx data).map fun (_, cache) => (none, cache)
  | .inv tag => some (none, (cache.scanAndInv tag).2)

end GlucOS
