import GlucOS.Lib.Word

/-! The disk under GFS: sectors, blocks of eight sectors, and whole-block transfers. -/

namespace GlucOS

/-- Bytes of a disk sector. -/
def sectorSize : Nat := 512

/-- Bytes of a GFS block. -/
def blockSize : Nat := 4096

/-- Sectors of a GFS block. -/
def secPerBlock : Nat := blockSize / sectorSize

/-- The contents of one sector. -/
abbrev Sector := Fin sectorSize → UInt8

/-- The contents of one block. -/
abbrev Block := Fin blockSize → UInt8

/-- The sectors of GFS, counted from `GFS_base_sec`. -/
abbrev Disk := Nat → Sector

/-- `GFS_read_sec` of one whole block starting at sector `sec`. -/
def gfsReadSec (disk : Disk) (sec : Nat) : Block := fun byte =>
  disk (sec + byte.val / sectorSize) ⟨byte.val % sectorSize, Nat.mod_lt _ (by decide)⟩

/-- `GFS_write_sec` of one whole block starting at sector `sec`. -/
def gfsWriteSec (disk : Disk) (sec : Nat) (data : Block) : Disk := fun at_ =>
  if inside : sec ≤ at_ ∧ at_ < sec + secPerBlock then
    fun byte => data ⟨(at_ - sec) * sectorSize + byte.val, by
      have := byte.isLt
      simp only [secPerBlock, blockSize, sectorSize] at *
      omega⟩
  else disk at_

/-- A block reads back as it was written. -/
@[simp] theorem gfsReadSec_write_same (disk : Disk) (sec : Nat) (data : Block) :
    gfsReadSec (gfsWriteSec disk sec data) sec = data := by
  funext byte
  have bound := byte.isLt
  have inside : sec ≤ sec + byte.val / sectorSize ∧
      sec + byte.val / sectorSize < sec + secPerBlock := by
    simp only [secPerBlock, blockSize, sectorSize] at *
    omega
  simp only [gfsReadSec, gfsWriteSec, dif_pos inside]
  -- The sector number and the offset inside it rebuild the byte position.
  congr 1
  apply Fin.ext
  simp only [sectorSize]
  omega

/-- Writing a block leaves every block on other sectors alone. -/
theorem gfsReadSec_write_apart (disk : Disk) {sec other : Nat} (data : Block)
    (apart : other + secPerBlock ≤ sec ∨ sec + secPerBlock ≤ other) :
    gfsReadSec (gfsWriteSec disk sec data) other = gfsReadSec disk other := by
  funext byte
  have bound := byte.isLt
  have outside : ¬ (sec ≤ other + byte.val / sectorSize ∧
      other + byte.val / sectorSize < sec + secPerBlock) := by
    simp only [secPerBlock, blockSize, sectorSize] at *
    omega
  simp only [gfsReadSec, gfsWriteSec, dif_neg outside]

end GlucOS
