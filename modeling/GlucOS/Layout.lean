import GlucOS.Gfs.Disk

/-! The kernel's memory map: where page frames, page tables and the GFS cache lie. -/

namespace GlucOS

/-- Bytes of a page. -/
def normalPageSize : Nat := 4096

/-- Kernel virtual address of physical address zero. -/
def kvaOffset : Nat := 0xffffffc000000000

/-- First address of the page frames, `FREEMEM_KERNEL`, which is page aligned. -/
def pgBase : Nat := 0xffffffc052000000

/-- First address of the page tables, `PGDIR_VA`. -/
def pgtbBase : Nat := 0xffffffc051000000

/-- Number of page frames. -/
def npf : Nat := 50 * 1024

/-- Number of page tables. -/
def npt : Nat := 3840

/-- The end of the space allowed to the kernel heap. -/
def kallocLimit : Nat := 0xffffffc050e00000

/-- First address of the GFS cache, which starts with the super block. -/
def gfsCacheBase : Nat := 0xffffffc05f000000

/-- End of the GFS cache. -/
def gfsCacheEnd : Nat := 0xffffffc060000000

/-- First data sector in the layout written by `GFS_init`. -/
def dataLoc : Nat := 3656

end GlucOS
