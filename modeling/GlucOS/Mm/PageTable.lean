import GlucOS.Lib.Routine
import GlucOS.Lib.Word
import GlucOS.Layout

/-! The state of memory management, page table entries, and walks of the three-level tables. -/

namespace GlucOS

open Routine

/-- `CMAP_FREE`: the mark of a free entry of a char map. -/
def cmapFree : Nat := 0xff

/-- `CMAP_SHARED`: the mark of a page frame used by more than one process. -/
def cmapShared : Nat := 0xfe

/-- `NPSWAP`: pages of the swap partition. -/
def npswap : Nat := 128

/-- `NCPU`: processors, whose idle processes have the lowest identifiers. -/
def ncpu : Nat := 2

/-- `UPROC_MAX`: how many user processes and threads there may be. -/
def uprocMax : Nat := 16

/-- `TID_MAX`: the largest thread identifier. -/
def tidMax : Nat := 5

/-- `NPSHM`: how many processes may use one shared page. -/
def npshm : Nat := 24

/-- `NSHM`: how many shared pages there are. -/
def nshm : Nat := 3

/-- `NUM_PTE_ENTRY`: entries of a page table. -/
def numPteEntry : Nat := 512

/-- `User_sp`: where user stacks start. -/
def userSp : Nat := 0xf00010000

/-- `USTACK_NPG`: pages of a user stack. -/
def ustackNpg : Nat := 16

/-- `USEG_MAX`: the largest user segment. -/
def usegMax : Nat := 8 * 1024 * 1024

/-- Truncation to 8 bits, the width of a char map. -/
def u8 (value : Nat) : Nat := value % 2 ^ 8

/-- Physical page number of a page table. -/
def tablePfn (table : Nat) : Nat := 0x51000 + table

/-- Physical page number of a page frame. -/
def framePfn (frame : Nat) : Nat := 0x52000 + frame

/-- A store to one entry of an array. -/
def put {A : Type} (array : Nat → A) (index : Nat) (value : A) : Nat → A := fun other =>
  if other = index then value else array other

/-- The entry stored to. -/
@[simp] theorem put_same {A : Type} (array : Nat → A) (index : Nat) (value : A) :
    put array index value index = value := if_pos rfl

/-- Every other entry. -/
@[simp] theorem put_other {A : Type} (array : Nat → A) {index other : Nat} (value : A)
    (differ : other ≠ index) : put array index value other = array other := if_neg differ

/-- A page table entry. -/
structure Pte where
  /-- Page frame number, or a swap page when the entry is not present. -/
  pfn : Nat
  /-- `_PAGE_PRESENT`. -/
  v : Bool
  /-- `_PAGE_READ`. -/
  r : Bool
  /-- `_PAGE_WRITE`. -/
  w : Bool
  /-- `_PAGE_EXEC`. -/
  x : Bool
  /-- `_PAGE_USER`. -/
  u : Bool
  /-- `_PAGE_GLOBAL`. -/
  g : Bool
  /-- `_PAGE_ACCESSED`. -/
  a : Bool
  /-- `_PAGE_DIRTY`. -/
  d : Bool
  /-- `_PAGE_SHARED`. -/
  shared : Bool
  /-- `_PAGE_COW`. -/
  cow : Bool
deriving DecidableEq, Repr

namespace Pte

/-- The entry of a page that was never touched. -/
def zero : Pte := ⟨0, false, false, false, false, false, false, false, false, false, false⟩

/-- `_PAGE_XWR`: whether the entry is a leaf. -/
def xwr (entry : Pte) : Bool := entry.x || entry.w || entry.r

/-- `set_attribute` with `_PAGE_VURWXAD`. -/
def setVurwxad (entry : Pte) : Pte :=
  { entry with v := true, u := true, r := true, w := true, x := true, a := true, d := true }

/-- `get_pgidx`: the page frame an entry names. -/
def pgidx (entry : Pte) : Nat := entry.pfn - framePfn 0

/-- The page table an entry names, when its address is that of one. -/
def table? (entry : Pte) : Option Nat :=
  if tablePfn 0 ≤ entry.pfn ∧ entry.pfn < tablePfn npt then some (entry.pfn - tablePfn 0) else none

end Pte

/-- The bytes of a page. -/
abbrev Page := Nat → Nat

/-- What memory management reads of a PCB or TCB. -/
structure Tcb where
  /-- Process identifier. -/
  pid : Nat
  /-- Thread identifier. -/
  tid : Nat
  /-- `pgdir_kva`: the top page table. -/
  pgdir : Nat
  /-- First address of the segment. -/
  segStart : Nat
  /-- End of the segment. -/
  segEnd : Nat
deriving DecidableEq, Repr

/-- `shm_ctrl_t`: one shared page. -/
structure ShmCtrl where
  /-- How many processes use the page. -/
  nproc : Nat
  /-- Its page frame. -/
  pgidx : Nat
  /-- The users, with nothing for `INVALID_PID`. -/
  opid : Nat → Option Nat

/-- The static variables of `handle_pagefault`. -/
structure FaultMemo where
  /-- How often the same fault appeared. -/
  pfYmr : Nat
  /-- Its address. -/
  lastStval : Nat
  /-- Its process, with nothing for `INVALID_PID`. -/
  lastPid : Option Nat
  /-- When it appeared first. -/
  lastTime : Nat

/-- The state of memory management. -/
structure Mm where
  /-- The entries of every page table. -/
  tables : Nat → Nat → Pte
  /-- The owner of every page table. -/
  pgtbCharmap : Nat → Nat
  /-- First free page table. -/
  pgtbFfree : Nat
  /-- The bytes of every page frame. -/
  frames : Nat → Page
  /-- The owner of every page frame. -/
  pgCharmap : Nat → Nat
  /-- The user address of a page frame, or how many processes share it. -/
  pgUva : Nat → Nat
  /-- First free page frame. -/
  pgFfree : Nat
  /-- The bytes of every swap page. -/
  swapPages : Nat → Page
  /-- The owner of every swap page. -/
  spgCharmap : Nat → Nat
  /-- First free swap page. -/
  spgFfree : Nat
  /-- The clock pointer. -/
  clockPt : Nat
  /-- The shared pages. -/
  shmCtrl : Nat → ShmCtrl
  /-- The entries of `pcb_table` that are not null, in order. -/
  pcbTable : List Tcb
  /-- `current_running`, as process and thread identifiers. -/
  current : Nat → Nat × Nat
  /-- The cached user translations of every processor, by virtual page number. -/
  tlb : Nat → List (Nat × Pte)
  /-- The static variables of `handle_pagefault`. -/
  fault : FaultMemo

/-- Why the kernel stops. -/
inductive MmStop
  /-- No page table is free. -/
  | noPageTable
  /-- No page of the swap partition is free. -/
  | noSwapPage
  /-- The clock found no page to evict in two rounds, so it never will. -/
  | noVictim
  /-- A page fault of the kernel itself. -/
  | kernelFault
  /-- The same page fault came too often. -/
  | repeatedFault
  /-- A consistency check failed, or an invalid pointer was followed. -/
  | corrupt
deriving DecidableEq, Repr

/-- A routine of memory management. -/
abbrev MmRoutine := Routine Mm MmStop

/-- The least index from `start` on that is marked free, among the next `fuel` ones. -/
def nextFree (charmap : Nat → Nat) : Nat → Nat → Nat
  | 0, start => start
  | fuel + 1, start =>
    if charmap start = cmapFree then start else nextFree charmap fuel (start + 1)

namespace Mm

/-- `pcb_search`. -/
def pcbSearch (mm : Mm) (pid : Nat) : Option Tcb := mm.pcbTable.find? fun tcb => tcb.pid = pid

/-- `pcb_search_all`: how many there are. -/
def pcbCount (mm : Mm) (pid : Nat) : Nat := mm.pcbTable.countP fun tcb => tcb.pid = pid

/-- `get_proc_num`. -/
def procNum (mm : Mm) : Nat := mm.pcbTable.length

/-- `cur_cpu`: the PCB of what runs on a processor. -/
def curCpu (mm : Mm) (cpu : Nat) : Option Tcb :=
  mm.pcbTable.find? fun tcb => (tcb.pid, tcb.tid) = mm.current cpu

end Mm

/-- Where a walk stopped: the level, the table and the index of the entry. -/
structure PteLoc where
  /-- Level of the table. -/
  level : Nat
  /-- The table. -/
  table : Nat
  /-- The entry in it. -/
  index : Nat
deriving DecidableEq, Repr

/-- `VPN`: the part of a virtual page number that indexes the tables of one level. -/
def vpnAt (va level : Nat) : Nat := va / 2 ^ (12 + 9 * level) % numPteEntry

/-- The PCB of what runs on a processor; there always is one. -/
def curCpu (cpu : Nat) : MmRoutine Tcb := do
  let mm ← get
  match mm.curCpu cpu with
  | some tcb => pure tcb
  | none => stop .corrupt

/-- Reading an entry. -/
def readPte (loc : PteLoc) : MmRoutine Pte := do
  let mm ← get
  return mm.tables loc.table loc.index

/-- Writing an entry. -/
def writePte (loc : PteLoc) (entry : Pte) : MmRoutine Unit :=
  modify fun mm =>
    { mm with tables := put mm.tables loc.table (put (mm.tables loc.table) loc.index entry) }

/-- Following an entry to the next table. -/
def tableOf (entry : Pte) : MmRoutine Nat :=
  match entry.table? with
  | some table => pure table
  | none => stop .corrupt

/-- `alloc_pagetable`: a cleared page table for a process. -/
def allocPagetable (pid : Nat) : MmRoutine Nat := do
  stopIf (u8 pid = cmapFree) .corrupt
  let mm ← get
  stopIf (npt ≤ mm.pgtbFfree) .noPageTable
  let table := mm.pgtbFfree
  let charmap := put mm.pgtbCharmap table (u8 pid)
  set { mm with
    tables := put mm.tables table fun _ => Pte.zero
    pgtbCharmap := charmap
    pgtbFfree := nextFree charmap (npt - table) table }
  return table

/-- `free_pagetable`. -/
def freePagetable (table : Nat) : MmRoutine Unit := do
  stopIf (npt ≤ table) .corrupt
  let mm ← get
  stopIf (mm.pgtbCharmap table = 0) .corrupt
  stopIf (mm.pgtbCharmap table = cmapFree) .corrupt
  set { mm with
    pgtbCharmap := put mm.pgtbCharmap table cmapFree
    pgtbFfree := if table < mm.pgtbFfree then table else mm.pgtbFfree }

/-- `share_pgtable`: the kernel's half of the address space is mapped in every top table. -/
def sharePgtable (dest src : Nat) : MmRoutine Unit :=
  modify fun mm =>
    { mm with
      tables := put mm.tables dest fun index =>
        if numPteEntry / 2 ≤ index then mm.tables src index else mm.tables dest index }

/-- `va2pte` from the table of one level on. -/
def va2pteFrom (va : Nat) (alloc : Bool) (pid : Nat) : Nat → Nat → MmRoutine PteLoc
  | level, pgdir => do
    let loc : PteLoc := ⟨level, pgdir, vpnAt va level⟩
    let entry ← readPte loc
    if entry.v then
      if entry.xwr then return loc
      else
        match level with
        -- A present entry of the last level must be a leaf.
        | 0 => stop .corrupt
        | level + 1 =>
          let next ← tableOf entry
          va2pteFrom va alloc pid level next
    else
      match level with
      | 0 => return loc
      | level + 1 =>
        if alloc then
          stopIf (entry ≠ Pte.zero) .corrupt
          let next ← allocPagetable pid
          writePte loc { entry with pfn := tablePfn next, v := true }
          va2pteFrom va alloc pid level next
        else return loc

/-- `va2pte`: the entry of an address, with missing tables allocated on demand. -/
def va2pte (va pgdir : Nat) (alloc : Bool) (pid : Nat) : MmRoutine PteLoc :=
  va2pteFrom va alloc pid 2 pgdir

/-- `va2kva`: the physical address an address is mapped to. -/
def va2kva (va pgdir : Nat) : MmRoutine (Option Nat) := do
  let loc ← va2pte va pgdir false 0
  let entry ← readPte loc
  let masked := va % 2 ^ 39
  let vpn2 := masked / 2 ^ 30
  let vpn1 := (vpn2 * 2 ^ 9) ^^^ (masked / 2 ^ 21)
  let vpn0 := masked / 2 ^ 12 % 2 ^ 12
  let offset := masked % normalPageSize
  if entry.v then
    match loc.level with
    | 2 => return some (entry.pfn * normalPageSize + vpn1 * 2 ^ 21 + vpn0 * 2 ^ 12 + offset)
    | 1 => return some (entry.pfn * normalPageSize + vpn0 * 2 ^ 12 + offset)
    | _ => return some (entry.pfn * normalPageSize + offset)
  else return none

/-- `local_flush_tlb_page`: drops the cached translations of one page on one processor. -/
def localFlushTlbPage (cpu va : Nat) : MmRoutine Unit :=
  modify fun mm =>
    { mm with tlb := put mm.tlb cpu ((mm.tlb cpu).filter fun cached =>
        cached.1 ≠ va / normalPageSize) }

end GlucOS
