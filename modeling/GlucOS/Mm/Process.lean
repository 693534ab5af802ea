import GlucOS.Mm.Shared

/-! Address spaces of processes: loading, `do_exec`, `do_fork`, `do_sbrk`, threads and `do_kill`. -/

namespace GlucOS

open Routine

/-- `alloc_pid`: the least free process identifier. -/
def allocPid (mm : Mm) : Option Nat :=
  (List.range (2 * uprocMax + 1)).find? fun pid => ncpu ≤ pid ∧ mm.pcbSearch pid = none

/-- `alloc_tid`: the least free thread identifier of a process. -/
def allocTid (mm : Mm) (pid : Nat) : Option Nat :=
  (List.range (tidMax + 1)).find? fun tid =>
    1 ≤ tid ∧ ¬ ∃ tcb ∈ mm.pcbTable, tcb.pid = pid ∧ tcb.tid = tid

/-- `vpn2va`, computed in 32 bits. -/
def vpn2va (vpn2 vpn1 vpn0 : Nat) : Nat :=
  u32 (vpn2 * 2 ^ 30 + vpn1 * 2 ^ 21 + vpn0 * 2 ^ 12)

/-- `pcb_table_add`; the caller has checked that there is room. -/
def pcbTableAdd (tcb : Tcb) : MmRoutine Unit := do
  let mm ← get
  stopIf (uprocMax + ncpu ≤ mm.procNum) .corrupt
  set { mm with pcbTable := mm.pcbTable ++ [tcb] }

/-! ## Release of an address space -/

/-- One entry of the innermost loop of `free_pages_of_proc`. -/
def freeLeaf (cpu pid pgdir va : Nat) (loc : PteLoc) : MmRoutine Unit := do
  let entry ← readPte loc
  if entry.v then
    stopIf (entry.xwr = false) .corrupt
    if entry.shared then
      -- It is not freed directly when it is shared.
      let drt ← shmPageDt cpu va (some (pid, pgdir))
      stopIf (drt < 0) .corrupt
    else if entry.cow then releaseCow entry.pgidx entry.pfn
    else freePage entry.pfn
  else if entry ≠ Pte.zero then
    -- The page is in the swap partition.
    freeSwapPage entry.pfn
  else pure ()

/-- One entry of the middle loop of `free_pages_of_proc`. -/
def freeL1Entry (cpu pid pgdir vpn2 vpn1 l1 : Nat) : MmRoutine Unit := do
  let entry ← readPte ⟨1, l1, vpn1⟩
  if entry.v then
    stopIf (entry.xwr = true) .corrupt
    let l0 ← tableOf entry
    forUpto numPteEntry fun vpn0 =>
      freeLeaf cpu pid pgdir (vpn2va vpn2 vpn1 vpn0) ⟨0, l0, vpn0⟩
    freePagetable l0
  else pure ()

/-- One entry of the outer loop of `free_pages_of_proc`. -/
def freeL2Entry (cpu pid pgdir vpn2 : Nat) : MmRoutine Unit := do
  let entry ← readPte ⟨2, pgdir, vpn2⟩
  if entry.v then
    stopIf (entry.xwr = true) .corrupt
    let l1 ← tableOf entry
    forUpto numPteEntry fun vpn1 => freeL1Entry cpu pid pgdir vpn2 vpn1 l1
    freePagetable l1
  else pure ()

/-- `free_pages_of_proc`; how many pages it frees is only logged. -/
def freePagesOfProc (cpu pgdir pid : Nat) : MmRoutine Unit := do
  forUpto (numPteEntry / 2) fun vpn2 => freeL2Entry cpu pid pgdir vpn2
  freePagetable pgdir

/-! ## Copy-on-write fork -/

/-- One entry of the innermost loop of `do_fork`. -/
def forkLeaf (cpu pid uva : Nat) (child parent : PteLoc) : MmRoutine Unit := do
  let entry ← readPte parent
  if entry = Pte.zero then return ()
  else
    -- A page in the swap partition is brought back first.
    if entry.v = false then discard (swapFromDisk cpu parent uva) else pure ()
    let entry ← readPte parent
    stopIf (entry.xwr = false) .corrupt
    if entry.shared then
      stopIf (entry.cow = true) .corrupt
      let frame ← allocPage cpu pid uva
      let entry ← readPte parent
      modify fun mm => { mm with frames := put mm.frames frame (mm.frames entry.pgidx) }
      let new ← readPte child
      writePte child ({ new with pfn := framePfn frame }).setVurwxad
    else if entry.cow then
      writePte child entry
      let pgidx := entry.pgidx
      let mm ← get
      stopIf (mm.pgCharmap pgidx ≠ cmapShared ∨ uprocMax < mm.pgUva pgidx) .corrupt
      set { mm with pgUva := put mm.pgUva pgidx (mm.pgUva pgidx + 1) }
    else
      -- A private page becomes copy-on-write in both processes.
      let entry := { entry with cow := true, w := false }
      writePte parent entry
      writePte child entry
      modify fun mm =>
        { mm with
          pgCharmap := put mm.pgCharmap entry.pgidx cmapShared
          pgUva := put mm.pgUva entry.pgidx 2 }

/-- One entry of the middle loop of `do_fork`. -/
def forkL1Entry (cpu pid vpn2 vpn1 l1 l1p : Nat) : MmRoutine Unit := do
  let entry ← readPte ⟨1, l1p, vpn1⟩
  if entry.v then
    stopIf (entry.xwr = true) .corrupt
    let l0 ← allocPagetable pid
    let l0p ← tableOf entry
    let new ← readPte ⟨1, l1, vpn1⟩
    writePte ⟨1, l1, vpn1⟩ { new with pfn := tablePfn l0, v := true }
    forUpto numPteEntry fun vpn0 =>
      forkLeaf cpu pid (vpn2va vpn2 vpn1 vpn0) ⟨0, l0, vpn0⟩ ⟨0, l0p, vpn0⟩
  else pure ()

/-- One entry of the outer loop of `do_fork`. -/
def forkL2Entry (cpu pid vpn2 pgdir pgdirp : Nat) : MmRoutine Unit := do
  let entry ← readPte ⟨2, pgdirp, vpn2⟩
  if entry.v then
    stopIf (entry.xwr = true) .corrupt
    let l1 ← allocPagetable pid
    let l1p ← tableOf entry
    let new ← readPte ⟨2, pgdir, vpn2⟩
    writePte ⟨2, pgdir, vpn2⟩ { new with pfn := tablePfn l1, v := true }
    forUpto numPteEntry fun vpn1 => forkL1Entry cpu pid vpn2 vpn1 l1 l1p
  else pure ()

/--
`do_fork`: the identifier of the child, or nothing.

`noHeap` says that there is no kernel heap for the child's stack or PCB.
The PCB enters `pcb_table` with its page table, which nothing reads in between.
-/
def doFork (cpu : Nat) (noHeap : Bool) : MmRoutine (Option Nat) := do
  let ccpu ← curCpu cpu
  let mm ← get
  if 1 < mm.pcbCount ccpu.pid then return none
  else if uprocMax + ncpu ≤ mm.procNum then return none
  else
    match allocPid mm with
    | none => return none
    | some pid =>
      if noHeap then return none
      else
        let pgdir ← allocPagetable pid
        pcbTableAdd { pid, tid := 0, pgdir, segStart := ccpu.segStart, segEnd := ccpu.segEnd }
        sharePgtable pgdir ccpu.pgdir
        forUpto (numPteEntry / 2) fun vpn2 => forkL2Entry cpu pid vpn2 pgdir ccpu.pgdir
        return some pid

/-! ## Loading a program -/

/-- What the loader reads of a task in the image. -/
structure TaskImg where
  /-- `v_addr`. -/
  vaddr : Nat
  /-- `v_entr`. -/
  entry : Nat
  /-- `f_size`. -/
  fsize : Nat
  /-- `m_size`. -/
  msize : Nat
  /-- The bytes of the program. -/
  byte : Nat → Nat

/-- How many pages hold so many bytes. -/
def pagesFor (bytes : Nat) : Nat := (bytes + normalPageSize - 1) / normalPageSize

/-- `load_task_img` for a task that was found and read: its pages, and the end of its segment. -/
def loadTaskImg (cpu : Nat) (img : TaskImg) (pgdir pid : Nat) : MmRoutine (Nat × Nat) := do
  -- The pages that the image fills, each written as soon as it is mapped.
  forUpto (pagesFor img.fsize) fun i => do
    let frame ← allocPageHelper cpu (img.vaddr + i * normalPageSize) pgdir pid
    modify fun mm =>
      { mm with frames := put mm.frames frame fun offset =>
          if i * normalPageSize + offset < img.fsize ∧ offset < normalPageSize then
            img.byte (i * normalPageSize + offset)
          else mm.frames frame offset }
  -- The pages that are not filled, such as those of the .bss section.
  forUpto (pagesFor img.msize - pagesFor img.fsize) fun i =>
    discard (allocPageHelper cpu
      (img.vaddr + (pagesFor img.fsize + i) * normalPageSize) pgdir pid)
  return (img.vaddr, roundUp (img.vaddr + img.msize) 8)

/-- What may go wrong in `create_proc` besides the page frames. -/
structure CreateFlags where
  /-- There is no kernel heap for the PCB. -/
  noPcb : Bool
  /-- There is no kernel heap for the kernel stack. -/
  noStack : Bool
deriving DecidableEq

/-- The clean-up of `create_proc`. -/
def createFailed (cpu pgdir pid : Nat) : MmRoutine (Option Nat) := do
  freePagesOfProc cpu pgdir pid
  modify fun mm => { mm with pcbTable := mm.pcbTable.filter fun tcb => tcb.pid ≠ pid }
  return none

/--
`create_proc`: the identifier of a new process, or nothing.

There is no image when the task is not found, is too large, or there is no heap to read it into.
-/
def createProc (cpu : Nat) (img : Option TaskImg) (flags : CreateFlags) :
    MmRoutine (Option Nat) := do
  let mm ← get
  if uprocMax + ncpu ≤ mm.procNum then return none
  else
    match allocPid mm with
    | none => stop .corrupt
    | some pid =>
      let pgdir ← allocPagetable pid
      sharePgtable pgdir 0
      if flags.noPcb then
        freePagesOfProc cpu pgdir pid
        return none
      else
        -- The segment is set when the program is loaded.
        pcbTableAdd { pid, tid := 0, pgdir, segStart := 0, segEnd := 0 }
        match img with
        | none => createFailed cpu pgdir pid
        | some img =>
          let (segStart, segEnd) ← loadTaskImg cpu img pgdir pid
          if img.entry = 0 then createFailed cpu pgdir pid
          else
            -- One page for the command line arguments.
            discard (allocPageHelper cpu (userSp - normalPageSize) pgdir pid)
            if flags.noStack then createFailed cpu pgdir pid
            else
              modify fun mm =>
                { mm with pcbTable := mm.pcbTable.map fun tcb =>
                    if tcb.pid = pid then { tcb with segStart, segEnd } else tcb }
              return some pid

/-- Writing consecutive bytes through the kernel's view of a user address. -/
def pokeUser (pgdir va : Nat) (bytes : List Nat) : MmRoutine Unit := do
  match ← va2kva va pgdir with
  | none => stop .corrupt
  | some kva =>
    let frame := kva / normalPageSize - framePfn 0
    modify fun mm =>
      { mm with frames := put mm.frames frame fun offset =>
          if kva % normalPageSize ≤ offset then
            bytes.getD (offset - kva % normalPageSize) (mm.frames frame offset)
          else mm.frames frame offset }

/-- `ARGC_MAX`. -/
def argcMax : Nat := 8

/-- `ARG_LEN`: the bytes of an argument that are kept. -/
def argLen : Nat := 63

/-- The eight bytes of a pointer. -/
def pointerBytes (value : Nat) : List Nat := (List.range 8).map fun i => value / 256 ^ i % 256

/-- The loop of `do_exec` that copies the arguments; it answers the new stack pointer. -/
def copyArgs (pgdir argvBase : Nat) : Nat → Nat → List (List Nat) → MmRoutine Nat
  | _, sp, [] => pure sp
  | i, sp, arg :: rest => do
    let kept := arg.take argLen
    let sp := sp - (kept.length + 1)
    pokeUser pgdir (argvBase + 8 * i) (pointerBytes sp)
    pokeUser pgdir sp (kept ++ [0])
    copyArgs pgdir argvBase (i + 1) sp rest

/--
`do_exec`: a new process with arguments.

`argv` holds the arguments up to the first null pointer, already read from the caller's memory.
-/
def doExec (cpu : Nat) (img : Option TaskImg) (flags : CreateFlags) (argc : Int)
    (argv : List (List Nat)) : MmRoutine (Option Nat) := do
  if (argcMax : Int) < argc then return none
  else
    match ← createProc cpu img flags with
    | none => return none
    | some pid =>
      let args := argv.take (if argc < 0 then argcMax else argc.toNat)
      let mm ← get
      match mm.pcbSearch pid with
      | none => stop .corrupt
      | some pnew =>
        let argvBase := userSp - 8 * (args.length + 1)
        pokeUser pnew.pgdir (argvBase + 8 * args.length) (pointerBytes 0)
        discard (copyArgs pnew.pgdir argvBase 0 argvBase args)
        return some pid

/-! ## Segments, threads and termination -/

/-- `do_sbrk`: the old end of the segment, or 0. -/
def doSbrk (cpu size : Nat) : MmRoutine Nat := do
  let size := roundUp size 8 % 2 ^ 64
  let ccpu ← curCpu cpu
  if usegMax < size ∨ usegMax < ccpu.segEnd + size - ccpu.segStart then return 0
  else
    modify fun mm =>
      { mm with pcbTable := mm.pcbTable.map fun tcb =>
          if tcb.pid = ccpu.pid then { tcb with segEnd := tcb.segEnd + size } else tcb }
    return ccpu.segEnd

/-- `do_thread_create` with a valid entry point, stack pointer and argument. -/
def doThreadCreate (cpu : Nat) (noHeap : Bool) : MmRoutine (Option Nat) := do
  let ccpu ← curCpu cpu
  let mm ← get
  match allocTid mm ccpu.pid with
  | none => return none
  | some tid =>
    if uprocMax + ncpu ≤ mm.procNum then return none
    else if noHeap then return none
    else
      pcbTableAdd { ccpu with tid }
      return some tid

/-- Whether a thread is running on some processor. -/
def Mm.running (mm : Mm) (tcb : Tcb) : Bool :=
  (List.range ncpu).any fun cpu => mm.current cpu = (tcb.pid, tcb.tid)

/--
`do_kill` as far as it returns: threads that do not run are deleted, and when none is left the
address space is released.

Threads that run are only marked, and deleted by a later call from the scheduler.
-/
def doKill (cpu pid : Nat) : MmRoutine (Option Nat) := do
  if pid < ncpu then return none
  else
    let mm ← get
    match mm.pcbSearch pid with
    | none => return none
    | some tcb =>
      stopIf (∃ other ∈ mm.pcbTable, other.pid = pid ∧ other.pgdir ≠ tcb.pgdir) .corrupt
      modify fun mm =>
        { mm with pcbTable := mm.pcbTable.filter fun other => other.pid ≠ pid ∨ mm.running other }
      let mm ← get
      if mm.pcbCount pid = 0 then
        freePagesOfProc cpu tcb.pgdir pid
        return some pid
      else return some pid

end GlucOS
