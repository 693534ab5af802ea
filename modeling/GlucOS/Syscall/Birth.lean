import GlucOS.Loader.Image
import GlucOS.Mm.Process

/-! The creation of processes and threads, with all that the kernel takes for them. -/

namespace GlucOS

open Routine

/-- The blocks of the kernel heap; no address comes twice. -/
structure KernelHeap where
  /-- The blocks that were allocated and not freed. -/
  live : Finset Nat
  /-- The next address. -/
  next : Nat
  /-- No block is at an address to come. -/
  old : ∀ block ∈ live, block < next

namespace KernelHeap

/-- `kmalloc_g` that succeeds; the block is at the next address. -/
def kmallocG (heap : KernelHeap) : KernelHeap where
  live := insert heap.next heap.live
  next := heap.next + 1
  old := by
    intro block mem
    obtain rfl | before := Finset.mem_insert.mp mem
    · exact Nat.lt_succ_self _
    · exact Nat.lt_succ_of_lt (heap.old block before)

/-- `kfree_g`. -/
def kfreeG (heap : KernelHeap) (block : Nat) : KernelHeap where
  live := heap.live.erase block
  next := heap.next
  old other mem := heap.old other (Finset.mem_of_mem_erase mem)

end KernelHeap

/-- What the kernel has for processes and threads. -/
structure Births where
  /-- Page frames, page tables, the swap partition and `pcb_table`. -/
  mm : Mm
  /-- The kernel heap. -/
  heap : KernelHeap
  /-- The PCBs of the ready queue, from its head. -/
  ready : List Nat
  /-- Those of them whose fields were not set. -/
  raw : List Nat
  /-- How many users an inode has. -/
  nproc : Nat → Nat
  /-- No PCB is at an address to come. -/
  older : ∀ pcb ∈ ready, pcb < heap.next

/-- A routine on this state. -/
abbrev BirthRoutine := Routine Births MmStop

/-- How a call ends. -/
inductive BirthOut
  /-- No identifier is returned. -/
  | refused
  /-- The identifier of a new process or thread. -/
  | created (id : Nat)
  /-- A page fault at an illegal address terminates the caller in the middle. -/
  | ended
deriving DecidableEq

namespace Births

/-- A block of the heap is taken. -/
def kmallocG (births : Births) : Births :=
  { births with
    heap := births.heap.kmallocG
    older := fun pcb mem => Nat.lt_succ_of_lt (births.older pcb mem) }

/-- `lpcb_add_node_to_tail` on the ready queue; the PCB is the next block. -/
def lpcbAddNode (births : Births) : Births :=
  { births with
    heap := births.heap.kmallocG
    ready := births.ready ++ [births.heap.next]
    raw := births.heap.next :: births.raw
    older := by
      intro pcb mem
      obtain before | last := List.mem_append.mp mem
      · exact Nat.lt_succ_of_lt (births.older pcb before)
      · rw [List.mem_singleton.mp last]
        exact Nat.lt_succ_self _ }

/-- `lpcb_del_node` on the ready queue. -/
def lpcbDelNode (births : Births) (pcb : Nat) : Births :=
  { births with
    ready := births.ready.erase pcb
    raw := births.raw.erase pcb
    older := fun other mem => births.older other (List.mem_of_mem_erase mem) }

/-- `kfree_g`. -/
def kfreeG (births : Births) (block : Nat) : Births :=
  { births with heap := births.heap.kfreeG block }

/-- All fields of a PCB are set, and its files have one more user. -/
def initialise (births : Births) (pcb : Nat) (inodes : List Nat) : Births :=
  { births with
    raw := births.raw.erase pcb
    nproc := fun ino => births.nproc ino + inodes.count ino }

end Births

/-- A routine of memory management. -/
def onMm {A : Type} (routine : MmRoutine A) : BirthRoutine A := fun births =>
  match routine births.mm with
  | .ok (value, mm) => .ok (value, { births with mm })
  | .error reason => .error reason

/-- `kmalloc_g`, which may fail. -/
def kmalloc (fails : Bool) : BirthRoutine (Option Nat) := do
  if fails then return none
  else
    let births ← get
    set births.kmallocG
    return some births.heap.next

/-- `lpcb_add_node_to_tail` on the ready queue, which may find no heap. -/
def addPcb (fails : Bool) : BirthRoutine (Option Nat) := do
  if fails then return none
  else
    let births ← get
    set births.lpcbAddNode
    return some births.heap.next

/-- A task of the image. -/
structure Task where
  /-- Its name. -/
  name : CharBuf
  /-- What is loaded. -/
  img : TaskImg
  /-- How many sectors it is read from. -/
  sectors : Nat

/-- What the loop over `taskinfo[]` comes to. -/
inductive TaskSearch
  /-- The task of that name. -/
  | found (task : Task)
  /-- There is none. -/
  | missing
  /-- The name given is at an illegal address. -/
  | illegal

/-- Whether `strcmp` finds a name equal to that of a task; nothing where a byte is illegal. -/
def sameName (name : Nat → Option UInt8) (k : Nat) : CharBuf → Option Bool
  | [] => (name k).map fun c => c = 0
  | t :: rest => (name k).bind fun c => if c = t then sameName name (k + 1) rest else some false

/-- The loop of `load_task_img` over the tasks. -/
def searchTask (name : Nat → Option UInt8) : List Task → TaskSearch
  | [] => .missing
  | task :: rest =>
    match sameName name 0 task.name with
    | none => .illegal
    | some true => .found task
    | some false => searchTask name rest

/-- A string in the caller's memory. -/
structure UserStr where
  /-- The bytes that can be read. -/
  bytes : List Nat
  /-- Whether a null byte follows them, and not an illegal address. -/
  ended : Bool

/-- The first loop of `do_exec`; nothing where it reads the illegal address after `argv`. -/
def countArgs : Nat → List (Option UserStr) → Option (List UserStr)
  | 0, _ => some []
  | _ + 1, [] => none
  | _ + 1, none :: _ => some []
  | n + 1, some arg :: rest => (countArgs n rest).map fun args => arg :: args

/-- The arguments that `do_exec` passes. -/
def readArgs (argc : Int) : Option (List (Option UserStr)) → Option (List UserStr)
  | none => some []
  | some argv => countArgs (if argc < 0 then argcMax else argc.toNat) argv

/-- What `do_exec` writes for so many arguments, of which these are read. -/
def passArgs (pid argc : Nat) (args : List (List Nat)) : MmRoutine Unit := do
  let mm ← get
  match mm.pcbSearch pid with
  | none => stop .corrupt
  | some pnew =>
    let argvBase := userSp - 8 * (argc + 1)
    pokeUser pnew.pgdir (argvBase + 8 * argc) (pointerBytes 0)
    discard (copyArgs pnew.pgdir argvBase 0 argvBase args)

/-- What a call finds. -/
structure BirthEnv where
  /-- The processor. -/
  cpu : Nat
  /-- There is no heap for the PCB. -/
  noPcb : Bool
  /-- There is no heap to read the task into. -/
  noBuf : Bool
  /-- There is no heap for the kernel stack. -/
  noStack : Bool
  /-- The tasks of the image. -/
  tasks : List Task
  /-- The current directory of the caller. -/
  curIno : Nat
  /-- The inodes of its open files. -/
  opened : List Nat

namespace Births

/-- The clean-up of `create_proc`. -/
def birthFailed (cpu pgdir pid pnew : Nat) : BirthRoutine BirthOut := do
  let _ ← onMm (createFailed cpu pgdir pid)
  modify fun births => (births.lpcbDelNode pnew).kfreeG pnew
  return .refused

/-- `create_proc`. -/
def createProc (env : BirthEnv) (taskname : Option (Nat → Option UInt8)) :
    BirthRoutine BirthOut := do
  let births ← get
  match taskname with
  | none => return .refused
  | some name =>
    if uprocMax + ncpu ≤ births.mm.procNum then return .refused
    else
      match allocPid births.mm with
      | none => stop .corrupt
      | some pid =>
        let pgdir ← onMm (allocPagetable pid)
        onMm (sharePgtable pgdir 0)
        match ← addPcb env.noPcb with
        | none =>
          onMm (freePagesOfProc env.cpu pgdir pid)
          return .refused
        | some pnew =>
          onMm (pcbTableAdd { pid, tid := 0, pgdir, segStart := 0, segEnd := 0 })
          -- The name is read for the first time when its PCB is linked already.
          match searchTask name env.tasks with
          | .illegal => return .ended
          | .missing => birthFailed env.cpu pgdir pid pnew
          | .found task =>
            if task.img.vaddr % normalPageSize ≠ 0 ∨ 64 < task.sectors then
              birthFailed env.cpu pgdir pid pnew
            else
              match ← kmalloc env.noBuf with
              | none => birthFailed env.cpu pgdir pid pnew
              | some utBuf =>
                let (segStart, segEnd) ← onMm (loadTaskImg env.cpu task.img pgdir pid)
                modify fun births => births.kfreeG utBuf
                if task.img.entry = 0 then birthFailed env.cpu pgdir pid pnew
                else
                  onMm (discard (allocPageHelper env.cpu (userSp - normalPageSize) pgdir pid))
                  match ← kmalloc env.noStack with
                  | none => birthFailed env.cpu pgdir pid pnew
                  | some _ =>
                    onMm (modify fun mm =>
                      { mm with pcbTable := mm.pcbTable.map fun tcb =>
                          if tcb.pid = pid then { tcb with segStart, segEnd } else tcb })
                    modify fun births => births.initialise pnew [env.curIno]
                    return .created pid

/-- `do_exec`. -/
def doExec (env : BirthEnv) (taskname : Option (Nat → Option UInt8)) (argc : Int)
    (argv : Option (List (Option UserStr))) : BirthRoutine BirthOut := do
  if (argcMax : Int) < argc then return .refused
  else
    match ← createProc env taskname with
    | .created pid =>
      match readArgs argc argv with
      | none => return .ended
      | some args =>
        -- Arguments before the first one that cannot be read are copied in any case.
        onMm (passArgs pid args.length ((args.takeWhile UserStr.ended).map UserStr.bytes))
        if args.all UserStr.ended then return .created pid else return .ended
    | out => return out

/-- `do_fork`. -/
def doFork (env : BirthEnv) : BirthRoutine BirthOut := do
  let births ← get
  match births.mm.curCpu env.cpu with
  | none => stop .corrupt
  | some ccpu =>
    if 1 < births.mm.pcbCount ccpu.pid then return .refused
    else if uprocMax + ncpu ≤ births.mm.procNum then return .refused
    else
      match allocPid births.mm with
      | none => return .refused
      | some pid =>
        match ← kmalloc env.noStack with
        | none => return .refused
        | some kernelStack =>
          match ← addPcb env.noPcb with
          | none =>
            modify fun births => births.kfreeG kernelStack
            return .refused
          | some pnew =>
            modify fun births => births.initialise pnew (env.curIno :: env.opened)
            let pgdir ← onMm (allocPagetable pid)
            onMm (pcbTableAdd
              { pid, tid := 0, pgdir, segStart := ccpu.segStart, segEnd := ccpu.segEnd })
            onMm (sharePgtable pgdir ccpu.pgdir)
            onMm (forUpto (numPteEntry / 2) fun vpn2 =>
              forkL2Entry env.cpu pid vpn2 pgdir ccpu.pgdir)
            return .created pid

/-- `do_thread_create`, with the outcome of the checks of its arguments. -/
def doThreadCreate (env : BirthEnv) (valid : Bool) : BirthRoutine BirthOut := do
  let births ← get
  match births.mm.curCpu env.cpu with
  | none => stop .corrupt
  | some ccpu =>
    match allocTid births.mm ccpu.pid with
    | none => return .refused
    | some tid =>
      if uprocMax + ncpu ≤ births.mm.procNum ∨ valid = false then return .refused
      else
        match ← kmalloc env.noStack with
        | none => return .refused
        | some kernelStack =>
          match ← addPcb env.noPcb with
          | none =>
            modify fun births => births.kfreeG kernelStack
            return .refused
          | some pnew =>
            modify fun births => births.initialise pnew (env.curIno :: env.opened)
            onMm (pcbTableAdd { ccpu with tid })
            return .created tid

end Births

/-- The calls that create processes and threads. -/
inductive BirthCall
  /-- `create_proc`. -/
  | createProc (taskname : Option (Nat → Option UInt8))
  /-- `do_exec`. -/
  | exec (taskname : Option (Nat → Option UInt8)) (argc : Int)
    (argv : Option (List (Option UserStr)))
  /-- `do_fork`. -/
  | fork
  /-- `do_thread_create`. -/
  | threadCreate (valid : Bool)

/-- What a call does. -/
def BirthCall.run (env : BirthEnv) : BirthCall → BirthRoutine BirthOut
  | .createProc taskname => Births.createProc env taskname
  | .exec taskname argc argv => Births.doExec env taskname argc argv
  | .fork => Births.doFork env
  | .threadCreate valid => Births.doThreadCreate env valid

/-- No entry of the maps is marked with an identifier. -/
structure Mm.Unmarked (mm : Mm) (pid : Nat) : Prop where
  /-- No page frame. -/
  frames : ∀ frame < npf, mm.pgCharmap frame ≠ pid
  /-- No page table. -/
  tables : ∀ table < npt, mm.pgtbCharmap table ≠ pid
  /-- No page of the swap partition. -/
  slots : ∀ slot < npswap, mm.spgCharmap slot ≠ pid

/-- A call has left nothing behind. -/
structure NothingTaken (before after : Births) : Prop where
  /-- The ready queue is as before. -/
  ready : after.ready = before.ready
  /-- So is `pcb_table`. -/
  pcbTable : after.mm.pcbTable = before.mm.pcbTable
  /-- No entry of the maps is marked for a process that has no PCB. -/
  unmarked : ∀ pid, ncpu ≤ pid → pid ≤ 2 * uprocMax →
    (∀ tcb ∈ before.mm.pcbTable, tcb.pid ≠ pid) → after.mm.Unmarked pid
  /-- Files have the users they had. -/
  nproc : after.nproc = before.nproc
  /-- The blocks of the heap are those of before. -/
  live : after.heap.live = before.heap.live

/-- No PCB is left unset, and a call that returns no identifier leaves nothing behind. -/
structure AllOrNothing (before : Births) (out : BirthOut) (after : Births) : Prop where
  /-- No PCB that do_scheduler can see has unset fields. -/
  set : after.raw = before.raw
  /-- Without a new identifier nothing was taken. -/
  nothing : (∀ id, out ≠ .created id) → NothingTaken before after

end GlucOS
