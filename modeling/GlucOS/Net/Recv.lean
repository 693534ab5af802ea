import GlucOS.Net.Gntp
import GlucOS.Sched.Kernel

/-! What `do_net_recv_stream` holds while it runs: a mutex lock, the nodes of its list, and `fb`. -/

namespace GlucOS

/-- The blocks of the kernel heap that the module holds; no address comes twice. -/
structure NetHeap where
  /-- The blocks that were allocated and not freed. -/
  live : Finset Nat
  /-- The next address. -/
  next : Nat

namespace NetHeap

/-- `kmalloc_g` that succeeds. -/
def kmallocG (heap : NetHeap) : Nat × NetHeap :=
  (heap.next, { live := insert heap.next heap.live, next := heap.next + 1 })

/-- `kfree_g` of a block, or nothing where the block is not allocated. -/
def kfreeG (heap : NetHeap) (block : Nat) : Option NetHeap :=
  if block ∈ heap.live then some { heap with live := heap.live.erase block } else none

end NetHeap

namespace Dlist

/-! The nodes behind `dlh` are at the addresses in a list of their own, in the same order. -/

/-- What the end of `dlist_insert` does to the nodes behind `p`. -/
def linkBlocks (start stop : Nat) (kmalloc : Bool) (p : Span Nat) (heap : NetHeap) :
    List (Span Nat) → List Nat → Option (List Nat × NetHeap)
  | [], blocks =>
    if start < p.stop then some (blocks, heap)
    else if start = p.stop then some (blocks, heap)
    else if kmalloc then some (heap.kmallocG.1 :: blocks, heap.kmallocG.2)
    else some (blocks, heap)
  | q :: _, blocks =>
    if start < p.stop ∨ q.start < stop then some (blocks, heap)
    else if start = p.stop then
      if stop = q.start then
        -- The next node is freed, as the one in front of it takes over its range.
        match blocks with
        | [] => none
        | next :: rest => (heap.kfreeG next).map fun heap => (rest, heap)
      else some (blocks, heap)
    else if stop = q.start then some (blocks, heap)
    else if kmalloc then some (heap.kmallocG.1 :: blocks, heap.kmallocG.2)
    else some (blocks, heap)

/-- What `dlist_insert` does to the nodes behind `p`, from its loop on. -/
def placeBlocks (start stop : Nat) (kmalloc : Bool) (p : Span Nat) (heap : NetHeap) :
    List (Span Nat) → List Nat → Option (List Nat × NetHeap)
  | q :: rest, next :: blocks =>
    if q.start ≤ start then
      (placeBlocks start stop kmalloc q heap rest blocks).map fun (blocks, heap) =>
        (next :: blocks, heap)
    else linkBlocks start stop kmalloc p heap (q :: rest) (next :: blocks)
  | nodes, blocks => linkBlocks start stop kmalloc p heap nodes blocks

/-- What `dlist_insert` does to the nodes. -/
def insertBlocks (dlist : Dlist) (start stop : Nat) (kmalloc : Bool) (heap : NetHeap)
    (blocks : List Nat) : Option (List Nat × NetHeap) :=
  if stop ≤ start ∨ u32 (dlist.dlh.stop + gntpWinsize) ≤ stop then some (blocks, heap)
  else placeBlocks start stop kmalloc dlist.dlh heap dlist.nodes blocks

end Dlist

/-- `do_mutex_lock_release` by a process, as far as the lock itself goes. -/
def Sched.MutexLock.release (lock : Sched.MutexLock) (pid : Nat) : Sched.MutexLock :=
  if lock.locked = true ∧ lock.opid ≠ some pid then lock
  else if lock.locked = false then lock
  else { lock with locked := false }

/-- The receiver with what it holds. -/
structure Recv where
  /-- Its data. -/
  net : Gntp
  /-- The address in `fb`, or null. -/
  fb : Option Nat
  /-- The addresses of the nodes of the list. -/
  nodes : List Nat
  /-- Its blocks. -/
  heap : NetHeap
  /-- The mutex lock `LOCK_IDX`. -/
  lock : Sched.MutexLock

/-- How far `do_net_recv_stream` has come, with what it holds. -/
inductive RecvProgress where
  /-- It is in its loop. -/
  | receiving (recv : Recv)
  /-- It has returned. -/
  | returned (value : Nat) (recv : Recv)

/-- The arguments of a call, its process, and what it meets. -/
structure RecvCall where
  /-- The process that calls. -/
  pid : Nat
  /-- `buf`. -/
  buf : Nat
  /-- `len`. -/
  len : Int
  /-- `kmalloc_g` of the frame buffer succeeds. -/
  kmalloc : Bool
  /-- What the turns of the loop meet. -/
  polls : List Poll

namespace Recv

/-- `dlist_clear`. -/
def clear (recv : Recv) : Option Recv := do
  let heap ← recv.nodes.foldlM NetHeap.kfreeG recv.heap
  return { recv with net := { recv.net with dlist := .clear }, nodes := [], heap }

/-- `kfree_g(fb)`, which accepts no null pointer, and `fb = NULL`. -/
def freeFb (recv : Recv) : Option Recv :=
  match recv.fb with
  | none => none
  | some block => (recv.heap.kfreeG block).map fun heap => { recv with fb := none, heap }

/-- What both ways out of the loop have in common. -/
def finish (recv : Recv) (pid value : Nat) : Option RecvProgress := do
  let recv ← recv.clear
  let recv ← recv.freeFb
  return .returned value { recv with lock := recv.lock.release pid }

/-- One turn of the loop. -/
def turn (recv : Recv) (pid len : Nat) (poll : Poll) : Option RecvProgress :=
  match poll.frame with
  | none => some (.receiving { recv with net := recv.net.idle })
  | some frame => do
    let header := recv.net.headerOf frame
    let (nodes, heap) ←
      if header.IsData then
        recv.net.dlist.insertBlocks header.seq (u32 (header.seq + header.length)) poll.kmalloc
          recv.heap recv.nodes
      else some (recv.nodes, recv.heap)
    match recv.net.accept len frame poll.kmalloc with
    | .receiving net => some (.receiving { recv with net, nodes, heap })
    | .returned value net => finish { recv with net, nodes, heap } pid value
    | .panicked => none

/-- The loop, as long as polls are there. -/
def loop (recv : Recv) (pid len : Nat) : List Poll → Option RecvProgress
  | [] => some (.receiving recv)
  | poll :: rest => do
    match ← recv.turn pid len poll with
    | .receiving recv => loop recv pid len rest
    | ended => return ended

/-- `fb`, which is allocated unless a process that was killed has left it behind. -/
def takeFb (recv : Recv) : Recv :=
  match recv.fb with
  | none => { recv with fb := some recv.heap.kmallocG.1, heap := recv.heap.kmallocG.2 }
  | some _ => recv

/-- `do_net_recv_stream`, or nothing where it panics or frees what is not allocated. -/
def call (recv : Recv) (call : RecvCall) : Option RecvProgress :=
  let recv := { recv with net := { recv.net with stores := [], loads := [], sent := [] } }
  if kvaOffset ≤ call.buf ∨ call.len ≤ 0 then some (.returned 0 recv)
  else do
    -- Whoever holds the lock has it until it releases it or is killed.
    let recv ← clear { recv with lock := ⟨true, some call.pid⟩ }
    if recv.fb = none ∧ call.kmalloc = false then return .returned 0 recv
    else
      let recv := recv.takeFb
      loop { recv with net := { recv.net with seqMax := 0, time := 0, recvStarted := false } }
        call.pid call.len.toNat call.polls

/-- Calls one after the other; a call that has not returned before the next one was killed. -/
def calls (recv : Recv) : List RecvCall → Option Recv
  | [] => some recv
  | call :: rest => do
    match ← recv.call call with
    | .returned _ recv => recv.calls rest
    | .receiving recv => calls { recv with lock := { recv.lock with locked := false } } rest

end Recv

end GlucOS
