import GlucOS.Sched.InvariantLaws

/-! What kernel routines may do to the shared state, one change at a time. -/

namespace GlucOS.Sched

/-- The queues that belong to no synchronization object. -/
def QueueRef.plain : QueueRef → Bool
  | .sleep | .nicSend | .nicRecv | .wait _ => true
  | .ready | .mutex _ | .semaphore _ | .barrier _ | .mboxSend _ | .mboxRecv _ => false

/-- A queue of a synchronization object is not the ready queue. -/
theorem QueueRef.ne_ready_of_plain {q : QueueRef} (plain : q.plain = true) : q ≠ .ready := by
  rintro rfl
  simp [QueueRef.plain] at plain

/-- A process that was woken from a mutex lock, and will test the lock again. -/
def Kernel.Woken (k : Kernel) (i : Nat) (h : PcbRef) : Prop :=
  h ∈ k.queue .ready ∧ (k.pcb h).resume = .mutexAcquire i ∧
    ((k.pcb h).status = .ready ∨ (k.pcb h).status = .running)

/-- The heads of a queue are woken one after the other. -/
inductive Wakes (cpu : Nat) (q : QueueRef) : Kernel → Kernel → Prop
  /-- Nobody is woken. -/
  | refl (k : Kernel) : Wakes cpu q k k
  /-- The head is woken, and then others. -/
  | head {k k' : Kernel} {h : PcbRef} {rest : List PcbRef} (queued : k.queue q = h :: rest)
      (more : Wakes cpu q (k.wake cpu q h) k') : Wakes cpu q k k'

/-- The current process may block in favour of another one. -/
structure CanBlock (cpu : Nat) (k : Kernel) (p : PcbRef) : Prop where
  /-- The other one is in the ready queue. -/
  queued : p ∈ k.queue .ready
  /-- It is ready, and may run here. -/
  runnable : k.runnable cpu p = true
  /-- The current process was not killed. -/
  stays : (k.cur cpu).status ≠ .exiting
  /-- It is no idle process. -/
  user : ncpu ≤ k.current cpu

/-- Changes by scheduling; `victim` is the process that the event kills on purpose. -/
inductive SchedChange (cpu : Nat) (victim : Option Nat) (k : Kernel) : Kernel → Prop
  /-- A process is woken that waits for no synchronization object. -/
  | wake {q : QueueRef} {h : PcbRef} (queued : h ∈ k.queue q) (plain : q.plain = true) :
      SchedChange cpu victim k (k.wake cpu q h)
  /-- A thread is freed. -/
  | drop {h : PcbRef} (live : h ∈ k.pcbTable) (alone : k.queue (.wait h) = [])
      (away : ∀ c < ncpu, k.current c ≠ h) (user : ncpu ≤ h)
      (why : victim = some (k.pcb h).pid ∨ (k.pcb h).status = .exited ∨
        (k.pcb h).status = .zombie) : SchedChange cpu victim k (k.drop h)
  /-- A running thread is marked. -/
  | exiting {h : PcbRef} (live : h ∈ k.pcbTable)
      (runs : (k.pcb h).status = .running ∨ (k.pcb h).status = .exiting) (user : ncpu ≤ h)
      (why : victim = some (k.pcb h).pid ∨ (k.pcb h).status = .exiting) :
      SchedChange cpu victim k (k.setStatus h .exiting)
  /-- The current process leaves. -/
  | leave {status : TaskStatus} (user : ncpu ≤ k.current cpu)
      (goal : status = .exited ∧ (∀ h' ∈ k.pcbTable, (k.pcb h').pid = (k.cur cpu).pid →
          h' ≠ k.current cpu → (k.pcb h').status = .exiting) ∨
        status = .zombie ∧ (k.cur cpu).status = .running)
      (locking : ∀ i, (k.cur cpu).resume ≠ .mutexAcquire i) :
      SchedChange cpu victim k (k.setStatus (k.current cpu) status)
  /-- The scheduler switches. -/
  | switch {p : PcbRef} (queued : p ∈ k.queue .ready) (runnable : k.runnable cpu p = true)
      (stays : (k.cur cpu).status ≠ .exiting) : SchedChange cpu victim k (k.switchTo cpu p)
  /-- The current process blocks on no synchronization object. -/
  | block {q : QueueRef} (resume : Resume) {p : PcbRef} (plain : q.plain = true)
      (can : CanBlock cpu k p) (waited : ∀ x, q = .wait x → x ∈ k.pcbTable ∧ x ≠ k.current cpu)
      (calm : victim = none) (locking : ∀ i, (k.cur cpu).resume ≠ .mutexAcquire i) :
      SchedChange cpu victim k (k.blockOn cpu q resume p)
  /-- A new thread. -/
  | create {pid tid : Nat} (cpuMask : Nat) (room : k.pcbTable.length < uprocMax + ncpu)
      (user : ncpu ≤ pid) (fresh : ∀ h ∈ k.pcbTable, (k.pcb h).pid = pid → (k.pcb h).tid ≠ tid)
      (stays : ∀ h ∈ k.pcbTable, (k.pcb h).pid = pid → (k.pcb h).status ≠ .exited) :
      SchedChange cpu victim k (k.addPcb pid tid cpuMask)
  /-- A new processor mask. -/
  | mask {pid : Nat} (cpuMask : Nat) (user : ncpu ≤ pid) :
      SchedChange cpu victim k (k.setMask pid cpuMask)
  /-- The current process gets ready to sleep or to ask for bytes. -/
  | request (wakeupTime reqLen : Nat) :
      SchedChange cpu victim k
        (k.setPcb (k.current cpu) fun pcb => { pcb with wakeupTime, reqLen })
  /-- The call of the current process returns; a mutex lock it asked for is locked. -/
  | finish (done : ∀ i, (k.cur cpu).resume = .mutexAcquire i → (k.mlocks i).locked = true) :
      SchedChange cpu victim k (k.setResume (k.current cpu) .toUser)
  /-- Another `glush`. -/
  | glush (pid : Option Nat) : SchedChange cpu victim k { k with pidGlush := pid }
  /-- The last thread of a process is gone. -/
  | terminated {pid : Nat} (gone : k.pcbSearchAll pid = []) :
      SchedChange cpu victim k (k.note (.terminated pid))

/-- The process whose thread acquired a lock last, if it has not released it or ended since. -/
def holder (i : Nat) : List Note → Option Nat
  | [] => none
  | .acquired j _ pid :: earlier => if j = i then some pid else holder i earlier
  | .released j _ _ :: earlier => if j = i then none else holder i earlier
  | .terminated pid :: earlier =>
    if holder i earlier = some pid then none else holder i earlier
  | _ :: earlier => holder i earlier

/-- Changes around one mutex lock. -/
inductive MutexChange (cpu : Nat) (victim : Option Nat) (i : Nat) (k : Kernel) : Kernel → Prop
  /-- The lock is taken, by a process that may hold it already. -/
  | acquire (free : (k.mlocks i).locked = true → (k.mlocks i).opid = some (k.cur cpu).pid) :
      MutexChange cpu victim i k ((k.setMlock i ⟨true, some (k.cur cpu).pid⟩).note
        (.acquired i (k.current cpu) (k.cur cpu).pid))
  /-- The current process waits for the lock. -/
  | block {p : PcbRef} (held : (k.mlocks i).locked = true)
      (foreign : (k.mlocks i).opid ≠ some (k.cur cpu).pid) (can : CanBlock cpu k p)
      (calm : victim = none) (locking : ∀ j, (k.cur cpu).resume = .mutexAcquire j → j = i) :
      MutexChange cpu victim i k (k.blockOn cpu (.mutex i) (.mutexAcquire i) p)
  /-- The lock is released, and nobody waits for it. -/
  | releaseFree (held : (k.mlocks i).locked = true)
      (own : (k.mlocks i).opid = some (k.cur cpu).pid) (empty : k.queue (.mutex i) = []) :
      MutexChange cpu victim i k ((k.setMlock i { k.mlocks i with locked := false }).note
        (.released i (k.current cpu) (k.cur cpu).pid))
  /-- The lock is released, and the first process that waits is woken. -/
  | releaseWake {h : PcbRef} {rest : List PcbRef} (held : (k.mlocks i).locked = true)
      (own : (k.mlocks i).opid = some (k.cur cpu).pid) (queued : k.queue (.mutex i) = h :: rest)
      (calm : victim = none) :
      MutexChange cpu victim i k
        (((k.setMlock i { k.mlocks i with locked := false }).wake cpu (.mutex i) h).note
          (.released i (k.current cpu) (k.cur cpu).pid))
  /-- The owner has ended, and nobody waits. -/
  | killedFree {kpid : Nat} (silent : holder i k.history ≠ some kpid)
      (held : (k.mlocks i).locked = true) (own : (k.mlocks i).opid = some kpid) (empty : k.queue (.mutex i) = []) :
      MutexChange cpu victim i k (k.setMlock i { k.mlocks i with locked := false })
  /-- The owner has ended, and the first process that waits becomes the owner. -/
  | handOver {kpid : Nat} {h : PcbRef} {rest : List PcbRef}
      (silent : holder i k.history ≠ some kpid) (held : (k.mlocks i).locked = true) (own : (k.mlocks i).opid = some kpid)
      (queued : k.queue (.mutex i) = h :: rest) :
      MutexChange cpu victim i k ((k.wake cpu (.mutex i) h).setMlock i
        { k.mlocks i with opid := some (k.pcb h).pid })

/-- Changes around one semaphore. -/
inductive SemaphoreChange (cpu : Nat) (victim : Option Nat) (i : Nat) (k : Kernel) : Kernel → Prop
  /-- It is initialised. -/
  | init (value : Int) (small : value < 2 ^ 31) (closed : (k.semaphores i).opid = none) :
      SemaphoreChange cpu victim i k
        (((k.clearQueue (.semaphore i)).setSemaphore i
          { opid := some (k.cur cpu).pid, value }).note (.semInit i value))
  /-- An up operation without waiters. -/
  | upFree (valid : (k.semaphores i).opid ≠ none) (nonneg : 0 ≤ (k.semaphores i).value) :
      SemaphoreChange cpu victim i k
        ((k.setSemaphore i { k.semaphores i with value := wrapInt32 ((k.semaphores i).value + 1) }).note
          (.semUp i))
  /-- An up operation that finds a negative value, but no waiter. -/
  | upReset (valid : (k.semaphores i).opid ≠ none) (neg : (k.semaphores i).value < 0)
      (empty : k.queue (.semaphore i) = []) :
      SemaphoreChange cpu victim i k
        ((k.setSemaphore i { k.semaphores i with value := 0 }).note (.semUp i))
  /-- An up operation that wakes the first waiter. -/
  | upWake {h : PcbRef} {rest : List PcbRef} (valid : (k.semaphores i).opid ≠ none)
      (neg : (k.semaphores i).value < 0) (queued : k.queue (.semaphore i) = h :: rest)
      (calm : victim = none) :
      SemaphoreChange cpu victim i k
        ((((k.setSemaphore i
          { k.semaphores i with value := wrapInt32 ((k.semaphores i).value + 1) }).note
            (.semUp i)).wake cpu (.semaphore i) h).note (.semGranted i))
  /-- A down operation that passes. -/
  | pass (valid : (k.semaphores i).opid ≠ none)
      (nonneg : 0 ≤ wrapInt32 ((k.semaphores i).value - 1)) :
      SemaphoreChange cpu victim i k
        ((k.setSemaphore i { k.semaphores i with value := wrapInt32 ((k.semaphores i).value - 1) }).note
          (.semGranted i))
  /-- A down operation that blocks. -/
  | block {p : PcbRef} (valid : (k.semaphores i).opid ≠ none)
      (neg : wrapInt32 ((k.semaphores i).value - 1) < 0) (can : CanBlock cpu k p)
      (calm : victim = none) (locking : ∀ j, (k.cur cpu).resume ≠ .mutexAcquire j) :
      SemaphoreChange cpu victim i k
        ((k.setSemaphore i
          { k.semaphores i with value := wrapInt32 ((k.semaphores i).value - 1) }).blockOn cpu
            (.semaphore i) (.semaphoreDown i) p)
  /-- It becomes invalid, and all waiters are woken. -/
  | close {k' : Kernel}
      (wakes : Wakes cpu (.semaphore i)
        (k.setSemaphore i { k.semaphores i with opid := none }) k')
      (empty : k'.queue (.semaphore i) = []) : SemaphoreChange cpu victim i k k'

/-- Changes around one barrier. -/
inductive BarrierChange (cpu : Nat) (victim : Option Nat) (i : Nat) (k : Kernel) : Kernel → Prop
  /-- It is initialised. -/
  | init (goal : Int) (closed : (k.barriers i).opid = none) :
      BarrierChange cpu victim i k
        ((k.clearQueue (.barrier i)).setBarrier i
          { opid := some (k.cur cpu).pid, goal, come := 0 })
  /-- The last process comes, and all waiters are woken. -/
  | pass {k' : Kernel} (valid : (k.barriers i).opid ≠ none)
      (all : (k.barriers i).goal ≤ (k.barriers i).come + 1) (calm : victim = none)
      (wakes : Wakes cpu (.barrier i) (k.setBarrier i { k.barriers i with come := 0 }) k')
      (empty : k'.queue (.barrier i) = []) :
      BarrierChange cpu victim i k (k'.note
        (.passed i (k.queue (.barrier i) ++ [k.current cpu]) (k.barriers i).goal))
  /-- A process comes and blocks. -/
  | block {p : PcbRef} (valid : (k.barriers i).opid ≠ none)
      (few : (k.barriers i).come + 1 < (k.barriers i).goal) (can : CanBlock cpu k p)
      (calm : victim = none) (locking : ∀ j, (k.cur cpu).resume ≠ .mutexAcquire j) :
      BarrierChange cpu victim i k
        ((k.setBarrier i { k.barriers i with come := (k.barriers i).come + 1 }).blockOn cpu
          (.barrier i) (.barrierWait i (k.barriers i).goal) p)
  /-- It becomes invalid, and all waiters are woken. -/
  | close {k' : Kernel}
      (wakes : Wakes cpu (.barrier i) (k.setBarrier i { k.barriers i with opid := none }) k')
      (empty : k'.queue (.barrier i) = []) : BarrierChange cpu victim i k k'

/-- Entering bytes one after the other, as long as the buffer is not full. -/
def Mailbox.enterAll : Mailbox → List UInt8 → Option Mailbox
  | mbox, [] => some mbox
  | mbox, d :: rest => (mbox.queueEnter d).bind fun mbox => mbox.enterAll rest

/-- Taking so many bytes out, as long as the buffer is not empty. -/
def Mailbox.departAll : Mailbox → Nat → Option (List UInt8 × Mailbox)
  | mbox, 0 => some ([], mbox)
  | mbox, n + 1 => mbox.queueDepart.bind fun (d, mbox) =>
    (mbox.departAll n).map fun (bytes, mbox) => (d :: bytes, mbox)

/-- Changes around one mailbox. -/
inductive MailboxChange (cpu : Nat) (victim : Option Nat) (i : Nat) (k : Kernel) : Kernel → Prop
  /-- It is opened. -/
  | opens (closed : (k.mailboxes i).opid = none) :
      MailboxChange cpu victim i k
        ((((k.clearQueue (.mboxRecv i)).clearQueue (.mboxSend i)).setMailbox i
          { k.mailboxes i with opid := some (k.cur cpu).pid, bufHead := 0, bufTail := 0 }).note
            (.opened i))
  /-- It is closed, and all waiters are woken. -/
  | close {k₁ k' : Kernel}
      (receivers : Wakes cpu (.mboxRecv i) (k.setMailbox i { k.mailboxes i with opid := none }) k₁)
      (senders : Wakes cpu (.mboxSend i) k₁ k')
      (noReceivers : k'.queue (.mboxRecv i) = []) (noSenders : k'.queue (.mboxSend i) = []) :
      MailboxChange cpu victim i k k'
  /-- The current process waits for space. -/
  | blockSend {p : PcbRef} {msgLength : Nat} (resume : Resume)
      (valid : (k.mailboxes i).opid ≠ none)
      (full : maxMboxLength - (k.mailboxes i).lenOfQueue < msgLength) (can : CanBlock cpu k p)
      (calm : victim = none) (locking : ∀ j, (k.cur cpu).resume ≠ .mutexAcquire j) :
      MailboxChange cpu victim i k
        ((k.setPcb (k.current cpu) fun pcb => { pcb with reqLen := msgLength }).blockOn cpu
          (.mboxSend i) resume p)
  /-- The current process waits for bytes. -/
  | blockRecv {p : PcbRef} {msgLength : Nat} (resume : Resume)
      (valid : (k.mailboxes i).opid ≠ none)
      (empty : (k.mailboxes i).lenOfQueue < msgLength) (can : CanBlock cpu k p)
      (calm : victim = none) (locking : ∀ j, (k.cur cpu).resume ≠ .mutexAcquire j) :
      MailboxChange cpu victim i k
        ((k.setPcb (k.current cpu) fun pcb => { pcb with reqLen := msgLength }).blockOn cpu
          (.mboxRecv i) resume p)
  /-- A message is sent, and those are woken whose requests can be met. -/
  | sent {bytes : List UInt8} {mbox : Mailbox} {k' : Kernel}
      (valid : (k.mailboxes i).opid ≠ none)
      (entered : (k.mailboxes i).enterAll bytes = some mbox) (calm : victim = none)
      (wakes : Wakes cpu (.mboxRecv i) (k.setMailbox i mbox) k')
      (stopped : ∀ h ∈ (k'.queue (.mboxRecv i)).head?, mbox.lenOfQueue < (k'.pcb h).reqLen) :
      MailboxChange cpu victim i k (k'.note (.sent i bytes))
  /-- Bytes are received, and all senders are woken. -/
  | received {bytes : List UInt8} {length : Nat} {mbox : Mailbox} {k' : Kernel}
      (valid : (k.mailboxes i).opid ≠ none)
      (departed : (k.mailboxes i).departAll length = some (bytes, mbox)) (calm : victim = none)
      (wakes : Wakes cpu (.mboxSend i) (k.setMailbox i mbox) k')
      (empty : k'.queue (.mboxSend i) = []) :
      MailboxChange cpu victim i k (k'.note (.received i bytes))

/-- One change of the shared state. -/
inductive Change (cpu : Nat) (victim : Option Nat) (k : Kernel) : Kernel → Prop
  /-- Spin locks are acquired or released. -/
  | spin (slock : SpinLock → Bool) : Change cpu victim k { k with slock }
  /-- Scheduling. -/
  | sched {k' : Kernel} (change : SchedChange cpu victim k k') : Change cpu victim k k'
  /-- A mutex lock. -/
  | mutex {k' : Kernel} {i : Nat} (change : MutexChange cpu victim i k k') : Change cpu victim k k'
  /-- A semaphore. -/
  | semaphore {k' : Kernel} {i : Nat} (change : SemaphoreChange cpu victim i k k') :
      Change cpu victim k k'
  /-- A barrier. -/
  | barrier {k' : Kernel} {i : Nat} (change : BarrierChange cpu victim i k k') :
      Change cpu victim k k'
  /-- A mailbox. -/
  | mailbox {k' : Kernel} {i : Nat} (change : MailboxChange cpu victim i k k') :
      Change cpu victim k k'

/-- Changes one after the other. -/
abbrev Changes (cpu : Nat) (victim : Option Nat) : Kernel → Kernel → Prop :=
  Relation.ReflTransGen (Change cpu victim)

/--
The changes of an event, during which a copy loop may break.

Then one mailbox is left in the middle of a message.
-/
def Deeds (cpu : Nat) (victim : Option Nat) : Option Nat → Kernel → Kernel → Prop
  | none, k, k' => Changes cpu victim k k'
  | some i, k, k' => ∃ k₁ mbox, Changes cpu victim k k₁ ∧ mbox.bufHead ≤ maxMboxLength ∧
      mbox.bufTail ≤ maxMboxLength ∧ mbox.opid = (k₁.mailboxes i).opid ∧
      Changes cpu victim (k₁.setMailbox i mbox) k'

end GlucOS.Sched
