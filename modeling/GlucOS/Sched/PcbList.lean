import GlucOS.Lib.LinkedList
import GlucOS.Sched.Machine

/-! The circular lists of PCBs, link by link, and how the scheduler moves a PCB between them. -/

namespace GlucOS.Sched

/-- The links of all PCBs, and the head pointers of all queues. -/
structure Links where
  /-- `next` of a PCB. -/
  next : PcbRef → PcbRef
  /-- `phead` of a PCB. -/
  phead : PcbRef → QueueRef
  /-- The head pointer of a queue. -/
  head : QueueRef → Option PcbRef

/-- As many PCBs as `pcb_table` has room for, so that no loop over a queue takes longer. -/
def maxNodes : Nat := uprocMax + ncpu

namespace Links

/-- A new `next`. -/
def setNext (m : Links) (p q : PcbRef) : Links :=
  { m with next := Function.update m.next p q }

/-- A new `phead`. -/
def setPhead (m : Links) (p : PcbRef) (phead : QueueRef) : Links :=
  { m with phead := Function.update m.phead p phead }

/-- A new head pointer. -/
def setHead (m : Links) (q : QueueRef) (head : Option PcbRef) : Links :=
  { m with head := Function.update m.head q head }

/-! ## Operations on one list

Nothing is the answer of a loop that does not end. Otherwise there is a pointer to return.
A loop along a list takes no more steps than there are nodes in it.
-/

/-- `lpcb_add_node_to_tail` of a list of so many nodes at most; the node is null without memory. -/
def lpcbAddNodeToTailIn (m : Links) (size : Nat) (head pnew : Option PcbRef) (phead : QueueRef) :
    Option (Option PcbRef × Links) :=
  match pnew with
  | none => some (none, m)
  | some pnew =>
    match head with
    | none => some (some pnew, (m.setNext pnew pnew).setPhead pnew phead)
    | some head => do
      let p ← walkTo m.next head (fun _ => false) size head
      return (some head, ((m.setNext p pnew).setNext pnew head).setPhead pnew phead)

/-- `lpcb_add_node_to_tail`. -/
def lpcbAddNodeToTail (m : Links) (head pnew : Option PcbRef) (phead : QueueRef) :
    Option (Option PcbRef × Links) :=
  m.lpcbAddNodeToTailIn maxNodes head pnew phead

/-- `lpcb_insert_node` into a list of so many nodes at most. -/
def lpcbInsertNodeIn (m : Links) (size : Nat) (head : Option PcbRef) (pnew : PcbRef)
    (pprior : Option PcbRef) (phead : QueueRef) : Option (Option PcbRef × Links) :=
  match head with
  | none =>
    if pprior = none then some (some pnew, (m.setPhead pnew phead).setNext pnew pnew)
    else some (none, m)
  | some head => do
    let p ← walkTo m.next head (fun p => some p = pprior) size head
    if some p ≠ pprior ∧ pprior ≠ none then return (none, m)
    else return (some head, ((m.setNext pnew (m.next p)).setNext p pnew).setPhead pnew phead)

/-- `lpcb_insert_node`. -/
def lpcbInsertNode (m : Links) (head : Option PcbRef) (pnew : PcbRef) (pprior : Option PcbRef)
    (phead : QueueRef) : Option (Option PcbRef × Links) :=
  m.lpcbInsertNodeIn maxNodes head pnew pprior phead

/-- `lpcb_search_node` and `lpcb_search_node_tcb`, with what they look for. -/
def lpcbSearchNode (m : Links) (head : Option PcbRef) (found : PcbRef → Bool) :
    Option (Option PcbRef) :=
  match head with
  | none => some none
  | some head =>
    if found head then some (some head)
    else searchFrom m.next head found maxNodes (m.next head)

/-- `lpcb_del_node` from a list of so many nodes at most: the new head and the node deleted. -/
def lpcbDelNodeIn (m : Links) (size : Nat) (head : Option PcbRef) (t : PcbRef) :
    Option ((Option PcbRef × Option PcbRef) × Links) :=
  match head with
  | none => some ((none, none), m)
  | some head =>
    if m.next head = head then some ((none, if head = t then some head else none), m)
    else if head = t then do
      -- The tail is found, and linked to the second node.
      let p ← walkTo m.next head (fun _ => false) size head
      let m' := m.setNext p (m.next head)
      return ((some (m'.next p), some head), m')
    else do
      let p ← walkTo m.next head (fun p => m.next p = t) size head
      if m.next p = t then return ((some head, some t), m.setNext p (m.next t))
      else return ((some head, none), m)

/-- `lpcb_del_node`. -/
def lpcbDelNode (m : Links) (head : Option PcbRef) (t : PcbRef) :
    Option ((Option PcbRef × Option PcbRef) × Links) :=
  m.lpcbDelNodeIn maxNodes head t

/-! ## Operations of the scheduler

Nothing is the answer as well where `panic_g` is called.
-/

/-- A PCB leaves its queue, and is inserted into the ready queue after the current process. -/
def moveToReady (m : Links) (q : QueueRef) (t ccpu : PcbRef) : Option Links := do
  let ((head, pdel), m) ← m.lpcbDelNode (m.head q) t
  if pdel ≠ some t then none
  else
    let m := m.setHead q head
    let (ready, m) ← m.lpcbInsertNode (m.head .ready) t (some ccpu) .ready
    if ready = none then none else return m.setHead .ready ready

/-- `wake_up`. -/
def wakeUp (m : Links) (t ccpu : PcbRef) : Option Links := m.moveToReady .sleep t ccpu

/-- `do_unblock` of the head of a queue that is not empty. -/
def doUnblock (m : Links) (q : QueueRef) (ccpu : PcbRef) : Option Links := do
  let head ← m.head q
  m.moveToReady q head ccpu

/-- `do_block`: the current process goes to the tail of a queue. -/
def doBlock (m : Links) (ccpu : PcbRef) (q : QueueRef) : Option Links := do
  let ((ready, pdel), m) ← m.lpcbDelNode (m.head .ready) ccpu
  if pdel ≠ some ccpu then none
  else
    let m := m.setHead .ready ready
    let (temp, m) ← m.lpcbInsertNode (m.head q) ccpu none q
    if temp = none then none else return m.setHead q temp

/-- `thread_kill`, as far as it finds and unlinks the thread with some identifiers. -/
def threadKill (m : Links) (same : PcbRef → Bool) (p : PcbRef) : Option Links := do
  let phead := m.phead p
  let found ← m.lpcbSearchNode (m.head phead) same
  if found ≠ some p then none
  else
    let ((head, pdel), m) ← m.lpcbDelNode (m.head phead) p
    if pdel = none then none else return m.setHead phead head

/-- A new PCB, for which there is memory, at the tail of the ready queue; nobody waits for it. -/
def addPcb (m : Links) (pnew : PcbRef) : Option Links := do
  let (ready, m) ← m.lpcbAddNodeToTail (m.head .ready) (some pnew) .ready
  return (m.setHead .ready ready).setHead (.wait pnew) none

/-- `create_proc` that fails after it has linked its PCB: the PCB is unlinked again. -/
def delPcb (m : Links) (pnew : PcbRef) : Option Links := do
  let ((ready, pdel), m) ← m.lpcbDelNode (m.head .ready) pnew
  if pdel ≠ some pnew then none else return m.setHead .ready ready

/-- The links after `init_pcb` has linked the idle processes. -/
def initPcb : Option Links := do
  let m : Links := { next := id, phead := fun _ => .ready, head := fun _ => none }
  let (ready, m) ← m.lpcbInsertNode (m.head .ready) 0 none .ready
  let m := m.setHead .ready ready
  let (ready, m) ← m.lpcbInsertNode (m.head .ready) 1 none .ready
  return m.setHead .ready ready

/-- The links once `main` has started `glush`. -/
def initial : Option Links := do
  let m ← initPcb
  m.addPcb ncpu

end Links

end GlucOS.Sched
