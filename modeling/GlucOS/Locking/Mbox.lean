import GlucOS.Locking.Lock

/-! Mailboxes: the circular buffer, opening and closing, and what a killed process gives back. -/

namespace GlucOS.Sched

open Routine

namespace Mailbox

/-- `len_of_queue`. -/
def lenOfQueue (mbox : Mailbox) : Nat :=
  if mbox.bufHead ≤ mbox.bufTail then mbox.bufTail - mbox.bufHead
  else mbox.bufTail + maxMboxLength + 1 - mbox.bufHead

/-- The next index of the circular buffer. -/
def nextIndex (index : Nat) : Nat := if maxMboxLength + 1 ≤ index + 1 then 0 else index + 1

/-- `queue_enter`, with nothing when the buffer is full. -/
def queueEnter (mbox : Mailbox) (d : UInt8) : Option Mailbox :=
  if mbox.lenOfQueue < maxMboxLength then
    some { mbox with
      buf := Function.update mbox.buf mbox.bufTail d
      bufTail := nextIndex mbox.bufTail }
  else none

/-- `queue_depart`, with nothing when the buffer is empty. -/
def queueDepart (mbox : Mailbox) : Option (UInt8 × Mailbox) :=
  if 0 < mbox.lenOfQueue then
    some (mbox.buf mbox.bufHead, { mbox with bufHead := nextIndex mbox.bufHead })
  else none

end Mailbox

/-- A change of one mailbox. -/
def Kernel.setMailbox (k : Kernel) (i : Nat) (mbox : Mailbox) : Kernel :=
  { k with mailboxes := Function.update k.mailboxes i mbox }

/-- `Name_max` of `do_mbox_open`. -/
def nameMax : Nat := 20

/-- The sum of the characters of a name, as long as its addresses are legal. -/
def nameSum (env : Env) (name : Nat) : Nat → Option Nat
  | 0 => some 0
  | left + 1 =>
    match env.readByte name with
    | none => none
    | some c => if c = 0 then some 0 else (nameSum env (name + 1) left).map (c.toNat + ·)

/-- `do_mbox_open` once the name is read. -/
def mboxOpen (env : Env) (s : Nat) : KernelRoutine Out := do
  let midx := s % mboxNum
  spinLockAcquire (.mailbox midx)
  let k ← get
  if (k.mailboxes midx).opid = none then
    set (((k.clearQueue (.mboxRecv midx)).clearQueue (.mboxSend midx)).setMailbox midx
      { k.mailboxes midx with opid := some (k.cur env.cpu).pid, bufHead := 0, bufTail := 0 })
    noteDone (.opened midx)
    spinLockRelease (.mailbox midx)
    return .returned midx
  else
    spinLockRelease (.mailbox midx)
    return .returned midx

/-- `do_mbox_close`. -/
def doMboxClose (env : Env) (midx : Int) : KernelRoutine Out := do
  if midx < 0 ∨ (mboxNum : Int) ≤ midx then return .returned int32Min
  else
    let i := midx.toNat
    spinLockAcquire (.mailbox i)
    let k ← get
    if (k.mailboxes i).opid = none then
      spinLockRelease (.mailbox i)
      return .returned int32Min
    else
      set (k.setMailbox i { k.mailboxes i with opid := none })
      unblockAll env (.mboxRecv i)
      unblockAll env (.mboxSend i)
      spinLockRelease (.mailbox i)
      return .returned midx

/-- One round of `mbox_release_killed`. -/
def mailboxReleaseKilled (env : Env) (kpid i : Nat) : KernelRoutine Unit := do
  spinLockAcquire (.mailbox i)
  let k ← get
  if (k.mailboxes i).opid = some kpid then
    set (k.setMailbox i { k.mailboxes i with opid := none })
    unblockAll env (.mboxRecv i)
    unblockAll env (.mboxSend i)
    spinLockRelease (.mailbox i)
  else spinLockRelease (.mailbox i)

/-- `ress_release_killed`, with `mbox_release_killed` at its end. -/
def ressReleaseKilled (env : Env) (kpid : Nat) : KernelRoutine Unit := do
  forUpto lockNum (mutexReleaseKilled env kpid)
  forUpto semaphoreNum (semaphoreReleaseKilled env kpid)
  forUpto barrierNum (barrierReleaseKilled env kpid)
  forUpto mboxNum (mailboxReleaseKilled env kpid)

end GlucOS.Sched
