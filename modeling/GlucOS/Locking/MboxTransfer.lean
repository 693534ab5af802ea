import GlucOS.Sched.Kill

/-! Sending to and receiving from mailboxes, byte by byte through the memory of the caller. -/

namespace GlucOS.Sched

open Routine

/-- The copy loop of `do_mbox_send`; it tells whether it met no illegal address. -/
def copyIn (env : Env) (i : Nat) : List Nat → KernelRoutine Bool
  | [] => pure true
  | addr :: rest => do
    match env.readByte addr with
    | none => return false
    | some d =>
      let k ← get
      match (k.mailboxes i).queueEnter d with
      | none => stop (.panic .mboxFull)
      | some mbox =>
        set (k.setMailbox i mbox)
        copyIn env i rest

/-- The copy loop of `do_mbox_recv`; a byte has left the buffer when its address proves illegal. -/
def copyOut (env : Env) (i : Nat) : List Nat → KernelRoutine Bool
  | [] => pure true
  | addr :: rest => do
    let k ← get
    match (k.mailboxes i).queueDepart with
    | none => stop (.panic .mboxEmpty)
    | some (_, mbox) =>
      set (k.setMailbox i mbox)
      if env.canWrite addr then copyOut env i rest else return false

/-- The addresses of a message. -/
def addresses (msg msgLength : Nat) : List Nat := (List.range msgLength).map (msg + ·)

/-- The bytes at some addresses, as far as they are legal. -/
def bytesAt (env : Env) (addrs : List Nat) : List UInt8 := addrs.filterMap env.readByte

/-- The first bytes of the buffer. -/
def Mailbox.firstBytes (mbox : Mailbox) (length : Nat) : List UInt8 :=
  (List.range length).map fun offset => mbox.buf ((mbox.bufHead + offset) % (maxMboxLength + 1))

/-- The rest of `do_mbox_send` once the spin lock is held and the mailbox is open. -/
def mboxSendLoop (env : Env) (i msg msgLength blockYmr : Nat) : KernelRoutine Out := do
  let k ← get
  if maxMboxLength - (k.mailboxes i).lenOfQueue < msgLength then
    set (k.setPcb (k.current env.cpu) fun pcb => { pcb with reqLen := msgLength })
    doBlock env (.mboxSend i) (some (.mailbox i)) (.mboxSend i msg msgLength (blockYmr + 1))
    return .blocked
  else
    let legal ← copyIn env i (addresses msg msgLength)
    if legal then
      unblockWhile env (.mboxRecv i) fun k h => (k.pcb h).reqLen ≤ (k.mailboxes i).lenOfQueue
      spinLockRelease (.mailbox i)
      noteDone (.sent i (bytesAt env (addresses msg msgLength)))
      return .returned blockYmr
    else
      -- The page fault handler ends the process here, and the spin lock is not released.
      doExit env

/-- `do_mbox_send`. -/
def doMboxSend (env : Env) (midx : Int) (msg msgLength : Nat) : KernelRoutine Out := do
  if midx < 0 ∨ (mboxNum : Int) ≤ midx ∨ msgLength = 0 ∨ maxMboxLength < msgLength then
    return .returned int32Min
  else
    let i := midx.toNat
    spinLockAcquire (.mailbox i)
    let k ← get
    if (k.mailboxes i).opid = none then
      spinLockRelease (.mailbox i)
      return .returned int32Min
    else mboxSendLoop env i msg msgLength 0

/-- The rest of `do_mbox_recv` once the spin lock is held and the mailbox is open. -/
def mboxRecvLoop (env : Env) (i msg msgLength blockYmr : Nat) : KernelRoutine Out := do
  let k ← get
  if (k.mailboxes i).lenOfQueue < msgLength then
    set (k.setPcb (k.current env.cpu) fun pcb => { pcb with reqLen := msgLength })
    doBlock env (.mboxRecv i) (some (.mailbox i)) (.mboxRecv i msg msgLength (blockYmr + 1))
    return .blocked
  else
    let legal ← copyOut env i (addresses msg msgLength)
    if legal then
      unblockAll env (.mboxSend i)
      spinLockRelease (.mailbox i)
      noteDone (.received i ((k.mailboxes i).firstBytes msgLength))
      return .returned blockYmr
    else doExit env

/-- `do_mbox_recv`. -/
def doMboxRecv (env : Env) (midx : Int) (msg msgLength : Nat) : KernelRoutine Out := do
  if midx < 0 ∨ (mboxNum : Int) ≤ midx ∨ msgLength = 0 ∨ maxMboxLength < msgLength then
    return .returned int32Min
  else if kvaMin ≤ msg then return .returned int32Min
  else
    let i := midx.toNat
    spinLockAcquire (.mailbox i)
    let k ← get
    if (k.mailboxes i).opid = none then
      spinLockRelease (.mailbox i)
      return .returned int32Min
    else mboxRecvLoop env i msg msgLength 0

/-- `do_mbox_send` and `do_mbox_recv` after the process was blocked. -/
def mboxAgain (i : Nat) (again : KernelRoutine Out) : KernelRoutine Out := do
  spinLockAcquire (.mailbox i)
  let k ← get
  if (k.mailboxes i).opid = none then
    spinLockRelease (.mailbox i)
    return .returned int32Min
  else again

/-- `do_mbox_open`. -/
def doMboxOpen (env : Env) (name : Nat) : KernelRoutine Out :=
  match nameSum env name nameMax with
  | none => doExit env
  | some s => mboxOpen env s

end GlucOS.Sched
