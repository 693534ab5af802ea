import GlucOS.Lib.Run
import GlucOS.Lib.Window
import GlucOS.Lib.Word

/-! The driver of the e1000: its calls instruction by instruction, with the NIC working beside. -/

namespace GlucOS

/-- Bytes by their place in a buffer. -/
abbrev Bytes := Nat → UInt8

/-- `TXDESCS`: the number of transmit descriptors. -/
def txDescs : Nat := 64

/-- `RXDESCS`: the number of receive descriptors. -/
def rxDescs : Nat := 64

/-- `TX_FRM_SIZE`: the longest frame to transmit. -/
def txFrmSize : Nat := 1024

/-- `RX_FRM_SIZE`: the longest frame a receive descriptor holds. -/
def rxFrmSize : Nat := 2048

/-- `E1000_TXD_CMD_RS | E1000_TXD_CMD_EOP`: a frame of its own, whose end is reported. -/
def txdCmd : Nat := 8 + 1

/-- `struct e1000_tx_desc`, as far as the driver writes it. -/
structure TxDesc where
  /-- The number of the frame buffer whose address is in the descriptor. -/
  addr : Nat
  length : Nat
  cmd : Nat
  deriving DecidableEq

/-- `struct e1000_rx_desc`, as far as the driver reads it. -/
structure RxDesc where
  /-- The number of the frame buffer whose address is in the descriptor. -/
  addr : Nat
  length : Nat
  /-- `E1000_RXD_STAT_DD`: the NIC has put a frame there. -/
  done : Bool
  deriving DecidableEq

/-- A frame as the NIC sends it. -/
structure TxPacket where
  bytes : List UInt8
  cmd : Nat
  deriving DecidableEq

/-- A frame that a caller wants to be sent, of a length that the driver has checked. -/
structure TxFrame where
  /-- The memory that the pointer leads to. -/
  memory : Bytes
  /-- How many bytes can be read before a page fault kills the process. -/
  legal : Nat
  length : Nat

/-- What is to be seen of a frame on the wire. -/
def TxFrame.packet (frame : TxFrame) : TxPacket where
  bytes := (List.range frame.length).map frame.memory
  cmd := txdCmd

/-- The frames of a running call: those queued already, the next one, and the others. -/
structure TxWork where
  before : List TxFrame
  frame : TxFrame
  after : List TxFrame

/-- All frames of the call. -/
def TxWork.frames (work : TxWork) : List TxFrame := work.before ++ work.frame :: work.after

/-- The caller's buffer for a received frame, with what has been copied to it. -/
structure RxTarget where
  /-- How many bytes can be written before a page fault kills the process. -/
  legal : Nat
  got : List UInt8

/-- The place in the driver that is executed next. -/
inductive E1000Pc where
  /-- No call of the driver is running. -/
  | idle
  /-- `tcq_head = e1000_read_reg(e1000, E1000_TDH)`. -/
  | txHead (array : Bool) (work : TxWork)
  /-- The test of `tcq_len()`. -/
  | txRoom (array : Bool) (work : TxWork)
  /-- `memcpy` of the frame, from the byte `j` on. -/
  | txCopy (work : TxWork) (j : Nat)
  /-- `tx_desc_cq[tcq_tail].addr = ..`. -/
  | txAddr (work : TxWork)
  /-- `tx_desc_cq[tcq_tail].length = ..`. -/
  | txLength (work : TxWork)
  /-- `tx_desc_cq[tcq_tail].cmd = ..`. -/
  | txCmd (work : TxWork)
  /-- `if (++tcq_tail >= TXDESCS) tcq_tail = 0U`. -/
  | txTail (work : TxWork)
  /-- `e1000_write_reg(e1000, E1000_TDT, tcq_tail)`. -/
  | txBell (frames : List TxFrame)
  /-- The test of the status of the next receive descriptor. -/
  | rxStatus (target : RxTarget)
  /-- `len = ..`. -/
  | rxLength (target : RxTarget)
  /-- `memcpy` to the caller's buffer. -/
  | rxCopy (target : RxTarget) (len : Nat)
  /-- `rx_desc_cq[tail_next].addr = ..`. -/
  | rxAddr (frame : List UInt8)
  /-- Clear the other bits of the descriptor. -/
  | rxClear (frame : List UInt8)
  /-- `rcq_tail = tail_next`. -/
  | rxTail (frame : List UInt8)
  /-- `e1000_write_reg(e1000, E1000_RDT, rcq_tail)`. -/
  | rxBell (frame : List UInt8)

/-- A call that has come to its end, with what it has returned. -/
inductive E1000Log where
  /-- `e1000_transmit` or `e1000_transmit_array`. -/
  | sent (frames : List TxFrame) (rt : Int)
  /-- `e1000_poll` with the frame it has copied out. -/
  | polled (frame : List UInt8)
  /-- `e1000_poll` without a frame. -/
  | nothing

/-- The driver's variables, the memory it shares with the NIC, and the NIC's registers. -/
structure E1000 where
  /-- `tcq_head`. -/
  tcqHead : Nat
  /-- `tcq_tail`. -/
  tcqTail : Nat
  /-- `rcq_tail`. -/
  rcqTail : Nat
  /-- `tx_desc_cq[]`. -/
  txDesc : Nat → TxDesc
  /-- `tx_frm_buffer[][]`. -/
  txBuffer : Nat → Bytes
  /-- `rx_desc_cq[]`. -/
  rxDesc : Nat → RxDesc
  /-- `rx_frm_buffer[][]`. -/
  rxBuffer : Nat → Bytes
  /-- `E1000_TDH`, `E1000_TDT`, `E1000_RDH` and `E1000_RDT`. -/
  tdh : Nat
  tdt : Nat
  rdh : Nat
  rdt : Nat
  /-- Where the kernel is. -/
  pc : E1000Pc
  /-- What the calls so far have returned, in their order. -/
  log : List E1000Log
  /-- The frames that the NIC has sent, in their order. -/
  wire : List TxPacket
  /-- The frames that the NIC has received into a descriptor, in their order. -/
  arrived : List (List UInt8)

namespace E1000

/-- `e1000_configure_tx`. -/
def configureTx (nic : E1000) : E1000 :=
  { nic with tcqHead := 0, tcqTail := 0, tdh := 0, tdt := 0 }

/-- `e1000_configure_rx`. -/
def configureRx (nic : E1000) : E1000 :=
  { nic with
    rxDesc := fun i => if i < rxDescs then { nic.rxDesc i with addr := i } else nic.rxDesc i
    rcqTail := rxDescs - 1, rdh := 0, rdt := rxDescs - 1 }

/-- The machine at the boot, when all static memory is zero. -/
def boot : E1000 where
  tcqHead := 0
  tcqTail := 0
  rcqTail := 0
  txDesc := fun _ => ⟨0, 0, 0⟩
  txBuffer := fun _ _ => 0
  rxDesc := fun _ => ⟨0, 0, false⟩
  rxBuffer := fun _ _ => 0
  tdh := 0
  tdt := 0
  rdh := 0
  rdt := 0
  pc := .idle
  log := []
  wire := []
  arrived := []

/-- `e1000_init`. -/
def init : E1000 := boot.configureTx.configureRx

/-- `tcq_len`. -/
def tcqLen (nic : E1000) : Nat :=
  if nic.tcqHead ≤ nic.tcqTail then nic.tcqTail - nic.tcqHead
  else nic.tcqTail + txDescs - nic.tcqHead

/-- The test for a full queue, which `e1000_transmit` and `e1000_transmit_array` write in their
own ways. -/
def full (nic : E1000) (array : Bool) (work : TxWork) : Bool :=
  if array then txDescs - 1 < nic.tcqLen + work.frames.length else txDescs - 1 ≤ nic.tcqLen

/-- The return of a call. -/
def answer (nic : E1000) (entry : E1000Log) : E1000 :=
  { nic with pc := .idle, log := nic.log ++ [entry] }

/-- `++index` around the ring of transmit descriptors. -/
def txNext (index : Nat) : Nat := if txDescs ≤ index + 1 then 0 else index + 1

/-- The next thing to do after `++tcq_tail`: another turn of the loop, or the end of it. -/
def afterTail (work : TxWork) : E1000Pc :=
  match work.after with
  | [] => .txBell (work.before ++ [work.frame])
  | next :: rest => .txCopy ⟨work.before ++ [work.frame], next, rest⟩ 0

/-- `tail_next` of `e1000_poll`. -/
def tailNext (nic : E1000) : Nat := (nic.rcqTail + 1) % rxDescs

/-- One step of the kernel inside the driver. -/
def kernelStep (nic : E1000) : Option E1000 :=
  match nic.pc with
  | .idle => none
  | .txHead array work => some { nic with tcqHead := nic.tdh, pc := .txRoom array work }
  | .txRoom array work =>
    if nic.full array work then some (nic.answer (.sent work.frames (-1)))
    else some { nic with pc := .txCopy work 0 }
  | .txCopy work j =>
    if work.frame.length ≤ j then some { nic with pc := .txAddr work }
    else if work.frame.legal ≤ j then
      -- The page fault ends the process, and what it was doing in the driver is forgotten.
      some { nic with pc := .idle }
    else
      let buffer := Function.update (nic.txBuffer nic.tcqTail) j (work.frame.memory j)
      some { nic with
        txBuffer := Function.update nic.txBuffer nic.tcqTail buffer
        pc := .txCopy work (j + 1) }
  | .txAddr work =>
    let desc := { nic.txDesc nic.tcqTail with addr := nic.tcqTail }
    some { nic with txDesc := Function.update nic.txDesc nic.tcqTail desc, pc := .txLength work }
  | .txLength work =>
    let desc := { nic.txDesc nic.tcqTail with length := work.frame.length % 2 ^ 16 }
    some { nic with txDesc := Function.update nic.txDesc nic.tcqTail desc, pc := .txCmd work }
  | .txCmd work =>
    let desc := { nic.txDesc nic.tcqTail with cmd := txdCmd }
    some { nic with txDesc := Function.update nic.txDesc nic.tcqTail desc, pc := .txTail work }
  | .txTail work => some { nic with tcqTail := txNext nic.tcqTail, pc := afterTail work }
  | .txBell frames =>
    let total := (frames.map TxFrame.length).sum
    some ({ nic with tdt := nic.tcqTail }.answer (.sent frames total))
  | .rxStatus target =>
    if (nic.rxDesc nic.tailNext).done then some { nic with pc := .rxLength target }
    else some (nic.answer .nothing)
  | .rxLength target =>
    some { nic with pc := .rxCopy target (nic.rxDesc nic.tailNext).length }
  | .rxCopy target len =>
    let j := target.got.length
    if len ≤ j then some { nic with pc := .rxAddr target.got }
    else if target.legal ≤ j then some { nic with pc := .idle }
    else
      let got := target.got ++ [nic.rxBuffer nic.tailNext j]
      some { nic with pc := .rxCopy { target with got } len }
  | .rxAddr frame =>
    let desc := { nic.rxDesc nic.tailNext with addr := nic.tailNext }
    some { nic with rxDesc := Function.update nic.rxDesc nic.tailNext desc, pc := .rxClear frame }
  | .rxClear frame =>
    let desc := { nic.rxDesc nic.tailNext with length := 0, done := false }
    some { nic with rxDesc := Function.update nic.rxDesc nic.tailNext desc, pc := .rxTail frame }
  | .rxTail frame => some { nic with rcqTail := nic.tailNext, pc := .rxBell frame }
  | .rxBell frame => some ({ nic with rdt := nic.rcqTail }.answer (.polled frame))

/-- What a transmit descriptor tells the NIC to send. -/
def packetAt (nic : E1000) (slot : Nat) : TxPacket where
  bytes := (List.range (nic.txDesc slot).length).map (nic.txBuffer (nic.txDesc slot).addr)
  cmd := (nic.txDesc slot).cmd

/-- The NIC sends the frame at its transmit head, unless it has come up to the tail. -/
def send (nic : E1000) : Option E1000 :=
  if nic.tdh = nic.tdt then none
  else some { nic with
    wire := nic.wire ++ [nic.packetAt nic.tdh], tdh := (nic.tdh + 1) % txDescs }

/-- The NIC fills the descriptor at its receive head with a frame. -/
def deliver (nic : E1000) (frame : List UInt8) : E1000 :=
  let desc := nic.rxDesc nic.rdh
  -- The bytes behind the frame stay what they were.
  let buffer : Bytes := fun i => frame.getD i (nic.rxBuffer desc.addr i)
  { nic with
    rxBuffer := Function.update nic.rxBuffer desc.addr buffer
    rxDesc := Function.update nic.rxDesc nic.rdh { desc with length := frame.length, done := true }
    rdh := (nic.rdh + 1) % rxDescs
    arrived := nic.arrived ++ [frame] }

/-- The NIC receives a frame, unless its receive head has come up to the tail. -/
def receive (nic : E1000) (frame : List UInt8) : Option E1000 :=
  if nic.rdh = nic.rdt ∨ rxFrmSize < frame.length then none else some (nic.deliver frame)

/-- `e1000_transmit`, up to its first access to the queue. -/
def transmit (nic : E1000) (frame : TxFrame) (length : Int) : E1000 :=
  if txFrmSize < length ∨ length ≤ 0 then nic.answer (.sent [] 0)
  else { nic with pc := .txHead false ⟨[], { frame with length := length.toNat }, []⟩ }

/-- `e1000_transmit_array`, up to its first access to the queue. -/
def transmitArray (nic : E1000) (vfrm : Nat → TxFrame) (vlen : Nat → Int) (nfrm : Int) : E1000 :=
  let frames := (List.range nfrm.toNat).map fun i => { vfrm i with length := (vlen i).toNat }
  if nfrm ≤ 0 ∨ (txDescs : Int) - 1 < nfrm then nic.answer (.sent [] 0)
  else if (List.range nfrm.toNat).any fun i => vlen i ≤ 0 || (txFrmSize : Int) < vlen i then
    nic.answer (.sent [] 0)
  else
    match frames with
    | [] => nic
    | frame :: after => { nic with pc := .txHead true ⟨[], frame, after⟩ }

/-- What may happen next. -/
inductive Event where
  /-- A call of `e1000_transmit`. -/
  | transmit (frame : TxFrame) (length : Int)
  /-- A call of `e1000_transmit_array`. -/
  | transmitArray (vfrm : Nat → TxFrame) (vlen : Nat → Int) (nfrm : Int)
  /-- A call of `e1000_poll` with a buffer of which so many bytes can be written. -/
  | poll (legal : Nat)
  /-- The kernel goes on with the call that is running. -/
  | kernel
  /-- The NIC sends a frame. -/
  | send
  /-- The NIC receives a frame. -/
  | receive (frame : List UInt8)

/-- One step of the machine; calls of the driver do not overlap. -/
def step (nic : E1000) : Event → Option (Unit × E1000)
  | .transmit frame length =>
    match nic.pc with
    | .idle => some ((), nic.transmit frame length)
    | _ => none
  | .transmitArray vfrm vlen nfrm =>
    match nic.pc with
    | .idle => some ((), nic.transmitArray vfrm vlen nfrm)
    | _ => none
  | .poll legal =>
    match nic.pc with
    | .idle => some ((), { nic with pc := .rxStatus ⟨legal, []⟩ })
    | _ => none
  | .kernel => nic.kernelStep.map fun next => ((), next)
  | .send => nic.send.map fun next => ((), next)
  | .receive frame => (nic.receive frame).map fun next => ((), next)

/-- A page fault is about to end a call that has prepared a descriptor already. -/
def cutsShort (nic : E1000) (event : Event) : Bool :=
  match event, nic.pc with
  | .kernel, .txCopy work j =>
    !work.before.isEmpty && decide (work.frame.legal ≤ j ∧ j < work.frame.length)
  | _, _ => false

end E1000

end GlucOS
