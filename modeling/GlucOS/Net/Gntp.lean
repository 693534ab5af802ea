import GlucOS.Lib.Span
import GlucOS.Layout
import GlucOS.Net.E1000

/-! The GNTP receiver: a byte stream put together from frames that come in any order. -/

namespace GlucOS

/-- `GNTP_MAGIC`. -/
def gntpMagic : UInt8 := 0x45

/-- `GNTP_TIMEOUT`. -/
def gntpTimeout : Nat := 100

/-- `GNTP_HEADER_START`: the bytes of a frame that lower layers use. -/
def gntpHeaderStart : Nat := 54

/-- `sizeof(gntp_header_t)`. -/
def gntpHeaderSize : Nat := 8

/-- `GNTP_WINSIZE`: how far ahead of the first missing byte a frame may reach. -/
def gntpWinsize : Nat := 10000

/-- `GNTP_ACK`. -/
def gntpAck : UInt8 := 4

/-- `GNTP_RSD`. -/
def gntpRsd : UInt8 := 2

/-- `GNTP_DAT`. -/
def gntpDat : UInt8 := 1

/-- `gntp_header_t`. -/
structure GntpHeader where
  magic : UInt8
  type : UInt8
  /-- Sixteen bits. -/
  length : Nat
  /-- Thirty-two bits. -/
  seq : Nat

/-- The header is one of a data frame. -/
def GntpHeader.IsData (header : GntpHeader) : Prop :=
  header.magic = gntpMagic ∧ header.type &&& gntpDat ≠ 0

instance (header : GntpHeader) : Decidable header.IsData := inferInstanceAs (Decidable (_ ∧ _))

/-- `memcpy` of `count` bytes to the start of a buffer. -/
def Bytes.copy (target source : Bytes) (count : Nat) : Bytes :=
  fun i => if i < count then source i else target i

/-- `copy_header_from_buffer`, where the header starts at `place`. -/
def copyHeaderFromBuffer (fb : Bytes) (place : Nat) : GntpHeader where
  magic := fb place
  type := fb (place + 1)
  length := ((fb (place + 2)).toNat <<< 8) ||| (fb (place + 3)).toNat
  seq := ((fb (place + 4)).toNat <<< 24) ||| ((fb (place + 5)).toNat <<< 16) |||
    ((fb (place + 6)).toNat <<< 8) ||| (fb (place + 7)).toNat

/-- `copy_header_to_buffer`: the most significant byte of a number comes first. -/
def copyHeaderToBuffer (fb : Bytes) (place : Nat) (header : GntpHeader) : Bytes := fun i =>
  if i = place then header.magic
  else if i = place + 1 then header.type
  -- The source swaps the bytes of the number and stores it the other way round.
  else if i = place + 2 then UInt8.ofNat (header.length >>> 8)
  else if i = place + 3 then UInt8.ofNat header.length
  else if i = place + 4 then UInt8.ofNat (header.seq >>> 24)
  else if i = place + 5 then UInt8.ofNat (header.seq >>> 16)
  else if i = place + 6 then UInt8.ofNat (header.seq >>> 8)
  else if i = place + 7 then UInt8.ofNat header.seq
  else fb i

/-- The list of received ranges: its head `dlh` and the nodes behind it. -/
structure Dlist where
  dlh : Span Nat
  nodes : List (Span Nat)
  deriving DecidableEq

namespace Dlist

/-- All nodes, the head first. -/
def all (dlist : Dlist) : List (Span Nat) := dlist.dlh :: dlist.nodes

/-- The list after `dlist_clear`. -/
def clear : Dlist := ⟨⟨0, 0⟩, []⟩

/--
The end of `dlist_insert`, once its loop has stopped at `p`.

It answers with the return value and the nodes from `p` on, or with nothing where it panics.
-/
def link (start stop : Nat) (kmalloc : Bool) (p : Span Nat) :
    List (Span Nat) → Option (Int × List (Span Nat))
  | [] =>
    if ¬ p.start ≤ start then none
    else if start < p.stop then some (1, [p])
    else if start = p.stop then some (0, [{ p with stop }])
    else if kmalloc then some (0, [p, ⟨start, stop⟩])
    else some (-1, [p])
  | q :: rest =>
    if ¬ (p.start ≤ start ∧ start < q.start) then none
    -- Overlap is not allowed.
    else if start < p.stop ∨ q.start < stop then some (1, p :: q :: rest)
    else if start = p.stop then
      if stop = q.start then some (0, { p with stop := q.stop } :: rest)
      else some (0, { p with stop } :: q :: rest)
    else if stop = q.start then some (0, p :: { q with start } :: rest)
    else if kmalloc then some (0, p :: ⟨start, stop⟩ :: q :: rest)
    else some (-1, p :: q :: rest)

/-- The loop of `dlist_insert`, which steps on while the next node does not start too late. -/
def place (start stop : Nat) (kmalloc : Bool) (p : Span Nat) :
    List (Span Nat) → Option (Int × List (Span Nat))
  | [] => link start stop kmalloc p []
  | q :: rest =>
    if q.start ≤ start then
      (place start stop kmalloc q rest).map fun (rt, nodes) => (rt, p :: nodes)
    else link start stop kmalloc p (q :: rest)

/-- `dlist_insert`: 0 if the range is new, 1 if it is not wanted, -1 without memory. -/
def insert (dlist : Dlist) (start stop : Nat) (kmalloc : Bool) : Option (Int × Dlist) :=
  if stop ≤ start ∨ u32 (dlist.dlh.stop + gntpWinsize) ≤ stop then some (1, dlist)
  else
    match place start stop kmalloc dlist.dlh dlist.nodes with
    | some (rt, dlh :: nodes) => some (rt, ⟨dlh, nodes⟩)
    | _ => none

end Dlist

/-- The statics of the module with the variables of `do_net_recv_stream` and the user's buffer. -/
structure Gntp where
  /-- `header_temp`. -/
  headerTemp : GntpHeader
  /-- `fb`, the frame buffer. -/
  fb : Bytes
  /-- `dlh` and the nodes linked to it. -/
  dlist : Dlist
  /-- `seq_max`. -/
  seqMax : Nat
  /-- `recv_started`. -/
  recvStarted : Bool
  /-- `time`. -/
  time : Nat
  /-- `tcp_header[]`. -/
  tcpHeader : Bytes
  /-- The bytes at `buf`, by their offset. -/
  buf : Bytes
  /-- The offsets from `buf` that have been written, the last one first. -/
  stores : List Nat
  /-- `flen`, the length of the last frame. -/
  flen : Nat
  /-- The offsets from `fb` that went to `buf`, each with `flen` at that time, the last one first. -/
  loads : List (Nat × Nat)
  /-- The frames handed to the NIC, the last one first. -/
  sent : List (List UInt8)

namespace Gntp

/-- `lfr`: bytes lower than it are received successfully. -/
def lfr (net : Gntp) : Nat := net.dlist.dlh.stop

/-- `reply`, up to the call of `e1000_transmit` that finds room. -/
def reply (net : Gntp) (type : UInt8) (seq : Nat) : Gntp :=
  let headerTemp := ⟨gntpMagic, type, 0, seq⟩
  -- The header goes into the frame buffer, behind what the last frame has left there.
  let fb := copyHeaderToBuffer net.fb gntpHeaderStart headerTemp
  { net with
    headerTemp, fb
    sent := (List.range (gntpHeaderStart + gntpHeaderSize)).map fb :: net.sent }

/-- The copy of `count` bytes from `fb[j]` on to `buf[i]` and behind. -/
def store (net : Gntp) (i j : Nat) : Nat → Gntp
  | 0 => net
  | count + 1 =>
    store { net with
        buf := Function.update net.buf i (net.fb j)
        stores := i :: net.stores
        loads := (j, net.flen) :: net.loads }
      (i + 1) (j + 1) count

end Gntp

/-- A frame as `e1000_poll` copies it out. -/
structure RxFrame where
  /-- The bytes of the frame. -/
  bytes : Bytes
  /-- How many there are. -/
  length : Nat
  /-- Longer ones do not fit. -/
  fits : length ≤ rxFrmSize

/-- What one turn of the loop meets: the answer of `e1000_poll`, and whether `kmalloc_g` works. -/
structure Poll where
  /-- A frame, or nothing when no descriptor is done. -/
  frame : Option RxFrame
  /-- `kmalloc_g` of a list node succeeds. -/
  kmalloc : Bool

/-- How far `do_net_recv_stream` has come. -/
inductive Progress where
  /-- It is in its loop. -/
  | receiving (net : Gntp)
  /-- It has returned. -/
  | returned (value : Nat) (net : Gntp)
  /-- It has panicked. -/
  | panicked

namespace Gntp

/-- The acknowledgement of what the last turns with a frame have brought. -/
def acknowledge (net : Gntp) : Gntp :=
  if 0 < net.lfr ∧ net.time = 0 then net.reply gntpAck net.lfr else net

/-- The request to send again from `lfr` on. -/
def askAgain (net : Gntp) : Gntp :=
  -- At the first timeout only a frame from behind the hole shows that there is a hole.
  if gntpTimeout < net.time ∧ (net.lfr < net.seqMax ∨ gntpTimeout * 2 < net.time) then
    { net.reply gntpRsd net.lfr with time := 0 }
  else net

/-- The clock, which runs from the first data frame on. -/
def tick (net : Gntp) : Gntp :=
  if net.recvStarted then { net with time := u32 (net.time + 1) } else net

/-- A turn in which no frame is there: maybe a reply, and then the block on the NIC. -/
def idle (net : Gntp) : Gntp := net.acknowledge.askAgain.tick

/-- The part of a turn that is about a data frame, once its header is in `header_temp`. -/
def receive (net : Gntp) (len : Nat) (kmalloc : Bool) : Progress :=
  let seq := net.headerTemp.seq
  let stop := u32 (seq + net.headerTemp.length)
  match net.dlist.insert seq stop kmalloc with
  | none => .panicked
  | some (rt, dlist) =>
    let net := { net with dlist }
    if rt = 0 then
      -- The loop stops at the end of the buffer or of the frame, whichever comes first.
      let net := net.store seq (gntpHeaderStart + gntpHeaderSize) (min len stop - seq)
      if len ≤ net.lfr then .returned net.lfr { net.reply gntpAck net.lfr with dlist := .clear }
      else .receiving { net with time := 0, seqMax := max net.seqMax seq }
    else if rt = -1 then .returned 0 { net with dlist := .clear }
    else .receiving { net with seqMax := max net.seqMax seq }

/-- The header that is read once a frame is in the frame buffer. -/
def headerOf (net : Gntp) (frame : RxFrame) : GntpHeader :=
  copyHeaderFromBuffer (net.fb.copy frame.bytes frame.length) gntpHeaderStart

/-- A turn with a frame, which `e1000_poll` copies to the frame buffer. -/
def accept (net : Gntp) (len : Nat) (frame : RxFrame) (kmalloc : Bool) : Progress :=
  let fb := net.fb.copy frame.bytes frame.length
  let headerTemp := copyHeaderFromBuffer fb gntpHeaderStart
  if headerTemp.magic ≠ gntpMagic ∨ headerTemp.type &&& gntpDat = 0 then
    -- The first bytes are needed for replies, so those of a data frame are put back.
    let fb := if net.recvStarted then fb.copy net.tcpHeader gntpHeaderStart else fb
    .receiving { net with headerTemp, fb, flen := frame.length }
  else
    let tcpHeader :=
      if net.recvStarted then net.tcpHeader else net.tcpHeader.copy fb gntpHeaderStart
    { net with headerTemp, fb, tcpHeader, flen := frame.length, recvStarted := true }.receive len
      kmalloc

/-- One turn of the loop of `do_net_recv_stream`. -/
def turn (net : Gntp) (len : Nat) (poll : Poll) : Progress :=
  match poll.frame with
  | none => .receiving net.idle
  | some frame => net.accept len frame poll.kmalloc

/-- The loop of `do_net_recv_stream`, as long as polls are there. -/
def loop (net : Gntp) (len : Nat) : List Poll → Progress
  | [] => .receiving net
  | poll :: rest =>
    match net.turn len poll with
    | .receiving net => loop net len rest
    | ended => ended

end Gntp

/--
`do_net_recv_stream` from the statics and the memory `net` that it finds.

The frame buffer comes from `kmalloc_g` and holds whatever was there, unless that fails.
-/
def doNetRecvStream (net : Gntp) (buf : Nat) (len : Int) (kmalloc : Bool) (polls : List Poll) :
    Progress :=
  let net := { net with stores := [], loads := [], sent := [] }
  if kvaOffset ≤ buf ∨ len ≤ 0 then .returned 0 net
  else
    -- The last process that got here may have been killed before it could clean up.
    let net := { net with dlist := .clear }
    if kmalloc then
      { net with seqMax := 0, time := 0, recvStarted := false }.loop len.toNat polls
    else .returned 0 net

end GlucOS
