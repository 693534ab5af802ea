import GlucOS.Gfs.File
import GlucOS.Lib.Access
import GlucOS.Net.Gntp
import GlucOS.Sched.Kernel

/-! The system calls that copy bytes through pointers of the user, each with its own checks. -/

namespace GlucOS

open Access

/-- The end of the addresses of user mode under Sv39. -/
def userTop : Nat := 2 ^ 38

/-- The first address that `setup_vm` maps for the kernel; the device addresses lie higher. -/
def kernelBase : Nat := 0xffffffc050000000

/-- Memory under Sv39: between user space and the kernel's pages nothing is mapped. -/
structure Sv39 extends Memory where
  /-- An access to any other address ends the process, or the kernel panics. -/
  gap : toMemory.Gap userTop kernelBase

/-! ## Numbers in memory -/

/-- The number in some bytes, the least significant of which comes first. -/
def littleEndian (bytes : List UInt8) : Nat := Nat.ofDigits 256 (bytes.map UInt8.toNat)

/-- The signed number in four bytes. -/
def intOf (bytes : List UInt8) : Int :=
  if littleEndian bytes < 2 ^ 31 then littleEndian bytes else littleEndian bytes - 2 ^ 32

/-- The four bytes of a number. -/
def intBytes (value : Nat) : List UInt8 :=
  (List.range 4).map fun i => UInt8.ofNat (value / 256 ^ i)

/-! ## Files -/

/-- `O_RDONLY`. -/
def oRdonly : Nat := 1

/-- The loop of `read_file_on_ptr_arr` over the pointers: the bytes that it copies out. -/
def readPtrs (len : Nat) (blocks : Nat → Block) : List Nat → Nat → Nat → List UInt8
  | [], _, _ => []
  | ptr :: parr, boffset, r =>
    if ptr = inodeInvalidPtr then []
    else
      let more := min (blockSize - boffset) (len - r)
      (List.range more).map (fun k => (blocks ptr).byte (boffset + k)) ++
        readPtrs len blocks parr 0 (r + more)

/-- The bytes that `read_file_on_ptr_arr` copies to its buffer. -/
def readFileOnPtrArr (parr : List Nat) (startPos len : Nat) (blocks : Nat → Block) : List UInt8 :=
  if len = 0 ∨ parr.length = 0 then []
  else
    let startPidx := startPos / blockSize
    let endPidx := min (u32 (startPos + len - 1) / blockSize) (parr.length - 1)
    readPtrs len blocks ((parr.take (endPidx + 1)).drop startPidx) (startPos % blockSize) 0

/-- The loop of `do_read` over the pointers of the double indirect block, from number `i` on. -/
def readGroups (pos len buf : Nat) (blocks : Nat → Block) : List Nat → Nat → Nat → Access Int
  | [], _, r => ret (if r = len then r else -11)
  | ptr :: dib, i, r =>
    if len ≤ r ∨ ptr = inodeInvalidPtr then ret (if r = len then r else -11)
    else if pos + r < directBytes + (i + 1) * groupBytes then ret (-10)
    else
      let bytes := readFileOnPtrArr (blocks ptr).ptrs
        (pos + r - (directBytes + (i + 1) * groupBytes)) (len - r) blocks
      (storeBytes (buf + r) bytes).andThen fun _ =>
        readGroups pos len buf blocks dib (i + 1) (r + bytes.length)

/-- The stage of `do_read` that copies the data. -/
def readData (inode : GfsInode) (pos len buf : Nat) (blocks : Nat → Block) : Access Int :=
  let direct := readFileOnPtrArr inode.dptr.toList pos len blocks
  (storeBytes buf direct).andThen fun _ =>
    let r := direct.length
    if len ≤ r then ret r
    else if pos + r < directBytes ∨ inode.idptr = inodeInvalidPtr then ret (-8)
    else
      let single := readFileOnPtrArr (blocks inode.idptr).ptrs (pos + r - directBytes) (len - r)
        blocks
      (storeBytes (buf + r) single).andThen fun _ =>
        let r := r + single.length
        if len ≤ r then ret r
        else if inode.diptr = inodeInvalidPtr then ret (-9)
        else readGroups pos len buf blocks (blocks inode.diptr).ptrs 0 r

/-- `do_read`. -/
def doRead (fs : Gfs) (fd : Int) (buf len : Nat) : Access (Int × Gfs) :=
  match fs.openFile fd oRdonly with
  | none => ret (-1, fs)
  | some desc =>
    let inode := fs.vol.inodes desc.ino
    if kvaMin ≤ buf then ret (-2, fs)
    else if len = 0 ∨ inode.size ≤ desc.pos then ret (0, fs)
    else
      let len := min len (inode.size - desc.pos)
      (readData inode desc.pos len buf fs.vol.blocks).andThen fun rt =>
        ret (rt, if rt = len then fs.putPos fd desc (desc.pos + len) else fs)

/-- `write_file_on_ptr_arr`, which reads no byte when its buffer is null. -/
def writeFrom (parr : List Nat) (startPos len : Nat) (buf w : Nat) (blocks : Nat → Block) :
    Access ((Nat → Block) × Nat) :=
  -- How many bytes it takes depends on the pointers alone.
  let count := (writeFileOnPtrArr parr startPos len (fun _ => 0) blocks).2
  (loadBytes (buf + w) (if buf = 0 then 0 else count)).andThen fun bytes =>
    ret (writeFileOnPtrArr parr startPos len (fun k => bytes.getD k 0) blocks)

/-- The loop of `do_write` over the pointers of the double indirect block, from number `i` on. -/
def writeGroupsFrom (pos len buf : Nat) :
    List Nat → Nat → (Nat → Block) → Nat → Access ((Nat → Block) × Except Int Nat)
  | [], _, blocks, w => ret (blocks, .ok w)
  | ptr :: dib, i, blocks, w =>
    if len ≤ w ∨ ptr = inodeInvalidPtr then ret (blocks, .ok w)
    else if pos + w < directBytes + (i + 1) * groupBytes then ret (blocks, .error (-10))
    else
      let idb := (blocks ptr).ptrs
      (writeFrom idb (pos + w - (directBytes + (i + 1) * groupBytes)) (len - w) buf w
        blocks).andThen fun (blocks, more) =>
          writeGroupsFrom pos len buf dib (i + 1)
            (Function.update blocks ptr (Block.ofPtrs idb)) (w + more)

/-- The stage of `do_write` that copies the data. -/
def writeDataFrom (inode : GfsInode) (pos len buf : Nat) (blocks : Nat → Block) :
    Access ((Nat → Block) × Except Int Nat) :=
  (writeFrom inode.dptr.toList pos len buf 0 blocks).andThen fun (blocks, w) =>
    if len ≤ w then ret (blocks, .ok w)
    else if pos + w < directBytes ∨ inode.idptr = inodeInvalidPtr then ret (blocks, .error (-8))
    else
      let idb := (blocks inode.idptr).ptrs
      (writeFrom idb (pos + w - directBytes) (len - w) buf w blocks).andThen fun (blocks, more) =>
        let blocks := Function.update blocks inode.idptr (Block.ofPtrs idb)
        let w := w + more
        if len ≤ w then ret (blocks, .ok w)
        else if inode.diptr = inodeInvalidPtr then ret (blocks, .error (-9))
        else
          let dib := (blocks inode.diptr).ptrs
          (writeGroupsFrom pos len buf dib 0 blocks w).andThen fun
            | (blocks, .error code) => ret (blocks, .error code)
            | (blocks, .ok w) =>
              ret (Function.update blocks inode.diptr (Block.ofPtrs dib), .ok w)

/-- The end of `do_write`, from where the data are copied. -/
def Gfs.copyDataFrom (fs : Gfs) (fd : Int) (desc : FileDesc) (len buf : Nat) :
    Access (Option (Int × Gfs)) :=
  let inode := fs.vol.inodes desc.ino
  (writeDataFrom inode desc.pos len buf fs.vol.blocks).andThen fun
    | (blocks, .error code) => ret (some (code, fs.putBlocks blocks))
    | (blocks, .ok w) =>
      let pos := desc.pos + len
      let size := if inode.size < pos then pos else inode.size
      ret (some (w, ((fs.putBlocks blocks).putPos fd desc pos).writeInode desc.ino
        { inode with size }))

/-- `do_write` with the bytes where the caller has them; the padding reads none. -/
def doWriteFrom (noHeap : Bool) (depth : Nat) (fs : Gfs) (fd : Int) (buf len : Nat) :
    Access (Option (Int × Gfs)) :=
  match fs.openFile fd oWronly with
  | none => ret (some (-1, fs))
  | some desc =>
    if kvaMin ≤ buf then ret (some (-2, fs))
    else if len = 0 then ret (some (0, fs))
    else
      let len := min len (uint32Max - desc.pos)
      let nblk0 := gfsNbytes2blocks (fs.vol.inodes desc.ino).size
      let nblk := gfsNbytes2blocks (desc.pos + len)
      if nblk0 < nblk ∧ noHeap then ret (some (-3, fs))
      else
        let fs := if nblk0 < nblk then fs.extend desc.ino (nblk - nblk0) else fs
        let inode := fs.vol.inodes desc.ino
        if inode.size < desc.pos then
          let npd := desc.pos - inode.size
          let fs := fs.putPos fd desc inode.size
          let fs := fs.putInode desc.ino { inode with size := inode.size + npd }
          match doWrite noHeap depth fs fd 0 (fun _ => 0) npd with
          | none => ret none
          | some (rrt, fs) =>
            if rrt ≠ npd then
              ret (some (rrt, fs.writeInode desc.ino (fs.vol.inodes desc.ino)))
            else fs.copyDataFrom fd ((fs.fds fd.toNat).getD desc) len buf
        else fs.copyDataFrom fd desc len buf

/-! ## The net -/

/-- The first loop of `e1000_transmit_array`, from the frame `i` on. -/
def checkLens (vlen i : Nat) : Nat → Access Bool
  | 0 => ret true
  | more + 1 => (loadBytes (vlen + 4 * i) 4).andThen fun bytes =>
    if intOf bytes ≤ 0 ∨ (txFrmSize : Int) < intOf bytes then ret false
    else checkLens vlen (i + 1) more

/-- The second loop of `e1000_transmit_array`, from the frame `i` on: the frames it queues. -/
def copyFrames (vfrm vlen i : Nat) : Nat → Access (List (List UInt8))
  | 0 => ret []
  | more + 1 => (loadBytes (vfrm + 8 * i) 8).andThen fun place =>
    (loadBytes (vlen + 4 * i) 4).andThen fun length =>
      (loadBytes (littleEndian place) (intOf length).toNat).andThen fun frame =>
        (copyFrames vfrm vlen (i + 1) more).andThen fun frames => ret (frame :: frames)

/-- `e1000_transmit_array`, which finds the queue full or not. -/
def transmitArrayFrom (full : Bool) (vfrm vlen : Nat) (nfrm : Int) :
    Access (Int × List (List UInt8)) :=
  if nfrm ≤ 0 ∨ (txDescs : Int) - 1 < nfrm then ret (0, [])
  else (checkLens vlen 0 nfrm.toNat).andThen fun valid =>
    if valid = false then ret (0, [])
    else if full then ret (-1, [])
    else (copyFrames vfrm vlen 0 nfrm.toNat).andThen fun frames =>
      ret ((frames.map List.length).sum, frames)

/-- The loop of `do_net_send_array`, which finds the queue full so many times. -/
def sendArrayLoop (vpkt vlen : Nat) (npkt : Int) : Nat → Access (Int × List (List UInt8))
  | 0 => transmitArrayFrom false vpkt vlen npkt
  | fulls + 1 => (transmitArrayFrom true vpkt vlen npkt).andThen fun (rt, frames) =>
    if rt = -1 then sendArrayLoop vpkt vlen npkt fulls else ret (rt, frames)

/-- `do_net_send_array`. -/
def doNetSendArray (vpkt vlen : Nat) (npkt : Int) (fulls : Nat) :
    Access (Int × List (List UInt8)) :=
  if kvaMin ≤ vpkt ∨ kvaMin ≤ vlen then ret (0, []) else sendArrayLoop vpkt vlen npkt fulls

/-- `do_net_send`, whose waiting for room in the queue touches no memory of the caller. -/
def doNetSend (txpacket : Nat) (length : Int) : Access (Int × List (List UInt8)) :=
  if kvaMin ≤ txpacket ∨ length ≤ 0 then ret (0, [])
  else if (txFrmSize : Int) < length then ret (0, [])
  else (loadBytes txpacket length.toNat).andThen fun frame => ret (length, [frame])

/-- The bytes of a frame. -/
def RxFrame.content (frame : RxFrame) : List UInt8 := (List.range frame.length).map frame.bytes

/-- The loop of `do_net_recv`, from the packet `i` on, with `r_ymr` bytes received so far. -/
def netRecvLoop (rxbuffer pktLens i rYmr : Nat) (frames : Nat → RxFrame) : Nat → Access Int
  | 0 => ret rYmr
  | more + 1 => (storeBytes (rxbuffer + rYmr) (frames i).content).andThen fun _ =>
    (storeBytes (pktLens + 4 * i) (intBytes (frames i).length)).andThen fun _ =>
      netRecvLoop rxbuffer pktLens (i + 1) (rYmr + (frames i).length) frames more

/-- `do_net_recv`, which waits for every frame. -/
def doNetRecv (rxbuffer : Nat) (pktNum : Int) (pktLens : Nat) (frames : Nat → RxFrame) :
    Access Int :=
  if kvaMin ≤ rxbuffer ∨ pktNum ≤ 0 ∨ kvaMin ≤ pktLens then ret 0
  else netRecvLoop rxbuffer pktLens 0 0 frames pktNum.toNat

/-- What one turn of `do_net_recv_stream` copies to the buffer: bytes with their offsets. -/
def Gntp.copies (net : Gntp) (len : Nat) (poll : Poll) : List (Nat × UInt8) :=
  match poll.frame with
  | none => []
  | some frame =>
    let fb := net.fb.copy frame.bytes frame.length
    let header := net.headerOf frame
    let stop := u32 (header.seq + header.length)
    if header.IsData then
      match net.dlist.insert header.seq stop poll.kmalloc with
      | some (0, _) => (List.range (min len stop - header.seq)).map fun k =>
        (header.seq + k, fb (gntpHeaderStart + gntpHeaderSize + k))
      | _ => []
    else []

/-- The loop of `do_net_recv_stream`, with its writes to the memory of the caller. -/
def recvStreamLoop (buf len : Nat) : List Poll → Gntp → Access Progress
  | [], net => ret (.receiving net)
  | poll :: rest, net => (storeAt buf (net.copies len poll)).andThen fun _ =>
    match net.turn len poll with
    | .receiving net => recvStreamLoop buf len rest net
    | ended => ret ended

/-- `do_net_recv_stream`, with its writes to the memory of the caller. -/
def recvStream (net : Gntp) (buf : Nat) (len : Int) (kmalloc : Bool) (polls : List Poll) :
    Access Progress :=
  let net := { net with stores := [], loads := [], sent := [] }
  if kvaOffset ≤ buf ∨ len ≤ 0 then ret (.returned 0 net)
  else
    let net := { net with dlist := .clear }
    if kmalloc then
      recvStreamLoop buf len.toNat polls
        { net with seqMax := 0, time := 0, recvStarted := false }
    else ret (.returned 0 net)

/-! ## Mailboxes, paths and the screen -/

/-- The arguments that both calls of a mailbox refuse. -/
def badMessage (midx : Int) (msgLength : Nat) : Prop :=
  midx < 0 ∨ (Sched.mboxNum : Int) ≤ midx ∨ msgLength = 0 ∨ Sched.maxMboxLength < msgLength

instance (midx : Int) (msgLength : Nat) : Decidable (badMessage midx msgLength) :=
  inferInstanceAs (Decidable (_ ∨ _))

/--
`do_mbox_send`: its answer, and the bytes that enter the mailbox.

There is room after it was blocked so many times, unless the mailbox is or gets closed.
-/
def mboxSendFrom (midx : Int) (msg msgLength : Nat) (blocked : Option Nat) :
    Access (Int × List UInt8) :=
  if badMessage midx msgLength then ret (Sched.int32Min, [])
  else
    match blocked with
    | none => ret (Sched.int32Min, [])
    | some blockYmr => (loadBytes msg msgLength).andThen fun bytes => ret (blockYmr, bytes)

/-- `do_mbox_recv`, where these bytes are the next ones in the mailbox. -/
def mboxRecvTo (midx : Int) (msg msgLength : Nat) (blocked : Option Nat) (next : Nat → UInt8) :
    Access Int :=
  if badMessage midx msgLength then ret Sched.int32Min
  else if kvaMin ≤ msg then ret Sched.int32Min
  else
    match blocked with
    | none => ret Sched.int32Min
    | some blockYmr =>
      (storeBytes msg ((List.range msgLength).map next)).andThen fun _ => ret blockYmr

/-- `do_getpath` of a process with this path and this current directory. -/
def doGetpath (path : Nat) (cpath : List UInt8) (curIno : Nat) : Access Nat :=
  if kvaMin ≤ path then ret uint32Max
  else (storeBytes path (cpath ++ [0])).andThen fun _ => ret curIno

/-- `SCR_WRITE_MAX`. -/
def scrWriteMax : Nat := 256

/-- `do_screen_write`: its answer, and the characters that are written to the screen. -/
def doScreenWrite (buff len : Nat) : Access (Nat × List UInt8) :=
  if kvaMin ≤ buff then ret (0, [])
  else
    let len := min len scrWriteMax
    (loadBytes buff len).andThen fun chars => ret (len, chars)

/-! ## All of them -/

/-- A call, with its arguments and what it meets in the kernel. -/
inductive CopyCall where
  | read (fs : Gfs) (fd : Int) (buf : UInt64) (len : Nat)
  | write (noHeap : Bool) (depth : Nat) (fs : Gfs) (fd : Int) (buf : UInt64) (len : Nat)
  | getpath (path : UInt64) (cpath : List UInt8) (curIno : Nat)
  | mboxSend (midx : Int32) (msg : UInt64) (msgLength : Nat) (blocked : Option Nat)
  | mboxRecv (midx : Int32) (msg : UInt64) (msgLength : Nat) (blocked : Option Nat)
      (next : Nat → UInt8)
  | netSend (txpacket : UInt64) (length : Int32)
  | netSendArray (vpkt vlen : UInt64) (npkt : Int32) (fulls : Nat)
  | netRecv (rxbuffer : UInt64) (pktNum : Int32) (pktLens : UInt64) (frames : Nat → RxFrame)
  | netRecvStream (net : Gntp) (buf : UInt64) (len : Int32) (kmalloc : Bool) (polls : List Poll)
  | screenWrite (buff : UInt64) (len : Nat)

/-- What a call gives to the user, to other users or to the world, besides the bytes it stores. -/
inductive CopyOut where
  /-- A return value. -/
  | code (rt : Int)
  /-- A return value, and bytes that were read. -/
  | bytes (rt : Int) (bytes : List UInt8)
  /-- A return value, and frames for the NIC. -/
  | frames (rt : Int) (frames : List (List UInt8))
  /-- A return value and GFS, unless a call inside has not come back. -/
  | file (out : Option (Int × Gfs))
  /-- How far a stream has come. -/
  | stream (progress : Progress)

/-- What a call does. -/
def CopyCall.routine : CopyCall → Access CopyOut
  | .read fs fd buf len => (doRead fs fd buf.toNat len).andThen fun out => ret (.file (some out))
  | .write noHeap depth fs fd buf len =>
    (doWriteFrom noHeap depth fs fd buf.toNat len).andThen fun out => ret (.file out)
  | .getpath path cpath curIno =>
    (doGetpath path.toNat cpath curIno).andThen fun ino => ret (.code ino)
  | .mboxSend midx msg msgLength blocked =>
    (mboxSendFrom midx.toInt msg.toNat msgLength blocked).andThen fun (rt, bytes) =>
      ret (.bytes rt bytes)
  | .mboxRecv midx msg msgLength blocked next =>
    (mboxRecvTo midx.toInt msg.toNat msgLength blocked next).andThen fun rt => ret (.code rt)
  | .netSend txpacket length =>
    (doNetSend txpacket.toNat length.toInt).andThen fun (rt, frames) => ret (.frames rt frames)
  | .netSendArray vpkt vlen npkt fulls =>
    (doNetSendArray vpkt.toNat vlen.toNat npkt.toInt fulls).andThen fun (rt, frames) =>
      ret (.frames rt frames)
  | .netRecv rxbuffer pktNum pktLens frames =>
    (doNetRecv rxbuffer.toNat pktNum.toInt pktLens.toNat frames).andThen fun rt => ret (.code rt)
  | .netRecvStream net buf len kmalloc polls =>
    (recvStream net buf.toNat len.toInt kmalloc polls).andThen fun progress =>
      ret (.stream progress)
  | .screenWrite buff len =>
    (doScreenWrite buff.toNat len).andThen fun (rt, chars) => ret (.bytes rt chars)

end GlucOS
