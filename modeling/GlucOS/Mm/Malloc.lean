import GlucOS.Lib.Run
import GlucOS.Lib.Word
import GlucOS.Layout

/-! The kernel heap: `kmalloc_g` and `kfree_g` with boundary tags and a circular free list. -/

namespace GlucOS

/-- `KSL`: the bytes of the whole arena. -/
def ksl : Nat := 8 * 1024 * 1024

/-- `EU`: a remainder smaller than this is not split off. -/
def eu : Nat := 64

/-- `ADDR_ALIGN`. -/
def addrAlign : Nat := 8

/-- `sizeof(header)`. -/
def headerSize : Nat := 24

/-- `FREE`. -/
def tagFree : Nat := 0

/-- `OCCUPIED`. -/
def tagOccupied : Nat := 1

/-- The 64-bit words of memory, by the address of their first byte. -/
abbrev Words := Nat → Nat

namespace Words

/-- A store to one word. -/
def put (mem : Words) (addr value : Nat) : Words := fun other =>
  if other = addr then value else mem other

/-- The word stored to. -/
@[simp] theorem put_same (mem : Words) (addr value : Nat) : mem.put addr value addr = value :=
  if_pos rfl

/-- Every other word. -/
theorem put_other (mem : Words) {addr other : Nat} (value : Nat) (differ : other ≠ addr) :
    mem.put addr value other = mem other := if_neg differ

/-- The field `last`, which is the field `head` when the header is a foot. -/
def last (mem : Words) (p : Nat) : Nat := mem p

/-- The field `tag`, in the low half of the second word. -/
def tag (mem : Words) (p : Nat) : Nat := mem (p + 8) % 2 ^ 32

/-- The field `size`, in the high half of the second word. -/
def size (mem : Words) (p : Nat) : Nat := mem (p + 8) / 2 ^ 32

/-- The field `next`. -/
def next (mem : Words) (p : Nat) : Nat := mem (p + 16)

/-- Assignment to `last`, or to `head`. -/
def setLast (mem : Words) (p value : Nat) : Words := mem.put p value

/-- Assignment to `tag`. -/
def setTag (mem : Words) (p value : Nat) : Words :=
  mem.put (p + 8) (value + mem.size p * 2 ^ 32)

/-- Assignment to `size`. -/
def setSize (mem : Words) (p value : Nat) : Words :=
  mem.put (p + 8) (mem.tag p + value * 2 ^ 32)

/-- Assignment to `next`. -/
def setNext (mem : Words) (p value : Nat) : Words := mem.put (p + 16) value

/-- `foot_loc`: the foot of the block at `p`. -/
def footLoc (mem : Words) (p : Nat) : Nat := p + mem.size p - headerSize

end Words

/-- Memory with the allocator's two pointers. -/
structure Kheap where
  /-- Memory. -/
  mem : Words
  /-- The start of the arena. -/
  kallocbuf : Nat
  /-- The free list, null when it is empty. -/
  kpav : Nat

/-- `malloc_init`: one free block over the arena behind `__BSS_END__`; panics if it is too high. -/
def mallocInit (bssEnd : Nat) (mem : Words) : Option Kheap :=
  let kallocbuf := roundUp (bssEnd + 16) 16
  if kallocbuf + ksl > kallocLimit then none
  else
    let p := kallocbuf
    let mem := (((mem.setNext p p).setSize p ksl).setTag p tagFree).setLast p p
    let q := mem.footLoc p
    let mem := (mem.setLast q p).setTag q tagFree
    some { mem, kallocbuf, kpav := p }

namespace Kheap

/-- The search loop of `kmalloc_g`; `fuel` bounds the blocks it may pass. -/
def firstFit (heap : Kheap) (n : Nat) : Nat → Nat → Option Nat
  | 0, _ => none
  | fuel + 1, h =>
    if h ≠ 0 ∧ heap.mem.size h < n ∧ heap.mem.next h ≠ heap.kpav then
      heap.firstFit n fuel (heap.mem.next h)
    else some h

/-- `n` of `kmalloc_g`: the request with its two tags, rounded up. -/
def blockFor (size : Nat) : Nat := u32 (roundUp (u32 (size + 2 * headerSize)) addrAlign)

/-- The branch of `kmalloc_g` that hands out the whole block `h` with foot `f`. -/
def takeWhole (heap : Kheap) (h f : Nat) : Kheap :=
  let mem := heap.mem
  let kpav := mem.next h
  let (kpav, mem) :=
    if h = kpav then (0, mem)
    else
      let mem := mem.setNext (mem.last h) kpav
      (kpav, mem.setLast kpav (mem.last h))
  let mem := mem.setTag f tagOccupied
  { heap with mem := mem.setTag h (mem.tag f), kpav }

/-- The branch of `kmalloc_g` that splits the last `n` bytes off the block `h` with foot `f`. -/
def takeLast (heap : Kheap) (h f n : Nat) : Nat × Kheap :=
  let mem := heap.mem
  let kpav := mem.next h
  let mem := mem.setTag f tagOccupied
  let mem := mem.setSize h (u32Sub (mem.size h) n)
  let f := mem.footLoc h
  let mem := (mem.setTag f tagFree).setLast f h
  let h := f + headerSize
  let mem := (mem.setSize h n).setTag h tagOccupied
  let f := mem.footLoc h
  (h, { heap with mem := mem.setLast f h, kpav })

/-- `kmalloc_g`: the address behind the header, or null; the alignment panic gives nothing. -/
def kmalloc (heap : Kheap) (size : Nat) : Option (Nat × Kheap) := do
  let n := blockFor size
  let h ← heap.firstFit n ksl heap.kpav
  if h = 0 ∨ heap.mem.size h < n then return (0, heap)
  let f := heap.mem.footLoc h
  let (h, heap) :=
    if u32Sub (heap.mem.size h) n < eu then (h, heap.takeWhole h f) else heap.takeLast h f n
  if (h + headerSize) % addrAlign ≠ 0 then none
  return (h + headerSize, heap)

/-- Case 3 of `kfree_g`: both neighbours are occupied, so the block joins the list as it is. -/
def freeAlone (heap : Kheap) (h f : Nat) : Kheap :=
  let mem := heap.mem.setTag f tagFree
  let mem := mem.setTag h (mem.tag f)
  let mem := mem.setLast f h
  if heap.kpav = 0 then
    { heap with mem := (mem.setLast h h).setNext h h, kpav := h }
  else
    let kpav := heap.kpav
    let mem := mem.setNext h kpav
    let mem := mem.setLast h (mem.last kpav)
    let mem := mem.setNext (mem.last kpav) h
    let mem := mem.setLast kpav h
    { heap with mem, kpav := h }

/-- Case 2 of `kfree_g`: the block takes the place of its free right neighbour `rh`. -/
def freeRight (heap : Kheap) (h rh n : Nat) : Kheap :=
  let mem := heap.mem
  let mem := mem.setSize h (u32 (mem.size rh + n))
  let mem :=
    if mem.next rh = rh then (mem.setNext h h).setLast h h
    else
      let mem := mem.setNext h (mem.next rh)
      mem.setLast h (mem.last rh)
  let f := mem.footLoc h
  let mem := mem.setLast f h
  let mem := mem.setTag f tagFree
  let mem := mem.setTag h (mem.tag f)
  let mem := mem.setNext (mem.last h) h
  let mem := mem.setLast (mem.next h) h
  { heap with mem, kpav := h }

/-- Case 1 of `kfree_g`: the block is added to its free left neighbour, whose foot is `lf`. -/
def freeLeft (heap : Kheap) (h lf n : Nat) : Kheap :=
  let mem := heap.mem
  let lh := mem.last lf
  let mem := mem.setSize lh (u32 (mem.size lh + n))
  let f := mem.footLoc h
  { heap with mem := (mem.setLast f lh).setTag f tagFree }

/-- The default case of `kfree_g`: both neighbours are free, and the right one leaves the list. -/
def freeBoth (heap : Kheap) (lf rh n : Nat) : Kheap :=
  let mem := heap.mem
  let lh := mem.last lf
  let mem := mem.setSize lh (u32 (mem.size lh + u32 (n + mem.size rh)))
  let lf := mem.footLoc lh
  let mem := mem.setLast lf lh
  let mem := mem.setNext (mem.last rh) (mem.next rh)
  let mem := mem.setLast (mem.next rh) (mem.last rh)
  { heap with mem, kpav := lh }

/-- `kfree_g`; the panic for an address that was not allocated gives nothing. -/
def kfree (heap : Kheap) (p : Nat) : Option Kheap :=
  let h := p - headerSize
  let f := heap.mem.footLoc h
  let n := heap.mem.size h
  if p % addrAlign ≠ 0 ∨ f % addrAlign ≠ 0 ∨ heap.mem.last f ≠ h then none
  else
    let lf := h - headerSize
    let lfTag := if h ≤ heap.kallocbuf then tagOccupied else heap.mem.tag lf
    let rh := f + headerSize
    let rhTag := if heap.kallocbuf + ksl ≤ rh then tagOccupied else heap.mem.tag rh
    match u32 (2 * lfTag + rhTag) with
    | 3 => some (heap.freeAlone h f)
    | 2 => some (heap.freeRight h rh n)
    | 1 => some (heap.freeLeft h lf n)
    | _ => some (heap.freeBoth lf rh n)

end Kheap

/-- The heap with the requests that are live: each pointer handed out, with the size asked for. -/
structure KheapRun where
  /-- The heap. -/
  heap : Kheap
  /-- The live requests. -/
  live : List (Nat × Nat)

/-- What the kernel does with its heap. -/
inductive KheapEvent where
  /-- `kmalloc_g`. -/
  | malloc (size : Nat)
  /-- `kfree_g`. -/
  | free (p : Nat)
  /-- A store to memory the kernel was given. -/
  | store (addr value : Nat)

/-- One event, answered with the pointer that `kmalloc_g` returns. -/
def kheapStep (state : KheapRun) : KheapEvent → Option (Nat × KheapRun)
  | .malloc size => (state.heap.kmalloc size).map fun (p, heap) =>
    (p, { heap, live := if p = 0 then state.live else (p, size) :: state.live })
  | .free p => (state.heap.kfree p).map fun heap =>
    (0, { heap, live := state.live.filter fun request => request.1 ≠ p })
  | .store addr value =>
    some (0, { state with heap.mem := state.heap.mem.put addr value })

/-- Requests fit in the arena, frees name live pointers, stores stay in live areas. -/
def kheapLegal (state : KheapRun) : KheapEvent → Prop
  | .malloc size => size + 2 * headerSize ≤ ksl
  | .free p => ∃ size, (p, size) ∈ state.live
  | .store addr _ => addr % 8 = 0 ∧ ∃ request ∈ state.live,
    request.1 ≤ addr ∧ addr < request.1 + request.2

end GlucOS
