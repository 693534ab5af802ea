import GlucOS.Mm.Malloc
import GlucOS.Lib.Ring

/-! The kernel heap stays well formed: its blocks tile the arena and the free ones form a ring. -/

namespace GlucOS

/-- The words of the block at `h` with foot `f` have this tag and size, and the foot its head. -/
def BlockWords (mem : Words) (h f tag size : Nat) : Prop :=
  mem (h + 8) = tag + size * 2 ^ 32 ∧ mem.tag f = tag ∧ mem.last f = h

/-- A block of the arena, with the size that was asked for when it is occupied. -/
structure Chunk where
  /-- Address of the head. -/
  head : Nat
  /-- Size in bytes, tags included. -/
  size : Nat
  /-- The request the block serves. -/
  used : Option Nat

namespace Chunk

/-- Address of the foot. -/
def foot (c : Chunk) : Nat := c.head + c.size - headerSize

/-- The tag both ends of the block should carry. -/
def tag (c : Chunk) : Nat := if c.used.isSome then tagOccupied else tagFree

/-- The words that describe the block: its tag and size, and its foot. -/
def tagWords (c : Chunk) : List Nat := [c.head + 8, c.foot, c.foot + 8]

/-- The words that link the block when it is free. -/
def linkWords (c : Chunk) : List Nat := [c.head, c.head + 16]

/-- The live request of an occupied block: the pointer handed out and the size asked for. -/
def request (c : Chunk) : Option (Nat × Nat) :=
  c.used.map fun size => (c.head + headerSize, size)

/-- The head of a free block. -/
def freeHead (c : Chunk) : Option Nat := if c.used.isSome then none else some c.head

/-- Size, tags and foot of a block are right, and it has room for its request. -/
structure Ok (mem : Words) (c : Chunk) : Prop where
  /-- Sizes keep every address aligned. -/
  aligned : 8 ∣ c.size
  /-- Two tags fit, and the request between them. -/
  room : c.used.getD 0 + 2 * headerSize ≤ c.size
  /-- Head and foot agree. -/
  words : BlockWords mem c.head c.foot c.tag c.size

end Chunk

/-- Blocks that lie end to end from one address to another. -/
def Tiles (start stop : Nat) : List Chunk → Prop
  | [] => start = stop
  | c :: rest => c.head = start ∧ Tiles (start + c.size) stop rest

/-- No two neighbours are both free. -/
def NotBothFree (left right : Chunk) : Prop := left.used.isSome ∨ right.used.isSome

/-- `q` follows `p` on the free list, and `p` precedes `q`. -/
def FreeLink (mem : Words) (p q : Nat) : Prop := mem.next p = q ∧ mem.last q = p

/-- A well-formed heap, with its blocks in address order and its free list from `kpav`. -/
structure HeapWf (heap : Kheap) (live : List (Nat × Nat)) (chunks : List Chunk)
    (avail : List Nat) : Prop where
  /-- The arena starts at an aligned address that is not null. -/
  base : 8 ∣ heap.kallocbuf ∧ 0 < heap.kallocbuf
  /-- The blocks tile the arena. -/
  tiles : Tiles heap.kallocbuf (heap.kallocbuf + ksl) chunks
  /-- Each block is right in memory. -/
  ok : ∀ c ∈ chunks, c.Ok heap.mem
  /-- Free blocks have been merged. -/
  merged : chunks.IsChain NotBothFree
  /-- The free list is circular and linked both ways. -/
  linked : Ring (FreeLink heap.mem) avail
  /-- It holds exactly the free blocks, each once. -/
  availFree : avail.Perm (chunks.filterMap Chunk.freeHead)
  /-- It starts at `kpav`, which is null exactly when it is empty. -/
  kpav : heap.kpav = avail.head?.getD 0
  /-- The occupied blocks are the live requests. -/
  serves : live.Perm (chunks.filterMap Chunk.request)

/-! Tilings. -/

/-- A tiling of two parts has a place where they meet. -/
theorem tiles_append {start stop : Nat} {front back : List Chunk} :
    Tiles start stop (front ++ back) ↔ ∃ mid, Tiles start mid front ∧ Tiles mid stop back := by
  induction front generalizing start with
  | nil => simp [Tiles]
  | cons c front ih => simp [Tiles, ih, and_assoc]

/-- The blocks of a tiling determine where it starts and stops. -/
theorem Tiles.ends_unique {start stop start' stop' : Nat} {chunks : List Chunk}
    (tiles : Tiles start stop chunks) (tiles' : Tiles start' stop' chunks) (some_ : chunks ≠ []) :
    start = start' ∧ stop = stop' := by
  induction chunks generalizing start start' with
  | nil => exact absurd rfl some_
  | cons c rest ih =>
    have begins : start = start' := tiles.1.symm.trans tiles'.1
    subst begins
    cases rest with
    | nil => exact ⟨rfl, tiles.2.symm.trans tiles'.2⟩
    | cons d rest => exact ⟨rfl, (ih tiles.2 tiles'.2 (by simp)).2⟩

/-- Tiled blocks lie between the ends. -/
theorem Tiles.bounds {start stop : Nat} {chunks : List Chunk} (tiles : Tiles start stop chunks) :
    start ≤ stop ∧ ∀ c ∈ chunks, start ≤ c.head ∧ c.head + c.size ≤ stop := by
  induction chunks generalizing start with
  | nil => exact ⟨tiles.le, by simp⟩
  | cons c rest ih =>
    obtain ⟨begins, tail⟩ := tiles
    obtain ⟨below, inside⟩ := ih tail
    refine ⟨by omega, ?_⟩
    simp only [List.mem_cons, forall_eq_or_imp]
    exact ⟨by omega, fun d member => ⟨by have := (inside d member).1; omega, (inside d member).2⟩⟩

/-- A tiling has at most one block for each byte. -/
theorem Tiles.length_le {start stop : Nat} {chunks : List Chunk} (tiles : Tiles start stop chunks)
    (room : ∀ c ∈ chunks, 2 * headerSize ≤ c.size) : start + chunks.length ≤ stop := by
  induction chunks generalizing start with
  | nil => exact tiles.le
  | cons c rest ih =>
    have below := ih tiles.2 fun d member => room d (List.mem_cons_of_mem _ member)
    have roomC := room c (by simp)
    simp only [headerSize, List.length_cons] at *
    omega

/-- Tiled blocks follow each other without overlap. -/
theorem Tiles.apart {start stop : Nat} {chunks : List Chunk} (tiles : Tiles start stop chunks) :
    chunks.Pairwise fun c d => c.head + c.size ≤ d.head := by
  induction chunks generalizing start with
  | nil => simp
  | cons c rest ih =>
    obtain ⟨begins, tail⟩ := tiles
    refine List.pairwise_cons.mpr ⟨fun d member => ?_, ih tail⟩
    have := (tail.bounds.2 d member).1
    omega

/-- Two blocks of a tiling are the same or do not overlap. -/
theorem Tiles.eq_or_apart {start stop : Nat} {chunks : List Chunk} (tiles : Tiles start stop chunks)
    {c d : Chunk} (inC : c ∈ chunks) (inD : d ∈ chunks) :
    c = d ∨ c.head + c.size ≤ d.head ∨ d.head + d.size ≤ c.head := by
  induction chunks generalizing start with
  | nil => simp at inC
  | cons e rest ih =>
    obtain ⟨begins, tail⟩ := tiles
    rcases List.mem_cons.mp inC with sameC | restC <;> rcases List.mem_cons.mp inD with sameD | restD
    · exact .inl (sameC.trans sameD.symm)
    · have := (tail.bounds.2 d restD).1
      subst sameC
      omega
    · have := (tail.bounds.2 c restC).1
      subst sameD
      omega
    · exact ih tail restC restD
/-! What each branch writes, word by word. -/

/-- The block headed at `p` lies outside the bytes from `h` to `h + size`. -/
def OffBlock (p h size : Nat) : Prop := p + 2 * headerSize ≤ h ∨ h + size ≤ p

/-- Heads of blocks that are equal or do not overlap. -/
def HeadsApart (p q : Nat) : Prop := p = q ∨ p + 2 * headerSize ≤ q ∨ q + 2 * headerSize ≤ p

/-- The high half of a word is its size. -/
theorem word_size {tag size : Nat} (small : tag < 2 ^ 32) :
    (tag + size * 2 ^ 32) / 2 ^ 32 = size := by omega

/-- The low half of a word is its tag. -/
theorem word_tag {tag size : Nat} (small : tag < 2 ^ 32) :
    (tag + size * 2 ^ 32) % 2 ^ 32 = tag := by omega

namespace Kheap

variable {heap : Kheap} {h f a t size n : Nat}

/-- Handing out the only free block empties the list. -/
theorem takeWhole_only (foot : f + headerSize = h + size) (room : 2 * headerSize ≤ size)
    (block : BlockWords heap.mem h f tagFree size) (only : heap.mem.next h = h) :
    ∃ mem', heap.takeWhole h f = { heap with mem := mem', kpav := 0 } ∧
      BlockWords mem' h f tagOccupied size ∧
      ∀ w, w ≠ h + 8 → w ≠ f → w ≠ f + 8 → mem' w = heap.mem w := by
  simp only [headerSize, BlockWords, Words.last, Words.tag, Words.next, tagFree,
    tagOccupied] at *
  refine ⟨(heap.takeWhole h f).mem, ?_⟩
  simp (disch := omega) only [takeWhole, Words.size, Words.next, Words.tag, Words.setTag, only,
    if_true, Words.put_other, Words.put_same, tagOccupied, block, word_size, word_tag,
    true_and]
  intro w offHead _ offFoot
  simp only [Words.put_other, offHead, offFoot, ne_eq, not_false_eq_true]

/-- Handing out one of several free blocks links its neighbours `t` and `a`. -/
theorem takeWhole_several (foot : f + headerSize = h + size) (room : 2 * headerSize ≤ size)
    (block : BlockWords heap.mem h f tagFree size) (next : heap.mem.next h = a)
    (last : heap.mem.last h = t) (offA : OffBlock a h size) (offT : OffBlock t h size)
    (apart : HeadsApart a t) :
    ∃ mem', heap.takeWhole h f = { heap with mem := mem', kpav := a } ∧
      BlockWords mem' h f tagOccupied size ∧ FreeLink mem' t a ∧
      ∀ w, w ≠ h + 8 → w ≠ f → w ≠ f + 8 → w ≠ t + 16 → w ≠ a → mem' w = heap.mem w := by
  simp only [headerSize, BlockWords, OffBlock, HeadsApart, Words.last, Words.tag, Words.next,
    tagFree, tagOccupied] at *
  refine ⟨(heap.takeWhole h f).mem, ?_⟩
  have differ : h ≠ a := by omega
  simp (disch := omega) only [takeWhole, Words.size, Words.next, Words.last, Words.tag,
    Words.setTag, Words.setNext, Words.setLast, next, last, if_neg differ, FreeLink,
    Words.put_other, Words.put_same, tagOccupied, block, word_size, word_tag, true_and]
  intro w offHead _ offFoot offNext offLast
  simp only [Words.put_other, offHead, offFoot, offNext, offLast, ne_eq, not_false_eq_true]

/-- Splitting leaves a smaller free block and makes an occupied one of its last `n` bytes. -/
theorem takeLast_words (foot : f + headerSize = h + size) (room : n + 2 * headerSize ≤ size)
    (fits : 2 * headerSize ≤ n) (block : BlockWords heap.mem h f tagFree size) :
    ∃ mem', heap.takeLast h f n =
        (h + (size - n), { heap with mem := mem', kpav := heap.mem.next h }) ∧
      BlockWords mem' h (h + (size - n) - headerSize) tagFree (size - n) ∧
      BlockWords mem' (h + (size - n)) f tagOccupied n ∧
      ∀ w, w ≠ h + 8 → w ≠ h + (size - n) - headerSize → w ≠ h + (size - n) - headerSize + 8 →
        w ≠ h + (size - n) + 8 → w ≠ f → w ≠ f + 8 → mem' w = heap.mem w := by
  simp only [headerSize, BlockWords, Words.last, Words.tag, Words.next, tagFree, tagOccupied] at *
  refine ⟨(heap.takeLast h f n).2.mem, ?_⟩
  have split : u32Sub size n = size - n := u32Sub_of_le (by omega)
  have newHead : h + (size - n) - 24 + 24 = h + (size - n) := by omega
  have newFoot : h + (size - n) + n - 24 = f := by omega
  simp (disch := omega) only [takeLast, Words.footLoc, Words.size, Words.next, Words.tag,
    Words.setTag, Words.setSize, Words.setLast, headerSize, split, newHead, newFoot,
    Words.put_other, Words.put_same, tagOccupied, tagFree, block, word_size, word_tag,
    true_and]
  intro w offHead offNew offNewTag offSplit offFoot offFootTag
  simp only [Words.put_other, offHead, offNew, offNewTag, offSplit, offFoot, offFootTag,
    ne_eq, not_false_eq_true]

/-- A block freed between occupied ones starts an empty list. -/
theorem freeAlone_empty (foot : f + headerSize = h + size) (room : 2 * headerSize ≤ size)
    (block : BlockWords heap.mem h f tagOccupied size) (kpav : heap.kpav = 0) :
    ∃ mem', heap.freeAlone h f = { heap with mem := mem', kpav := h } ∧
      BlockWords mem' h f tagFree size ∧ FreeLink mem' h h ∧
      ∀ w, w ≠ h + 8 → w ≠ f → w ≠ f + 8 → w ≠ h → w ≠ h + 16 → mem' w = heap.mem w := by
  simp only [headerSize, BlockWords, Words.last, Words.tag, tagFree, tagOccupied] at *
  refine ⟨(heap.freeAlone h f).mem, ?_⟩
  simp (disch := omega) only [freeAlone, kpav, if_true, Words.size, Words.next, Words.last,
    Words.tag, Words.setTag, Words.setNext, Words.setLast, FreeLink, Words.put_other,
    Words.put_same, tagFree, block, word_size, word_tag, true_and]
  intro w offHead offFoot offTag offLast offNext
  simp only [Words.put_other, offHead, offFoot, offTag, offLast, offNext, ne_eq,
    not_false_eq_true]

/-- A block freed between occupied ones is put in front of the list that starts at `a`. -/
theorem freeAlone_front (foot : f + headerSize = h + size) (room : 2 * headerSize ≤ size)
    (block : BlockWords heap.mem h f tagOccupied size) (kpav : heap.kpav = a) (nonnull : a ≠ 0)
    (last : heap.mem.last a = t) (offA : OffBlock a h size) (offT : OffBlock t h size)
    (apart : HeadsApart a t) :
    ∃ mem', heap.freeAlone h f = { heap with mem := mem', kpav := h } ∧
      BlockWords mem' h f tagFree size ∧ FreeLink mem' h a ∧ FreeLink mem' t h ∧
      ∀ w, w ≠ h + 8 → w ≠ f → w ≠ f + 8 → w ≠ h → w ≠ h + 16 → w ≠ t + 16 → w ≠ a →
        mem' w = heap.mem w := by
  simp only [headerSize, BlockWords, OffBlock, HeadsApart, Words.last, Words.tag, tagFree,
    tagOccupied] at *
  refine ⟨(heap.freeAlone h f).mem, ?_⟩
  simp (disch := omega) only [freeAlone, kpav, if_neg nonnull, Words.size, Words.next, Words.last,
    Words.tag, Words.setTag, Words.setNext, Words.setLast, FreeLink, Words.put_other,
    Words.put_same, tagFree, block, last, word_size, word_tag, true_and]
  intro w offHead offFoot offTag offLast offNext offTail offFront
  simp only [Words.put_other, offHead, offFoot, offTag, offLast, offNext, offTail, offFront,
    ne_eq, not_false_eq_true]

/-- A block freed before the only free block replaces it. -/
theorem freeRight_only {sizeR : Nat} (foot : f + headerSize = h + size + sizeR)
    (room : 2 * headerSize ≤ size) (roomR : 2 * headerSize ≤ sizeR)
    (small : size + sizeR ≤ ksl) (sizeAt : heap.mem.size h = size)
    (block : BlockWords heap.mem (h + size) f tagFree sizeR)
    (only : heap.mem.next (h + size) = h + size) :
    ∃ mem', heap.freeRight h (h + size) size = { heap with mem := mem', kpav := h } ∧
      BlockWords mem' h f tagFree (size + sizeR) ∧ FreeLink mem' h h ∧
      ∀ w, w ≠ h + 8 → w ≠ f → w ≠ f + 8 → w ≠ h → w ≠ h + 16 → mem' w = heap.mem w := by
  simp only [headerSize, BlockWords, Words.last, Words.tag, Words.size, Words.next, tagFree,
    ksl] at *
  refine ⟨(heap.freeRight h (h + size) size).mem, ?_⟩
  have total : u32 (sizeR + size) = size + sizeR := by rw [u32_of_lt (by omega)]; omega
  have newFoot : h + (size + sizeR) - 24 = f := by omega
  -- The new size of `h` does not touch the links of its right neighbour.
  have same : ∀ v, (heap.mem.setSize h v).next (h + size) = h + size := fun v => by
    rw [Words.next, Words.setSize, Words.put_other _ _ (by omega), only]
  simp only [freeRight, same, if_true]
  simp (disch := omega) only [Words.footLoc, headerSize, Words.size, Words.next,
    Words.last, Words.tag, Words.setTag, Words.setSize, Words.setNext, Words.setLast, FreeLink,
    total, newFoot, Words.put_other, Words.put_same, tagFree, block,
    word_size, word_tag, true_and]
  intro w offHead offFoot offTag offLast offNext
  simp only [Words.put_other, offHead, offFoot, offTag, offLast, offNext, ne_eq,
    not_false_eq_true]

/-- A block freed before one of several free blocks takes its place in the list. -/
theorem freeRight_several {sizeR : Nat} (foot : f + headerSize = h + size + sizeR)
    (room : 2 * headerSize ≤ size) (roomR : 2 * headerSize ≤ sizeR)
    (small : size + sizeR ≤ ksl) (sizeAt : heap.mem.size h = size)
    (block : BlockWords heap.mem (h + size) f tagFree sizeR)
    (next : heap.mem.next (h + size) = a) (last : heap.mem.last (h + size) = t)
    (offA : OffBlock a h (size + sizeR)) (offT : OffBlock t h (size + sizeR))
    (apart : HeadsApart a t) :
    ∃ mem', heap.freeRight h (h + size) size = { heap with mem := mem', kpav := h } ∧
      BlockWords mem' h f tagFree (size + sizeR) ∧ FreeLink mem' h a ∧ FreeLink mem' t h ∧
      ∀ w, w ≠ h + 8 → w ≠ f → w ≠ f + 8 → w ≠ h → w ≠ h + 16 → w ≠ t + 16 → w ≠ a →
        mem' w = heap.mem w := by
  simp only [headerSize, BlockWords, OffBlock, HeadsApart, Words.last, Words.tag, Words.size,
    Words.next, tagFree, ksl] at *
  refine ⟨(heap.freeRight h (h + size) size).mem, ?_⟩
  have total : u32 (sizeR + size) = size + sizeR := by rw [u32_of_lt (by omega)]; omega
  have newFoot : h + (size + sizeR) - 24 = f := by omega
  have moved : ∀ v, (heap.mem.setSize h v).next (h + size) = a := fun v => by
    rw [Words.next, Words.setSize, Words.put_other _ _ (by omega), next]
  have differ : a ≠ h + size := by omega
  simp only [freeRight, moved, if_neg differ]
  simp (disch := omega) only [Words.footLoc, headerSize, Words.size, Words.next,
    Words.last, Words.tag, Words.setTag, Words.setSize, Words.setNext, Words.setLast, FreeLink,
    last, total, newFoot, Words.put_other, Words.put_same, tagFree,
    block, word_size, word_tag, true_and]
  intro w offHead offFoot offTag offLast offNext offTail offFront
  simp only [Words.put_other, offHead, offFoot, offTag, offLast, offNext, offTail, offFront,
    ne_eq, not_false_eq_true]

/-- A block freed after a free one is added to it, and the list stays as it is. -/
theorem freeLeft_words {lh sizeL : Nat} (left : h = lh + sizeL) (foot : f + headerSize = h + size)
    (room : 2 * headerSize ≤ size) (roomL : 2 * headerSize ≤ sizeL) (small : sizeL + size ≤ ksl)
    (sizeAt : heap.mem.size h = size)
    (block : BlockWords heap.mem lh (h - headerSize) tagFree sizeL) :
    ∃ mem', heap.freeLeft h (h - headerSize) size = { heap with mem := mem' } ∧
      BlockWords mem' lh f tagFree (sizeL + size) ∧
      ∀ w, w ≠ lh + 8 → w ≠ f → w ≠ f + 8 → mem' w = heap.mem w := by
  simp only [headerSize, BlockWords, Words.last, Words.tag, Words.size, tagFree, ksl] at *
  refine ⟨(heap.freeLeft h (h - 24) size).mem, ?_⟩
  have total : u32 (sizeL + size) = sizeL + size := u32_of_lt (by omega)
  have newFoot : h + size - 24 = f := by omega
  simp (disch := omega) only [freeLeft, Words.footLoc, headerSize, Words.size, Words.last,
    Words.tag, Words.setTag, Words.setSize, Words.setLast, total, sizeAt, newFoot,
    Words.put_other, Words.put_same, tagFree, block, word_size, word_tag, true_and]
  intro w offHead offFoot offTag
  simp only [Words.put_other, offHead, offFoot, offTag, ne_eq, not_false_eq_true]

/-- A block freed between two free ones joins them, and the right one leaves the list. -/
theorem freeBoth_words {lh sizeL sizeR : Nat} (left : h = lh + sizeL)
    (foot : f + headerSize = h + size + sizeR) (room : 2 * headerSize ≤ size)
    (roomL : 2 * headerSize ≤ sizeL) (roomR : 2 * headerSize ≤ sizeR)
    (small : sizeL + size + sizeR ≤ ksl)
    (blockL : BlockWords heap.mem lh (h - headerSize) tagFree sizeL)
    (blockR : BlockWords heap.mem (h + size) f tagFree sizeR)
    (next : heap.mem.next (h + size) = a) (last : heap.mem.last (h + size) = t)
    (offA : OffBlock a h (size + sizeR)) (offT : OffBlock t h (size + sizeR))
    (apartA : HeadsApart a lh) (apartT : HeadsApart t lh) (apart : HeadsApart a t) :
    ∃ mem', heap.freeBoth (h - headerSize) (h + size) size =
        { heap with mem := mem', kpav := lh } ∧
      BlockWords mem' lh f tagFree (sizeL + size + sizeR) ∧ FreeLink mem' t a ∧
      ∀ w, w ≠ lh + 8 → w ≠ f → w ≠ f + 8 → w ≠ t + 16 → w ≠ a → mem' w = heap.mem w := by
  simp only [headerSize, BlockWords, OffBlock, HeadsApart, Words.last, Words.tag, Words.next,
    tagFree, ksl] at *
  refine ⟨(heap.freeBoth (h - 24) (h + size) size).mem, ?_⟩
  have total : u32 (sizeL + u32 (size + sizeR)) = sizeL + size + sizeR := by
    rw [u32_of_lt (show size + sizeR < 2 ^ 32 by omega), u32_of_lt (by omega)]
    omega
  have newFoot : lh + (sizeL + size + sizeR) - 24 = f := by omega
  simp (disch := omega) only [freeBoth, Words.footLoc, headerSize, Words.size, Words.next,
    Words.last, Words.tag, Words.setSize, Words.setNext, Words.setLast, FreeLink, next, last,
    total, newFoot, Words.put_other, Words.put_same, blockL, blockR, word_size,
    word_tag, true_and]
  intro w offHead offFoot _ offTail offFront
  simp only [Words.put_other, offHead, offFoot, offTail, offFront, ne_eq, not_false_eq_true]

end Kheap

/-! Replacing some blocks of the arena by others. -/

namespace Chunk

/-- The foot ends where the block ends. -/
theorem Ok.foot_add {mem : Words} {c : Chunk} (ok : c.Ok mem) :
    c.foot + headerSize = c.head + c.size := by
  have room := ok.room
  simp only [foot, headerSize] at *
  omega

/-- Reading the size of a right block. -/
theorem Ok.size_eq {mem : Words} {c : Chunk} (ok : c.Ok mem) : mem.size c.head = c.size := by
  have head := ok.words.1
  have small : c.tag < 2 ^ 32 := by unfold tag tagOccupied tagFree; split <;> decide
  rw [Words.size, head, word_size small]

/-- Reading the tag of a right block. -/
theorem Ok.tag_eq {mem : Words} {c : Chunk} (ok : c.Ok mem) : mem.tag c.head = c.tag := by
  have head := ok.words.1
  have small : c.tag < 2 ^ 32 := by unfold tag tagOccupied tagFree; split <;> decide
  rw [Words.tag, head, word_tag small]

/-- A block stays right while its own words are untouched. -/
theorem Ok.frame {mem mem' : Words} {c : Chunk} (ok : c.Ok mem)
    (same : ∀ w ∈ c.tagWords, mem' w = mem w) : c.Ok mem' := by
  obtain ⟨headWord, footTag, footHead⟩ := ok.words
  simp only [tagWords, List.mem_cons, List.not_mem_nil, or_false, forall_eq_or_imp,
    forall_eq] at same
  refine ⟨ok.aligned, ok.room, ?_, ?_, ?_⟩
  · rw [same.1, headWord]
  · rw [Words.tag, same.2.2]; exact footTag
  · rw [Words.last, same.2.1]; exact footHead

end Chunk

/-- Free blocks are listed by their heads. -/
theorem Chunk.freeHead_eq {c : Chunk} {p : Nat} :
    c.freeHead = some p ↔ c.used = none ∧ c.head = p := by
  unfold freeHead
  cases c.used <;> simp

/-- No word both describes one block and links another, and none describes two. -/
theorem Tiles.words_apart {start stop w : Nat} {chunks : List Chunk}
    (tiles : Tiles start stop chunks) (room : ∀ c ∈ chunks, 2 * headerSize ≤ c.size)
    {c d : Chunk} (inC : c ∈ chunks) (inD : d ∈ chunks) (word : w ∈ c.tagWords) :
    w ∉ d.linkWords ∧ (c ≠ d → w ∉ d.tagWords) := by
  have roomC := room c inC
  have roomD := room d inD
  simp only [Chunk.tagWords, Chunk.linkWords, Chunk.foot, headerSize, List.mem_cons,
    List.not_mem_nil, or_false] at *
  rcases tiles.eq_or_apart inC inD with rfl | apart
  · exact ⟨by omega, fun differ => absurd rfl differ⟩
  · exact ⟨by omega, fun _ => by omega⟩

/-- The list of free heads has no repetition. -/
theorem Tiles.freeHeads_nodup {start stop : Nat} {chunks : List Chunk}
    (tiles : Tiles start stop chunks) (room : ∀ c ∈ chunks, 2 * headerSize ≤ c.size) :
    (chunks.filterMap Chunk.freeHead).Nodup := by
  refine List.pairwise_filterMap.mpr (tiles.apart.imp_of_mem ?_)
  intro c d inC _ apart p pHead q qHead
  have roomC := room c inC
  have headC := (Chunk.freeHead_eq.mp pHead).2
  have headD := (Chunk.freeHead_eq.mp qHead).2
  simp only [headerSize] at roomC
  omega

namespace HeapWf

variable {heap : Kheap} {live : List (Nat × Nat)} {chunks front old new back : List Chunk}
  {avail : List Nat}

/-- Every block has room for its two tags. -/
theorem room (wf : HeapWf heap live chunks avail) : ∀ c ∈ chunks, 2 * headerSize ≤ c.size :=
  fun c member => le_trans (Nat.le_add_left _ _) (wf.ok c member).room

/-- The members of the free list are heads of free blocks. -/
theorem avail_chunk (wf : HeapWf heap live chunks avail) {p : Nat} (member : p ∈ avail) :
    ∃ c ∈ chunks, c.used = none ∧ c.head = p := by
  obtain ⟨c, inside, named⟩ := List.mem_filterMap.mp (wf.availFree.mem_iff.mp member)
  exact ⟨c, inside, Chunk.freeHead_eq.mp named⟩

/-- Members of the free list are equal or apart. -/
theorem heads_apart (wf : HeapWf heap live chunks avail) {p q : Nat} (inP : p ∈ avail)
    (inQ : q ∈ avail) : HeadsApart p q := by
  obtain ⟨c, inC, -, rfl⟩ := wf.avail_chunk inP
  obtain ⟨d, inD, -, rfl⟩ := wf.avail_chunk inQ
  have roomC := wf.room c inC
  have roomD := wf.room d inD
  rcases wf.tiles.eq_or_apart inC inD with rfl | apart
  · exact .inl rfl
  · unfold HeadsApart
    omega

/-- The free list has no repetition. -/
theorem nodup (wf : HeapWf heap live chunks avail) : avail.Nodup :=
  wf.availFree.nodup_iff.mpr (wf.tiles.freeHeads_nodup wf.room)

/-- Blocks outside the replaced ones do not overlap them. -/
theorem off (wf : HeapWf heap live (front ++ old ++ back) avail) {lo hi : Nat}
    (tiled : Tiles lo hi old) (some_ : old ≠ []) {d : Chunk} (member : d ∈ front ++ back) :
    d.head + d.size ≤ lo ∨ hi ≤ d.head := by
  obtain ⟨mid, left, right⟩ := tiles_append.mp wf.tiles
  obtain ⟨mid', left, middle⟩ := tiles_append.mp left
  obtain ⟨rfl, rfl⟩ := middle.ends_unique tiled some_
  rcases List.mem_append.mp member with inFront | inBack
  · exact .inl (left.bounds.2 d inFront).2
  · exact .inr (right.bounds.2 d inBack).1

/--
Replacing blocks by others over the same bytes keeps the heap well formed.

Only the words of the new blocks and the links of the new free list may change.
-/
theorem edit (wf : HeapWf heap live (front ++ old ++ back) avail) {mem' : Words} {kpav' : Nat}
    {avail' : List Nat} {live' : List (Nat × Nat)}
    (tiled : ∀ lo hi, Tiles lo hi old → Tiles lo hi new)
    (newOk : ∀ c ∈ new, c.Ok mem')
    (touched : ∀ w, (∀ c ∈ new, w ∉ c.tagWords) → (∀ p ∈ avail', w ≠ p ∧ w ≠ p + 16) →
      mem' w = heap.mem w)
    (merged : (front ++ new ++ back).IsChain NotBothFree)
    (linked : Ring (FreeLink mem') avail')
    (availFree : avail'.Perm ((front ++ new ++ back).filterMap Chunk.freeHead))
    (kpav : kpav' = avail'.head?.getD 0)
    (serves : live'.Perm ((front ++ new ++ back).filterMap Chunk.request)) :
    HeapWf { heap with mem := mem', kpav := kpav' } live' (front ++ new ++ back) avail' := by
  have tiles : Tiles heap.kallocbuf (heap.kallocbuf + ksl) (front ++ new ++ back) := by
    obtain ⟨mid, left, right⟩ := tiles_append.mp wf.tiles
    obtain ⟨mid', left, middle⟩ := tiles_append.mp left
    exact tiles_append.mpr ⟨mid, tiles_append.mpr ⟨mid', left, tiled _ _ middle⟩, right⟩
  have kept : ∀ c ∈ front ++ back, c ∈ front ++ old ++ back := by
    intro c member
    simp only [List.mem_append] at *
    tauto
  have rooms : ∀ c ∈ front ++ new ++ back, 2 * headerSize ≤ c.size := by
    intro c member
    by_cases isNew : c ∈ new
    · exact le_trans (Nat.le_add_left _ _) (newOk c isNew).room
    · refine wf.room c (kept c ?_)
      simp only [List.mem_append] at *
      tauto
  refine ⟨wf.base, tiles, ?_, merged, linked, availFree, kpav, serves⟩
  intro c member
  by_cases isNew : c ∈ new
  · exact newOk c isNew
  · have inside : c ∈ front ++ old ++ back := by
      refine kept c ?_
      simp only [List.mem_append] at *
      tauto
    refine (wf.ok c inside).frame fun w word => touched w (fun d inNew => ?_) fun p inAvail => ?_
    · have inD : d ∈ front ++ new ++ back := by simp [inNew]
      exact (tiles.words_apart rooms member inD word).2 fun same => isNew (same ▸ inNew)
    · obtain ⟨d, inD, named⟩ := List.mem_filterMap.mp (availFree.mem_iff.mp inAvail)
      have apart := (tiles.words_apart rooms member inD word).1
      simpa [Chunk.linkWords, (Chunk.freeHead_eq.mp named).2] using apart

end HeapWf

end GlucOS
