import GlucOS.Mm.MallocLaws

/-! `kmalloc_g` and `kfree_g` keep the heap well formed and never panic. -/

namespace GlucOS

/-- Neighbours stay merged when the replaced blocks keep free ones from meeting. -/
theorem merged_replace {front old new back : List Chunk}
    (chain : (front ++ old ++ back).IsChain NotBothFree) (inner : new.IsChain NotBothFree)
    (some_ : new ≠ [])
    (left : ∀ l ∈ front.getLast?, ∀ c ∈ new.head?, NotBothFree l c)
    (right : ∀ c ∈ new.getLast?, ∀ r ∈ back.head?, NotBothFree c r) :
    (front ++ new ++ back).IsChain NotBothFree := by
  rw [List.append_assoc, List.isChain_append] at chain
  refine List.isChain_append.mpr ⟨List.isChain_append.mpr ⟨chain.1, inner, left⟩,
    (List.isChain_append.mp chain.2.1).2.1, ?_⟩
  rwa [List.getLast?_append_of_ne_nil _ some_]

/-- Handing out a block leaves the arena where it is. -/
theorem Kheap.takeWhole_kallocbuf (heap : Kheap) (h f : Nat) :
    (heap.takeWhole h f).kallocbuf = heap.kallocbuf := rfl

/-- Freeing a block leaves the arena where it is. -/
theorem Kheap.freeAlone_kallocbuf (heap : Kheap) (h f : Nat) :
    (heap.freeAlone h f).kallocbuf = heap.kallocbuf := by
  simp only [Kheap.freeAlone]
  split <;> rfl

namespace HeapWf

variable {heap : Kheap} {live : List (Nat × Nat)} {chunks front old new back : List Chunk}
  {avail : List Nat}

/-- The free list may be written down from any free block. -/
theorem avail_from {c : Chunk} (wf : HeapWf heap live (front ++ [c] ++ back) avail)
    (unused : c.used = none) :
    ∃ rest, Ring (FreeLink heap.mem) (c.head :: rest) ∧ (c.head :: rest).Perm avail ∧
      rest.Perm ((front ++ back).filterMap Chunk.freeHead) := by
  have named : c.freeHead = some c.head := Chunk.freeHead_eq.mpr ⟨unused, rfl⟩
  have member : c.head ∈ avail :=
    wf.availFree.mem_iff.mpr (List.mem_filterMap.mpr ⟨c, by simp, named⟩)
  obtain ⟨xs, ys, rfl⟩ := List.append_of_mem member
  have turned : (c.head :: ys ++ xs).Perm (xs ++ c.head :: ys) := List.perm_append_comm
  refine ⟨ys ++ xs, ring_rotate.mp wf.linked, turned, ?_⟩
  have whole := turned.trans wf.availFree
  rw [List.append_assoc, List.singleton_append, List.filterMap_append,
    List.filterMap_cons_some named] at whole
  rw [List.filterMap_append]
  exact (whole.trans List.perm_middle).cons_inv

/-- The first-fit loop stops at a member of the free list, or at null when it is empty. -/
theorem firstFit (wf : HeapWf heap live chunks avail) (n : Nat) :
    ∃ h, heap.firstFit n ksl heap.kpav = some h ∧ (h ∈ avail ∨ h = 0) := by
  have start := wf.kpav
  cases avail with
  | nil =>
    refine ⟨0, ?_, .inr rfl⟩
    rw [start]
    simp [ksl, Kheap.firstFit]
  | cons k path =>
    simp only [List.head?_cons, Option.getD_some] at start
    -- The loop walks the list from `kpav`, so the fuel left always covers the members ahead.
    have walk : ∀ fuel back front h, k :: path = front ++ h :: back → back.length < fuel →
        ∃ r, heap.firstFit n fuel h = some r ∧ r ∈ k :: path := by
      intro fuel
      induction fuel with
      | zero => intro back front h _ short; omega
      | succ fuel ih =>
        intro back front h here short
        rw [Kheap.firstFit]
        split
        · rename_i goOn
          cases back with
          | nil =>
            -- The last member is followed by `kpav`, where the loop stops.
            have last := wf.linked.link_last (t := h) (by simp [here])
            exact absurd (last.1.trans start.symm) goOn.2.2
          | cons b back =>
            have chain := (ring_iff_path.mp wf.linked).1
            rw [here] at chain
            have next : heap.mem.next h = b :=
              (List.isChain_cons_cons.mp chain.right_of_append).1.1
            rw [next]
            exact ih back (front ++ [h]) b (by simp [here]) (by simpa using short)
        · exact ⟨h, rfl, here ▸ by simp⟩
    have count : (k :: path).length ≤ ksl := by
      rw [wf.availFree.length_eq]
      refine (List.length_filterMap_le _ _).trans ?_
      exact Nat.le_of_add_le_add_left ((wf.tiles.length_le wf.room).trans_eq rfl)
    obtain ⟨r, found, inside⟩ := walk ksl path [] k rfl count
    exact ⟨r, start ▸ found, .inl inside⟩

/-- Members of the free list lie outside the blocks that are replaced. -/
theorem off_avail (wf : HeapWf heap live (front ++ old ++ back) avail) {lo hi p : Nat}
    (tiled : Tiles lo hi old) (some_ : old ≠ [])
    (member : p ∈ (front ++ back).filterMap Chunk.freeHead) :
    p + 2 * headerSize ≤ lo ∨ hi ≤ p := by
  obtain ⟨d, inside, named⟩ := List.mem_filterMap.mp member
  have same := (Chunk.freeHead_eq.mp named).2
  have kept : d ∈ front ++ old ++ back := by
    simp only [List.mem_append] at *
    tauto
  have room := wf.room d kept
  have apart := wf.off tiled some_ inside
  omega

/-- A free block has occupied neighbours. -/
theorem beside_free {c : Chunk} (wf : HeapWf heap live (front ++ [c] ++ back) avail)
    (unused : c.used = none) :
    (∀ l ∈ front.getLast?, l.used.isSome) ∧ ∀ r ∈ back.head?, r.used.isSome := by
  have chain := wf.merged
  rw [List.append_assoc, List.isChain_append] at chain
  refine ⟨fun l member => ?_, fun r member => ?_⟩
  · simpa [NotBothFree, unused] using chain.2.2 l member c (by simp)
  · have after := (List.isChain_append.mp chain.2.1).2.2 c (by simp) r member
    simpa [NotBothFree, unused] using after

/-- Replacing blocks by a single one. -/
theorem edit_one (wf : HeapWf heap live (front ++ old ++ back) avail) {c : Chunk} {mem' : Words}
    {kpav' : Nat} {avail' : List Nat} {live' : List (Nat × Nat)}
    (tiled : ∀ lo hi, Tiles lo hi old → Tiles lo hi [c]) (ok : c.Ok mem')
    (touched : ∀ w, w ≠ c.head + 8 → w ≠ c.foot → w ≠ c.foot + 8 →
      (∀ p ∈ avail', w ≠ p ∧ w ≠ p + 16) → mem' w = heap.mem w)
    (left : ∀ l ∈ front.getLast?, NotBothFree l c) (right : ∀ r ∈ back.head?, NotBothFree c r)
    (linked : Ring (FreeLink mem') avail')
    (availFree : avail'.Perm ((front ++ [c] ++ back).filterMap Chunk.freeHead))
    (kpav : kpav' = avail'.head?.getD 0)
    (serves : live'.Perm ((front ++ [c] ++ back).filterMap Chunk.request)) :
    HeapWf { heap with mem := mem', kpav := kpav' } live' (front ++ [c] ++ back) avail' := by
  refine wf.edit tiled (by simpa using ok) ?_
    (merged_replace wf.merged (by simp) (by simp) (by simpa using left) (by simpa using right))
    linked availFree kpav serves
  intro w offTags
  simp only [forall_eq, Chunk.tagWords, List.mem_cons, List.not_mem_nil, or_false,
    not_or] at offTags
  exact touched w offTags.1 offTags.2.1 offTags.2.2

/-- Handing out a whole free block. -/
theorem takeWhole {c : Chunk} {size : Nat}
    (wf : HeapWf heap live (front ++ [c] ++ back) avail) (unused : c.used = none)
    (fits : size + 2 * headerSize ≤ c.size) {rest : List Nat}
    (linked : Ring (FreeLink heap.mem) (c.head :: rest))
    (others : rest.Perm ((front ++ back).filterMap Chunk.freeHead))
    (members : (c.head :: rest).Perm avail) :
    HeapWf (heap.takeWhole c.head c.foot) ((c.head + headerSize, size) :: live)
      (front ++ [{ c with used := some size }] ++ back) rest := by
  have ok := wf.ok c (by simp)
  have foot := ok.foot_add
  have room := wf.room c (by simp)
  have words := ok.words
  rw [show c.tag = tagFree by simp [Chunk.tag, unused]] at words
  have nodup : (c.head :: rest).Nodup := members.nodup_iff.mpr wf.nodup
  have availFree : rest.Perm
      ((front ++ [{ c with used := some size }] ++ back).filterMap Chunk.freeHead) := by
    simpa [Chunk.freeHead] using others
  have serves : ((c.head + headerSize, size) :: live).Perm
      ((front ++ [{ c with used := some size }] ++ back).filterMap Chunk.request) := by
    have serves := wf.serves
    simp only [List.filterMap_append, List.filterMap_cons, List.filterMap_nil, Chunk.request,
      unused, Option.map_none, Option.map_some, List.append_nil] at serves ⊢
    exact (serves.cons _).trans (by simpa using List.perm_middle.symm)
  cases rest with
  | nil =>
    obtain ⟨mem', taken, block, same⟩ := Kheap.takeWhole_only foot room words
      (ring_singleton.mp linked).1
    rw [taken]
    exact wf.edit_one (fun _ _ tiled => tiled) ⟨ok.aligned, fits, block⟩
      (fun w w1 w2 w3 _ => same w w1 w2 w3) (by simp [NotBothFree]) (by simp [NotBothFree])
      ring_nil availFree rfl serves
  | cons a path =>
    obtain ⟨t, tail⟩ : ∃ t, (a :: path).getLast (by simp) = t := ⟨_, rfl⟩
    have inT : t ∈ a :: path := tail ▸ List.getLast_mem _
    have inAvail : ∀ p ∈ a :: path, p ∈ avail := fun p member =>
      members.mem_iff.mp (List.mem_cons_of_mem _ member)
    have off : ∀ p ∈ a :: path, OffBlock p c.head c.size := fun p member =>
      wf.off_avail ⟨rfl, rfl⟩ (by simp) (others.mem_iff.mp member)
    have last := (linked.link_last (t := t) (by simpa using tail)).2
    obtain ⟨mem', taken, block, skip, same⟩ := Kheap.takeWhole_several foot room words
      linked.link_first.1 last (off a (by simp)) (off t inT)
      (wf.heads_apart (inAvail a (by simp)) (inAvail t inT))
    rw [taken]
    refine wf.edit_one (fun _ _ tiled => tiled) ⟨ok.aligned, fits, block⟩
      (fun w w1 w2 w3 others => same w w1 w2 w3 (others t inT).2 (others a (by simp)).1)
      (by simp [NotBothFree]) (by simp [NotBothFree]) ?_ availFree rfl serves
    refine linked.delete (List.nodup_cons.mp nodup).2 tail skip ?_
    intro u inU v inV notTail notHead link
    have offU := off u inU
    have offV := off v inV
    have apartU := wf.heads_apart (inAvail u inU) (inAvail a (by simp))
    have apartV := wf.heads_apart (inAvail v inV) (inAvail t inT)
    simp only [OffBlock, HeadsApart, headerSize] at *
    refine ⟨(same _ ?_ ?_ ?_ ?_ ?_).trans link.1, (same _ ?_ ?_ ?_ ?_ ?_).trans link.2⟩ <;> omega

/-- Splitting the end off a free block. -/
theorem takeLast {c : Chunk} {size n : Nat}
    (wf : HeapWf heap live (front ++ [c] ++ back) avail) (unused : c.used = none)
    (aligned : 8 ∣ n) (fits : size + 2 * headerSize ≤ n) (remains : n + 2 * headerSize ≤ c.size)
    {rest : List Nat} (linked : Ring (FreeLink heap.mem) (c.head :: rest))
    (others : rest.Perm ((front ++ back).filterMap Chunk.freeHead))
    (members : (c.head :: rest).Perm avail) :
    ∃ heap', heap.takeLast c.head c.foot n = (c.head + (c.size - n), heap') ∧
      HeapWf heap' ((c.head + (c.size - n) + headerSize, size) :: live)
        (front ++ [{ c with size := c.size - n }, ⟨c.head + (c.size - n), n, some size⟩] ++ back)
        (rest ++ [c.head]) := by
  have ok := wf.ok c (by simp)
  have foot := ok.foot_add
  have words := ok.words
  rw [show c.tag = tagFree by simp [Chunk.tag, unused]] at words
  have nodup : (c.head :: rest).Nodup := members.nodup_iff.mpr wf.nodup
  have inAvail : ∀ p ∈ c.head :: rest, p ∈ avail := fun p member => members.mem_iff.mp member
  obtain ⟨mem', taken, blockFree, blockUsed, same⟩ := Kheap.takeLast_words foot remains
    (by omega) words
  refine ⟨_, taken, wf.edit ?_ ?_ ?_ ?_ ?_ ?_ ?_ ?_⟩
  · intro lo hi tiled
    simp only [Tiles, headerSize] at *
    omega
  · simp only [List.mem_cons, List.not_mem_nil, or_false, forall_eq_or_imp, forall_eq]
    have alignedC := ok.aligned
    refine ⟨⟨?_, ?_, ?_⟩, ⟨aligned, by simpa using fits, ?_⟩⟩
    · simp only
      omega
    · simp only [unused, Option.getD_none]
      omega
    · simpa [Chunk.tag, Chunk.foot, unused] using blockFree
    · have footAt : c.head + (c.size - n) + n - headerSize = c.foot := by omega
      simpa [Chunk.tag, Chunk.foot, footAt] using blockUsed
  · intro w offTags _
    have footAt : c.head + (c.size - n) + n - headerSize = c.foot := by omega
    simp only [List.mem_cons, List.not_mem_nil, or_false, forall_eq_or_imp, forall_eq,
      Chunk.tagWords, Chunk.foot, not_or, footAt] at offTags
    obtain ⟨⟨w1, w2, w3⟩, w4, w5, w6⟩ := offTags
    refine same w w1 w2 w3 w4 ?_ ?_ <;> unfold Chunk.foot <;> omega
  · refine merged_replace wf.merged (by simp [NotBothFree]) (by simp) (fun l member d first => ?_)
      (by simp [NotBothFree])
    exact .inl ((wf.beside_free unused).1 l member)
  · -- The words that change describe blocks, so no link of the list is among them.
    have place : ∀ p ∈ c.head :: rest, p = c.head ∨ OffBlock p c.head c.size := by
      intro p member
      rcases List.mem_cons.mp member with same | member
      · exact .inl same
      · exact .inr (wf.off_avail ⟨rfl, rfl⟩ (by simp) (others.mem_iff.mp member))
    refine ring_rotate.mp (linked.imp fun u inU v inV link => ?_ :
      Ring (FreeLink mem') ([c.head] ++ rest))
    have placeU := place u inU
    have placeV := place v inV
    simp only [OffBlock, headerSize] at *
    refine ⟨(same _ ?_ ?_ ?_ ?_ ?_ ?_).trans link.1, (same _ ?_ ?_ ?_ ?_ ?_ ?_).trans link.2⟩ <;>
      omega
  · have whole : (front ++ [{ c with size := c.size - n },
        ⟨c.head + (c.size - n), n, some size⟩] ++ back).filterMap Chunk.freeHead =
          front.filterMap Chunk.freeHead ++ c.head :: back.filterMap Chunk.freeHead := by
      simp [Chunk.freeHead, unused]
    rw [whole]
    rw [List.filterMap_append] at others
    exact (List.perm_append_singleton _ _).trans ((others.cons _).trans List.perm_middle.symm)
  · cases rest with
    | nil => exact (ring_singleton.mp linked).1
    | cons a path => exact linked.link_first.1
  · have whole : (front ++ [{ c with size := c.size - n },
        ⟨c.head + (c.size - n), n, some size⟩] ++ back).filterMap Chunk.request =
          front.filterMap Chunk.request ++
            (c.head + (c.size - n) + headerSize, size) :: back.filterMap Chunk.request := by
      simp [List.filterMap_cons, Chunk.request, unused]
    have serves : live.Perm (front.filterMap Chunk.request ++ back.filterMap Chunk.request) := by
      simpa [Chunk.request, unused] using wf.serves
    rw [whole]
    exact (serves.cons _).trans List.perm_middle.symm

/-! Freeing. -/

/-- Freeing a request takes exactly it from the live ones. -/
theorem serves_free {c : Chunk} {size : Nat} (wf : HeapWf heap live (front ++ [c] ++ back) avail)
    (used : c.used = some size) :
    (live.filter fun request => request.1 ≠ c.head + headerSize).Perm
      ((front ++ back).filterMap Chunk.request) := by
  have whole : (front ++ [c] ++ back).filterMap Chunk.request =
      front.filterMap Chunk.request ++
        (c.head + headerSize, size) :: back.filterMap Chunk.request := by
    simp [Chunk.request, used]
  have serves := wf.serves
  rw [whole] at serves
  have others : ∀ request ∈ (front ++ back).filterMap Chunk.request,
      request.1 ≠ c.head + headerSize := by
    intro request member same
    obtain ⟨d, inside, named⟩ := List.mem_filterMap.mp member
    obtain ⟨asked, -, rfl⟩ := Option.map_eq_some_iff.mp named
    have alone : Tiles c.head (c.head + c.size) [c] := ⟨rfl, rfl⟩
    have apart := wf.off alone (by simp) inside
    have room := wf.room c (by simp)
    have roomD := wf.room d (by simp only [List.mem_append] at *; tauto)
    simp only [headerSize] at *
    omega
  have kept := serves.filter fun request => request.1 ≠ c.head + headerSize
  rw [List.filterMap_append] at others ⊢
  refine kept.trans (List.Perm.of_eq ?_)
  rw [List.filter_append, List.filter_cons_of_neg (by simp), ← List.filter_append]
  exact List.filter_eq_self.mpr fun request member => by simpa using others request member

/-- Freeing a block between occupied ones. -/
theorem freeAlone {c : Chunk} {size : Nat} (wf : HeapWf heap live (front ++ [c] ++ back) avail)
    (used : c.used = some size) (left : ∀ l ∈ front.getLast?, l.used.isSome)
    (right : ∀ r ∈ back.head?, r.used.isSome) :
    HeapWf (heap.freeAlone c.head c.foot)
      (live.filter fun request => request.1 ≠ c.head + headerSize)
      (front ++ [{ c with used := none }] ++ back) (c.head :: avail) := by
  have ok := wf.ok c (by simp)
  have foot := ok.foot_add
  have room := wf.room c (by simp)
  have words := ok.words
  rw [show c.tag = tagOccupied by simp [Chunk.tag, used]] at words
  have free : avail.Perm ((front ++ back).filterMap Chunk.freeHead) := by
    simpa [Chunk.freeHead, used] using wf.availFree
  have availFree : (c.head :: avail).Perm
      ((front ++ [{ c with used := none }] ++ back).filterMap Chunk.freeHead) := by
    have whole : (front ++ [{ c with used := none }] ++ back).filterMap Chunk.freeHead =
        front.filterMap Chunk.freeHead ++ c.head :: back.filterMap Chunk.freeHead := by
      simp [Chunk.freeHead]
    rw [whole]
    rw [List.filterMap_append] at free
    exact (free.cons _).trans List.perm_middle.symm
  have serves : (live.filter fun request => request.1 ≠ c.head + headerSize).Perm
      ((front ++ [{ c with used := none }] ++ back).filterMap Chunk.request) := by
    simpa [List.filterMap_cons, Chunk.request] using wf.serves_free used
  have newOk : ∀ mem', BlockWords mem' c.head c.foot tagFree c.size →
      Chunk.Ok mem' { c with used := none } := fun mem' block =>
    ⟨ok.aligned, by simpa using room, block⟩
  cases avail with
  | nil =>
    obtain ⟨mem', freed, block, link, same⟩ := Kheap.freeAlone_empty foot room words wf.kpav
    rw [freed]
    exact wf.edit_one (fun _ _ tiled => tiled) (newOk mem' block)
      (fun w w1 w2 w3 others => same w w1 w2 w3 (others c.head (by simp)).1
        (others c.head (by simp)).2)
      (fun l member => .inl (left l member)) (fun r member => .inr (right r member))
      (ring_singleton.mpr link) availFree rfl serves
  | cons a path =>
    obtain ⟨t, tail⟩ : ∃ t, (a :: path).getLast (by simp) = t := ⟨_, rfl⟩
    have inT : t ∈ a :: path := tail ▸ List.getLast_mem _
    have off : ∀ p ∈ a :: path, OffBlock p c.head c.size := fun p member =>
      wf.off_avail ⟨rfl, rfl⟩ (by simp) (free.mem_iff.mp member)
    have nonnull : a ≠ 0 := by
      obtain ⟨d, inside, -, rfl⟩ := wf.avail_chunk (List.mem_cons_self (a := a) (l := path))
      have below := (wf.tiles.bounds.2 d inside).1
      have base := wf.base.2
      omega
    obtain ⟨mem', freed, block, out, into, same⟩ := Kheap.freeAlone_front (a := a) foot room words
      wf.kpav nonnull (wf.linked.link_last tail).2 (off a (by simp)) (off t inT)
      (wf.heads_apart (by simp) inT)
    rw [freed]
    refine wf.edit_one (fun _ _ tiled => tiled) (newOk mem' block) ?_
      (fun l member => .inl (left l member)) (fun r member => .inr (right r member)) ?_ availFree
      rfl serves
    · intro w w1 w2 w3 others
      exact same w w1 w2 w3 (others c.head (by simp)).1 (others c.head (by simp)).2
        (others t (List.mem_cons_of_mem _ inT)).2 (others a (by simp)).1
    · refine wf.linked.insert wf.nodup tail into out fun u inU v inV notTail notHead link => ?_
      have offU := off u inU
      have offV := off v inV
      have apartU := wf.heads_apart inU (List.mem_cons_self (a := a) (l := path))
      have apartUT := wf.heads_apart inU inT
      have apartV := wf.heads_apart inV inT
      simp only [OffBlock, HeadsApart, headerSize] at *
      refine ⟨(same _ ?_ ?_ ?_ ?_ ?_ ?_ ?_).trans link.1,
        (same _ ?_ ?_ ?_ ?_ ?_ ?_ ?_).trans link.2⟩ <;> omega

/-- A block of a well-formed heap is no larger than the arena. -/
theorem size_le (wf : HeapWf heap live (front ++ old ++ back) avail) {lo hi : Nat}
    (tiled : Tiles lo hi old) (some_ : old ≠ []) : hi - lo ≤ ksl := by
  obtain ⟨mid, left, right⟩ := tiles_append.mp wf.tiles
  obtain ⟨mid', left, middle⟩ := tiles_append.mp left
  obtain ⟨rfl, rfl⟩ := middle.ends_unique tiled some_
  have before := left.bounds.1
  have after := right.bounds.1
  omega

/-- Freeing a block before a free one. -/
theorem freeRight {c r : Chunk} {size : Nat}
    (wf : HeapWf heap live (front ++ [c, r] ++ back) avail) (meets : r.head = c.head + c.size)
    (used : c.used = some size) (unused : r.used = none)
    (left : ∀ l ∈ front.getLast?, l.used.isSome) {rest : List Nat}
    (linked : Ring (FreeLink heap.mem) (r.head :: rest))
    (others : rest.Perm ((front ++ back).filterMap Chunk.freeHead))
    (members : (r.head :: rest).Perm avail) :
    HeapWf (heap.freeRight c.head r.head c.size)
      (live.filter fun request => request.1 ≠ c.head + headerSize)
      (front ++ [.mk c.head (c.size + r.size) none] ++ back) (c.head :: rest) := by
  have wfC : HeapWf heap live (front ++ [c] ++ (r :: back)) avail := by simpa using wf
  have wfR : HeapWf heap live ((front ++ [c]) ++ [r] ++ back) avail := by simpa using wf
  have okC := wfC.ok c (by simp)
  have okR := wfR.ok r (by simp)
  have room := wfC.room c (by simp)
  have roomR := wfR.room r (by simp)
  have both : Tiles c.head (c.head + (c.size + r.size)) [c, r] := by
    simp only [Tiles, meets, true_and]
    omega
  have small : c.size + r.size ≤ ksl := by have := wf.size_le both (by simp); omega
  have foot : r.foot + headerSize = c.head + c.size + r.size := by rw [okR.foot_add, meets]
  have words := okR.words
  rw [show r.tag = tagFree by simp [Chunk.tag, unused], meets] at words
  have nodup : (r.head :: rest).Nodup := members.nodup_iff.mpr wf.nodup
  have availFree : (c.head :: rest).Perm
      ((front ++ [Chunk.mk c.head (c.size + r.size) none] ++ back).filterMap Chunk.freeHead) := by
    have whole : (front ++ [Chunk.mk c.head (c.size + r.size) none] ++ back).filterMap Chunk.freeHead =
        front.filterMap Chunk.freeHead ++ c.head :: back.filterMap Chunk.freeHead := by
      simp [Chunk.freeHead]
    rw [whole]
    rw [List.filterMap_append] at others
    exact (others.cons _).trans List.perm_middle.symm
  have serves : (live.filter fun request => request.1 ≠ c.head + headerSize).Perm
      ((front ++ [Chunk.mk c.head (c.size + r.size) none] ++ back).filterMap Chunk.request) := by
    simpa [List.filterMap_cons, Chunk.request, unused] using wfC.serves_free used
  have footNew : (⟨c.head, c.size + r.size, none⟩ : Chunk).foot = r.foot := by
    unfold Chunk.foot at *
    simp only
    omega
  have newOk : ∀ mem', BlockWords mem' c.head r.foot tagFree (c.size + r.size) →
      Chunk.Ok mem' ⟨c.head, c.size + r.size, none⟩ := fun mem' block =>
    ⟨Nat.dvd_add okC.aligned okR.aligned, by simp only [Option.getD_none]; omega,
      footNew ▸ block⟩
  have mergedTiles : ∀ lo hi, Tiles lo hi [c, r] →
      Tiles lo hi [.mk c.head (c.size + r.size) none] := by
    intro lo hi tiled
    simp only [Tiles] at *
    omega
  have right := (wfR.beside_free unused).2
  rw [meets] at linked members ⊢
  cases rest with
  | nil =>
    obtain ⟨mem', freed, block, link, same⟩ := Kheap.freeRight_only foot room roomR small
      okC.size_eq words (ring_singleton.mp linked).1
    rw [freed]
    refine wf.edit_one mergedTiles (newOk mem' block) (fun w w1 w2 w3 others => ?_)
      (fun l member => .inl (left l member)) (fun r member => .inr (right r member))
      (ring_singleton.mpr link) availFree rfl serves
    exact same w w1 (footNew ▸ w2) (footNew ▸ w3) (others c.head (by simp)).1
      (others c.head (by simp)).2
  | cons a path =>
    obtain ⟨t, tail⟩ : ∃ t, (a :: path).getLast (by simp) = t := ⟨_, rfl⟩
    have inT : t ∈ a :: path := tail ▸ List.getLast_mem _
    have inAvail : ∀ p ∈ a :: path, p ∈ avail := fun p member =>
      members.mem_iff.mp (List.mem_cons_of_mem _ member)
    have off : ∀ p ∈ a :: path, OffBlock p c.head (c.size + r.size) := fun p member =>
      wf.off_avail both (by simp) (others.mem_iff.mp member)
    obtain ⟨mem', freed, block, out, into, same⟩ := Kheap.freeRight_several foot room roomR small
      okC.size_eq words linked.link_first.1 (linked.link_last (t := t) (by simpa using tail)).2
      (off a (by simp)) (off t inT) (wf.heads_apart (inAvail a (by simp)) (inAvail t inT))
    rw [freed]
    refine wf.edit_one mergedTiles (newOk mem' block) (fun w w1 w2 w3 others => ?_)
      (fun l member => .inl (left l member)) (fun r member => .inr (right r member)) ?_ availFree
      rfl serves
    · exact same w w1 (footNew ▸ w2) (footNew ▸ w3) (others c.head (by simp)).1
        (others c.head (by simp)).2 (others t (List.mem_cons_of_mem _ inT)).2
        (others a (by simp)).1
    · refine linked.replace (List.nodup_cons.mp nodup).2 tail into out
        fun u inU v inV notTail notHead link => ?_
      have offU := off u inU
      have offV := off v inV
      have apartU := wf.heads_apart (inAvail u inU) (inAvail a (by simp))
      have apartV := wf.heads_apart (inAvail v inV) (inAvail t inT)
      simp only [OffBlock, HeadsApart, headerSize] at *
      refine ⟨(same _ ?_ ?_ ?_ ?_ ?_ ?_ ?_).trans link.1,
        (same _ ?_ ?_ ?_ ?_ ?_ ?_ ?_).trans link.2⟩ <;> omega

/-- Freeing a block after a free one. -/
theorem freeLeft {l c : Chunk} {size : Nat}
    (wf : HeapWf heap live (front ++ [l, c] ++ back) avail) (meets : c.head = l.head + l.size)
    (used : c.used = some size) (unused : l.used = none)
    (right : ∀ r ∈ back.head?, r.used.isSome) :
    HeapWf (heap.freeLeft c.head (c.head - headerSize) c.size)
      (live.filter fun request => request.1 ≠ c.head + headerSize)
      (front ++ [.mk l.head (l.size + c.size) none] ++ back) avail := by
  have wfC : HeapWf heap live ((front ++ [l]) ++ [c] ++ back) avail := by simpa using wf
  have wfL : HeapWf heap live (front ++ [l] ++ (c :: back)) avail := by simpa using wf
  have okC := wfC.ok c (by simp)
  have okL := wfL.ok l (by simp)
  have room := wfC.room c (by simp)
  have roomL := wfL.room l (by simp)
  have both : Tiles l.head (l.head + (l.size + c.size)) [l, c] := by
    simp only [Tiles, meets, true_and]
    omega
  have small : l.size + c.size ≤ ksl := by have := wf.size_le both (by simp); omega
  have words := okL.words
  have footL : l.foot = c.head - headerSize := by unfold Chunk.foot; omega
  rw [show l.tag = tagFree by simp [Chunk.tag, unused], footL] at words
  have footNew : (⟨l.head, l.size + c.size, none⟩ : Chunk).foot = c.foot := by
    unfold Chunk.foot
    simp only
    omega
  obtain ⟨mem', freed, block, same⟩ := Kheap.freeLeft_words meets okC.foot_add room roomL small
    okC.size_eq words
  have availFree : avail.Perm
      ((front ++ [Chunk.mk l.head (l.size + c.size) none] ++ back).filterMap Chunk.freeHead) := by
    simpa [List.filterMap_cons, Chunk.freeHead, unused, used] using wf.availFree
  have serves : (live.filter fun request => request.1 ≠ c.head + headerSize).Perm
      ((front ++ [Chunk.mk l.head (l.size + c.size) none] ++ back).filterMap Chunk.request) := by
    simpa [List.filterMap_cons, Chunk.request, unused] using wfC.serves_free used
  rw [freed]
  refine wf.edit_one ?_ ⟨Nat.dvd_add okL.aligned okC.aligned, ?_, footNew.symm ▸ block⟩
    (fun w w1 w2 w3 _ => same w w1 (footNew ▸ w2) (footNew ▸ w3))
    (fun d member => .inl ((wfL.beside_free unused).1 d member))
    (fun r member => .inr (right r member)) ?_ availFree wf.kpav serves
  · intro lo hi tiled
    simp only [Tiles] at *
    omega
  · simp only [Option.getD_none]
    omega
  · -- Members are the left block itself or lie outside both blocks.
    have place : ∀ p ∈ avail, p = l.head ∨ OffBlock p l.head (l.size + c.size) := by
      intro p member
      have named := availFree.mem_iff.mp member
      simp only [List.filterMap_append, List.mem_append] at named
      rcases named with (inFront | same) | inBack
      · exact .inr (wf.off_avail both (by simp) (by simp [inFront]))
      · simp [Chunk.freeHead] at same
        exact .inl same
      · exact .inr (wf.off_avail both (by simp) (by simp [inBack]))
    refine wf.linked.imp fun u inU v inV link => ?_
    have placeU := place u inU
    have placeV := place v inV
    have footC := okC.foot_add
    simp only [OffBlock, headerSize] at *
    refine ⟨(same _ ?_ ?_ ?_).trans link.1, (same _ ?_ ?_ ?_).trans link.2⟩ <;> omega

/-- Freeing a block between two free ones. -/
theorem freeBoth {l c r : Chunk} {size : Nat}
    (wf : HeapWf heap live (front ++ [l, c, r] ++ back) avail)
    (meetsL : c.head = l.head + l.size) (meetsR : r.head = c.head + c.size)
    (used : c.used = some size) (unusedL : l.used = none) (unusedR : r.used = none)
    {rest : List Nat} (linked : Ring (FreeLink heap.mem) (r.head :: rest))
    (others : rest.Perm ((front ++ [l, c] ++ back).filterMap Chunk.freeHead))
    (members : (r.head :: rest).Perm avail) :
    ∃ rest', HeapWf (heap.freeBoth (c.head - headerSize) r.head c.size)
      (live.filter fun request => request.1 ≠ c.head + headerSize)
      (front ++ [.mk l.head (l.size + c.size + r.size) none] ++ back) rest' := by
  have wfC : HeapWf heap live ((front ++ [l]) ++ [c] ++ (r :: back)) avail := by simpa using wf
  have wfL : HeapWf heap live (front ++ [l] ++ (c :: r :: back)) avail := by simpa using wf
  have wfR : HeapWf heap live ((front ++ [l, c]) ++ [r] ++ back) avail := by simpa using wf
  have wfCR : HeapWf heap live ((front ++ [l]) ++ [c, r] ++ back) avail := by simpa using wf
  have okC := wfC.ok c (by simp)
  have okL := wfL.ok l (by simp)
  have okR := wfR.ok r (by simp)
  have room := wfC.room c (by simp)
  have roomL := wfL.room l (by simp)
  have roomR := wfR.room r (by simp)
  have all : Tiles l.head (l.head + (l.size + c.size + r.size)) [l, c, r] := by
    simp only [Tiles, meetsL, meetsR, true_and]
    omega
  have both : Tiles c.head (c.head + (c.size + r.size)) [c, r] := by
    simp only [Tiles, meetsR, true_and]
    omega
  have small : l.size + c.size + r.size ≤ ksl := by have := wf.size_le all (by simp); omega
  have foot : r.foot + headerSize = c.head + c.size + r.size := by rw [okR.foot_add, meetsR]
  have wordsL := okL.words
  have footL : l.foot = c.head - headerSize := by unfold Chunk.foot; omega
  rw [show l.tag = tagFree by simp [Chunk.tag, unusedL], footL] at wordsL
  have wordsR := okR.words
  rw [show r.tag = tagFree by simp [Chunk.tag, unusedR], meetsR] at wordsR
  have footNew : (⟨l.head, l.size + c.size + r.size, none⟩ : Chunk).foot = r.foot := by
    unfold Chunk.foot at *
    simp only
    omega
  have nodup : (r.head :: rest).Nodup := members.nodup_iff.mpr wf.nodup
  have availFree : rest.Perm
      ((front ++ [Chunk.mk l.head (l.size + c.size + r.size) none] ++ back).filterMap
        Chunk.freeHead) := by
    simpa [List.filterMap_cons, Chunk.freeHead, unusedL, used] using others
  have serves : (live.filter fun request => request.1 ≠ c.head + headerSize).Perm
      ((front ++ [Chunk.mk l.head (l.size + c.size + r.size) none] ++ back).filterMap
        Chunk.request) := by
    simpa [List.filterMap_cons, Chunk.request, unusedL, unusedR] using wfC.serves_free used
  have inAvail : ∀ p ∈ rest, p ∈ avail := fun p member =>
    members.mem_iff.mp (List.mem_cons_of_mem _ member)
  have inL : l.head ∈ rest := by
    refine availFree.mem_iff.mpr ?_
    simp [Chunk.freeHead]
  have off : ∀ p ∈ rest, OffBlock p c.head (c.size + r.size) := fun p member => by
    refine wfCR.off_avail both (by simp) ?_
    have named := others.mem_iff.mp member
    simpa [List.filterMap_cons, Chunk.freeHead, used] using named
  rw [meetsR] at linked members ⊢
  cases rest with
  | nil => simp at inL
  | cons a path =>
    obtain ⟨t, tail⟩ : ∃ t, (a :: path).getLast (by simp) = t := ⟨_, rfl⟩
    have inT : t ∈ a :: path := tail ▸ List.getLast_mem _
    obtain ⟨mem', freed, block, skip, same⟩ := Kheap.freeBoth_words meetsL foot room roomL roomR
      small wordsL wordsR linked.link_first.1
      (linked.link_last (t := t) (by simpa using tail)).2 (off a (by simp)) (off t inT)
      (wf.heads_apart (inAvail a (by simp)) (inAvail _ inL))
      (wf.heads_apart (inAvail t inT) (inAvail _ inL))
      (wf.heads_apart (inAvail a (by simp)) (inAvail t inT))
    rw [freed]
    -- The right block leaves the list, which then starts at the left one.
    have shorter : Ring (FreeLink mem') (a :: path) := by
      refine linked.delete (List.nodup_cons.mp nodup).2 tail skip
        fun u inU v inV notTail notHead link => ?_
      have offU := off u inU
      have offV := off v inV
      have apartU := wf.heads_apart (inAvail u inU) (inAvail a (by simp))
      have apartV := wf.heads_apart (inAvail v inV) (inAvail t inT)
      have apartUL := wf.heads_apart (inAvail u inU) (inAvail _ inL)
      have apartVL := wf.heads_apart (inAvail v inV) (inAvail _ inL)
      simp only [OffBlock, HeadsApart, headerSize] at *
      refine ⟨(same _ ?_ ?_ ?_ ?_ ?_).trans link.1, (same _ ?_ ?_ ?_ ?_ ?_).trans link.2⟩ <;> omega
    obtain ⟨xs, ys, split⟩ := List.append_of_mem inL
    rw [split] at shorter availFree
    have turned : (l.head :: ys ++ xs).Perm (xs ++ l.head :: ys) := List.perm_append_comm
    refine ⟨l.head :: ys ++ xs, wf.edit_one ?_ ⟨?_, ?_, footNew.symm ▸ block⟩ ?_
      (fun d member => .inl ((wfL.beside_free unusedL).1 d member))
      (fun d member => .inr ((wfR.beside_free unusedR).2 d member))
      (ring_rotate.mp shorter) (turned.trans availFree) rfl serves⟩
    · intro lo hi tiled
      simp only [Tiles] at *
      omega
    · exact Nat.dvd_add (Nat.dvd_add okL.aligned okC.aligned) okR.aligned
    · simp only [Option.getD_none]
      omega
    · intro w w1 w2 w3 others
      have inside : ∀ p ∈ a :: path, p ∈ l.head :: ys ++ xs := fun p member =>
        turned.mem_iff.mpr (split ▸ member)
      exact same w w1 (footNew ▸ w2) (footNew ▸ w3) (others t (inside t inT)).2
        (others a (inside a (by simp))).1

/-- Every head is aligned. -/
theorem aligned (wf : HeapWf heap live chunks avail) : ∀ c ∈ chunks, 8 ∣ c.head := by
  obtain ⟨⟨start, -⟩, tiles, ok⟩ := wf
  clear * - start tiles ok
  generalize heap.kallocbuf + ksl = stop at tiles
  generalize heap.kallocbuf = base at start tiles
  induction chunks generalizing base with
  | nil => simp
  | cons c rest ih =>
    intro d member
    rcases List.mem_cons.mp member with rfl | inRest
    · exact tiles.1.symm ▸ start
    · exact ih (fun e inside => ok e (List.mem_cons_of_mem _ inside)) _
        (Nat.dvd_add start (ok c (by simp)).aligned) tiles.2 d inRest

/-- The tag `kfree_g` reads on the left tells whether there is a free block. -/
theorem left_tag {c : Chunk} (wf : HeapWf heap live (front ++ [c] ++ back) avail) :
    ((if c.head ≤ heap.kallocbuf then tagOccupied else heap.mem.tag (c.head - headerSize)) =
        tagOccupied ∧ ∀ l ∈ front.getLast?, l.used.isSome) ∨
      ((if c.head ≤ heap.kallocbuf then tagOccupied else heap.mem.tag (c.head - headerSize)) =
        tagFree ∧ ∃ front' l, front = front' ++ [l] ∧ c.head = l.head + l.size ∧
          l.used = none) := by
  obtain ⟨mid, tiles, -⟩ := tiles_append.mp wf.tiles
  obtain ⟨start, before, begins, -⟩ := tiles_append.mp tiles
  rcases List.eq_nil_or_concat front with rfl | ⟨front', l, rfl⟩
  · -- There is nothing on the left of the arena.
    have here : c.head ≤ heap.kallocbuf := by rw [begins]; exact before.ge
    exact .inl ⟨if_pos here, by simp⟩
  · rw [List.concat_eq_append] at *
    obtain ⟨place, inner, atL, ends⟩ := tiles_append.mp before
    have okL := wf.ok l (by simp)
    have room := wf.room l (by simp)
    have low := inner.bounds.1
    simp only [Tiles] at ends
    have meets : c.head = l.head + l.size := by omega
    have after : ¬ c.head ≤ heap.kallocbuf := by simp only [headerSize] at room; omega
    have foot : c.head - headerSize = l.foot := by unfold Chunk.foot; omega
    rw [if_neg after, foot, okL.words.2.1]
    cases unused : l.used with
    | none => exact .inr ⟨by simp [Chunk.tag, unused], front', l, rfl, meets, unused⟩
    | some asked => exact .inl ⟨by simp [Chunk.tag, unused], by simp [unused]⟩

/-- The tag `kfree_g` reads on the right tells whether there is a free block. -/
theorem right_tag {c : Chunk} (wf : HeapWf heap live (front ++ [c] ++ back) avail) :
    ((if heap.kallocbuf + ksl ≤ c.foot + headerSize then tagOccupied
        else heap.mem.tag (c.foot + headerSize)) = tagOccupied ∧
        ∀ r ∈ back.head?, r.used.isSome) ∨
      ((if heap.kallocbuf + ksl ≤ c.foot + headerSize then tagOccupied
        else heap.mem.tag (c.foot + headerSize)) = tagFree ∧
        ∃ r back', back = r :: back' ∧ r.head = c.head + c.size ∧ r.used = none) := by
  obtain ⟨mid, tiles, after⟩ := tiles_append.mp wf.tiles
  obtain ⟨start, -, begins, ends⟩ := tiles_append.mp tiles
  have foot := (wf.ok c (by simp)).foot_add
  simp only [Tiles] at ends
  cases back with
  | nil =>
    -- There is nothing on the right of the arena.
    have here : heap.kallocbuf + ksl ≤ c.foot + headerSize := by
      have := after.ge
      omega
    exact .inl ⟨if_pos here, by simp⟩
  | cons r back' =>
    have okR := wf.ok r (by simp)
    have room := wf.room r (by simp)
    have high := after.2.bounds.1
    have meets : r.head = c.head + c.size := by have := after.1; omega
    have before : ¬ heap.kallocbuf + ksl ≤ c.foot + headerSize := by
      simp only [headerSize] at *
      omega
    rw [if_neg before, foot, ← meets, okR.tag_eq]
    cases unused : r.used with
    | none => exact .inr ⟨by simp [Chunk.tag, unused], r, back', rfl, rfl, unused⟩
    | some asked => exact .inl ⟨by simp [Chunk.tag, unused], by simp [unused]⟩

/-- `kfree_g` of a live pointer succeeds and keeps the heap well formed. -/
theorem kfree (wf : HeapWf heap live chunks avail) {p size : Nat} (member : (p, size) ∈ live) :
    ∃ heap' chunks' avail', heap.kfree p = some heap' ∧ heap'.kallocbuf = heap.kallocbuf ∧
      HeapWf heap' (live.filter fun request => request.1 ≠ p) chunks' avail' := by
  obtain ⟨c, inside, asked⟩ := List.mem_filterMap.mp (wf.serves.mem_iff.mp member)
  obtain ⟨_, used, same⟩ := Option.map_eq_some_iff.mp asked
  cases same
  obtain ⟨front, back, split⟩ := List.append_of_mem inside
  rw [← List.singleton_append, ← List.append_assoc] at split
  subst split
  have ok := wf.ok c (by simp)
  have foot := ok.foot_add
  have alignedHead := wf.aligned c (by simp)
  have alignedSize := ok.aligned
  have footAt : heap.mem.footLoc c.head = c.foot := by
    rw [Words.footLoc, ok.size_eq, Chunk.foot]
  have passes : ¬ ((c.head + headerSize) % addrAlign ≠ 0 ∨ c.foot % addrAlign ≠ 0 ∨
      heap.mem.last c.foot ≠ c.head) := by
    have back := ok.words.2.2
    simp only [headerSize, addrAlign] at *
    omega
  unfold Kheap.kfree
  simp only [Nat.add_sub_cancel, footAt, if_neg passes, ok.size_eq]
  rcases wf.left_tag with ⟨leftTag, leftUsed⟩ | ⟨leftTag, front', l, rfl, meetsL, unusedL⟩
  · rcases wf.right_tag with ⟨rightTag, rightUsed⟩ | ⟨rightTag, r, back', rfl, meetsR, unusedR⟩
    · rw [leftTag, rightTag]
      exact ⟨_, _, _, rfl, Kheap.freeAlone_kallocbuf _ _ _, wf.freeAlone used leftUsed rightUsed⟩
    · rw [leftTag, rightTag]
      have wfR : HeapWf heap live ((front ++ [c]) ++ [r] ++ back') avail := by simpa using wf
      obtain ⟨rest, linked, members, others⟩ := wfR.avail_from unusedR
      have wfCR : HeapWf heap live (front ++ [c, r] ++ back') avail := by simpa using wf
      rw [foot, ← meetsR]
      refine ⟨_, _, _, rfl, rfl, wfCR.freeRight meetsR used unusedR leftUsed linked ?_ members⟩
      simpa [List.filterMap_cons, Chunk.freeHead, used] using others
  · rcases wf.right_tag with ⟨rightTag, rightUsed⟩ | ⟨rightTag, r, back', rfl, meetsR, unusedR⟩
    · rw [leftTag, rightTag]
      have wfLC : HeapWf heap live (front' ++ [l, c] ++ back) avail := by simpa using wf
      exact ⟨_, _, _, rfl, rfl, wfLC.freeLeft meetsL used unusedL rightUsed⟩
    · rw [leftTag, rightTag]
      have wfR : HeapWf heap live ((front' ++ [l, c]) ++ [r] ++ back') avail := by simpa using wf
      obtain ⟨rest, linked, members, others⟩ := wfR.avail_from unusedR
      have wfLCR : HeapWf heap live (front' ++ [l, c, r] ++ back') avail := by simpa using wf
      rw [foot, ← meetsR]
      obtain ⟨rest', after⟩ := wfLCR.freeBoth meetsL meetsR used unusedL unusedR linked others
        members
      exact ⟨_, _, _, rfl, rfl, after⟩

/-- A pointer that is not null joins the live requests. -/
theorem grow {p size : Nat} (wf : HeapWf heap ((p, size) :: live) chunks avail) (nonnull : p ≠ 0) :
    HeapWf heap (if p = 0 then live else (p, size) :: live) chunks avail :=
  (if_neg nonnull).symm ▸ wf

/-- `kmalloc_g` answers with null or a new live pointer, and keeps the heap well formed. -/
theorem kmalloc (wf : HeapWf heap live chunks avail) {size : Nat}
    (fits : size + 2 * headerSize ≤ ksl) :
    ∃ p heap' chunks' avail', heap.kmalloc size = some (p, heap') ∧
      heap'.kallocbuf = heap.kallocbuf ∧
      HeapWf heap' (if p = 0 then live else (p, size) :: live) chunks' avail' := by
  have rounded : Kheap.blockFor size = (size + 2 * headerSize + 7) / 8 * 8 := by
    simp only [Kheap.blockFor, roundUp, addrAlign, headerSize, ksl] at *
    rw [u32_of_lt (show size + 2 * 24 < 2 ^ 32 by omega), u32_of_lt (by omega)]
    omega
  have enough : size + 2 * headerSize ≤ Kheap.blockFor size := by rw [rounded]; omega
  have aligned : 8 ∣ Kheap.blockFor size := by rw [rounded]; omega
  obtain ⟨h, found, place⟩ := wf.firstFit (Kheap.blockFor size)
  unfold Kheap.kmalloc
  simp only [found, Option.bind_eq_bind, Option.bind_some]
  split
  · exact ⟨0, heap, chunks, avail, rfl, rfl, by simpa using wf⟩
  · rename_i suits
    obtain ⟨c, inside, unused, rfl⟩ := wf.avail_chunk (place.resolve_right fun zero =>
      suits (.inl zero))
    obtain ⟨front, back, split⟩ := List.append_of_mem inside
    rw [← List.singleton_append, ← List.append_assoc] at split
    subst split
    have ok := wf.ok c (by simp)
    have alignedHead := wf.aligned c (by simp)
    have alignedSize := ok.aligned
    obtain ⟨rest, linked, members, others⟩ := wf.avail_from unused
    rw [ok.size_eq, not_or, not_lt] at suits
    have footAt : heap.mem.footLoc c.head = c.foot := by
      rw [Words.footLoc, ok.size_eq, Chunk.foot]
    simp only [footAt, ok.size_eq, u32Sub_of_le suits.2]
    split
    · have passes : ¬ (c.head + headerSize) % addrAlign ≠ 0 := by
        simp only [headerSize, addrAlign]
        omega
      rw [if_neg passes]
      have after := wf.takeWhole unused (enough.trans suits.2) linked others members
      exact ⟨_, _, _, _, rfl, Kheap.takeWhole_kallocbuf _ _ _, after.grow (by simp [headerSize])⟩
    · rename_i remains
      obtain ⟨heap', taken, after⟩ := wf.takeLast unused aligned enough
        (by simp only [eu, headerSize] at *; omega) linked others members
      have passes : ¬ (c.head + (c.size - Kheap.blockFor size) + headerSize) % addrAlign ≠ 0 := by
        simp only [headerSize, addrAlign]
        omega
      rw [taken]
      simp only [if_neg passes]
      exact ⟨_, heap', _, _, rfl, (congrArg (·.2.kallocbuf) taken).symm, after.grow (by simp [headerSize])⟩

/-- A store to a live area changes no block's own words and no link. -/
theorem store (wf : HeapWf heap live chunks avail) {addr value : Nat} {request : Nat × Nat}
    (member : request ∈ live) (aligned : addr % 8 = 0) (low : request.1 ≤ addr)
    (high : addr < request.1 + request.2) :
    HeapWf { heap with mem := heap.mem.put addr value } live chunks avail := by
  obtain ⟨c, inside, asked⟩ := List.mem_filterMap.mp (wf.serves.mem_iff.mp member)
  obtain ⟨size, used, rfl⟩ := Option.map_eq_some_iff.mp asked
  have ok := wf.ok c inside
  have room := ok.room
  have alignedHead := wf.aligned c inside
  have alignedSize := ok.aligned
  rw [used, Option.getD_some] at room
  simp only [headerSize] at *
  -- The address lies strictly between the two tags of its block.
  have between : c.head + 24 ≤ addr ∧ addr + 32 ≤ c.head + c.size := by omega
  refine ⟨wf.base, wf.tiles, fun d inD => (wf.ok d inD).frame fun w word => ?_, wf.merged, ?_,
    wf.availFree, wf.kpav, wf.serves⟩
  · refine Words.put_other _ _ ?_
    have roomD := wf.room d inD
    have apart := wf.tiles.eq_or_apart inside inD
    simp only [Chunk.tagWords, Chunk.foot, headerSize, List.mem_cons, List.not_mem_nil,
      or_false] at *
    rcases apart with rfl | apart <;> omega
  · refine wf.linked.imp fun u inU v inV link => ?_
    have off : ∀ q ∈ avail, addr ≠ q ∧ addr ≠ q + 16 := by
      intro q inQ
      obtain ⟨d, inD, unused, rfl⟩ := wf.avail_chunk inQ
      have roomD := wf.room d inD
      simp only [headerSize] at roomD
      rcases wf.tiles.eq_or_apart inside inD with rfl | apart
      · simp [used] at unused
      · omega
    exact ⟨(Words.put_other _ _ (off u inU).2.symm).trans link.1,
      (Words.put_other _ _ (off v inV).1.symm).trans link.2⟩

end HeapWf

/-! The whole run. -/

/-- What `malloc_init` writes for an arena of any size. -/
theorem firstBlock_words (mem : Words) {k size : Nat} (room : 2 * headerSize ≤ size) :
    ∃ mem', (let mem := (((mem.setNext k k).setSize k size).setTag k tagFree).setLast k k
        (mem.setLast (mem.footLoc k) k).setTag (mem.footLoc k) tagFree) = mem' ∧
      BlockWords mem' k (k + size - headerSize) tagFree size ∧ FreeLink mem' k k := by
  refine ⟨_, rfl, ?_⟩
  simp only [headerSize] at room
  simp (disch := omega) only [BlockWords, FreeLink, Words.footLoc, Words.tag, Words.size,
    Words.last, Words.next, Words.setNext, Words.setLast, Words.setTag, Words.setSize,
    Words.put_same, Words.put_other, word_size, word_tag, tagFree, headerSize, and_self]

/-- `malloc_init` makes one free block. -/
theorem mallocInit_wf {bssEnd : Nat} {mem : Words} {heap : Kheap}
    (built : mallocInit bssEnd mem = some heap) :
    HeapWf heap [] [⟨heap.kallocbuf, ksl, none⟩] [heap.kallocbuf] := by
  have room : 2 * headerSize ≤ ksl := by decide
  have aligned : 8 ∣ ksl := by decide
  simp only [mallocInit] at built
  split at built
  · simp at built
  · have start : 8 ∣ roundUp (bssEnd + 16) 16 ∧ 0 < roundUp (bssEnd + 16) 16 := by
      unfold roundUp
      omega
    obtain ⟨mem', written, block, link⟩ :=
      firstBlock_words mem (k := roundUp (bssEnd + 16) 16) room
    rw [written] at built
    cases built
    exact ⟨start, ⟨rfl, rfl⟩, by simpa using ⟨aligned, by simpa using room, block⟩, by simp,
      ring_singleton.mpr link, by simp [Chunk.freeHead], rfl, by simp [Chunk.request]⟩

/-- Each live request has its own occupied block, with an aligned area of the size asked for. -/
theorem HeapWf.area {heap : Kheap} {live : List (Nat × Nat)} {chunks : List Chunk}
    {avail : List Nat} (wf : HeapWf heap live chunks avail) {p size : Nat}
    (member : (p, size) ∈ live) :
    ∃ c ∈ chunks, c.used = some size ∧ p = c.head + headerSize ∧ 8 ∣ p ∧ p + size ≤ c.foot := by
  obtain ⟨c, inside, asked⟩ := List.mem_filterMap.mp (wf.serves.mem_iff.mp member)
  obtain ⟨_, used, same⟩ := Option.map_eq_some_iff.mp asked
  cases same
  have room := (wf.ok c inside).room
  have head := wf.aligned c inside
  rw [used, Option.getD_some] at room
  simp only [headerSize] at room
  exact ⟨c, inside, used, rfl, by simp only [headerSize]; omega,
    by simp only [Chunk.foot, headerSize]; omega⟩

/-- `kpav` is null exactly when no block is free. -/
theorem HeapWf.kpav_null {heap : Kheap} {live : List (Nat × Nat)} {chunks : List Chunk}
    {avail : List Nat} (wf : HeapWf heap live chunks avail) : heap.kpav = 0 ↔ avail = [] := by
  have start := wf.kpav
  cases avail with
  | nil => simpa using start
  | cons k path =>
    obtain ⟨c, inside, -, rfl⟩ := wf.avail_chunk (List.mem_cons_self (a := k) (l := path))
    have low := (wf.tiles.bounds.2 c inside).1
    have base := wf.base.2
    simp only [List.head?_cons, Option.getD_some, reduceCtorEq, iff_false] at *
    omega

/-- What holds between any two steps of the heap over the arena that starts at `kallocbuf`. -/
def KheapSound (kallocbuf : Nat) (state : KheapRun) : Prop :=
  state.heap.kallocbuf = kallocbuf ∧ ∃ chunks avail, HeapWf state.heap state.live chunks avail

/-- A legal step succeeds and keeps the heap sound. -/
theorem KheapSound.step {kallocbuf : Nat} {state : KheapRun} {event : KheapEvent}
    (sound : KheapSound kallocbuf state) (legal : kheapLegal state event) :
    ∃ out next, kheapStep state event = some (out, next) ∧ KheapSound kallocbuf next := by
  obtain ⟨base, chunks, avail, wf⟩ := sound
  cases event with
  | malloc size =>
    obtain ⟨p, heap', chunks', avail', given, same, after⟩ := wf.kmalloc legal
    exact ⟨p, ⟨heap', _⟩, by rw [kheapStep, given]; rfl, same.trans base, chunks', avail', after⟩
  | free p =>
    obtain ⟨size, member⟩ := legal
    obtain ⟨heap', chunks', avail', taken, same, after⟩ := wf.kfree member
    exact ⟨0, ⟨heap', _⟩, by rw [kheapStep, taken]; rfl, same.trans base, chunks', avail', after⟩
  | store addr value =>
    obtain ⟨aligned, request, member, low, high⟩ := legal
    exact ⟨0, _, rfl, base, chunks, avail, wf.store member aligned low high⟩

/--
Every legal run from `malloc_init` finishes without a panic, and leaves a heap whose blocks tile
the arena, whose free list is a ring of exactly the free blocks, and whose live requests each
have a block of their own.
-/
theorem kheap_safe {bssEnd : Nat} {mem : Words} {heap : Kheap}
    (built : mallocInit bssEnd mem = some heap) (events : List KheapEvent)
    (legal : LegalRun kheapStep kheapLegal ⟨heap, []⟩ events) :
    ∃ outs last chunks avail, run kheapStep ⟨heap, []⟩ events = some (outs, last) ∧
      last.heap.kallocbuf = heap.kallocbuf ∧ HeapWf last.heap last.live chunks avail ∧
      (last.heap.kpav = 0 ↔ avail = []) ∧
      (chunks.Pairwise fun c d => c.head + c.size ≤ d.head) ∧
      ∀ p size, (p, size) ∈ last.live → ∃ c ∈ chunks, c.used = some size ∧
        p = c.head + headerSize ∧ 8 ∣ p ∧ p + size ≤ c.foot := by
  obtain ⟨outs, last, ran, base, chunks, avail, wf⟩ :=
    run_safe (KheapSound heap.kallocbuf) (fun _ _ sound legal => sound.step legal) events
      ⟨heap, []⟩ ⟨rfl, _, _, mallocInit_wf built⟩ legal
  exact ⟨outs, last, chunks, avail, ran, base, wf, wf.kpav_null, wf.tiles.apart,
    fun p size member => wf.area member⟩

/-- A request, a store into it and its release, behind a kernel image that ends at 0x50300000. -/
theorem kheap_safe_request :
    ∃ heap, mallocInit 0xffffffc050300000 (fun _ => 0) = some heap ∧
      ∃ outs last chunks avail, run kheapStep ⟨heap, []⟩
          [.malloc 100, .store 0xffffffc050afff90 7, .free 0xffffffc050afff90] =
            some (outs, last) ∧
        last.heap.kallocbuf = heap.kallocbuf ∧ HeapWf last.heap last.live chunks avail ∧
        (last.heap.kpav = 0 ↔ avail = []) ∧
        (chunks.Pairwise fun c d => c.head + c.size ≤ d.head) ∧
        ∀ p size, (p, size) ∈ last.live → ∃ c ∈ chunks, c.used = some size ∧
          p = c.head + headerSize ∧ 8 ∣ p ∧ p + size ≤ c.foot := by
  -- The request is served from the end of the arena.
  have served : ((mallocInit 0xffffffc050300000 fun _ => 0).bind fun heap =>
      (kheapStep ⟨heap, []⟩ (.malloc 100)).map (·.2.live)) =
        some [(0xffffffc050afff90, 100)] := by
    decide +kernel
  obtain ⟨heap, built, given⟩ := Option.bind_eq_some_iff.mp served
  refine ⟨heap, built, kheap_safe built _ ⟨?_, fun out next stepped => ?_⟩⟩
  · simp [kheapLegal, ksl, headerSize]
  · have live : next.live = [(0xffffffc050afff90, 100)] := by simpa [stepped] using given
    refine ⟨⟨by decide, (0xffffffc050afff90, 100), by simp [live], by decide, by decide⟩,
      fun out' next' stored => ⟨⟨100, ?_⟩, fun _ _ _ => trivial⟩⟩
    have same : next'.live = next.live := by cases stored; rfl
    simp [same, live]

end GlucOS
