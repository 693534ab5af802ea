import GlucOS.Mm.MallocRun

/-! When the kernel heap has no block for a request, and what is left when all are released. -/

namespace GlucOS

namespace HeapWf

variable {heap : Kheap} {live : List (Nat × Nat)} {chunks : List Chunk} {avail : List Nat}

/-- Members of the free list are not null. -/
theorem avail_pos (wf : HeapWf heap live chunks avail) {p : Nat} (member : p ∈ avail) : 0 < p := by
  obtain ⟨c, inside, -, rfl⟩ := wf.avail_chunk member
  have low := (wf.tiles.bounds.2 c inside).1
  have base := wf.base.2
  omega

/-- The first-fit loop misses no block: when it stops at one that is too small, all of them are. -/
theorem firstFit_all (wf : HeapWf heap live chunks avail) (n : Nat) :
    ∃ h, heap.firstFit n ksl heap.kpav = some h ∧
      (h = 0 ∨ heap.mem.size h < n ↔ ∀ q ∈ avail, heap.mem.size q < n) := by
  have start := wf.kpav
  cases avail with
  | nil =>
    refine ⟨0, ?_, by simp⟩
    rw [start]
    simp [ksl, Kheap.firstFit]
  | cons k path =>
    simp only [List.head?_cons, Option.getD_some] at start
    -- The blocks passed so far are too small; the fuel left covers the members ahead.
    have walk : ∀ fuel back front h, k :: path = front ++ h :: back → back.length < fuel →
        (∀ q ∈ front, heap.mem.size q < n) →
        ∃ r, heap.firstFit n fuel h = some r ∧
          (r = 0 ∨ heap.mem.size r < n ↔ ∀ q ∈ k :: path, heap.mem.size q < n) := by
      intro fuel
      induction fuel with
      | zero =>
        intro back front h _ short
        omega
      | succ fuel ih =>
        intro back front h here short small
        have member : h ∈ k :: path := by simp [here]
        have positive := wf.avail_pos member
        rw [Kheap.firstFit]
        by_cases fits : heap.mem.size h < n
        · cases back with
          | nil =>
            -- The last member is followed by `kpav`, and every block was too small.
            have last := wf.linked.link_last (t := h) (by simp [here])
            have stops : ¬ (h ≠ 0 ∧ heap.mem.size h < n ∧ heap.mem.next h ≠ heap.kpav) := by
              intro goOn
              exact goOn.2.2 (last.1.trans start.symm)
            rw [if_neg stops]
            refine ⟨h, rfl, iff_of_true (Or.inr fits) ?_⟩
            intro q inside
            rw [here, List.mem_append, List.mem_singleton] at inside
            rcases inside with before | rfl
            · exact small q before
            · exact fits
          | cons b back =>
            have chain := (ring_iff_path.mp wf.linked).1
            rw [here] at chain
            have next : heap.mem.next h = b :=
              (List.isChain_cons_cons.mp chain.right_of_append).1.1
            have later : b ≠ k := by
              rintro rfl
              have nodup := wf.nodup
              cases front with
              | nil =>
                cases here
                simp at nodup
              | cons f front =>
                rw [here] at nodup
                cases here
                simp at nodup
            have goesOn : h ≠ 0 ∧ heap.mem.size h < n ∧ heap.mem.next h ≠ heap.kpav := by
              refine ⟨by omega, fits, ?_⟩
              rw [next, start]
              exact later
            rw [if_pos goesOn, next]
            apply ih back (front ++ [h]) b (by simp [here]) (by simpa using short)
            intro q inside
            rcases List.mem_append.mp inside with before | same
            · exact small q before
            · rw [List.mem_singleton.mp same]
              exact fits
        · -- This block is large enough.
          have stops : ¬ (h ≠ 0 ∧ heap.mem.size h < n ∧ heap.mem.next h ≠ heap.kpav) :=
            fun goOn => fits goOn.2.1
          rw [if_neg stops]
          refine ⟨h, rfl, iff_of_false ?_ ?_⟩
          · intro either
            rcases either with null | less
            · omega
            · exact fits less
          · intro all
            exact fits (all h member)
    have count : (k :: path).length ≤ ksl := by
      rw [wf.availFree.length_eq]
      apply (List.length_filterMap_le _ _).trans
      exact Nat.le_of_add_le_add_left ((wf.tiles.length_le wf.room).trans_eq rfl)
    obtain ⟨r, found, stops⟩ := walk ksl path [] k rfl count (by simp)
    exact ⟨r, start ▸ found, stops⟩

/-- The sizes on the free list are those of the free blocks. -/
theorem all_small (wf : HeapWf heap live chunks avail) (n : Nat) :
    (∀ q ∈ avail, heap.mem.size q < n) ↔ ∀ c ∈ chunks, c.used = none → c.size < n := by
  constructor
  · intro small c inside unused
    have named : c.freeHead = some c.head := Chunk.freeHead_eq.mpr ⟨unused, rfl⟩
    have member := wf.availFree.mem_iff.mpr (List.mem_filterMap.mpr ⟨c, inside, named⟩)
    have less := small c.head member
    rwa [(wf.ok c inside).size_eq] at less
  · intro small q member
    obtain ⟨c, inside, unused, rfl⟩ := wf.avail_chunk member
    rw [(wf.ok c inside).size_eq]
    exact small c inside unused

/-- `kmalloc_g` answers with null exactly when no free block is large enough. -/
theorem kmalloc_null (wf : HeapWf heap live chunks avail) {size p : Nat} {heap' : Kheap}
    (given : heap.kmalloc size = some (p, heap')) :
    p = 0 ↔ ∀ c ∈ chunks, c.used = none → c.size < Kheap.blockFor size := by
  rw [← wf.all_small]
  obtain ⟨h, found, stops⟩ := wf.firstFit_all (Kheap.blockFor size)
  rw [← stops]
  unfold Kheap.kmalloc at given
  simp only [found, Option.bind_eq_bind, Option.bind_some] at given
  by_cases fails : h = 0 ∨ heap.mem.size h < Kheap.blockFor size
  · rw [if_pos fails] at given
    cases given
    exact iff_of_true rfl fails
  · rw [if_neg fails] at given
    apply iff_of_false _ fails
    generalize (if u32Sub (heap.mem.size h) (Kheap.blockFor size) < eu then
      (h, heap.takeWhole h (heap.mem.footLoc h))
      else heap.takeLast h (heap.mem.footLoc h) (Kheap.blockFor size)) = taken at given
    obtain ⟨block, after⟩ := taken
    dsimp only at given
    by_cases misaligned : (block + headerSize) % addrAlign ≠ 0
    · rw [if_pos misaligned] at given
      cases given
    · -- The address is behind a header.
      rw [if_neg misaligned] at given
      cases given
      simp only [headerSize]
      omega

/-- Blocks that are all free are one block. -/
theorem single_of_free (wf : HeapWf heap [] chunks avail) :
    chunks = [⟨heap.kallocbuf, ksl, none⟩] ∧ avail = [heap.kallocbuf] := by
  have unused : ∀ c ∈ chunks, c.used = none := by
    intro c inside
    cases used : c.used with
    | none => rfl
    | some size =>
      have served : (c.head + headerSize, size) ∈ chunks.filterMap Chunk.request :=
        List.mem_filterMap.mpr ⟨c, inside, by rw [Chunk.request, used]; rfl⟩
      rw [← wf.serves.mem_iff] at served
      cases served
  have tiles := wf.tiles
  have merged := wf.merged
  have list := wf.availFree
  -- Two neighbours would both be free.
  cases chunks with
  | nil =>
    have empty : heap.kallocbuf = heap.kallocbuf + ksl := tiles
    simp only [ksl] at empty
    omega
  | cons c rest =>
    have free := unused c List.mem_cons_self
    cases rest with
    | nil =>
      obtain ⟨head, size⟩ := tiles
      have whole : heap.kallocbuf + c.size = heap.kallocbuf + ksl := size
      have isSize : c.size = ksl := Nat.add_left_cancel whole
      refine ⟨?_, ?_⟩
      · rw [← head, ← isSize, ← free]
      · rw [List.filterMap_cons, Chunk.freeHead_eq.mpr ⟨free, rfl⟩, head] at list
        exact List.perm_singleton.mp list
    | cons d rest =>
      have both := (List.isChain_cons_cons.mp merged).1
      rw [NotBothFree, free,
        unused d (List.mem_cons_of_mem _ List.mem_cons_self)] at both
      simp at both

end HeapWf

/--
After every legal run from `malloc_init`, `kmalloc_g` refuses a request exactly when no free block
has room for it with its two tags; and when nothing is live, the heap is the one block it started
as, linked to itself.
-/
theorem kheap_first_fit {bssEnd : Nat} {mem : Words} {heap : Kheap}
    (built : mallocInit bssEnd mem = some heap) (events : List KheapEvent)
    (legal : LegalRun kheapStep kheapLegal ⟨heap, []⟩ events) :
    ∃ outs last chunks avail, run kheapStep ⟨heap, []⟩ events = some (outs, last) ∧
      HeapWf last.heap last.live chunks avail ∧
      (∀ size, size + 2 * headerSize ≤ ksl → ∃ p heap', last.heap.kmalloc size = some (p, heap') ∧
        (p = 0 ↔ ¬ ∃ c ∈ chunks, c.used = none ∧ roundUp (size + 2 * headerSize) 8 ≤ c.size)) ∧
      (last.live = [] → chunks = [⟨heap.kallocbuf, ksl, none⟩] ∧
        last.heap.kpav = heap.kallocbuf ∧ FreeLink last.heap.mem heap.kallocbuf heap.kallocbuf) := by
  obtain ⟨outs, last, ran, base, chunks, avail, wf⟩ :=
    run_safe (KheapSound heap.kallocbuf) (fun _ _ sound legal => sound.step legal) events
      ⟨heap, []⟩ ⟨rfl, _, _, mallocInit_wf built⟩ legal
  refine ⟨outs, last, chunks, avail, ran, wf, ?_, ?_⟩
  · intro size fits
    obtain ⟨p, heap', -, -, given, -, -⟩ := wf.kmalloc fits
    have rounded : Kheap.blockFor size = roundUp (size + 2 * headerSize) 8 := by
      simp only [ksl, headerSize] at fits
      simp only [Kheap.blockFor, addrAlign, headerSize]
      rw [u32_of_lt (show size + 2 * 24 < 2 ^ 32 by omega), u32_of_lt]
      simp only [roundUp]
      omega
    refine ⟨p, heap', given, ?_⟩
    rw [wf.kmalloc_null given, rounded]
    simp only [not_exists, not_and, not_le]
  · intro nothing
    rw [nothing] at wf
    obtain ⟨one, isAvail⟩ := wf.single_of_free
    rw [base] at one isAvail
    refine ⟨one, ?_, ?_⟩
    · rw [wf.kpav, isAvail]
      rfl
    · have linked := wf.linked
      rw [isAvail, ring_singleton] at linked
      exact linked

/-- A request and its release, behind a kernel image that ends at 0x50300000. -/
theorem kheap_first_fit_release :
    ∃ heap, mallocInit 0xffffffc050300000 (fun _ => 0) = some heap ∧
      ∃ outs last chunks avail,
        run kheapStep ⟨heap, []⟩ [.malloc 100, .free 0xffffffc050afff90] = some (outs, last) ∧
        HeapWf last.heap last.live chunks avail ∧
        (∀ size, size + 2 * headerSize ≤ ksl → ∃ p heap', last.heap.kmalloc size = some (p, heap') ∧
          (p = 0 ↔ ¬ ∃ c ∈ chunks, c.used = none ∧ roundUp (size + 2 * headerSize) 8 ≤ c.size)) ∧
        (last.live = [] → chunks = [⟨heap.kallocbuf, ksl, none⟩] ∧
          last.heap.kpav = heap.kallocbuf ∧
          FreeLink last.heap.mem heap.kallocbuf heap.kallocbuf) := by
  have served : ((mallocInit 0xffffffc050300000 fun _ => 0).bind fun heap =>
      (kheapStep ⟨heap, []⟩ (.malloc 100)).map (·.2.live)) =
        some [(0xffffffc050afff90, 100)] := by
    decide +kernel
  obtain ⟨heap, built, given⟩ := Option.bind_eq_some_iff.mp served
  refine ⟨heap, built, kheap_first_fit built _ ⟨?_, fun out next stepped => ?_⟩⟩
  · simp [kheapLegal, ksl, headerSize]
  · have live : next.live = [(0xffffffc050afff90, 100)] := by simpa [stepped] using given
    refine ⟨⟨100, ?_⟩, fun _ _ _ => trivial⟩
    simp [live]

end GlucOS
