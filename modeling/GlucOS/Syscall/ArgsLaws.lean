import GlucOS.Syscall.Args

/-! The arguments that `do_exec` passes arrive, unless the page they go to is evicted meanwhile. -/

namespace GlucOS

variable {evict : Nat → Bool} {state : ExecState} {va : Nat}

/-! ## Reads and writes -/

namespace ExecState

/-- Reads count, and leave the page's bytes alone. -/
theorem readMany_same (state : ExecState) (count : Nat) :
    (state.readMany evict count).byte = state.byte ∧
      (state.readMany evict count).reads = state.reads + count := by
  -- The induction is on the reads, each of which counts once.
  induction count generalizing state with
  | zero => exact ⟨rfl, rfl⟩
  | succ count ih =>
    obtain ⟨byte, reads⟩ := ih (state.read evict)
    unfold readMany
    refine ⟨byte, ?_⟩
    rw [reads]
    simp only [read]
    omega

/-- After reads the page is present when it was and none of them evicts it. -/
theorem readMany_present (evict : Nat → Bool) (state : ExecState) (count : Nat) :
    (state.readMany evict count).present = true ↔
      state.present = true ∧ ∀ k < count, evict (state.reads + k) = false := by
  -- The reads are numbered from the one at hand, so the induction shifts them by one.
  induction count generalizing state with
  | zero => simp [readMany]
  | succ count ih =>
    unfold readMany
    rw [ih]
    simp only [read, Bool.and_eq_true, Bool.not_eq_true']
    constructor
    · intro parts
      obtain ⟨⟨present, first⟩, others⟩ := parts
      refine ⟨present, fun k small => ?_⟩
      -- The first read is the one at hand, and the others come later.
      cases k with
      | zero => exact first
      | succ k =>
        have := others k (by omega)
        rwa [show state.reads + 1 + k = state.reads + (k + 1) by omega] at this
    · intro parts
      obtain ⟨present, all⟩ := parts
      refine ⟨⟨present, by simpa using all 0 (by omega)⟩, fun k small => ?_⟩
      have := all (k + 1) (by omega)
      rwa [show state.reads + (k + 1) = state.reads + 1 + k by omega] at this

/-- A write is no read, and moves no page. -/
theorem write_same (state : ExecState) (va : Nat) (byte : UInt8) :
    (state.write va byte).present = state.present ∧ (state.write va byte).reads = state.reads := by
  unfold write
  split
  · exact ⟨rfl, rfl⟩
  · exact ⟨rfl, rfl⟩

/-- A write changes no other byte. -/
theorem write_other {other : Nat} (byte : UInt8) (apart : other ≠ va) :
    (state.write va byte).byte other = state.byte other := by
  unfold write
  split
  · exact Function.update_of_ne apart _ _
  · rfl

/-- A write to the page while it is there. -/
theorem write_here (present : state.present = true) (byte : UInt8) :
    (state.write va byte).byte va = byte := by
  unfold write
  rw [if_pos present]
  exact Function.update_self _ _ _

/-- Writes are no reads, and move no page. -/
theorem writeBytes_same (state : ExecState) (va : Nat) (bytes : List UInt8) :
    (state.writeBytes va bytes).present = state.present ∧
      (state.writeBytes va bytes).reads = state.reads := by
  induction bytes generalizing state va with
  | nil => exact ⟨rfl, rfl⟩
  | cons byte bytes ih =>
    obtain ⟨present, reads⟩ := ih (state.write va byte) (va + 1)
    obtain ⟨present', reads'⟩ := state.write_same va byte
    exact ⟨present.trans present', reads.trans reads'⟩

/-- Writes change no byte outside their range. -/
theorem writeBytes_other {other : Nat} {bytes : List UInt8}
    (apart : other < va ∨ va + bytes.length ≤ other) :
    (state.writeBytes va bytes).byte other = state.byte other := by
  -- A byte outside the range is outside every later part of it.
  induction bytes generalizing state va with
  | nil => rfl
  | cons byte bytes ih =>
    simp only [List.length_cons] at apart
    unfold writeBytes
    rw [ih (by omega), write_other byte (by omega)]

/-- Writes to the page while it is there. -/
theorem writeBytes_here (present : state.present = true) {bytes : List UInt8} {k : Nat}
    {byte : UInt8} (is : bytes[k]? = some byte) :
    (state.writeBytes va bytes).byte (va + k) = byte := by
  induction bytes generalizing state va k with
  | nil => simp at is
  | cons first bytes ih =>
    unfold writeBytes
    -- The first byte is written once, and the others belong to the rest.
    cases k with
    | zero =>
      simp only [List.getElem?_cons_zero, Option.some.injEq] at is
      rw [writeBytes_other (by omega), Nat.add_zero, write_here present, is]
    | succ k =>
      simp only [List.getElem?_cons_succ] at is
      rw [show va + (k + 1) = va + 1 + k by omega]
      exact ih ((state.write_same va first).1.trans present) is

/-- A string is copied with one read more than it has bytes. -/
theorem strncpy_reads (state : ExecState) (va : Nat) (bytes : List UInt8) :
    (state.strncpy evict va bytes).reads = state.reads + (bytes.length + 1) := by
  induction bytes generalizing state va with
  | nil => rfl
  | cons byte bytes ih =>
    unfold strncpy
    rw [ih, (write_same _ _ _).2]
    simp only [read, List.length_cons]
    omega

/-- After the copy the page is present when it was and no read evicts it. -/
theorem strncpy_present (state : ExecState) (va : Nat) (bytes : List UInt8) :
    (state.strncpy evict va bytes).present = true ↔
      state.present = true ∧ ∀ k < bytes.length + 1, evict (state.reads + k) = false := by
  induction bytes generalizing state va with
  | nil =>
    have one := readMany_present evict state 1
    exact one
  | cons byte bytes ih =>
    unfold strncpy
    rw [ih, (write_same _ _ _).1, (write_same _ _ _).2]
    -- The reads of the rest follow the one of the first byte.
    have all := readMany_present evict state (bytes.length + 1 + 1)
    have tail := readMany_present evict (state.read evict) (bytes.length + 1)
    exact tail.symm.trans all

/-- The copy changes no byte outside its range. -/
theorem strncpy_other {other : Nat} {bytes : List UInt8}
    (apart : other < va ∨ va + bytes.length ≤ other) :
    (state.strncpy evict va bytes).byte other = state.byte other := by
  induction bytes generalizing state va with
  | nil => rfl
  | cons byte bytes ih =>
    simp only [List.length_cons] at apart
    unfold strncpy
    rw [ih (by omega), write_other byte (by omega)]
    rfl

/-- The copy is complete when the page is there to its end. -/
theorem strncpy_here {bytes : List UInt8}
    (present : (state.strncpy evict va bytes).present = true) {k : Nat} {byte : UInt8}
    (is : bytes[k]? = some byte) : (state.strncpy evict va bytes).byte (va + k) = byte := by
  induction bytes generalizing state va k with
  | nil => simp at is
  | cons first bytes ih =>
    unfold strncpy at present ⊢
    -- The first byte is not touched by the rest of the copy.
    cases k with
    | zero =>
      simp only [List.getElem?_cons_zero, Option.some.injEq] at is
      -- The page is there at the end, so it was there at this write.
      have now := ((strncpy_present _ _ _).mp present).1
      rw [(write_same _ _ _).1] at now
      rw [strncpy_other (by omega), Nat.add_zero, write_here now, is]
    | succ k =>
      simp only [List.getElem?_cons_succ] at is
      rw [show va + (k + 1) = va + 1 + k by omega]
      exact ih present is

end ExecState

/-! ## Pointers -/

/-- A pointer depends on its own eight bytes. -/
theorem pointerAt_congr {byte byte' : Nat → UInt8}
    (same : ∀ k < 8, byte' (va + k) = byte (va + k)) : pointerAt byte' va = pointerAt byte va := by
  unfold pointerAt
  congr 1
  -- The bytes are compared one by one.
  apply List.map_congr_left
  intro k member
  exact same k (List.mem_range.mp member)

/-- A pointer that was written to the page is found there. -/
theorem pointerAt_writePtr (va : Nat) (present : state.present = true) {value : Nat}
    (word : value < 2 ^ 64) :
    pointerAt (state.writePtr va value).byte va = value := by
  -- Each byte of the pointer is found where it was written.
  have bytes : ∀ k < 8, (state.writePtr va value).byte (va + k) =
      UInt8.ofNat (value / 256 ^ k) := by
    intro k small
    unfold ExecState.writePtr
    apply ExecState.writeBytes_here present
    rw [List.getElem?_map, List.getElem?_range small]
    rfl
  unfold pointerAt
  rw [show ((List.range 8).map fun k => (state.writePtr va value).byte (va + k)) =
      (List.range 8).map fun k => UInt8.ofNat (value / 256 ^ k) from
    List.map_congr_left fun k member => bytes k (List.mem_range.mp member)]
  simp only [littleEndian, List.range_succ, List.range_zero, List.nil_append, List.map_cons,
    List.map_nil, List.cons_append, Nat.ofDigits_cons, Nat.ofDigits_nil, UInt8.toNat_ofNat']
  omega

/-! ## One argument -/

/-- The bytes of an argument that are kept. -/
def keptBytes (arg : List UInt8) : Nat := min arg.length argLen

/-- The page once an argument was copied below a stack pointer, from wherever it is then. -/
def copyOne (evict : Nat → Bool) (argvBase i sp : Nat) (arg : List UInt8) (state : ExecState) :
    ExecState :=
  let state := (state.readMany evict (1 + (arg.length + 1))).writePtr (argvBase + 8 * i)
    (sp - (keptBytes arg + 1))
  ((state.read evict).strncpy evict (sp - (keptBytes arg + 1)) (arg.take argLen)).write
    (sp - (keptBytes arg + 1) + keptBytes arg) 0

/-- The loop copies an argument when the page is there after the argument was measured. -/
theorem copyArgv_cons (argvBase i sp : Nat) (arg : List UInt8) (rest : List (List UInt8))
    (state : ExecState) : copyArgv evict argvBase i sp (arg :: rest) state =
      if (state.readMany evict (1 + (arg.length + 1))).present = false then none
      else copyArgv evict argvBase (i + 1) (sp - (keptBytes arg + 1)) rest
        (copyOne evict argvBase i sp arg state) := by
  -- Writing the pointer does not move the page.
  have same := ExecState.writeBytes_same (state.readMany evict (1 + (arg.length + 1)))
    (argvBase + 8 * i)
  rw [copyArgv]
  simp only [ExecState.writePtr, (same _).1]
  rfl

section One

variable {argvBase i sp : Nat} {arg : List UInt8}

/-- The reads that measure an argument. -/
def measureReads (arg : List UInt8) : Nat := arg.length + 2

/-- The reads that copy an argument. -/
def copyReads (arg : List UInt8) : Nat := keptBytes arg + 2

/-- How many bytes are copied. -/
theorem length_taken (arg : List UInt8) : (arg.take argLen).length = keptBytes arg := by
  rw [List.length_take, keptBytes, Nat.min_comm]

/-- An argument takes so many reads. -/
theorem copyOne_reads : (copyOne evict argvBase i sp arg state).reads =
    state.reads + measureReads arg + copyReads arg := by
  unfold copyOne measureReads copyReads
  simp only
  -- One read is for the pointer of the argument, the others for its bytes.
  rw [(ExecState.write_same _ _ _).2, ExecState.strncpy_reads, length_taken]
  simp only [ExecState.read, ExecState.writePtr]
  rw [(ExecState.writeBytes_same _ _ _).2, (ExecState.readMany_same _ _).2]
  omega

/-- The page is still there after an argument when no read evicts it. -/
theorem copyOne_present : (copyOne evict argvBase i sp arg state).present = true ↔
    (state.readMany evict (1 + (arg.length + 1))).present = true ∧
      ∀ k < copyReads arg, evict (state.reads + measureReads arg + k) = false := by
  unfold copyOne
  simp only
  rw [(ExecState.write_same _ _ _).1, ExecState.strncpy_present, length_taken]
  generalize measured : state.readMany evict (1 + (arg.length + 1)) = here
  have reads : here.reads = state.reads + measureReads arg := by
    rw [← measured, (ExecState.readMany_same _ _).2]
    unfold measureReads
    omega
  have pointer := ExecState.writeBytes_same here (argvBase + 8 * i)
    ((List.range 8).map fun k => UInt8.ofNat ((sp - (keptBytes arg + 1)) / 256 ^ k))
  -- The read of the pointer and those of the string follow each other.
  have all := ExecState.readMany_present evict (here.writePtr (argvBase + 8 * i)
    (sp - (keptBytes arg + 1))) (keptBytes arg + 1 + 1)
  have tail := ExecState.readMany_present evict ((here.writePtr (argvBase + 8 * i)
    (sp - (keptBytes arg + 1))).read evict) (keptBytes arg + 1)
  rw [← reads, ← pointer.1, ← pointer.2]
  exact tail.symm.trans all

/-- An argument changes its pointer and the bytes below the stack pointer only. -/
theorem copyOne_other (room : keptBytes arg + 1 ≤ sp) (low : sp ≤ argvBase + 8 * i) {other : Nat}
    (apart : other < sp - (keptBytes arg + 1) ∨ sp ≤ other ∧ other < argvBase + 8 * i ∨
      argvBase + 8 * i + 8 ≤ other) :
    (copyOne evict argvBase i sp arg state).byte other = state.byte other := by
  -- The three writes go to the copy, to the byte behind it, and to the pointer.
  unfold copyOne
  simp only
  rw [ExecState.write_other _ (by omega), ExecState.strncpy_other (by rw [length_taken]; omega)]
  simp only [ExecState.read, ExecState.writePtr]
  rw [ExecState.writeBytes_other (by simp only [List.length_map, List.length_range]; omega),
    (ExecState.readMany_same _ _).1]

/-- The pointer of an argument leads to where its copy goes, if the page was there to write it. -/
theorem copyOne_pointer (measured : (state.readMany evict (1 + (arg.length + 1))).present = true)
    (room : keptBytes arg + 1 ≤ sp) (low : sp ≤ argvBase + 8 * i) (word : sp < 2 ^ 64) :
    pointerAt (copyOne evict argvBase i sp arg state).byte (argvBase + 8 * i) =
      sp - (keptBytes arg + 1) := by
  rw [← pointerAt_writePtr (argvBase + 8 * i) measured
    (show sp - (keptBytes arg + 1) < 2 ^ 64 by omega)]
  -- The copy lies below the pointers and leaves this one alone.
  apply pointerAt_congr
  intro k small
  unfold copyOne
  simp only
  rw [ExecState.write_other _ (by omega), ExecState.strncpy_other (by rw [length_taken]; omega)]
  rfl

/-- The copy of an argument is complete when the page is there to its end. -/
theorem copyOne_here (present : (copyOne evict argvBase i sp arg state).present = true) :
    (∀ k byte, (arg.take argLen)[k]? = some byte →
      (copyOne evict argvBase i sp arg state).byte (sp - (keptBytes arg + 1) + k) = byte) ∧
        (copyOne evict argvBase i sp arg state).byte (sp - (keptBytes arg + 1) + keptBytes arg) =
          0 := by
  unfold copyOne at present ⊢
  simp only at present ⊢
  rw [(ExecState.write_same _ _ _).1] at present
  -- Every byte was written while the page was there, since it still is.
  refine ⟨?_, ExecState.write_here present 0⟩
  intro k byte is
  obtain ⟨small, -⟩ := List.getElem?_eq_some_iff.mp is
  rw [length_taken] at small
  rw [ExecState.write_other _ (by omega)]
  exact ExecState.strncpy_here present is

/-- An eviction while an argument is copied leaves the byte behind the copy as it was. -/
theorem copyOne_cut (absent : (copyOne evict argvBase i sp arg state).present = false)
    (room : keptBytes arg + 1 ≤ sp) (low : sp ≤ argvBase + 8 * i) :
    (copyOne evict argvBase i sp arg state).byte (sp - (keptBytes arg + 1) + keptBytes arg) =
      state.byte (sp - (keptBytes arg + 1) + keptBytes arg) := by
  unfold copyOne at absent ⊢
  simp only at absent ⊢
  rw [(ExecState.write_same _ _ _).1] at absent
  -- Without the page the last write goes elsewhere.
  rw [ExecState.write, if_neg (by simp [absent]),
    ExecState.strncpy_other (by rw [length_taken]; omega)]
  simp only [ExecState.read, ExecState.writePtr]
  rw [ExecState.writeBytes_other (by simp only [List.length_map, List.length_range]; omega),
    (ExecState.readMany_same _ _).1]

end One

/-! ## All arguments -/

/-- What copying arguments from number `i` on below a stack pointer comes to. -/
structure CopiedArgs (args : List (List UInt8)) (argvBase i sp sp' : Nat)
    (byte byte' : Nat → UInt8) : Prop where
  /-- The stack pointer goes down. -/
  down : sp' ≤ sp
  /-- It does not go down far. -/
  near : sp ≤ sp' + (argLen + 1) * args.length
  /-- Bytes that belong to nothing copied here are as before. -/
  same : ∀ other, other < sp' ∨ sp ≤ other ∧ other < argvBase + 8 * i ∨
    argvBase + 8 * (i + args.length) ≤ other → byte' other = byte other
  /-- Every pointer leads below the stack pointer. -/
  inside : ∀ j arg, args[j]? = some arg → sp' ≤ pointerAt byte' (argvBase + 8 * (i + j)) ∧
    pointerAt byte' (argvBase + 8 * (i + j)) + keptBytes arg < sp
  /-- There the argument is. -/
  here : ∀ j arg, args[j]? = some arg → ∀ k b, (arg.take argLen)[k]? = some b →
    byte' (pointerAt byte' (argvBase + 8 * (i + j)) + k) = b
  /-- It ends with a null byte. -/
  ended : ∀ j arg, args[j]? = some arg →
    byte' (pointerAt byte' (argvBase + 8 * (i + j)) + keptBytes arg) = 0
  /-- Later ones lie below. -/
  apart : ∀ j j' arg, j < j' → args[j']? = some arg →
    pointerAt byte' (argvBase + 8 * (i + j')) + keptBytes arg <
      pointerAt byte' (argvBase + 8 * (i + j))

section Loop

variable {argvBase i sp sp' : Nat} {arg : List UInt8} {args rest : List (List UInt8)}
  {state' : ExecState}

/-- No more bytes are kept than fit. -/
theorem keptBytes_le (arg : List UInt8) : keptBytes arg ≤ argLen := Nat.min_le_right _ _

/-- The reads that measure an argument follow each other. -/
theorem measured_iff : (state.readMany evict (1 + (arg.length + 1))).present = true ↔
    state.present = true ∧ ∀ k < measureReads arg, evict (state.reads + k) = false := by
  rw [ExecState.readMany_present evict, show 1 + (arg.length + 1) = measureReads arg by
    unfold measureReads; omega]

/-- Without the page no argument is copied. -/
theorem copyArgv_absent (absent : state.present = false) (some : args ≠ []) :
    copyArgv evict argvBase i sp args state = none := by
  cases args with
  | nil => exact absurd rfl some
  | cons arg rest =>
    rw [copyArgv_cons, if_pos]
    have iff : (state.readMany evict (1 + (arg.length + 1))).present = true ↔ _ := measured_iff
    rw [absent] at iff
    simpa using iff

/-- One more argument, before those copied behind it. -/
theorem CopiedArgs.cons {byte mid byte' : Nat → UInt8}
    (copied : CopiedArgs rest argvBase (i + 1) (sp - (keptBytes arg + 1)) sp' mid byte')
    (room : keptBytes arg + 1 ≤ sp) (low : sp ≤ argvBase)
    (pointer : pointerAt mid (argvBase + 8 * i) = sp - (keptBytes arg + 1))
    (here : ∀ k b, (arg.take argLen)[k]? = some b → mid (sp - (keptBytes arg + 1) + k) = b)
    (ended : mid (sp - (keptBytes arg + 1) + keptBytes arg) = 0)
    (other : ∀ other, other < sp - (keptBytes arg + 1) ∨ sp ≤ other ∧ other < argvBase + 8 * i ∨
      argvBase + 8 * i + 8 ≤ other → mid other = byte other) :
    CopiedArgs (arg :: rest) argvBase i sp sp' byte byte' := by
  have small := keptBytes_le arg
  have down := copied.down
  have near := copied.near
  -- The pointer and the copy of the first argument are not touched any more.
  have pointer' : pointerAt byte' (argvBase + 8 * i) = sp - (keptBytes arg + 1) := by
    rw [← pointer]
    apply pointerAt_congr
    intro k inside
    exact copied.same _ (by omega)
  have shift : ∀ j, argvBase + 8 * (i + (j + 1)) = argvBase + 8 * (i + 1 + j) := by
    intro j
    omega
  refine ⟨by omega, ?_, ?_, ?_, ?_, ?_, ?_⟩
  · simp only [List.length_cons]
    rw [Nat.mul_add]
    omega
  · intro at_ apart
    simp only [List.length_cons] at apart
    rw [copied.same at_ (by omega), other at_ (by omega)]
  · intro j first is
    cases j with
    | zero =>
      simp only [List.getElem?_cons_zero, Option.some.injEq] at is
      rw [Nat.add_zero, pointer', ← is]
      omega
    | succ j =>
      have := copied.inside j first is
      rw [shift]
      omega
  · intro j first is k b byteIs
    cases j with
    | zero =>
      simp only [List.getElem?_cons_zero, Option.some.injEq] at is
      subst is
      obtain ⟨short, -⟩ := List.getElem?_eq_some_iff.mp byteIs
      rw [length_taken] at short
      rw [Nat.add_zero, pointer', copied.same _ (by omega)]
      exact here k b byteIs
    | succ j =>
      rw [shift]
      exact copied.here j first is k b byteIs
  · intro j first is
    cases j with
    | zero =>
      simp only [List.getElem?_cons_zero, Option.some.injEq] at is
      subst is
      rw [Nat.add_zero, pointer', copied.same _ (by omega)]
      exact ended
    | succ j =>
      rw [shift]
      exact copied.ended j first is
  · intro j j' later before is
    obtain ⟨k, rfl⟩ : ∃ k, j' = k + 1 := ⟨j' - 1, by omega⟩
    rw [shift]
    cases j with
    | zero =>
      rw [show i + 0 = i from Nat.add_zero i, pointer']
      exact (copied.inside k later is).2
    | succ j =>
      rw [shift]
      exact copied.apart j k later (by omega) is

/-- The loop copies all arguments when it comes to its end undisturbed. -/
theorem copyArgv_copied (present : state.present = true)
    (undisturbed : Undisturbed evict state.reads args)
    (done : copyArgv evict argvBase i sp args state = some (sp', state'))
    (room : (argLen + 1) * args.length ≤ sp) (low : sp ≤ argvBase) (word : sp < 2 ^ 64) :
    CopiedArgs args argvBase i sp sp' state.byte state'.byte := by
  -- The induction is on the arguments that are left, and the page is there before each of them.
  induction args generalizing i sp state with
  | nil =>
    rw [copyArgv] at done
    cases done
    exact ⟨Nat.le_refl _, by simp, fun _ _ => rfl, by simp, by simp, by simp, by simp⟩
  | cons arg rest ih =>
    have small := keptBytes_le arg
    simp only [List.length_cons, Nat.mul_add] at room
    rw [copyArgv_cons] at done
    by_cases measured : (state.readMany evict (1 + (arg.length + 1))).present = true
    · rw [if_neg (by simp [measured])] at done
      have quiet := (measured_iff.mp measured).2
      have still : (copyOne evict argvBase i sp arg state).present = true ∧
          Undisturbed evict (copyOne evict argvBase i sp arg state).reads rest := by
        rw [copyOne_reads]
        cases rest with
        | nil => exact ⟨copyOne_present.mpr ⟨measured, undisturbed quiet⟩, trivial⟩
        | cons next rest =>
          -- Were the page gone, the next argument would have led to a panic.
          have there : (copyOne evict argvBase i sp arg state).present = true := by
            by_contra gone
            rw [copyArgv_absent (by simpa using gone) (by simp)] at done
            cases done
          exact ⟨there, undisturbed quiet (copyOne_present.mp there).2⟩
      have here := copyOne_here still.1
      apply (ih still.1 still.2 done (by omega) (by omega) (by omega)).cons (by omega) low
        (copyOne_pointer measured (by omega) (by omega) word) here.1 here.2
      intro other apart
      exact copyOne_other (by omega) (by omega) apart
    · rw [if_pos (by simpa using measured)] at done
      cases done

/-- A loop that is disturbed comes to its end as well, with a byte of a copy not written. -/
theorem copyArgv_cut (present : state.present = true)
    (disturbed : ¬ Undisturbed evict state.reads args)
    (room : (argLen + 1) * args.length ≤ sp) (low : sp ≤ argvBase) (word : sp < 2 ^ 64)
    (ones : ∀ va < sp, state.byte va = 1) :
    ∃ sp' state', copyArgv evict argvBase i sp args state = some (sp', state') ∧
      ∃ j arg, args[j]? = some arg ∧
        state'.byte (pointerAt state'.byte (argvBase + 8 * (i + j)) + keptBytes arg) = 1 := by
  -- The induction is on the arguments: only the last one can be cut without a panic.
  induction args generalizing i sp state with
  | nil => exact absurd trivial disturbed
  | cons arg rest ih =>
    have small := keptBytes_le arg
    simp only [List.length_cons, Nat.mul_add] at room
    rw [copyArgv_cons]
    cases rest with
    | nil =>
      -- This is the last argument, and a read evicts the page while it is copied.
      have quiet : ∀ k < measureReads arg, evict (state.reads + k) = false := by
        by_contra loud
        exact disturbed fun quiet => absurd quiet loud
      have measured := measured_iff.mpr ⟨present, quiet⟩
      have absent : (copyOne evict argvBase i sp arg state).present = false := by
        by_contra there
        have := copyOne_present.mp (by simpa using there)
        exact disturbed fun _ => this.2
      rw [if_neg (by simp [measured]), copyArgv]
      refine ⟨_, _, rfl, 0, arg, rfl, ?_⟩
      rw [Nat.add_zero, copyOne_pointer measured (by omega) (by omega) word,
        copyOne_cut absent (by omega) (by omega)]
      exact ones _ (by omega)
    | cons next rest =>
      have quiet : ∀ k < measureReads arg, evict (state.reads + k) = false := by
        by_contra loud
        exact disturbed fun quiet => absurd quiet loud
      have measured := measured_iff.mpr ⟨present, quiet⟩
      have copying : ∀ k < copyReads arg, evict (state.reads + measureReads arg + k) = false := by
        by_contra loud
        exact disturbed fun _ quiet => absurd quiet loud
      have there : (copyOne evict argvBase i sp arg state).present = true :=
        copyOne_present.mpr ⟨measured, copying⟩
      have later : ¬ Undisturbed evict (copyOne evict argvBase i sp arg state).reads
          (next :: rest) := by
        rw [copyOne_reads]
        exact fun undisturbed => disturbed fun _ _ => undisturbed
      rw [if_neg (by simp [measured])]
      obtain ⟨sp', state', done, j, other, is, one⟩ := ih (i := i + 1) there later (by omega)
        (show sp - (keptBytes arg + 1) ≤ argvBase by omega) (by omega) (by
          intro va below
          rw [copyOne_other (by omega) (by omega) (by omega)]
          exact ones va (by omega))
      refine ⟨sp', state', done, j + 1, other, is, ?_⟩
      rwa [show i + (j + 1) = i + 1 + j by omega]

end Loop

/-! ## `do_exec` -/

/-- No more arguments are taken than the limit says. -/
theorem leadingArgs_length (argv : Nat → Option (List UInt8)) (limit i : Nat) :
    (leadingArgs argv limit i).length ≤ limit := by
  -- Each entry that is taken uses up one of the limit.
  induction limit generalizing i with
  | zero => exact Nat.le_refl _
  | succ limit ih =>
    unfold leadingArgs
    split
    · exact Nat.zero_le _
    · exact Nat.succ_le_succ (ih (i + 1))

/-- At most `ARGC_MAX` arguments are taken. -/
theorem takenArgs_length {argc : Int} (few : argc ≤ argcMax)
    (argv : Option (Nat → Option (List UInt8))) : (takenArgs argc argv).length ≤ argcMax := by
  unfold takenArgs
  split
  · exact Nat.zero_le _
  · rename_i argv
    have bound := leadingArgs_length argv (argLimit argc) 0
    have limit : argLimit argc ≤ argcMax := by
      unfold argLimit
      split
      · exact Nat.le_refl _
      · omega
    omega

section Exec

variable {argc : Int} {argv : Option (Nat → Option (List UInt8))} {byte : Nat → UInt8}

/-- The pointers and copies fit into the page. -/
theorem args_fit (argv : Option (Nat → Option (List UInt8))) (few : argc ≤ argcMax) :
    userSp - normalPageSize + (argLen + 1) * (takenArgs argc argv).length + spAlign ≤
        userSp - 8 * ((takenArgs argc argv).length + 1) ∧
      userSp - 8 * ((takenArgs argc argv).length + 1) + 8 * ((takenArgs argc argv).length + 1) =
        userSp ∧ userSp < 2 ^ 64 := by
  have small := takenArgs_length few argv
  unfold userSp normalPageSize argLen spAlign argcMax at *
  omega

/-- What `do_exec` does once the page was found there. -/
theorem execArgs_eq (present : Bool) :
    execArgs evict argc argv ⟨byte, present, 0⟩ =
      if (argcMax : Int) < argc ∨ ¬ (present = true ∧
          ∀ k < countReads argc argv, evict k = false) then none
      else
        (copyArgv evict (userSp - 8 * ((takenArgs argc argv).length + 1)) 0
          (userSp - 8 * ((takenArgs argc argv).length + 1)) (takenArgs argc argv)
          (((⟨byte, present, 0⟩ : ExecState).readMany evict (countReads argc argv)).writePtr
            (userSp - 8 * ((takenArgs argc argv).length + 1) +
              8 * (takenArgs argc argv).length) 0)).map fun copied =>
          { sp := copied.1 / spAlign * spAlign, a0 := (takenArgs argc argv).length
            a1 := userSp - 8 * ((takenArgs argc argv).length + 1), byte := copied.2.byte } := by
  -- Counting the arguments comes down to so many reads.
  have counted := ExecState.readMany_present evict ⟨byte, present, 0⟩
    (countReads argc argv)
  simp only [Nat.zero_add] at counted
  unfold execArgs
  by_cases many : (argcMax : Int) < argc
  · rw [if_pos many, if_pos (Or.inl many)]
  · rw [if_neg many]
    dsimp only
    by_cases there : present = true ∧ ∀ k < countReads argc argv, evict k = false
    · have here := counted.mpr there
      rw [if_neg (by rw [here]; simp), if_neg (by tauto)]
    · have gone : ((⟨byte, present, 0⟩ : ExecState).readMany evict
          (countReads argc argv)).present = false := by
        by_contra here
        exact there (counted.mp (by simpa using here))
      rw [if_pos gone, if_pos (Or.inr there)]

/-- The state in which the first argument is copied. -/
theorem counted_state (evict : Nat → Bool) (argc : Int)
    (argv : Option (Nat → Option (List UInt8))) (byte : Nat → UInt8) (present : Bool) (va : Nat) :
    (((⟨byte, present, 0⟩ : ExecState).readMany evict (countReads argc argv)).writePtr va 0).reads =
        countReads argc argv ∧
      (((⟨byte, present, 0⟩ : ExecState).readMany evict (countReads argc argv)).writePtr va
          0).present =
        ((⟨byte, present, 0⟩ : ExecState).readMany evict (countReads argc argv)).present := by
  unfold ExecState.writePtr
  obtain ⟨same, reads⟩ := ExecState.writeBytes_same
    ((⟨byte, present, 0⟩ : ExecState).readMany evict (countReads argc argv)) va
    ((List.range 8).map fun k => UInt8.ofNat (0 / 256 ^ k))
  refine ⟨?_, same⟩
  rw [reads, (ExecState.readMany_same _ _).2]
  exact Nat.zero_add _

/-- Arguments that were copied into the page arrive. -/
theorem CopiedArgs.passes (few : argc ≤ argcMax) {sp' : Nat} {mid byte' : Nat → UInt8}
    (copied : CopiedArgs (takenArgs argc argv) (userSp - 8 * ((takenArgs argc argv).length + 1)) 0
      (userSp - 8 * ((takenArgs argc argv).length + 1)) sp' mid byte')
    (null : pointerAt mid (userSp - 8 * ((takenArgs argc argv).length + 1) +
      8 * (takenArgs argc argv).length) = 0) :
    Passes (takenArgs argc argv)
      { sp := sp' / spAlign * spAlign, a0 := (takenArgs argc argv).length
        a1 := userSp - 8 * ((takenArgs argc argv).length + 1), byte := byte' } := by
  obtain ⟨fits, ends, -⟩ := args_fit argv few
  have down := copied.down
  have near := copied.near
  have rounds : sp' / spAlign * spAlign ≤ sp' ∧ sp' < sp' / spAlign * spAlign + spAlign := by
    unfold spAlign
    omega
  have from_ : ∀ j, (0 : Nat) + j = j := Nat.zero_add
  have inside := copied.inside
  have here := copied.here
  have ended := copied.ended
  have apart := copied.apart
  simp only [from_] at inside here ended apart
  refine ⟨rfl, ?_, here, ended, apart, ?_, ends.le, ?_, by dsimp only; omega,
    by dsimp only; omega, Nat.mul_mod_left _ _⟩
  · unfold Started.place
    dsimp only
    rw [← null]
    apply pointerAt_congr
    intro k small
    exact copied.same _ (by omega)
  · intro i arg is
    exact (inside i arg is).2
  · intro i small
    have found := (inside i _ (List.getElem?_eq_getElem small)).1
    unfold Started.place
    dsimp only at found ⊢
    omega

/--
Whatever the page holds before, a process that `do_exec` has created finds its arguments, if and
only if no read of the caller's memory evicts the page while the last argument is copied, or an
earlier one has led to a panic.
-/
theorem exec_passes_args (evict : Nat → Bool) (argc : Int)
    (argv : Option (Nat → Option (List UInt8))) (present : Bool) :
    (∀ byte out, execArgs evict argc argv ⟨byte, present, 0⟩ = some out →
        Passes (takenArgs argc argv) out) ↔
      (argc ≤ argcMax → present = true → (∀ k < countReads argc argv, evict k = false) →
        Undisturbed evict (countReads argc argv) (takenArgs argc argv)) := by
  constructor
  -- A loop that is disturbed leaves a byte unwritten, and some page shows it.
  · intro passes few there quiet
    by_contra disturbed
    obtain ⟨fits, ends, word⟩ := args_fit argv few
    -- In a page full of ones the byte that was not written is no end of a string.
    have counted := counted_state evict argc argv (fun _ => 1) present
      (userSp - 8 * ((takenArgs argc argv).length + 1) + 8 * (takenArgs argc argv).length)
    have here := (ExecState.readMany_present evict ⟨fun _ => 1, present, 0⟩
      (countReads argc argv)).mpr ⟨there, by simpa using quiet⟩
    obtain ⟨sp', state', done, j, arg, is, one⟩ := copyArgv_cut (i := 0)
      (counted.2.trans here) (by rw [counted.1]; exact disturbed) (by omega)
      (show userSp - 8 * ((takenArgs argc argv).length + 1) ≤
        userSp - 8 * ((takenArgs argc argv).length + 1) from Nat.le_refl _) (by omega) (by
        intro va below
        unfold ExecState.writePtr
        rw [ExecState.writeBytes_other (by omega), (ExecState.readMany_same _ _).1])
    have succeeds : ¬ ((argcMax : Int) < argc ∨ ¬ (present = true ∧
        ∀ k < countReads argc argv, evict k = false)) := by
      intro fails
      obtain many | absent := fails
      · omega
      · exact absent ⟨there, quiet⟩
    have arrives := passes (fun _ => 1) _ (by
      rw [execArgs_eq, if_neg succeeds, done]
      rfl)
    have null : state'.byte (pointerAt state'.byte (userSp -
        8 * ((takenArgs argc argv).length + 1) + 8 * j) + min arg.length argLen) = 0 :=
      arrives.ended j arg is
    unfold keptBytes at one
    rw [Nat.zero_add, null] at one
    cases one
  -- In an undisturbed run every copy is complete before the next read can evict the page.
  · intro undisturbed byte out started
    rw [execArgs_eq] at started
    by_cases fails : (argcMax : Int) < argc ∨ ¬ (present = true ∧
        ∀ k < countReads argc argv, evict k = false)
    · rw [if_pos fails] at started
      cases started
    · rw [if_neg fails] at started
      simp only [not_or, not_lt, not_not] at fails
      obtain ⟨few, there, quiet⟩ := fails
      obtain ⟨fits, ends, word⟩ := args_fit argv few
      obtain ⟨copied, done, rfl⟩ := Option.map_eq_some_iff.mp started
      obtain ⟨sp', state'⟩ := copied
      have counted := counted_state evict argc argv byte present
        (userSp - 8 * ((takenArgs argc argv).length + 1) + 8 * (takenArgs argc argv).length)
      have here := (ExecState.readMany_present evict ⟨byte, present, 0⟩
        (countReads argc argv)).mpr ⟨there, by simpa using quiet⟩
      have all := copyArgv_copied (counted.2.trans here)
        (by rw [counted.1]; exact undisturbed few there quiet) done (by omega) (Nat.le_refl _)
        (by omega)
      exact all.passes few (pointerAt_writePtr _ here (by decide))

end Exec

/-- The page is evicted by the second look at the pointer of the only argument. -/
theorem exec_loses_argument : ¬ ∀ (evict : Nat → Bool) (argc : Int)
    (argv : Option (Nat → Option (List UInt8))) (byte : Nat → UInt8) (out : Started),
    execArgs evict argc argv ⟨byte, true, 0⟩ = some out → Passes (takenArgs argc argv) out := by
  intro all
  have passes := all (fun t => t = 4) 1 (some fun i => if i = 0 then some [97] else none)
    (fun _ => 1) _ rfl
  have null := passes.ended 0 [97] rfl
  revert null
  decide

end GlucOS
