import Mathlib

/-! Routines that move bytes from and to memory one at a time, and how far up their accesses go. -/

namespace GlucOS

/-- Memory as a routine meets it. -/
structure Memory where
  /-- An access to the address succeeds; at any other address it ends the routine. -/
  legal : Nat → Bool
  /-- The bytes. -/
  byte : Nat → UInt8

namespace Memory

/-- A byte written. -/
def write (mem : Memory) (addr : Nat) (byte : UInt8) : Memory :=
  { mem with byte := Function.update mem.byte addr byte }

/-- Two memories that differ from some address on at most. -/
structure AgreeBelow (bound : Nat) (mem other : Memory) : Prop where
  /-- The same accesses succeed. -/
  legal : other.legal = mem.legal
  /-- The bytes below are the same. -/
  byte : ∀ addr < bound, other.byte addr = mem.byte addr

/-- Nothing is legal between two addresses. -/
def Gap (mem : Memory) (low high : Nat) : Prop :=
  ∀ addr, mem.legal addr = true → addr < low ∨ high ≤ addr

/-- So many accesses from an address on succeed. -/
def Readable (mem : Memory) (addr count : Nat) : Prop :=
  ∀ k < count, mem.legal ((addr + k) % 2 ^ 64) = true

/-- So many bytes from an address on. -/
def bytesAt (mem : Memory) (addr count : Nat) : List UInt8 :=
  (List.range count).map fun k => mem.byte ((addr + k) % 2 ^ 64)

/-- A write leaves legal what was legal. -/
@[simp] theorem write_legal (mem : Memory) (addr : Nat) (byte : UInt8) :
    (mem.write addr byte).legal = mem.legal := rfl

/-- The same byte written to both memories. -/
theorem AgreeBelow.write {bound : Nat} {mem other : Memory} (agree : AgreeBelow bound mem other)
    (addr : Nat) (byte : UInt8) :
    AgreeBelow bound (mem.write addr byte) (other.write addr byte) where
  legal := agree.legal
  byte at_ below := by
    simp only [Memory.write]
    by_cases here : at_ = addr
    · rw [here, Function.update_self, Function.update_self]
    · rw [Function.update_of_ne here, Function.update_of_ne here]
      exact agree.byte at_ below

/-- The first access of a run of bytes, and the others behind it. -/
theorem Readable.succ {mem : Memory} {addr count : Nat} :
    mem.Readable addr (count + 1) ↔
      mem.legal (addr % 2 ^ 64) = true ∧ mem.Readable (addr + 1) count := by
  unfold Readable
  constructor
  · intro all
    refine ⟨by simpa using all 0 (by omega), fun k inside => ?_⟩
    have := all (k + 1) (by omega)
    rwa [show addr + (k + 1) = addr + 1 + k by omega] at this
  · intro parts k inside
    obtain ⟨first, others⟩ := parts
    cases k with
    | zero => simpa using first
    | succ k =>
      rw [show addr + (k + 1) = addr + 1 + k by omega]
      exact others k (by omega)

/-- The first byte of a run, and the others behind it. -/
theorem bytesAt_succ (mem : Memory) (addr count : Nat) :
    mem.bytesAt addr (count + 1) =
      mem.byte (addr % 2 ^ 64) :: mem.bytesAt (addr + 1) count := by
  unfold bytesAt
  rw [List.range_succ_eq_map, List.map_cons, List.map_map]
  congr 1
  apply List.map_congr_left
  intro k _
  simp only [Function.comp_apply]
  rw [show addr + Nat.succ k = addr + 1 + k by omega]

/-- Accesses that all succeed from below a gap on have not reached it. -/
theorem Gap.ends {mem : Memory} {low high addr count : Nat} (gap : mem.Gap low high)
    (proper : low < high) (fits : high ≤ 2 ^ 64) (below : addr < high)
    (readable : mem.Readable addr count) : addr + count < high := by
  induction count with
  | zero => exact below
  | succ count ih =>
    have reached := ih fun k inside => readable k (by omega)
    have legal := readable count (by omega)
    rw [Nat.mod_eq_of_lt (by omega)] at legal
    have := gap _ legal
    omega

end Memory

/-- A routine that reads and writes memory, and keeps the rest of its state to itself. -/
inductive Access (A : Type) where
  /-- It has come to its end. -/
  | ret (value : A)
  /-- It reads a byte and goes on. -/
  | load (addr : Nat) (rest : UInt8 → Access A)
  /-- It writes a byte and goes on. -/
  | store (addr : Nat) (byte : UInt8) (rest : Access A)

/-- What a run of a routine comes to. -/
structure Moved (A : Type) where
  /-- Its answer, or nothing when an access has ended it. -/
  value : Option A
  /-- The memory that it leaves. -/
  memory : Memory
  /-- The bytes that it has read or written, each with its address, in their order. -/
  bytes : List (Nat × UInt8)

namespace Access

variable {A B : Type}

/-- Another routine, after the end of the first one. -/
def andThen : Access A → (A → Access B) → Access B
  | ret value, next => next value
  | load addr rest, next => load addr fun byte => (rest byte).andThen next
  | store addr byte rest, next => store addr byte (rest.andThen next)

/-- What the routine does with a memory. -/
def run : Access A → Memory → Moved A
  | ret value, mem => ⟨some value, mem, []⟩
  | load addr rest, mem =>
    if mem.legal addr then
      let moved := (rest (mem.byte addr)).run mem
      { moved with bytes := (addr, mem.byte addr) :: moved.bytes }
    else ⟨none, mem, []⟩
  | store addr byte rest, mem =>
    if mem.legal addr then
      let moved := rest.run (mem.write addr byte)
      { moved with bytes := (addr, byte) :: moved.bytes }
    else ⟨none, mem, []⟩

/-- The routine reaches no byte from an address on. -/
def StaysBelow (bound : Nat) (routine : Access A) (mem : Memory) : Prop :=
  ∀ moved ∈ (routine.run mem).bytes, moved.1 < bound

variable {bound low high addr : Nat} {mem other : Memory}

/-! ## Where a routine stays -/

/-- A routine at its end reaches nothing. -/
@[simp] theorem staysBelow_ret (value : A) : (ret value).StaysBelow bound mem := by
  intro moved mem'
  cases mem'

/-- A read reaches its own address, and the rest goes on with the byte there. -/
theorem staysBelow_load {rest : UInt8 → Access A} :
    (load addr rest).StaysBelow bound mem ↔
      (mem.legal addr = true → addr < bound ∧ (rest (mem.byte addr)).StaysBelow bound mem) := by
  unfold StaysBelow
  by_cases legal : mem.legal addr = true
  · simp [run, legal]
  · simp [run, legal]

/-- A write reaches its own address, and the rest finds the byte there. -/
theorem staysBelow_store {byte : UInt8} {rest : Access A} :
    (store addr byte rest).StaysBelow bound mem ↔
      (mem.legal addr = true → addr < bound ∧ rest.StaysBelow bound (mem.write addr byte)) := by
  unfold StaysBelow
  by_cases legal : mem.legal addr = true
  · simp [run, legal]
  · simp [run, legal]

/-- A routine leaves legal what was legal. -/
theorem run_legal (routine : Access A) (mem : Memory) :
    (routine.run mem).memory.legal = mem.legal := by
  -- The induction follows the routine, whose memory changes at its writes only.
  induction routine generalizing mem with
  | ret value => rfl
  | load addr rest ih =>
    unfold run
    split
    · exact ih _ mem
    · rfl
  | store addr byte rest ih =>
    unfold run
    split
    · exact ih _
    · rfl

/-- The second routine runs on the memory that the first one leaves, unless that one was ended. -/
theorem run_andThen (first : Access A) (next : A → Access B) (mem : Memory) :
    (first.andThen next).run mem =
      match (first.run mem).value with
      | none => ⟨none, (first.run mem).memory, (first.run mem).bytes⟩
      | some value =>
        let moved := (next value).run (first.run mem).memory
        { moved with bytes := (first.run mem).bytes ++ moved.bytes } := by
  -- The induction follows the first routine, and an illegal access ends both.
  induction first generalizing mem with
  | ret value => simp [andThen, run]
  | load addr rest ih =>
    by_cases legal : mem.legal addr = true
    · simp only [andThen, run, legal, if_true, ih]
      cases ((rest (mem.byte addr)).run mem).value <;> rfl
    · simp [andThen, run, legal]
  | store addr byte rest ih =>
    by_cases legal : mem.legal addr = true
    · simp only [andThen, run, legal, if_true, ih]
      cases (rest.run (mem.write addr byte)).value <;> rfl
    · simp [andThen, run, legal]

/-- The second routine finds the memory that the first one leaves, unless that one was ended. -/
theorem staysBelow_andThen {first : Access A} {next : A → Access B} :
    (first.andThen next).StaysBelow bound mem ↔ first.StaysBelow bound mem ∧
      ∀ value, (first.run mem).value = some value →
        (next value).StaysBelow bound (first.run mem).memory := by
  -- The first routine is followed to its end, where the second one begins.
  induction first generalizing mem with
  | ret value => simp [andThen, run]
  | load addr rest ih =>
    unfold andThen
    rw [staysBelow_load, staysBelow_load, ih]
    by_cases legal : mem.legal addr = true
    · simp only [run, legal, if_true]
      tauto
    · simp [run, legal]
  | store addr byte rest ih =>
    unfold andThen
    rw [staysBelow_store, staysBelow_store, ih]
    by_cases legal : mem.legal addr = true
    · simp only [run, legal, if_true]
      tauto
    · simp [run, legal]

/-! ## Two runs -/

/-- What two runs of a routine have in common when it stays below the bytes that differ. -/
structure SameBelow (bound : Nat) (left right : Moved A) : Prop where
  /-- They answer the same. -/
  value : right.value = left.value
  /-- They have moved the same bytes. -/
  bytes : right.bytes = left.bytes
  /-- They leave the same bytes below. -/
  memory : left.memory.AgreeBelow bound right.memory

/-- A routine that stays below the bytes that differ cannot tell two memories apart. -/
theorem StaysBelow.same {routine : Access A} (stays : routine.StaysBelow bound mem)
    (agree : mem.AgreeBelow bound other) :
    SameBelow bound (routine.run mem) (routine.run other) := by
  -- The two memories agree below the bound at each step, and a write keeps them so.
  induction routine generalizing mem other with
  | ret value => exact ⟨rfl, rfl, agree⟩
  | load addr rest ih =>
    rw [staysBelow_load] at stays
    by_cases legal : mem.legal addr = true
    · obtain ⟨below, later⟩ := stays legal
      -- The byte that is read lies below, so both runs go on in the same way.
      have same := ih (mem.byte addr) later agree
      simp only [run, agree.legal, legal, if_true, agree.byte addr below]
      exact ⟨same.value, by rw [same.bytes], same.memory⟩
    · simp only [run, agree.legal, legal]
      exact ⟨rfl, rfl, agree⟩
  | store addr byte rest ih =>
    rw [staysBelow_store] at stays
    by_cases legal : mem.legal addr = true
    · obtain ⟨-, later⟩ := stays legal
      have same := ih later (agree.write addr byte)
      simp only [run, agree.legal, legal, if_true]
      exact ⟨same.value, by rw [same.bytes], same.memory⟩
    · simp only [run, agree.legal, legal]
      exact ⟨rfl, rfl, agree⟩

/-! ## Runs of bytes -/

/-- Reads so many bytes from an address on. -/
def loadBytes (addr : Nat) : Nat → Access (List UInt8)
  | 0 => ret []
  | count + 1 => load (addr % 2 ^ 64) fun byte =>
    (loadBytes (addr + 1) count).andThen fun bytes => ret (byte :: bytes)

/-- Writes bytes from an address on. -/
def storeBytes (addr : Nat) : List UInt8 → Access Unit
  | [] => ret ()
  | byte :: bytes => store (addr % 2 ^ 64) byte (storeBytes (addr + 1) bytes)

/-- Writes bytes at their offsets from an address. -/
def storeAt (addr : Nat) : List (Nat × UInt8) → Access Unit
  | [] => ret ()
  | (offset, byte) :: rest => store ((addr + offset) % 2 ^ 64) byte (storeAt addr rest)

/-- Reading upwards from below a gap ends in the gap at the latest. -/
theorem loadBytes_staysBelow (gap : mem.Gap low high) (proper : low < high)
    (fits : high ≤ 2 ^ 64) (below : addr < high) (reach : low ≤ bound) (count : Nat) :
    (loadBytes addr count).StaysBelow bound mem := by
  -- The induction is on the bytes that are left, and the next address stays below the gap's end.
  induction count generalizing addr with
  | zero => exact staysBelow_ret _
  | succ count ih =>
    unfold loadBytes
    rw [staysBelow_load, Nat.mod_eq_of_lt (by omega)]
    intro legal
    have under : addr < low := by
      have := gap addr legal
      omega
    refine ⟨by omega, ?_⟩
    rw [staysBelow_andThen]
    exact ⟨ih (by omega), fun _ _ => staysBelow_ret _⟩

/-- Writing upwards from below a gap ends in the gap at the latest. -/
theorem storeBytes_staysBelow (gap : mem.Gap low high) (proper : low < high)
    (fits : high ≤ 2 ^ 64) (below : addr < high) (reach : low ≤ bound) (bytes : List UInt8) :
    (storeBytes addr bytes).StaysBelow bound mem := by
  -- A write changes no legality, so the gap is there for the next byte.
  induction bytes generalizing addr mem with
  | nil => exact staysBelow_ret _
  | cons byte bytes ih =>
    unfold storeBytes
    rw [staysBelow_store, Nat.mod_eq_of_lt (by omega)]
    intro legal
    have under : addr < low := by
      have := gap addr legal
      omega
    exact ⟨by omega, ih gap (by omega)⟩

/-- After bytes were written in full, the next address is below the gap as well. -/
theorem storeBytes_done (gap : mem.Gap low high) (proper : low < high) (fits : high ≤ 2 ^ 64)
    (below : addr < high) {bytes : List UInt8}
    (ended : ((storeBytes addr bytes).run mem).value = some ()) : addr + bytes.length < high := by
  induction bytes generalizing addr mem with
  | nil => simpa using below
  | cons byte bytes ih =>
    unfold storeBytes at ended
    rw [Nat.mod_eq_of_lt (by omega)] at ended
    by_cases legal : mem.legal addr = true
    · simp only [run, legal, if_true] at ended
      have under : addr < low := by
        have := gap addr legal
        omega
      have rest : addr + 1 + bytes.length < high :=
        ih (show (mem.write addr byte).Gap low high from gap) (by omega) ended
      simp only [List.length_cons]
      omega
    · simp [run, legal] at ended

/-- What a run of reads answers, and that it changes nothing. -/
theorem loadBytes_run (addr count : Nat) (mem : Memory) :
    ((loadBytes addr count).run mem).memory = mem ∧
      ∀ bytes, ((loadBytes addr count).run mem).value = some bytes ↔
        mem.Readable addr count ∧ bytes = mem.bytesAt addr count := by
  induction count generalizing addr with
  | zero =>
    refine ⟨rfl, fun bytes => ?_⟩
    constructor
    · intro read
      cases read
      exact ⟨fun k inside => absurd inside (Nat.not_lt_zero k), rfl⟩
    · intro read
      rw [read.2]
      rfl
  | succ count ih =>
    obtain ⟨same, answers⟩ := ih (addr + 1)
    unfold loadBytes
    rw [Memory.Readable.succ, Memory.bytesAt_succ]
    by_cases legal : mem.legal (addr % 2 ^ 64) = true
    · simp only [run, legal, if_true, true_and]
      rw [run_andThen]
      cases value : ((loadBytes (addr + 1) count).run mem).value with
      | none =>
        refine ⟨same, fun bytes => ⟨fun none => by simp at none, ?_⟩⟩
        intro wanted
        have := (answers (mem.bytesAt (addr + 1) count)).mpr ⟨wanted.1, rfl⟩
        rw [value] at this
        cases this
      | some read =>
        obtain ⟨readable, is⟩ := (answers read).mp value
        refine ⟨same, fun bytes => ?_⟩
        simp only [run, Option.some.injEq, readable, true_and, is]
        exact eq_comm
    · refine ⟨by simp only [run, if_neg legal], fun bytes => ?_⟩
      simp only [run, if_neg legal]
      constructor
      · intro none
        cases none
      · intro wanted
        exact absurd wanted.1.1 legal

/-- Reading from below the far end of a gap stays out of what lies behind it, and so does reading
nothing. -/
theorem loadBytes_staysBelow_iff (gap : mem.Gap low high) (proper : low < high)
    (fits : high ≤ 2 ^ 64) (reach : low ≤ bound) (under : bound ≤ high) (word : addr < 2 ^ 64)
    (count : Nat) :
    (loadBytes addr count).StaysBelow bound mem ↔
      (0 < count → mem.legal addr = true → addr < bound) := by
  constructor
  · intro stays some legal
    obtain ⟨more, rfl⟩ : ∃ more, count = more + 1 := ⟨count - 1, by omega⟩
    unfold loadBytes at stays
    rw [staysBelow_load, Nat.mod_eq_of_lt word] at stays
    exact (stays legal).1
  · intro first
    cases count with
    | zero => exact staysBelow_ret _
    | succ count =>
      by_cases legal : mem.legal addr = true
      · have below := first (by omega) legal
        exact loadBytes_staysBelow gap proper fits (by omega) reach _
      · unfold loadBytes
        rw [staysBelow_load, Nat.mod_eq_of_lt word]
        intro isLegal
        exact absurd isLegal legal

/-- Writes at offsets that lie below the far end of a gap stay out of what lies behind it. -/
theorem storeAt_staysBelow (gap : mem.Gap low high) (fits : high ≤ 2 ^ 64) (reach : low ≤ bound)
    {bytes : List (Nat × UInt8)} (below : ∀ entry ∈ bytes, addr + entry.1 < high) :
    (storeAt addr bytes).StaysBelow bound mem := by
  induction bytes generalizing mem with
  | nil => exact staysBelow_ret _
  | cons entry bytes ih =>
    obtain ⟨offset, byte⟩ := entry
    have here := below (offset, byte) (by simp)
    simp only at here
    unfold storeAt
    rw [staysBelow_store, Nat.mod_eq_of_lt (by omega)]
    intro legal
    have := gap _ legal
    exact ⟨by omega, ih gap fun entry mem' => below entry (by simp [mem'])⟩

/-- After writes at offsets were made in full, all of them were legal. -/
theorem storeAt_done {bytes : List (Nat × UInt8)}
    (ended : ((storeAt addr bytes).run mem).value = some ()) :
    ∀ entry ∈ bytes, mem.legal ((addr + entry.1) % 2 ^ 64) = true := by
  induction bytes generalizing mem with
  | nil =>
    intro entry mem'
    cases mem'
  | cons entry bytes ih =>
    obtain ⟨offset, byte⟩ := entry
    unfold storeAt at ended
    by_cases legal : mem.legal ((addr + offset) % 2 ^ 64) = true
    · simp only [run, legal, if_true] at ended
      intro entry member
      obtain rfl | later := List.mem_cons.mp member
      · exact legal
      · exact ih ended entry later
    · simp only [run, if_neg legal] at ended
      cases ended

end Access

end GlucOS
