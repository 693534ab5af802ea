import GlucOS.Lib.Access

/-! What routines that reach their end answer, and the memory they leave. -/

namespace GlucOS

namespace Memory

/-- Bytes written from an address on. -/
def put (mem : Memory) (addr : Nat) : List UInt8 → Memory
  | [] => mem
  | byte :: bytes => (mem.write (addr % 2 ^ 64) byte).put (addr + 1) bytes

variable {mem : Memory} {addr count : Nat}

/-- Writing leaves legal what was legal. -/
@[simp] theorem put_legal (bytes : List UInt8) : (mem.put addr bytes).legal = mem.legal := by
  induction bytes generalizing mem addr with
  | nil => rfl
  | cons byte bytes ih => exact ih

/-- So it leaves readable what was readable. -/
theorem readable_put {at_ : Nat} (bytes : List UInt8) :
    (mem.put addr bytes).Readable at_ count ↔ mem.Readable at_ count := by
  unfold Readable
  rw [put_legal]

/-- Bytes behind each other are written one after the other. -/
theorem put_append (bytes more : List UInt8) :
    mem.put addr (bytes ++ more) = (mem.put addr bytes).put (addr + bytes.length) more := by
  induction bytes generalizing mem addr with
  | nil => rfl
  | cons byte bytes ih =>
    rw [List.cons_append, put, put, ih, List.length_cons]
    congr 1
    omega

/-- A byte of a run can be read alone. -/
theorem Readable.part {offset len : Nat} (readable : mem.Readable addr count)
    (inside : offset + len ≤ count) : mem.Readable (addr + offset) len := by
  intro k below
  rw [Nat.add_assoc]
  exact readable (offset + k) (by omega)

/-- The bytes of a run have their number. -/
@[simp] theorem length_bytesAt : (mem.bytesAt addr count).length = count := by
  rw [bytesAt, List.length_map, List.length_range]

/-- Each of them is the one at its address. -/
theorem getElem?_bytesAt (k : Nat) : (mem.bytesAt addr count)[k]? =
    if k < count then some (mem.byte ((addr + k) % 2 ^ 64)) else none := by
  rw [bytesAt, List.getElem?_map]
  by_cases inside : k < count
  · rw [if_pos inside, List.getElem?_range inside, Option.map_some]
  · rw [if_neg inside, List.getElem?_eq_none (by simpa using inside), Option.map_none]

/-- Bytes at other addresses stay. -/
theorem byte_put_other {at_ : Nat} (bytes : List UInt8)
    (apart : ∀ k < bytes.length, at_ ≠ (addr + k) % 2 ^ 64) :
    (mem.put addr bytes).byte at_ = mem.byte at_ := by
  induction bytes generalizing mem addr with
  | nil => rfl
  | cons byte bytes ih =>
    have first := apart 0 (by rw [List.length_cons]; omega)
    rw [put, ih]
    · exact Function.update_of_ne (by simpa using first) _ _
    · intro k below
      have := apart (k + 1) (by rw [List.length_cons]; omega)
      rwa [show addr + (k + 1) = addr + 1 + k by omega] at this

/-- The bytes that were written are there, unless they ran into themselves. -/
theorem bytesAt_put (bytes : List UInt8) (fits : bytes.length ≤ 2 ^ 64) :
    (mem.put addr bytes).bytesAt addr bytes.length = bytes := by
  -- The first byte is not among the addresses of the later ones.
  induction bytes generalizing mem addr with
  | nil => rfl
  | cons byte bytes ih =>
    rw [List.length_cons] at fits
    rw [List.length_cons, bytesAt_succ, put, ih (by omega), byte_put_other]
    · exact congrArg (· :: bytes) (Function.update_self ..)
    · intro k below
      omega

end Memory

namespace Access

variable {A B : Type} {mem next last : Memory}

/-- A routine comes to its end with an answer, and leaves a memory. -/
def Gives (routine : Access A) (mem : Memory) (value : A) (next : Memory) : Prop :=
  (routine.run mem).value = some value ∧ (routine.run mem).memory = next

/-- A routine at its end gives its answer. -/
theorem gives_ret (value : A) (mem : Memory) : (ret value).Gives mem value mem := ⟨rfl, rfl⟩

/-- The second routine takes the answer and the memory of the first one. -/
theorem Gives.andThen {first : Access A} {rest : A → Access B} {value : A} {value' : B}
    (gives : first.Gives mem value next) (later : (rest value).Gives next value' last) :
    (first.andThen rest).Gives mem value' last := by
  obtain ⟨ends, leaves⟩ := gives
  unfold Gives
  rw [run_andThen, ends, leaves]
  exact later

/-- Reading a run of bytes that are all legal gives them. -/
theorem loadBytes_gives {addr count : Nat} (readable : mem.Readable addr count) :
    (loadBytes addr count).Gives mem (mem.bytesAt addr count) mem := by
  obtain ⟨same, answers⟩ := loadBytes_run addr count mem
  exact ⟨(answers _).mpr ⟨readable, rfl⟩, same⟩

/-- Writing a run of bytes whose addresses are all legal puts them there. -/
theorem storeBytes_gives {addr : Nat} {bytes : List UInt8}
    (readable : mem.Readable addr bytes.length) :
    (storeBytes addr bytes).Gives mem () (mem.put addr bytes) := by
  induction bytes generalizing mem addr with
  | nil => exact gives_ret () mem
  | cons byte bytes ih =>
    rw [List.length_cons, Memory.Readable.succ] at readable
    obtain ⟨legal, rest⟩ := readable
    unfold Gives storeBytes
    simp only [run, legal, if_true]
    exact ih rest

end Access

end GlucOS
