import GlucOS.Mm.Process
import GlucOS.Syscall.Copy

/-! How `do_exec` passes arguments: it writes them to a page of the new process that may go away. -/

namespace GlucOS

/-- The argument page while `do_exec` runs; the process that owns it has never run yet. -/
structure ExecState where
  /-- What the new process finds at its own addresses. -/
  byte : Nat → UInt8
  /-- The page is in its frame, and not in the swap partition. -/
  present : Bool
  /-- How often the caller's memory was read. -/
  reads : Nat

namespace ExecState

/--
A read of the caller's memory, which may fault and bring a page in.

The argument says which reads evict the argument page. It does not come back before its process
runs.
-/
def read (evict : Nat → Bool) (state : ExecState) : ExecState :=
  { state with reads := state.reads + 1, present := state.present && !evict state.reads }

/-- So many reads. -/
def readMany (evict : Nat → Bool) (state : ExecState) : Nat → ExecState
  | 0 => state
  | count + 1 => readMany evict (state.read evict) count

/-- A write through the kernel's address of the page, which is another page's after an eviction. -/
def write (state : ExecState) (va : Nat) (byte : UInt8) : ExecState :=
  if state.present then { state with byte := Function.update state.byte va byte } else state

/-- Writes of bytes in a row. -/
def writeBytes (state : ExecState) (va : Nat) : List UInt8 → ExecState
  | [] => state
  | byte :: bytes => writeBytes (state.write va byte) (va + 1) bytes

/-- A write of a pointer. -/
def writePtr (state : ExecState) (va value : Nat) : ExecState :=
  state.writeBytes va ((List.range 8).map fun k => UInt8.ofNat (value / 256 ^ k))

/-- `strncpy` of bytes that are all there; it looks at the one behind them before it stops. -/
def strncpy (evict : Nat → Bool) (state : ExecState) (va : Nat) : List UInt8 → ExecState
  | [] => state.read evict
  | byte :: bytes => strncpy evict ((state.read evict).write va byte) (va + 1) bytes

end ExecState

/-- The first entries of `argv` up to a limit or a null pointer, from the entry `i` on. -/
def leadingArgs (argv : Nat → Option (List UInt8)) : Nat → Nat → List (List UInt8)
  | 0, _ => []
  | limit + 1, i =>
    match argv i with
    | none => []
    | some arg => arg :: leadingArgs argv limit (i + 1)

/-- How many entries of `argv` are looked at. -/
def argLimit (argc : Int) : Nat := if argc < 0 then argcMax else argc.toNat

/-- The arguments that `do_exec` takes; each is the bytes of a string in front of its end. -/
def takenArgs (argc : Int) : Option (Nat → Option (List UInt8)) → List (List UInt8)
  | none => []
  | some argv => leadingArgs argv (argLimit argc) 0

/-- How often `argv` is read to count the arguments. -/
def countReads (argc : Int) (argv : Option (Nat → Option (List UInt8))) : Nat :=
  if argv.isSome then min ((takenArgs argc argv).length + 1) (argLimit argc) else 0

/-- What the new process starts with. -/
structure Started where
  /-- The stack pointer. -/
  sp : Nat
  /-- `a0`. -/
  a0 : Nat
  /-- `a1`. -/
  a1 : Nat
  /-- Its argument page. -/
  byte : Nat → UInt8

/-- The loop of `do_exec` that copies the arguments, from number `i` on; nothing where it panics. -/
def copyArgv (evict : Nat → Bool) (argvBase : Nat) :
    Nat → Nat → List (List UInt8) → ExecState → Option (Nat × ExecState)
  | _, sp, [], state => some (sp, state)
  | i, sp, arg :: rest, state =>
    -- The pointer and then the bytes up to the end of the string are read for `strlen`.
    let state := state.readMany evict (1 + (arg.length + 1))
    let l := min arg.length argLen
    let sp := sp - (l + 1)
    let state := state.writePtr (argvBase + 8 * i) sp
    -- `va2kva` finds no page once it was evicted.
    if state.present = false then none
    else
      let state := (state.read evict).strncpy evict sp (arg.take argLen)
      copyArgv evict argvBase (i + 1) sp rest (state.write (sp + l) 0)

/-- `SP_ALIGN`. -/
def spAlign : Nat := 16

/-- `do_exec` once the process was created: what it starts with, or nothing. -/
def execArgs (evict : Nat → Bool) (argc : Int) (argv : Option (Nat → Option (List UInt8)))
    (state : ExecState) : Option Started :=
  if (argcMax : Int) < argc then none
  else
    let args := takenArgs argc argv
    let state := state.readMany evict (countReads argc argv)
    let argvBase := userSp - 8 * (args.length + 1)
    if state.present = false then none
    else
      let state := state.writePtr (argvBase + 8 * args.length) 0
      (copyArgv evict argvBase 0 argvBase args state).map fun (sp, state) =>
        { sp := sp / spAlign * spAlign, a0 := args.length, a1 := argvBase, byte := state.byte }

/-- The pointer at an address. -/
def pointerAt (byte : Nat → UInt8) (va : Nat) : Nat :=
  littleEndian ((List.range 8).map fun k => byte (va + k))

/-- The place of an argument of the new process. -/
def Started.place (out : Started) (i : Nat) : Nat := pointerAt out.byte (out.a1 + 8 * i)

/-- The process finds these arguments, each up to the length that is kept. -/
structure Passes (args : List (List UInt8)) (out : Started) : Prop where
  /-- `a0` is their number. -/
  count : out.a0 = args.length
  /-- The last pointer is null. -/
  null : out.place args.length = 0
  /-- Every other pointer leads to a copy of its argument. -/
  copied : ∀ i arg, args[i]? = some arg → ∀ k byte, (arg.take argLen)[k]? = some byte →
    out.byte (out.place i + k) = byte
  /-- The copy ends with a null byte. -/
  ended : ∀ i arg, args[i]? = some arg → out.byte (out.place i + min arg.length argLen) = 0
  /-- Copies do not overlap. -/
  apart : ∀ i j arg, i < j → args[j]? = some arg →
    out.place j + min arg.length argLen < out.place i
  /-- They lie below the pointers. -/
  below : ∀ i arg, args[i]? = some arg → out.place i + min arg.length argLen < out.a1
  /-- The pointers end with the page. -/
  top : out.a1 + 8 * (args.length + 1) ≤ userSp
  /-- The stack lies below all of them. -/
  stack : ∀ i < args.length, out.sp ≤ out.place i
  /-- It lies below the pointers. -/
  stackTop : out.sp ≤ out.a1
  /-- It is in the same page. -/
  bottom : userSp - normalPageSize ≤ out.sp
  /-- It is aligned. -/
  aligned : out.sp % spAlign = 0

/--
No read evicts the page while the last argument is copied, unless an earlier eviction has led to a
panic already; the reads are numbered from `t` on.
-/
def Undisturbed (evict : Nat → Bool) (t : Nat) : List (List UInt8) → Prop
  | [] => True
  | [arg] => (∀ k < arg.length + 2, evict (t + k) = false) →
    ∀ k < min arg.length argLen + 2, evict (t + (arg.length + 2) + k) = false
  | arg :: rest => (∀ k < arg.length + 2, evict (t + k) = false) →
    (∀ k < min arg.length argLen + 2, evict (t + (arg.length + 2) + k) = false) →
      Undisturbed evict (t + (arg.length + 2) + (min arg.length argLen + 2)) rest

end GlucOS
