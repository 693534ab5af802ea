import GlucOS.Lib.Reach
import GlucOS.Sched.Kernel

/-! `pcb_table[]` entry by entry: additions at its end, holes left by deletions, compaction. -/

namespace GlucOS.Sched

open Routine

/-- How many entries `pcb_table[]` has. -/
def pcbTableSize : Nat := uprocMax + ncpu

/-- `pcb_table[]` with its counters. -/
structure PcbTable where
  /-- The entries. -/
  entry : Nat → Option PcbRef
  /-- `proc_ymr`. -/
  procYmr : Int
  /-- `free_pt`. -/
  freePt : Nat

/-- What goes wrong in an operation on the table. -/
inductive TableStop
  /-- `panic_g`: algorithm error while rearranging. -/
  | rearranging
  /-- An entry behind the end of the array is written. -/
  | overrun

/-- An operation on the table. -/
abbrev TableRoutine := Routine PcbTable TableStop

namespace PcbTable

/-- The table before anything is added. -/
def empty : PcbTable := ⟨fun _ => none, 0, 0⟩

/-- The loop of `pcb_table_rearrange` for so many more entries; it answers `j` as well. -/
def squeeze (entry : Nat → Option PcbRef) (i j : Nat) : Nat → (Nat → Option PcbRef) × Nat
  | 0 => (entry, j)
  | more + 1 =>
    match entry i with
    | none => squeeze entry (i + 1) j more
    | some p => squeeze (Function.update entry j (some p)) (i + 1) (j + 1) more

/-- `pcb_table_rearrange`. -/
def rearrange : TableRoutine Unit := do
  let t ← get
  let (entry, j) := squeeze t.entry 0 0 t.freePt
  stopIf ((j : Int) ≠ t.procYmr) .rearranging
  set { t with freePt := j, entry := fun i => if j ≤ i ∧ i < pcbTableSize then none else entry i }

/-- The write of `pcb_table_add`. -/
def append (p : PcbRef) : TableRoutine Int := do
  let t ← get
  stopIf (pcbTableSize ≤ t.freePt) .overrun
  set { entry := Function.update t.entry t.freePt (some p), procYmr := t.procYmr + 1,
        freePt := t.freePt + 1 : PcbTable }
  return t.freePt

/-- `pcb_table_add`. -/
def add (p : PcbRef) : TableRoutine Int := do
  let t ← get
  if (pcbTableSize : Int) ≤ t.procYmr then return -1
  else if pcbTableSize ≤ t.freePt then
    rearrange
    append p
  else append p

/-- `pcb_table_del`. -/
def del (p : PcbRef) : TableRoutine Int := do
  let t ← get
  match (List.range t.freePt).find? fun i => t.entry i = some p with
  | none => return -1
  | some i =>
    set { t with entry := Function.update t.entry i none, procYmr := t.procYmr - 1 }
    return i

/-- The loop of `pcb_search` and `pcb_search_tcb`, with what they look for. -/
def search (t : PcbTable) (found : PcbRef → Bool) : Option PcbRef :=
  (List.range t.freePt).findSome? fun i => (t.entry i).filter found

/-- `pcb_search`. -/
def pcbSearch (t : PcbTable) (pcb : PcbRef → Pcb) (pid : Nat) : Option PcbRef :=
  t.search fun h => (pcb h).pid = pid

/-- `pcb_search_tcb`, where `pid` is that of the current process. -/
def pcbSearchTcb (t : PcbTable) (pcb : PcbRef → Pcb) (pid tid : Nat) : Option PcbRef :=
  t.search fun h => (pcb h).pid = pid ∧ (pcb h).tid = tid

/-- `pcb_search_all`: what it writes to `farr[]`. -/
def pcbSearchAll (t : PcbTable) (pcb : PcbRef → Pcb) (pid : Nat) : List PcbRef :=
  (List.range t.freePt).filterMap fun i => (t.entry i).filter fun h => (pcb h).pid = pid

end PcbTable

/-- What may be done to the table. -/
inductive TableOp
  /-- A new PCB is added. -/
  | add (p : PcbRef)
  /-- A PCB is deleted. -/
  | del (p : PcbRef)

/-- One operation on the table. -/
def tableStep : TableOp → TableRoutine Int
  | .add p => PcbTable.add p
  | .del p => PcbTable.del p

end GlucOS.Sched
