import GlucOS.Mm.ExecLaws
import GlucOS.Mm.SegmentLaws

/-! Process and thread identifiers: found by search, reused, and never those of two threads. -/

namespace GlucOS

open Routine

/-- `pcb_search_all`: the threads of a process, as they are stored into the array of the caller. -/
def Mm.pcbSearchAll (mm : Mm) (pid : Nat) : List Tcb := mm.pcbTable.filter fun tcb => tcb.pid = pid

/-- It answers how many it stores. -/
theorem Mm.length_pcbSearchAll (mm : Mm) (pid : Nat) :
    (mm.pcbSearchAll pid).length = mm.pcbCount pid := by
  unfold Mm.pcbSearchAll Mm.pcbCount
  rw [List.countP_eq_length_filter]

/-- The identifiers of all threads are in order. -/
structure IdentsOk (table : List Tcb) : Prop where
  /-- No two threads of a process have the same identifier. -/
  distinct : table.Pairwise fun left right => left.pid = right.pid → left.tid ≠ right.tid
  /-- Thread identifiers go up to `TID_MAX`. -/
  small : ∀ tcb ∈ table, tcb.tid ≤ tidMax
  /-- Threads of one process have the same page directory. -/
  home : ∀ left ∈ table, ∀ right ∈ table, left.pid = right.pid → left.pgdir = right.pgdir

namespace IdentsOk

variable {table : List Tcb}

/-- Deleting threads leaves the others as they are. -/
theorem filter (ok : IdentsOk table) (stays : Tcb → Bool) : IdentsOk (table.filter stays) where
  distinct := ok.distinct.filter stays
  small tcb mem := ok.small tcb (List.mem_of_mem_filter mem)
  home left mem right mem' :=
    ok.home left (List.mem_of_mem_filter mem) right (List.mem_of_mem_filter mem')

/-- A thread may join if its identifier is free in its process. -/
theorem add (ok : IdentsOk table) {new : Tcb} (bound : new.tid ≤ tidMax)
    (free : ∀ tcb ∈ table, tcb.pid = new.pid → tcb.tid ≠ new.tid)
    (home : ∀ tcb ∈ table, tcb.pid = new.pid → tcb.pgdir = new.pgdir) :
    IdentsOk (table ++ [new]) where
  distinct := by
    rw [List.pairwise_append]
    constructor
    · exact ok.distinct
    constructor
    · exact List.pairwise_singleton _ _
    · intro tcb mem other isNew
      rw [List.mem_singleton] at isNew
      subst isNew
      exact free tcb mem
  small := by
    intro tcb mem
    rw [List.mem_append, List.mem_singleton] at mem
    rcases mem with mem | rfl
    · exact ok.small tcb mem
    · exact bound
  home := by
    intro left mem right mem' same
    rw [List.mem_append, List.mem_singleton] at mem mem'
    -- Only pairs with the new thread are new.
    rcases mem with mem | rfl
    · rcases mem' with mem' | rfl
      · exact ok.home left mem right mem' same
      · exact home left mem same
    · rcases mem' with mem' | rfl
      · exact (home right mem' same.symm).symm
      · rfl

/-- Changes of other fields do not matter. -/
theorem map (ok : IdentsOk table) {change : Tcb → Tcb}
    (keeps : ∀ tcb, (change tcb).pid = tcb.pid ∧ (change tcb).tid = tcb.tid ∧
      (change tcb).pgdir = tcb.pgdir) : IdentsOk (table.map change) where
  distinct := by
    rw [List.pairwise_map]
    apply ok.distinct.imp
    intro left right apart same
    rw [(keeps left).2.1, (keeps right).2.1]
    rw [(keeps left).1, (keeps right).1] at same
    exact apart same
  small := by
    intro tcb mem
    obtain ⟨old, isOld, rfl⟩ := List.mem_map.mp mem
    rw [(keeps old).2.1]
    exact ok.small old isOld
  home := by
    intro left mem right mem' same
    obtain ⟨old, isOld, rfl⟩ := List.mem_map.mp mem
    obtain ⟨old', isOld', rfl⟩ := List.mem_map.mp mem'
    rw [(keeps old).2.2, (keeps old').2.2]
    rw [(keeps old).1, (keeps old').1] at same
    exact ok.home old isOld old' isOld' same

/-- Every change of `pcb_table` keeps the identifiers in order. -/
theorem change (ok : IdentsOk table) {next : List Tcb} (change : PcbChange table next) :
    IdentsOk next := by
  cases change with
  | born fresh segment =>
    -- No thread has the process identifier of the new one.
    apply ok.add (Nat.zero_le _)
    · intro tcb mem same
      exact absurd same (fresh tcb mem)
    · intro tcb mem same
      exact absurd same (fresh tcb mem)
  | @thread creator tid mem bound free =>
    apply ok.add bound free
    intro tcb mem' same
    exact ok.home tcb mem' creator mem same
  | gone stays => exact ok.filter stays
  | segment mem low high order =>
    apply ok.map
    intro tcb
    split
    · exact ⟨rfl, rfl, rfl⟩
    · exact ⟨rfl, rfl, rfl⟩

/-- The idle processes have different identifiers and one page directory. -/
theorem idle : IdentsOk ((List.range ncpu).map fun cpu => ⟨cpu, 0, 0, 0, 0⟩) where
  distinct := by decide
  small := by decide
  home := by
    intro left mem right mem' _
    obtain ⟨_, -, rfl⟩ := List.mem_map.mp mem
    obtain ⟨_, -, rfl⟩ := List.mem_map.mp mem'
    rfl

/-- The identifiers are in order in every state reached. -/
theorem of_reached {start mm : Mm} (atFirst : start.Idle)
    (reached : Reaches mmMachine (fun _ _ => True) start mm) : IdentsOk mm.pcbTable := by
  have base : IdentsOk start.pcbTable := by
    rw [atFirst]
    exact idle
  apply @Reaches.invariant _ _ _ _ _ _ _ (fun mm => IdentsOk mm.pcbTable) base _ _ reached
  intro mm event ok _
  apply (mmStep_pcbs event.1 event.2 mm).mono
  intro _ next steps
  exact steps.invariant ok fun _ _ change before => before.change change

/-- A process has at most one thread for each identifier. -/
theorem count_le {mm : Mm} (ok : IdentsOk mm.pcbTable) (pid : Nat) :
    (mm.pcbSearchAll pid).length ≤ tidMax + 1 := by
  -- The thread identifiers are different, and there are so many of them.
  have distinct : ((mm.pcbSearchAll pid).map Tcb.tid).Nodup := by
    unfold List.Nodup
    rw [List.pairwise_map]
    apply (ok.distinct.filter _).imp_of_mem
    intro left right mem mem' apart
    have own := List.of_mem_filter mem
    have own' := List.of_mem_filter mem'
    rw [decide_eq_true_eq] at own own'
    exact apart (own.trans own'.symm)
  have inside : (mm.pcbSearchAll pid).map Tcb.tid ⊆ List.range (tidMax + 1) := by
    intro tid mem
    obtain ⟨tcb, isThread, rfl⟩ := List.mem_map.mp mem
    have bound := ok.small tcb (List.mem_of_mem_filter isThread)
    exact List.mem_range.mpr (by omega)
  have few := (distinct.subperm inside).length_le
  rwa [List.length_map, List.length_range] at few

end IdentsOk

/--
In every state reached the identifiers are in order, no caller of `pcb_search_all` gets more threads
than its array holds, `create_proc` finds an identifier when it looks for one, and `do_kill` finds no
two page directories.
-/
theorem idents_in_order {start mm : Mm} (idle : start.Idle)
    (reached : Reaches mmMachine (fun _ _ => True) start mm) :
    IdentsOk mm.pcbTable ∧
      (∀ left ∈ mm.pcbTable, ∀ right ∈ mm.pcbTable, left.pgdir ≠ right.pgdir →
        left.pid ≠ right.pid) ∧
      (∀ pid, (mm.pcbSearchAll pid).length ≤ tidMax + 1) ∧
      (mm.procNum < uprocMax + ncpu → allocPid mm ≠ none) ∧
      ∀ pid tcb, mm.pcbSearch pid = some tcb →
        ¬ ∃ other ∈ mm.pcbTable, other.pid = pid ∧ other.pgdir ≠ tcb.pgdir := by
  have ok := IdentsOk.of_reached idle reached
  constructor
  · exact ok
  constructor
  · intro left mem right mem' apart same
    exact apart (ok.home left mem right mem' same)
  constructor
  · exact ok.count_le
  constructor
  · exact allocPid_ne_none
  · intro pid tcb found differs
    obtain ⟨other, mem, own, apart⟩ := differs
    have isPid : tcb.pid = pid := by simpa using List.find?_some found
    have mem' := List.mem_of_find?_eq_some found
    exact apart (ok.home other mem tcb mem' (own.trans isPid.symm))

/-- The program that was loaded has made a thread, and a second process has been created. -/
theorem idents_in_order_threads : ∃ mm : Mm, (mm.pcbSearchAll 2).length = 2 ∧
    (mm.pcbSearchAll 3).length = 1 ∧ IdentsOk mm.pcbTable := by
  have left : (runEvents mmMachine idleMm (firstRun ++ [(0, .threadCreate false),
      (1, .exec (some ⟨0x10000, 0x10000, 0, 8, fun _ => 0⟩) ⟨false, false⟩ 0 [])])).map
        (fun mm : Mm => ((mm.pcbSearchAll 2).length, (mm.pcbSearchAll 3).length)) = some (2, 1) := by
    decide +kernel
  obtain ⟨mm, ran, counts⟩ := Option.map_eq_some_iff.mp left
  rw [Prod.mk.injEq] at counts
  have idle : idleMm.Idle := rfl
  exact ⟨mm, counts.1, counts.2, (idents_in_order idle (.of_events ran)).1⟩

end GlucOS
