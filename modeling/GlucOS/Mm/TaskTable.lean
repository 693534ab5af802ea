import GlucOS.Mm.Invariant
import GlucOS.Mm.Tasks

/-! `pcb_table` against the page tables: every process has its top table, and nobody else has. -/

namespace GlucOS

/-- The PCBs and the top page tables belong together. -/
structure TasksOk (mm : Mm) (role : Nat → Role) (procs : Finset Nat) : Prop where
  /-- Every PCB of a user process has the top table of the process. -/
  home : ∀ tcb ∈ mm.pcbTable, ncpu ≤ tcb.pid → tcb.pid ∈ procs ∧ role tcb.pgdir = .node tcb.pid []
  /-- Every process has a PCB. -/
  alive : ∀ pid ∈ procs, ∃ tcb ∈ mm.pcbTable, tcb.pid = pid
  /-- User processes have other identifiers than idle ones. -/
  user : ∀ pid ∈ procs, ncpu ≤ pid
  /-- Top tables are those of processes. -/
  roots : ∀ table pid, role table = .node pid [] → pid ∈ procs
  /-- Every processor has its idle process. -/
  idle : ∀ cpu < ncpu, ∃ tcb ∈ mm.pcbTable, tcb.pid = cpu
  /-- Every processor runs something. -/
  runs : ∀ cpu < ncpu, ∃ tcb, mm.curCpu cpu = some tcb

/-- What runs is not deleted, so the processor still runs it. -/
theorem curCpu_filter {mm next : Mm} {cpu : Nat} {tcb : Tcb} {stays : Tcb → Bool}
    (found : mm.curCpu cpu = some tcb) (kept : stays tcb = true)
    (table : next.pcbTable = mm.pcbTable.filter stays) (current : next.current = mm.current) :
    ∃ first, next.curCpu cpu = some first := by
  unfold Mm.curCpu at found ⊢
  rw [table, current]
  -- The search ends at the thread that is kept, or before.
  cases again : (mm.pcbTable.filter stays).find? fun tcb =>
      decide ((tcb.pid, tcb.tid) = mm.current cpu) with
  | some first => exact ⟨first, rfl⟩
  | none =>
    rw [List.find?_eq_none] at again
    have matching := List.find?_some found
    exact absurd matching (again tcb (List.mem_filter.mpr ⟨List.mem_of_find?_eq_some found, kept⟩))

namespace TasksOk

variable {mm next : Mm} {role role' : Nat → Role} {procs : Finset Nat} {cpu : Nat} {ccpu : Tcb}

/-- Every process is found. -/
theorem homed (tasks : TasksOk mm role procs) : Homed mm role procs := by
  intro pid mem
  obtain ⟨tcb, inTable, rfl⟩ := tasks.alive pid mem
  cases found : mm.pcbSearch tcb.pid with
  | none =>
    unfold Mm.pcbSearch at found
    rw [List.find?_eq_none] at found
    exact absurd (decide_eq_true rfl) (found tcb inTable)
  | some first =>
    have isPid : first.pid = tcb.pid := by simpa using List.find?_some found
    have home := tasks.home first (List.mem_of_find?_eq_some found)
      (by rw [isPid]; exact tasks.user _ mem)
    refine ⟨first, rfl, ?_⟩
    rw [home.2, isPid]

/-- The process that runs is in the table. -/
theorem current_mem (runs : mm.curCpu cpu = some ccpu) : ccpu ∈ mm.pcbTable :=
  List.mem_of_find?_eq_some runs

/-- There is a PCB for each process and for each processor. -/
theorem card_le (tasks : TasksOk mm role procs) : procs.card + ncpu ≤ mm.procNum := by
  have apart : Disjoint procs (Finset.range ncpu) := by
    rw [Finset.disjoint_left]
    intro pid mem small
    exact absurd (tasks.user pid mem) (Nat.not_le.mpr (Finset.mem_range.mp small))
  have listed : procs ∪ Finset.range ncpu ⊆ (mm.pcbTable.map Tcb.pid).toFinset := by
    intro pid mem
    rw [List.mem_toFinset, List.mem_map]
    obtain mem | small := Finset.mem_union.mp mem
    · exact tasks.alive pid mem
    · exact tasks.idle pid (Finset.mem_range.mp small)
  calc procs.card + ncpu = (procs ∪ Finset.range ncpu).card := by
        rw [Finset.card_union_of_disjoint apart, Finset.card_range]
    _ ≤ (mm.pcbTable.map Tcb.pid).toFinset.card := Finset.card_le_card listed
    _ ≤ (mm.pcbTable.map Tcb.pid).length := List.toFinset_card_le _
    _ = mm.procNum := List.length_map _

/-- New tables that are no top tables do not matter. -/
theorem later (tasks : TasksOk mm role procs) (grows : Grows role role')
    (noRoots : NoRoots role role') (same : next.tasks = mm.tasks) : TasksOk next role' procs := by
  have table : next.pcbTable = mm.pcbTable := congrArg Prod.fst same
  have current : next.current = mm.current := congrArg (fun part => part.2.1) same
  constructor
  · intro tcb mem isUser
    rw [table] at mem
    obtain ⟨inProcs, root⟩ := tasks.home tcb mem isUser
    exact ⟨inProcs, by rw [grows _ (by simp [root]), root]⟩
  · rw [table]
    exact tasks.alive
  · exact tasks.user
  · intro top pid is
    exact tasks.roots top pid (noRoots top pid is)
  · rw [table]
    exact tasks.idle
  · unfold Mm.curCpu
    rw [table, current]
    exact tasks.runs

/-- PCBs that change in other fields keep their place. -/
theorem map (tasks : TasksOk mm role procs) {change : Tcb → Tcb}
    (keeps : ∀ tcb, (change tcb).pid = tcb.pid ∧ (change tcb).tid = tcb.tid ∧
      (change tcb).pgdir = tcb.pgdir)
    (table : next.pcbTable = mm.pcbTable.map change) (current : next.current = mm.current) :
    TasksOk next role procs := by
  constructor
  · intro tcb mem isUser
    rw [table] at mem
    obtain ⟨old, oldMem, rfl⟩ := List.mem_map.mp mem
    obtain ⟨pid, -, pgdir⟩ := keeps old
    rw [pid] at isUser
    rw [pid, pgdir]
    exact tasks.home old oldMem isUser
  · intro pid mem
    obtain ⟨old, oldMem, isPid⟩ := tasks.alive pid mem
    exact ⟨change old, by rw [table]; exact List.mem_map_of_mem oldMem, (keeps old).1.trans isPid⟩
  · exact tasks.user
  · exact tasks.roots
  · intro cpu small
    obtain ⟨old, oldMem, isPid⟩ := tasks.idle cpu small
    exact ⟨change old, by rw [table]; exact List.mem_map_of_mem oldMem, (keeps old).1.trans isPid⟩
  · intro cpu small
    obtain ⟨old, found⟩ := tasks.runs cpu small
    refine ⟨change old, ?_⟩
    unfold Mm.curCpu at found ⊢
    have same : (fun tcb : Tcb => decide ((tcb.pid, tcb.tid) = next.current cpu)) ∘ change =
        fun tcb => decide ((tcb.pid, tcb.tid) = mm.current cpu) := by
      funext tcb
      obtain ⟨pid, tid, -⟩ := keeps tcb
      simp only [Function.comp, pid, tid, current]
    rw [table, List.find?_map, same, found]
    rfl

/-- One more PCB, of a process that has its top table. -/
theorem add (tasks : TasksOk mm role procs) {new : Tcb} (grows : Grows role role')
    (roots : ∀ table pid, role' table = .node pid [] → pid = new.pid ∨ role table = .node pid [])
    (isUser : ncpu ≤ new.pid) (root : role' new.pgdir = .node new.pid [])
    (table : next.pcbTable = mm.pcbTable ++ [new]) (current : next.current = mm.current) :
    TasksOk next role' (insert new.pid procs) := by
  constructor
  · intro tcb mem user
    rw [table, List.mem_append, List.mem_singleton] at mem
    obtain old | rfl := mem
    · obtain ⟨inProcs, oldRoot⟩ := tasks.home tcb old user
      exact ⟨Finset.mem_insert_of_mem inProcs, by rw [grows _ (by simp [oldRoot]), oldRoot]⟩
    · exact ⟨Finset.mem_insert_self _ _, root⟩
  · intro pid mem
    rw [table]
    obtain rfl | old := Finset.mem_insert.mp mem
    · exact ⟨new, by simp, rfl⟩
    · obtain ⟨tcb, inTable, isPid⟩ := tasks.alive pid old
      exact ⟨tcb, List.mem_append_left _ inTable, isPid⟩
  · intro pid mem
    obtain rfl | old := Finset.mem_insert.mp mem
    · exact isUser
    · exact tasks.user pid old
  · intro top pid is
    obtain rfl | old := roots top pid is
    · exact Finset.mem_insert_self _ _
    · exact Finset.mem_insert_of_mem (tasks.roots top pid old)
  · intro cpu small
    obtain ⟨tcb, inTable, isPid⟩ := tasks.idle cpu small
    exact ⟨tcb, by rw [table]; exact List.mem_append_left _ inTable, isPid⟩
  · intro cpu small
    obtain ⟨tcb, found⟩ := tasks.runs cpu small
    refine ⟨tcb, ?_⟩
    unfold Mm.curCpu at found ⊢
    rw [table, current, List.find?_append, found]
    rfl

/-- Some PCBs are deleted, but none that runs and no process's last one. -/
theorem filter (tasks : TasksOk mm role procs) {stays : Tcb → Bool}
    (alive : ∀ pid ∈ procs, ∃ tcb ∈ mm.pcbTable, tcb.pid = pid ∧ stays tcb = true)
    (idle : ∀ cpu < ncpu, ∃ tcb ∈ mm.pcbTable, tcb.pid = cpu ∧ stays tcb = true)
    (running : ∀ cpu < ncpu, ∀ tcb, mm.curCpu cpu = some tcb → stays tcb = true)
    (table : next.pcbTable = mm.pcbTable.filter stays) (current : next.current = mm.current) :
    TasksOk next role procs := by
  constructor
  · intro tcb mem isUser
    rw [table] at mem
    exact tasks.home tcb (List.mem_of_mem_filter mem) isUser
  · intro pid mem
    obtain ⟨tcb, inTable, isPid, kept⟩ := alive pid mem
    exact ⟨tcb, by rw [table]; exact List.mem_filter.mpr ⟨inTable, kept⟩, isPid⟩
  · exact tasks.user
  · exact tasks.roots
  · intro cpu small
    obtain ⟨tcb, inTable, isPid, kept⟩ := idle cpu small
    exact ⟨tcb, by rw [table]; exact List.mem_filter.mpr ⟨inTable, kept⟩, isPid⟩
  · intro cpu small
    obtain ⟨tcb, found⟩ := tasks.runs cpu small
    exact curCpu_filter found (running cpu small tcb found) table current

/-- A process goes with its PCBs and its page tables. -/
theorem remove (tasks : TasksOk mm role procs) {pid : Nat} (isUser : ncpu ≤ pid)
    (members : ∀ tcb, tcb ∈ next.pcbTable ↔ tcb ∈ mm.pcbTable ∧ tcb.pid ≠ pid)
    (runs : ∀ cpu < ncpu, ∃ tcb, next.curCpu cpu = some tcb) :
    TasksOk next (dropRoles role pid) (procs.erase pid) := by
  constructor
  · intro tcb mem user
    obtain ⟨old, differ⟩ := (members tcb).mp mem
    obtain ⟨inProcs, root⟩ := tasks.home tcb old user
    exact ⟨Finset.mem_erase.mpr ⟨differ, inProcs⟩, dropRoles_node.mpr ⟨root, differ⟩⟩
  · intro other mem
    obtain ⟨differ, old⟩ := Finset.mem_erase.mp mem
    obtain ⟨tcb, inTable, rfl⟩ := tasks.alive other old
    exact ⟨tcb, (members tcb).mpr ⟨inTable, differ⟩, rfl⟩
  · intro other mem
    exact tasks.user other (Finset.mem_of_mem_erase mem)
  · intro top other is
    obtain ⟨old, differ⟩ := dropRoles_node.mp is
    exact Finset.mem_erase.mpr ⟨differ, tasks.roots top other old⟩
  · intro cpu small
    obtain ⟨tcb, inTable, isPid⟩ := tasks.idle cpu small
    exact ⟨tcb, (members tcb).mpr ⟨inTable, by omega⟩, isPid⟩
  · exact runs

end TasksOk

end GlucOS
