import GlucOS.Mm.ForkLaws
import GlucOS.Mm.Teardown

/-! The state between two events: page tables, frames, PCBs and segments belong together. -/

namespace GlucOS

open Routine

/-- Segments are low, and pages lie in the segment or on the stack of their process. -/
structure Placed (table : List Tcb) (space : Nat → Nat → Leaf) : Prop where
  /-- Segments lie far below the stacks. -/
  low : ∀ tcb ∈ table, ncpu ≤ tcb.pid →
    tcb.segStart + usegMax ≤ 2 ^ 31 ∧ tcb.segEnd ≤ 2 ^ 31
  /-- Pages begin below the end of the segment, or on the stack. -/
  inside : ∀ tcb ∈ table, ncpu ≤ tcb.pid → ∀ vpn, space tcb.pid vpn ≠ .untouched →
    vpn * normalPageSize < tcb.segEnd ∨
      userSp - ustackNpg * normalPageSize ≤ vpn * normalPageSize

/-- Memory management is consistent, and so are the PCBs. -/
structure Consistent (mm : Mm) (role : Nat → Role) (space : Nat → Nat → Leaf)
    (procs : Finset Nat) : Prop where
  /-- Page tables, page frames, swap pages and shared pages. -/
  ok : Ok mm role space procs none
  /-- The PCBs against the page tables. -/
  tasks : TasksOk mm role procs
  /-- The segments. -/
  segs : SegsOk mm.pcbTable
  /-- The segments against the pages. -/
  placed : Placed mm.pcbTable space

/-- The state is consistent with some address spaces. -/
def Mm.Sound (mm : Mm) : Prop := ∃ role space procs, Consistent mm role space procs

/--
A shared page that is in use stays in use and keeps its frame, or the frame is free afterwards.
-/
def SharesOn (mm next : Mm) : Prop :=
  ∀ id < nshm, (mm.shmCtrl id).Active →
    ((next.shmCtrl id).Active ∧ (next.shmCtrl id).pgidx = (mm.shmCtrl id).pgidx) ∨
      (¬ (next.shmCtrl id).Active ∧ next.pgCharmap (mm.shmCtrl id).pgidx = cmapFree)

/-- Every shared page that is in use stays in use and keeps its frame. -/
def SharesStay (mm next : Mm) : Prop :=
  ∀ id < nshm, (mm.shmCtrl id).Active →
    (next.shmCtrl id).Active ∧ (next.shmCtrl id).pgidx = (mm.shmCtrl id).pgidx

/-- What every event does: the next state is consistent, and shared pages go on or are freed. -/
structure GoesTo (mm next : Mm) : Prop where
  /-- It is consistent. -/
  sound : next.Sound
  /-- Shared pages. -/
  shares : SharesOn mm next

variable {mm next : Mm} {role role' : Nat → Role} {space space' : Nat → Nat → Leaf}
  {procs : Finset Nat} {accepted : MmStop → Prop} {cpu : Nat} {ccpu : Tcb}

/-- Fewer PCBs and fewer pages. -/
theorem Placed.fewer {table table' : List Tcb} (placed : Placed table space)
    (members : ∀ tcb ∈ table', tcb ∈ table)
    (touched : ∀ pid vpn, space' pid vpn ≠ .untouched → space pid vpn ≠ .untouched) :
    Placed table' space' where
  low tcb mem := placed.low tcb (members tcb mem)
  inside tcb mem isUser vpn now :=
    placed.inside tcb (members tcb mem) isUser vpn (touched tcb.pid vpn now)

/-- Pages that a process touches in its segment or on its stack. -/
theorem Placed.touch {table : List Tcb} (placed : Placed table space) (segs : SegsOk table)
    {tcb : Tcb} (mem : tcb ∈ table) {page : Nat}
    (legal : page * normalPageSize < tcb.segEnd ∨
      userSp - ustackNpg * normalPageSize ≤ page * normalPageSize)
    (touched : ∀ pid vpn, space' pid vpn ≠ .untouched →
      space pid vpn ≠ .untouched ∨ (pid = tcb.pid ∧ vpn = page)) : Placed table space' where
  low := placed.low
  inside other mem' isUser vpn now := by
    obtain before | ⟨same, rfl⟩ := touched other.pid vpn now
    · exact placed.inside other mem' isUser vpn before
    · rw [(segs.agree other mem' tcb mem same).2]
      exact legal

/-- Shared pages that nothing was done to. -/
theorem SharesStay.of_same (same : next.shmCtrl = mm.shmCtrl) : SharesStay mm next := by
  intro id _ active
  rw [same]
  exact ⟨active, rfl⟩

/-- Staying in use twice. -/
theorem SharesStay.trans {mid : Mm} (first : SharesStay mm mid) (second : SharesStay mid next) :
    SharesStay mm next := by
  intro id small active
  obtain ⟨active', frame⟩ := first id small active
  obtain ⟨active'', frame'⟩ := second id small active'
  exact ⟨active'', frame'.trans frame⟩

/-- Shared pages that stay in use go on. -/
theorem SharesStay.on (stay : SharesStay mm next) : SharesOn mm next :=
  fun id small active => Or.inl (stay id small active)

/-- Shared pages that nothing was done to go on. -/
theorem SharesOn.of_same (same : next.shmCtrl = mm.shmCtrl) : SharesOn mm next :=
  (SharesStay.of_same same).on

/-- A consistent state after an event that did nothing to shared pages. -/
theorem Consistent.goesTo (sound : Consistent next role space procs)
    (same : next.shmCtrl = mm.shmCtrl) : GoesTo mm next :=
  ⟨⟨role, space, procs, sound⟩, .of_same same⟩

/-- Shared pages whose users are discounted when they give up their pages. -/
theorem ResOk.released {procs' : Finset Nat} (res : ResOk mm space procs none)
    (res' : ResOk next space' procs' none)
    (kept : ∀ pid vpn, space' pid vpn ≠ .untouched → space' pid vpn = space pid vpn)
    (fewer : ∀ id, (next.shmCtrl id).pgidx = (mm.shmCtrl id).pgidx ∧
      (next.shmCtrl id).nproc ≤ (mm.shmCtrl id).nproc) : SharesOn mm next := by
  intro id small active
  by_cases active' : (next.shmCtrl id).Active
  · exact Or.inl ⟨active', (fewer id).1⟩
  refine Or.inr ⟨active', ?_⟩
  obtain ⟨inside, common⟩ := res.shm.marked res.frames small active
  -- Whoever still used the frame would use it through this shared page.
  have unused : ∀ pid vpn, ¬ (space' pid vpn).Uses (mm.shmCtrl id).pgidx := by
    intro pid vpn uses
    have touched : space' pid vpn ≠ .untouched := by
      intro untouched
      rw [untouched] at uses
      simp [Leaf.Uses] at uses
    obtain cow | shared := uses
    · rw [kept pid vpn touched] at cow
      exact res.shm.notCow id small active pid vpn cow
    · obtain ⟨other, small', otherActive, frame⟩ := res'.shm.known pid vpn _ shared
      obtain ⟨frameBefore, less⟩ := fewer other
      have before : (mm.shmCtrl other).Active := Nat.lt_of_lt_of_le otherActive less
      have same := res.shm.apart other small' id small before active (frameBefore.symm.trans frame)
      exact active' (same ▸ otherActive)
  by_contra used
  by_cases shared : next.pgCharmap (mm.shmCtrl id).pgidx = cmapShared
  · obtain ⟨some_, counts⟩ := res'.frames.counted _ inside shared
    have nobody : users space' (mm.shmCtrl id).pgidx = ∅ := by
      apply Set.eq_empty_of_forall_notMem
      intro page uses
      exact unused page.1 page.2 uses
    rw [nobody, Set.ncard_empty] at counts
    omega
  · obtain ⟨pid, vpn, own⟩ := res'.frames.owned _ inside used shared (by simp)
    rw [kept pid vpn (by simp [own])] at own
    obtain ⟨named, -, owner, -⟩ := res.frames.priv pid vpn _ own
    rw [common] at owner
    exact named.not_shared owner.symm

-- The bounds of loops are numerals, which nothing should unroll.
attribute [local irreducible] forUpto

/-! ## Exits -/

/-- The threads that `do_kill` of a process keeps. -/
def Mm.keeps (mm : Mm) (pid : Nat) (other : Tcb) : Bool := other.pid ≠ pid ∨ mm.running other

/-- Pages that are left when a process has given up its own are as they were. -/
theorem dropSpace_kept {pid other vpn : Nat} (now : dropSpace space pid other vpn ≠ .untouched) :
    dropSpace space pid other vpn = space other vpn := by
  unfold dropSpace at now ⊢
  split at now
  · exact absurd rfl now
  · rename_i differ
    rw [if_neg differ]

/-- A process has terminated, and nothing else has happened. -/
structure Terminates (mm : Mm) (role : Nat → Role) (space : Nat → Nat → Leaf)
    (procs : Finset Nat) (pid : Nat) (next : Mm) : Prop where
  /-- The state is consistent without the process. -/
  sound : Consistent next (dropRoles role pid) (dropSpace space pid) (procs.erase pid)
  /-- It gave up its pages and tables. -/
  gives : GivesUp role pid { mm with pcbTable := next.pcbTable } next
  /-- Its PCBs are gone. -/
  members : ∀ tcb, tcb ∈ next.pcbTable ↔ tcb ∈ mm.pcbTable ∧ tcb.pid ≠ pid

/-- `do_kill` deletes threads that do not run, and with the last one the address space. -/
theorem doKill_meets (pid : Nat) (sound : Consistent mm role space procs) :
    Meets accepted (doKill cpu pid) mm fun _ next =>
      (Consistent next role space procs ∧ next.shmCtrl = mm.shmCtrl) ∨
        Terminates mm role space procs pid next := by
  unfold doKill
  apply meets_ite
  · intro _
    exact Or.inl ⟨sound, rfl⟩
  intro isUser
  simp only [meets_get_bind]
  cases found : mm.pcbSearch pid with
  | none => exact Or.inl ⟨sound, rfl⟩
  | some tcb =>
    have inTable : tcb ∈ mm.pcbTable := List.mem_of_find?_eq_some found
    have isPid : tcb.pid = pid := by simpa using List.find?_some found
    obtain ⟨inProcs, root⟩ := sound.tasks.home tcb inTable (by omega)
    apply meets_stopIf_bind
    · -- All threads of a process have its top table.
      intro differs
      obtain ⟨other, mem, same, differ⟩ := differs
      have otherRoot := (sound.tasks.home other mem (by omega)).2
      rw [same] at otherRoot
      rw [isPid] at root
      exact absurd (sound.ok.shape.unique _ _ pid [] otherRoot root) differ
    intro _
    simp only [meets_modify_bind, meets_get_bind]
    have runs : ∀ i < ncpu, ∀ tcb, mm.curCpu i = some tcb →
        mm.keeps pid tcb = true := by
      intro i small running isRunning
      apply decide_eq_true
      right
      unfold Mm.running
      rw [List.any_eq_true]
      refine ⟨i, List.mem_range.mpr small, ?_⟩
      have matching := List.find?_some isRunning
      simp only [decide_eq_true_eq] at matching ⊢
      exact matching.symm
    apply meets_ite
    · -- No thread is left, so the address space goes too.
      intro empty
      have gone : ∀ other ∈ mm.pcbTable, other.pid = pid →
          mm.keeps pid other = false := by
        intro other mem same
        have noneLeft := List.countP_eq_zero.mp empty
        by_contra kept
        have stays : other ∈ mm.pcbTable.filter (mm.keeps pid) :=
          List.mem_filter.mpr ⟨mem, by simpa using kept⟩
        exact noneLeft other stays (decide_eq_true same)
      have members : ∀ other, other ∈ mm.pcbTable.filter (mm.keeps pid) ↔
          other ∈ mm.pcbTable ∧ other.pid ≠ pid := by
        intro other
        rw [List.mem_filter]
        constructor
        · intro kept
          refine ⟨kept.1, ?_⟩
          intro same
          rw [gone other kept.1 same] at kept
          cases kept.2
        · intro old
          exact ⟨old.1, decide_eq_true (Or.inl old.2)⟩
      have ok : Ok { mm with pcbTable := mm.pcbTable.filter (mm.keeps pid) } role space procs
          none := { sound.ok with }
      rw [isPid] at root
      apply Meets.bind (freePagesOfProc_meets ok root)
      intro _ next released
      obtain ⟨ok', gives⟩ := released
      have members' : ∀ other, other ∈ next.pcbTable ↔
          other ∈ mm.pcbTable ∧ other.pid ≠ pid := by
        rw [gives.same]
        exact members
      have table : next.pcbTable = mm.pcbTable.filter (mm.keeps pid) := by rw [gives.same]
      refine Or.inr ⟨⟨ok', ?_, ?_, ?_⟩, by rw [table]; exact gives, members'⟩
      · apply sound.tasks.remove (Nat.le_of_not_lt isUser) members'
        · intro i small
          obtain ⟨running, isRunning⟩ := sound.tasks.runs i small
          apply curCpu_filter isRunning (runs i small running isRunning)
          · rw [gives.same]
          · rw [gives.same]
      · rw [gives.same]
        exact sound.segs.filter _
      · rw [gives.same]
        apply sound.placed.fewer
        · intro other mem
          exact List.mem_of_mem_filter mem
        · intro other vpn now
          rw [← dropSpace_kept now]
          exact now
    · intro left
      refine Or.inl ⟨⟨{ sound.ok with }, ?_, sound.segs.filter _, ?_⟩, rfl⟩
      · apply @TasksOk.filter mm _ role procs sound.tasks (mm.keeps pid)
        · intro other mem
          by_cases same : other = pid
          · -- Some thread of the process runs.
            subst same
            rw [Mm.pcbCount, List.countP_eq_zero] at left
            push Not at left
            obtain ⟨thread, kept, isOther⟩ := left
            have parts := List.mem_filter.mp kept
            exact ⟨thread, parts.1, by simpa using isOther, parts.2⟩
          · obtain ⟨thread, old, isOther⟩ := sound.tasks.alive other mem
            exact ⟨thread, old, isOther, decide_eq_true (Or.inl (by omega))⟩
        · intro i small
          obtain ⟨idle, mem, isIdle⟩ := sound.tasks.idle i small
          exact ⟨idle, mem, isIdle, decide_eq_true (Or.inl (by omega))⟩
        · exact runs
        · rfl
        · rfl
      · exact sound.placed.fewer (fun other mem => List.mem_of_mem_filter mem) fun _ _ now => now

/-- `do_kill` leads to a consistent state. -/
theorem doKill_sound (pid : Nat) (sound : Consistent mm role space procs) :
    Meets accepted (doKill cpu pid) mm fun _ next => GoesTo mm next := by
  apply Meets.mono (doKill_meets pid sound)
  intro _ next done
  obtain ⟨sound', same⟩ | terminates := done
  · exact sound'.goesTo same
  · exact ⟨⟨_, _, _, terminates.sound⟩, sound.ok.toResOk.released terminates.sound.ok.toResOk
      (fun _ _ => dropSpace_kept) terminates.gives.shm⟩

end GlucOS
