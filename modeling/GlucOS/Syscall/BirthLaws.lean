import GlucOS.Loader.TaskLaws
import GlucOS.Mm.ReverseLaws
import GlucOS.Syscall.Birth

/-! A call that creates a process or a thread does all of it or leaves nothing behind. -/

namespace GlucOS

open Routine

variable {accepted : MmStop → Prop} {A B C : Type}

/-! ## Routines of memory management in larger ones -/

/-- What is left of a routine after its first step meets the same postcondition. -/
theorem Routine.Meets.peel {routine : MmRoutine A} {rest : A → MmRoutine B} {mm : Mm}
    {post : B → Mm → Prop} (whole : Meets accepted (routine >>= rest) mm post) :
    Meets accepted routine mm fun value next => Meets accepted (rest value) next post := by
  unfold Meets at *
  have unfolded : (routine >>= rest) mm =
      (routine mm).bind fun answer => rest answer.1 answer.2 := rfl
  rw [unfolded] at whole
  cases ran : routine mm with
  | error reason => rwa [ran] at whole
  | ok answer => rwa [ran] at whole

/-- A step of memory management, taken together with a routine that takes it too. -/
theorem meets_onMm_bind {routine : MmRoutine A} {alone : A → MmRoutine B}
    {rest : A → BirthRoutine C} {births : Births} {post : B → Mm → Prop}
    {after : C → Births → Prop} (whole : Meets accepted (routine >>= alone) births.mm post)
    (step : ∀ value mm, Meets accepted (alone value) mm post →
      Meets accepted (rest value) { births with mm } after) :
    Meets accepted (onMm routine >>= rest) births after := by
  -- The step of the other routine says what is left to do after it.
  have first := whole.peel
  have taken : Meets accepted (onMm routine) births fun value next =>
      ∃ mm, next = { births with mm } ∧ Meets accepted (alone value) mm post := by
    unfold Meets onMm at *
    cases ran : routine births.mm with
    | error reason => simpa only [ran] using first
    | ok answer =>
      simp only [ran] at first ⊢
      exact ⟨answer.2, rfl, first⟩
  apply taken.bind
  intro value next done
  obtain ⟨mm, rfl, left⟩ := done
  exact step value mm left

/-! ## Identifiers that nobody has -/

variable {mm next : Mm} {cpu : Nat}

/-- Nothing is marked with an identifier that no PCB has. -/
theorem Mm.Sound.unmarked (sound : mm.Sound) {pid : Nat} (named : Named pid)
    (fresh : ∀ tcb ∈ mm.pcbTable, tcb.pid ≠ pid) : mm.Unmarked pid := by
  obtain ⟨role, space, procs, sound⟩ := sound
  have lives : ∀ vpn, space pid vpn ≠ .untouched → False := by
    intro vpn touched
    obtain ⟨tcb, mem, isPid⟩ := sound.tasks.alive pid (sound.ok.procs.touched pid vpn touched)
    exact fresh tcb mem isPid
  constructor
  · intro frame inside mine
    have used : mm.pgCharmap frame ≠ cmapFree := by
      rw [mine]
      exact named.not_free
    have alone : mm.pgCharmap frame ≠ cmapShared := by
      rw [mine]
      exact named.not_shared
    -- A frame with an owner backs one of the owner's pages.
    obtain ⟨other, vpn, own⟩ := sound.ok.frames.owned frame inside used alone (by simp)
    obtain ⟨-, -, owner, -⟩ := sound.ok.frames.priv other vpn frame own
    rw [mine] at owner
    subst owner
    exact lives vpn (by simp [own])
  · intro table inside mine
    rw [sound.ok.tabs.marked table inside] at mine
    cases is : role table with
    | free =>
      rw [is] at mine
      exact named.not_free mine.symm
    | kernel =>
      rw [is] at mine
      have zero : 0 = pid := mine
      have low := named.1
      simp only [ncpu] at low
      omega
    | node owner path =>
      rw [is] at mine
      have same : owner = pid := mine
      subst same
      exact sound.tasks.absent sound.ok.shape fresh table path is
  · intro slot inside mine
    have used : mm.spgCharmap slot ≠ cmapFree := by
      rw [mine]
      exact named.not_free
    obtain ⟨other, vpn, is⟩ := sound.ok.slots.used slot inside used
    have owner := (sound.ok.slots.marked other vpn slot is).2
    rw [mine] at owner
    subst owner
    exact lives vpn (by simp [is])

/-! ## Memory of a process that was not created -/

/-- Memory management after a call that created nothing. -/
structure MmBack (mm next : Mm) : Prop where
  /-- `pcb_table` is as before. -/
  pcbTable : next.pcbTable = mm.pcbTable
  /-- No entry of the maps is marked for a process that has no PCB. -/
  unmarked : ∀ pid, ncpu ≤ pid → pid ≤ 2 * uprocMax →
    (∀ tcb ∈ mm.pcbTable, tcb.pid ≠ pid) → next.Unmarked pid

/-- The same `pcb_table` in a consistent state. -/
theorem MmBack.of_sound (sound : next.Sound) (same : next.pcbTable = mm.pcbTable) :
    MmBack mm next where
  pcbTable := same
  unmarked pid low high fresh := by
    apply sound.unmarked ⟨low, high⟩
    rwa [same]

section Calls

-- Loops over whole page tables are never to be run by the elaborator.
attribute [local irreducible] forUpto

/-- Nothing is said of what a routine does. -/
theorem meets_anything (routine : MmRoutine A) (mm : Mm) :
    Meets (fun _ => True) routine mm fun _ _ => True := by
  unfold Meets
  split <;> trivial

/-- The clean-up of `create_proc` returns nothing, and the new PCB is the one that goes. -/
theorem createFailed_table {tcb : Tcb} (pgdir : Nat)
    (table : next.pcbTable = mm.pcbTable ++ [tcb])
    (fresh : ∀ other ∈ mm.pcbTable, other.pid ≠ tcb.pid) :
    Meets (fun _ => True) (createFailed cpu pgdir tcb.pid) next fun out last =>
      out = none ∧ last.pcbTable = mm.pcbTable := by
  unfold createFailed
  apply Meets.bind ((freePagesOfProc_tasks _ _ _).meets next)
  intro _ freed kept
  have same : freed.pcbTable = next.pcbTable := congrArg Prod.fst kept
  simp only [meets_modify_bind, meets_pure]
  refine ⟨trivial, ?_⟩
  rw [same, table, List.filter_append, List.filter_eq_self.mpr, List.filter_cons,
    if_neg (by simp), List.filter_nil, List.append_nil]
  intro other mem
  exact decide_eq_true (fresh other mem)

/-- When `create_proc` returns nothing, `pcb_table` is as before. -/
theorem createProc_table (cpu : Nat) (img : Option TaskImg) (flags : CreateFlags) (mm : Mm) :
    Meets (fun _ => True) (createProc cpu img flags) mm fun out next =>
      out = none → next.pcbTable = mm.pcbTable := by
  unfold createProc
  simp only [meets_get_bind]
  apply meets_ite
  · intro _ _
    rfl
  intro _
  split
  · trivial
  · rename_i pid isNew
    have fresh := allocPid_fresh isNew
    apply Meets.bind ((allocPagetable_tasks pid).meets mm)
    intro pgdir here kept
    apply Meets.bind ((sharePgtable_tasks pgdir 0).meets here)
    intro _ shared kept'
    have same : shared.pcbTable = mm.pcbTable := congrArg Prod.fst (kept'.trans kept)
    apply meets_ite
    · intro _
      apply Meets.bind ((freePagesOfProc_tasks _ _ _).meets shared)
      intro _ freed kept'' _
      have table : freed.pcbTable = shared.pcbTable := congrArg Prod.fst kept''
      rw [table, same]
    intro _
    apply Meets.bind (pcbTableAdd_meets _ shared)
    intro _ added joined
    rw [same] at joined
    have failed : ∀ last : Mm, last.pcbTable = added.pcbTable →
        Meets (fun _ => True) (createFailed cpu pgdir pid) last fun out next =>
          out = none → next.pcbTable = mm.pcbTable := by
      intro last listed
      apply (createFailed_table pgdir (listed.trans joined) fresh).mono
      intro _ _ done _
      exact done.2
    split
    · exact failed added rfl
    · rename_i img
      apply Meets.bind (loadTaskImg_segment img pgdir pid)
      intro seg loaded filled
      have listed : loaded.pcbTable = added.pcbTable := congrArg Prod.fst filled.1
      apply meets_ite
      · exact fun _ => failed loaded listed
      intro _
      apply Meets.bind ((allocPageHelper_tasks _ _ _ _).discard.meets loaded)
      intro _ mapped kept₃
      have listed' : mapped.pcbTable = loaded.pcbTable := congrArg Prod.fst kept₃
      apply meets_ite
      · exact fun _ => failed mapped (listed'.trans listed)
      intro _
      simp only [meets_modify_bind, meets_pure]
      intro nothing
      cases nothing

/-- A process that has its page for the arguments. -/
def ArgPage (mm : Mm) (pid : Nat) : Prop := ∃ role space procs frame,
  Consistent mm role space procs ∧ pid ∈ procs ∧ space pid argPage = .priv frame

/-- Memory management after `create_proc`. -/
structure MmCreated (mm : Mm) (out : Option Nat) (next : Mm) : Prop where
  /-- Nothing was created. -/
  back : out = none → MmBack mm next
  /-- A process was. -/
  page : ∀ pid, out = some pid → ArgPage next pid

/-- `create_proc` leaves nothing in memory management, or a process. -/
theorem createProc_created (sound : mm.Sound) (img : Option TaskImg)
    (linked : ∀ program, img = some program → program.Linked) (flags : CreateFlags) :
    Meets exhaustion (createProc cpu img flags) mm (MmCreated mm) := by
  obtain ⟨role, space, procs, sound⟩ := sound
  have tables : exhaustion .noPageTable := Or.inl rfl
  have victims : exhaustion .noVictim := Or.inr (Or.inl rfl)
  have slots : exhaustion .noSwapPage := Or.inr (Or.inr rfl)
  have meets := @createProc_meets mm role space procs exhaustion cpu tables victims slots sound img
    linked flags
  apply (meets_both meets (createProc_table cpu img flags mm)).mono
  intro out next done
  -- A refusal leaves the old table in a sound state, a success keeps the page of the arguments.
  obtain ⟨⟨rfl, goes⟩ | ⟨pid, role', space', procs', frame, rfl, sound', -, mem, backed, -⟩,
    table⟩ := done
  · constructor
    · intro _
      exact .of_sound goes.sound (table rfl)
    · intro pid is
      cases is
  · constructor
    · intro is
      cases is
    · intro other is
      cases is
      exact ⟨role', space', procs', frame, sound', mem, backed⟩

/-! ## How `create_proc` ends -/

variable {env : BirthEnv} {before here : Births} {taskname : Option (Nat → Option UInt8)}

/-- `create_proc` comes to read the name, and meets an illegal address. -/
def NameEnds (env : BirthEnv) (births : Births) (taskname : Option (Nat → Option UInt8)) : Prop :=
  ∃ name, taskname = some name ∧ births.mm.procNum < uprocMax + ncpu ∧ env.noPcb = false ∧
    searchTask name env.tasks = .illegal

/-- `create_proc` finds all that a new process needs. -/
def Creates (env : BirthEnv) (births : Births) (taskname : Option (Nat → Option UInt8)) : Prop :=
  ∃ name task, taskname = some name ∧ births.mm.procNum < uprocMax + ncpu ∧ env.noPcb = false ∧
    searchTask name env.tasks = .found task ∧ task.img.vaddr % normalPageSize = 0 ∧
    task.sectors ≤ 64 ∧ env.noBuf = false ∧ task.img.entry ≠ 0 ∧ env.noStack = false

/-- A name that can be read does not end the caller. -/
theorem Creates.not_ends (creates : Creates env before taskname) :
    ¬ NameEnds env before taskname := by
  intro ends
  obtain ⟨name, task, is, -, -, found, -⟩ := creates
  obtain ⟨other, is', -, -, illegal⟩ := ends
  rw [is, Option.some_inj] at is'
  rw [← is', found] at illegal
  cases illegal

/-- The three ways in which `create_proc` ends. -/
inductive CreateEnds (env : BirthEnv) (before : Births)
    (taskname : Option (Nat → Option UInt8)) : BirthOut → Births → Prop
  /-- Nothing is left. -/
  | refused {next : Births} (legal : ¬ NameEnds env before taskname)
      (fails : ¬ Creates env before taskname) (set : next.raw = before.raw)
      (nothing : NothingTaken before next) : CreateEnds env before taskname .refused next
  /-- The caller ends, and the PCB stays. -/
  | ended {next : Births} (ends : NameEnds env before taskname)
      (grew : next.ready ≠ before.ready) : CreateEnds env before taskname .ended next
  /-- There is a new process. -/
  | created {next : Births} {pid : Nat} (creates : Creates env before taskname)
      (set : next.raw = before.raw) (grew : next.ready ≠ before.ready)
      (page : ArgPage next.mm pid) : CreateEnds env before taskname (.created pid) next

/-- A PCB is linked whose fields are not set. -/
structure Unborn (before here : Births) (pnew : Nat) : Prop where
  /-- It is the last of the ready queue. -/
  ready : here.ready = before.ready ++ [pnew]
  /-- It is not set. -/
  raw : here.raw = pnew :: before.raw
  /-- No file has another user. -/
  nproc : here.nproc = before.nproc
  /-- Its block is the only one that was taken. -/
  live : here.heap.live = insert pnew before.heap.live
  /-- The block was free. -/
  free : pnew = before.heap.next

/-- The address to come is that of no block. -/
theorem KernelHeap.next_free (heap : KernelHeap) : heap.next ∉ heap.live :=
  fun mem => absurd (heap.old _ mem) (Nat.lt_irrefl _)

/-- The address to come is that of no PCB. -/
theorem Births.next_free (births : Births) : births.heap.next ∉ births.ready :=
  fun mem => absurd (births.older _ mem) (Nat.lt_irrefl _)

/-- A PCB that was linked and then set is not one of those that are not set. -/
theorem Births.initialised_raw (births : Births) (inodes : List Nat) :
    (births.lpcbAddNode.initialise births.heap.next inodes).raw = births.raw := by
  change (births.heap.next :: births.raw).erase births.heap.next = births.raw
  rw [List.erase_cons_head]

/-- A linked PCB makes the ready queue longer. -/
theorem Unborn.grew {pnew : Nat} (unborn : Unborn before here pnew) :
    here.ready ≠ before.ready := by
  intro same
  have longer := congrArg List.length (unborn.ready.symm.trans same)
  simp at longer

/-- The clean-up of `create_proc` leaves nothing. -/
theorem birthFailed_meets {pgdir pid pnew : Nat} (unborn : Unborn before here pnew)
    (whole : Meets exhaustion (createFailed cpu pgdir pid) here.mm (MmCreated before.mm)) :
    Meets exhaustion (Births.birthFailed cpu pgdir pid pnew) here fun out next =>
      out = .refused ∧ next.raw = before.raw ∧ NothingTaken before next := by
  have nothing : Meets (fun _ => True) (createFailed cpu pgdir pid) here.mm fun out _ =>
      out = none := by
    unfold createFailed
    apply Meets.bind (meets_anything _ _)
    intro _ next _
    rfl
  have back : Meets exhaustion (createFailed cpu pgdir pid >>= pure) here.mm fun _ next =>
      MmBack before.mm next := by
    rw [bind_pure]
    apply (meets_both whole nothing).mono
    intro _ next done
    exact done.1.back done.2
  unfold Births.birthFailed
  apply meets_onMm_bind back
  intro _ mm back
  simp only [meets_modify_bind, meets_pure] at back ⊢
  have free := unborn.free
  refine ⟨trivial, ?_, ?_, back.pcbTable, back.unmarked, unborn.nproc, ?_⟩
  -- The PCB is at the head of those not set, and at the end of the queue.
  · change here.raw.erase pnew = before.raw
    rw [unborn.raw, List.erase_cons_head]
  · change here.ready.erase pnew = before.ready
    rw [unborn.ready, free, List.erase_append_right _ before.next_free, List.erase_cons_head,
      List.append_nil]
  -- Its block is freed last, when it is the only one left.
  · change here.heap.live.erase pnew = before.heap.live
    rw [unborn.live, free, Finset.erase_insert before.heap.next_free]

/-- The heap has room for a PCB, which is linked, or has none. -/
theorem meets_addPcb_bind (fails : Bool) {rest : Option Nat → BirthRoutine A}
    {after : A → Births → Prop} : Meets accepted (addPcb fails >>= rest) before after ↔
      if fails then Meets accepted (rest none) before after
      else Meets accepted (rest (some before.heap.next)) before.lpcbAddNode after := by
  cases fails <;> exact Iff.rfl

/-- The heap has room for a block, or has none. -/
theorem meets_kmalloc_bind (fails : Bool) {rest : Option Nat → BirthRoutine A}
    {after : A → Births → Prop} : Meets accepted (kmalloc fails >>= rest) before after ↔
      if fails then Meets accepted (rest none) before after
      else Meets accepted (rest (some before.heap.next)) before.kmallocG after := by
  cases fails <;> exact Iff.rfl

/-- The task that is found is one of the image. -/
theorem searchTask_mem {name : Nat → Option UInt8} {task : Task} {tasks : List Task}
    (found : searchTask name tasks = .found task) : task ∈ tasks := by
  induction tasks with
  | nil => cases found
  | cons first rest ih =>
    unfold searchTask at found
    split at found
    · cases found
    · cases found
      exact List.mem_cons_self
    · exact List.mem_cons_of_mem _ (ih found)

/-- What `create_proc` loads: nothing when the task is not found, too large, or there is no heap. -/
def BirthEnv.chosen (env : BirthEnv) (name : Nat → Option UInt8) : Option TaskImg :=
  match searchTask name env.tasks with
  | .found task =>
    if task.img.vaddr % normalPageSize ≠ 0 ∨ 64 < task.sectors ∨ env.noBuf = true then none
    else some task.img
  | _ => none

/-- What is loaded is linked where programs are. -/
theorem BirthEnv.chosen_linked (linked : ∀ task ∈ env.tasks, task.img.Linked)
    (name : Nat → Option UInt8) (program : TaskImg) (is : env.chosen name = some program) :
    program.Linked := by
  unfold BirthEnv.chosen at is
  split at is
  · rename_i task found
    split at is
    · cases is
    · cases is
      exact linked task (searchTask_mem found)
  · cases is

/-- A call that does nothing leaves nothing. -/
theorem NothingTaken.refl (sound : before.mm.Sound) : NothingTaken before before where
  ready := rfl
  pcbTable := rfl
  unmarked := (MmBack.of_sound sound rfl).unmarked
  nproc := rfl
  live := rfl

/-- What `create_proc` takes and gives back, it gives back wholly. -/
theorem createProc_ends (sound : before.mm.Sound)
    (linked : ∀ task ∈ env.tasks, task.img.Linked) :
    Meets exhaustion (Births.createProc env taskname) before (CreateEnds env before taskname) := by
  unfold Births.createProc
  simp only [meets_get_bind]
  cases taskname with
  | none =>
    exact .refused (by simp [NameEnds]) (by simp [Creates]) rfl (.refl sound)
  | some name =>
    apply meets_ite
    · intro full
      have noRoom : ¬ before.mm.procNum < uprocMax + ncpu := Nat.not_lt.mpr full
      exact .refused (by simp [NameEnds, noRoom]) (by simp [Creates, noRoom]) rfl (.refl sound)
    intro room
    have low : before.mm.procNum < uprocMax + ncpu := Nat.lt_of_not_le room
    -- Memory management does what it does for the program that is loaded in the end.
    have whole := @createProc_created before.mm env.cpu sound (env.chosen name)
      (BirthEnv.chosen_linked linked name) ⟨env.noPcb, env.noStack⟩
    unfold GlucOS.createProc at whole
    simp only [meets_get_bind, if_neg room] at whole
    cases found : allocPid before.mm with
    | none => exact absurd found (allocPid_ne_none low)
    | some pid =>
      simp only [found] at whole ⊢
      apply meets_onMm_bind whole
      intro pgdir mm₁ whole
      apply meets_onMm_bind whole
      intro _ mm₂ whole
      -- Without heap for the PCB nothing is linked, and only the page tables go again.
      cases noPcb : env.noPcb with
      | true =>
        simp only [noPcb, if_true] at whole
        simp only [meets_addPcb_bind, if_true]
        apply meets_onMm_bind whole
        intro _ mm₃ whole
        have back := whole.back rfl
        exact .refused (by simp [NameEnds, noPcb]) (by simp [Creates, noPcb]) rfl
          ⟨rfl, back.pcbTable, back.unmarked, rfl, rfl⟩
      | false =>
        simp only [noPcb, Bool.false_eq_true, if_false] at whole
        simp only [meets_addPcb_bind, Bool.false_eq_true, if_false]
        apply meets_onMm_bind whole
        intro _ mm₃ whole
        -- Every failure from here on is cleaned up, whatever has been loaded.
        have failed : ∀ {here : Births} {pnew : Nat}, Unborn before here pnew →
            (∀ task, searchTask name env.tasks = .found task →
              ¬ (task.img.vaddr % normalPageSize = 0 ∧ task.sectors ≤ 64 ∧ env.noBuf = false ∧
                task.img.entry ≠ 0 ∧ env.noStack = false)) →
            searchTask name env.tasks ≠ .illegal →
            Meets exhaustion (GlucOS.createFailed env.cpu pgdir pid) here.mm
              (MmCreated before.mm) →
            Meets exhaustion (Births.birthFailed env.cpu pgdir pid pnew) here
              (CreateEnds env before (some name)) := by
          intro here pnew unborn lacks legal whole
          apply (birthFailed_meets unborn whole).mono
          intro out next done
          obtain ⟨rfl, set, nothing⟩ := done
          apply CreateEnds.refused _ _ set nothing
          · intro ends
            obtain ⟨other, is, -, -, illegal⟩ := ends
            cases is
            exact legal illegal
          · intro creates
            obtain ⟨other, task, is, -, -, found, enough⟩ := creates
            cases is
            exact lacks task found enough
        -- From here the PCB is linked: an illegal name ends the caller, all else is cleaned up.
        cases search : searchTask name env.tasks with
        | illegal =>
          apply CreateEnds.ended ⟨name, rfl, low, noPcb, search⟩
          intro same
          have longer := congrArg List.length same
          simp [Births.lpcbAddNode] at longer
        | missing =>
          simp only [BirthEnv.chosen, search] at whole
          exact failed ⟨rfl, rfl, rfl, rfl, rfl⟩ (by simp [search]) (by simp [search]) whole
        | found task =>
          simp only [BirthEnv.chosen, search] at whole
          apply meets_ite
          · intro unfit
            rw [if_pos (by tauto)] at whole
            refine failed ⟨rfl, rfl, rfl, rfl, rfl⟩ ?_ (by simp [search]) whole
            intro other is enough
            rw [search] at is
            cases is
            omega
          intro fit
          simp only [meets_kmalloc_bind]
          cases noBuf : env.noBuf with
          | true =>
            rw [if_pos (Or.inr (Or.inr noBuf))] at whole
            simp only [if_true]
            exact failed ⟨rfl, rfl, rfl, rfl, rfl⟩ (by simp [noBuf]) (by simp [search]) whole
          | false =>
            rw [if_neg (by simp only [noBuf, Bool.false_eq_true]; tauto)] at whole
            simp only [Bool.false_eq_true, if_false]
            apply meets_onMm_bind whole
            intro seg mm₄ whole
            simp only [meets_modify_bind]
            -- The block that the task was read into is free again.
            have unread : ∀ births : Births,
                (births.heap.kmallocG.kfreeG births.heap.next).live = births.heap.live := by
              intro births
              exact Finset.erase_insert births.heap.next_free
            apply meets_ite
            · intro noEntry
              rw [if_pos noEntry] at whole
              refine failed ⟨rfl, rfl, rfl, unread _, rfl⟩ ?_ (by simp [search]) whole
              intro other is enough
              rw [search] at is
              cases is
              exact enough.2.2.2.1 noEntry
            intro entry
            rw [if_neg entry] at whole
            apply meets_onMm_bind whole
            intro _ mm₅ whole
            simp only [meets_kmalloc_bind]
            cases noStack : env.noStack with
            | true =>
              rw [if_pos noStack] at whole
              simp only [if_true]
              exact failed ⟨rfl, rfl, rfl, unread _, rfl⟩ (by simp [noStack]) (by simp [search])
                whole
            | false =>
              rw [if_neg (by simp [noStack])] at whole
              simp only [Bool.false_eq_true, if_false]
              apply meets_onMm_bind whole
              intro _ mm₆ whole
              simp only [meets_modify_bind, meets_pure] at whole ⊢
              -- All fields are set now, so nothing that is not set is left.
              have fits : task.img.vaddr % normalPageSize = 0 ∧ task.sectors ≤ 64 := by omega
              apply CreateEnds.created
                ⟨name, task, rfl, low, noPcb, search, fits.1, fits.2, noBuf, entry, noStack⟩
              · exact before.initialised_raw [env.curIno]
              · intro same
                have longer := congrArg List.length same
                simp [Births.initialise, Births.kfreeG, Births.kmallocG, Births.lpcbAddNode]
                  at longer
              · exact whole.page pid rfl

/-! ## Arguments of a new process -/

/-- No more arguments are passed than are asked for. -/
theorem countArgs_length {argv : List (Option UserStr)} {n : Nat} {args : List UserStr}
    (counted : countArgs n argv = some args) : args.length ≤ n := by
  -- Each round counts one argument at most.
  induction n generalizing argv args with
  | zero =>
    cases counted
    exact Nat.le_refl _
  | succ n ih =>
    cases argv with
    | nil => cases counted
    | cons first rest =>
      cases first with
      | none =>
        cases counted
        exact Nat.zero_le _
      | some arg =>
        obtain ⟨others, more, rfl⟩ := Option.map_eq_some_iff.mp counted
        exact Nat.succ_le_succ (ih more)

/-- Nor are more than eight. -/
theorem readArgs_length {argc : Int} {argv : Option (List (Option UserStr))} {args : List UserStr}
    (few : ¬ (argcMax : Int) < argc) (passed : readArgs argc argv = some args) :
    args.length ≤ argcMax := by
  unfold readArgs at passed
  cases argv with
  | none =>
    cases passed
    exact Nat.zero_le _
  | some argv =>
    have bound := countArgs_length passed
    split at bound
    · exact bound
    · omega

/-- Arguments are written into the page of a new process. -/
theorem passArgs_meets {pid argc : Nat} {args : List (List Nat)} (page : ArgPage mm pid)
    (few : argc ≤ argcMax) (part : args.length ≤ argc) :
    Meets accepted (passArgs pid argc args) mm fun _ _ => True := by
  obtain ⟨role, space, procs, frame, sound, mem, backed⟩ := page
  -- The PCB is found, and eight arguments of 63 bytes fit into the page.
  obtain ⟨pnew, found, root⟩ := sound.tasks.homed pid mem
  simp only [argcMax] at few
  unfold passArgs
  simp only [meets_get_bind, found]
  apply Meets.bind (pokeUser_sound _ sound root ?_ backed)
  · intro _ mid poked
    apply meets_discard
    apply Meets.mono (copyArgs_sound args 0 _ _ poked.1 root backed ?_ ?_ (Nat.le_refl _))
    · exact fun _ _ _ => trivial
    · simp only [userSp]
      omega
    · simp only [argLen, userSp, normalPageSize]
      omega
  · simp only [userSp, normalPageSize]
    omega

/-- Every argument that is passed can be read. -/
def ArgsLegal (argc : Int) (argv : Option (List (Option UserStr))) : Prop :=
  ∃ args, readArgs argc argv = some args ∧ ∀ arg ∈ args, arg.ended = true

/-! ## All calls -/

/-- What the caller gives can be read as far as the call reads it. -/
def BirthCall.Complete (env : BirthEnv) (births : Births) : BirthCall → Prop
  | .createProc taskname => ¬ NameEnds env births taskname
  | .exec taskname argc argv => argc ≤ argcMax →
    ¬ NameEnds env births taskname ∧ (Creates env births taskname → ArgsLegal argc argv)
  | .fork => True
  | .threadCreate _ => True

/-- The ready queue has a PCB more for a call that returns no identifier. -/
theorem AllOrNothing.not_grown {out : BirthOut} (nobody : ∀ id, out ≠ .created id)
    (grew : here.ready ≠ before.ready) : ¬ AllOrNothing before out here := by
  intro done
  exact grew (done.nothing nobody).ready

/-- An identifier is returned, and the new PCB is set. -/
theorem AllOrNothing.of_created {id : Nat} (set : here.raw = before.raw) :
    AllOrNothing before (.created id) here where
  set := set
  nothing nobody := absurd rfl (nobody id)

/-- A call that does nothing. -/
theorem AllOrNothing.refl (sound : before.mm.Sound) (out : BirthOut) :
    AllOrNothing before out before where
  set := rfl
  nothing _ := .refl sound

/-- `create_proc` is all or nothing unless the name ends the caller. -/
theorem CreateEnds.all_or_nothing {out : BirthOut}
    (ends : CreateEnds env before taskname out here) :
    AllOrNothing before out here ↔ ¬ NameEnds env before taskname := by
  cases ends with
  | refused legal _ set nothing => exact ⟨fun _ => legal, fun _ => ⟨set, fun _ => nothing⟩⟩
  | ended ends grew =>
    constructor
    · intro done
      exact absurd done (AllOrNothing.not_grown (by simp) grew)
    · intro legal
      exact absurd ends legal
  | created creates set => exact ⟨fun _ => creates.not_ends, fun _ => .of_created set⟩

/-- `do_exec`. -/
theorem doExec_births (sound : before.mm.Sound) (linked : ∀ task ∈ env.tasks, task.img.Linked)
    (argc : Int) (argv : Option (List (Option UserStr))) :
    Meets exhaustion (Births.doExec env taskname argc argv) before fun out next =>
      AllOrNothing before out next ↔ BirthCall.Complete env before (.exec taskname argc argv) := by
  unfold Births.doExec BirthCall.Complete
  apply meets_ite
  · intro many
    constructor
    · intro _ few
      omega
    · exact fun _ => .refl sound _
  intro few
  have asked : argc ≤ argcMax := by omega
  -- The arguments are read only when there is a new process.
  apply Meets.bind (createProc_ends sound linked)
  intro out next ends
  have whole := ends.all_or_nothing
  cases ends with
  | refused legal fails =>
    rw [meets_pure, whole]
    exact ⟨fun _ _ => ⟨legal, fun creates => absurd creates fails⟩, fun _ => legal⟩
  | ended ends =>
    rw [meets_pure, whole]
    exact ⟨fun legal => absurd ends legal, fun complete => (complete asked).1⟩
  | @created next pid creates set grew page =>
    cases passed : readArgs argc argv with
    | none =>
      simp only [meets_pure]
      constructor
      · intro done
        exact absurd done (AllOrNothing.not_grown (by simp) grew)
      · intro complete
        obtain ⟨args, is, -⟩ := (complete asked).2 creates
        rw [passed] at is
        cases is
    | some args =>
      -- What is copied before an illegal address is part of what would be passed.
      have part : ((args.takeWhile UserStr.ended).map UserStr.bytes).length ≤ args.length := by
        rw [List.length_map]
        exact (List.takeWhile_prefix _).length_le
      have written := @passArgs_meets exhaustion next.mm pid args.length _ page
        (readArgs_length few passed) part
      rw [← bind_pure (passArgs pid args.length _)] at written
      dsimp only
      apply meets_onMm_bind written
      intro _ mm _
      apply meets_ite
      · intro all
        rw [meets_pure]
        constructor
        · intro _ _
          exact ⟨creates.not_ends, fun _ => ⟨args, passed, List.all_eq_true.mp all⟩⟩
        · exact fun _ => .of_created set
      · intro some_
        rw [meets_pure]
        constructor
        · intro done
          exact absurd done (AllOrNothing.not_grown (by simp) grew)
        · intro complete
          obtain ⟨other, is, legal⟩ := (complete asked).2 creates
          rw [passed, Option.some_inj] at is
          rw [← is] at legal
          exact absurd (List.all_eq_true.mpr legal) some_

/-- `do_fork`. -/
theorem doFork_births (sound : before.mm.Sound) {ccpu : Tcb}
    (runs : before.mm.curCpu env.cpu = some ccpu) (isUser : ncpu ≤ ccpu.pid) :
    Meets exhaustion (Births.doFork env) before fun out next => AllOrNothing before out next := by
  have idle := sound
  obtain ⟨role, space, procs, sound⟩ := sound
  have tables : exhaustion .noPageTable := Or.inl rfl
  have victims : exhaustion .noVictim := Or.inr (Or.inl rfl)
  have slots : exhaustion .noSwapPage := Or.inr (Or.inr rfl)
  -- Every failure of do_fork comes before its first page table.
  have whole := doFork_meets tables victims slots false sound.ok sound.tasks runs isUser
  unfold Births.doFork
  unfold GlucOS.doFork at whole
  rw [meets_curCpu_bind runs] at whole
  simp only [meets_get_bind, runs] at whole ⊢
  apply meets_ite
  · exact fun _ => .refl idle _
  intro single
  rw [if_neg single] at whole
  apply meets_ite
  · exact fun _ => .refl idle _
  intro room
  rw [if_neg room] at whole
  cases found : allocPid before.mm with
  | none => exact .refl idle _
  | some pid =>
    simp only [found, Bool.false_eq_true, if_false] at whole
    simp only [meets_kmalloc_bind, meets_addPcb_bind]
    split
    · exact .refl idle _
    split
    · -- The kernel stack is given back.
      simp only [meets_modify_bind, meets_pure]
      have nothing := NothingTaken.refl idle
      exact ⟨rfl, fun _ => ⟨rfl, rfl, nothing.unmarked, rfl,
        Finset.erase_insert before.heap.next_free⟩⟩
    simp only [meets_modify_bind]
    refine meets_onMm_bind whole ?_
    intro pgdir mm₁ whole
    apply meets_onMm_bind whole
    intro _ mm₂ whole
    apply meets_onMm_bind whole
    intro _ mm₃ whole
    apply meets_onMm_bind whole
    intro _ mm₄ _
    rw [meets_pure]
    apply AllOrNothing.of_created
    exact before.kmallocG.initialised_raw (env.curIno :: env.opened)

/-- `do_thread_create`. -/
theorem doThreadCreate_births (sound : before.mm.Sound) {ccpu : Tcb}
    (runs : before.mm.curCpu env.cpu = some ccpu) (valid : Bool) :
    Meets exhaustion (Births.doThreadCreate env valid) before fun out next =>
      AllOrNothing before out next := by
  unfold Births.doThreadCreate
  simp only [meets_get_bind, runs]
  cases allocTid before.mm ccpu.pid with
  | none => exact .refl sound _
  | some tid =>
    apply meets_ite
    · exact fun _ => .refl sound _
    intro passes
    -- A thread takes a kernel stack and a PCB, and nothing of memory management.
    have room : before.mm.procNum < uprocMax + ncpu := by
      by_contra full
      exact passes (Or.inl (by omega))
    simp only [meets_kmalloc_bind, meets_addPcb_bind]
    split
    · exact .refl sound _
    split
    · simp only [meets_modify_bind, meets_pure]
      have nothing := NothingTaken.refl sound
      exact ⟨rfl, fun _ => ⟨rfl, rfl, nothing.unmarked, rfl,
        Finset.erase_insert before.heap.next_free⟩⟩
    simp only [meets_modify_bind]
    have added : Meets exhaustion (pcbTableAdd { ccpu with tid } >>= pure) before.mm
        fun _ _ => True := (meets_pcbTableAdd_bind room).mpr trivial
    refine meets_onMm_bind added ?_
    intro _ mm₁ _
    rw [meets_pure]
    apply AllOrNothing.of_created
    exact before.kmallocG.initialised_raw (env.curIno :: env.opened)

/--
In every run a call that creates a process or a thread returns its identifier or leaves nothing
behind, exactly when the caller is not ended by an illegal address in the middle of it.
-/
theorem creation_all_or_nothing {start : Mm} (started : start.Started)
    (reached : Reaches mmMachine MmLegal start before.mm)
    (linked : ∀ task ∈ env.tasks, task.img.Linked) (inside : env.cpu < ncpu) (call : BirthCall)
    (user : call = .fork → ∀ ccpu, before.mm.curCpu env.cpu = some ccpu → ncpu ≤ ccpu.pid) :
    Meets exhaustion (call.run env) before fun out next =>
      AllOrNothing before out next ↔ call.Complete env before := by
  have sound := Mm.Sound.of_reached started reached
  -- Some thread makes the call.
  obtain ⟨ccpu, runs⟩ : ∃ ccpu, before.mm.curCpu env.cpu = some ccpu := by
    obtain ⟨role, space, procs, consistent⟩ := sound
    exact consistent.tasks.runs env.cpu inside
  cases call with
  | createProc taskname =>
    apply (createProc_ends sound linked).mono
    exact fun _ _ ends => ends.all_or_nothing
  | exec taskname argc argv => exact doExec_births sound linked argc argv
  | fork =>
    apply (doFork_births sound runs (user rfl ccpu runs)).mono
    exact fun _ _ done => iff_of_true done trivial
  | threadCreate valid =>
    apply (doThreadCreate_births sound runs valid).mono
    exact fun _ _ done => iff_of_true done trivial

/-- The kernel that runs nothing, with an empty ready queue. -/
def idleBirths : Births where
  mm := idleMm
  heap := { live := ∅, next := 0, old := by simp }
  ready := []
  raw := []
  nproc := fun _ => 0
  older := by simp

/-- There is heap, and one task. -/
def shellEnv : BirthEnv where
  cpu := 0
  noPcb := false
  noBuf := false
  noStack := false
  tasks := [⟨[], ⟨0x10000, 0x10000, 0, 8, fun _ => 0⟩, 1⟩]
  curIno := 0
  opened := []

/-- A call without a name does nothing. -/
theorem creation_all_or_nothing_nameless :
    Meets exhaustion ((BirthCall.createProc none).run shellEnv) idleBirths fun out next =>
      AllOrNothing idleBirths out next ↔
        (BirthCall.createProc none).Complete shellEnv idleBirths := by
  apply creation_all_or_nothing idleMm_started .start
  · intro task mem
    rw [List.mem_singleton.mp mem]
    decide
  · decide
  · intro is
    cases is

/-- A name at an illegal address leaves a PCB in the ready queue that was never set. -/
theorem creation_leaves_pcb :
    ¬ Meets exhaustion ((BirthCall.createProc (some fun _ => none)).run shellEnv) idleBirths
      (AllOrNothing idleBirths) := by
  intro meets
  have answer : ((BirthCall.createProc (some fun _ => none)).run shellEnv idleBirths).map
      (fun ran => (ran.1, ran.2.ready, ran.2.raw)) = .ok (.ended, [0], [0]) := by
    decide +kernel
  cases ran : (BirthCall.createProc (some fun _ => none)).run shellEnv idleBirths with
  | error reason =>
    rw [ran] at answer
    cases answer
  | ok done =>
    rw [ran] at answer
    have left : done.2.raw = [0] := by
      have pair := Except.ok.inj answer
      exact congrArg (fun part => part.2.2) pair
    have set := (meets.of_ok ran).set
    rw [left] at set
    cases set

end Calls

end GlucOS
