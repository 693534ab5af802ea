import GlucOS.Sched.WaitLaws

/-! What has become of a process when somebody has waited for its end. -/

namespace GlucOS.Sched

open Routine

/-- A thread that another process waits for, which only `do_waitpid` makes it do. -/
def Kernel.WaitedFor (k : Kernel) (x : PcbRef) : Prop :=
  ∃ w ∈ k.queue (.wait x), (k.pcb w).pid ≠ (k.pcb x).pid

instance (k : Kernel) (x : PcbRef) : Decidable (k.WaitedFor x) :=
  inferInstanceAs (Decidable (∃ w ∈ k.queue (.wait x), _))

/-- A process has ended since a state: its threads are freed, and so is what it has held. -/
structure Gone (k : Kernel) (pid : Nat) (k' : Kernel) : Prop where
  /-- None of its threads is left. -/
  freed : ∀ y ∈ k.pcbTable, (k.pcb y).pid = pid → y ∉ k'.pcbTable
  /-- Its resources and its page directory were freed. -/
  ended : ∃ notes, k'.history = notes ++ k.history ∧ .terminated pid ∈ notes

/-- Whoever waits for another process goes on to do so, or the process is gone. -/
structure Heeds (k k' : Kernel) : Prop where
  /-- Whoever is new has a new address. -/
  fresh : ∀ h ∈ k'.pcbTable, h ∈ k.pcbTable ∨ k.newPcb ≤ h
  /-- Addresses are not used again. -/
  newer : k.newPcb ≤ k'.newPcb
  /-- Processes keep their identifiers. -/
  pid : ∀ h < k.newPcb, (k'.pcb h).pid = (k.pcb h).pid
  /-- What was noted stays noted. -/
  history : k.history <:+ k'.history
  /-- What has become of those that wait, and have not ended themselves. -/
  waits : ∀ x ∈ k.pcbTable, ∀ w, k.Waits w x → (k.pcb w).pid ≠ (k.pcb x).pid →
    w ∈ k'.pcbTable → x ∈ k'.pcbTable ∧ k'.Waits w x ∨ Gone k (k.pcb x).pid k'

section

variable {env : Env} {cpu acting pid : Nat} {victim : Option Nat} {k k₁ k' : Kernel}
  {hs : List PcbRef} {h p : PcbRef}

/-- Who was freed stays so. -/
theorem Heeds.not_back (heeds : Heeds k k') (old : h < k.newPcb) (freed : h ∉ k.pcbTable) :
    h ∉ k'.pcbTable := by
  intro live
  cases heeds.fresh h live with
  | inl before => exact freed before
  | inr new => exact absurd old (Nat.not_lt.mpr new)

/-- A process that is gone stays so. -/
theorem Gone.later (gone : Gone k pid k₁) (old : ∀ h ∈ k.pcbTable, h < k.newPcb)
    (newer : k.newPcb ≤ k₁.newPcb) (heeds : Heeds k₁ k') : Gone k pid k' := by
  refine ⟨fun y live same => ?_, ?_⟩
  · exact heeds.not_back (lt_of_lt_of_le (old y live) newer) (gone.freed y live same)
  · obtain ⟨notes, here, ended⟩ := gone.ended
    obtain ⟨more, there⟩ := heeds.history
    refine ⟨more ++ notes, ?_, List.mem_append_right more ended⟩
    rw [← there, here, List.append_assoc]

/-- When nobody ends, the waits are kept. -/
theorem Heeds.of_still (old : ∀ h ∈ k.pcbTable, h < k.newPcb) (still : Still k k') :
    Heeds k k' where
  fresh := fun h live => (still.fresh h live).imp_right And.left
  newer := still.newer
  pid := still.pid
  history := still.history
  waits := by
    intro x live w waits _ _
    refine .inl ⟨still.kept x live, ?_⟩
    unfold Kernel.Waits at waits ⊢
    cases still.waits x with
    | inl same => rw [same]; exact waits
    | inr new => exact absurd (old x live) (Nat.not_lt.mpr new.1)

/-- One thing after the other. -/
theorem Heeds.trans (ok : SchedOk acting k) (first : Heeds k k₁) (second : Heeds k₁ k') :
    Heeds k k' where
  fresh := by
    intro h live
    cases second.fresh h live with
    | inl before => exact first.fresh h before
    | inr new => exact .inr (first.newer.trans new)
  newer := first.newer.trans second.newer
  pid := fun h old =>
    (second.pid h (lt_of_lt_of_le old first.newer)).trans (first.pid h old)
  history := first.history.trans second.history
  waits := by
    intro x live w waits foreign live'
    have oldX := ok.tableOld x live
    have oldW := ok.tableOld w (ok.queueLive _ w waits).1
    have live₁ : w ∈ k₁.pcbTable := by
      by_contra freed
      exact second.not_back (lt_of_lt_of_le oldW first.newer) freed live'
    cases first.waits x live w waits foreign live₁ with
    | inr gone => exact .inr (gone.later ok.tableOld first.newer second)
    | inl waiting =>
      obtain ⟨there, waits₁⟩ := waiting
      have foreign₁ : (k₁.pcb w).pid ≠ (k₁.pcb x).pid := by
        rw [first.pid w oldW, first.pid x oldX]
        exact foreign
      cases second.waits x there w waits₁ foreign₁ live' with
      | inl waiting => exact .inl waiting
      | inr gone =>
        -- The process ended later; its threads that were freed before stay freed.
        rw [first.pid x oldX] at gone
        refine .inr ⟨fun y alive same => ?_, ?_⟩
        · have oldY := ok.tableOld y alive
          by_cases between : y ∈ k₁.pcbTable
          · exact gone.freed y between (by rw [first.pid y oldY]; exact same)
          · exact second.not_back (lt_of_lt_of_le oldY first.newer) between
        · obtain ⟨notes, here, ended⟩ := gone.ended
          obtain ⟨more, there⟩ := first.history
          refine ⟨notes ++ more, ?_, List.mem_append_left more ended⟩
          rw [here, ← there, List.append_assoc]

/-! ## Killing -/

/-- Some threads are killed, and the waits for the end of others are kept. -/
structure Buries (hs : List PcbRef) (k k' : Kernel) : Prop where
  /-- Those who wait for others, and for those who are only marked, go on to wait. -/
  waits : ∀ w x, w ∉ hs → x ∉ hs ∨ (k.pcb x).Caught → k.Waits w x → k'.Waits w x
  /-- Those who do not run are freed. -/
  freed : ∀ h ∈ hs, ¬ (k.pcb h).Caught → h ∉ k'.pcbTable
  /-- Nothing is noted. -/
  history : k'.history = k.history

/-- The waits for all ends but one are kept. -/
structure Spares (p : PcbRef) (k k' : Kernel) : Prop where
  /-- Those who wait for others go on to wait. -/
  waits : ∀ w x, x ≠ p → k.Waits w x → k'.Waits w x
  /-- Nothing is noted. -/
  history : k'.history = k.history

/-- Nothing happens. -/
theorem Spares.refl (p : PcbRef) (k : Kernel) : Spares p k k := ⟨fun _ _ _ waits => waits, rfl⟩

/-- One thing after the other. -/
theorem Spares.trans (first : Spares p k k₁) (second : Spares p k₁ k') : Spares p k k' :=
  ⟨fun w x other waits => second.waits w x other (first.waits w x other waits),
    second.history.trans first.history⟩

/-- Waking those who wait for one end leaves the other waits alone. -/
theorem unblockUpTo_spares (p : PcbRef) (cond : Kernel → PcbRef → Bool) (n : Nat) :
    ∀ k, Meets anyStop (unblockUpTo env (.wait p) cond n) k fun _ => Spares p k := by
  -- Each round wakes one of them.
  induction n with
  | zero => exact fun k => .refl p k
  | succ n ih =>
    intro k
    have one : Meets anyStop (doUnblock env (.wait p)) k fun _ => Spares p k := by
      unfold doUnblock
      rw [meets_get_bind]
      split
      · trivial
      · rename_i h rest queued
        refine meets_ite (fun _ => trivial) (fun _ => ?_)
        refine meets_ite (fun _ => trivial) (fun _ => ?_)
        refine ⟨fun w x other waits => ?_, rfl⟩
        show w ∈ Function.update (Function.update k.queue (.wait p) ((k.queue (.wait p)).erase h))
          .ready (insertAfter (k.queue .ready) (k.current env.cpu) h) (.wait x)
        rw [Function.update_of_ne (by simp), Function.update_of_ne (by simpa using other)]
        exact waits
    unfold unblockUpTo
    rw [meets_get_bind]
    split
    · exact .refl p k
    · refine meets_ite (fun _ => ?_) (fun _ => .refl p k)
      exact Meets.bind one fun _ k₁ first => (ih k₁).mono fun _ _ later => first.trans later

/-- `thread_kill` keeps the waits of others for others. -/
theorem threadKill_waits (p : PcbRef) (k : Kernel) :
    Meets anyStop (threadKill env p) k fun _ k' =>
      (∀ w x, w ≠ p → x ≠ p → k.Waits w x → k'.Waits w x) ∧ k'.history = k.history := by
  unfold threadKill
  rw [meets_get_bind]
  refine meets_ite (fun _ => trivial) (fun _ => ?_)
  refine meets_ite (fun _ => trivial) (fun _ => ?_)
  refine Meets.bind (unblockUpTo_spares p _ _ k) fun _ k₁ spares => ?_
  rw [meets_get_bind]
  refine meets_ite (fun _ => trivial) (fun _ => ?_)
  refine meets_ite (fun _ => trivial) (fun _ => ?_)
  refine ⟨fun w x self other waits => ?_, spares.history⟩
  have kept := spares.waits w x other waits
  -- The thread that is freed leaves its own queue only.
  show w ∈ Function.update k₁.queue (k₁.pcb p).phead ((k₁.queue (k₁.pcb p).phead).erase p) (.wait x)
  by_cases same : QueueRef.wait x = (k₁.pcb p).phead
  · rw [← same, Function.update_self]
    exact (List.mem_erase_of_ne self).mpr kept
  · rw [Function.update_of_ne same]
    exact kept

/-- One round of the loop of `do_kill`. -/
theorem killThread_buries (victim : Option Nat) (ok : KernelOk env.cpu k) (small : env.cpu < ncpu)
    (alive : h ∈ k.pcbTable) (user : ncpu ≤ h) (why : (k.pcb h).Doomed victim)
    (mine : k.current env.cpu = h → (k.pcb h).Caught) :
    Meets anyStop (killThread env h) k fun _ => Buries [h] k := by
  unfold killThread
  rw [meets_get_bind]
  refine meets_ite (fun idle => ?_) (fun runs => ?_)
  · have notCaught : ¬ (k.pcb h).Caught := by
      intro caught
      cases caught with
      | inl runs => exact idle.1 runs
      | inr exits => exact idle.2 exits
    have left : h ≠ k.current env.cpu := fun same => notCaught (mine same.symm)
    have away := ok.toSchedOk.not_current idle.1 idle.2 left
    have why' : victim = some (k.pcb h).pid ∨ (k.pcb h).status = .exited ∨
        (k.pcb h).status = .zombie := by
      rcases why with killed | exited | zombie | exits
      · exact .inl killed
      · exact .inr (.inl exited)
      · exact .inr (.inr zombie)
      · exact absurd exits idle.2
    refine (meets_ran _ k).mono fun _ k' ran => ?_
    have kept := (threadKill_waits h k).of_ok ran
    have removes : Meets anyStop (threadKill env h) k fun _ => Removes env.cpu victim h k :=
      threadKill_removes victim ok small alive user idle.1 away why'
    have removed := removes.of_ok ran
    refine ⟨fun w x self others waits => ?_, fun y same _ => ?_, kept.2⟩
    · refine kept.1 w x (by simpa using self) ?_ waits
      cases others with
      | inl other => simpa using other
      | inr caught =>
        rintro rfl
        exact notCaught caught
    · obtain rfl : y = h := by simpa using same
      rw [removed.pcbTable]
      exact ok.tableNodup.not_mem_erase
  · -- A thread that runs is only marked.
    have caught : (k.pcb h).Caught := by
      unfold Pcb.Caught
      tauto
    refine ⟨fun w x _ _ waits => waits, fun y same idle => ?_, rfl⟩
    obtain rfl : y = h := by simpa using same
    exact absurd caught idle

/-- The loop of `do_kill`. -/
theorem killThreads_buries (victim : Option Nat) (small : env.cpu < ncpu) :
    ∀ (hs : List PcbRef) (k : Kernel), KernelOk env.cpu k → hs.Nodup →
      (∀ h ∈ hs, h ∈ k.pcbTable ∧ ncpu ≤ h) → (∀ h ∈ hs, (k.pcb h).Doomed victim) →
      (∀ h ∈ hs, k.current env.cpu = h → (k.pcb h).Caught) →
      Meets anyStop (killThreads env hs) k fun _ k' =>
        Kills env.cpu victim hs k k' ∧ Buries hs k k' := by
  intro hs
  induction hs with
  | nil =>
    intro k _ _ _ _ _
    exact ⟨Kills.nil env.cpu victim k, fun _ _ _ _ waits => waits, by simp, rfl⟩
  | cons h rest ih =>
    intro k ok nodup live doomed mine
    obtain ⟨fresh, nodup'⟩ := List.nodup_cons.mp nodup
    obtain ⟨alive, user⟩ := live h (by simp)
    unfold killThreads
    refine Meets.bind (meets_ran _ k) fun _ k₁ ran => ?_
    have one : Meets anyStop (killThread env h) k fun _ => Kills env.cpu victim [h] k :=
      killThread_kills victim ok small alive user (doomed h (by simp)) (mine h (by simp))
    have first := one.of_ok ran
    have buried : Buries [h] k k₁ := (killThread_buries victim ok small alive user
      (doomed h (by simp)) (mine h (by simp))).of_ok ran
    have differ : ∀ x ∈ rest, x ≠ h := by
      intro x inside same
      exact fresh (same ▸ inside)
    have outside : ∀ x ∈ rest, x ∉ [h] := fun x inside same =>
      differ x inside (by simpa using same)
    have roused := fun x inside => first.others x (outside x inside)
    refine (ih k₁ (first.ok ok small) nodup' ?_ ?_ ?_).mono fun _ k' later => ?_
    · intro x inside
      obtain ⟨before, user'⟩ := live x (by simp [inside])
      exact ⟨first.spared x before (.inl (outside x inside)), user'⟩
    · exact fun x inside => (roused x inside).doomed (doomed x (by simp [inside]))
    · intro x inside here
      rw [first.current] at here
      exact (roused x inside).caught.mpr (mine x (by simp [inside]) here)
    · obtain ⟨second, buried'⟩ := later
      refine ⟨first.cons second fresh, fun w x self others waits => ?_, fun y inside idle => ?_,
        buried'.history.trans buried.history⟩
      · rw [List.mem_cons, not_or] at self
        have between := buried.waits w x (by simpa using self.1) (others.imp_left fun other => by
          rw [List.mem_cons, not_or] at other
          simpa using other.1) waits
        refine buried'.waits w x self.2 ?_ between
        by_cases inside : x ∈ rest
        · refine .inr ((roused x inside).caught.mpr (others.resolve_left fun other => ?_))
          exact other (List.mem_cons_of_mem h inside)
        · exact .inl inside
      · rcases List.mem_cons.mp inside with rfl | later
        · exact fun there => buried.freed y (by simp) idle (second.sublist.subset there)
        · exact buried'.freed y later fun caught => idle ((roused y later).caught.mp caught)

/-- The threads of a process are killed, without a trace in the waits for others. -/
theorem Heeds.killThreads (ok : KernelOk cpu k) (kills : Kills cpu victim (k.pcbSearchAll pid) k k')
    (buries : Buries (k.pcbSearchAll pid) k k')
    (marked : ∀ x ∈ k.pcbSearchAll pid, k.WaitedFor x → (k.pcb x).Caught) : Heeds k k' where
  fresh := fun h live => .inl (kills.sublist.subset live)
  newer := kills.newPcb.ge
  pid := fun h _ => kills.pid h
  history := buries.history ▸ List.suffix_rfl
  waits := by
    intro x live w waits foreign live'
    -- Who waits sleeps, so that it is still there only if it was not killed.
    have self : w ∉ k.pcbSearchAll pid := by
      intro inside
      refine buries.freed w inside (fun caught => ?_) live'
      have sleeps := ok.toSchedOk.sleeping_of_queued waits (by simp)
      simp [Pcb.Caught, sleeps] at caught
    have others : x ∉ k.pcbSearchAll pid ∨ (k.pcb x).Caught := by
      by_cases inside : x ∈ k.pcbSearchAll pid
      · exact .inr (marked x inside ⟨w, waits, foreign⟩)
      · exact .inl inside
    exact .inl ⟨kills.spared x live others, buries.waits w x self others waits⟩

/-- The end of `do_kill` notes that the last thread is gone. -/
theorem finishKill_notes (pid : Nat) (k : Kernel) :
    Meets anyStop (finishKill env pid) k fun _ k' => k.pcbSearchAll pid = [] →
      ∃ notes, k'.history = notes ++ k.history ∧ .terminated pid ∈ notes := by
  unfold finishKill
  rw [meets_get_bind]
  refine meets_ite (fun _ => ?_) (fun some gone => absurd gone some)
  have later : ∀ k₁ : Kernel, Still (k.note (.terminated pid)) k₁ → k.pcbSearchAll pid = [] →
      ∃ notes, k₁.history = notes ++ k.history ∧ .terminated pid ∈ notes := by
    intro k₁ still _
    obtain ⟨more, same⟩ := still.history
    refine ⟨more ++ [.terminated pid], ?_, by simp⟩
    rw [← same, List.append_assoc]
    rfl
  rw [meets_noteDone]
  refine Meets.bind (ressReleaseKilled_still _ pid) fun _ k₁ released => ?_
  rw [meets_get_bind]
  refine meets_ite (fun _ => ?_) (fun _ => later k₁ released)
  exact (startGlush_still k₁).mono fun _ k₂ more => later k₂ (released.trans more)

/-- A process is killed, by another one. -/
theorem Heeds.killAll (ok : KernelOk cpu k) (kills : Kills cpu victim (k.pcbSearchAll pid) k k₁)
    (buries : Buries (k.pcbSearchAll pid) k k₁)
    (whole : ∀ x ∈ k.pcbSearchAll pid, k.WaitedFor x → ¬ (k.pcb x).Caught →
      ∀ y ∈ k.pcbSearchAll pid, ¬ (k.pcb y).Caught)
    (still : Still k₁ k')
    (noted : k₁.pcbSearchAll pid = [] →
      ∃ notes, k'.history = notes ++ k₁.history ∧ .terminated pid ∈ notes) : Heeds k k' := by
  have old₁ : ∀ h ∈ k₁.pcbTable, h < k₁.newPcb := by
    intro h live
    rw [kills.newPcb]
    exact ok.tableOld h (kills.sublist.subset live)
  have finished := Heeds.of_still old₁ still
  by_cases runs : ∃ y ∈ k.pcbSearchAll pid, (k.pcb y).Caught
  · -- Somebody is only marked, so that nobody was freed who is waited for.
    obtain ⟨y, inside, caught⟩ := runs
    refine (Heeds.killThreads ok kills buries fun x here waited => ?_).trans ok.toSchedOk finished
    by_contra idle
    exact whole x here waited idle y inside caught
  · -- All of them are freed, and the process is gone.
    have idle : ∀ y ∈ k.pcbSearchAll pid, ¬ (k.pcb y).Caught := fun y inside caught =>
      runs ⟨y, inside, caught⟩
    have threads : ∀ y, y ∈ k.pcbSearchAll pid ↔ y ∈ k.pcbTable ∧ (k.pcb y).pid = pid := by
      intro y
      simp [Kernel.pcbSearchAll]
    have none : k₁.pcbSearchAll pid = [] := by
      refine List.filter_eq_nil_iff.mpr fun y live => ?_
      intro same
      rw [decide_eq_true_eq, kills.pid] at same
      have inside := (threads y).mpr ⟨kills.sublist.subset live, same⟩
      exact buries.freed y inside (idle y inside) live
    have gone : Gone k pid k' := by
      refine ⟨fun y live same => ?_, ?_⟩
      · have inside := (threads y).mpr ⟨live, same⟩
        refine finished.not_back ?_ (buries.freed y inside (idle y inside))
        rw [kills.newPcb]
        exact ok.tableOld y live
      · rw [← buries.history]
        exact noted none
    refine ⟨fun h live => ?_, ?_, fun h old => ?_, ?_, fun x live w waits foreign live' => ?_⟩
    · cases finished.fresh h live with
      | inl before => exact .inl (kills.sublist.subset before)
      | inr new => exact .inr (by rw [← kills.newPcb]; exact new)
    · rw [← kills.newPcb]
      exact finished.newer
    · exact (finished.pid h (by rw [kills.newPcb]; exact old)).trans (kills.pid h)
    · exact buries.history ▸ finished.history
    · by_cases same : (k.pcb x).pid = pid
      · exact .inr (same ▸ gone)
      have other : x ∉ k.pcbSearchAll pid := fun inside => same ((threads x).mp inside).2
      have self : w ∉ k.pcbSearchAll pid := by
        intro inside
        exact gone.freed w ((threads w).mp inside).1 ((threads w).mp inside).2 live'
      have there := kills.spared x live (.inl other)
      refine .inl ⟨still.kept x there, ?_⟩
      have waits₁ := buries.waits w x self (.inl other) waits
      unfold Kernel.Waits at waits₁ ⊢
      cases still.waits x with
      | inl same => rw [same]; exact waits₁
      | inr new => exact absurd (old₁ x there) (Nat.not_lt.mpr new.1)

/-! ## The scheduler -/

/-- A thread that will never run again, but was not freed yet. -/
def Pcb.Left (pcb : Pcb) : Prop := pcb.status = .exited ∨ pcb.status = .zombie

/-- Who has left, and is waited for by another process, is the last thread of its own. -/
def Solo (k : Kernel) (c : PcbRef) : Prop :=
  ∀ x ∈ k.pcbTable, x ≠ c → (k.pcb x).Left → k.WaitedFor x → (k.pcb x).status = .exited ∧
    ∀ y ∈ k.pcbTable, (k.pcb y).pid = (k.pcb x).pid → y = x

/-- Who is waited for was waited for before. -/
theorem Fewer.waitedFor (ok : SchedOk acting k) (fewer : Fewer k k')
    (pid : ∀ h < k.newPcb, (k'.pcb h).pid = (k.pcb h).pid) {x : PcbRef}
    (waited : k'.WaitedFor x) : k.WaitedFor x := by
  obtain ⟨w, waits, foreign⟩ := waited
  have before := fewer w x waits
  have liveX : x ∈ k.pcbTable := by
    by_contra freed
    have none := ok.waitLive x freed
    unfold Kernel.Waits at before
    rw [none] at before
    cases before
  refine ⟨w, before, ?_⟩
  rw [← pid w (ok.tableOld w (ok.queueLive _ w before).1), ← pid x (ok.tableOld x liveX)]
  exact foreign

/-- Nobody joins a process that has ended. -/
theorem Solo.still {c : PcbRef} (solo : Solo k c) (ok : SchedOk acting k) (ok' : SchedOk cpu k')
    (still : Still k k') : Solo k' c := by
  intro x live other left waited
  have ends : (k'.pcb x).status.ending = true := by
    rcases left with exited | zombie
    · rw [exited]; rfl
    · rw [zombie]; rfl
  obtain ⟨before, same⟩ := still.ending x live ends
  have left₀ : (k.pcb x).Left := by
    unfold Pcb.Left
    rw [same]
    exact left
  obtain ⟨exited, alone⟩ := solo x before other left₀
    (still.fewer.waitedFor ok still.pid waited)
  rw [same] at exited
  refine ⟨exited, fun y alive samePid => ?_⟩
  by_contra differ
  -- Another thread would have been killed where it runs, and so would not be new.
  have marked := ok'.exitedAlone x live exited y alive samePid differ
  obtain ⟨older, -⟩ := still.ending y alive (by rw [marked]; rfl)
  refine differ (alone y older ?_)
  rw [← still.pid y (ok.tableOld y older), ← still.pid x (ok.tableOld x before)]
  exact samePid

/-- Who was not woken has the status it had. -/
theorem Pcb.Roused.left {before after : Pcb} (roused : before.Roused after) (left : after.Left) :
    after = before := by
  rcases roused with same | ⟨-, same⟩
  · exact same
  · rw [same] at left
    rcases left with exited | zombie
    · cases exited
    · cases zombie

/-- Threads that are freed or marked leave nobody else alone. -/
theorem Solo.fewer {c : PcbRef} (solo : Solo k c) (ok : SchedOk acting k) (fewer : Fewer k k')
    (pid : ∀ h, (k'.pcb h).pid = (k.pcb h).pid) (sublist : k'.pcbTable.Sublist k.pcbTable)
    (status : ∀ x ∈ k'.pcbTable, x ≠ c → (k'.pcb x).Left →
      (k.pcb x).status = (k'.pcb x).status) : Solo k' c := by
  intro x live other left waited
  have same := status x live other left
  have left₀ : (k.pcb x).Left := by
    unfold Pcb.Left
    rw [same]
    exact left
  obtain ⟨exited, alone⟩ := solo x (sublist.subset live) other left₀
    (fewer.waitedFor ok (fun h _ => pid h) waited)
  refine ⟨same ▸ exited, fun y alive samePid => alone y (sublist.subset alive) ?_⟩
  rw [← pid y, ← pid x]
  exact samePid

/-- Killing a process leaves others that have left as they were. -/
theorem Solo.kills {c : PcbRef} (solo : Solo k c) (ok : SchedOk acting k) (fewer : Fewer k k')
    (kills : Kills cpu victim hs k k') : Solo k' c := by
  refine solo.fewer ok fewer kills.pid kills.sublist fun x live _ left => ?_
  by_cases inside : x ∈ hs
  · -- Its own threads are marked at most.
    have marked := kills.marked x inside live
    rcases left with exited | zombie
    · rw [marked] at exited; cases exited
    · rw [marked] at zombie; cases zombie
  · rw [(kills.others x inside).left left]

/-- `do_kill` of a process that has exited. -/
theorem killOther_heeds (ok : KernelOk env.cpu k) (small : env.cpu < ncpu)
    (stays : (k.cur env.cpu).status ≠ .exiting) {rest : List PcbRef}
    (here : Ahead k (k.current env.cpu) (p :: rest)) (exited : (k.pcb p).status = .exited)
    (solo : Solo k (k.current env.cpu)) :
    Meets anyStop (killOther env (k.pcb p).pid) k fun _ k' =>
      Heeds k k' ∧ Solo k' (k.current env.cpu) := by
  have sched := ok.toSchedOk
  obtain ⟨queued, differ, -, -, -⟩ := here.head sched small
  have live := (sched.queueLive _ p queued).1
  have mine := sched.currentLive small
  have alone := sched.exitedAlone p live exited
  have foreign : (k.pcb p).pid ≠ (k.cur env.cpu).pid := fun same =>
    stays (alone _ mine same.symm differ.symm)
  have user : ncpu ≤ p := by
    by_contra low
    rcases sched.idleStatus p (Nat.not_le.mp low) with runs | ready
    · simp [exited] at runs
    · simp [exited] at ready
  have threads : ∀ h, h ∈ k.pcbSearchAll (k.pcb p).pid ↔
      h ∈ k.pcbTable ∧ (k.pcb h).pid = (k.pcb p).pid := by
    intro h
    simp [Kernel.pcbSearchAll]
  have high := sched.userPid p live user
  have marked : ∀ h ∈ k.pcbSearchAll (k.pcb p).pid, h ≠ p → (k.pcb h).status = .exiting :=
    fun h inside other => alone h ((threads h).mp inside).1 ((threads h).mp inside).2 other
  unfold killOther
  rw [meets_get_bind]
  refine meets_ite (fun _ => ⟨.of_still ok.tableOld (.refl k), solo⟩) (fun _ => ?_)
  refine Meets.bind (meets_ran _ k) fun _ k₁ ran₁ => ?_
  have killed : Kills env.cpu none (k.pcbSearchAll (k.pcb p).pid) k k₁ ∧
      Buries (k.pcbSearchAll (k.pcb p).pid) k k₁ := by
    refine (killThreads_buries none small _ k ok (sched.tableNodup.filter _) ?_ ?_ ?_).of_ok ran₁
    · intro h inside
      obtain ⟨alive, pid⟩ := (threads h).mp inside
      exact ⟨alive, sched.user_ge (by rw [pid]; exact high)⟩
    · intro h inside
      by_cases same : h = p
      · exact .inr (.inl (by rw [same]; exact exited))
      · exact .inr (.inr (.inr (marked h inside same)))
    · intro h inside same
      exact absurd (((threads h).mp inside).2.symm.trans (by rw [← same]; rfl)) foreign
  obtain ⟨kills, buries⟩ := killed
  have ok₁ := kills.ok ok small
  have solo₁ := solo.kills sched ((killThreads_fewer _ k).of_ok ran₁) kills
  refine Meets.bind (meets_ran _ k₁) fun _ k' ran => ?_
  have still := (finishKill_still _ k₁).of_ok ran
  have grows := (finishKill_grows none ok₁ small _).of_ok ran
  refine ⟨Heeds.killAll ok kills buries ?_ still ((finishKill_notes _ k₁).of_ok ran),
    solo₁.still ok₁.toSchedOk (Changes.ok ok₁ small grows.changes).toSchedOk still⟩
  -- Who is waited for and does not run is the thread itself, and it is the last one.
  intro x inside waited idle y inside' caught
  have same : x = p := by
    by_contra other
    exact idle (.inr (marked x inside other))
  subst same
  obtain ⟨-, last⟩ := solo x live differ (.inl exited) waited
  have alike := last y ((threads y).mp inside').1 ((threads y).mp inside').2
  exact idle (alike ▸ caught)

/-- The loop of `do_scheduler` frees nobody who is waited for before the rest of its process. -/
theorem scanReady_heeds (small : env.cpu < ncpu) : ∀ (fuel : Nat) (k : Kernel)
    (rem : List PcbRef), KernelOk env.cpu k → (k.cur env.cpu).status ≠ .exiting →
      Ahead k (k.current env.cpu) rem → Solo k (k.current env.cpu) →
      Meets anyStop (scanReady env (k.current env.cpu) fuel (rem.headD (k.current env.cpu))) k
        fun _ => Heeds k := by
  -- The induction is on the fuel; each round takes the head off what is still to be met.
  intro fuel
  induction fuel with
  | zero => exact fun _ _ _ _ _ _ => trivial
  | succ fuel ih =>
    intro k rem ok stays here solo
    have sched := ok.toSchedOk
    have nothing : Heeds k k := .of_still ok.tableOld (.refl k)
    unfold scanReady
    cases rem with
    | nil =>
      rw [List.headD_nil, if_pos rfl]
      exact nothing
    | cons p rest =>
      obtain ⟨queued, differ, later, next, here'⟩ := here.head sched small
      rw [List.headD_cons, if_neg differ, meets_get_bind, next, if_neg (by simpa using queued)]
      refine meets_ite (fun _ => ?_) (fun _ => ?_)
      · rw [meets_set_bind]
        exact Heeds.of_still ok.tableOld (.switchTo k env.cpu p)
      refine meets_ite (fun exited => ?_) (fun _ => ?_)
      · obtain ⟨foreign, reaps⟩ := killOther_reaps none ok small stays here exited
        refine meets_ite (fun same => absurd same foreign) (fun _ => ?_)
        refine Meets.bind (meets_ran _ k) fun killed k₁ ran => ?_
        obtain ⟨rfl, changes, -, current, cur, rest', ahead, head, -, -⟩ := reaps.of_ok ran
        obtain ⟨heeds, solo₁⟩ := (killOther_heeds ok small stays here exited solo).of_ok ran
        rw [if_pos rfl, ← head, ← current]
        rw [← current] at ahead solo₁
        exact (ih k₁ rest' (Changes.ok ok small changes) (by rw [cur]; exact stays) ahead
          solo₁).mono fun _ _ more => heeds.trans sched more
      refine meets_ite (fun zombie => ?_) (fun _ => ?_)
      · -- A thread that left by itself is freed alone, and nobody else's process waits for it.
        obtain ⟨live, -⟩ := here.mem sched small (x := p) (by simp)
        have user : ncpu ≤ p := by
          by_contra low
          rcases sched.idleStatus p (Nat.not_le.mp low) with runs | ready
          · simp [zombie] at runs
          · simp [zombie] at ready
        have away := sched.not_current (h := p) (by simp [zombie]) (by simp [zombie]) differ
        have unheeded : ¬ k.WaitedFor p := by
          intro waited
          obtain ⟨exited, -⟩ := solo p live differ (.inr zombie) waited
          rw [zombie] at exited
          cases exited
        refine Meets.bind (meets_ran _ k) fun _ k₁ ran => ?_
        have meets : Meets anyStop (threadKill env p) k fun _ => Removes env.cpu none p k :=
          threadKill_removes none ok small live user (by simp [zombie]) away (.inr (.inr zombie))
        have removes := meets.of_ok ran
        have kept := (threadKill_waits p k).of_ok ran
        have heeds : Heeds k k₁ := by
          refine ⟨fun h alive => ?_, removes.newPcb.ge, fun h _ => (removes.pcb h).pid, ?_, ?_⟩
          · rw [removes.pcbTable] at alive
            exact .inl (List.mem_of_mem_erase alive)
          · exact kept.2 ▸ List.suffix_rfl
          · intro x alive w waits foreign live'
            have other : x ≠ p := by
              rintro rfl
              exact unheeded ⟨w, waits, foreign⟩
            have self : w ≠ p := by
              rintro rfl
              rw [removes.pcbTable] at live'
              exact sched.tableNodup.not_mem_erase live'
            refine .inl ⟨?_, kept.1 w x self other waits⟩
            rw [removes.pcbTable]
            exact (List.mem_erase_of_ne other).mpr alive
        have solo₁ : Solo k₁ (k.current env.cpu) := by
          refine solo.fewer sched ((threadKill_fewer p k).of_ok ran)
            (fun h => (removes.pcb h).pid) ?_ fun x _ _ left => ?_
          · rw [removes.pcbTable]
            exact List.erase_sublist
          · rw [(removes.pcb x).left left]
        have cur : k₁.cur env.cpu = k.cur env.cpu := by
          unfold Kernel.cur
          rw [removes.current]
          exact (removes.pcb _).eq (sched.current_not_sleeping small)
        have ahead := removes.ahead rest later here'
        rw [← removes.current] at ahead solo₁ ⊢
        exact (ih k₁ rest (Changes.ok ok small removes.changes) (by rw [cur]; exact stays) ahead
          solo₁).mono fun _ _ more => heeds.trans sched more
      · exact ih k rest ok stays here' solo

/-- `do_scheduler`. -/
theorem doScheduler_heeds (ok : KernelOk env.cpu k) (small : env.cpu < ncpu)
    (stays : (k.cur env.cpu).status ≠ .exiting) (solo : Solo k (k.current env.cpu)) :
    Meets anyStop (doScheduler env) k fun _ => Heeds k := by
  have sched := ok.toSchedOk
  unfold doScheduler
  refine Meets.bind (meets_ran _ k) fun _ k₁ ran₁ => ?_
  have first : Meets anyStop (checkSleeping env) k fun _ => Keeps env.cpu none k :=
    checkSleeping_keeps none ok small
  have keeps₁ := first.of_ok ran₁
  have ok₁ := keeps₁.ok ok small
  refine Meets.bind (meets_ran _ k₁) fun _ k₂ ran₂ => ?_
  have second : Meets anyStop (checkSleepingOnNic env) k₁ fun _ => Keeps env.cpu none k₁ :=
    checkSleepingOnNic_keeps none ok₁ small
  have keeps := keeps₁.trans (second.of_ok ran₂)
  have ok₂ := keeps.ok ok small
  have woken := (checkSleeping_still k).of_ok ran₁
  have still := woken.trans ((checkSleepingOnNic_still k₁).of_ok ran₂)
  have solo₂ := solo.still sched ok₂.toSchedOk still
  have cur := keeps.cur sched small
  rw [← keeps.current] at solo₂
  rw [meets_get_bind]
  -- Everybody but the current process is met, beginning behind it.
  have scans := scanReady_heeds small (2 * (k₂.queue .ready).length + 1) k₂
    (ringAfter (k₂.queue .ready) (k₂.current env.cpu)) ok₂ (by rw [cur]; exact stays) ⟨[], rfl⟩
    solo₂
  refine Meets.bind scans fun switched k₃ more => ?_
  have heeds := (Heeds.of_still ok.tableOld still).trans sched more
  refine meets_ite (fun _ => heeds) (fun _ => ?_)
  rw [meets_get_bind]
  exact meets_stopIf_bind (fun _ => trivial) fun _ => heeds

/-- A status alone makes nobody stop waiting. -/
theorem Heeds.setStatus (k : Kernel) (h : PcbRef) (status : TaskStatus) :
    Heeds k (k.setStatus h status) where
  fresh := fun _ live => .inl live
  newer := le_rfl
  pid := fun x _ => Kernel.setStatus_field Pcb.pid (fun _ _ => rfl) k h status x
  history := List.suffix_rfl
  waits := fun _ live _ waits _ _ => .inl ⟨live, waits⟩

/-- The end of a process or a thread that is current. -/
theorem leave_heeds (killer : Killer env.cpu k) {status : TaskStatus}
    (goal : status = .exited ∧ (∀ h' ∈ k.pcbTable, (k.pcb h').pid = (k.cur env.cpu).pid →
        h' ≠ k.current env.cpu → (k.pcb h').status = .exiting) ∨
      status = .zombie ∧ (k.cur env.cpu).status = .running)
    (solo : Solo k (k.current env.cpu)) :
    Meets anyStop (leave env status) k fun _ => Heeds k := by
  have ⟨ok, small, caught, user, locking⟩ := killer
  have change : Change env.cpu none k (k.setStatus (k.current env.cpu) status) :=
    .sched (.leave user goal locking)
  have stays : ((k.setStatus (k.current env.cpu) status).cur env.cpu).status ≠ .exiting := by
    have left : ((k.setStatus (k.current env.cpu) status).cur env.cpu).status = status :=
      congrArg Pcb.status (Kernel.setPcb_same k _ _)
    rw [left]
    rcases goal with ⟨rfl, -⟩ | ⟨rfl, -⟩ <;> simp
  have solo₁ : Solo (k.setStatus (k.current env.cpu) status) (k.current env.cpu) := by
    refine solo.fewer ok.toSchedOk (.of_queue rfl)
      (Kernel.setStatus_field Pcb.pid (fun _ _ => rfl) k _ status) (.refl _) fun x _ other _ => ?_
    exact congrArg Pcb.status (Kernel.setPcb_other k _ other).symm
  unfold leave
  rw [meets_modify_bind]
  have scheduled := doScheduler_heeds (change.ok ok small) small stays solo₁
  refine Meets.bind scheduled fun switched k₁ more => ?_
  exact meets_ite (fun _ => (Heeds.setStatus k _ _).trans ok.toSchedOk more) fun _ => trivial

/-- `do_kill` frees nobody who is waited for before the rest of its process. -/
theorem doKill_heeds (killer : Killer env.cpu k) (pid : Int) (solo : Solo k (k.current env.cpu))
    (whole : ∀ x ∈ k.pcbSearchAll pid.toNat, k.WaitedFor x → ¬ (k.pcb x).Caught →
      ∀ y ∈ k.pcbSearchAll pid.toNat, ¬ (k.pcb y).Caught) :
    Meets anyStop (doKill env pid) k fun _ => Heeds k := by
  have ⟨ok, small, caught, user, locking⟩ := killer
  have sched := ok.toSchedOk
  have threads : ∀ h, h ∈ k.pcbSearchAll pid.toNat ↔
      h ∈ k.pcbTable ∧ (k.pcb h).pid = pid.toNat := by
    intro h
    simp [Kernel.pcbSearchAll]
  unfold doKill
  rw [meets_get_bind]
  refine meets_ite (fun _ => .of_still ok.tableOld (.refl k)) (fun there => ?_)
  rw [not_or] at there
  have high : ncpu ≤ pid.toNat := by omega
  have killed : ∀ k₁, killThreads env (k.pcbSearchAll pid.toNat) k = .ok ((), k₁) →
      (Kills env.cpu (some pid.toNat) (k.pcbSearchAll pid.toNat) k k₁ ∧
        Buries (k.pcbSearchAll pid.toNat) k k₁) ∧ Fewer k k₁ := by
    intro k₁ ran
    refine ⟨(killThreads_buries (some pid.toNat) small _ k ok (sched.tableNodup.filter _)
      ?_ ?_ ?_).of_ok ran, (killThreads_fewer _ k).of_ok ran⟩
    · intro h inside
      obtain ⟨live, same⟩ := (threads h).mp inside
      exact ⟨live, sched.user_ge (by rw [same]; exact high)⟩
    · intro h inside
      exact .inl (by rw [((threads h).mp inside).2])
    · rintro h inside rfl
      exact caught
  refine meets_ite (fun mine => ?_) (fun foreign => ?_)
  · refine Meets.bind (meets_ran _ k) fun _ k₁ ran => ?_
    obtain ⟨⟨kills, buries⟩, fewer⟩ := killed k₁ ran
    -- The killer itself runs, so that nobody was freed who is waited for.
    have here : k.current env.cpu ∈ k.pcbSearchAll pid.toNat :=
      (threads _).mpr ⟨sched.currentLive small, mine⟩
    have heeds := Heeds.killThreads ok kills buries fun x inside waited => by
      by_contra idle
      exact whole x inside waited idle _ here caught
    have samePid : (k₁.cur env.cpu).pid = pid.toNat := by
      unfold Kernel.cur
      rw [kills.pid, kills.current]
      exact mine
    have live₁ : k₁.current env.cpu ∈ k₁.pcbTable := by
      rw [kills.current]
      exact kills.spared _ (sched.currentLive small) (.inr caught)
    have marked : ∀ h ∈ k₁.pcbTable, (k₁.pcb h).pid = pid.toNat → (k₁.pcb h).status = .exiting := by
      intro h live same
      rw [kills.pid] at same
      exact kills.marked h ((threads h).mpr ⟨kills.sublist.subset live, same⟩) live
    have solo₁ := solo.kills sched fewer kills
    have killer₁ : Killer env.cpu k₁ := by
      refine ⟨kills.ok ok small, small, .inr (marked _ live₁ samePid), ?_, ?_⟩
      · rw [kills.current]; exact user
      · unfold Kernel.cur
        rw [kills.resume, kills.current]
        exact locking
    rw [← kills.current] at solo₁
    refine (leave_heeds killer₁ (.inl ⟨rfl, fun h live same _ => ?_⟩) solo₁).mono
      fun _ _ more => heeds.trans sched more
    exact marked h live (same.trans samePid)
  · refine Meets.bind (meets_ran _ k) fun _ k₁ ran => ?_
    obtain ⟨⟨kills, buries⟩, -⟩ := killed k₁ ran
    refine Meets.bind (meets_ran _ k₁) fun _ k' ran' => ?_
    exact Heeds.killAll ok kills buries whole ((finishKill_still _ k₁).of_ok ran')
      ((finishKill_notes _ k₁).of_ok ran')

end

/-! ## Events -/

/--
A thread that another process waits for is freed before the rest of its own process.

Either it has left its processor while others are left, or a kill frees it and only marks another.
-/
def Parts (k : Kernel) (event : Event) : Prop :=
  ∃ x ∈ k.pcbTable, k.WaitedFor x ∧ ((k.pcb x).status = .zombie ∨
    ∃ y ∈ k.pcbTable, y ≠ x ∧ (k.pcb y).pid = (k.pcb x).pid ∧ ((k.pcb x).status = .exited ∨
      victim k event = some (k.pcb x).pid ∧ ¬ (k.pcb x).Caught ∧ (k.pcb y).Caught))

instance (k : Kernel) (event : Event) : Decidable (Parts k event) :=
  inferInstanceAs (Decidable (∃ x ∈ k.pcbTable, _))

section

variable {k k' : Kernel} {event : Event}

/-- Before an event that parts nobody, who has left is the last of its process. -/
theorem solo_of_whole (whole : ¬ Parts k event) (c : PcbRef) : Solo k c := by
  intro x live _ left waited
  cases left with
  | inr zombie => exact absurd ⟨x, live, waited, .inl zombie⟩ whole
  | inl exited =>
    refine ⟨exited, fun y alive same => ?_⟩
    by_contra other
    exact whole ⟨x, live, waited, .inr ⟨y, alive, other, same, .inl exited⟩⟩

/-- Blocking until the end of a thread is one more wait. -/
theorem Heeds.blockOn (k : Kernel) (cpu : Nat) (x p : PcbRef) :
    Heeds k (k.blockOn cpu (.wait x) .toUser p) where
  fresh := fun _ live => .inl live
  newer := le_rfl
  pid := by
    intro h _
    have blocked := Kernel.setPcb_field Pcb.pid (k.setStatus p .running) (k.current cpu)
      (fun pcb => { pcb with status := .sleeping, phead := .wait x, resume := .toUser }) rfl h
    exact blocked.trans (Kernel.setStatus_field Pcb.pid (fun _ _ => rfl) k p .running h)
  history := List.suffix_rfl
  waits := fun _ live w waits _ _ => .inl ⟨live, (k.blockOn_waits cpu x p w _).mpr (.inl waits)⟩

/-- A process that is killed after a calm part of a call is killed as a whole, or not waited for. -/
theorem whole_of_calm {k₁ : Kernel} {acting : Nat} {pid : Int} (ok : SchedOk acting k)
    (calm : Calm k k₁) (named : victim k event = some pid.toNat) (whole : ¬ Parts k event) :
    ∀ x ∈ k₁.pcbSearchAll pid.toNat, k₁.WaitedFor x → ¬ (k₁.pcb x).Caught →
      ∀ y ∈ k₁.pcbSearchAll pid.toNat, ¬ (k₁.pcb y).Caught := by
  have threads : ∀ h, h ∈ k₁.pcbSearchAll pid.toNat ↔
      h ∈ k₁.pcbTable ∧ (k₁.pcb h).pid = pid.toNat := by
    intro h
    simp [Kernel.pcbSearchAll]
  intro x inside waited idle y inside' caught
  obtain ⟨-, pidX⟩ := (threads x).mp inside
  obtain ⟨liveY, pidY⟩ := (threads y).mp inside'
  have before := calm.still.fewer.waitedFor ok calm.still.pid waited
  -- Who is waited for is no new process, and no new process has its identifier.
  have liveX : x ∈ k.pcbTable := by
    by_contra freed
    obtain ⟨w, waits, -⟩ := before
    rw [ok.waitLive x freed] at waits
    cases waits
  have sameX := calm.pcb x (ok.tableOld x liveX)
  rw [sameX] at pidX idle
  cases calm.still.fresh y liveY with
  | inr new =>
    exact calm.apart y liveY new.1 x liveX (pidY.trans pidX.symm)
  | inl old =>
    have sameY := calm.pcb y (ok.tableOld y old)
    rw [sameY] at pidY caught
    have other : y ≠ x := by
      intro same
      exact idle (same ▸ caught)
    refine whole ⟨x, liveX, before, .inr ⟨y, old, other, pidY.trans pidX.symm, .inr ?_⟩⟩
    exact ⟨named.trans (congrArg some pidX.symm), idle, caught⟩

/-- An event that parts nobody lets nobody wait in vain. -/
theorem step_heeds {out : Out} (resting : Resting k) (whole : ¬ Parts k event)
    (ran : step event k = .ok (out, k')) : Heeds k k' := by
  have ⟨_, rests⟩ := resting
  have sched := rests.ok.toSchedOk
  have solo := solo_of_whole whole (k.current event.env.cpu)
  cases step_course resting ran with
  | quits quits =>
    cases quits with
    | still same => exact .of_still sched.tableOld same
    | kills calm killer named killed same =>
      have ⟨ok, small, caught, user, locking⟩ := killer
      have solo₁ := solo.still sched ok.toSchedOk calm.still
      rw [← calm.current] at solo₁
      have together := whole_of_calm sched calm named whole
      have heeds := (doKill_heeds killer _ solo₁ together).of_ok killed
      have ends := (doKill_ends ok small user caught locking _).of_ok killed
      have ok₂ := ends.changes.ok ok small
      exact ((Heeds.of_still sched.tableOld calm.still).trans sched heeds).trans sched
        (.of_still ok₂.tableOld same)
  | hangs aims => exact .blockOn k _ _ _
  | leaves caller left =>
    exact (leave_heeds caller.killer (.inr ⟨rfl, caller.runs⟩) solo).of_ok left
  | schedules ok small runs ran =>
    exact (doScheduler_heeds ok small (by simp [runs]) solo).of_ok ran

/-- A run of such events lets nobody wait in vain. -/
theorem reaches_heeds {timeMaxSec : Nat}
    (before : Reaches step (fun _ _ => True) (initial timeMaxSec) k)
    (later : Reaches step (fun k event => ¬ Parts k event) k k') : Heeds k k' := by
  have ⟨_, rests⟩ := reaches_resting before
  have sched := rests.ok.toSchedOk
  induction later with
  | start => exact .of_still sched.tableOld (.refl k)
  | step between whole ran ih =>
    have reached := before.trans (between.mono fun _ _ _ => trivial)
    exact ih.trans sched (step_heeds (reaches_resting reached) whole ran)

/-- Who runs waits for nobody's end. -/
theorem SchedOk.current_not_waits {acting cpu : Nat} (ok : SchedOk acting k) (small : cpu < ncpu)
    (x : PcbRef) : ¬ k.Waits (k.current cpu) x := by
  intro waits
  exact ok.current_not_sleeping small (ok.sleeping_of_queued waits (by simp))

/-- An accepted `do_waitpid` hangs its caller on a thread of the process it asks for. -/
theorem target_waitpid {env : Env} {pid : Int} {x : PcbRef}
    (aims : target k ⟨env, .syscall (.waitpid pid)⟩ = some x) :
    x ∈ k.pcbTable ∧ (k.pcb x).pid = pid.toNat ∧ (k.cur env.cpu).pid ≠ pid.toNat := by
  obtain ⟨-, asks⟩ := Option.ite_none_left_eq_some.mp aims
  obtain ⟨passed, found⟩ := Option.ite_none_left_eq_some.mp asks
  rw [not_or, not_or] at passed
  have same := List.find?_some found
  exact ⟨List.mem_of_find?_eq_some found, by simpa using same, Ne.symm passed.2.1⟩

/--
A process has called `do_waitpid`, was blocked, and has returned.

The events from the call to the return are restricted, those before the call are not.
-/
structure WaitpidRun (allowed : Kernel → Event → Prop) (timeMaxSec : Nat) (pid : Int)
    (k k' : Kernel) : Prop where
  /-- The state at the call. -/
  reached : Reaches step (fun _ _ => True) (initial timeMaxSec) k
  /-- The call blocks its caller, which runs again in the end. -/
  returns : ∃ env out k₁ x, step ⟨env, .syscall (.waitpid pid)⟩ k = .ok (out, k₁) ∧
    k₁.Waits (k.current env.cpu) x ∧ Reaches step allowed k₁ k' ∧
      ∃ cpu < ncpu, k'.current cpu = k.current env.cpu

/--
When `do_waitpid` returns, the process is gone, if it was not parted on the way.

The caller hangs on one thread only, and is woken when this thread is freed.
-/
theorem waitpid_whole (timeMaxSec : Nat) (pid : Int) (k k' : Kernel)
    (called : WaitpidRun (fun k event => ¬ Parts k event) timeMaxSec pid k k') :
    Gone k pid.toNat k' ∧ ∀ y ∈ k.pcbTable, (k.pcb y).pid = pid.toNat →
      ∀ cpu < ncpu, k'.current cpu ≠ y := by
  obtain ⟨reached, env, out, k₁, x, ran, waits₁, later, cpu, small, runs⟩ := called
  have resting := reaches_resting reached
  have ⟨_, rests⟩ := resting
  have sched := rests.ok.toSchedOk
  have reached₁ : Reaches step (fun _ _ => True) (initial timeMaxSec) k₁ :=
    reached.step trivial ran
  have ⟨_, rests'⟩ := reaches_resting (reached₁.trans (later.mono fun _ _ _ => trivial))
  have sched' := rests'.ok.toSchedOk
  have enabled : Enabled k ⟨env, .syscall (.waitpid pid)⟩ := by
    by_contra disabled
    rw [step_disabled disabled] at ran
    cases ran
  -- Who runs does not wait, so that the caller began to wait by this call.
  cases step_waits resting ran with
  | inl fewer =>
    exact absurd (fewer _ _ waits₁) (sched.current_not_waits enabled.1 x)
  | inr more =>
    obtain ⟨x', p, aims, rfl⟩ := more
    obtain rfl : x = x' := by
      cases (k.blockOn_waits _ x' p _ x).mp waits₁ with
      | inl old => exact absurd old (sched.current_not_waits enabled.1 x)
      | inr same => exact same.2
    obtain ⟨live, samePid, foreign⟩ := target_waitpid aims
    have blocked := Heeds.blockOn k env.cpu x p
    have oldX := sched.tableOld x live
    have old : k.current env.cpu < k.newPcb := sched.tableOld _ (sched.currentLive enabled.1)
    have heeds := reaches_heeds reached₁ later
    have gone : Gone k pid.toNat k' := by
      have foreign₁ : ((k.blockOn env.cpu (.wait x) .toUser p).pcb (k.current env.cpu)).pid ≠
          ((k.blockOn env.cpu (.wait x) .toUser p).pcb x).pid := by
        rw [blocked.pid x oldX, blocked.pid _ old, samePid]
        exact foreign
      cases heeds.waits x live _ waits₁ foreign₁ (runs ▸ sched'.currentLive small) with
      | inl waiting =>
        exact absurd waiting.2 (runs ▸ sched'.current_not_waits small x)
      | inr gone =>
        rw [blocked.pid x oldX, samePid] at gone
        refine ⟨fun y alive same => gone.freed y alive ?_, gone.ended⟩
        rw [blocked.pid y (sched.tableOld y alive)]
        exact same
    refine ⟨gone, fun y alive same cpu' small' here => gone.freed y alive same ?_⟩
    exact here ▸ sched'.currentLive small'

/-- A test that finds out whether lists of events before and after the call make up such a run. -/
def waitpidReturns (legal : Kernel → Event → Bool) (timeMaxSec : Nat) (env : Env) (pid : Int)
    (x : PcbRef) (before after : List Event) (good : Kernel → Kernel → Bool) : Bool :=
  (runEvents step (initial timeMaxSec) before).any fun k =>
    match step ⟨env, .syscall (.waitpid pid)⟩ k with
    | .ok (_, k₁) => (k₁.queue (.wait x)).contains (k.current env.cpu) &&
      (runWhere step legal k₁ after).any fun k' =>
        k'.current env.cpu == k.current env.cpu && good k k'
    | .error _ => false

/-- Lists of events that pass the test make up such a run. -/
theorem WaitpidRun.of_returns {allowed : Kernel → Event → Prop} {legal : Kernel → Event → Bool}
    {timeMaxSec : Nat} {env : Env} {pid : Int} {x : PcbRef} {before after : List Event}
    {good : Kernel → Kernel → Bool} (small : env.cpu < ncpu)
    (sound : ∀ k event, legal k event = true → allowed k event)
    (passed : waitpidReturns legal timeMaxSec env pid x before after good = true) :
    ∃ k k', WaitpidRun allowed timeMaxSec pid k k' ∧ good k k' = true := by
  obtain ⟨k, reached, calls⟩ := (Option.any_eq_true _ _).mp passed
  cases ran : step ⟨env, .syscall (.waitpid pid)⟩ k with
  | error reason => simp [ran] at calls
  | ok answer =>
    obtain ⟨out, k₁⟩ := answer
    simp only [ran, Bool.and_eq_true, List.contains_iff_mem] at calls
    obtain ⟨waits, later⟩ := calls
    obtain ⟨k', ran', facts⟩ := (Option.any_eq_true _ _).mp later
    simp only [Bool.and_eq_true, beq_iff_eq] at facts
    refine ⟨k, k', ⟨.of_events reached, env, out, k₁, x, ran, waits, ?_, ?_⟩, facts.2⟩
    · exact .of_events_where sound ran'
    · exact ⟨env.cpu, small, facts.1⟩

/-- A process with one thread exits, and is reaped; its parent returns from `do_waitpid`. -/
theorem waitpid_whole_exit :
    ∃ k k', WaitpidRun (fun k event => ¬ Parts k event) 100 3 k k' ∧
      (3 ∈ k.pcbTable ∧ (k.pcb 3).pid = 3) ∧ Gone k (3 : Int).toNat k' := by
  have passed : waitpidReturns (fun k event => !decide (Parts k event)) 100 (quietEnv 0) 3 3
      [⟨quietEnv 0, .timer⟩, ⟨quietEnv 0, .syscall (.exec 1 true)⟩]
      [⟨quietEnv 0, .syscall .exit⟩, ⟨quietEnv 0, .timer⟩, ⟨quietEnv 0, .timer⟩]
      (fun k _ => k.pcbTable.contains 3 && (k.pcb 3).pid == 3) = true := by decide +kernel
  have sound : ∀ k event, (!decide (Parts k event)) = true → ¬ Parts k event := by
    intro k event
    simp
  obtain ⟨k, k', called, there⟩ := WaitpidRun.of_returns (by decide) sound passed
  refine ⟨k, k', called, ?_, (waitpid_whole 100 3 k k' called).1⟩
  simpa using there

/-- A thread exits while the first thread of its process is ready: the waiter returns too early. -/
theorem waitpid_early : ¬ ∀ (timeMaxSec : Nat) (pid : Int) (k k' : Kernel),
    WaitpidRun (fun _ _ => True) timeMaxSec pid k k' →
      Gone k pid.toNat k' ∧ ∀ y ∈ k.pcbTable, (k.pcb y).pid = pid.toNat →
        ∀ cpu < ncpu, k'.current cpu ≠ y := by
  intro whole
  -- The first thread is freed where it waits, and the one that exits is still in the table.
  have passed : waitpidReturns (fun _ _ => true) 100 (quietEnv 0) 3 3
      [⟨quietEnv 0, .timer⟩, ⟨quietEnv 0, .syscall (.exec 1 true)⟩, ⟨quietEnv 1, .timer⟩,
        ⟨quietEnv 1, .syscall (.threadCreate true)⟩]
      [⟨quietEnv 1, .timer⟩, ⟨quietEnv 0, .syscall .exit⟩]
      (fun k k' => k.pcbTable.contains 4 && (k.pcb 4).pid == 3 && k'.pcbTable.contains 4) =
        true := by decide +kernel
  obtain ⟨k, k', called, left⟩ := WaitpidRun.of_returns (by decide) (fun _ _ _ => trivial) passed
  simp only [Bool.and_eq_true, List.contains_iff_mem, beq_iff_eq] at left
  exact (whole 100 3 k k' called).1.freed 4 left.1.1 left.1.2 left.2

end

end GlucOS.Sched
