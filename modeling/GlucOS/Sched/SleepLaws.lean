import GlucOS.Sched.QueueLaws
import GlucOS.Sched.Sleep

/-! `check_sleeping` wakes the processes whose time has come, and nobody else. -/

namespace GlucOS.Sched

open Routine

variable {size timeNowSec rounds : Nat} {wakeupTime : PcbRef → Nat} {ccpu pw t : PcbRef}
  {ring ready passed rest : List PcbRef}

/-- An insertion adds one member. -/
theorem length_insertAfter (nodup : ready.Nodup) (inside : ccpu ∈ ready) :
    (insertAfter ready ccpu t).length = ready.length + 1 := by
  obtain ⟨front, back, rfl, notFront, -, -⟩ := ring_split nodup inside
  rw [insertAfter_split notFront]
  simp only [List.length_append, List.length_cons]
  omega

/-- The processes woken, each of which is inserted right after the current one. -/
def insertAll (ready : List PcbRef) (ccpu : PcbRef) (woken : List PcbRef) : List PcbRef :=
  woken.foldl (fun ready h => insertAfter ready ccpu h) ready

/-- Who is ready afterwards. -/
theorem mem_insertAll {woken : List PcbRef} {h : PcbRef} (current : ccpu ∈ ready) :
    h ∈ insertAll ready ccpu woken ↔ h ∈ woken ∨ h ∈ ready := by
  unfold insertAll
  induction woken generalizing ready with
  | nil => simp
  | cons x woken ih =>
    have still : ccpu ∈ insertAfter ready ccpu x := (mem_insertAfter current).mpr (.inr current)
    rw [List.foldl_cons, ih still, mem_insertAfter current, List.mem_cons]
    tauto

/-- The head pointer that is set. -/
theorem Links.setHead_same (m : Links) (q : QueueRef) (head : Option PcbRef) :
    (m.setHead q head).head q = head := Function.update_self ..

/-- The other head pointers. -/
theorem Links.setHead_other (m : Links) {q q' : QueueRef} (head : Option PcbRef) (differ : q' ≠ q) :
    (m.setHead q head).head q' = m.head q' := Function.update_of_ne differ ..

namespace SleepState

variable {s s' s₁ : SleepState}

/-- The sleep queue and the ready queue are circular lists, and who sleeps is in the former. -/
structure Sleeps (s : SleepState) (size : Nat) (ccpu : PcbRef) (ring ready : List PcbRef) :
    Prop where
  /-- The sleep queue. -/
  sleepers : Linked s.links.next (s.links.head .sleep) ring
  /-- The ready queue. -/
  readies : Linked s.links.next (s.links.head .ready) ready
  /-- They share no PCB. -/
  apart : ∀ h ∈ ring, h ∉ ready
  /-- Everybody in the sleep queue sleeps. -/
  asleep : ∀ h ∈ ring, s.status h = .sleeping
  /-- The current process is ready. -/
  current : ccpu ∈ ready
  /-- The loops over both lists may take so long. -/
  room : ring.length + ready.length ≤ size

/-- What waking these PCBs does, where the sleep queue and the ready queue are as given. -/
structure Woke (s : SleepState) (ring ready woken : List PcbRef) (s' : SleepState) : Prop where
  /-- They are ready, and the others as before. -/
  status : ∀ h, s'.status h = if h ∈ woken then .ready else s.status h
  /-- They know their new queue. -/
  phead : ∀ h, s'.links.phead h = if h ∈ woken then .ready else s.links.phead h
  /-- Links outside both queues are as before. -/
  next : ∀ h, h ∉ ring → h ∉ ready → s'.links.next h = s.links.next h
  /-- So are the heads of other queues. -/
  head : ∀ q, q ≠ .sleep → q ≠ .ready → s'.links.head q = s.links.head q

/-- Waking nobody. -/
theorem Woke.none (s : SleepState) (ring ready : List PcbRef) : s.Woke ring ready [] s where
  status _ := rfl
  phead _ := rfl
  next _ _ _ := rfl
  head _ _ _ := rfl

/-- Waking some and then others. -/
theorem Woke.trans {ring' ready' woken woken' : List PcbRef} (first : s.Woke ring ready woken s₁)
    (second : s₁.Woke ring' ready' woken' s') (fewer : ∀ h ∈ ring', h ∈ ring)
    (more : ∀ h ∈ ready', h ∈ ring ∨ h ∈ ready) : s.Woke ring ready (woken ++ woken') s' where
  status := by
    intro h
    rw [second.status, first.status]
    by_cases late : h ∈ woken'
    · simp [late]
    · simp [late]
  phead := by
    intro h
    rw [second.phead, first.phead]
    by_cases late : h ∈ woken'
    · simp [late]
    · simp [late]
  next := by
    intro h outside notReady
    have outside' : h ∉ ring' := fun inside => outside (fewer h inside)
    have notReady' : h ∉ ready' := by
      intro inside
      cases more h inside with
      | inl slept => exact outside slept
      | inr was => exact notReady was
    rw [second.next h outside' notReady', first.next h outside notReady]
  head := by
    intro q notSleep notReady
    rw [second.head q notSleep notReady, first.head q notSleep notReady]

/-- `wake_up` of somebody who sleeps. -/
theorem wakeUp_spec (ok : s.Sleeps size ccpu ring ready) (inside : t ∈ ring) :
    ∃ s', s.wakeUp size t ccpu = some s' ∧
      s'.Sleeps size ccpu (ring.erase t) (insertAfter ready ccpu t) ∧ s.Woke ring ready [t] s' := by
  have room := ok.room
  -- First the PCB leaves the sleep queue.
  obtain ⟨head, m₁, deleted, shorter, phead₁, spares₁⟩ :=
    Links.lpcbDelNodeIn_spec ok.sleepers (by omega : ring.length ≤ size) inside
  -- The ready queue is as before, so that the PCB can be inserted there.
  have heads : (m₁.setHead .sleep head).head .ready = s.links.head .ready := by
    rw [Links.setHead_other _ _ (by decide), spares₁.head]
  have linkedReady : Linked (m₁.setHead .sleep head).next ((m₁.setHead .sleep head).head .ready)
      ready := by
    rw [heads]
    apply ok.readies.congr
    intro x isReady
    exact spares₁.next x fun sleeps => ok.apart x sleeps isReady
  obtain ⟨m₂, inserted, longer, phead₂, spares₂⟩ := Links.lpcbInsertNodeIn_after (q := .ready)
    linkedReady (by omega : ready.length ≤ size) (ok.apart t inside) ok.current
  have present : (m₁.setHead .sleep head).head .ready ≠ .none := by
    rw [linkedReady.head]
    intro none
    have empty := List.head?_eq_none_iff.mp none
    have current := ok.current
    rw [empty] at current
    cases current
  refine ⟨⟨m₂.setHead .ready ((m₁.setHead .sleep head).head .ready),
    Function.update s.status t .ready⟩, ?_, ?_, ?_⟩
  -- The links were changed as computed above.
  · unfold wakeUp
    rw [if_neg (by simp [ok.asleep t inside])]
    simp only [deleted, Option.bind_eq_bind, Option.bind_some, ne_eq, not_true, if_false,
      inserted, if_neg present]
    rfl
  · constructor
    · -- The sleep queue has lost the PCB, and the insertion did not touch it.
      have here : (m₂.setHead .ready ((m₁.setHead .sleep head).head .ready)).head .sleep = head := by
        rw [Links.setHead_other _ _ (by decide), spares₂.head, Links.setHead_same]
      rw [here]
      apply shorter.congr
      intro x stays
      apply spares₂.next
      intro touched
      cases List.mem_cons.mp touched with
      | inl same =>
        subst same
        exact ok.sleepers.nodup.not_mem_erase stays
      | inr isReady => exact ok.apart x (List.mem_of_mem_erase stays) isReady
    · rw [Links.setHead_same]
      exact longer
    · intro h stays isReady
      have slept := List.mem_of_mem_erase stays
      cases (mem_insertAfter ok.current).mp isReady with
      | inl same =>
        subst same
        exact ok.sleepers.nodup.not_mem_erase stays
      | inr was => exact ok.apart h slept was
    · intro h stays
      have other : h ≠ t := by
        intro same
        subst same
        exact ok.sleepers.nodup.not_mem_erase stays
      exact (Function.update_of_ne other ..).trans (ok.asleep h (List.mem_of_mem_erase stays))
    · exact (mem_insertAfter ok.current).mpr (.inr ok.current)
    · rw [length_insertAfter ok.readies.nodup ok.current, List.length_erase_of_mem inside]
      have some' := List.length_pos_of_mem inside
      omega
  · constructor
    · intro h
      by_cases same : h = t
      · simp [same]
      · simp [same]
    · intro h
      show m₂.phead h = _
      rw [phead₂]
      by_cases same : h = t
      · simp [same]
      · rw [Function.update_of_ne same, if_neg (by simpa using same)]
        show m₁.phead h = _
        rw [phead₁]
    · intro h outside notReady
      have other : h ≠ t := fun same => outside (same ▸ inside)
      show m₂.next h = _
      rw [spares₂.next h (by simp [other, notReady])]
      exact spares₁.next h outside
    · intro q notSleep notReady
      rw [Links.setHead_other _ _ notReady, spares₂.head, Links.setHead_other _ _ notSleep,
        spares₁.head]

/-- One round of the loop, without its end test. -/
theorem wakeDue_spec (timeNowSec : Nat) (wakeupTime : PcbRef → Nat)
    (ok : s.Sleeps size ccpu (passed ++ pw :: rest) ready) : ∃ s',
    s.wakeDue size timeNowSec wakeupTime pw ccpu = some s' ∧
      s'.Sleeps size ccpu (passed ++ [pw].filter (timeNowSec < wakeupTime ·) ++ rest)
        (insertAll ready ccpu ([pw].filter (wakeupTime · ≤ timeNowSec))) ∧
      s.Woke (passed ++ pw :: rest) ready ([pw].filter (wakeupTime · ≤ timeNowSec)) s' := by
  unfold wakeDue
  -- Whoever is due leaves the list, and the others are as before.
  by_cases due : wakeupTime pw ≤ timeNowSec
  · have notPassed : pw ∉ passed := by
      intro before
      exact (List.nodup_append.mp ok.sleepers.nodup).2.2 pw before pw (by simp) rfl
    obtain ⟨s', ran, ok', woke⟩ := wakeUp_spec ok (List.mem_append_right passed List.mem_cons_self)
    rw [List.erase_append_right _ notPassed, List.erase_cons_head] at ok'
    rw [if_pos due]
    have later : ¬ timeNowSec < wakeupTime pw := Nat.not_lt.mpr due
    simp only [List.filter_cons, due, later, decide_true, decide_false, if_true, List.filter_nil,
      Bool.false_eq_true, if_false, List.append_nil]
    exact ⟨s', ran, ok', woke⟩
  · have later : timeNowSec < wakeupTime pw := Nat.lt_of_not_le due
    rw [if_neg due]
    simp only [List.filter_cons, due, later, decide_true, decide_false, if_true, List.filter_nil,
      Bool.false_eq_true, if_false, List.append_assoc, List.cons_append, List.nil_append]
    exact ⟨s, rfl, ok, .none s _ _⟩

/-- The loop from one of the processes on, when those in front of it sleep on. -/
theorem checkFrom_spec (ok : s.Sleeps size ccpu (passed ++ pw :: rest) ready)
    (enough : rest.length < rounds) : ∃ s',
      checkFrom size timeNowSec wakeupTime ccpu rounds pw s = some s' ∧
        s'.Sleeps size ccpu (passed ++ (pw :: rest).filter (timeNowSec < wakeupTime ·))
          (insertAll ready ccpu ((pw :: rest).filter (wakeupTime · ≤ timeNowSec))) ∧
        s.Woke (passed ++ pw :: rest) ready ((pw :: rest).filter (wakeupTime · ≤ timeNowSec))
          s' := by
  -- The induction follows the queue behind the process.
  induction rest generalizing passed pw ready s rounds with
  | nil =>
    obtain ⟨more, rfl⟩ : ∃ more, rounds = more + 1 := ⟨rounds - 1, by simp at enough; omega⟩
    obtain ⟨a, start, link, -⟩ := ok.sleepers.link
    obtain ⟨s', ran, ok', woke⟩ := wakeDue_spec timeNowSec wakeupTime ok
    rw [List.append_nil] at ok'
    refine ⟨s', ?_, ok', woke⟩
    -- The last member is linked to the head, as it was before the round.
    have ends : some (s.links.next pw) = s.links.head .sleep := by
      rw [link, start]
      rfl
    unfold checkFrom
    rw [if_neg (by simp [ok.asleep pw (by simp)])]
    simp only [ran, Option.bind_eq_bind, Option.bind_some, ends, ne_eq, not_true, and_false,
      if_false]
    rfl
  | cons b rest ih =>
    obtain ⟨more, rfl⟩ : ∃ more, rounds = more + 1 := ⟨rounds - 1, by simp at enough; omega⟩
    obtain ⟨a, start, link, fresh⟩ := ok.sleepers.link
    obtain ⟨s₁, ran, ok₁, woke₁⟩ := wakeDue_spec timeNowSec wakeupTime ok
    obtain ⟨s', ran', ok', woke'⟩ := ih ok₁ (by simpa using enough)
    have next : s.links.next pw = b := link
    -- The next one is not the head, so the loop goes on.
    have differ : some b ≠ s.links.head .sleep := by
      rw [start]
      intro same
      exact fresh (by simp [Option.some.inj same])
    -- Somebody is left to be looked at, so that the queue is not empty.
    have present : s₁.links.head .sleep ≠ .none := by
      rw [ok₁.sleepers.head]
      simp
    refine ⟨s', ?_, ?_, ?_⟩
    · unfold checkFrom
      rw [if_neg (by simp [ok.asleep pw (by simp)])]
      simp only [ran, Option.bind_eq_bind, Option.bind_some, if_neg (not_and_of_not_left _ present),
        next, if_pos differ]
      exact ran'
    · rw [← List.singleton_append, List.filter_append, List.filter_append, ← List.append_assoc]
      unfold insertAll
      rw [List.foldl_append]
      exact ok'
    · rw [← List.singleton_append, List.filter_append]
      apply woke₁.trans woke'
      · intro h inside
        simp only [List.mem_append, List.mem_cons, List.mem_filter, List.not_mem_nil] at inside ⊢
        tauto
      · intro h inside
        rw [mem_insertAll ok.current] at inside
        simp only [List.mem_append, List.mem_cons, List.mem_filter, List.not_mem_nil] at inside ⊢
        tauto

/-- `check_sleeping`. -/
theorem checkSleeping_spec (timeNowSec : Nat) (wakeupTime : PcbRef → Nat)
    (ok : s.Sleeps size ccpu ring ready) : ∃ s',
    s.checkSleeping size timeNowSec wakeupTime ccpu = some s' ∧
      s'.Sleeps size ccpu (ring.filter (timeNowSec < wakeupTime ·))
        (insertAll ready ccpu (ring.filter (wakeupTime · ≤ timeNowSec))) ∧
      s.Woke ring ready (ring.filter (wakeupTime · ≤ timeNowSec)) s' := by
  unfold checkSleeping
  rw [ok.sleepers.head]
  -- With nobody asleep there is no head to start from.
  cases ring with
  | nil => exact ⟨s, rfl, ok, .none s _ _⟩
  | cons pw rest =>
    have room := ok.room
    rw [List.length_cons] at room
    have ok' : s.Sleeps size ccpu ([] ++ pw :: rest) ready := ok
    exact checkFrom_spec ok' (by omega)

end SleepState

/-! ## The queues of the scheduler -/

section Kernel

variable {acting : Nat} {k k' : Kernel} {m : Links} {env : Env}

/-- What waking these sleepers does to the scheduler's state. -/
structure Rouses (cpu : Nat) (k : Kernel) (woken : List PcbRef) (k' : Kernel) : Prop where
  /-- They are ready, and all else about the PCBs is as before. -/
  pcb : ∀ h, k'.pcb h =
    if h ∈ woken then { k.pcb h with status := .ready, phead := .ready } else k.pcb h
  /-- The others sleep on. -/
  sleep : k'.queue .sleep = (k.queue .sleep).filter (· ∉ woken)
  /-- They are inserted after the current process. -/
  ready : k'.queue .ready = insertAll (k.queue .ready) (k.current cpu) woken
  /-- The other queues are as before. -/
  others : ∀ q, q ≠ .sleep → q ≠ .ready → k'.queue q = k.queue q
  /-- So is the table. -/
  pcbTable : k'.pcbTable = k.pcbTable
  /-- The same processes are current. -/
  current : k'.current = k.current

/-- Waking nobody. -/
theorem Rouses.none (cpu : Nat) (k : Kernel) : Rouses cpu k [] k where
  pcb _ := rfl
  sleep := by simp
  ready := rfl
  others _ _ _ := rfl
  pcbTable := rfl
  current := rfl

/-- One process is woken before the others. -/
theorem Rouses.cons {cpu : Nat} {h : PcbRef} {woken : List PcbRef}
    (nodup : (k.queue .sleep).Nodup) (more : Rouses cpu (k.wake cpu .sleep h) woken k') :
    Rouses cpu k (h :: woken) k' where
  pcb := by
    intro x
    rw [more.pcb]
    by_cases same : x = h
    · subst same
      simp [Kernel.wake_pcb_same]
    · simp [Kernel.wake_pcb_other cpu .sleep same, same]
  sleep := by
    rw [more.sleep, Kernel.wake_source k cpu h (by decide), nodup.erase_eq_filter,
      List.filter_filter]
    apply List.filter_congr
    intro x _
    by_cases same : x = h
    · simp [same]
    · simp [same]
  ready := by
    rw [more.ready, Kernel.wake_ready]
    rfl
  others := by
    intro q notSleep notReady
    rw [more.others q notSleep notReady, Kernel.wake_other k cpu h notReady notSleep]
  pcbTable := more.pcbTable
  current := more.current

/-- The rounds of `check_sleeping` wake those whose time has come, and never panic. -/
theorem checkSleepers_rouses (small : env.cpu < ncpu) (rest : List PcbRef) :
    ∀ k, SchedOk acting k → rest.Nodup → (∀ h ∈ rest, h ∈ k.queue .sleep) →
      Meets (fun _ => False) (checkSleepers env rest) k fun _ k' =>
        Rouses env.cpu k (rest.filter fun h => (k.pcb h).wakeupTime ≤ env.now) k' := by
  -- The induction is on those that have not been looked at.
  induction rest with
  | nil => exact fun k _ _ _ => Rouses.none env.cpu k
  | cons pw rest ih =>
    intro k ok nodup queued
    obtain ⟨fresh, nodup'⟩ := List.nodup_cons.mp nodup
    have here := queued pw (by simp)
    have sleeps : (k.pcb pw).status = .sleeping := ok.sleeping_of_queued here (by simp)
    have ready := ok.currentReady env.cpu small
    -- Waking one process keeps the order of the others, and their times.
    by_cases due : (k.pcb pw).wakeupTime ≤ env.now
    · have round : Meets (fun _ => False) (checkSleeper env pw) k fun _ k' =>
          k' = k.wake env.cpu .sleep pw := by
        unfold checkSleeper
        rw [meets_get_bind, if_neg (by simp [sleeps]), if_pos due]
        unfold wakeUp
        rw [meets_get_bind, if_neg (by simp [sleeps]), if_neg (by simpa using here),
          if_neg (by simpa using ready), meets_set]
      unfold checkSleepers
      apply Meets.bind round
      intro _ k₁ woken
      subst woken
      have queued' : ∀ h ∈ rest, h ∈ (k.wake env.cpu .sleep pw).queue .sleep := by
        intro h inRest
        rw [Kernel.wake_source k env.cpu pw (by simp)]
        have differ : h ≠ pw := fun same => fresh (same ▸ inRest)
        exact (List.mem_erase_of_ne differ).mpr (queued h (by simp [inRest]))
      apply (ih _ (ok.wake small here (by simp)) nodup' queued').mono
      intro _ k' rouses
      have times : rest.filter (fun h => ((k.wake env.cpu .sleep pw).pcb h).wakeupTime ≤ env.now) =
          rest.filter fun h => (k.pcb h).wakeupTime ≤ env.now := by
        apply List.filter_congr
        intro h inRest
        have differ : h ≠ pw := fun same => fresh (same ▸ inRest)
        rw [Kernel.wake_pcb_other env.cpu .sleep differ]
      rw [times] at rouses
      rw [List.filter_cons_of_pos (by simpa using due)]
      exact .cons (ok.queueNodup .sleep) rouses
    · have round : Meets (fun _ => False) (checkSleeper env pw) k fun _ k' => k' = k := by
        unfold checkSleeper
        rw [meets_get_bind, if_neg (by simp [sleeps]), if_neg due, meets_pure]
      unfold checkSleepers
      apply Meets.bind round
      intro _ k₁ same
      subst same
      rw [List.filter_cons_of_neg (by simpa using due)]
      exact ih k₁ ok nodup' fun h inRest => queued h (by simp [inRest])

/-- The queues of the scheduler are lists as `check_sleeping` needs them. -/
theorem SchedOk.sleeps (ok : SchedOk acting k) (linking : Linking m k) {cpu : Nat}
    (small : cpu < ncpu) : SleepState.Sleeps ⟨m, fun h => (k.pcb h).status⟩ maxNodes (k.current cpu)
      (k.queue .sleep) (k.queue .ready) where
  sleepers := linking.lists .sleep
  readies := linking.lists .ready
  apart := by
    intro h sleeps isReady
    exact absurd (ok.queue_unique sleeps isReady) (by decide)
  asleep := by
    intro h sleeps
    exact ok.sleeping_of_queued sleeps (by simp)
  current := ok.currentReady cpu small
  room := by
    -- Both queues together hold no PCB twice.
    have nodup : (k.queue .sleep ++ k.queue .ready).Nodup := by
      rw [List.nodup_append]
      refine ⟨ok.queueNodup .sleep, ok.queueNodup .ready, ?_⟩
      intro h sleeps h' isReady same
      subst same
      exact absurd (ok.queue_unique sleeps isReady) (by decide)
    have inside : k.queue .sleep ++ k.queue .ready ⊆ k.pcbTable := by
      intro h queued
      cases List.mem_append.mp queued with
      | inl sleeps => exact (ok.queueLive _ h sleeps).1
      | inr isReady => exact (ok.queueLive _ h isReady).1
    have few := (nodup.subperm inside).length_le
    rw [List.length_append] at few
    exact few.trans ok.tableRoom

/-- `check_sleeping` on the links does what it does on the queues. -/
theorem checkSleeping_linked (ok : SchedOk acting k) (linking : Linking m k)
    (small : env.cpu < ncpu) : ∃ s' k',
      SleepState.checkSleeping ⟨m, fun h => (k.pcb h).status⟩ maxNodes env.now
        (fun h => (k.pcb h).wakeupTime) (k.current env.cpu) = some s' ∧
      checkSleeping env k = .ok ((), k') ∧ Linking s'.links k' ∧
      s'.status = fun h => (k'.pcb h).status := by
  obtain ⟨s', linked, sleeps, woke⟩ := SleepState.checkSleeping_spec env.now
    (fun h => (k.pcb h).wakeupTime) (ok.sleeps linking small)
  -- The same rounds are done on the queues.
  have meets : Meets (fun _ => False) (checkSleeping env) k fun _ k' =>
      Rouses env.cpu k ((k.queue .sleep).filter fun h => (k.pcb h).wakeupTime ≤ env.now) k' := by
    unfold checkSleeping
    rw [meets_get_bind]
    exact checkSleepers_rouses small _ k ok (ok.queueNodup _) fun _ inside => inside
  cases ran : checkSleeping env k with
  | error reason => exact (meets.of_error ran).elim
  | ok answer =>
    obtain ⟨_, k'⟩ := answer
    have rouses := meets.of_ok ran
    refine ⟨s', k', linked, rfl, ⟨?_, ?_⟩, ?_⟩
    · intro q
      by_cases asleep : q = .sleep
      · subst asleep
        have others : (k.queue .sleep).filter (· ∉ (k.queue .sleep).filter fun h =>
            (k.pcb h).wakeupTime ≤ env.now) =
              (k.queue .sleep).filter fun h => env.now < (k.pcb h).wakeupTime := by
          apply List.filter_congr
          intro h inside
          simp [inside]
        rw [rouses.sleep, others]
        exact sleeps.sleepers
      by_cases isReady : q = .ready
      · subst isReady
        rw [rouses.ready]
        exact sleeps.readies
      · -- The other queues share no PCB with the two.
        rw [rouses.others q asleep isReady, woke.head q asleep isReady]
        apply (linking.lists q).congr
        intro h queued
        apply woke.next
        · exact fun slept => asleep (ok.queue_unique queued slept)
        · exact fun ready => isReady (ok.queue_unique queued ready)
    · intro h live
      rw [rouses.pcbTable] at live
      rw [woke.phead, rouses.pcb]
      split
      · rfl
      · exact linking.phead h live
    · funext h
      rw [woke.status, rouses.pcb]
      split
      · rfl
      · rfl

end Kernel

/--
`check_sleeping` ends without a panic, moves exactly the processes whose time has come to the ready
queue, and leaves the others in their order; in every state reached its queues are such lists.
-/
theorem check_sleeping_wakes_due :
    (∀ (s : SleepState) (size timeNowSec : Nat) (wakeupTime : PcbRef → Nat) (ccpu : PcbRef)
      (ring ready : List PcbRef), s.Sleeps size ccpu ring ready →
        ∃ s', s.checkSleeping size timeNowSec wakeupTime ccpu = some s' ∧
          Linked s'.links.next (s'.links.head .sleep) (ring.filter (timeNowSec < wakeupTime ·)) ∧
          Linked s'.links.next (s'.links.head .ready)
            (insertAll ready ccpu (ring.filter (wakeupTime · ≤ timeNowSec))) ∧
          s.Woke ring ready (ring.filter (wakeupTime · ≤ timeNowSec)) s') ∧
    ∀ (timeMaxSec : Nat) (k : Kernel), Reaches step (fun _ _ => True) (initial timeMaxSec) k →
      ∀ env : Env, env.cpu < ncpu → ∃ m s' k', Linking m k ∧
        SleepState.Sleeps ⟨m, fun h => (k.pcb h).status⟩ maxNodes (k.current env.cpu)
          (k.queue .sleep) (k.queue .ready) ∧
        SleepState.checkSleeping ⟨m, fun h => (k.pcb h).status⟩ maxNodes env.now
          (fun h => (k.pcb h).wakeupTime) (k.current env.cpu) = some s' ∧
        checkSleeping env k = .ok ((), k') ∧ Linking s'.links k' ∧
        s'.status = fun h => (k'.pcb h).status := by
  constructor
  · intro s size timeNowSec wakeupTime ccpu ring ready ok
    obtain ⟨s', ran, sleeps, woke⟩ := SleepState.checkSleeping_spec timeNowSec wakeupTime ok
    exact ⟨s', ran, sleeps.sleepers, sleeps.readies, woke⟩
  · intro timeMaxSec k reached env small
    obtain ⟨m, -, linking⟩ := reaches_linked reached
    obtain ⟨acting, rests⟩ := reaches_resting reached
    have ok := rests.ok.toSchedOk
    obtain ⟨s', k', linked, ran, linking', status⟩ := checkSleeping_linked ok linking small
    exact ⟨m, s', k', linking, ok.sleeps linking small, linked, ran, linking', status⟩

/-- Two processes are ready, and three sleep. -/
def threeSleepers : SleepState where
  links :=
    { next := fun h => if h = 0 then 1 else if h = 1 then 0 else if h = 4 then 2 else h + 1
      phead := fun h => if h < 2 then .ready else .sleep
      head := fun q => if q = .ready then some 0 else if q = .sleep then some 2 else none }
  status h := if h < 2 then .ready else .sleeping

/-- They are in two circular lists. -/
theorem threeSleepers_sleeps : threeSleepers.Sleeps 5 0 [2, 3, 4] [0, 1] where
  sleepers := by
    constructor
    · rfl
    · decide
    · intro a first
      obtain rfl : 2 = a := by simpa using first
      exact ⟨rfl, rfl, rfl, trivial⟩
  readies := by
    constructor
    · rfl
    · decide
    · intro a first
      obtain rfl : 0 = a := by simpa using first
      exact ⟨rfl, rfl, trivial⟩
  apart := by decide
  asleep := by decide
  current := by decide
  room := by decide

/-- The head and the last one are woken, and the one between them stays. -/
theorem check_sleeping_wakes_two : ∃ s',
    threeSleepers.checkSleeping 5 10 (fun h => if h = 3 then 20 else 10) 0 = some s' ∧
      Linked s'.links.next (s'.links.head .sleep) [3] ∧
        Linked s'.links.next (s'.links.head .ready) [0, 4, 2, 1] := by
  obtain ⟨s', ran, sleepers, readies, -⟩ := check_sleeping_wakes_due.1 threeSleepers 5 10
    (fun h => if h = 3 then 20 else 10) 0 [2, 3, 4] [0, 1] threeSleepers_sleeps
  exact ⟨s', ran, sleepers, readies⟩

end GlucOS.Sched
