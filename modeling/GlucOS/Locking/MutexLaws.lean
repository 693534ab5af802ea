import GlucOS.Locking.ObjectLaws

/-! Mutex locks exclude processes from each other, whoever is killed in between. -/

namespace GlucOS.Sched

/-! ## Who may acquire and release -/

/-- A thread that has a lock excludes all other threads until it releases the lock or ends. -/
def ThreadExclusive (history : List Note) : Prop :=
  ∀ i h pid later middle earlier, history = later ++ middle ++ .acquired i h pid :: earlier →
    .released i h pid ∉ middle → .terminated pid ∉ middle →
      (∀ h' pid', .acquired i h' pid' ∈ middle → h' = h) ∧
        ∀ h' pid', .released i h' pid' ∉ middle

/-- A process that has a lock excludes all others until one of its threads releases it or it ends. -/
def ProcessExclusive (history : List Note) : Prop :=
  ∀ i h pid later middle earlier, history = later ++ middle ++ .acquired i h pid :: earlier →
    (∀ h', .released i h' pid ∉ middle) → .terminated pid ∉ middle →
      (∀ h' pid', .acquired i h' pid' ∈ middle → pid' = pid) ∧
        ∀ h' pid', .released i h' pid' ∉ middle

/-- While a process holds a lock, nobody else has acquired or released it. -/
def Orderly (i : Nat) : List Note → Prop
  | [] => True
  | .acquired j _ pid :: earlier =>
    Orderly i earlier ∧ (j = i → ∀ owner ∈ holder i earlier, owner = pid)
  | .released j _ pid :: earlier =>
    Orderly i earlier ∧ (j = i → ∀ owner ∈ holder i earlier, owner = pid)
  | _ :: earlier => Orderly i earlier

section

variable {i h pid : Nat} {later middle earlier : List Note}

/-- What was orderly stays so when later notes are forgotten. -/
theorem Orderly.of_append (later : List Note) (orderly : Orderly i (later ++ earlier)) : Orderly i earlier := by
  induction later with
  | nil => exact orderly
  | cons entry later ih =>
    refine ih ?_
    cases entry with
    | acquired j h pid => exact orderly.1
    | released j h pid => exact orderly.1
    | terminated pid => exact orderly
    | semInit j value => exact orderly
    | semUp j => exact orderly
    | semGranted j => exact orderly
    | passed j group goal => exact orderly
    | opened j => exact orderly
    | sent j bytes => exact orderly
    | received j bytes => exact orderly

/-- A process that neither releases a lock nor ends keeps it, and nobody else gets it. -/
theorem Orderly.keeps (orderly : Orderly i (middle ++ .acquired i h pid :: earlier))
    (kept : ∀ h', .released i h' pid ∉ middle) (alive : .terminated pid ∉ middle) :
    holder i (middle ++ .acquired i h pid :: earlier) = some pid ∧
      (∀ h' pid', .acquired i h' pid' ∈ middle → pid' = pid) ∧
        ∀ h' pid', .released i h' pid' ∉ middle := by
  -- The induction is on what happened since the process acquired the lock.
  induction middle with
  | nil => exact ⟨by simp [holder], by simp, by simp⟩
  | cons entry middle ih =>
    have before : Orderly i (middle ++ .acquired i h pid :: earlier) :=
      Orderly.of_append [entry] orderly
    have kept' : ∀ h', .released i h' pid ∉ middle := fun h' inside => kept h' (by simp [inside])
    obtain ⟨held, acquired, released⟩ := ih before kept' fun inside => alive (by simp [inside])
    cases entry with
    | acquired j h₁ pid₁ =>
      have mine : j = i → pid = pid₁ := fun same => orderly.2 same pid held
      by_cases same : j = i
      · obtain rfl := mine same
        refine ⟨by simp [holder, same], ?_, by simpa using released⟩
        intro h' pid' inside
        rcases List.mem_cons.mp inside with new | old
        · exact (Note.acquired.inj new).2.2
        · exact acquired h' pid' old
      · refine ⟨by simpa [holder, same] using held, ?_, by simpa using released⟩
        intro h' pid' inside
        rcases List.mem_cons.mp inside with new | old
        · exact absurd (Note.acquired.inj new).1.symm same
        · exact acquired h' pid' old
    | released j h₁ pid₁ =>
      have mine : j = i → pid = pid₁ := fun same => orderly.2 same pid held
      have differ : j ≠ i := by
        rintro rfl
        obtain rfl := mine rfl
        exact kept h₁ (by simp)
      refine ⟨by simpa [holder, differ] using held, by simpa using acquired, ?_⟩
      intro h' pid' inside
      rcases List.mem_cons.mp inside with new | old
      · exact differ (Note.released.inj new).1.symm
      · exact released h' pid' old
    | terminated pid₁ =>
      have differ : pid ≠ pid₁ := by
        rintro rfl
        exact alive (by simp)
      refine ⟨?_, by simpa using acquired, by simpa using released⟩
      simp [holder, held, differ]
    | semInit j value => exact ⟨held, by simpa using acquired, by simpa using released⟩
    | semUp j => exact ⟨held, by simpa using acquired, by simpa using released⟩
    | semGranted j => exact ⟨held, by simpa using acquired, by simpa using released⟩
    | passed j group goal => exact ⟨held, by simpa using acquired, by simpa using released⟩
    | opened j => exact ⟨held, by simpa using acquired, by simpa using released⟩
    | sent j bytes => exact ⟨held, by simpa using acquired, by simpa using released⟩
    | received j bytes => exact ⟨held, by simpa using acquired, by simpa using released⟩

/-- Notes that are not about a lock leave it orderly, and give it to nobody. -/
theorem Orderly.append_foreign (foreign : ∀ entry ∈ later, entry.about ≠ some (.mutex i))
    (orderly : Orderly i earlier) : Orderly i (later ++ earlier) ∧
      ∀ owner ∈ holder i (later ++ earlier), owner ∈ holder i earlier := by
  induction later with
  | nil => exact ⟨orderly, fun _ owns => owns⟩
  | cons entry later ih =>
    obtain ⟨rest, same⟩ := ih fun other inside => foreign other (by simp [inside])
    have new := foreign entry (by simp)
    cases entry with
    | acquired j h pid =>
      have differ : j ≠ i := by simpa [Note.about] using new
      exact ⟨⟨rest, fun same => absurd same differ⟩, by simpa [holder, differ] using same⟩
    | released j h pid =>
      have differ : j ≠ i := by simpa [Note.about] using new
      exact ⟨⟨rest, fun same => absurd same differ⟩, by simpa [holder, differ] using same⟩
    | terminated pid =>
      refine ⟨rest, fun owner owns => ?_⟩
      simp only [List.cons_append, holder] at owns
      split at owns
      · simp at owns
      · exact same owner owns
    | semInit j value => exact ⟨rest, same⟩
    | semUp j => exact ⟨rest, same⟩
    | semGranted j => exact ⟨rest, same⟩
    | passed j group goal => exact ⟨rest, same⟩
    | opened j => exact ⟨rest, same⟩
    | sent j bytes => exact ⟨rest, same⟩
    | received j bytes => exact ⟨rest, same⟩

end

/-- What is noted about a lock is orderly, and the holder is recorded in it. -/
structure MutexHeld (i : Nat) (k : Kernel) : Prop where
  /-- Nobody acquires or releases what another process holds. -/
  orderly : Orderly i k.history
  /-- The lock is locked for its holder. -/
  owned : ∀ owner ∈ holder i k.history,
    (k.mlocks i).locked = true ∧ (k.mlocks i).opid = some owner

section

variable {cpu i : Nat} {victim : Option Nat} {own : QueueRef → Prop} {k k' : Kernel}

/-- A change that spares a lock keeps its holder. -/
theorem MutexHeld.frame (held : MutexHeld i k) (frame : Frame own victim k k')
    (foreign : ¬ own (.mutex i)) : MutexHeld i k' := by
  obtain ⟨later, history, about⟩ := frame.history
  have outside : ∀ entry ∈ later, entry.about ≠ some (.mutex i) := fun entry inside same =>
    foreign (about entry inside _ same)
  obtain ⟨orderly, same⟩ := held.orderly.append_foreign outside
  rw [← history] at orderly same
  refine ⟨orderly, fun owner owns => ?_⟩
  rw [frame.mlocks i foreign]
  exact held.owned owner (same owner owns)

/-- Every change around a lock respects its holder. -/
theorem MutexHeld.change (held : MutexHeld i k) (change : MutexChange cpu victim i k k') :
    MutexHeld i k' := by
  obtain ⟨orderly, owned⟩ := held
  -- Who may touch a locked lock is the process recorded in it.
  have mine : ∀ pid, (k.mlocks i).opid = some pid → ∀ owner ∈ holder i k.history, owner = pid := by
    intro pid own owner owns
    have recorded := (owned owner owns).2
    rw [own] at recorded
    exact (Option.some.inj recorded).symm
  cases change with
  | acquire free =>
    refine ⟨⟨orderly, fun _ owner owns => ?_⟩, ?_⟩
    · exact mine _ (free (owned owner owns).1) owner owns
    · intro owner owns
      have new : (k.cur cpu).pid = owner := by simpa [Kernel.note, Kernel.setMlock, holder] using owns
      simp [Kernel.note, Kernel.setMlock, new]
  | block held foreign can calm locking => exact ⟨orderly, owned⟩
  | releaseFree held own empty =>
    exact ⟨⟨orderly, fun _ => mine _ own⟩, by simp [Kernel.note, Kernel.setMlock, holder]⟩
  | releaseWake held own queued calm =>
    exact ⟨⟨orderly, fun _ => mine _ own⟩, by simp [Kernel.note, Kernel.wake, holder]⟩
  | killedFree silent held own empty =>
    refine ⟨orderly, fun owner owns => absurd ?_ silent⟩
    rw [← mine _ own owner owns]
    exact owns
  | handOver silent held own queued =>
    refine ⟨orderly, fun owner owns => absurd ?_ silent⟩
    rw [← mine _ own owner owns]
    exact owns

/-- In every state that is reached, the holder of each lock is recorded in it. -/
theorem reaches_mutexHeld {timeMaxSec : Nat} {allowed : Kernel → Event → Prop}
    (reached : Reaches step allowed (initial timeMaxSec) k) (i : Nat) : MutexHeld i k := by
  refine reaches_invariant ⟨trivial, by simp [initial, initPcb, Kernel.addPcb, holder]⟩ ?_ ?_ reached
  · intro cpu victim k₁ k₂ small ok change held
    rcases change.mutex_or_frame ok small i with about | frame
    · exact held.change about
    · exact held.frame frame (by simp)
  · exact fun _ _ _ _ held => ⟨held.orderly, held.owned⟩

end

/-! ## The claims about exclusion -/

/-- No process gets a mutex lock that another one holds. -/
theorem mutex_exclusive (timeMaxSec : Nat) (k : Kernel)
    (reached : Reaches step (fun _ _ => True) (initial timeMaxSec) k) :
    ProcessExclusive k.history := by
  rintro i h pid later middle earlier history kept alive
  have orderly := (reaches_mutexHeld reached i).orderly
  rw [history, List.append_assoc] at orderly
  exact ((orderly.of_append later).keeps kept alive).2

/-- Two processes take turns with a mutex lock, and the one that waits for it gets it at last. -/
def turnsRun : List Event :=
  [⟨quietEnv 0, .timer⟩, ⟨quietEnv 0, .syscall (.exec 1 true)⟩, ⟨quietEnv 1, .timer⟩,
    ⟨quietEnv 0, .syscall (.mutexAcquire 0)⟩, ⟨quietEnv 1, .syscall (.mutexAcquire 0)⟩,
    ⟨quietEnv 0, .syscall (.mutexRelease 0)⟩, ⟨quietEnv 1, .timer⟩, ⟨quietEnv 1, .resume⟩]

/-- The run is possible, and it excludes. -/
theorem mutex_exclusive_turnsRun :
    ∃ k, runEvents step (initial 100) turnsRun = some k ∧ ProcessExclusive k.history := by
  have possible : (runEvents step (initial 100) turnsRun).isSome := by decide +kernel
  obtain ⟨k, ran⟩ := Option.isSome_iff_exists.mp possible
  exact ⟨k, ran, mutex_exclusive 100 k (.of_events ran)⟩

/-- Two threads of one process acquire the same lock, one on each processor. -/
def twoThreadsRun : List Event :=
  [⟨quietEnv 0, .timer⟩, ⟨quietEnv 0, .syscall (.threadCreate true)⟩, ⟨quietEnv 1, .timer⟩,
    ⟨quietEnv 0, .syscall (.mutexAcquire 0)⟩, ⟨quietEnv 1, .syscall (.mutexAcquire 0)⟩]

/-- The owner is recorded by its process, so that its threads do not exclude each other. -/
theorem threads_not_exclusive : ¬ ∀ (timeMaxSec : Nat) (k : Kernel),
    Reaches step (fun _ _ => True) (initial timeMaxSec) k → ThreadExclusive k.history := by
  intro exclusive
  have noted : (runEvents step (initial 100) twoThreadsRun).map Kernel.history =
      some [.acquired 0 3 2, .acquired 0 2 2] := by decide +kernel
  obtain ⟨k, ran, history⟩ := Option.map_eq_some_iff.mp noted
  have alone := exclusive 100 k (.of_events ran) 0 2 2 [] [.acquired 0 3 2] [] history
    (by simp) (by simp)
  simpa using alone.1 3 2 (by simp)

/-! ## Who waits for a lock that nobody holds -/

/-- Whoever waits for a free lock can count on a process that was woken and will take it. -/
def NoLostMutex (k : Kernel) : Prop :=
  ∀ i, (k.mlocks i).locked = false → k.queue (.mutex i) ≠ [] → ∃ h, k.Woken i h

/-- An event kills all the processes woken from a free lock, while others wait for it. -/
def KillsLastWoken (k : Kernel) (event : Event) : Prop :=
  ∃ i, (k.mlocks i).locked = false ∧ k.waiting (victim k event) (.mutex i) ≠ [] ∧
    (∃ h, k.Woken i h) ∧ ∀ h, k.Woken i h → victim k event = some (k.pcb h).pid

/-- An event that kills nobody kills nobody who was woken. -/
theorem not_killsLastWoken {k : Kernel} {event : Event} (calm : victim k event = none) :
    ¬ KillsLastWoken k event := by
  rintro ⟨i, -, -, ⟨h, woken⟩, killed⟩
  simpa [calm] using killed h woken

/-- While an event kills a process, the others that wait still have somebody to count on. -/
structure MutexServed (victim : Option Nat) (k : Kernel) : Prop where
  /-- Those in the queue of a lock will test it again. -/
  asks : ∀ i, Asks (.mutex i) (fun resume _ => resume = .mutexAcquire i) k
  /-- Whoever is not killed can count on somebody who is not killed. -/
  served : ∀ i, (k.mlocks i).locked = false → k.waiting victim (.mutex i) ≠ [] →
    ∃ h, k.Woken i h ∧ victim ≠ some (k.pcb h).pid

section

variable {cpu i : Nat} {victim : Option Nat} {own : QueueRef → Prop} {k k' : Kernel}

/-- A process in the ready queue is an old one. -/
theorem Kernel.Woken.old {h : PcbRef} (woken : k.Woken i h) (ok : SchedOk cpu k) :
    h < k.newPcb := ok.tableOld h (ok.queueLive _ h woken.1).1

/-- Changes that spare a lock spare those who will take it. -/
theorem served_frame (ok : SchedOk cpu k) (frame : Frame own victim k k')
    (foreign : ¬ own (.mutex i))
    (served : (k.mlocks i).locked = false → k.waiting victim (.mutex i) ≠ [] →
      ∃ h, k.Woken i h ∧ victim ≠ some (k.pcb h).pid)
    (free : (k'.mlocks i).locked = false) (waits : k'.waiting victim (.mutex i) ≠ []) :
    ∃ h, k'.Woken i h ∧ victim ≠ some (k'.pcb h).pid := by
  rw [frame.mlocks i foreign] at free
  rw [frame.waiting _ (by simp) rfl foreign] at waits
  obtain ⟨h, woken, spared⟩ := served free waits
  have old := woken.old ok
  refine ⟨h, frame.woken i foreign free h woken old spared, ?_⟩
  rw [frame.pid h old]
  exact spared

/-- Those that wait for a lock will test it again, whatever happens to the lock. -/
theorem MutexChange.asks (ok : SchedOk cpu k) (small : cpu < ncpu)
    (change : MutexChange cpu victim i k k')
    (asks : Asks (.mutex i) (fun resume _ => resume = .mutexAcquire i) k) :
    Asks (.mutex i) (fun resume _ => resume = .mutexAcquire i) k' := by
  cases change with
  | acquire free => exact asks
  | block held foreign can calm locking =>
    exact asks.blockOn (ok.current_outside small (by simp)) (fun _ => rfl) (by simp)
  | releaseFree held own empty => exact asks
  | @releaseWake h rest held own queued calm =>
    exact Asks.wake cpu (.mutex i) h asks (by simp)
  | killedFree silent held own empty => exact asks
  | @handOver kpid h rest silent held own queued =>
    exact Asks.wake cpu (.mutex i) h asks (by simp)

/-- A lock that becomes free has an empty queue, or somebody was woken to take it. -/
theorem MutexChange.served (ok : SchedOk cpu k) (small : cpu < ncpu)
    (change : MutexChange cpu victim i k k')
    (asks : Asks (.mutex i) (fun resume _ => resume = .mutexAcquire i) k)
    (free : (k'.mlocks i).locked = false) (waits : k'.waiting victim (.mutex i) ≠ []) :
    ∃ h, k'.Woken i h ∧ victim ≠ some (k'.pcb h).pid := by
  cases change with
  | acquire => simp [Kernel.note, Kernel.setMlock] at free
  | block held foreign can calm locking =>
    have same : (k.mlocks i).locked = false := free
    simp [held] at same
  | releaseFree held own empty => exact absurd (Kernel.waiting_nil empty) waits
  | @releaseWake h rest held own queued calm =>
    -- The process that is woken is the one that will take the lock.
    have inside := mem_of_head queued
    have woken : (k.wake cpu (.mutex i) h).Woken i h := by
      refine ⟨?_, ?_, .inl ?_⟩
      · rw [Kernel.wake_ready]
        exact (mem_insertAfter (ok.currentReady cpu small)).mpr (.inl rfl)
      · rw [Kernel.wake_resume]
        exact asks h inside
      · rw [Kernel.wake_pcb_same]
    exact ⟨h, woken, by simp [calm]⟩
  | killedFree silent held own empty => exact absurd (Kernel.waiting_nil empty) waits
  | handOver silent held own queued =>
    simp [Kernel.setMlock, held] at free

/-- Every change of an event keeps somebody to count on. -/
theorem MutexServed.change (ok : KernelOk cpu k) (small : cpu < ncpu)
    (served : MutexServed victim k) (change : Change cpu victim k k') :
    MutexServed victim k' := by
  have sched := ok.toSchedOk
  constructor
  · intro i
    rcases change.mutex_or_frame ok small i with about | frame
    · exact about.asks sched small (served.asks i)
    · exact (served.asks i).frame frame (by simp) (by simp) rfl
  · intro i
    rcases change.mutex_or_frame ok small i with about | frame
    · exact about.served sched small (served.asks i)
    · exact served_frame sched frame (by simp) (served.served i)

end

/-- The property about lost wake-ups, with what it rests on. -/
structure MutexFair (k : Kernel) : Prop where
  /-- Those in the queue of a lock will test it again. -/
  asks : ∀ i, Asks (.mutex i) (fun resume _ => resume = .mutexAcquire i) k
  /-- Nobody waits in vain. -/
  fair : NoLostMutex k

/-- An event that does not kill all those woken keeps the property. -/
theorem MutexFair.step {k k' : Kernel} {event : Event} {out : Out} (resting : Resting k)
    (fair : MutexFair k) (spares : ¬ KillsLastWoken k event)
    (ran : step event k = .ok (out, k')) : MutexFair k' := by
  have before : MutexServed (victim k event) k := by
    refine ⟨fair.asks, fun i free waits => ?_⟩
    have queued : k.queue (.mutex i) ≠ [] := fun empty => waits (Kernel.waiting_nil empty)
    have woken := fair.fair i free queued
    by_contra none
    refine spares ⟨i, free, waits, woken, fun h holds => ?_⟩
    by_contra spared
    exact none ⟨h, holds, spared⟩
  have steps := steps_of_ran resting ran
  have after : MutexServed (victim k event) k' :=
    ran_invariant resting ran
      (fun k₁ k₂ ok change served => served.change ok (enabled_of_ran ran).1 change)
      (fun _ _ _ _ _ served => ⟨served.asks, served.served⟩) before
  refine ⟨after.asks, fun i free queued => ?_⟩
  rw [← steps.awake.waiting steps.rests.ok.toSchedOk (by simp)] at queued
  obtain ⟨h, woken, -⟩ := after.served i free queued
  exact ⟨h, woken⟩

/-- As long as no event kills all those woken from a free lock, nobody waits for it in vain. -/
theorem mutex_no_lost_wake (timeMaxSec : Nat) (k : Kernel)
    (reached : Reaches step (fun k event => ¬ KillsLastWoken k event) (initial timeMaxSec) k) :
    NoLostMutex k := by
  have fair : MutexFair k := by
    induction reached with
    | start =>
      constructor
      · intro i h inside
        simp [initial, initPcb, Kernel.addPcb] at inside
      · intro i _ queued
        simp [initial, initPcb, Kernel.addPcb] at queued
    | step before spares ran ih => exact ih.step (reaches_resting before) spares ran
  exact fair.fair

/-- Three processes want one lock; the first one releases it, which wakes the second one. -/
def contendRun : List Event :=
  [⟨quietEnv 0, .timer⟩, ⟨quietEnv 0, .syscall (.exec 1 true)⟩,
    ⟨quietEnv 0, .syscall (.exec 1 true)⟩, ⟨quietEnv 0, .syscall (.mutexAcquire 0)⟩,
    ⟨quietEnv 1, .timer⟩, ⟨quietEnv 1, .syscall (.mutexAcquire 0)⟩,
    ⟨quietEnv 1, .syscall (.mutexAcquire 0)⟩, ⟨quietEnv 0, .syscall (.mutexRelease 0)⟩]

/-- No event of the run kills anybody, and the third process waits for the second one. -/
theorem mutex_no_lost_wake_contendRun :
    ∃ k, runWhere step (fun k event => victim k event = none) (initial 100) contendRun = some k ∧
      NoLostMutex k := by
  have possible : (runWhere step (fun k event => victim k event = none) (initial 100)
      contendRun).isSome := by decide +kernel
  obtain ⟨k, ran⟩ := Option.isSome_iff_exists.mp possible
  refine ⟨k, ran, mutex_no_lost_wake 100 k (.of_events_where (fun k event calm => ?_) ran)⟩
  exact not_killsLastWoken (of_decide_eq_true calm)

/-- The first process kills the second one in the meantime, and nobody wakes the third one. -/
theorem mutex_lost_wake : ¬ ∀ (timeMaxSec : Nat) (k : Kernel),
    Reaches step (fun _ _ => True) (initial timeMaxSec) k → NoLostMutex k := by
  intro fair
  have left : (runEvents step (initial 100)
      (contendRun ++ [⟨quietEnv 0, .syscall (.kill 3)⟩])).map (fun k =>
        ((k.mlocks 0).locked, k.queue (.mutex 0),
          (k.queue .ready).map fun h => (k.pcb h).resume)) =
      some (false, [4], [.toUser, .toUser, .toUser]) := by decide +kernel
  obtain ⟨k, ran, found⟩ := Option.map_eq_some_iff.mp left
  obtain ⟨free, queued, ready⟩ : (k.mlocks 0).locked = false ∧ k.queue (.mutex 0) = [4] ∧
      (k.queue .ready).map (fun h => (k.pcb h).resume) = [.toUser, .toUser, .toUser] := by
    simpa using found
  obtain ⟨h, inside, resume, -⟩ := fair 100 k (.of_events ran) 0 free (by simp [queued])
  have member : (k.pcb h).resume ∈ (k.queue .ready).map fun h => (k.pcb h).resume :=
    List.mem_map.mpr ⟨h, inside, rfl⟩
  rw [ready, resume] at member
  simp at member

end GlucOS.Sched
