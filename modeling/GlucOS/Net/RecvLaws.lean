import GlucOS.Net.ReadLaws
import GlucOS.Net.Recv

/-! Every way out of `do_net_recv_stream` cleans up, but for the one without a frame buffer. -/

namespace GlucOS

/-! ## Blocks -/

/-- The blocks that are allocated are those of the list, each once. -/
structure NetHeap.Holds (heap : NetHeap) (blocks : List Nat) : Prop where
  /-- No block is in the list twice. -/
  nodup : blocks.Nodup
  /-- A block is allocated if it is in the list. -/
  live : ∀ block, block ∈ heap.live ↔ block ∈ blocks
  /-- No address comes twice. -/
  old : ∀ block ∈ blocks, block < heap.next

namespace NetHeap

variable {heap : NetHeap} {block : Nat} {blocks others : List Nat}

/-- The order of the blocks does not matter. -/
theorem Holds.perm (holds : heap.Holds blocks) (perm : blocks.Perm others) :
    heap.Holds others := by
  obtain ⟨nodup, live, old⟩ := holds
  refine ⟨perm.nodup_iff.mp nodup, ?_, ?_⟩
  · intro block
    rw [live, perm.mem_iff]
  · intro block member
    exact old block (perm.mem_iff.mpr member)

/-- A block that is allocated is another one. -/
theorem Holds.kmallocG (holds : heap.Holds blocks) :
    heap.kmallocG.2.Holds (heap.kmallocG.1 :: blocks) := by
  obtain ⟨nodup, live, old⟩ := holds
  -- A new block has a number that none had before.
  have fresh : heap.next ∉ blocks := by
    intro member
    exact absurd (old _ member) (lt_irrefl _)
  refine ⟨List.nodup_cons.mpr ⟨fresh, nodup⟩, ?_, ?_⟩
  · intro block
    simp only [NetHeap.kmallocG, Finset.mem_insert, List.mem_cons, live]
  · intro block member
    simp only [NetHeap.kmallocG] at member ⊢
    rcases List.mem_cons.mp member with same | before
    · omega
    · have less := old block before
      omega

/-- A block that is held can be freed. -/
theorem Holds.kfreeG (holds : heap.Holds (block :: blocks)) :
    ∃ after, heap.kfreeG block = some after ∧ after.Holds blocks := by
  obtain ⟨nodup, live, old⟩ := holds
  obtain ⟨fresh, nodup⟩ := List.nodup_cons.mp nodup
  refine ⟨_, if_pos ((live block).mpr (by simp)), nodup, ?_, ?_⟩
  · intro other
    simp only [Finset.mem_erase, live, List.mem_cons]
    constructor
    · intro both
      exact both.2.resolve_left both.1
    · intro member
      exact ⟨fun same => fresh (same ▸ member), Or.inr member⟩
  · intro other member
    exact old other (List.mem_cons_of_mem block member)

/-- All of some blocks can be freed, one after the other. -/
theorem Holds.freeAll (holds : heap.Holds (blocks ++ others)) :
    ∃ after, blocks.foldlM NetHeap.kfreeG heap = some after ∧ after.Holds others := by
  -- The induction is on the blocks that are left; each is freed once.
  induction blocks generalizing heap with
  | nil => exact ⟨heap, rfl, holds⟩
  | cons block rest ih =>
    obtain ⟨middle, freed, less⟩ := Holds.kfreeG holds
    obtain ⟨after, ran, none⟩ := ih less
    refine ⟨after, ?_, none⟩
    rw [List.foldlM_cons, freed]
    exact ran

end NetHeap

namespace Dlist

variable {start stop : Nat} {kmalloc : Bool} {p : Span Nat} {rest nodes : List (Span Nat)}
  {heap : NetHeap} {blocks others : List Nat} {rt : Int}

/-- A linked node is a block, and a node that is unlinked is freed. -/
theorem linkBlocks_holds (holds : heap.Holds (blocks ++ others))
    (each : blocks.length = rest.length)
    (linked : link start stop kmalloc p rest = some (rt, nodes)) :
    ∃ after next, linkBlocks start stop kmalloc p heap rest blocks = some (after, next) ∧
      next.Holds (after ++ others) ∧ after.length + 1 = nodes.length := by
  have nothing (shape : nodes.length = rest.length + 1) : blocks.length + 1 = nodes.length := by
    omega
  -- The new range is put at the end, in front of another one, or joined with a neighbour.
  cases rest with
  | nil =>
    simp only [link] at linked
    simp only [linkBlocks]
    by_cases after : ¬ p.start ≤ start
    · rw [if_pos after] at linked
      cases linked
    rw [if_neg after] at linked
    by_cases overlap : start < p.stop
    · rw [if_pos overlap] at linked ⊢
      obtain ⟨-, rfl⟩ : 1 = rt ∧ [p] = nodes := by simpa using linked
      exact ⟨blocks, heap, rfl, holds, nothing rfl⟩
    rw [if_neg overlap] at linked ⊢
    by_cases touch : start = p.stop
    · rw [if_pos touch] at linked ⊢
      obtain ⟨-, rfl⟩ : 0 = rt ∧ [{ p with stop }] = nodes := by simpa using linked
      exact ⟨blocks, heap, rfl, holds, nothing rfl⟩
    rw [if_neg touch] at linked ⊢
    cases kmalloc with
    | false =>
      obtain ⟨-, rfl⟩ : -1 = rt ∧ [p] = nodes := by simpa using linked
      exact ⟨blocks, heap, rfl, holds, nothing rfl⟩
    | true =>
      obtain ⟨-, rfl⟩ : 0 = rt ∧ [p, ⟨start, stop⟩] = nodes := by simpa using linked
      exact ⟨_, _, rfl, holds.kmallocG, by simpa using each⟩
  | cons q rest =>
    simp only [link] at linked
    simp only [linkBlocks]
    by_cases after : ¬ (p.start ≤ start ∧ start < q.start)
    · rw [if_pos after] at linked
      cases linked
    rw [if_neg after] at linked
    by_cases overlap : start < p.stop ∨ q.start < stop
    · rw [if_pos overlap] at linked ⊢
      obtain ⟨-, rfl⟩ : 1 = rt ∧ p :: q :: rest = nodes := by simpa using linked
      exact ⟨blocks, heap, rfl, holds, nothing rfl⟩
    rw [if_neg overlap] at linked ⊢
    by_cases left : start = p.stop
    · rw [if_pos left] at linked ⊢
      by_cases right : stop = q.start
      · -- One node takes over the other, which is freed.
        rw [if_pos right] at linked ⊢
        obtain ⟨-, rfl⟩ : 0 = rt ∧ { p with stop := q.stop } :: rest = nodes := by
          simpa using linked
        cases blocks with
        | nil => simp at each
        | cons next blocks =>
          obtain ⟨after, freed, less⟩ := NetHeap.Holds.kfreeG holds
          exact ⟨blocks, after, by simp [freed], less, by simpa using each⟩
      · rw [if_neg right] at linked ⊢
        obtain ⟨-, rfl⟩ : 0 = rt ∧ { p with stop } :: q :: rest = nodes := by simpa using linked
        exact ⟨blocks, heap, rfl, holds, nothing rfl⟩
    rw [if_neg left] at linked ⊢
    by_cases right : stop = q.start
    · rw [if_pos right] at linked ⊢
      obtain ⟨-, rfl⟩ : 0 = rt ∧ p :: { q with start } :: rest = nodes := by simpa using linked
      exact ⟨blocks, heap, rfl, holds, nothing rfl⟩
    rw [if_neg right] at linked ⊢
    cases kmalloc with
    | false =>
      obtain ⟨-, rfl⟩ : -1 = rt ∧ p :: q :: rest = nodes := by simpa using linked
      exact ⟨blocks, heap, rfl, holds, nothing rfl⟩
    | true =>
      obtain ⟨-, rfl⟩ : 0 = rt ∧ p :: ⟨start, stop⟩ :: q :: rest = nodes := by
        simpa using linked
      exact ⟨_, _, rfl, holds.kmallocG, by simpa using each⟩

/-- The loop passes nodes that stay where they are. -/
theorem placeBlocks_holds (holds : heap.Holds (blocks ++ others))
    (each : blocks.length = rest.length)
    (placed : place start stop kmalloc p rest = some (rt, nodes)) :
    ∃ after next, placeBlocks start stop kmalloc p heap rest blocks = some (after, next) ∧
      next.Holds (after ++ others) ∧ after.length + 1 = nodes.length := by
  -- The induction follows the loop; the nodes it has passed are among the other blocks.
  induction rest generalizing p nodes blocks others with
  | nil =>
    rw [placeBlocks]
    · exact linkBlocks_holds holds each placed
    · simp
  | cons q rest ih =>
    cases blocks with
    | nil => simp at each
    | cons block blocks =>
      unfold place at placed
      unfold placeBlocks
      -- The loop goes on, or this is the place.
      by_cases step : q.start ≤ start
      · rw [if_pos step] at placed ⊢
        obtain ⟨⟨rt', behind⟩, ran, same⟩ := Option.map_eq_some_iff.mp placed
        obtain ⟨rfl, rfl⟩ : rt' = rt ∧ p :: behind = nodes := by simpa using same
        have moved : heap.Holds (blocks ++ block :: others) :=
          holds.perm List.perm_middle.symm
        obtain ⟨after, next, freed, kept, length⟩ := ih moved (by simpa using each) ran
        refine ⟨block :: after, next, by simp [freed], kept.perm List.perm_middle, ?_⟩
        simp only [List.length_cons]
        omega
      · rw [if_neg step] at placed ⊢
        exact linkBlocks_holds holds each placed

/-- `dlist_insert` keeps one block for each node behind the head. -/
theorem insertBlocks_holds {dlist after : Dlist} (holds : heap.Holds (blocks ++ others))
    (each : blocks.length = dlist.nodes.length)
    (inserted : dlist.insert start stop kmalloc = some (rt, after)) :
    ∃ left next, dlist.insertBlocks start stop kmalloc heap blocks = some (left, next) ∧
      next.Holds (left ++ others) ∧ left.length = after.nodes.length := by
  unfold insert at inserted
  unfold insertBlocks
  -- A range out of order or beyond the window is refused with the list as it was.
  by_cases wanted : stop ≤ start ∨ u32 (dlist.dlh.stop + gntpWinsize) ≤ stop
  · rw [if_pos wanted] at inserted ⊢
    obtain ⟨-, rfl⟩ : 1 = rt ∧ dlist = after := by simpa using inserted
    exact ⟨blocks, heap, rfl, holds, each⟩
  · rw [if_neg wanted] at inserted ⊢
    cases placed : place start stop kmalloc dlist.dlh dlist.nodes with
    | none => simp [placed] at inserted
    | some answer =>
      obtain ⟨rt', nodes⟩ := answer
      obtain ⟨left, next, ran, kept, length⟩ := placeBlocks_holds holds each placed
      rw [placed] at inserted
      cases nodes with
      | nil => simp at inserted
      | cons dlh nodes =>
        obtain ⟨-, rfl⟩ : rt' = rt ∧ (⟨dlh, nodes⟩ : Dlist) = after := by simpa using inserted
        exact ⟨left, next, ran, kept, by simpa using length⟩

end Dlist

/-! ## Calls -/

/-- Each block belongs to a node or is the frame buffer. -/
structure Recv.Ok (recv : Recv) : Prop where
  /-- The list is sorted. -/
  sorted : recv.net.dlist.Sorted
  /-- Each node behind the head is a block. -/
  nodes : recv.nodes.length = recv.net.dlist.nodes.length
  /-- These blocks and the frame buffer are all that is allocated. -/
  holds : recv.heap.Holds (recv.nodes ++ recv.fb.toList)

/-- The loop runs with a frame buffer and under the lock. -/
structure Recv.Busy (recv : Recv) (pid : Nat) : Prop extends Recv.Ok recv where
  /-- There is a frame buffer. -/
  buffer : recv.fb ≠ none
  /-- The process holds the lock. -/
  locked : recv.lock = ⟨true, some pid⟩

/-- Nothing is left behind, and the lock is free for the next process. -/
structure Recv.CleanedUp (recv : Recv) : Prop where
  /-- The lock is released. -/
  released : recv.lock.locked = false
  /-- The list is empty. -/
  empty : recv.net.dlist = .clear
  /-- All nodes are freed, and so is the frame buffer. -/
  freed : recv.heap.live = ∅
  /-- There is no frame buffer. -/
  buffer : recv.fb = none

namespace Recv

variable {recv : Recv} {pid value len : Nat}

/-- `dlist_clear` frees the nodes. -/
theorem Ok.clear (ok : recv.Ok) : ∃ heap,
    recv.clear = some { recv with
      net := { recv.net with dlist := .clear }, nodes := [], heap } ∧
      heap.Holds recv.fb.toList := by
  obtain ⟨heap, freed, holds⟩ := ok.holds.freeAll
  refine ⟨heap, ?_, holds⟩
  unfold Recv.clear
  rw [freed]
  rfl

/-- The ways out of the loop clean up. -/
theorem Busy.finish (busy : recv.Busy pid) (value : Nat) :
    ∃ last, recv.finish pid value = some (.returned value last) ∧ last.CleanedUp ∧
      last.nodes = [] := by
  obtain ⟨heap, cleared, holds⟩ := busy.toOk.clear
  unfold Recv.finish
  rw [cleared]
  -- The call has a frame buffer as long as it runs.
  cases buffer : recv.fb with
  | none => exact absurd buffer busy.buffer
  | some block =>
    rw [buffer] at holds
    obtain ⟨after, freed, nothing⟩ := NetHeap.Holds.kfreeG holds
    have left : after.live = ∅ := by
      apply Finset.eq_empty_of_forall_notMem
      intro other member
      exact absurd ((nothing.live other).mp member) (by simp)
    have open_ : (recv.lock.release pid).locked = false := by
      rw [busy.locked]
      simp [Sched.MutexLock.release]
    simp only [freeFb, freed, Option.bind_eq_bind, Option.bind_some, Option.map_some]
    exact ⟨_, rfl, ⟨open_, rfl, left, rfl⟩, rfl⟩

/-- What may be said of a call wherever it is. -/
def Proper (pid : Nat) : RecvProgress → Prop
  | .receiving recv => recv.Busy pid
  | .returned _ recv => recv.CleanedUp ∧ recv.nodes = []

/-- A frame goes on with the list that its insertion leaves, or ends the loop. -/
theorem accept_dlist {net : Gntp} (frame : RxFrame) (kmalloc : Bool) (len : Nat) {rt : Int}
    {after : Dlist} (data : (net.headerOf frame).IsData)
    (inserted : net.dlist.insert (net.headerOf frame).seq
      (u32 ((net.headerOf frame).seq + (net.headerOf frame).length)) kmalloc = some (rt, after)) :
    (∃ next, net.accept len frame kmalloc = .receiving next ∧ next.dlist = after) ∨
      ∃ value next, net.accept len frame kmalloc = .returned value next := by
  unfold Gntp.accept
  simp only
  unfold Gntp.headerOf at data inserted
  rw [if_neg (not_or.mpr ⟨not_not.mpr data.1, data.2⟩)]
  unfold Gntp.receive
  simp only
  rw [inserted]
  simp only
  by_cases new : rt = 0
  · rw [if_pos new]
    generalize full : Gntp.store _ _ _ _ = copied
    by_cases done : len ≤ copied.lfr
    · rw [if_pos done]
      exact Or.inr ⟨_, _, rfl⟩
    · rw [if_neg done, ← full]
      exact Or.inl ⟨_, rfl, Gntp.store_dlist _ _ _ _⟩
  · rw [if_neg new]
    by_cases failed : rt = -1
    · rw [if_pos failed]
      exact Or.inr ⟨_, _, rfl⟩
    · rw [if_neg failed]
      exact Or.inl ⟨_, rfl, rfl⟩

/-- Any other frame leaves the list alone. -/
theorem accept_other {net : Gntp} (frame : RxFrame) (kmalloc : Bool) (len : Nat)
    (other : ¬ (net.headerOf frame).IsData) :
    ∃ next, net.accept len frame kmalloc = .receiving next ∧ next.dlist = net.dlist := by
  unfold Gntp.headerOf at other
  have ignored := (not_and_or.mp other).imp id not_not.mp
  unfold Gntp.accept
  simp only
  rw [if_pos ignored]
  exact ⟨_, rfl, rfl⟩

/-- Every turn of the loop keeps what is held, or cleans up. -/
theorem Busy.turn (busy : recv.Busy pid) (len : Nat) (poll : Poll) :
    ∃ progress, recv.turn pid len poll = some progress ∧ Proper pid progress := by
  unfold Recv.turn
  -- Without a frame the list stays as it is.
  cases polled : poll.frame with
  | none =>
    have same : recv.net.idle.dlist = recv.net.dlist := recv.net.idle_loads.2
    refine ⟨_, rfl, ⟨⟨?_, ?_, busy.holds⟩, busy.buffer, busy.locked⟩⟩
    · rw [same]
      exact busy.sorted
    · rw [same]
      exact busy.nodes
  | some frame =>
    simp only
    by_cases data : (recv.net.headerOf frame).IsData
    · -- The list changes, and its blocks with it.
      rw [if_pos data]
      obtain ⟨rt, after, inserted, sorted, -⟩ := busy.sorted.insert
        ⟨(recv.net.headerOf frame).seq,
          u32 ((recv.net.headerOf frame).seq + (recv.net.headerOf frame).length), poll.kmalloc⟩
      obtain ⟨left, heap, placed, holds, each⟩ :=
        Dlist.insertBlocks_holds busy.holds busy.nodes inserted
      rw [placed]
      simp only [Option.bind_eq_bind, Option.bind_some]
      rcases accept_dlist frame poll.kmalloc len data inserted with going | ended
      · obtain ⟨next, accepted, dlist⟩ := going
        rw [accepted]
        refine ⟨_, rfl, ⟨⟨?_, ?_, holds⟩, busy.buffer, busy.locked⟩⟩
        · rw [dlist]
          exact sorted
        · rw [dlist]
          exact each
      · -- The loop is left with the list of the moment, whatever the data says.
        obtain ⟨value, next, accepted⟩ := ended
        rw [accepted]
        have last : ({ recv with
            net := { next with dlist := after }, nodes := left, heap } : Recv).Busy pid :=
          ⟨⟨sorted, each, holds⟩, busy.buffer, busy.locked⟩
        obtain ⟨final, finished, clean⟩ := last.finish value
        exact ⟨_, finished, clean⟩
    · -- Nothing is inserted for any other frame.
      rw [if_neg data]
      simp only [Option.bind_eq_bind, Option.bind_some]
      obtain ⟨next, accepted, dlist⟩ := accept_other frame poll.kmalloc len data
      rw [accepted]
      refine ⟨_, rfl, ⟨⟨?_, ?_, busy.holds⟩, busy.buffer, busy.locked⟩⟩
      · rw [dlist]
        exact busy.sorted
      · rw [dlist]
        exact busy.nodes

/-- So does every run of the loop. -/
theorem Busy.loop (busy : recv.Busy pid) (len : Nat) (polls : List Poll) :
    ∃ progress, recv.loop pid len polls = some progress ∧ Proper pid progress := by
  -- The induction follows the polls; a turn that returns ends the run.
  induction polls generalizing recv with
  | nil => exact ⟨_, rfl, busy⟩
  | cons poll rest ih =>
    obtain ⟨progress, ran, proper⟩ := busy.turn len poll
    unfold Recv.loop
    rw [ran]
    cases progress with
    | receiving next => exact ih proper
    | returned value next => exact ⟨_, rfl, proper⟩

/-- Once everything is cleaned up, nothing is allocated. -/
theorem CleanedUp.ok (clean : recv.CleanedUp) (nodes : recv.nodes = []) : recv.Ok := by
  obtain ⟨-, empty, freed, buffer⟩ := clean
  constructor
  · rw [empty]
    exact Dlist.sorted_clear
  · rw [empty, nodes]
    rfl
  · rw [nodes, buffer]
    exact ⟨List.nodup_nil, by simp [freed], by simp⟩

/-- The state a call has reached. -/
def reached : RecvProgress → Recv
  | .receiving recv => recv
  | .returned _ recv => recv

/-- A call that passes the check of its arguments. -/
def Acquires (call : RecvCall) : Prop := call.buf < kvaOffset ∧ 0 < call.len

/-- A call keeps what is held, and cleans up before it returns if it ever had a frame buffer. -/
theorem Ok.call (ok : recv.Ok) (call : RecvCall) :
    ∃ progress, recv.call call = some progress ∧ (reached progress).Ok ∧
      ∀ value last, progress = .returned value last → Acquires call →
        (last.CleanedUp ↔ recv.fb ≠ none ∨ call.kmalloc = true) := by
  obtain ⟨sorted, nodes, holds⟩ := ok
  unfold Recv.call
  simp only
  -- A call with bad arguments does not even take the lock.
  by_cases refused : kvaOffset ≤ call.buf ∨ call.len ≤ 0
  · rw [if_pos refused]
    refine ⟨_, rfl, ⟨sorted, nodes, holds⟩, ?_⟩
    intro value last _ acquires
    unfold Acquires at acquires
    omega
  rw [if_neg refused]
  -- Whatever list was left behind is freed.
  have locked : Ok { recv with
      net := { recv.net with stores := [], loads := [], sent := [] }
      lock := ⟨true, some call.pid⟩ } := ⟨sorted, nodes, holds⟩
  obtain ⟨heap, cleared, left⟩ := locked.clear
  rw [cleared]
  simp only [Option.bind_eq_bind, Option.bind_some]
  simp only at left
  by_cases failed : recv.fb = none ∧ call.kmalloc = false
  · -- This return does not release the lock.
    rw [if_pos failed]
    refine ⟨_, rfl, ⟨Dlist.sorted_clear, rfl, left⟩, ?_⟩
    intro value last same _
    obtain ⟨-, rfl⟩ := RecvProgress.returned.inj same
    constructor
    · intro clean
      exact absurd clean.released (by simp)
    · intro either
      rcases either with some | works
      · exact absurd failed.1 some
      · simp [failed.2] at works
  rw [if_neg failed]
  have either : recv.fb ≠ none ∨ call.kmalloc = true := by
    by_contra neither
    obtain ⟨none, fails⟩ := not_or.mp neither
    exact failed ⟨not_not.mp none, by simpa using fails⟩
  -- The loop starts with an empty list and a frame buffer.
  have busy : ∀ fb heap, fb ≠ none → heap.Holds fb.toList → Busy { recv with
      net := { recv.net with
        stores := [], loads := [], sent := [], dlist := .clear
        seqMax := 0, time := 0, recvStarted := false }
      fb, nodes := [], heap, lock := ⟨true, some call.pid⟩ } call.pid := fun fb heap some held =>
    ⟨⟨Dlist.sorted_clear, rfl, held⟩, some, rfl⟩
  have ends : ∀ start : Recv, start.Busy call.pid → ∃ progress,
      start.loop call.pid call.len.toNat call.polls = some progress ∧ (reached progress).Ok ∧
        ∀ value last, progress = .returned value last → Acquires call →
          (last.CleanedUp ↔ recv.fb ≠ none ∨ call.kmalloc = true) := by
    intro start busy
    obtain ⟨progress, ran, proper⟩ := busy.loop call.len.toNat call.polls
    refine ⟨progress, ran, ?_⟩
    cases progress with
    | receiving next => exact ⟨proper.toOk, fun value last same => by cases same⟩
    | returned value next =>
      obtain ⟨clean, nodes⟩ := proper
      refine ⟨clean.ok nodes, ?_⟩
      intro value' last same _
      obtain ⟨-, rfl⟩ := RecvProgress.returned.inj same
      exact ⟨fun _ => either, fun _ => clean⟩
  unfold takeFb
  cases buffer : recv.fb with
  | none =>
    rw [buffer] at left
    simp only
    rw [buffer] at ends
    exact ends _ (busy _ _ (by simp) left.kmallocG)
  | some block =>
    rw [buffer] at left
    simp only
    rw [buffer] at ends
    exact ends _ (busy (some block) heap (by simp) left)

/-- So does every sequence of calls. -/
theorem Ok.calls (ok : recv.Ok) (calls : List RecvCall) :
    ∃ last, recv.calls calls = some last ∧ last.Ok := by
  -- The induction follows the calls.
  induction calls generalizing recv with
  | nil => exact ⟨recv, rfl, ok⟩
  | cons call rest ih =>
    obtain ⟨progress, ran, next, -⟩ := ok.call call
    unfold Recv.calls
    rw [ran]
    cases progress with
    | receiving recv =>
      have freed : Ok { recv with lock := { recv.lock with locked := false } } :=
        ⟨next.sorted, next.nodes, next.holds⟩
      exact ih freed
    | returned value recv => exact ih next

end Recv

/-- The receiver before it is called for the first time. -/
def freshRecv : Recv where
  net := freshGntp
  fb := none
  nodes := []
  heap := ⟨∅, 1⟩
  lock := ⟨false, none⟩

/-- Nothing is allocated yet. -/
theorem freshRecv_ok : freshRecv.Ok :=
  ⟨Dlist.sorted_clear, rfl, List.nodup_nil, by simp [freshRecv], by simp [freshRecv]⟩

end GlucOS
