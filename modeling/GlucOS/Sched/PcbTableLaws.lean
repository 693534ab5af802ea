import GlucOS.Sched.PcbTable

/-! `pcb_table[]` is a list of PCBs: additions append, deletions erase, and searches find. -/

namespace GlucOS.Sched

open Routine

namespace PcbTable

variable {t : PcbTable} {p : PcbRef}

/-- The PCBs that are listed, in order. -/
def live (t : PcbTable) : List PcbRef := (List.range pcbTableSize).filterMap t.entry

/-- The counters fit the entries. -/
structure Ok (t : PcbTable) : Prop where
  /-- `proc_ymr` counts the entries that are not null. -/
  count : t.procYmr = t.live.length
  /-- The entries from `free_pt` on are null. -/
  above : ∀ i, t.freePt ≤ i → t.entry i = none
  /-- No PCB is listed twice. -/
  nodup : t.live.Nodup
  /-- `free_pt` never gets behind the end. -/
  room : t.freePt ≤ pcbTableSize

/-- Entries that are null add nothing. -/
theorem filterMap_none {entry : Nat → Option PcbRef} {places : List Nat}
    (null : ∀ i ∈ places, entry i = none) : places.filterMap entry = [] := by
  rw [List.filterMap_eq_nil_iff]
  exact null

/-- The entries from a place on do not matter if they are null. -/
theorem filterMap_range {entry : Nat → Option PcbRef} {upto bound : Nat} (less : upto ≤ bound)
    (above : ∀ i, upto ≤ i → entry i = none) :
    (List.range bound).filterMap entry = (List.range upto).filterMap entry := by
  obtain ⟨more, rfl⟩ := Nat.exists_eq_add_of_le less
  have nothing : ((List.range more).map (upto + ·)).filterMap entry = [] := by
    apply filterMap_none
    intro i inside
    obtain ⟨offset, -, rfl⟩ := List.mem_map.mp inside
    exact above _ (Nat.le_add_right _ _)
  -- Behind the first part nothing is found.
  rw [List.range_add, List.filterMap_append, nothing]
  exact List.append_nil _

/-- The loops go up to `free_pt` only, and miss nothing. -/
theorem Ok.live_eq (ok : t.Ok) : t.live = (List.range t.freePt).filterMap t.entry :=
  filterMap_range ok.room ok.above

/-- There are at most as many PCBs as places. -/
theorem Ok.live_le (ok : t.Ok) : t.live.length ≤ t.freePt := by
  have short := List.length_filterMap_le t.entry (List.range t.freePt)
  rw [← ok.live_eq, List.length_range] at short
  exact short

/-- The loop of `pcb_table_rearrange` moves the PCBs down, and leaves no hole between them. -/
theorem squeeze_spec (entry : Nat → Option PcbRef) (i j more : Nat) (behind : j ≤ i) :
    (squeeze entry i j more).2 = j + ((List.range' i more).filterMap entry).length ∧
      (∀ k, k < j ∨ i + more ≤ k → (squeeze entry i j more).1 k = entry k) ∧
        (List.range' j ((List.range' i more).filterMap entry).length).filterMap
          (squeeze entry i j more).1 = (List.range' i more).filterMap entry := by
  -- The induction follows the loop, which writes behind what it has still to read.
  induction more generalizing entry i j with
  | zero => simp [squeeze]
  | succ more ih =>
    rw [List.range'_succ]
    unfold squeeze
    cases here : entry i with
    -- A hole is passed over, and the place to write stays where it is.
    | none =>
      obtain ⟨ends, kept, moved⟩ := ih entry (i + 1) j (by omega)
      simp only [List.filterMap_cons, here]
      refine ⟨ends, ?_, moved⟩
      intro k outside
      exact kept k (by omega)
    -- A PCB moves down to the place to write, or stays where it is.
    | some p =>
      obtain ⟨ends, kept, moved⟩ :=
        ih (Function.update entry j (some p)) (i + 1) (j + 1) (by omega)
      have ahead : (List.range' (i + 1) more).filterMap (Function.update entry j (some p)) =
          (List.range' (i + 1) more).filterMap entry := by
        apply List.filterMap_congr
        intro k inside
        have later := (List.mem_range'_1.mp inside).1
        exact Function.update_of_ne (by omega) _ _
      rw [ahead] at ends moved
      simp only [List.filterMap_cons, here, List.length_cons]
      refine ⟨by omega, ?_, ?_⟩
      · intro k outside
        rw [kept k (by omega)]
        exact Function.update_of_ne (by omega) _ _
      · have first := kept j (by omega)
        rw [Function.update_self] at first
        rw [List.range'_succ, List.filterMap_cons, first]
        exact congrArg _ moved

/-- Compaction keeps the PCBs and their order, and closes the holes. -/
theorem Ok.rearrange (ok : t.Ok) : ∃ t', PcbTable.rearrange t = .ok ((), t') ∧ t'.Ok ∧
    t'.live = t.live ∧ t'.procYmr = t.procYmr ∧ t'.freePt = t.live.length := by
  obtain ⟨ends, kept, moved⟩ := squeeze_spec t.entry 0 0 t.freePt le_rfl
  rw [← List.range_eq_range', ← ok.live_eq, Nat.zero_add] at ends
  rw [← List.range_eq_range', ← List.range_eq_range', ← ok.live_eq] at moved
  have short : t.live.length ≤ pcbTableSize := ok.live_le.trans ok.room
  have passes : ¬ ((squeeze t.entry 0 0 t.freePt).2 : Int) ≠ t.procYmr := by
    rw [ends, ok.count]
    simp
  let entry := fun i => if t.live.length ≤ i ∧ i < pcbTableSize then none
    else (squeeze t.entry 0 0 t.freePt).1 i
  have ran : PcbTable.rearrange t = .ok ((), { t with freePt := t.live.length, entry }) := by
    show ((if ((squeeze t.entry 0 0 t.freePt).2 : Int) ≠ t.procYmr then stop .rearranging
      else pure () : TableRoutine Unit) >>= fun _ => set _) t = _
    rw [if_neg passes, ends]
    rfl
  -- Behind the PCBs everything has been made null, or was so before.
  have above : ∀ i, t.live.length ≤ i → entry i = none := by
    intro i behind
    by_cases inside : i < pcbTableSize
    · exact if_pos ⟨behind, inside⟩
    · have outside : ¬ (t.live.length ≤ i ∧ i < pcbTableSize) := fun both => inside both.2
      have room := ok.room
      simp only [entry]
      rw [if_neg outside, kept i (by omega)]
      exact ok.above i (by omega)
  have same : (List.range pcbTableSize).filterMap entry = t.live := by
    rw [filterMap_range short above]
    refine Eq.trans (List.filterMap_congr ?_) moved
    intro i inside
    have less := List.mem_range.mp inside
    exact if_neg (by omega)
  refine ⟨_, ran, ⟨?_, above, ?_, short⟩, same, rfl, rfl⟩
  · show t.procYmr = ((List.range pcbTableSize).filterMap entry).length
    rw [same, ok.count]
  · show ((List.range pcbTableSize).filterMap entry).Nodup
    rw [same]
    exact ok.nodup

/-- The write of `pcb_table_add` appends. -/
theorem Ok.append (ok : t.Ok) (fresh : p ∉ t.live) (room : t.freePt < pcbTableSize) :
    ∃ t', PcbTable.append p t = .ok ((t.freePt : Int), t') ∧ t'.Ok ∧ t'.live = t.live ++ [p] := by
  let entry := Function.update t.entry t.freePt (some p)
  have ran : PcbTable.append p t = .ok ((t.freePt : Int),
      { entry, procYmr := t.procYmr + 1, freePt := t.freePt + 1 }) := by
    show ((if pcbTableSize ≤ t.freePt then stop .overrun else pure () : TableRoutine Unit) >>=
      fun _ => set _ >>= fun _ => pure _) t = _
    rw [if_neg (Nat.not_le.mpr room)]
    rfl
  have above : ∀ i, t.freePt + 1 ≤ i → entry i = none := by
    intro i behind
    simp only [entry]
    rw [Function.update_of_ne (by omega)]
    exact ok.above i (by omega)
  -- The entries in front of the new one are as before.
  have longer : (List.range pcbTableSize).filterMap entry = t.live ++ [p] := by
    have before : (List.range t.freePt).filterMap entry = t.live := by
      rw [ok.live_eq]
      apply List.filterMap_congr
      intro i inside
      have less := List.mem_range.mp inside
      exact Function.update_of_ne (by omega) _ _
    have last : entry t.freePt = some p := Function.update_self _ _ _
    rw [filterMap_range (by omega) above, List.range_succ, List.filterMap_append, before]
    simp [last]
  refine ⟨_, ran, ⟨?_, above, ?_, by simp only; omega⟩, longer⟩
  · show t.procYmr + 1 = (((List.range pcbTableSize).filterMap entry).length : Int)
    rw [longer, List.length_append, ok.count]
    simp
  · show ((List.range pcbTableSize).filterMap entry).Nodup
    rw [longer]
    exact List.nodup_append.mpr ⟨ok.nodup, List.nodup_singleton p, by
      intro a inside b same equal
      rw [List.mem_singleton.mp same] at equal
      exact fresh (equal ▸ inside)⟩

/-- `pcb_table_add` appends, unless the table is full. -/
theorem Ok.add (ok : t.Ok) (fresh : p ∉ t.live) : ∃ rt t', PcbTable.add p t = .ok (rt, t') ∧ t'.Ok ∧
    (rt ≠ -1 ↔ t.procYmr < pcbTableSize) ∧
      t'.live = if t.procYmr < pcbTableSize then t.live ++ [p] else t.live := by
  -- A full table refuses.
  by_cases full : (pcbTableSize : Int) ≤ t.procYmr
  · have ran : PcbTable.add p t = .ok (-1, t) := by
      show (if (pcbTableSize : Int) ≤ t.procYmr then pure (-1) else _ : TableRoutine Int) t = _
      rw [if_pos full]
      rfl
    exact ⟨-1, t, ran, ok, by omega, (if_neg (by omega)).symm⟩
  have space : t.procYmr < pcbTableSize := by omega
  have begins : PcbTable.add p t = (if pcbTableSize ≤ t.freePt then
      (PcbTable.rearrange >>= fun _ => PcbTable.append p : TableRoutine Int)
        else PcbTable.append p) t := by
    show (if (pcbTableSize : Int) ≤ t.procYmr then pure (-1) else _ : TableRoutine Int) t = _
    rw [if_neg full]
  by_cases ended : pcbTableSize ≤ t.freePt
  · -- The holes are closed first, and one of them is behind the PCBs then.
    obtain ⟨t₁, compacted, ok₁, same, -, free⟩ := ok.rearrange
    have few : t₁.freePt < pcbTableSize := by
      have count := ok.count
      omega
    obtain ⟨t', ran, ok', longer⟩ := ok₁.append (p := p) (by rw [same]; exact fresh) few
    refine ⟨t₁.freePt, t', ?_, ok', ?_, ?_⟩
    · rw [begins, if_pos ended]
      show (PcbTable.rearrange t >>= fun answer => PcbTable.append p answer.2) = _
      rw [compacted]
      exact ran
    · omega
    · rw [longer, same, if_pos space]
  · obtain ⟨t', ran, ok', longer⟩ := ok.append fresh (Nat.not_le.mp ended)
    refine ⟨t.freePt, t', ?_, ok', ?_, ?_⟩
    · rw [begins, if_neg ended]
      exact ran
    · omega
    · rw [longer, if_pos space]

/-- `pcb_table_del` erases, if there is something to erase. -/
theorem Ok.del (ok : t.Ok) (p : PcbRef) : ∃ rt t', PcbTable.del p t = .ok (rt, t') ∧ t'.Ok ∧
    (rt ≠ -1 ↔ p ∈ t.live) ∧ t'.live = t.live.erase p := by
  -- The first entry that holds the PCB is the only one, since no PCB is in the table twice.
  cases found : (List.range t.freePt).find? fun i => t.entry i = some p with
  | none =>
    have outside : p ∉ t.live := by
      rw [ok.live_eq, List.mem_filterMap]
      intro there
      obtain ⟨i, inside, here⟩ := there
      have differ := List.find?_eq_none.mp found i inside
      exact differ (decide_eq_true here)
    refine ⟨-1, t, ?_, ok, ?_, (List.erase_of_not_mem outside).symm⟩
    · simp only [PcbTable.del, bind, StateT.bind, get, getThe, MonadStateOf.get, StateT.get, pure,
        Except.bind, Except.pure, found]
      rfl
    · simp [outside]
  | some i =>
    have here : t.entry i = some p := by simpa using List.find?_some found
    have inside := List.mem_of_find?_eq_some found
    have less := List.mem_range.mp inside
    let entry := Function.update t.entry i none
    obtain ⟨front, back, split⟩ := List.append_of_mem inside
    -- The place itself comes once among the places.
    have once := List.nodup_range (n := t.freePt)
    rw [split] at once
    obtain ⟨-, behind, apart⟩ := List.nodup_append.mp once
    have beside (places : List Nat) (without : i ∉ places) :
        places.filterMap entry = places.filterMap t.entry := by
      apply List.filterMap_congr
      intro k member
      have other : k ≠ i := fun same => without (same ▸ member)
      exact Function.update_of_ne other _ _
    have inFront : i ∉ front := fun member => apart i member i (by simp) rfl
    have inBack : i ∉ back := (List.nodup_cons.mp behind).1
    have whole : t.live = front.filterMap t.entry ++ p :: back.filterMap t.entry := by
      rw [ok.live_eq, split, List.filterMap_append, List.filterMap_cons, here]
    have above : ∀ k, t.freePt ≤ k → entry k = none := by
      intro k later
      simp only [entry]
      rw [Function.update_of_ne (by omega)]
      exact ok.above k later
    have left : (List.range pcbTableSize).filterMap entry = t.live.erase p := by
      have gone : entry i = none := Function.update_self _ _ _
      have first : p ∉ front.filterMap t.entry := by
        have nodup := ok.nodup
        rw [whole] at nodup
        intro member
        exact (List.nodup_append.mp nodup).2.2 p member p (by simp) rfl
      rw [filterMap_range ok.room above, split, List.filterMap_append, List.filterMap_cons, gone,
        beside front inFront, beside back inBack, whole, List.erase_append_right _ first,
        List.erase_cons_head]
    have member : p ∈ t.live := by rw [whole]; simp
    refine ⟨i, { t with entry, procYmr := t.procYmr - 1 }, ?_, ⟨?_, above, ?_, ok.room⟩, ?_, left⟩
    · simp only [PcbTable.del, bind, StateT.bind, get, getThe, MonadStateOf.get, StateT.get, pure,
        Except.bind, Except.pure, found]
      rfl
    · show t.procYmr - 1 = (((List.range pcbTableSize).filterMap entry).length : Int)
      have some := List.length_pos_of_mem member
      rw [left, List.length_erase_of_mem member, ok.count]
      omega
    · show ((List.range pcbTableSize).filterMap entry).Nodup
      rw [left]
      exact ok.nodup.erase p
    · simp only [member, iff_true]
      omega

/-- The loop of the searches finds the first PCB that is right. -/
theorem findSome_filter {entry : Nat → Option PcbRef} (found : PcbRef → Bool) (places : List Nat) :
    (places.findSome? fun i => (entry i).filter found) = (places.filterMap entry).find? found := by
  -- The induction is on the places that are looked at.
  induction places with
  | nil => rfl
  | cons i rest ih =>
    rw [List.findSome?_cons, List.filterMap_cons, ih]
    cases entry i with
    | none => rfl
    | some p =>
      simp only [List.find?_cons, Option.filter]
      cases found p <;> rfl

end PcbTable

/-- The searches find the PCBs that are listed and have the identifiers. -/
structure PcbTable.Finds (t : PcbTable) (pcb : PcbRef → Pcb) : Prop where
  /-- `pcb_search` finds the first one. -/
  search : ∀ pid, t.pcbSearch pcb pid = t.live.find? fun h => (pcb h).pid = pid
  /-- `pcb_search_tcb` finds the first one. -/
  searchTcb : ∀ pid tid, t.pcbSearchTcb pcb pid tid =
    t.live.find? fun h => (pcb h).pid = pid ∧ (pcb h).tid = tid
  /-- `pcb_search_all` finds all. -/
  searchAll : ∀ pid, t.pcbSearchAll pcb pid = t.live.filter fun h => (pcb h).pid = pid

/-- Searches look at all that is listed. -/
theorem PcbTable.Ok.finds {t : PcbTable} (ok : t.Ok) (pcb : PcbRef → Pcb) : t.Finds pcb := by
  constructor
  · intro pid
    rw [ok.live_eq]
    exact findSome_filter _ _
  · intro pid tid
    rw [ok.live_eq]
    exact findSome_filter _ _
  · intro pid
    rw [ok.live_eq, List.filter_filterMap]
    rfl

/-! ## The list of the kernel -/

section

variable {t : PcbTable} {k : Kernel}

/-- A table that lists the PCBs of the kernel finds what the kernel finds. -/
theorem PcbTable.Ok.finds_kernel (ok : t.Ok) (lists : t.live = k.pcbTable) (pid tid : Nat) :
    t.pcbSearch k.pcb pid = k.pcbSearch pid ∧
      t.pcbSearchTcb k.pcb pid tid = k.pcbSearchTcb pid tid ∧
        t.pcbSearchAll k.pcb pid = k.pcbSearchAll pid := by
  obtain ⟨search, searchTcb, searchAll⟩ := ok.finds k.pcb
  rw [search, searchTcb, searchAll, lists]
  exact ⟨rfl, rfl, rfl⟩

/-- A new PCB is added to the table as it is to the list. -/
theorem PcbTable.Ok.adds_kernel (ok : t.Ok) (lists : t.live = k.pcbTable)
    (fresh : k.newPcb ∉ k.pcbTable) (room : k.pcbTable.length < pcbTableSize)
    (pid tid cpuMask : Nat) : ∃ rt t', PcbTable.add k.newPcb t = .ok (rt, t') ∧ t'.Ok ∧
      t'.live = (k.addPcb pid tid cpuMask).pcbTable := by
  obtain ⟨rt, t', ran, ok', -, live⟩ := ok.add (p := k.newPcb) (by rw [lists]; exact fresh)
  have few : t.procYmr < pcbTableSize := by
    rw [ok.count, lists]
    exact_mod_cast room
  rw [if_pos few, lists] at live
  exact ⟨rt, t', ran, ok', live⟩

/-- A PCB that is freed leaves the table as it leaves the list. -/
theorem PcbTable.Ok.drops_kernel (ok : t.Ok) (lists : t.live = k.pcbTable) (h : PcbRef) :
    ∃ rt t', PcbTable.del h t = .ok (rt, t') ∧ t'.Ok ∧ t'.live = (k.drop h).pcbTable := by
  obtain ⟨rt, t', ran, ok', -, live⟩ := ok.del h
  rw [lists] at live
  exact ⟨rt, t', ran, ok', live⟩

end

/-! ## Every use of the table -/

/-- A PCB is added only while it is not listed. -/
def TableOp.IsNew (t : PcbTable) : TableOp → Prop
  | .add p => p ∉ t.live
  | .del _ => True

/-- What holds of the table, whatever was added and deleted. -/
structure TableSound (t : PcbTable) : Prop where
  /-- The counters fit the entries. -/
  ok : t.Ok
  /-- An addition succeeds if there is room for one more. -/
  adds : ∀ p ∉ t.live, ∃ rt t', PcbTable.add p t = .ok (rt, t') ∧
    (rt ≠ -1 ↔ t.procYmr < pcbTableSize) ∧
      t'.live = if t.procYmr < pcbTableSize then t.live ++ [p] else t.live
  /-- A deletion succeeds if the PCB is listed. -/
  deletes : ∀ p, ∃ rt t', PcbTable.del p t = .ok (rt, t') ∧ (rt ≠ -1 ↔ p ∈ t.live) ∧
    t'.live = t.live.erase p
  /-- Compaction keeps the PCBs in their order. -/
  compacts : ∃ t', PcbTable.rearrange t = .ok ((), t') ∧ t'.live = t.live ∧
    t'.freePt = t.live.length
  /-- The searches find what is there. -/
  finds : ∀ pcb, t.Finds pcb

/-- The table is sound after all additions of new PCBs and all deletions. -/
theorem pcb_table_sound (t : PcbTable) (reached : Reaches tableStep
    (fun t op => op.IsNew t) .empty t) : TableSound t := by
  have ok : t.Ok := by
    -- Each call keeps the table in order, so every run does.
    refine reached.invariant ?_ ?_
    · have nothing : PcbTable.empty.live = [] := PcbTable.filterMap_none fun _ _ => rfl
      exact ⟨by rw [nothing]; rfl, fun _ _ => rfl, by rw [nothing]; exact List.nodup_nil,
        Nat.zero_le _⟩
    · intro t op ok new
      cases op with
      | add p =>
        obtain ⟨rt, t', ran, ok', -⟩ := ok.add new
        unfold Meets tableStep
        simp only [ran]
        exact ok'
      | del p =>
        obtain ⟨rt, t', ran, ok', -⟩ := ok.del p
        unfold Meets tableStep
        simp only [ran]
        exact ok'
  refine ⟨ok, ?_, ?_, ?_, fun pcb => ok.finds pcb⟩
  · intro p fresh
    obtain ⟨rt, t', ran, -, rest⟩ := ok.add fresh
    exact ⟨rt, t', ran, rest⟩
  · intro p
    obtain ⟨rt, t', ran, -, rest⟩ := ok.del p
    exact ⟨rt, t', ran, rest⟩
  · obtain ⟨t', ran, -, same, -, free⟩ := ok.rearrange
    exact ⟨t', ran, same, free⟩

/-- The table is sound after two additions and one deletion. -/
theorem pcb_table_sound_hole : ∃ t, runWhere tableStep (fun t op =>
      match op with | .add p => p ∉ t.live | .del _ => true)
    .empty [.add 5, .add 7, .del 5] = some t ∧ TableSound t := by
  have possible : (runWhere tableStep (fun t op =>
      match op with | .add p => p ∉ t.live | .del _ => true)
    .empty [.add 5, .add 7, .del 5]).isSome := by decide
  obtain ⟨t, ran⟩ := Option.isSome_iff_exists.mp possible
  refine ⟨t, ran, pcb_table_sound t (.of_events_where ?_ ran)⟩
  intro t op legal
  cases op with
  | add p =>
    show p ∉ t.live
    exact of_decide_eq_true legal
  | del p => trivial

end GlucOS.Sched
