import GlucOS.Mm.Consistent

/-! `handle_pagefault`: the page is there afterwards, with the bits that the access needs. -/

namespace GlucOS

open Routine

variable {mm : Mm} {role : Nat → Role} {space : Nat → Nat → Leaf} {procs : Finset Nat}
  {accepted : MmStop → Prop}

/-! ## Copy-on-write pages -/

/-- A page that is not there gets the frame that is held for it. -/
theorem ResOk.fill {frame pid vpn : Nat} (res : ResOk mm space procs (some frame))
    (mem : pid ∈ procs) (own : mm.pgCharmap frame = pid)
    (addr : mm.pgUva frame = vpn * normalPageSize) (was : space pid vpn = .untouched) :
    ResOk mm (setLeaf space pid vpn (.priv frame)) procs none where
  frames := res.frames.fill (res.procs.named pid mem) own addr (Or.inl was)
  frameIndex := res.frameIndex
  slots := res.slots.keep (by simp [was]) (by simp)
  slotIndex := res.slotIndex
  shm := res.shm.keep (.priv frame) (by simp [was]) (by simp) (by simp) fun _ _ _ => rfl
  procs := res.procs.set mem
  clock := res.clock

/-- The bytes of frames do not matter. -/
theorem ResOk.withFrames {held : Option Nat} (res : ResOk mm space procs held)
    (frames : Nat → Page) : ResOk { mm with frames } space procs held :=
  ⟨res.frames, res.frameIndex, res.slots, res.slotIndex, res.shm, res.procs, res.clock⟩

/-- What an operation on one page of a process leaves: the page is touched, and no others are. -/
structure Serves (mm : Mm) (role : Nat → Role) (space : Nat → Nat → Leaf) (procs : Finset Nat)
    (pid vpn : Nat) (next : Mm) (role' : Nat → Role) (space' : Nat → Nat → Leaf) : Prop where
  /-- The state is consistent. -/
  ok : Ok next role' space' procs none
  /-- Tables keep their place. -/
  grows : Grows role role'
  /-- New tables are no top tables. -/
  noRoots : NoRoots role role'
  /-- No other page is touched that was not before. -/
  touched : ∀ other page, space' other page ≠ .untouched →
    space other page ≠ .untouched ∨ (other = pid ∧ page = vpn)
  /-- Shared pages stay in use. -/
  shares : SharesStay mm next

/-- A frame of its own for a page kept copy-on-write. -/
theorem breakCow_meets (hang : accepted .noVictim) (full : accepted .noSwapPage)
    {cpu stval pid vpn frame : Nat} {loc : PteLoc} (ok : Ok mm role space procs none)
    (homed : Homed mm role procs) (is : space pid vpn = .cow frame)
    (here : AtLeaf role pid vpn loc) (addr : stval / normalPageSize = vpn) :
    Meets accepted (breakCow cpu stval loc pid) mm fun _ next => ∃ space' own,
      Serves mm role space procs pid vpn next role space' ∧ space' pid vpn = .priv own := by
  have mem := ok.procs.touched pid vpn (by simp [is])
  obtain ⟨a, d, entry⟩ := ok.shape.holds_at here
  rw [is] at entry
  have pgidx : ((Leaf.cow frame).pte a d).pgidx = frame := pgidx_userPte frame a d
  unfold breakCow
  simp only [meets_readPte_bind]
  rw [entry, pgidx]
  apply Meets.bind (allocPage_meets hang full stval (ok.procs.named pid mem) ok homed)
  intro own mid allocated
  obtain ⟨space', gives⟩ := allocated
  simp only [meets_readPte_bind, meets_modify_bind, meets_writePte_bind]
  have is' : space' pid vpn = .cow frame := by rw [gives.evicts.uses (Or.inl is), is]
  obtain ⟨a', d', entry'⟩ := gives.ok.shape.holds_at here
  rw [is'] at entry'
  have apart : own ≠ frame := by
    intro same
    have marked := (gives.ok.frames.multi pid vpn frame (Or.inl is')).2
    obtain ⟨-, -, alone⟩ := gives.ok.frames.holds own rfl
    exact alone (by rw [same]; exact marked)
  -- The old frame loses a user while the new one is held.
  have res := (gives.ok.toResOk.withFrames (put mid.frames own
    (mid.frames (mid.tables loc.table loc.index).pgidx))).withTables
    (writeAt mid.tables loc
      { mid.tables loc.table loc.index with pfn := framePfn own, w := true, cow := false })
    mid.pgtbCharmap mid.pgtbFfree
  apply Meets.mono (releaseCow_meets res is')
  intro _ next released
  obtain ⟨res', same⟩ := released
  have holds : (Leaf.priv own).Holds
      { mid.tables loc.table loc.index with pfn := framePfn own, w := true, cow := false } := by
    rw [entry']
    exact ⟨a', d', rfl⟩
  have filled := res'.fill mem ((same.owner own apart).trans gives.owner)
    ((same.addr own apart).trans (by rw [gives.addr, addr])) (setLeaf_same ..)
  rw [setLeaf_setLeaf] at filled
  have written := gives.ok.shape.write here holds
  have shm : next.shmCtrl = mm.shmCtrl := by
    rw [same.same]
    exact gives.evicts.shmCtrl
  refine ⟨setLeaf space' pid vpn (.priv own), own, ⟨?_, fun _ _ => rfl, fun _ _ root => root, ?_,
    .of_same shm⟩, setLeaf_same ..⟩
  · refine { filled with shape := ?_, tabs := ?_ }
    · rw [same.same]
      exact written
    · rw [same.same]
      exact gives.ok.tabs
  · intro other page now
    by_cases same : other = pid ∧ page = vpn
    · exact Or.inr same
    · rw [setLeaf_other same] at now
      left
      intro was
      exact now (gives.evicts.untouched was)

/-! ## The handler -/

/-- Another operation on the same page. -/
theorem Serves.trans {mid next : Mm} {role' role'' : Nat → Role} {space' space'' : Nat → Nat → Leaf}
    {pid vpn : Nat} (first : Serves mm role space procs pid vpn mid role' space')
    (second : Serves mid role' space' procs pid vpn next role'' space'') :
    Serves mm role space procs pid vpn next role'' space'' := by
  refine ⟨second.ok, first.grows.trans second.grows, first.noRoots.trans second.noRoots, ?_,
    first.shares.trans second.shares⟩
  intro other page now
  obtain before | same := second.touched other page now
  · exact first.touched other page before
  · exact Or.inr same

/-- A page that a process touches where it may keeps the state consistent. -/
theorem Serves.sound {next : Mm} {role' : Nat → Role} {space' : Nat → Nat → Leaf} {ccpu : Tcb}
    {vpn : Nat} (serves : Serves mm role space procs ccpu.pid vpn next role' space')
    (sound : Consistent mm role space procs) (mem : ccpu ∈ mm.pcbTable)
    (legal : vpn * normalPageSize < ccpu.segEnd ∨
      userSp - ustackNpg * normalPageSize ≤ vpn * normalPageSize)
    (same : next.tasks = mm.tasks) : GoesTo mm next := by
  have table : next.pcbTable = mm.pcbTable := congrArg Prod.fst same
  have tasks := sound.tasks.later serves.grows serves.noRoots same
  refine ⟨⟨role', space', procs, serves.ok, tasks, ?_, ?_⟩, serves.shares.on⟩
  · rw [table]
    exact sound.segs
  · rw [table]
    exact sound.placed.touch sound.segs mem legal serves.touched

/-- Addresses at which page faults are resolved are in user space. -/
theorem Consistent.legal_small (sound : Consistent mm role space procs) {ccpu : Tcb} {stval : Nat}
    (mem : ccpu ∈ mm.pcbTable) (isUser : ncpu ≤ ccpu.pid) (legal : ccpu.legal stval) :
    stval < userVpns * normalPageSize ∧ (stval / normalPageSize * normalPageSize < ccpu.segEnd ∨
      userSp - ustackNpg * normalPageSize ≤ stval / normalPageSize * normalPageSize) := by
  have low := sound.placed.low ccpu mem isUser
  unfold Tcb.legal at legal
  simp only [userSp, ustackNpg, normalPageSize, userVpns] at *
  omega

/-- The accessed and dirty bits of a page are set, and its cached translation is dropped. -/
theorem markPage_meets {cpu stval pid vpn : Nat} {loc : PteLoc} (ok : Ok mm role space procs none)
    (here : AtLeaf role pid vpn loc) (touched : space pid vpn ≠ .untouched) :
    Meets accepted (do
      let entry ← readPte loc
      writePte loc { entry with a := true, d := true }
      localFlushTlbPage cpu stval
      return FaultOut.resolved) mm fun out next =>
        out = .resolved ∧ Serves mm role space procs pid vpn next role space := by
  unfold localFlushTlbPage
  simp only [meets_readPte_bind, meets_writePte_bind, meets_modify_bind, meets_pure]
  have marked := ok.shape.mark here touched true true
  refine ⟨trivial, { ok with shape := marked }, fun _ _ => rfl, fun _ _ root => root, ?_,
    .of_same rfl⟩
  exact fun _ _ now => Or.inl now

/-- A page in the swap partition is brought back for its own address. -/
theorem reloadPage_meets (hang : accepted .noVictim) (full : accepted .noSwapPage)
    {cpu stval vpn slot : Nat} {ccpu : Tcb} {loc : PteLoc} (ok : Ok mm role space procs none)
    (homed : Homed mm role procs) (runs : mm.curCpu cpu = some ccpu)
    (is : space ccpu.pid vpn = .swapped slot) (here : AtLeaf role ccpu.pid vpn loc)
    (addr : stval / normalPageSize = vpn) :
    Meets accepted (swapFromDisk cpu loc stval) mm fun frame? next => frame? ≠ none ∧
      ∃ space', Serves mm role space procs ccpu.pid vpn next role space' := by
  have mem := ok.procs.touched ccpu.pid vpn (by simp [is])
  apply Meets.mono (swapFromDisk_meets hang full ok homed runs is here)
  intro frame? next reloaded
  obtain ⟨frame, space', rfl, reloads⟩ := reloaded
  have mapped := reloads.ok.map mem reloads.owner (by rw [← addr]; exact reloads.addr)
    (setLeaf_same ..) here reloads.entry
  rw [setLeaf_setLeaf] at mapped
  simp only [writeAt_writeAt, writeAt_self] at mapped
  refine ⟨by simp, setLeaf space' ccpu.pid vpn (.priv frame), mapped, fun _ _ => rfl,
    fun _ _ root => root, ?_, .of_same reloads.touches.shmCtrl⟩
  intro other page now
  by_cases same : other = ccpu.pid ∧ page = vpn
  · exact Or.inr same
  · exact Or.inl (reloads.touches.touched same now)

/-- The fault is at least the third one of a process at an address in a short time. -/
def FaultMemo.Repeats (memo : FaultMemo) (pid stval time : Nat) : Prop :=
  stval = memo.lastStval ∧ some pid = memo.lastPid ∧ u32Sub time memo.lastTime ≤ 1 ∧
    2 ≤ memo.pfYmr

/-- The repetition count of page faults does not matter. -/
theorem Consistent.withFault (sound : Consistent mm role space procs) (fault : FaultMemo) :
    Consistent { mm with fault } role space procs :=
  ⟨{ sound.ok with }, { sound.tasks with }, sound.segs, sound.placed⟩

/-- What `handle_pagefault` does about a legal address, when it has found the entry. -/
def resolveFault (cpu stval : Nat) (isStore : Bool) (ccpu : Tcb) (loc : PteLoc) :
    MmRoutine FaultOut := do
  let entry ← readPte loc
  if entry = Pte.zero then
    discard (allocPageHelper cpu stval ccpu.pgdir ccpu.pid)
    return .resolved
  else if entry.v then
    if entry.cow ∧ isStore then breakCow cpu stval loc ccpu.pid else pure ()
    let entry ← readPte loc
    writePte loc { entry with a := true, d := true }
    localFlushTlbPage cpu stval
    return .resolved
  else
    match ← swapFromDisk cpu loc stval with
    | none => stop .corrupt
    | some _ => return .resolved

/-- The handler counts the fault, finds the entry and decides about the address. -/
theorem handlePagefault_eq (cpu stval : Nat) (isStore : Bool) (time : Nat) :
    handlePagefault cpu stval isStore time = (do
      let ccpu ← curCpu cpu
      countFault ccpu.pid stval time
      stopIf (ccpu.pid < ncpu) .kernelFault
      let loc ← va2pte stval ccpu.pgdir false 0
      let mm ← get
      stopIf (3 ≤ mm.fault.pfYmr) .repeatedFault
      if ccpu.legal stval then resolveFault cpu stval isStore ccpu loc
      else
        discard (doKill cpu ccpu.pid)
        return .segfault) := rfl

/-- Nothing but the processes' page tables and pages changes. -/
theorem resolveFault_tasks (cpu stval : Nat) (isStore : Bool) (ccpu : Tcb) (loc : PteLoc) :
    Keeps Mm.tasks (resolveFault cpu stval isStore ccpu loc) := by
  have mark : Keeps Mm.tasks (do
      let entry ← readPte loc
      writePte loc { entry with a := true, d := true }
      localFlushTlbPage cpu stval
      return FaultOut.resolved) := by
    apply (readPte_tasks loc).bind
    intro entry
    apply (writePte_tasks _ _).bind
    intro _
    exact (localFlushTlbPage_tasks _ _).bind fun _ => keeps_pure _
  unfold resolveFault
  apply (readPte_tasks loc).bind
  intro entry
  apply Keeps.ite
  · exact (allocPageHelper_tasks _ _ _ _).discard.bind fun _ => keeps_pure _
  · apply Keeps.ite
    · exact Keeps.ite_bind (breakCow_tasks _ _ _ _) fun _ => mark
    · apply (swapFromDisk_tasks _ _ _).bind
      intro frame?
      cases frame? with
      | none => exact keeps_stop _
      | some _ => exact keeps_pure _

/-- A legal page fault ends with the page there. -/
theorem resolveFault_meets (exhausted : accepted .noPageTable) (hang : accepted .noVictim)
    (full : accepted .noSwapPage) {cpu stval vpn : Nat} {isStore : Bool} {ccpu : Tcb} {loc : PteLoc}
    (ok : Ok mm role space procs none) (homed : Homed mm role procs)
    (runs : mm.curCpu cpu = some ccpu) (mem : ccpu.pid ∈ procs)
    (root : role ccpu.pgdir = .node ccpu.pid []) (user : stval < userVpns * normalPageSize)
    (addr : stval / normalPageSize = vpn)
    (located : Located mm.tables role space ccpu.pid vpn loc) :
    Meets accepted (resolveFault cpu stval isStore ccpu loc) mm fun out next =>
      out = .resolved ∧ ∃ role' space',
        Serves mm role space procs ccpu.pid vpn next role' space' := by
  have small : vpn < userVpns := by
    rw [← addr]
    exact (Nat.div_lt_iff_lt_mul (by decide)).mpr user
  -- A page that was never touched is mapped to a fresh frame.
  have first : space ccpu.pid vpn = .untouched →
      Meets accepted (do
        discard (allocPageHelper cpu stval ccpu.pgdir ccpu.pid)
        return FaultOut.resolved) mm fun out next => out = .resolved ∧
          ∃ role' space', Serves mm role space procs ccpu.pid vpn next role' space' := by
    intro was
    apply Meets.bind (meets_discard (Meets.mono (allocPageHelper_meets exhausted hang full ok homed
      mem root user (by rw [addr]; exact was)) fun _ next done => ?_))
    · intro _ next served
      exact ⟨rfl, served⟩
    · obtain ⟨role', space', ok', grows, -, touches, noRoots⟩ := done
      rw [addr] at touches
      refine ⟨role', space', ok', grows, noRoots, ?_, .of_same touches.shmCtrl⟩
      intro other page now
      by_cases same : other = ccpu.pid ∧ page = vpn
      · exact Or.inr same
      · exact Or.inl (touches.touched same now)
  unfold resolveFault
  simp only [meets_readPte_bind]
  obtain ⟨level, -, table, index⟩ | ⟨-, zero⟩ := located
  · have here : AtLeaf role ccpu.pid vpn loc := ⟨level, table, index⟩
    have holds := ok.shape.holds_at here
    cases is : space ccpu.pid vpn with
    | untouched =>
      rw [if_pos (holds.zero_iff.mpr is)]
      exact first is
    | priv frame =>
      rw [is] at holds
      obtain ⟨a, d, entry⟩ := id holds
      rw [if_neg (by rw [holds.zero_iff]; simp), if_pos (by simp [holds.v_iff]),
        if_neg (by rw [entry]; simp [Leaf.pte, userPte])]
      apply Meets.mono (markPage_meets ok here (by simp [is]))
      intro out next done
      exact ⟨done.1, role, space, done.2⟩
    | shared frame =>
      rw [is] at holds
      obtain ⟨a, d, entry⟩ := id holds
      rw [if_neg (by rw [holds.zero_iff]; simp), if_pos (by simp [holds.v_iff]),
        if_neg (by rw [entry]; simp [Leaf.pte, userPte])]
      apply Meets.mono (markPage_meets ok here (by simp [is]))
      intro out next done
      exact ⟨done.1, role, space, done.2⟩
    | cow frame =>
      rw [is] at holds
      rw [if_neg (by rw [holds.zero_iff]; simp), if_pos (by simp [holds.v_iff])]
      apply meets_ite
      · intro _
        apply Meets.bind (breakCow_meets hang full ok homed is here addr)
        intro _ mid broken
        obtain ⟨space', own, serves, own'⟩ := broken
        apply Meets.mono (markPage_meets serves.ok here (by simp [own']))
        intro out next done
        exact ⟨done.1, role, space', serves.trans done.2⟩
      · intro _
        apply Meets.mono (markPage_meets ok here (by simp [is]))
        intro out next done
        exact ⟨done.1, role, space, done.2⟩
    | swapped slot =>
      rw [is] at holds
      rw [if_neg (by rw [holds.zero_iff]; simp), if_neg (by simp [holds.v_iff])]
      apply Meets.bind (reloadPage_meets hang full ok homed runs is here addr)
      intro frame? next reloaded
      obtain ⟨found, space', serves⟩ := reloaded
      cases frame? with
      | none => exact absurd rfl found
      | some frame => exact ⟨rfl, role, space', serves⟩
  · rw [if_pos (zero small).2]
    exact first (zero small).1

/-- The page fault handler resolves the fault or ends the process, unless faults repeat. -/
theorem handlePagefault_sound (exhausted : accepted .noPageTable) (hang : accepted .noVictim)
    (full : accepted .noSwapPage) {cpu stval time : Nat} {isStore : Bool} {ccpu : Tcb}
    (sound : Consistent mm role space procs) (runs : mm.curCpu cpu = some ccpu)
    (isUser : ncpu ≤ ccpu.pid)
    (often : mm.fault.Repeats ccpu.pid stval time → accepted .repeatedFault) :
    Meets accepted (handlePagefault cpu stval isStore time) mm fun out next =>
      GoesTo mm next ∧ (ccpu.legal stval → out = .resolved) := by
  have mem := TasksOk.current_mem runs
  obtain ⟨inProcs, root⟩ := sound.tasks.home ccpu mem isUser
  rw [handlePagefault_eq, meets_curCpu_bind runs]
  unfold countFault
  simp only [meets_modify_bind]
  apply meets_stopIf_bind
  · omega
  intro _
  -- From here on only the repetition count differs from the state before.
  have counted := sound.withFault
    (if stval = mm.fault.lastStval ∧ some ccpu.pid = mm.fault.lastPid ∧
        u32Sub time mm.fault.lastTime ≤ 1 then
      { mm.fault with pfYmr := mm.fault.pfYmr + 1 }
    else { pfYmr := 1, lastStval := stval, lastPid := some ccpu.pid, lastTime := time })
  apply Meets.bind (va2pte_lookup counted.ok.shape stval root)
  intro loc here found
  obtain ⟨rfl, located⟩ := found
  simp only [meets_get_bind]
  apply meets_stopIf_bind
  · intro thrice
    apply often
    unfold FaultMemo.Repeats
    by_cases again : stval = mm.fault.lastStval ∧ some ccpu.pid = mm.fault.lastPid ∧
        u32Sub time mm.fault.lastTime ≤ 1
    · simp only [if_pos again] at thrice
      exact ⟨again.1, again.2.1, again.2.2, by omega⟩
    · simp only [if_neg again] at thrice
      omega
  intro _
  apply meets_ite
  · intro legal
    obtain ⟨user, inPage⟩ := counted.legal_small mem isUser legal
    have walk : walkVpn stval = stval / normalPageSize := by
      apply walkVpn_user
      simp only [userVpns, normalPageSize] at user
      omega
    rw [walk] at located
    apply Meets.mono (meets_both (resolveFault_meets exhausted hang full counted.ok
      counted.tasks.homed runs inProcs root user rfl located)
      ((resolveFault_tasks _ _ _ _ _).meets _))
    intro out next done
    obtain ⟨⟨resolved, role', space', serves⟩, same⟩ := done
    have leads := serves.sound counted mem inPage same
    exact ⟨⟨leads.sound, leads.shares⟩, fun _ => resolved⟩
  · intro illegal
    have kill : Meets accepted (discard (doKill cpu ccpu.pid)) _ fun _ next => GoesTo _ next :=
      meets_discard (doKill_sound ccpu.pid counted)
    apply Meets.bind kill
    intro _ next killed
    exact ⟨⟨killed.sound, killed.shares⟩, fun legal => absurd legal illegal⟩

end GlucOS
