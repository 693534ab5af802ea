import GlucOS.Mm.PageTable

/-! Page frames and the swap partition: allocation, release, eviction and reloading. -/

namespace GlucOS

open Routine

/-- `alloc_swap_page`: a page of the swap partition, or nothing when it is full. -/
def allocSwapPage (pid : Nat) : MmRoutine (Option Nat) := do
  stopIf (u8 pid = cmapFree) .corrupt
  let mm ← get
  if npswap ≤ mm.spgFfree then return none
  else
    let slot := mm.spgFfree
    let charmap := put mm.spgCharmap slot (u8 pid)
    set { mm with
      spgCharmap := charmap
      spgFfree := nextFree charmap (npswap - slot) slot }
    return some slot

/-- `free_swap_page`. -/
def freeSwapPage (slot : Nat) : MmRoutine Unit := do
  stopIf (npswap ≤ slot) .corrupt
  let mm ← get
  stopIf (mm.spgCharmap slot = cmapFree) .corrupt
  set { mm with
    spgCharmap := put mm.spgCharmap slot cmapFree
    spgFfree := if slot < mm.spgFfree then slot else mm.spgFfree }

/-- `free_page`, by the physical page number of the frame. -/
def freePage (pfn : Nat) : MmRoutine Unit := do
  stopIf (pfn < framePfn 0 ∨ npf ≤ pfn - framePfn 0) .corrupt
  let frame := pfn - framePfn 0
  let mm ← get
  stopIf (mm.pgCharmap frame = cmapFree) .corrupt
  set { mm with
    pgCharmap := put mm.pgCharmap frame cmapFree
    pgFfree := if frame < mm.pgFfree then frame else mm.pgFfree }

/--
One user less of a copy-on-write frame, which the last one frees.

`handle_pagefault` and `free_pages_of_proc` end their copy-on-write branches in this way.
-/
def releaseCow (pgidx pfn : Nat) : MmRoutine Unit := do
  let mm ← get
  stopIf (mm.pgUva pgidx = 0 ∨ uprocMax < mm.pgUva pgidx) .corrupt
  set { mm with pgUva := put mm.pgUva pgidx (mm.pgUva pgidx - 1) }
  if mm.pgUva pgidx - 1 = 0 then freePage pfn else pure ()

/-- Whether a process runs on a processor other than this one. -/
def Mm.runsElsewhere (mm : Mm) (cpu pid : Nat) : Bool :=
  (List.range ncpu).any fun other => other ≠ cpu && (mm.current other).1 = pid

/-- Moving the clock pointer by one step. -/
def stepClock : MmRoutine Unit :=
  modify fun mm =>
    { mm with clockPt := if npf ≤ mm.clockPt + 1 then 0 else mm.clockPt + 1 }

/--
The loop of `swap_to_disk`, which stops at the entry of the page to evict and its owner.

Two rounds without a victim leave nothing that a third could find, so `fuel` never has to be
larger than that.
-/
def clockScan (cpu : Nat) : Nat → MmRoutine (PteLoc × Nat)
  | 0 => stop .noVictim
  | fuel + 1 => do
    let mm ← get
    let pid := mm.pgCharmap mm.clockPt
    let found := mm.pcbSearch pid
    stopIf (found = none ∧ pid ≠ cmapShared) .corrupt
    if mm.runsElsewhere cpu pid ∨ pid = cmapShared then
      stepClock
      clockScan cpu fuel
    else
      match found with
      | none => stop .corrupt
      | some tcb =>
        let loc ← va2pte (mm.pgUva mm.clockPt) tcb.pgdir false 0
        let entry ← readPte loc
        stopIf (loc.level ≠ 0 ∨ entry.v = false) .corrupt
        if entry.a then
          writePte loc { entry with a := false }
          stepClock
          clockScan cpu fuel
        else return (loc, pid)

/-- `swap_to_disk`: evicts the page of one frame and answers the frame. -/
def swapToDisk (cpu : Nat) : MmRoutine Nat := do
  let (loc, pid) ← clockScan cpu (2 * npf + 1)
  match ← allocSwapPage pid with
  | none => stop .noSwapPage
  | some slot =>
    let mm ← get
    let frame := mm.clockPt
    -- `bios_sd_write` moves exactly the sectors of one page.
    set { mm with swapPages := put mm.swapPages slot (mm.frames frame) }
    let entry ← readPte loc
    writePte loc { entry with v := false, pfn := slot }
    localFlushTlbPage cpu (mm.pgUva frame)
    stopIf ({ entry with v := false, pfn := slot } = Pte.zero) .corrupt
    stepClock
    return frame

/-- `alloc_page`: one page frame for a process, with the user address it will be mapped at. -/
def allocPage (cpu pid uva : Nat) : MmRoutine Nat := do
  stopIf (u8 pid = cmapFree) .corrupt
  let mm ← get
  if npf ≤ mm.pgFfree then
    let frame ← swapToDisk cpu
    modify fun mm =>
      { mm with
        pgCharmap := put mm.pgCharmap frame (u8 pid)
        pgUva := put mm.pgUva frame (uva / normalPageSize * normalPageSize)
        pgFfree := npf }
    return frame
  else
    let frame := mm.pgFfree
    let charmap := put mm.pgCharmap frame (u8 pid)
    set { mm with
      pgCharmap := charmap
      pgUva := put mm.pgUva frame (uva / normalPageSize * normalPageSize)
      pgFfree := nextFree charmap (npf - frame) frame }
    return frame

/-- `alloc_page_helper`: maps a fresh page frame at an address that has none. -/
def allocPageHelper (cpu va pgdir pid : Nat) : MmRoutine Nat := do
  let loc ← va2pte va pgdir true pid
  stopIf (loc.level ≠ 0) .corrupt
  let entry ← readPte loc
  stopIf (entry ≠ Pte.zero) .corrupt
  let frame ← allocPage cpu pid va
  let entry ← readPte loc
  writePte loc ({ entry with pfn := framePfn frame }).setVurwxad
  return frame

/-- `swap_from_disk`: reloads the page of an entry for the current process. -/
def swapFromDisk (cpu : Nat) (loc : PteLoc) (uva : Nat) : MmRoutine (Option Nat) := do
  let entry ← readPte loc
  let slot := entry.pfn
  if entry.v = true ∨ npswap ≤ slot then return none
  else
    let ccpu ← curCpu cpu
    let frame ← allocPage cpu ccpu.pid uva
    -- `bios_sd_read` moves exactly the sectors of one page.
    modify fun mm => { mm with frames := put mm.frames frame (mm.swapPages slot) }
    freeSwapPage slot
    let entry ← readPte loc
    writePte loc { entry with v := true, a := true, d := true, pfn := framePfn frame }
    return some frame

end GlucOS
