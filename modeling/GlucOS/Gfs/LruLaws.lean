import GlucOS.Gfs.CacheLaws
import GlucOS.Lib.Recency

/-! The order of the cache lines is the order of their last use, and the hits follow from it. -/

namespace GlucOS

namespace Gfsc

/-- The line that an access to a block uses: the one found, or else the victim. -/
def lineOf (cache : Gfsc) (bidx : Nat) : Nat :=
  if cache.search bidx < cache.blocks.length then cache.search bidx else cache.victim.getD 0

/-- The line that a call brings to the front of the order, if any. -/
def touches (cache : Gfsc) : GfscCall → List Nat
  | .read bidx => [cache.lineOf bidx]
  | .write bidx _ => [cache.lineOf bidx]
  | .inv _ => []

/-- The test before the panic of `glru_aseq_move`. -/
def AseqPanics (cache : Gfsc) (line : Nat) : Prop :=
  cache.lruAseq[lruFind cache.lruAseq line (u32Sub cache.blocks.length 1)]? ≠ some line

end Gfsc

/-- The block an access is about; invalidation accesses none. -/
def GfscCall.accesses : GfscCall → List Nat
  | read bidx => [bidx]
  | write bidx _ => [bidx]
  | inv _ => []

/-- Runs of calls, with the lines touched by them. The latest call and line come first. -/
inductive Served (start : Gfsc) : List GfscCall → List Nat → Gfsc → Prop
  /-- Nothing was called. -/
  | start : Served start [] [] start
  /-- One more call was answered. -/
  | call {past : List GfscCall} {touched : List Nat} {cache next : Gfsc} (call : GfscCall)
      {answer : Option Block} :
      Served start past touched cache → gfscStep cache call = some (answer, next) →
      Served start (call :: past) (cache.touches call ++ touched) next

/-- A block is among the most recent that were accessed. -/
def RecentlyAccessed (past : List GfscCall) (lines bidx : Nat) : Prop :=
  bidx ∈ past.flatMap GfscCall.accesses ∧
    ((past.flatMap GfscCall.accesses).takeWhile fun other => other ≠ bidx).toFinset.card < lines

/-- The lines are ordered by their last use, for accesses to legal blocks also observably. -/
structure LruOrdered (start : Gfsc) (legal : Nat → Prop) : Prop where
  /-- The order has each line once. -/
  permutes : ∀ past touched cache, Served start past touched cache →
    cache.lruAseq.Perm (List.range start.blocks.length)
  /-- It starts with the lines that were touched, each at its last use. -/
  recent : ∀ past touched cache, Served start past touched cache →
    recency touched <+: cache.lruAseq
  /-- No call is stuck, and none panics. -/
  answered : ∀ past touched cache, Served start past touched cache → ∀ call,
    (∃ answer next, gfscStep cache call = some (answer, next)) ∧
      ∀ line ∈ cache.touches call, ¬ cache.AseqPanics line
  /-- Without invalidation, a read hits exactly the blocks accessed recently. -/
  readHits : ∀ past touched cache, Served start past touched cache →
    (∀ call ∈ past, ∃ bidx, call.accesses = [bidx] ∧ legal bidx) →
    ∀ bidx flag data next, legal bidx → cache.readBlock bidx = some ((flag, data), next) →
      (flag = 0 ↔ RecentlyAccessed past start.blocks.length bidx)
  /-- So does a write. -/
  writeHits : ∀ past touched cache, Served start past touched cache →
    (∀ call ∈ past, ∃ bidx, call.accesses = [bidx] ∧ legal bidx) →
    ∀ bidx data flag next, legal bidx → cache.writeBlock bidx data = some (flag, next) →
      (flag = 0 ↔ RecentlyAccessed past start.blocks.length bidx)

/-! Moving a line to the front. -/

/-- The shift leaves a copy of the first entry in front. -/
theorem Gfsc.lruShift_eq {aseq : List Nat} {i : Nat} (inside : i < aseq.length) :
    Gfsc.lruShift aseq i = aseq.getD 0 0 :: aseq.take i ++ aseq.drop (i + 1) := by
  induction i generalizing aseq with
  | zero =>
    cases aseq with
    | nil => simp at inside
    | cons first rest => simp [Gfsc.lruShift]
  | succ i ih =>
    -- The entry at `i` is copied one place back before the rest is shifted.
    have before : i < aseq.length := by omega
    have copied : (aseq.set (i + 1) (aseq.getD i 0)).drop (i + 1) =
        aseq.getD i 0 :: aseq.drop (i + 2) := by
      rw [List.drop_eq_getElem_cons (by simp; omega), List.drop_set_of_lt (by omega)]
      simp
    have taken : (aseq.set (i + 1) (aseq.getD i 0)).take i = aseq.take i := by
      rw [List.take_set_of_le (by omega)]
    have whole : aseq.take (i + 1) = aseq.take i ++ [aseq.getD i 0] := by
      rw [List.take_add_one, List.getElem?_eq_getElem before]
      simp [before]
    rw [Gfsc.lruShift, ih (by simp; omega), copied, taken, whole]
    simp

/-- The downward search finds a line that is listed once. -/
theorem Gfsc.lruFind_eq {front rest : List Nat} {line start : Nat} (apart : line ∉ rest)
    (reach : front.length ≤ start) (inside : start < front.length + 1 + rest.length) :
    Gfsc.lruFind (front ++ line :: rest) line start = front.length := by
  induction start with
  | zero =>
    simp only [Gfsc.lruFind]
    omega
  | succ start ih =>
    simp only [Gfsc.lruFind]
    by_cases there : front.length = start + 1
    · rw [if_pos]
      · exact there.symm
      · rw [List.getElem?_append_right (by omega)]
        simp [there]
    · -- Behind the line every other entry differs from it.
      rw [if_neg, ih (by omega) (by omega)]
      intro found
      rw [List.getElem?_append_right (by omega)] at found
      obtain ⟨k, isMore⟩ : ∃ k, start + 1 - front.length = k + 1 :=
        ⟨start - front.length, by omega⟩
      rw [isMore, List.getElem?_cons_succ] at found
      exact apart (List.mem_of_getElem? found)

/-- A cache with lines, each listed once in the order. -/
structure OrderOk (cache : Gfsc) : Prop where
  /-- There is a line to use. -/
  someLine : 0 < cache.blocks.length
  /-- Line numbers survive the cast to `uint16_t`. -/
  fewLines : cache.blocks.length ≤ 2 ^ 16
  /-- The order has each line once. -/
  permutes : cache.lruAseq.Perm (List.range cache.blocks.length)

/-- The order has no repetition. -/
theorem OrderOk.nodup {cache : Gfsc} (ok : OrderOk cache) : cache.lruAseq.Nodup :=
  ok.permutes.nodup_iff.mpr List.nodup_range

/-- The order is as long as there are lines. -/
theorem OrderOk.size {cache : Gfsc} (ok : OrderOk cache) :
    cache.lruAseq.length = cache.blocks.length := by
  simpa using ok.permutes.length_eq

/-- The order lists exactly the lines. -/
theorem OrderOk.listed {cache : Gfsc} (ok : OrderOk cache) {line : Nat} :
    line ∈ cache.lruAseq ↔ line < cache.blocks.length := by
  rw [ok.permutes.mem_iff, List.mem_range]

/-- Around a line, the order falls apart into two lists without it. -/
theorem OrderOk.around {cache : Gfsc} (ok : OrderOk cache) {line : Nat}
    (inside : line < cache.blocks.length) : ∃ front rest,
      cache.lruAseq = front ++ line :: rest ∧ line ∉ front ∧ line ∉ rest ∧
        Gfsc.lruFind cache.lruAseq line (u32Sub cache.blocks.length 1) = front.length := by
  obtain ⟨front, rest, split⟩ := List.append_of_mem (ok.listed.mpr inside)
  have nodup := ok.nodup
  have size := ok.size
  rw [split] at nodup size
  simp only [List.length_append, List.length_cons] at size
  obtain ⟨-, nodupTail, apart⟩ := List.nodup_append.mp nodup
  have notRest : line ∉ rest := (List.nodup_cons.mp nodupTail).1
  have notFront : line ∉ front := by
    intro member
    exact apart line member line List.mem_cons_self rfl
  refine ⟨front, rest, split, notFront, notRest, ?_⟩
  rw [u32Sub_of_le ok.someLine, split]
  exact Gfsc.lruFind_eq notRest (by omega) (by omega)

/-- The panic for a missing line is never reached. -/
theorem OrderOk.noPanic {cache : Gfsc} (ok : OrderOk cache) {line : Nat}
    (inside : line < cache.blocks.length) : ¬ cache.AseqPanics line := by
  obtain ⟨front, rest, split, -, -, found⟩ := ok.around inside
  intro panics
  apply panics
  rw [found, split]
  simp

/-- Moving a line puts it before the others, which keep their order. -/
theorem OrderOk.aseqMove {cache : Gfsc} (ok : OrderOk cache) {line : Nat}
    (inside : line < cache.blocks.length) :
    (cache.aseqMove line).lruAseq = line :: cache.lruAseq.filter fun other => other ≠ line := by
  obtain ⟨front, rest, split, notFront, notRest, found⟩ := ok.around inside
  have keeps : ∀ lines : List Nat, line ∉ lines →
      lines.filter (fun other => other ≠ line) = lines := by
    intro lines absent
    apply List.filter_eq_self.mpr
    intro other member
    have differ : other ≠ line := fun same => absent (same ▸ member)
    simpa using differ
  have short : front.length < cache.lruAseq.length := by
    rw [split]
    simp
  simp only [Gfsc.aseqMove, found, Gfsc.lruShift_eq short]
  rw [split, List.filter_append, List.filter_cons_of_neg (by simp), keeps front notFront,
    keeps rest notRest]
  simp

/-! What one access does to the order and to the tags. -/

/-- The tags of all lines. -/
def Gfsc.tags (cache : Gfsc) : List Nat := cache.blocks.map GfscLine.tag

/-- The tags are as many as the lines. -/
@[simp] theorem Gfsc.tags_length (cache : Gfsc) : cache.tags.length = cache.blocks.length := by
  simp [Gfsc.tags]

/-- An access to a block: the line used is retagged and moved to the front. -/
structure Accessed (cache : Gfsc) (bidx flag : Nat) (next : Gfsc) : Prop where
  /-- Only a block that was found hits. -/
  hit : flag = 0 ↔ cache.search bidx < cache.blocks.length
  /-- The line carries the block's tag. -/
  tags : next.tags = cache.tags.set (cache.lineOf bidx) bidx
  /-- The line is the most recent one. -/
  order : next.lruAseq =
    cache.lineOf bidx :: cache.lruAseq.filter fun other => other ≠ cache.lineOf bidx

/-- The lines are as many as before. -/
theorem Accessed.size {cache next : Gfsc} {bidx flag : Nat}
    (accessed : Accessed cache bidx flag next) : next.blocks.length = cache.blocks.length := by
  have same := congrArg List.length accessed.tags
  simpa using same

/-- There is always a victim among the lines. -/
theorem OrderOk.victim {cache : Gfsc} (ok : OrderOk cache) :
    ∃ i, cache.victim = some i ∧ i < cache.blocks.length := by
  unfold Gfsc.victim
  cases found : cache.blocks.findIdx? fun line => line.tag == 0 with
  | some i =>
    obtain ⟨inside, -, -⟩ := List.findIdx?_eq_some_iff_getElem.mp found
    exact ⟨i, rfl, inside⟩
  | none =>
    have someLine := ok.someLine
    have size := ok.size
    rw [u32Sub_of_le someLine]
    have last : cache.blocks.length - 1 < cache.lruAseq.length := by omega
    exact ⟨cache.lruAseq[cache.blocks.length - 1], by simp [last],
      ok.listed.mp (List.getElem_mem last)⟩

/-- The line used is one of the lines. -/
theorem OrderOk.lineOf_lt {cache : Gfsc} (ok : OrderOk cache) (bidx : Nat) :
    cache.lineOf bidx < cache.blocks.length := by
  obtain ⟨i, chosen, inside⟩ := ok.victim
  unfold Gfsc.lineOf
  split
  · assumption
  · simpa [chosen] using inside

/-- Setting a tag to what it was changes nothing. -/
theorem Gfsc.tags_hit {cache : Gfsc} {bidx : Nat} (few : cache.blocks.length ≤ 2 ^ 16)
    (hit : cache.search bidx < cache.blocks.length) :
    cache.tags.set (cache.lineOf bidx) bidx = cache.tags := by
  obtain ⟨line, at_, named⟩ := Gfsc.search_hit hit (Nat.le_trans few (by decide))
  have found : cache.tags[cache.search bidx]? = some bidx := by
    simp [Gfsc.tags, at_, named]
  rw [Gfsc.lineOf, if_pos hit]
  apply List.ext_getElem?
  intro i
  by_cases same : cache.search bidx = i
  · subst same
    rw [found, List.getElem?_set_self (by simpa using hit)]
  · rw [List.getElem?_set_ne same]

/-- Choosing the victim retags it. -/
theorem OrderOk.scanOrEvict {cache : Gfsc} (ok : OrderOk cache) {bidx : Nat}
    (miss : ¬ cache.search bidx < cache.blocks.length) :
    ∃ line : GfscLine, cache.scanOrEvict bidx = some (cache.lineOf bidx,
      { cache with blocks := cache.blocks.set (cache.lineOf bidx) { line with tag := bidx } }) := by
  obtain ⟨he, chosen, inside⟩ := ok.victim
  have line : cache.lineOf bidx = he := by simp [Gfsc.lineOf, miss, chosen]
  exact ⟨cache.blocks[he], by simp [Gfsc.scanOrEvict, chosen, line, inside]⟩

/-- A read accesses its block. -/
theorem OrderOk.readBlock {cache : Gfsc} (ok : OrderOk cache) (bidx : Nat) :
    ∃ flag data next, cache.readBlock bidx = some ((flag, data), next) ∧
      Accessed cache bidx flag next := by
  have few := ok.fewLines
  have inside := ok.lineOf_lt bidx
  have small : cache.lineOf bidx % 65536 = cache.lineOf bidx := Nat.mod_eq_of_lt (by omega)
  by_cases hit : cache.search bidx < cache.blocks.length
  · have line : cache.lineOf bidx = cache.search bidx := if_pos hit
    rw [line] at small
    refine ⟨0, cache.blocks[cache.search bidx].block,
      { cache with rdhit := cache.rdhit + 1 }.aseqMove (cache.search bidx), ?_, ?_⟩
    · simp [Gfsc.readBlock, Nat.not_le.mpr hit, small, hit]
    · constructor
      · simp [hit]
      · rw [Gfsc.tags_hit few hit]
        simp [Gfsc.tags]
      · rw [line]
        exact OrderOk.aseqMove ⟨ok.someLine, ok.fewLines, ok.permutes⟩ hit
  · obtain ⟨line, chosen⟩ := ok.scanOrEvict hit
    let loaded := gfsReadSec cache.disk (u32 (bidx * secPerBlock))
    let counted : Gfsc := { cache with
      blocks := cache.blocks.set (cache.lineOf bidx) ⟨loaded, bidx⟩, rdmiss := cache.rdmiss + 1 }
    refine ⟨1, loaded, counted.aseqMove (cache.lineOf bidx), ?_, ?_⟩
    · simp [Gfsc.readBlock, Nat.le_of_not_lt hit, chosen, small, inside, set_modify_same, counted,
        loaded]
    · have same : OrderOk counted :=
        ⟨by simpa [counted] using ok.someLine, by simpa [counted] using ok.fewLines,
          by simpa [counted] using ok.permutes⟩
      constructor
      · simp [hit]
      · simp [Gfsc.tags, counted, List.map_set]
      · exact same.aseqMove (by simpa [counted] using inside)

/-- A write accesses its block. -/
theorem OrderOk.writeBlock {cache : Gfsc} (ok : OrderOk cache) (bidx : Nat) (data : Block) :
    ∃ flag next, cache.writeBlock bidx data = some (flag, next) ∧
      Accessed cache bidx flag next := by
  have few := ok.fewLines
  have inside := ok.lineOf_lt bidx
  have small : cache.lineOf bidx % 65536 = cache.lineOf bidx := Nat.mod_eq_of_lt (by omega)
  by_cases hit : cache.search bidx < cache.blocks.length
  · have line : cache.lineOf bidx = cache.search bidx := if_pos hit
    rw [line] at small
    obtain ⟨held, at_, named⟩ := Gfsc.search_hit hit (Nat.le_trans few (by decide))
    let counted : Gfsc := { cache with
      blocks := cache.blocks.set (cache.search bidx) ⟨data, bidx⟩
      disk := gfsWriteSec cache.disk (u32 (bidx * secPerBlock)) data
      wrhit := cache.wrhit + 1 }
    have same : OrderOk counted :=
      ⟨by simpa [counted] using ok.someLine, by simpa [counted] using ok.fewLines,
        by simpa [counted] using ok.permutes⟩
    refine ⟨0, counted.aseqMove (cache.search bidx), ?_, ?_⟩
    · simp [Gfsc.writeBlock, Nat.not_le.mpr hit, small, hit, modify_eq_set at_, named, counted,
        Gfsc.aseqMove]
    · constructor
      · simp [hit]
      · rw [line]
        simp [Gfsc.tags, counted, List.map_set]
      · rw [line]
        exact same.aseqMove (by simpa [counted] using hit)
  · obtain ⟨line, chosen⟩ := ok.scanOrEvict hit
    let counted : Gfsc := { cache with
      blocks := cache.blocks.set (cache.lineOf bidx) ⟨data, bidx⟩
      disk := gfsWriteSec cache.disk (u32 (bidx * secPerBlock)) data
      wrmiss := cache.wrmiss + 1 }
    have same : OrderOk counted :=
      ⟨by simpa [counted] using ok.someLine, by simpa [counted] using ok.fewLines,
        by simpa [counted] using ok.permutes⟩
    refine ⟨1, counted.aseqMove (cache.lineOf bidx), ?_, ?_⟩
    · simp [Gfsc.writeBlock, Nat.le_of_not_lt hit, chosen, small, inside, set_modify_same, counted,
        Gfsc.aseqMove]
    · constructor
      · simp [hit]
      · simp [Gfsc.tags, counted, List.map_set]
      · exact same.aseqMove (by simpa [counted] using inside)

/-! What every run keeps. -/

/-- An access keeps each line once in the order. -/
theorem OrderOk.accessed {cache next : Gfsc} (ok : OrderOk cache) {bidx flag : Nat}
    (accessed : Accessed cache bidx flag next) : OrderOk next := by
  have size := accessed.size
  refine ⟨by have := ok.someLine; omega, by have := ok.fewLines; omega, ?_⟩
  obtain ⟨front, rest, split, notFront, notRest, -⟩ := ok.around (ok.lineOf_lt bidx)
  have keeps : ∀ lines : List Nat, cache.lineOf bidx ∉ lines →
      lines.filter (fun other => other ≠ cache.lineOf bidx) = lines := by
    intro lines absent
    apply List.filter_eq_self.mpr
    intro other member
    have differ : other ≠ cache.lineOf bidx := fun same => absent (same ▸ member)
    simpa using differ
  rw [size, accessed.order]
  apply List.Perm.trans _ ok.permutes
  rw [split, List.filter_append, List.filter_cons_of_neg (by simp), keeps front notFront,
    keeps rest notRest]
  exact List.perm_middle.symm

/-- The lines touched so far, each at its last use, start the order. -/
structure Recent (touched : List Nat) (cache : Gfsc) : Prop where
  /-- The order has each line once. -/
  order : OrderOk cache
  /-- It starts with the lines touched. -/
  starts : recency touched <+: cache.lruAseq

/-- An access puts its line before the others. -/
theorem Recent.accessed {touched : List Nat} {cache next : Gfsc} (recent : Recent touched cache)
    {bidx flag : Nat} (accessed : Accessed cache bidx flag next) :
    Recent (cache.lineOf bidx :: touched) next := by
  refine ⟨recent.order.accessed accessed, ?_⟩
  rw [accessed.order]
  exact (List.prefix_cons_inj _).mpr (recent.starts.filter _)

/-- Invalidation does not change the order. -/
theorem Recent.scanAndInv {touched : List Nat} {cache : Gfsc} (recent : Recent touched cache)
    (tag : Nat) : Recent touched (cache.scanAndInv tag).2 := by
  obtain ⟨⟨someLine, fewLines, permutes⟩, starts⟩ := recent
  unfold Gfsc.scanAndInv
  split
  · exact ⟨⟨by simpa using someLine, by simpa using fewLines, by simpa using permutes⟩, starts⟩
  · exact ⟨⟨someLine, fewLines, permutes⟩, starts⟩

/-- A cache fresh from `GFS_cache_init` lists its lines in order and has touched none. -/
theorem gfsCacheInit_recent {dataLoc : Nat} {memory : Nat → Block} {disk : Disk} {start : Gfsc}
    (room : 0 < gfscBlocksNum dataLoc) (built : gfsCacheInit dataLoc memory disk = some start) :
    Recent [] start ∧ ∀ tag ∈ start.tags, tag = 0 := by
  have few := gfscBlocksNum_le dataLoc
  unfold gfsCacheInit at built
  split at built
  · simp at built
  split at built
  · simp at built
  cases built
  refine ⟨⟨⟨by simpa using room, by simpa using few, ?_⟩, List.nil_prefix⟩, ?_⟩
  · have same : ((List.range (gfscBlocksNum dataLoc)).map fun i => i % 2 ^ 16) =
        List.range (gfscBlocksNum dataLoc) := by
      apply (List.map_congr_left _).trans (List.map_id _)
      intro i member
      have inside := List.mem_range.mp member
      exact Nat.mod_eq_of_lt (by omega)
    simp only [same, List.length_map, List.length_range]
    exact List.Perm.refl _
  · simp [Gfsc.tags]

/-- Every run from a fresh cache keeps the order. -/
theorem Served.recent {start cache : Gfsc} {past : List GfscCall} {touched : List Nat}
    (fresh : Recent [] start) (served : Served start past touched cache) :
    Recent touched cache ∧ cache.blocks.length = start.blocks.length := by
  -- The induction follows the calls; each call has its own law.
  induction served with
  | start => exact ⟨fresh, rfl⟩
  | @call past touched cache next call answer before answered ih =>
    obtain ⟨recent, size⟩ := ih
    cases call with
    | read bidx =>
      obtain ⟨flag, data, after, read, accessed⟩ := recent.order.readBlock bidx
      obtain rfl : after = next := by
        simp only [gfscStep, read, Option.map_some, Option.some.injEq, Prod.mk.injEq] at answered
        exact answered.2
      exact ⟨recent.accessed accessed, accessed.size.trans size⟩
    | write bidx data =>
      obtain ⟨flag, after, written, accessed⟩ := recent.order.writeBlock bidx data
      obtain rfl : after = next := by
        simp only [gfscStep, written, Option.map_some, Option.some.injEq, Prod.mk.injEq]
          at answered
        exact answered.2
      exact ⟨recent.accessed accessed, accessed.size.trans size⟩
    | inv tag =>
      simp only [gfscStep, Option.some.injEq, Prod.mk.injEq] at answered
      obtain ⟨-, rfl⟩ := answered
      refine ⟨recent.scanAndInv tag, ?_⟩
      unfold Gfsc.scanAndInv
      split
      · simpa using size
      · exact size

/-! Hits, while no block is invalidated. -/

/-- The lines touched hold the blocks accessed last. -/
structure Holds (touched accessed : List Nat) (cache : Gfsc) : Prop where
  /-- The lines touched start the order. -/
  recent : Recent touched cache
  /-- No line but those touched is valid. -/
  valid : ∀ line < cache.blocks.length, cache.tags.getD line 0 ≠ 0 ↔ line ∈ touched
  /-- In order of their last use, they hold the last blocks accessed. -/
  blocks : (recency touched).map (fun line => cache.tags.getD line 0) =
    (recency accessed).take cache.blocks.length

/-- A block is found exactly when it is among the last accessed. -/
theorem Holds.search {touched accessed : List Nat} {cache : Gfsc}
    (holds : Holds touched accessed cache) {bidx : Nat} (nonzero : bidx ≠ 0) :
    cache.search bidx < cache.blocks.length ↔
      bidx ∈ (recency accessed).take cache.blocks.length := by
  have few := holds.recent.order.fewLines
  constructor
  · intro hit
    obtain ⟨line, at_, named⟩ := Gfsc.search_hit hit (Nat.le_trans few (by decide))
    have tag : cache.tags.getD (cache.search bidx) 0 = bidx := by
      simp [Gfsc.tags, at_, named]
    have member : cache.search bidx ∈ touched :=
      (holds.valid _ hit).mp (by rw [tag]; exact nonzero)
    rw [← holds.blocks]
    exact List.mem_map.mpr ⟨_, mem_recency.mpr member, tag⟩
  · intro early
    rw [← holds.blocks] at early
    obtain ⟨line, member, tag⟩ := List.mem_map.mp early
    by_contra miss
    have inside : line < cache.blocks.length :=
      holds.recent.order.listed.mp (holds.recent.starts.subset member)
    apply Gfsc.search_miss (Nat.le_of_not_lt miss) cache.blocks[line] (List.getElem_mem inside)
    simpa [Gfsc.tags, inside] using tag

/-- A line that is not touched leaves room in the order. -/
theorem Recent.untouched {touched : List Nat} {cache : Gfsc} (recent : Recent touched cache)
    {line : Nat} (inside : line < cache.blocks.length) (absent : line ∉ touched) :
    (recency touched).length < cache.blocks.length := by
  obtain ⟨others, split⟩ := recent.starts
  have size := recent.order.size
  have listed := recent.order.listed.mpr inside
  rw [← split] at size listed
  rcases List.mem_append.mp listed with early | late
  · exact absurd (mem_recency.mp early) absent
  · have some_ := List.length_pos_of_mem late
    rw [List.length_append] at size
    omega

/-- With every line touched, the lines touched are the whole order. -/
theorem Recent.allTouched {touched : List Nat} {cache : Gfsc} (recent : Recent touched cache)
    (all : ∀ line < cache.blocks.length, line ∈ touched) : recency touched = cache.lruAseq := by
  obtain ⟨others, split⟩ := recent.starts
  cases others with
  | nil => simpa using split
  | cons line others =>
    -- Another line in the order would be touched as well and be listed twice.
    have nodup := recent.order.nodup
    have listed : line ∈ cache.lruAseq := by
      rw [← split]
      simp
    rw [← split] at nodup
    have twice := mem_recency.mpr (all line (recent.order.listed.mp listed))
    exact absurd rfl ((List.nodup_append.mp nodup).2.2 line twice line List.mem_cons_self)

/-- The line that a missed block takes is not among those kept. -/
theorem Holds.victim {touched accessed : List Nat} {cache : Gfsc}
    (holds : Holds touched accessed cache) {bidx : Nat}
    (miss : ¬ cache.search bidx < cache.blocks.length) :
    ((recency touched).filter fun line => line ≠ cache.lineOf bidx) =
      (recency touched).take (cache.blocks.length - 1) := by
  have order := holds.recent.order
  have someLine := order.someLine
  cases found : cache.blocks.findIdx? fun line => line.tag == 0 with
  | some i =>
    -- An invalid line was never touched.
    obtain ⟨inside, invalid, -⟩ := List.findIdx?_eq_some_iff_getElem.mp found
    have line : cache.lineOf bidx = i := by simp [Gfsc.lineOf, miss, Gfsc.victim, found]
    have absent : i ∉ touched := by
      intro member
      apply (holds.valid i inside).mpr member
      simpa [Gfsc.tags, inside] using invalid
    have short := holds.recent.untouched inside absent
    rw [line, List.take_of_length_le (by omega)]
    apply List.filter_eq_self.mpr
    intro other member
    have differ : other ≠ i := fun same => absent (mem_recency.mp (same ▸ member))
    simpa using differ
  | none =>
    -- Every line is valid, so the last of the order is the line touched longest ago.
    have all : ∀ line < cache.blocks.length, line ∈ touched := by
      intro line inside
      apply (holds.valid line inside).mp
      have valid := List.findIdx?_eq_none_iff.mp found cache.blocks[line] (List.getElem_mem inside)
      simpa [Gfsc.tags, inside] using valid
    have whole := holds.recent.allTouched all
    have size := order.size
    have last : cache.blocks.length - 1 < cache.lruAseq.length := by omega
    have line : cache.lineOf bidx = cache.lruAseq[cache.blocks.length - 1] := by
      simp [Gfsc.lineOf, miss, Gfsc.victim, found, u32Sub_of_le someLine, last]
    rw [line, whole]
    have tail : cache.lruAseq.drop (cache.blocks.length - 1) =
        [cache.lruAseq[cache.blocks.length - 1]] := by
      rw [List.drop_eq_getElem_cons last, List.drop_of_length_le (by omega)]
    have split := List.take_append_drop (cache.blocks.length - 1) cache.lruAseq
    rw [tail] at split
    have nodup := order.nodup
    rw [← split] at nodup
    have apart := (List.nodup_append.mp nodup).2.2
    calc
      _ = (cache.lruAseq.take (cache.blocks.length - 1) ++
          [cache.lruAseq[cache.blocks.length - 1]]).filter _ := congrArg _ split.symm
      _ = (cache.lruAseq.take (cache.blocks.length - 1)).filter _ := by
        rw [List.filter_append, List.filter_cons_of_neg (by simp), List.filter_nil,
          List.append_nil]
      _ = cache.lruAseq.take (cache.blocks.length - 1) := by
        apply List.filter_eq_self.mpr
        intro other member
        simpa using apart other member _ (List.mem_singleton_self _)

/-- An access to a block keeps what the lines hold. -/
theorem Holds.accessed {touched accessed : List Nat} {cache next : Gfsc}
    (holds : Holds touched accessed cache) {bidx flag : Nat} (nonzero : bidx ≠ 0)
    (access : Accessed cache bidx flag next) :
    Holds (cache.lineOf bidx :: touched) (bidx :: accessed) next := by
  have order := holds.recent.order
  have inside := order.lineOf_lt bidx
  have size := access.size
  have retagged : ∀ line, next.tags.getD line 0 =
      if line = cache.lineOf bidx then bidx else cache.tags.getD line 0 := by
    intro line
    rw [access.tags, List.getD_eq_getElem?_getD, List.getElem?_set]
    by_cases same : cache.lineOf bidx = line
    · subst same
      simp [inside]
    · have other : line ≠ cache.lineOf bidx := fun equal => same equal.symm
      simp [same, other]
  refine ⟨holds.recent.accessed access, ?_, ?_⟩
  · intro line isLine
    rw [retagged, List.mem_cons]
    by_cases same : line = cache.lineOf bidx
    · simp [same, nonzero]
    · rw [if_neg same]
      have before := holds.valid line (by omega)
      constructor
      · intro valid
        exact Or.inr (before.mp valid)
      · rintro (equal | member)
        · exact absurd equal same
        · exact before.mpr member
  · -- Behind the new line stand the old ones without it, with their old tags.
    have others : ((recency touched).filter fun line => line ≠ cache.lineOf bidx).map
        (fun line => cache.tags.getD line 0) =
        ((recency accessed).filter fun other => other ≠ bidx).take
          (cache.blocks.length - 1) := by
      by_cases hit : cache.search bidx < cache.blocks.length
      · have early := (holds.search nonzero).mp hit
        rw [filter_take (nodup_recency accessed) early, ← holds.blocks, List.filter_map]
        congr 1
        -- Lines with different tags differ, and the tags of the lines touched differ.
        have differ : ((recency touched).map fun line => cache.tags.getD line 0).Nodup := by
          rw [holds.blocks]
          exact (nodup_recency accessed).sublist (List.take_sublist _ _)
        have tag : cache.tags.getD (cache.lineOf bidx) 0 = bidx := by
          have unchanged := Gfsc.tags_hit order.fewLines hit
          have same := congrArg (fun tags => tags.getD (cache.lineOf bidx) 0) unchanged
          simpa [inside] using same.symm
        have mine : cache.lineOf bidx ∈ recency touched := by
          apply mem_recency.mpr
          apply (holds.valid _ inside).mp
          rw [tag]
          exact nonzero
        apply List.filter_congr
        intro line member
        have injective : cache.tags.getD line 0 = bidx → line = cache.lineOf bidx := by
          intro equal
          exact List.inj_on_of_nodup_map differ member mine (equal.trans tag.symm)
        by_cases same : line = cache.lineOf bidx
        · simpa [same] using tag
        · have other : cache.tags.getD line 0 ≠ bidx := fun equal => same (injective equal)
          simpa [same] using other
      · have late : bidx ∉ (recency accessed).take cache.blocks.length :=
          fun early => hit ((holds.search nonzero).mpr early)
        have fewer : min (cache.blocks.length - 1) cache.blocks.length =
            cache.blocks.length - 1 := by omega
        calc
          _ = ((recency touched).take (cache.blocks.length - 1)).map _ := by
            rw [holds.victim hit]
          _ = ((recency accessed).take cache.blocks.length).take (cache.blocks.length - 1) := by
            rw [List.map_take, holds.blocks]
          _ = (recency accessed).take (cache.blocks.length - 1) := by
            rw [List.take_take, fewer]
          _ = _ := (filter_take_absent late).symm
    have lines : cache.blocks.length = cache.blocks.length - 1 + 1 := by
      have := order.someLine
      omega
    have first : next.tags.getD (cache.lineOf bidx) 0 = bidx := by
      rw [retagged, if_pos rfl]
    have kept : ((recency touched).filter fun line => line ≠ cache.lineOf bidx).map
        (fun line => next.tags.getD line 0) =
        ((recency touched).filter fun line => line ≠ cache.lineOf bidx).map
          (fun line => cache.tags.getD line 0) := by
      apply List.map_congr_left
      intro line member
      have differ : line ≠ cache.lineOf bidx := by simpa using (List.mem_filter.mp member).2
      rw [retagged, if_neg differ]
    rw [size, recency, recency, List.map_cons, first, kept, others, lines, List.take_succ_cons]
    simp

/-- Without invalidation and block 0, every run keeps what the lines hold. -/
theorem Served.holds {start cache : Gfsc} {past : List GfscCall} {touched : List Nat}
    (fresh : Recent [] start) (invalid : ∀ tag ∈ start.tags, tag = 0)
    (served : Served start past touched cache)
    (legal : ∀ call ∈ past, ∃ bidx, call.accesses = [bidx] ∧ bidx ≠ 0) :
    Holds touched (past.flatMap GfscCall.accesses) cache := by
  induction served with
  | start =>
    refine ⟨fresh, ?_, by simp [recency]⟩
    intro line inside
    have tag := invalid _ (List.getElem_mem (by simpa using inside : line < start.tags.length))
    simp [inside, tag]
  | @call past touched cache next call answer before answered ih =>
    have holds := ih fun call member => legal call (List.mem_cons_of_mem _ member)
    obtain ⟨bidx, accesses, nonzero⟩ := legal call List.mem_cons_self
    cases call with
    | read bidx =>
      obtain rfl : bidx = _ := List.cons.inj accesses |>.1
      obtain ⟨flag, data, after, read, accessed⟩ := holds.recent.order.readBlock bidx
      obtain rfl : after = next := by
        simp only [gfscStep, read, Option.map_some, Option.some.injEq, Prod.mk.injEq] at answered
        exact answered.2
      exact holds.accessed nonzero accessed
    | write bidx data =>
      obtain rfl : bidx = _ := List.cons.inj accesses |>.1
      obtain ⟨flag, after, written, accessed⟩ := holds.recent.order.writeBlock bidx data
      obtain rfl : after = next := by
        simp only [gfscStep, written, Option.map_some, Option.some.injEq, Prod.mk.injEq]
          at answered
        exact answered.2
      exact holds.accessed nonzero accessed
    | inv tag => simp [GfscCall.accesses] at accesses

/-- An access hits exactly the blocks accessed recently. -/
theorem Holds.hits {touched : List Nat} {past : List GfscCall} {cache next : Gfsc}
    (holds : Holds touched (past.flatMap GfscCall.accesses) cache) {bidx flag : Nat}
    (nonzero : bidx ≠ 0) (access : Accessed cache bidx flag next) :
    flag = 0 ↔ RecentlyAccessed past cache.blocks.length bidx := by
  rw [access.hit, holds.search nonzero]
  exact mem_take_recency

/-- From a fresh cache with lines, the order is that of the last uses. -/
theorem lru_ordered {dataLoc : Nat} {memory : Nat → Block} {disk : Disk} {start : Gfsc}
    (room : 0 < gfscBlocksNum dataLoc) (built : gfsCacheInit dataLoc memory disk = some start) :
    LruOrdered start fun bidx => bidx ≠ 0 := by
  obtain ⟨fresh, invalid⟩ := gfsCacheInit_recent room built
  constructor
  · intro past touched cache served
    obtain ⟨recent, size⟩ := served.recent fresh
    rw [← size]
    exact recent.order.permutes
  · intro past touched cache served
    exact (served.recent fresh).1.starts
  · intro past touched cache served call
    obtain ⟨recent, size⟩ := served.recent fresh
    cases call with
    | read bidx =>
      obtain ⟨flag, data, next, read, -⟩ := recent.order.readBlock bidx
      refine ⟨⟨some data, next, by simp [gfscStep, read]⟩, ?_⟩
      intro line member
      obtain rfl := List.mem_singleton.mp member
      exact recent.order.noPanic (recent.order.lineOf_lt bidx)
    | write bidx data =>
      obtain ⟨flag, next, written, -⟩ := recent.order.writeBlock bidx data
      refine ⟨⟨none, next, by simp [gfscStep, written]⟩, ?_⟩
      intro line member
      obtain rfl := List.mem_singleton.mp member
      exact recent.order.noPanic (recent.order.lineOf_lt bidx)
    | inv tag => exact ⟨⟨none, _, rfl⟩, by simp [Gfsc.touches]⟩
  · intro past touched cache served legal bidx flag data next nonzero read
    have holds := served.holds fresh invalid legal
    obtain ⟨flag', data', next', read', accessed⟩ := holds.recent.order.readBlock bidx
    rw [read] at read'
    simp only [Option.some.injEq, Prod.mk.injEq] at read'
    obtain ⟨⟨rfl, -⟩, rfl⟩ := read'
    rw [← (served.recent fresh).2]
    exact holds.hits nonzero accessed
  · intro past touched cache served legal bidx data flag next nonzero written
    have holds := served.holds fresh invalid legal
    obtain ⟨flag', next', written', accessed⟩ := holds.recent.order.writeBlock bidx data
    rw [written] at written'
    obtain ⟨rfl, rfl⟩ := Prod.mk.inj (Option.some.inj written')
    rw [← (served.recent fresh).2]
    exact holds.hits nonzero accessed

/-- The layout `GFS_init` writes has lines. -/
theorem lru_ordered_dataLoc : ∃ start,
    gfsCacheInit dataLoc (fun _ _ => 0) (fun _ _ => 0) = some start ∧
      LruOrdered start fun bidx => bidx ≠ 0 :=
  ⟨_, rfl, lru_ordered (show 0 < gfscBlocksNum dataLoc by decide) rfl⟩

/-- The tag of block 0 marks an invalid line, so its first access finds one and hits. -/
theorem lru_not_ordered : ¬ ∀ (dataLoc : Nat) (memory : Nat → Block) (disk : Disk) (start : Gfsc),
    0 < gfscBlocksNum dataLoc → gfsCacheInit dataLoc memory disk = some start →
      LruOrdered start fun _ => True := by
  intro claim
  obtain ⟨start, built⟩ : ∃ start,
      gfsCacheInit dataLoc (fun _ _ => 0) (fun _ _ => 0) = some start := ⟨_, rfl⟩
  have room : 0 < gfscBlocksNum dataLoc := by decide
  have ordered := claim _ _ _ _ room built
  obtain ⟨fresh, invalid⟩ := gfsCacheInit_recent room built
  obtain ⟨flag, data, next, read, accessed⟩ := fresh.order.readBlock 0
  have someLine := fresh.order.someLine
  have few := fresh.order.fewLines
  have hit : start.search 0 < start.blocks.length := by
    by_contra miss
    apply Gfsc.search_miss (Nat.le_of_not_lt miss) start.blocks[0] (List.getElem_mem someLine)
    exact invalid _ (List.mem_map_of_mem (List.getElem_mem someLine))
  have never := ordered.readHits [] [] start .start (by simp) 0 flag data next trivial read
  simpa [RecentlyAccessed] using never.mp (accessed.hit.mpr hit)

end GlucOS
