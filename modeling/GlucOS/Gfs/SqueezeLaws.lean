import GlucOS.Gfs.SplitLaws

/-! `path_squeeze` against the lexical normal form of a path. -/

namespace GlucOS

/-- A component of a path: not empty, and without slash or zero. -/
structure IsComponent (name : CharBuf) : Prop where
  /-- There is a character. -/
  nonempty : name ≠ []
  /-- No character ends the component. -/
  clean : IsPart name

instance (name : CharBuf) : Decidable (IsComponent name) :=
  decidable_of_iff (name ≠ [] ∧ ∀ c ∈ name, c ≠ 0 ∧ c ≠ slash)
    ⟨fun both => ⟨both.1, both.2⟩, fun component => ⟨component.nonempty, component.clean⟩⟩

/-- Components other than `.` and `..`. -/
def properName (name : CharBuf) : Bool := name ≠ dotName && name ≠ dotDotName

/-- Components with single slashes between them, and one behind the last when `trailing`. -/
def joined : List CharBuf → Bool → CharBuf
  | [], _ => []
  | [name], trailing => if trailing then name ++ [slash] else name
  | name :: next :: names, trailing => name ++ slash :: joined (next :: names) trailing

/-! ## The normal form -/

/-- One component on the stack of those left, which are known with their places. -/
def stackStep (stack : List (CharBuf × Nat)) (entry : CharBuf × Nat) : List (CharBuf × Nat) :=
  if entry.1 = dotDotName then stack.dropLast
  else if entry.1 = dotName then stack
  else stack ++ [entry]

/-- The components left on the stack, with their places. -/
def stackLeft (names : List CharBuf) : List (CharBuf × Nat) := names.zipIdx.foldl stackStep []

/-- The absolute path with the components left on the stack. -/
def normalPath (names : List CharBuf) : CharBuf :=
  slash :: joined ((stackLeft names).map Prod.fst) false

/-- One more component takes one more step. -/
theorem stackLeft_concat (names : List CharBuf) (name : CharBuf) :
    stackLeft (names ++ [name]) = stackStep (stackLeft names) (name, names.length) := by
  simp [stackLeft, List.zipIdx_append]

/-! ## What the scan strikes out -/

/--
Where `j + 1` stands after these components.

The last name puts it behind itself, and each `..` after that name steps back by one place,
whatever stands there.
-/
def scanCursor (before : List CharBuf) : Nat :=
  let run := before.reverse.takeWhile fun name => !properName name
  before.length - run.length - run.count dotDotName

/-- A `..` among the components meets place `k`. -/
def struck (names : List CharBuf) (k : Nat) : Bool :=
  (List.range names.length).any fun i =>
    names[i]? == some dotDotName && scanCursor (names.take i) == k + 1

/-- The names that are not struck, with their places. -/
def unstruck (names : List CharBuf) : List (CharBuf × Nat) :=
  names.zipIdx.filter fun (name, k) => properName name && !struck names k

/--
When `path_squeeze` is right.

Every name that the stack pops is struck, too; with more components than `fnames[]` has room for,
the first of them happen to leave what all of them leave.
-/
def SqueezeSafe (names : List CharBuf) : Prop :=
  if names.length ≤ squeezeMax then
    ∀ name k, (name, k) ∈ names.zipIdx → properName name = true →
      (name, k) ∉ stackLeft names → struck names k = true
  else
    (unstruck (names.take squeezeMax)).map Prod.fst = (stackLeft names).map Prod.fst

/-- A name puts the cursor behind itself. -/
theorem scanCursor_proper (before : List CharBuf) {name : CharBuf}
    (proper : properName name = true) :
    scanCursor (before ++ [name]) = before.length + 1 := by
  simp [scanCursor, proper]

/-- A dot leaves the cursor where it is. -/
theorem scanCursor_dot (before : List CharBuf) :
    scanCursor (before ++ [dotName]) = scanCursor before := by
  have plain : properName dotName = false := by decide
  have other : dotName ≠ dotDotName := by decide
  simp [scanCursor, plain, other]

/-- Two dots move the cursor back. -/
theorem scanCursor_dotDot (before : List CharBuf) :
    scanCursor (before ++ [dotDotName]) = scanCursor before - 1 := by
  have plain : properName dotDotName = false := by decide
  simp only [scanCursor, List.reverse_append, List.reverse_singleton, List.singleton_append,
    List.takeWhile_cons, plain, Bool.not_false, if_true, List.length_append, List.length_nil,
    List.length_cons, List.count_cons_self]
  omega

/-- The cursor stays within the components. -/
theorem scanCursor_le (before : List CharBuf) : scanCursor before ≤ before.length := by
  simp only [scanCursor]
  omega

/-- A component that is struck stands before the one that strikes it. -/
theorem struck_lt {names : List CharBuf} {k : Nat} (isStruck : struck names k = true) :
    k < names.length := by
  simp only [struck, List.any_eq_true, List.mem_range, Bool.and_eq_true, beq_iff_eq] at isStruck
  obtain ⟨i, inside, -, meets⟩ := isStruck
  have bound := scanCursor_le (names.take i)
  rw [List.length_take] at bound
  omega

/-- One more component strikes one more place at most. -/
theorem struck_concat (names : List CharBuf) (name : CharBuf) (k : Nat) :
    struck (names ++ [name]) k =
      (struck names k || (name == dotDotName && scanCursor names == k + 1)) := by
  have earlier : ((List.range names.length).any fun i =>
      (names ++ [name])[i]? == some dotDotName &&
        scanCursor ((names ++ [name]).take i) == k + 1) = struck names k := by
    rw [Bool.eq_iff_iff, struck, List.any_eq_true, List.any_eq_true]
    apply exists_congr
    intro i
    apply and_congr_right
    intro inside
    have early := List.mem_range.mp inside
    rw [List.getElem?_append_left early, List.take_append_of_le_length (by omega)]
  rw [struck, List.length_append, List.length_singleton, List.range_succ, List.any_append, earlier]
  simp

/-! ## What the stack leaves is never struck -/

/-- Components on the stack stand in order, before the cursor, and are not struck. -/
structure StackOk (names : List CharBuf) : Prop where
  /-- They are components, each a name. -/
  named : ∀ entry ∈ stackLeft names, entry ∈ names.zipIdx ∧ properName entry.1 = true
  /-- Their places increase. -/
  ordered : (stackLeft names).Pairwise fun first second => first.2 < second.2
  /-- The cursor is behind them. -/
  behind : ∀ entry ∈ stackLeft names, entry.2 < scanCursor names
  /-- None is struck. -/
  kept : ∀ entry ∈ stackLeft names, struck names entry.2 = false

/-- What the stack leaves is never struck. -/
theorem stackOk (names : List CharBuf) : StackOk names := by
  -- The induction follows the components; the stack's top is never behind the cursor.
  induction names using List.reverseRecOn with
  | nil => constructor <;> simp [stackLeft]
  | append_singleton names name ih =>
    have places : ∀ entry ∈ stackLeft names, entry.2 < names.length := by
      intro entry member
      have bound := scanCursor_le names
      have := ih.behind entry member
      omega
    have older : ∀ entry ∈ names.zipIdx, entry ∈ (names ++ [name]).zipIdx := by
      intro entry member
      rw [List.zipIdx_append]
      exact List.mem_append_left _ member
    by_cases up : name = dotDotName
    · subst up
      have stack : stackLeft (names ++ [dotDotName]) = (stackLeft names).dropLast := by
        simp [stackLeft_concat, stackStep]
      have old : ∀ entry ∈ stackLeft (names ++ [dotDotName]), entry ∈ stackLeft names := by
        intro entry member
        rw [stack] at member
        exact List.mem_of_mem_dropLast member
      -- What remains stands before the entry popped, and that before the cursor.
      have below : ∀ entry ∈ stackLeft (names ++ [dotDotName]),
          entry.2 + 1 < scanCursor names := by
        intro entry member
        rw [stack] at member
        rcases List.eq_nil_or_concat (stackLeft names) with none_ | ⟨front, top, split⟩
        · simp [none_] at member
        · have ordered := ih.ordered
          have last := ih.behind top (by simp [split])
          rw [split, List.concat_eq_append] at member ordered
          rw [List.dropLast_concat] at member
          have before := (List.pairwise_append.mp ordered).2.2 entry member top (by simp)
          omega
      constructor
      · intro entry member
        have := ih.named entry (old entry member)
        exact ⟨older entry this.1, this.2⟩
      · rw [stack]
        exact ih.ordered.sublist (List.dropLast_sublist _)
      · intro entry member
        rw [scanCursor_dotDot]
        have := below entry member
        omega
      · intro entry member
        rw [struck_concat, ih.kept entry (old entry member)]
        have := below entry member
        simp
        omega
    by_cases stay : name = dotName
    · subst stay
      have stack : stackLeft (names ++ [dotName]) = stackLeft names := by
        simp [stackLeft_concat, stackStep, up]
      constructor
      · intro entry member
        rw [stack] at member
        exact ⟨older entry (ih.named entry member).1, (ih.named entry member).2⟩
      · rw [stack]
        exact ih.ordered
      · intro entry member
        rw [stack] at member
        rw [scanCursor_dot]
        exact ih.behind entry member
      · intro entry member
        rw [stack] at member
        rw [struck_concat, ih.kept entry member]
        simp [up]
    · have proper : properName name = true := by simp [properName, up, stay]
      have stack : stackLeft (names ++ [name]) = stackLeft names ++ [(name, names.length)] := by
        simp [stackLeft_concat, stackStep, up, stay]
      have either : ∀ entry ∈ stackLeft (names ++ [name]),
          entry ∈ stackLeft names ∨ entry = (name, names.length) := by
        intro entry member
        rw [stack] at member
        simpa using member
      constructor
      · intro entry member
        rcases either entry member with old | rfl
        · exact ⟨older entry (ih.named entry old).1, (ih.named entry old).2⟩
        · exact ⟨by simp [List.zipIdx_append], proper⟩
      · rw [stack, List.pairwise_append]
        refine ⟨ih.ordered, List.pairwise_singleton _ _, ?_⟩
        intro first isFirst second isSecond
        rw [List.mem_singleton.mp isSecond]
        exact places first isFirst
      · intro entry member
        rw [scanCursor_proper names proper]
        rcases either entry member with old | rfl
        · have := places entry old
          omega
        · exact Nat.lt_succ_self _
      · intro entry member
        rw [struck_concat]
        rcases either entry member with old | rfl
        · simp [ih.kept entry old, up]
        · have fresh : struck names names.length = false := by
            by_contra isStruck
            have := struck_lt (by simpa using isStruck)
            omega
          simp [fresh, up]

/-- The components stand in the order of their places. -/
theorem zipIdx_ordered (names : List CharBuf) :
    names.zipIdx.Pairwise fun first second => first.2 < second.2 := by
  have places : (names.zipIdx.map Prod.snd).Pairwise (· < ·) := by
    rw [List.zipIdx_map_snd]
    exact List.pairwise_lt_range'
  exact List.pairwise_map.mp places

/-- Entries in the order of their places are listed once. -/
theorem nodup_of_ordered {entries : List (CharBuf × Nat)}
    (ordered : entries.Pairwise fun first second => first.2 < second.2) : entries.Nodup := by
  apply ordered.imp
  rintro first second before rfl
  omega

/-- What is not struck is what the stack leaves exactly when every name popped is struck. -/
theorem unstruck_iff (names : List CharBuf) :
    (unstruck names).map Prod.fst = (stackLeft names).map Prod.fst ↔
      ∀ name k, (name, k) ∈ names.zipIdx → properName name = true →
        (name, k) ∉ stackLeft names → struck names k = true := by
  have ok := stackOk names
  have ordered : (unstruck names).Pairwise fun first second => first.2 < second.2 :=
    (zipIdx_ordered names).filter _
  have within : stackLeft names ⊆ unstruck names := by
    intro entry member
    obtain ⟨listed, proper⟩ := ok.named entry member
    apply List.mem_filter.mpr
    exact ⟨listed, by simp [proper, ok.kept entry member]⟩
  have fits := (nodup_of_ordered ok.ordered).subperm within
  constructor
  · intro same name k listed proper popped
    -- Equally many entries are the same entries.
    have size := congrArg List.length same
    rw [List.length_map, List.length_map] at size
    have perm := fits.perm_of_length_le (by omega)
    by_contra spared
    apply popped
    apply perm.mem_iff.mpr
    apply List.mem_filter.mpr
    exact ⟨listed, by simpa [proper] using spared⟩
  · intro allStruck
    have back : unstruck names ⊆ stackLeft names := by
      rintro ⟨name, k⟩ member
      obtain ⟨listed, left⟩ := List.mem_filter.mp member
      simp only [Bool.and_eq_true, Bool.not_eq_true'] at left
      by_contra popped
      have isStruck := allStruck name k listed left.1 popped
      rw [left.2] at isStruck
      cases isStruck
    have perm := fits.antisymm ((nodup_of_ordered ordered).subperm back)
    congr 1
    apply (List.Perm.eq_of_pairwise _ ok.ordered ordered perm).symm
    intro first second _ _ before after
    omega

/-! ## The scan -/

/-- The array that the scan leaves: null, except at names that are not struck. -/
def marks (entries : List (Nat × CharBuf)) : List (Option Nat) :=
  entries.zipIdx.map fun ((p, name), k) =>
    if properName name && !struck (entries.map Prod.snd) k then some p else none

/-- The array has an entry for each component. -/
@[simp] theorem marks_length (entries : List (Nat × CharBuf)) :
    (marks entries).length = entries.length := by
  simp [marks]

/-- An entry of the array. -/
theorem marks_getElem? (entries : List (Nat × CharBuf)) (k : Nat) :
    (marks entries)[k]? = entries[k]?.map fun (p, name) =>
      if properName name && !struck (entries.map Prod.snd) k then some p else none := by
  simp only [marks, List.getElem?_map, List.getElem?_zipIdx, Option.map_map, Nat.zero_add]
  rfl

/-- No component is struck at its own place or behind. -/
theorem struck_end (names : List CharBuf) : struck names names.length = false := by
  by_contra isStruck
  have before := struck_lt (by simpa using isStruck)
  omega

/-- One more component adds an entry, and may strike an earlier one. -/
theorem marks_concat (before : List (Nat × CharBuf)) (p : Nat) (name : CharBuf) :
    marks (before ++ [(p, name)]) =
      (if name = dotDotName ∧ 0 < scanCursor (before.map Prod.snd) then
        (marks before).set (scanCursor (before.map Prod.snd) - 1) none
      else marks before) ++ [if properName name then some p else none] := by
  have bound := scanCursor_le (before.map Prod.snd)
  rw [List.length_map] at bound
  apply List.ext_getElem?
  intro k
  rw [marks_getElem?, List.map_append, List.map_singleton]
  simp only [struck_concat]
  rcases Nat.lt_trichotomy k before.length with early | last | late
  · -- An earlier entry is cleared when the cursor is right behind it.
    rw [List.getElem?_append_left early]
    by_cases strikes : name = dotDotName ∧ 0 < scanCursor (before.map Prod.snd)
    · rw [if_pos strikes, List.getElem?_append_left (by simpa using early), List.getElem?_set,
        marks_getElem?, List.getElem?_eq_getElem early]
      by_cases met : scanCursor (before.map Prod.snd) = k + 1
      · simp [met, strikes.1, early]
      · have apart : ¬ scanCursor (before.map Prod.snd) - 1 = k := by omega
        simp [met, apart]
    · rw [if_neg strikes, List.getElem?_append_left (by simpa using early), marks_getElem?,
        List.getElem?_eq_getElem early]
      by_cases up : name = dotDotName
      · have low : ¬ scanCursor (before.map Prod.snd) = k + 1 := by
          intro met
          exact strikes ⟨up, by omega⟩
        simp [low]
      · simp [up]
  · subst last
    have notMet : ¬ scanCursor (before.map Prod.snd) = before.length + 1 := by omega
    have fresh : struck (before.map Prod.snd) before.length = false := by
      simpa using struck_end (before.map Prod.snd)
    have size : (if name = dotDotName ∧ 0 < scanCursor (before.map Prod.snd) then
        (marks before).set (scanCursor (before.map Prod.snd) - 1) none
        else marks before).length = before.length := by
      split <;> simp
    rw [List.getElem?_append_right (Nat.le_refl _), List.getElem?_append_right (by omega), size]
    simp [notMet, fresh]
  · rw [List.getElem?_eq_none (by simpa using late), List.getElem?_eq_none]
    · rfl
    · split <;> simpa using late

/-- The scan strikes what the cursor meets. -/
theorem squeezeScan_eq {buf : CharBuf} (left : List (Nat × CharBuf)) :
    ∀ before, (∀ entry ∈ left, cstr buf entry.1 = entry.2) →
      squeezeScan buf (left.map Prod.fst) (marks before) (scanCursor (before.map Prod.snd)) =
        marks (before ++ left) := by
  -- The induction follows what is left, and one component moves over in each step.
  induction left with
  | nil => intro before _; simp [squeezeScan]
  | cons entry left ih =>
    intro before reads
    obtain ⟨p, name⟩ := entry
    have here : cstr buf p = name := reads (p, name) List.mem_cons_self
    have step := ih (before ++ [(p, name)]) fun entry member =>
      reads entry (List.mem_cons_of_mem _ member)
    rw [List.append_assoc, List.singleton_append, List.map_append, marks_concat] at step
    rw [← step]
    simp only [List.map_cons, List.map_nil, squeezeScan, here]
    by_cases up : name = dotDotName
    · subst up
      have plain : properName dotDotName = false := by decide
      rw [if_pos rfl, scanCursor_dotDot]
      by_cases above : 0 < scanCursor (before.map Prod.snd)
      · simp [above, plain]
      · have zero : scanCursor (before.map Prod.snd) = 0 := by omega
        simp [zero, plain]
    rw [if_neg up]
    by_cases stay : name = dotName
    · subst stay
      have plain : properName dotName = false := by decide
      rw [if_pos rfl, scanCursor_dot]
      simp [up, plain]
    · have proper : properName name = true := by simp [properName, up, stay]
      rw [if_neg stay, scanCursor_proper _ proper]
      simp [up, proper]

/-! ## Splitting -/

/-- Joined components are parts with slashes behind them, and perhaps one without. -/
theorem joined_parts {names : List CharBuf} (components : ∀ name ∈ names, IsComponent name)
    (trailing : Bool) : ∃ parts last, joined names trailing = slashed parts ++ last ∧
      named parts last = names := by
  induction names with
  | nil => exact ⟨[], [], rfl, rfl⟩
  | cons name names ih =>
    cases names with
    | nil =>
      cases trailing with
      | false =>
        have nonempty := (components name List.mem_cons_self).nonempty
        exact ⟨[], name, by simp [joined, slashed], by simp [named, nonempty]⟩
      | true => exact ⟨[name], [], by simp [joined, slashed], by simp [named]⟩
    | cons next names =>
      obtain ⟨parts, last, text, same⟩ :=
        ih fun name member => components name (List.mem_cons_of_mem _ member)
      refine ⟨name :: parts, last, ?_, ?_⟩
      · rw [joined, text]
        simp [slashed]
      · rw [named_cons, same]

/-- Splitting finds the first components, and each of them ends with a zero then. -/
theorem split_joined {pmax : Nat} {names : List CharBuf}
    (components : ∀ name ∈ names, IsComponent name) (trailing : Bool) (behind : CharBuf)
    (room : 0 < pmax) : ∃ rest,
      split slash pmax (joined names trailing ++ 0 :: behind) 0 true 0 =
        ((placed 0 (names.take pmax)).map Prod.fst, ended (names.take pmax) ++ rest) := by
  obtain ⟨parts, last, text, same⟩ := joined_parts components trailing
  rw [text, List.append_assoc]
  have clean : ∀ part ∈ named parts last, IsPart part := by
    rw [same]
    exact fun name member => (components name member).clean
  obtain ⟨cleanParts, cleanLast⟩ := named_parts.mp clean
  obtain ⟨rest, found⟩ := split_parts parts last behind 0 0 room cleanParts cleanLast
  rw [Nat.sub_zero, same] at found
  exact ⟨rest, found⟩


/-! ## Joining -/

/-- Copying a name forward leaves what is behind it alone. -/
theorem squeezeCopy_eq (name : CharBuf) (clean : ∀ c ∈ name, c ≠ 0) :
    ∀ fuel path l p rest, path.drop p = name ++ 0 :: rest → l ≤ p → name.length ≤ fuel →
      ∃ next, squeezeCopy fuel path l p = (l + name.length, next) ∧
        next.length = path.length ∧ next.take (l + name.length) = path.take l ++ name ∧
        next.drop (p + name.length) = 0 :: rest := by
  -- The induction follows the characters left; the target is never ahead of the source.
  induction name with
  | nil =>
    intro fuel path l p rest holds before _
    have zero : path.getD p 0 = 0 := by
      have first := congrArg (fun s => s.getD 0 0) holds
      simpa using first
    refine ⟨path, ?_, rfl, by simp, by simpa using holds⟩
    cases fuel with
    | zero => rfl
    | succ fuel => simp only [squeezeCopy, zero, if_true, List.length_nil, Nat.add_zero]
  | cons c name ih =>
    intro fuel path l p rest holds before fits
    obtain ⟨fuel, rfl⟩ : ∃ less, fuel = less + 1 := ⟨fuel - 1, by simp at fits; omega⟩
    have first : path.getD p 0 = c := by
      have here := congrArg (fun s => s.getD 0 0) holds
      simpa using here
    have inside : p < path.length := by
      have size := congrArg List.length holds
      simp only [List.length_drop, List.length_append, List.length_cons] at size
      omega
    have nonzero : c ≠ 0 := clean c List.mem_cons_self
    have behind : (path.set l c).drop (p + 1) = name ++ 0 :: rest := by
      rw [List.drop_set_of_lt (by omega), ← List.drop_drop, holds]
      rfl
    obtain ⟨next, copied, size, front, back⟩ :=
      ih (fun c member => clean c (List.mem_cons_of_mem _ member)) fuel (path.set l c) (l + 1)
        (p + 1) rest behind (by omega) (by simp at fits; omega)
    have more : l + 1 + name.length = l + (c :: name).length := by
      simp only [List.length_cons]
      omega
    have farther : p + 1 + name.length = p + (c :: name).length := by
      simp only [List.length_cons]
      omega
    refine ⟨next, ?_, by simpa using size, ?_, ?_⟩
    · rw [squeezeCopy, first, if_neg nonzero, copied, more]
    · rw [← more, front, List.take_add_one, List.take_set_of_le (Nat.le_refl l),
        List.getElem?_set_self (by omega)]
      simp
    · rw [← farther]
      exact back

/-- Joining writes the names left in front of the rest of the buffer. -/
theorem squeezeJoin_eq (keep : CharBuf → Nat → Bool) (names : List CharBuf) :
    ∀ start base l path rest, path.drop base = ended names ++ rest → l ≤ base →
      (∀ name ∈ names, IsComponent name) → ∃ next,
        squeezeJoin (((placed base names).zipIdx start).map fun ((p, name), k) =>
            if keep name k then some p else none) l path =
          (l + (slashed (((names.zipIdx start).filter fun (name, k) => keep name k).map
            Prod.fst)).length, next) ∧
        next.length = path.length ∧
        next.take (l + (slashed (((names.zipIdx start).filter fun (name, k) => keep name k).map
            Prod.fst)).length) =
          path.take l ++ slashed (((names.zipIdx start).filter fun (name, k) => keep name k).map
            Prod.fst) := by
  induction names with
  | nil =>
    intro start base l path rest _ _ _
    exact ⟨path, by simp [placed, squeezeJoin, slashed], rfl, by simp [slashed]⟩
  | cons name names ih =>
    intro start base l path rest holds before components
    have component := components name List.mem_cons_self
    have others : ∀ name ∈ names, IsComponent name :=
      fun name member => components name (List.mem_cons_of_mem _ member)
    have here : path.drop base = name ++ 0 :: (ended names ++ rest) := by
      rw [holds]
      simp [ended]
    have behind : path.drop (base + name.length + 1) = ended names ++ rest := by
      rw [Nat.add_assoc, ← List.drop_drop, here]
      simp
    cases kept : keep name start with
    | false =>
      obtain ⟨next, joins, size, front⟩ :=
        ih (start + 1) (base + name.length + 1) l path rest behind (by omega) others
      refine ⟨next, ?_, size, ?_⟩
      · simpa [placed, squeezeJoin, kept] using joins
      · simpa [kept] using front
    | true =>
      have fits : name.length ≤ path.length := by
        have size := congrArg List.length here
        simp only [List.length_drop, List.length_append, List.length_cons] at size
        omega
      obtain ⟨copy, copied, copySize, copyFront, copyBack⟩ := squeezeCopy_eq name
        (fun c member => (component.clean c member).1) path.length path l base
        (ended names ++ rest) here before fits
      -- The slash lands on the zero behind the name at the latest.
      have stays : (copy.set (l + name.length) slash).drop (base + name.length + 1) =
          ended names ++ rest := by
        rw [List.drop_set_of_lt (by omega), ← List.drop_drop, copyBack]
        rfl
      obtain ⟨next, joins, size, front⟩ := ih (start + 1) (base + name.length + 1)
        (l + name.length + 1) (copy.set (l + name.length) slash) rest stays (by omega) others
      have room : l + name.length < copy.length := by
        have length := congrArg List.length copyBack
        simp only [List.length_drop, List.length_cons] at length
        omega
      have written : (copy.set (l + name.length) slash).take (l + name.length + 1) =
          path.take l ++ (name ++ [slash]) := by
        rw [List.take_add_one, List.take_set_of_le (Nat.le_refl _), copyFront,
          List.getElem?_set_self room]
        simp
      have text : slashed ((((name, start) :: names.zipIdx (start + 1)).filter
          fun (name, k) => keep name k).map Prod.fst) =
          (name ++ [slash]) ++ slashed (((names.zipIdx (start + 1)).filter
            fun (name, k) => keep name k).map Prod.fst) := by
        simp [slashed, kept]
      rw [List.zipIdx_cons, text, List.length_append, List.length_append, List.length_singleton]
      have sum : ∀ more, l + (name.length + 1 + more) = l + name.length + 1 + more := by
        intro more
        omega
      rw [sum]
      refine ⟨next, ?_, ?_, ?_⟩
      · rw [placed, List.zipIdx_cons, List.map_cons]
        simp only [kept, if_true, squeezeJoin, copied]
        exact joins
      · rw [size, List.length_set, copySize]
      · rw [front, written]
        simp only [List.append_assoc]

/-- Behind joined components there is one slash less than behind each of them. -/
theorem slashed_eq {names : List CharBuf} (some_ : names ≠ []) :
    slashed names = joined names false ++ [slash] := by
  induction names with
  | nil => exact absurd rfl some_
  | cons name names ih =>
    cases names with
    | nil => simp [slashed, joined]
    | cons next names =>
      have rest := ih (by simp)
      rw [joined, List.append_assoc, List.cons_append, ← rest]
      simp [slashed]

/-- Joined components are characters of a string. -/
theorem joined_nonzero {names : List CharBuf} (components : ∀ name ∈ names, IsComponent name)
    (trailing : Bool) : ∀ c ∈ joined names trailing, c ≠ 0 := by
  have nonzero : slash ≠ 0 := by decide
  induction names with
  | nil => intro c member; cases member
  | cons name names ih =>
    have own : ∀ c ∈ name, c ≠ 0 :=
      fun c inside => ((components name List.mem_cons_self).clean c inside).1
    cases names with
    | nil =>
      intro c member
      rw [joined] at member
      split at member
      · rcases List.mem_append.mp member with inside | last
        · exact own c inside
        · rw [List.mem_singleton.mp last]
          exact nonzero
      · exact own c member
    | cons next names =>
      intro c member
      rw [joined] at member
      rcases List.mem_append.mp member with inside | after
      · exact own c inside
      rcases List.mem_cons.mp after with rfl | later
      · exact nonzero
      · exact ih (fun name listed => components name (List.mem_cons_of_mem _ listed)) c later

/-- `path_squeeze` keeps the names that are not struck among the first components. -/
theorem pathSqueeze_eq {names : List CharBuf} (components : ∀ name ∈ names, IsComponent name)
    (trailing : Bool) (behind : CharBuf) : ∃ tail,
      pathSqueeze (slash :: (joined names trailing ++ 0 :: behind)) =
        ((slash :: joined ((unstruck (names.take squeezeMax)).map Prod.fst) false).length,
          slash :: (joined ((unstruck (names.take squeezeMax)).map Prod.fst) false ++ 0 :: tail))
          := by
  obtain ⟨rest, found⟩ := split_joined components trailing behind
    (show 0 < squeezeMax by decide)
  have size := split_length slash squeezeMax (joined names trailing ++ 0 :: behind) 0 true 0
  rw [found] at size
  have first : ∀ name ∈ names.take squeezeMax, IsComponent name :=
    fun name member => components name (List.mem_of_mem_take member)
  generalize names.take squeezeMax = firstNames at found size first ⊢
  have reads := cstr_placed (ended firstNames ++ rest) firstNames 0 rest (by simp)
    fun name member => (first name member).clean
  have scanned := squeezeScan_eq (placed 0 firstNames) [] reads
  have marked : marks (placed 0 firstNames) =
      ((placed 0 firstNames).zipIdx 0).map fun ((p, name), k) =>
        if properName name && !struck firstNames k then some p else none := by
    simp [marks]
  obtain ⟨next, joins, sameSize, front⟩ := squeezeJoin_eq
    (fun name k => properName name && !struck firstNames k) firstNames 0 0 0
    (ended firstNames ++ rest) rest (by simp) (Nat.le_refl 0) first
  rw [← marked] at joins
  change squeezeJoin _ 0 _ = (0 + (slashed ((unstruck firstNames).map Prod.fst)).length, next)
    at joins
  change next.take (0 + (slashed ((unstruck firstNames).map Prod.fst)).length) =
    _ ++ slashed ((unstruck firstNames).map Prod.fst) at front
  generalize (unstruck firstNames).map Prod.fst = kept at joins front ⊢
  simp only [Nat.zero_add, List.take_zero, List.nil_append] at joins front
  simp only [pathSqueeze, ne_eq, not_true_eq_false, if_false, found]
  have empty : marks [] = [] := rfl
  have start : scanCursor [] = 0 := rfl
  rw [empty, List.map_nil, start, List.nil_append] at scanned
  rw [scanned, joins]
  by_cases none_ : kept = []
  · -- Nothing is left, and the end of the string takes the place of the first character.
    have zero : (slashed kept).length = 0 := by simp [none_, slashed]
    have room : 0 < next.length := by
      rw [sameSize, size, List.length_append, List.length_cons]
      omega
    refine ⟨next.drop 1, ?_⟩
    cases next with
    | nil => simp at room
    | cons c next => simp [none_, slashed, joined]
  · have text := slashed_eq none_
    have length : (slashed kept).length = (joined kept false).length + 1 := by simp [text]
    have room : (slashed kept).length ≤ next.length := by
      have taken := congrArg List.length front
      rw [List.length_take] at taken
      omega
    have whole := List.take_append_drop (slashed kept).length next
    rw [front, text, List.append_assoc] at whole
    refine ⟨next.drop (slashed kept).length, ?_⟩
    rw [length, if_pos (Nat.succ_pos _), Nat.add_sub_cancel, ← whole,
      List.set_append_right _ _ (Nat.le_refl _)]
    simp

/-! ## The normal form -/

/-- What `path_squeeze` is for: it leaves the normal form and is idempotent. -/
def Squeezes (names : List CharBuf) (trailing : Bool) (behind : CharBuf) : Prop :=
  let (length, path) := pathSqueeze (slash :: (joined names trailing ++ 0 :: behind))
  let (lengthAgain, pathAgain) := pathSqueeze path
  cstr path 0 = normalPath names ∧ length = (normalPath names).length ∧
    cstr pathAgain 0 = cstr path 0 ∧ lengthAgain = length

/-- Joined components read back from the beginning of their buffer. -/
theorem cstr_joined {names : List CharBuf} (components : ∀ name ∈ names, IsComponent name)
    (tail : CharBuf) :
    cstr (slash :: (joined names false ++ 0 :: tail)) 0 = slash :: joined names false := by
  have nonzero : slash ≠ 0 := by decide
  rw [cstr, List.drop_zero, List.takeWhile_cons_of_pos (by simpa using nonzero),
    List.takeWhile_append_of_pos]
  · simp
  · intro c member
    simpa using joined_nonzero components false c member

/-- The components are known from the text. -/
theorem joined_injective {names others : List CharBuf}
    (components : ∀ name ∈ names, IsComponent name)
    (otherComponents : ∀ name ∈ others, IsComponent name)
    (same : joined names false = joined others false) : names = others := by
  -- Splitting the text finds them.
  have found : ∀ list : List CharBuf, (∀ name ∈ list, IsComponent name) →
      list.length ≤ names.length + others.length →
      let found := split slash (names.length + others.length + 1)
        (joined list false ++ 0 :: []) 0 true 0
      found.1.map (cstr found.2) = list := by
    intro list clean few
    obtain ⟨rest, splits⟩ := split_joined clean false []
      (Nat.succ_pos (names.length + others.length))
    rw [List.take_of_length_le (by omega)] at splits
    have reads := cstr_placed (ended list ++ rest) list 0 rest (by simp)
      fun name member => (clean name member).clean
    simp only [splits, List.map_map]
    calc
      _ = (placed 0 list).map Prod.snd := List.map_congr_left reads
      _ = list := placed_names 0 list
  have first := found names components (by omega)
  have second := found others otherComponents (by omega)
  rw [same] at first
  exact first.symm.trans second

/-- The path is safe exactly when the names not struck are those left on the stack. -/
theorem squeezeSafe_iff (names : List CharBuf) : SqueezeSafe names ↔
    (unstruck (names.take squeezeMax)).map Prod.fst = (stackLeft names).map Prod.fst := by
  unfold SqueezeSafe
  split
  · rename_i few
    rw [List.take_of_length_le few]
    exact (unstruck_iff names).symm
  · exact Iff.rfl

/-- Components that are names only are never struck. -/
theorem unstruck_proper {names : List CharBuf} (proper : ∀ name ∈ names, properName name = true) :
    (unstruck names).map Prod.fst = names := by
  have all : unstruck names = names.zipIdx := by
    apply List.filter_eq_self.mpr
    rintro ⟨name, k⟩ member
    have spared : struck names k = false := by
      by_contra isStruck
      simp only [Bool.not_eq_false, struck, List.any_eq_true, Bool.and_eq_true, beq_iff_eq]
        at isStruck
      obtain ⟨i, -, up, -⟩ := isStruck
      have plain : properName dotDotName = false := by decide
      have isProper := proper dotDotName (List.mem_of_getElem? up)
      rw [plain] at isProper
      cases isProper
    simp [proper name (List.fst_mem_of_mem_zipIdx member), spared]
  rw [all, List.zipIdx_map_fst]

/-- `path_squeeze` leaves the normal form exactly of the safe paths. -/
theorem path_squeeze_iff {names : List CharBuf} (components : ∀ name ∈ names, IsComponent name)
    (trailing : Bool) (behind : CharBuf) : Squeezes names trailing behind ↔ SqueezeSafe names := by
  obtain ⟨tail, squeezed⟩ := pathSqueeze_eq components trailing behind
  have ok := stackOk names
  have stackComponents : ∀ name ∈ (stackLeft names).map Prod.fst, IsComponent name := by
    intro name member
    obtain ⟨entry, listed, rfl⟩ := List.mem_map.mp member
    exact components _ (List.fst_mem_of_mem_zipIdx (ok.named entry listed).1)
  have keptNames : ∀ name ∈ (unstruck (names.take squeezeMax)).map Prod.fst,
      IsComponent name ∧ properName name = true := by
    intro name member
    obtain ⟨entry, listed, rfl⟩ := List.mem_map.mp member
    obtain ⟨inside, left⟩ := List.mem_filter.mp listed
    simp only [Bool.and_eq_true] at left
    exact ⟨components _ (List.mem_of_mem_take (List.fst_mem_of_mem_zipIdx inside)), left.1⟩
  have few : ((unstruck (names.take squeezeMax)).map Prod.fst).length ≤ squeezeMax := by
    have fewer := List.length_filter_le
      (fun (name, k) => properName name && !struck (names.take squeezeMax) k)
      (names.take squeezeMax).zipIdx
    rw [List.length_zipIdx, List.length_take] at fewer
    rw [List.length_map]
    exact fewer.trans (Nat.min_le_left _ _)
  rw [squeezeSafe_iff]
  generalize (unstruck (names.take squeezeMax)).map Prod.fst = kept at squeezed keptNames few ⊢
  have read := cstr_joined (fun name member => (keptNames name member).1) tail
  -- The result is squeezed to itself.
  obtain ⟨tailAgain, again⟩ := pathSqueeze_eq (fun name member => (keptNames name member).1)
    false tail
  rw [List.take_of_length_le few, unstruck_proper fun name member => (keptNames name member).2]
    at again
  have readAgain := cstr_joined (fun name member => (keptNames name member).1) tailAgain
  simp only [Squeezes, squeezed, again, read, readAgain, normalPath]
  constructor
  · rintro ⟨same, -⟩
    exact joined_injective (fun name member => (keptNames name member).1) stackComponents
      (List.cons.inj same).2
  · intro same
    rw [same]
    exact ⟨rfl, rfl, trivial, trivial⟩

/-- Of `/a/b/../c/../..` nothing is left on the stack, but `path_squeeze` leaves `/a`. -/
theorem path_squeeze_fails : ¬ ∀ (names : List CharBuf) (trailing : Bool) (behind : CharBuf),
    (∀ name ∈ names, IsComponent name) → Squeezes names trailing behind := by
  intro claim
  have wrong := (claim [[97], [98], dotDotName, [99], dotDotName, dotDotName] false []
    (by decide +kernel)).1
  revert wrong
  decide +kernel

/-- `/home/glucoes/./../tiepi` is squeezed to `/home/tiepi`, with `h`, `g` and `t` for the names. -/
theorem path_squeeze_example :
    Squeezes [[104], [103], dotName, dotDotName, [116]] false [] :=
  (path_squeeze_iff (by decide +kernel) false []).mpr
    ((squeezeSafe_iff _).mpr (by decide +kernel))

end GlucOS
