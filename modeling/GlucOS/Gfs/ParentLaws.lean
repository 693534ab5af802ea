import GlucOS.Gfs.PathLaws

/-! `path_anal_2` against `path_anal`: when a path's parent and target lead where the path leads. -/

namespace GlucOS

/-- The callers of `path_anal_2`. -/
inductive Path2Caller
  | doMkdir
  | doOpen
  | doRemove
  | doHlink
deriving DecidableEq

/-- Characters of the buffer that a caller supplies; that of `do_hlink` lacks one for the end. -/
def Path2Caller.room : Path2Caller → Nat
  | doMkdir | doOpen | doRemove => pathLen + 1
  | doHlink => pathLen

/-- What `path_anal_2` is for. -/
structure Path2Agrees (tree : GfsTree) (curIno : Nat) (caller : Path2Caller) (path : CharBuf) :
    Prop where
  /-- Parent and target make up the path. -/
  whole : ∀ ppino, (tree.pathAnal2 curIno path).ppino = some ppino →
    let result := tree.pathAnal2 curIno path
    (if result.ptname = 0 then cstr result.tpath 0
      else cstr result.tpath 0 ++ slash :: cstr result.tpath result.ptname) = path
  /-- The target in its parent is what `path_anal` finds. -/
  same : ∀ ppino, (tree.pathAnal2 curIno path).ppino = some ppino →
    tree.pathAnal curIno path = tree.lookup ppino
      (cstr (tree.pathAnal2 curIno path).tpath (tree.pathAnal2 curIno path).ptname)
  /-- Without a parent there is no target. -/
  fails : (tree.pathAnal2 curIno path).ppino = none → tree.pathAnal curIno path = none
  /-- The caller's buffer has room for what is written. -/
  inside : (tree.pathAnal2 curIno path).tpath.length ≤ caller.room

/-! ## What `path_anal_2` does -/

/-- The downward search stops at the last slash. -/
theorem lastSlash_append (front : CharBuf) {tail : CharBuf} (none_ : slash ∉ tail) :
    ∀ start, front.length ≤ start → start ≤ front.length + tail.length →
      GfsVolume.lastSlash (front ++ slash :: tail) start = some front.length := by
  intro start
  induction start with
  | zero =>
    intro above _
    have empty : front = [] := List.length_eq_zero_iff.mp (by omega)
    simp [GfsVolume.lastSlash, empty]
  | succ start ih =>
    intro above below
    rw [GfsVolume.lastSlash]
    by_cases there : front.length = start + 1
    · rw [if_pos]
      · rw [there]
      · simp [← there]
    · rw [if_neg, ih (by omega) (by omega)]
      -- Behind the slash there is none.
      intro found
      obtain ⟨k, isMore⟩ : ∃ k, start + 1 - front.length = k + 1 := ⟨start - front.length, by omega⟩
      have inside : k < tail.length := by omega
      rw [List.getD_eq_getElem?_getD, List.getElem?_append_right (by omega), isMore,
        List.getElem?_cons_succ, List.getElem?_eq_getElem inside, Option.getD_some] at found
      exact none_ (found ▸ List.getElem_mem inside)

/-- Without a slash none is found. -/
theorem lastSlash_none {tpath : CharBuf} (none_ : slash ∉ tpath) :
    ∀ start, GfsVolume.lastSlash tpath start = none := by
  have never : ∀ i, tpath.getD i 0 ≠ slash := by
    intro i found
    rw [List.getD_eq_getElem?_getD] at found
    cases at_ : tpath[i]? with
    | none =>
      rw [at_] at found
      cases found
    | some c =>
      rw [at_] at found
      exact none_ (found ▸ List.mem_of_getElem? at_)
  intro start
  induction start with
  | zero => rw [GfsVolume.lastSlash, if_neg (never 0)]
  | succ start ih => rw [GfsVolume.lastSlash, if_neg (never _), ih]

/-- A string in front of a zero is read back. -/
theorem cstr_append (front behind : CharBuf) {text : CharBuf} (string : ∀ c ∈ text, c ≠ 0) :
    cstr (front ++ (text ++ 0 :: behind)) front.length = text := by
  rw [cstr, List.drop_left, List.takeWhile_append_of_pos]
  · simp
  · intro c member
    simpa using string c member

/-- The path as far as it fits. -/
def kept (path : CharBuf) : CharBuf := path.take pathLen

/-- Zeros behind the copy of a path. -/
theorem strncpy_eq (path : CharBuf) : ∃ more,
    GfsVolume.strncpy path pathLen ++ [0] = kept path ++ 0 :: List.replicate more 0 ∧
      (kept path).length + 1 + more = pathLen + 1 := by
  refine ⟨pathLen - path.length, ?_, ?_⟩
  · rw [GfsVolume.strncpy, List.append_assoc, ← List.replicate_succ', List.replicate_succ]
    rfl
  · rw [kept, List.length_take]
    omega

/-- A path without slash is a name in the current directory. -/
theorem GfsVolume.pathAnal2_name (vol : GfsVolume) (curIno : Nat) {path : CharBuf}
    (string : ∀ c ∈ path, c ≠ 0) (none_ : slash ∉ kept path) : ∃ tpath,
      vol.pathAnal2 curIno path = ⟨some curIno, tpath, 0⟩ ∧ cstr tpath 0 = kept path ∧
        tpath.length = pathLen + 1 := by
  obtain ⟨more, copied, size⟩ := strncpy_eq path
  have clean : ∀ c ∈ kept path, c ≠ 0 := fun c member => string c (List.mem_of_mem_take member)
  have absent : slash ∉ kept path ++ 0 :: List.replicate more 0 := by
    intro member
    rcases List.mem_append.mp member with inside | behind
    · exact none_ inside
    · rw [← List.replicate_succ] at behind
      have zero := List.eq_of_mem_replicate behind
      cases zero
  refine ⟨_, by rw [pathAnal2, copied, lastSlash_none absent], ?_, ?_⟩
  · exact cstr_append [] _ clean
  · rw [List.length_append, List.length_cons, List.length_replicate]
    omega

/-- A path with a slash is split at the last one. -/
theorem GfsVolume.pathAnal2_split (vol : GfsVolume) (curIno : Nat) {path front tail : CharBuf}
    (string : ∀ c ∈ path, c ≠ 0) (split : kept path = front ++ slash :: tail)
    (none_ : slash ∉ tail) : ∃ tpath,
      vol.pathAnal2 curIno path =
        ⟨if front = [] then some 0 else vol.pathAnal curIno front, tpath, front.length + 1⟩ ∧
      cstr tpath 0 = front ∧ cstr tpath (front.length + 1) = tail ∧
        tpath.length = pathLen + 1 := by
  obtain ⟨more, copied, size⟩ := strncpy_eq path
  have clean : ∀ c ∈ kept path, c ≠ 0 := fun c member => string c (List.mem_of_mem_take member)
  have cleanFront : ∀ c ∈ front, c ≠ 0 := by
    intro c member
    exact clean c (by rw [split]; exact List.mem_append_left _ member)
  have cleanTail : ∀ c ∈ tail, c ≠ 0 := by
    intro c member
    exact clean c (by rw [split]; exact List.mem_append_right _ (List.mem_cons_of_mem _ member))
  have length := cstr_append [] (List.replicate more 0) clean
  rw [List.nil_append, List.length_nil] at length
  have absent : slash ∉ tail ++ 0 :: List.replicate more 0 := by
    intro member
    rcases List.mem_append.mp member with inside | behind
    · exact none_ inside
    · rw [← List.replicate_succ] at behind
      have zero := List.eq_of_mem_replicate behind
      cases zero
  have whole : kept path ++ 0 :: List.replicate more 0 =
      front ++ slash :: (tail ++ 0 :: List.replicate more 0) := by
    rw [split, List.append_assoc, List.cons_append]
  have found := lastSlash_append front absent (kept path).length (by simp [split])
    (by simp [split])
  have cut : (front ++ slash :: (tail ++ 0 :: List.replicate more 0)).set front.length 0 =
      front ++ 0 :: (tail ++ 0 :: List.replicate more 0) := by
    rw [List.set_append_right _ _ (Nat.le_refl _)]
    simp
  have parent : cstr (front ++ 0 :: (tail ++ 0 :: List.replicate more 0)) 0 = front :=
    cstr_append [] _ cleanFront
  have empty : front.length = 0 ↔ front = [] := List.length_eq_zero_iff
  refine ⟨front ++ 0 :: (tail ++ 0 :: List.replicate more 0), ?_, parent, ?_, ?_⟩
  · rw [pathAnal2, copied, length, whole, found]
    simp only [cut, parent, empty]
  · have text := cstr_append (front ++ [0]) (List.replicate more 0) cleanTail
    simpa using text
  · have total := congrArg List.length whole
    simp only [List.length_append, List.length_cons, List.length_replicate] at total ⊢
    omega

/-! ## When the two analysers agree -/

/-- The parts before the last slash of a path, as far as it fits. -/
def parentParts (path : CharBuf) : List CharBuf :=
  ((startOf 0 (kept path)).2.splitOn slash).dropLast

/-- What follows the last slash. -/
def targetName (path : CharBuf) : CharBuf :=
  ((startOf 0 (kept path)).2.splitOn slash).getLast (List.splitOn_ne_nil _ _)

/-- The inode of the parent, which is looked up without an empty part at its end. -/
def GfsTree.parentOf (tree : GfsTree) (curIno : Nat) (path : CharBuf) : Option Nat :=
  let parts := parentParts path
  tree.resolve (startOf curIno path).1
    ((if parts.getLast? = some [] then parts.dropLast else parts).take GfsVolume.analMax)

/--
When the target is found in its parent as in the path.

An empty part in front of the target must not matter, and beyond sixteen parts the target must be
the parent itself.
-/
def GfsTree.TargetAgrees (tree : GfsTree) (ppino : Nat) (path : CharBuf) : Prop :=
  let parts := parentParts path
  if parts.length ≤ GfsVolume.analMax ∧ parts.getLast? = some [] then
    tree.lookup ppino (targetName path) = none
  else if GfsVolume.analMax ≤ parts.length then
    tree.lookup ppino (targetName path) = some ppino
  else True

/--
When `path_anal_2` does what it is for.

The caller's buffer has room, and there is no parent, or the path fits and is not empty and its
target is found in the parent as in the path.
-/
def GfsTree.Path2Safe (tree : GfsTree) (curIno : Nat) (caller : Path2Caller) (path : CharBuf) :
    Prop :=
  caller ≠ .doHlink ∧ (tree.parentOf curIno path = none ∨
    path.length ≤ pathLen ∧ path ≠ [] ∧
      ∀ ppino, tree.parentOf curIno path = some ppino → tree.TargetAgrees ppino path)

/-- The last slash of a path stands before its target. -/
theorem kept_split (curIno : Nat) (path : CharBuf) :
    (slash ∉ kept path ∧ parentParts path = [] ∧ targetName path = kept path ∧
        (startOf curIno path).1 = curIno) ∨
      ∃ front, kept path = front ++ slash :: targetName path ∧ slash ∉ targetName path ∧
        (front = [] → parentParts path = [] ∧ (startOf curIno path).1 = 0) ∧
        (front ≠ [] → parentParts path = (startOf 0 front).2.splitOn slash ∧
          (startOf curIno path).1 = (startOf curIno front).1) := by
  have head : (kept path).head? = path.head? := by
    rw [kept, List.head?_take, if_neg (by decide)]
  by_cases inside : slash ∈ kept path
  · -- The last slash is the first one from behind.
    obtain ⟨back, front, split, none_⟩ := List.eq_append_cons_of_mem (List.mem_reverse.mpr inside)
    have whole : kept path = front.reverse ++ slash :: back.reverse := by
      rw [← List.reverse_reverse (kept path), split]
      simp
    have absent : slash ∉ back.reverse := by simpa using none_
    have single : back.reverse.splitOn slash = [back.reverse] := List.splitOn_eq_singleton absent
    generalize front.reverse = first at whole
    generalize back.reverse = tail at whole absent single
    rw [whole] at head
    right
    cases first with
    | nil =>
      have rest : (startOf 0 (kept path)).2 = tail := by simp [whole, startOf]
      have target : targetName path = tail := by simp [targetName, rest, single]
      rw [List.nil_append, List.head?_cons] at head
      refine ⟨[], by rw [target, whole], by rw [target]; exact absent, ?_, ?_⟩
      · intro _
        exact ⟨by simp [parentParts, rest, single], by simp [startOf, ← head]⟩
      · intro some_
        exact absurd rfl some_
    | cons c first =>
      have parts : (startOf 0 (kept path)).2.splitOn slash =
          (startOf 0 (c :: first)).2.splitOn slash ++ [tail] := by
        rw [whole, ← single]
        by_cases isSlash : c = slash
        · simp [startOf, isSlash, List.splitOn_append_cons_self]
        · have joined := List.splitOn_append_cons_self (c :: first) tail (a := slash)
          simpa [startOf, isSlash] using joined
      have target : targetName path = tail := by simp [targetName, parts]
      rw [List.cons_append, List.head?_cons] at head
      refine ⟨c :: first, by rw [target, whole], by rw [target]; exact absent, ?_, ?_⟩
      · intro empty
        cases empty
      · intro _
        refine ⟨by simp [parentParts, parts], ?_⟩
        unfold startOf
        rw [← head, List.head?_cons]
        split <;> rfl
  · left
    have rest : (startOf 0 (kept path)).2 = kept path := by
      unfold startOf
      rw [if_neg]
      intro isSlash
      exact inside (List.mem_of_mem_head? isSlash)
    have single : (kept path).splitOn slash = [kept path] := List.splitOn_eq_singleton inside
    refine ⟨inside, by simp [parentParts, rest, single], by simp [targetName, rest, single], ?_⟩
    unfold startOf
    rw [if_neg]
    intro isSlash
    rw [← head] at isSlash
    exact inside (List.mem_of_mem_head? isSlash)

/-- Components are the parts without an empty one at the end. -/
theorem components_eq (path : CharBuf) : components path =
    if (path.splitOn slash).getLast? = some [] then (path.splitOn slash).dropLast
    else path.splitOn slash := by
  have some_ := List.splitOn_ne_nil slash path
  rw [components, named, List.getLast?_eq_some_getLast some_]
  by_cases empty : (path.splitOn slash).getLast some_ = []
  · simp [empty]
  · simp [empty, List.dropLast_concat_getLast some_]

/-- `path_anal_2` finds the parent, and splits the path as far as it fits. -/
theorem GfsTree.pathAnal2_eq (tree : GfsTree) {curIno : Nat} (inside : curIno < tree.inodeNum)
    {path : CharBuf} (string : ∀ c ∈ path, c ≠ 0) :
    let result := tree.pathAnal2 curIno path
    result.ppino = tree.parentOf curIno path ∧
      cstr result.tpath result.ptname = targetName path ∧
      (if result.ptname = 0 then cstr result.tpath 0
        else cstr result.tpath 0 ++ slash :: cstr result.tpath result.ptname) = kept path ∧
      result.tpath.length = pathLen + 1 := by
  rcases kept_split curIno path with ⟨none_, parts, target, start⟩ | ⟨front, split, none_, root, sub⟩
  · obtain ⟨tpath, answer, text, size⟩ := tree.pathAnal2_name curIno string none_
    simp only [answer, GfsTree.parentOf, parts, start, target]
    exact ⟨by simp [GfsVolume.resolve], text, by simpa using text, size⟩
  · obtain ⟨tpath, answer, parent, name, size⟩ := tree.pathAnal2_split curIno string split none_
    have text : kept path = front ++ slash :: targetName path := split
    simp only [answer, parent, name, GfsTree.parentOf]
    refine ⟨?_, trivial, by rw [if_neg (by omega), ← text], size⟩
    by_cases empty : front = []
    · obtain ⟨parts, start⟩ := root empty
      simp [empty, parts, start, GfsVolume.resolve]
    · obtain ⟨parts, start⟩ := sub empty
      have cleanFront : ∀ c ∈ front, c ≠ 0 := by
        intro c member
        apply string c
        apply List.mem_of_mem_take (i := pathLen)
        change c ∈ kept path
        rw [text]
        exact List.mem_append_left _ member
      have short : front.length ≤ pathLen := by
        have size := congrArg List.length text
        rw [kept, List.length_take, List.length_append, List.length_cons] at size
        omega
      rw [if_neg empty, tree.pathAnal_eq inside cleanFront short, pathNames, components_eq, parts,
        start]

/-- A path that fits and does not end with a slash has its target as last component. -/
theorem pathNames_eq {path : CharBuf} (fits : path.length ≤ pathLen) (some_ : path ≠ [])
    (ends : path.getLast? ≠ some slash) :
    pathNames path = parentParts path ++ [targetName path] := by
  have whole : kept path = path := List.take_of_length_le fits
  have nonempty : targetName path ≠ [] := by
    rcases kept_split 0 path with ⟨-, -, target, -⟩ | ⟨front, split, -⟩
    · rw [target, whole]
      exact some_
    · intro empty
      rw [empty, whole] at split
      apply ends
      rw [split]
      simp
  rw [pathNames, components, named, parentParts]
  rw [targetName] at nonempty ⊢
  simp only [whole] at nonempty ⊢
  rw [if_neg nonempty]

/-- `path_anal` of such a path. -/
theorem GfsTree.pathAnal_target (tree : GfsTree) {curIno : Nat} (inside : curIno < tree.inodeNum)
    {path : CharBuf} (string : ∀ c ∈ path, c ≠ 0) (fits : path.length ≤ pathLen)
    (some_ : path ≠ []) (ends : path.getLast? ≠ some slash) {ppino : Nat}
    (found : tree.parentOf curIno path = some ppino) :
    tree.pathAnal curIno path = tree.lookup ppino (targetName path) ↔
      tree.TargetAgrees ppino path := by
  rw [tree.pathAnal_eq inside string fits, pathNames_eq fits some_ ends, GfsTree.TargetAgrees]
  rw [GfsTree.parentOf] at found
  generalize targetName path = target
  generalize (startOf curIno path).1 = start at found ⊢
  generalize parentParts path = parts at found ⊢
  by_cases emptyLast : parts.getLast? = some []
  · obtain ⟨front, rfl⟩ := List.getLast?_eq_some_iff.mp emptyLast
    simp only [emptyLast, if_true, List.dropLast_concat, and_true, List.length_append,
      List.length_singleton] at found ⊢
    by_cases few : front.length + 1 ≤ GfsVolume.analMax
    · -- The empty part is looked up, and is missing.
      have taken : (front ++ [[]] ++ [target]).take GfsVolume.analMax =
          front ++ ([] :: [target].take (GfsVolume.analMax - (front.length + 1))) := by
        rw [List.take_append, List.take_of_length_le (by simpa using few)]
        simp
      rw [List.take_of_length_le (by omega)] at found
      rw [if_pos few, taken, tree.resolve_append, found, Option.bind_some, GfsVolume.resolve,
        tree.named, Option.bind_none]
      exact eq_comm
    · have same : (front ++ [[]] ++ [target]).take GfsVolume.analMax =
          front.take GfsVolume.analMax := by
        rw [List.append_assoc, List.take_append_of_le_length (by omega)]
      rw [if_neg few, if_pos (by omega), same, found]
      exact eq_comm
  · simp only [emptyLast, if_false, and_false] at found ⊢
    by_cases many : GfsVolume.analMax ≤ parts.length
    · rw [if_pos many, List.take_append_of_le_length many, found]
      exact eq_comm
    · rw [List.take_of_length_le (by omega)] at found
      rw [if_neg many, List.take_of_length_le (by simp; omega), tree.resolve_append, found]
      simp [GfsVolume.resolve]

/-- Without a parent, the path leads nowhere. -/
theorem GfsTree.pathAnal_noParent (tree : GfsTree) {curIno : Nat}
    (inside : curIno < tree.inodeNum) {path : CharBuf} (string : ∀ c ∈ path, c ≠ 0)
    (ends : path.getLast? ≠ some slash) (none_ : tree.parentOf curIno path = none) :
    tree.pathAnal curIno path = none := by
  by_cases fits : path.length ≤ pathLen
  · have some_ : path ≠ [] := by
      rintro rfl
      simp [GfsTree.parentOf, parentParts, kept, startOf, GfsVolume.resolve] at none_
    rw [tree.pathAnal_eq inside string fits, pathNames_eq fits some_ ends]
    rw [GfsTree.parentOf] at none_
    generalize targetName path = target
    generalize (startOf curIno path).1 = start at none_ ⊢
    generalize parentParts path = parts at none_ ⊢
    -- What the parent's path leads through is the beginning of the whole path.
    have begins : ∃ more, (parts ++ [target]).take GfsVolume.analMax =
        (if parts.getLast? = some [] then parts.dropLast else parts).take GfsVolume.analMax ++
          more := by
      have shorter : (if parts.getLast? = some [] then parts.dropLast else parts) <+:
          parts ++ [target] := by
        split
        · exact (List.dropLast_prefix parts).trans (List.prefix_append _ _)
        · exact List.prefix_append _ _
      obtain ⟨more, same⟩ := shorter.take GfsVolume.analMax
      exact ⟨more, same.symm⟩
    obtain ⟨more, same⟩ := begins
    rw [same, tree.resolve_append, none_, Option.bind_none]
  · rw [GfsVolume.pathAnal, if_pos (by omega)]

/-- The two analysers agree exactly on the safe paths. -/
theorem path_anal_2_agrees (tree : GfsTree) {curIno : Nat} (inside : curIno < tree.inodeNum)
    (caller : Path2Caller) {path : CharBuf} (string : ∀ c ∈ path, c ≠ 0)
    (ends : path.getLast? ≠ some slash) :
    Path2Agrees tree curIno caller path ↔ tree.Path2Safe curIno caller path := by
  obtain ⟨ppino, name, text, size⟩ := tree.pathAnal2_eq inside string
  have room : (tree.pathAnal2 curIno path).tpath.length ≤ caller.room ↔ caller ≠ .doHlink := by
    rw [size]
    cases caller <;> decide
  constructor
  · intro agrees
    refine ⟨room.mp agrees.inside, ?_⟩
    cases found : tree.parentOf curIno path with
    | none => exact Or.inl rfl
    | some parent =>
      right
      have whole := agrees.whole parent (ppino.trans found)
      have same := agrees.same parent (ppino.trans found)
      simp only [text] at whole
      rw [name] at same
      have fits : path.length ≤ pathLen := by
        rw [← whole, kept, List.length_take]
        omega
      have some_ : path ≠ [] := by
        -- The empty path leads to the current directory, which has no entry without a name.
        rintro rfl
        have start : tree.pathAnal curIno [] = some curIno := by
          rw [tree.pathAnal_eq inside (by simp) (by decide)]
          rfl
        have target : targetName [] = [] := rfl
        rw [start, target, tree.named] at same
        cases same
      refine ⟨fits, some_, ?_⟩
      intro other isOther
      cases isOther
      exact (tree.pathAnal_target inside string fits some_ ends found).mp same
  · rintro ⟨notHlink, safe⟩
    constructor
    · intro parent found
      rw [ppino] at found
      rcases safe with none_ | ⟨fits, -, -⟩
      · rw [none_] at found
        cases found
      · exact text.trans (List.take_of_length_le fits)
    · intro parent found
      rw [ppino] at found
      rw [name]
      rcases safe with none_ | ⟨fits, some_, targets⟩
      · rw [none_] at found
        cases found
      · exact (tree.pathAnal_target inside string fits some_ ends found).mpr (targets _ found)
    · intro none_
      rw [ppino] at none_
      exact tree.pathAnal_noParent inside string ends none_
    · exact room.mpr notHlink

/-- In the small tree, `./x` is missing for both analysers. -/
theorem path_anal_2_agrees_dot : Path2Agrees dotTree 0 .doMkdir [46, slash, 120] :=
  (path_anal_2_agrees dotTree (by decide) .doMkdir (by decide +kernel) (by decide)).mpr
    ⟨by decide, Or.inr ⟨by decide, by decide, by
      intro ppino _
      have few : ¬ ((parentParts [46, slash, 120]).length ≤ GfsVolume.analMax ∧
        (parentParts [46, slash, 120]).getLast? = some []) := by decide +kernel
      have short : ¬ GfsVolume.analMax ≤ (parentParts [46, slash, 120]).length := by
        decide +kernel
      rw [GfsTree.TargetAgrees, if_neg few, if_neg short]
      trivial⟩⟩

/-- A name of 72 characters is shortened, and the buffer of `do_hlink` is too small for any. -/
theorem path_anal_2_disagrees :
    ¬ (∀ (tree : GfsTree) (curIno : Nat) (path : CharBuf), curIno < tree.inodeNum →
        (∀ c ∈ path, c ≠ 0) → path.getLast? ≠ some slash →
          Path2Agrees tree curIno .doMkdir path) ∧
      ¬ ∀ (tree : GfsTree) (curIno : Nat) (path : CharBuf), curIno < tree.inodeNum →
        (∀ c ∈ path, c ≠ 0) → path.getLast? ≠ some slash →
          Path2Agrees tree curIno .doHlink path := by
  constructor
  · intro claim
    have wrong := (claim dotTree 0 (List.replicate 72 120) (by decide) (by decide +kernel)
      (by decide +kernel)).whole 0 (by decide +kernel)
    revert wrong
    decide +kernel
  · intro claim
    have wrong := (claim dotTree 0 [120] (by decide) (by decide +kernel) (by decide +kernel)).inside
    revert wrong
    decide +kernel

end GlucOS
