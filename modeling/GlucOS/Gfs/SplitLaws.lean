import GlucOS.Gfs.Path

/-! `split` finds the parts of a path between its slashes. -/

namespace GlucOS

/-- A part of a string between slashes. -/
def IsPart (name : CharBuf) : Prop := ∀ c ∈ name, c ≠ 0 ∧ c ≠ slash

/-- Parts each with a slash behind it. -/
def slashed (names : List CharBuf) : CharBuf := names.flatMap fun name => name ++ [slash]

/-- Parts each ended by a zero. -/
def ended (names : List CharBuf) : CharBuf := names.flatMap fun name => name ++ [0]

/-- Parts with the offsets of their first characters. -/
def placed : Nat → List CharBuf → List (Nat × CharBuf)
  | _, [] => []
  | base, name :: names => (base, name) :: placed (base + name.length + 1) names

/-- The names of placed parts. -/
@[simp] theorem placed_names (base : Nat) (names : List CharBuf) :
    (placed base names).map Prod.snd = names := by
  induction names generalizing base with
  | nil => rfl
  | cons name names ih => simp [placed, ih]

/-- The components of a path whose parts these are: what follows the last slash may be nothing. -/
def named (parts : List CharBuf) (last : CharBuf) : List CharBuf :=
  if last = [] then parts else parts ++ [last]

/-- The components of a relative path: its parts, without an empty one at the end. -/
def components (path : CharBuf) : List CharBuf :=
  named (path.splitOn slash).dropLast ((path.splitOn slash).getLast (List.splitOn_ne_nil _ _))

/-- A part in front is the first component. -/
@[simp] theorem named_cons (part : CharBuf) (parts : List CharBuf) (last : CharBuf) :
    named (part :: parts) last = part :: named parts last := by
  unfold named
  split <;> rfl

/-- A path is put together from its parts. -/
theorem splitOn_slashed (path : CharBuf) : ∃ parts last,
    path = slashed parts ++ last ∧ path.splitOn slash = parts ++ [last] ∧
      components path = named parts last := by
  obtain ⟨parts, last, split⟩ := List.eq_nil_or_concat (path.splitOn slash) |>.resolve_left
    (List.splitOn_ne_nil _ _)
  rw [List.concat_eq_append] at split
  refine ⟨parts, last, ?_, split, ?_⟩
  · have whole : [slash].intercalate (path.splitOn slash) = path := List.intercalate_splitOn slash
    rw [split] at whole
    rw [← whole]
    clear whole split
    induction parts with
    | nil => simp [slashed]
    | cons part parts ih =>
      rw [List.cons_append, List.intercalate_cons_of_ne_nil (by simp), ih]
      simp [slashed]
  · simp [components, split]

/-- The parts of a path have no slash inside. -/
theorem splitOn_parts {path : CharBuf} (string : ∀ c ∈ path, c ≠ 0) :
    ∀ part ∈ path.splitOn slash, IsPart part := by
  induction path with
  | nil => simp [List.splitOn_nil, IsPart]
  | cons c path ih =>
    have rest := ih fun c member => string c (List.mem_cons_of_mem _ member)
    rw [List.splitOn_cons_eq_if_modifyHead]
    by_cases cut : c = slash
    · simpa [cut, IsPart] using rest
    · obtain ⟨first, parts, split⟩ := List.exists_cons_of_ne_nil (List.splitOn_ne_nil slash path)
      rw [split] at rest
      simp only [beq_iff_eq, cut, if_false, split, List.modifyHead_cons]
      intro part member
      rcases List.mem_cons.mp member with rfl | later
      · intro d inside
        rcases List.mem_cons.mp inside with rfl | after
        · exact ⟨string d List.mem_cons_self, cut⟩
        · exact rest first List.mem_cons_self d after
      · exact rest part (List.mem_cons_of_mem _ later)

/-! ## The loop of `split` -/

/-- Splitting changes characters in place. -/
theorem split_length (sep : UInt8) (pmax : Nat) (src : CharBuf) :
    ∀ p flagNew i, (split sep pmax src p flagNew i).2.length = src.length := by
  induction src with
  | nil => intro p flagNew i; rfl
  | cons c src ih =>
    intro p flagNew i
    simp only [split]
    by_cases stop : c = 0
    · rw [if_pos stop]
    rw [if_neg stop]
    by_cases cut : c = sep
    · rw [if_pos cut]
      by_cases full : (if flagNew then i + 1 else i) ≥ pmax
      · rw [if_pos full]
        rfl
      · rw [if_neg full, List.length_cons, List.length_cons, ih]
    · rw [if_neg cut, List.length_cons, List.length_cons, ih]

/-- Splitting passes over the characters of a part. -/
theorem split_inside (pmax : Nat) (name : CharBuf) (clean : IsPart name) :
    ∀ src p i, split slash pmax (name ++ src) p false i =
      ((split slash pmax src (p + name.length) false i).1,
        name ++ (split slash pmax src (p + name.length) false i).2) := by
  induction name with
  | nil => intro src p i; simp
  | cons c name ih =>
    intro src p i
    obtain ⟨nonzero, other⟩ := clean c List.mem_cons_self
    have rest := ih (fun c member => clean c (List.mem_cons_of_mem _ member)) src (p + 1) i
    rw [List.cons_append, split]
    simp only [if_neg nonzero, if_neg other, Bool.false_eq_true, if_false, rest]
    simp [Nat.add_comm, Nat.add_left_comm]

/-- A part with a slash behind it gets a pointer and a zero in the slash's place. -/
theorem split_part {pmax : Nat} {name : CharBuf} (clean : IsPart name) (src : CharBuf) (p i : Nat) :
    split slash pmax (name ++ slash :: src) p true i =
      if i + 1 ≥ pmax then ([p], name ++ 0 :: src)
      else (p :: (split slash pmax src (p + name.length + 1) true (i + 1)).1,
        name ++ 0 :: (split slash pmax src (p + name.length + 1) true (i + 1)).2) := by
  have nonzero : slash ≠ 0 := by decide
  cases name with
  | nil =>
    rw [List.nil_append, split]
    simp only [if_neg nonzero, if_true]
    split <;> simp
  | cons c name =>
    obtain ⟨notZero, other⟩ := clean c List.mem_cons_self
    have rest := split_inside pmax name
      (fun c member => clean c (List.mem_cons_of_mem _ member)) (slash :: src) (p + 1) (i + 1)
    have sum : p + 1 + name.length = p + (c :: name).length := by
      simp only [List.length_cons]
      omega
    rw [List.cons_append, split]
    simp only [if_neg notZero, if_neg other, if_true, rest, sum]
    rw [split]
    simp only [if_neg nonzero, if_true, Bool.false_eq_true, if_false]
    split <;> simp

/-- What follows the last slash gets a pointer unless it is nothing. -/
theorem split_last (pmax : Nat) {name : CharBuf} (clean : IsPart name) (behind : CharBuf)
    (p i : Nat) : split slash pmax (name ++ 0 :: behind) p true i =
      (if name = [] then [] else [p], name ++ 0 :: behind) := by
  cases name with
  | nil => simp [split]
  | cons c name =>
    obtain ⟨notZero, other⟩ := clean c List.mem_cons_self
    have rest := split_inside pmax name
      (fun c member => clean c (List.mem_cons_of_mem _ member)) (0 :: behind) (p + 1) (i + 1)
    rw [List.cons_append, split]
    simp only [if_neg notZero, if_neg other, if_true, rest]
    simp [split]

/-- Splitting finds the first components, and each of them ends with a zero then. -/
theorem split_parts {pmax : Nat} (parts : List CharBuf) (last : CharBuf) (behind : CharBuf) :
    ∀ p i, i < pmax → (∀ part ∈ parts, IsPart part) → IsPart last → ∃ rest,
      split slash pmax (slashed parts ++ (last ++ 0 :: behind)) p true i =
        ((placed p ((named parts last).take (pmax - i))).map Prod.fst,
          ended ((named parts last).take (pmax - i)) ++ rest) := by
  -- The induction follows the parts, with the pointers found so far in `i`.
  induction parts with
  | nil =>
    intro p i room _ cleanLast
    obtain ⟨more, isMore⟩ : ∃ more, pmax - i = more + 1 := ⟨pmax - i - 1, by omega⟩
    have found := split_last pmax cleanLast behind p i
    rw [slashed, List.flatMap_nil, List.nil_append, found]
    by_cases nothing : last = []
    · exact ⟨0 :: behind, by simp [nothing, named, placed, ended]⟩
    · exact ⟨behind, by simp [nothing, named, placed, ended, isMore]⟩
  | cons part parts ih =>
    intro p i room clean cleanLast
    have own := clean part List.mem_cons_self
    have others : ∀ part ∈ parts, IsPart part :=
      fun part member => clean part (List.mem_cons_of_mem _ member)
    obtain ⟨more, isMore⟩ : ∃ more, pmax - i = more + 1 := ⟨pmax - i - 1, by omega⟩
    have text : slashed (part :: parts) ++ (last ++ 0 :: behind) =
        part ++ slash :: (slashed parts ++ (last ++ 0 :: behind)) := by
      simp [slashed]
    rw [text, split_part own, named_cons, isMore, List.take_succ_cons]
    by_cases full : i + 1 ≥ pmax
    · -- No room is left, and the string is cut here.
      have one : more = 0 := by omega
      exact ⟨slashed parts ++ (last ++ 0 :: behind), by simp [full, one, placed, ended]⟩
    · obtain ⟨rest, found⟩ := ih (p + part.length + 1) (i + 1) (by omega) others cleanLast
      have fewer : pmax - (i + 1) = more := by omega
      rw [fewer] at found
      exact ⟨rest, by simp [full, found, placed, ended]⟩

/-- The string at the place of a part is the part. -/
theorem cstr_placed (buf : CharBuf) (names : List CharBuf) :
    ∀ base rest, buf.drop base = ended names ++ rest → (∀ name ∈ names, IsPart name) →
      ∀ entry ∈ placed base names, cstr buf entry.1 = entry.2 := by
  induction names with
  | nil => intro base rest _ _ entry member; cases member
  | cons name names ih =>
    intro base rest holds parts entry member
    have part := parts name List.mem_cons_self
    rcases List.mem_cons.mp member with rfl | later
    · have whole : (name ++ 0 :: (ended names ++ rest)).takeWhile (fun c => c ≠ 0) = name := by
        rw [List.takeWhile_append_of_pos]
        · simp
        · intro c inside
          simpa using (part c inside).1
      rw [cstr, holds]
      simpa [ended] using whole
    · apply ih (base + name.length + 1) rest _
        (fun name member => parts name (List.mem_cons_of_mem _ member)) entry later
      rw [Nat.add_assoc, ← List.drop_drop, holds]
      simp [ended]

/-- Components are parts. -/
theorem named_parts {parts : List CharBuf} {last : CharBuf} :
    (∀ part ∈ named parts last, IsPart part) ↔ (∀ part ∈ parts, IsPart part) ∧ IsPart last := by
  unfold named
  by_cases nothing : last = []
  · subst nothing
    simp [IsPart]
  · rw [if_neg nothing]
    constructor
    · intro all
      exact ⟨fun part member => all part (List.mem_append_left _ member), all last (by simp)⟩
    · rintro ⟨all, own⟩ part member
      rcases List.mem_append.mp member with inside | isLast
      · exact all part inside
      · rw [List.mem_singleton.mp isLast]
        exact own

/-- The strings that `split` finds in a path are its first components. -/
theorem split_components {pmax : Nat} {path : CharBuf} (string : ∀ c ∈ path, c ≠ 0)
    (behind : CharBuf) (room : 0 < pmax) :
    let (fnames, buf) := split slash pmax (path ++ 0 :: behind) 0 true 0
    fnames.map (cstr buf) = (components path).take pmax := by
  obtain ⟨parts, last, text, splits, same⟩ := splitOn_slashed path
  have clean := splitOn_parts string
  rw [splits] at clean
  have cleanParts : ∀ part ∈ parts, IsPart part :=
    fun part member => clean part (List.mem_append_left _ member)
  have cleanLast : IsPart last := clean last (by simp)
  obtain ⟨rest, found⟩ := split_parts parts last behind 0 0 room cleanParts cleanLast
  rw [Nat.sub_zero, ← same, ← List.append_assoc, ← text] at found
  have firsts : ∀ name ∈ (components path).take pmax, IsPart name := by
    intro name member
    rw [same] at member
    exact named_parts.mpr ⟨cleanParts, cleanLast⟩ name (List.mem_of_mem_take member)
  have reads := cstr_placed (ended ((components path).take pmax) ++ rest)
    ((components path).take pmax) 0 rest (by simp) firsts
  simp only [found, List.map_map]
  calc
    _ = (placed 0 ((components path).take pmax)).map Prod.snd := List.map_congr_left reads
    _ = _ := placed_names 0 _

end GlucOS
