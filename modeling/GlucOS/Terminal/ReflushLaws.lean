import GlucOS.Terminal.Screen
import GlucOS.Lib.Terminal

/-! Refreshing sends what a terminal needs to show the new screen, and never leaves the buffers. -/

namespace GlucOS

open Routine

/-- A routine that does not stop. -/
abbrev Goes {State A : Type} (routine : Routine State ScreenStop A) (s : State)
    (post : A → State → Prop) : Prop :=
  Meets (fun _ => False) routine s post

/-- A routine that does not stop is one that runs to its end. -/
theorem goes_iff {State : Type} {routine : Routine State ScreenStop Unit} {s : State}
    {post : State → Prop} :
    (Goes routine s fun _ => post) ↔ ∃ next, routine s = .ok ((), next) ∧ post next := by
  unfold Goes Meets
  cases routine s with
  | ok answer =>
    refine ⟨fun holds => ⟨_, rfl, holds⟩, ?_⟩
    rintro ⟨_, same, holds⟩
    cases same
    exact holds
  | error reason => simp

/-! ## Digits -/

/-- What `mini_itoa` writes back to front are the digits of the number. -/
theorem miniDigits_value (rounds : Nat) : ∀ value : Nat, value < 10 ^ (rounds + 1) →
    (∀ byte ∈ miniDigits (rounds + 1) value, 48 ≤ byte ∧ byte ≤ 57) ∧
      Terminal.digitsValue 0 (miniDigits (rounds + 1) value).reverse = value := by
  -- Each round takes the last digit off, so that the induction is on the rounds.
  have digit : ∀ d < 10, 48 ≤ UInt8.ofNat (48 + d) ∧ UInt8.ofNat (48 + d) ≤ 57 ∧
      (UInt8.ofNat (48 + d)).toNat - 48 = d := by decide
  induction rounds with
  | zero =>
    intro value small
    have zero : value / 10 = 0 := by omega
    obtain ⟨low, high, worth⟩ := digit (value % 10) (by omega)
    simp only [miniDigits, zero, if_true, List.mem_singleton, forall_eq, List.reverse_singleton,
      Terminal.digitsValue, List.foldl_cons, List.foldl_nil, worth]
    exact ⟨⟨low, high⟩, by omega⟩
  | succ rounds ih =>
    intro value small
    obtain ⟨low, high, worth⟩ := digit (value % 10) (by omega)
    have unfolded : miniDigits (rounds + 1 + 1) value = UInt8.ofNat (48 + value % 10) ::
        if value / 10 = 0 then [] else miniDigits (rounds + 1) (value / 10) := rfl
    rw [unfolded]
    by_cases zero : value / 10 = 0
    · simp only [zero, if_true, List.mem_singleton, forall_eq, List.reverse_singleton,
        Terminal.digitsValue, List.foldl_cons, List.foldl_nil, worth]
      exact ⟨⟨low, high⟩, by omega⟩
    · have less : value / 10 < 10 ^ (rounds + 1) := by
        rw [pow_succ] at small
        omega
      obtain ⟨decimal, before⟩ := ih (value / 10) less
      simp only [if_neg zero, List.mem_cons, List.reverse_cons]
      constructor
      · intro byte inside
        cases inside with
        | inl last => rw [last]; exact ⟨low, high⟩
        | inr earlier => exact decimal byte earlier
      · unfold Terminal.digitsValue at before ⊢
        rw [List.foldl_append, before]
        simp only [List.foldl_cons, List.foldl_nil, worth]
        omega

/-- `mini_itoa` writes a number that is not negative in decimal. -/
theorem miniItoa_value (value : Nat) (small : value < 10 ^ 19) :
    (∀ byte ∈ miniItoa value, 48 ≤ byte ∧ byte ≤ 57) ∧
      Terminal.digitsValue 0 (miniItoa value) = value := by
  have same : miniItoa value = (miniDigits (18 + 1) value).reverse := by
    have positive : ¬ (value : Int) < 0 := by omega
    simp [miniItoa, positive]
  obtain ⟨decimal, worth⟩ := miniDigits_value 18 value small
  rw [same]
  exact ⟨fun byte inside => decimal byte (List.mem_reverse.mp inside), worth⟩

/-- The bytes of `vt100_move_cursor`. -/
def positionBytes (x y : Int) : List UInt8 :=
  27 :: 91 :: (miniItoa y ++ 59 :: (miniItoa x ++ [72]))

/-- The terminal understands `vt100_move_cursor`, which counts from one. -/
theorem feed_positionBytes {t : Terminal} (ground : t.parser = .ground) {x y : Nat}
    (narrow : x < 10 ^ 18) (low : y < 10 ^ 18) :
    t.feed (positionBytes ((x : Int) + 1) ((y : Int) + 1)) = { t with row := y, col := x } := by
  obtain ⟨rowDecimal, row⟩ := miniItoa_value (y + 1) (by omega)
  obtain ⟨colDecimal, col⟩ := miniItoa_value (x + 1) (by omega)
  have read := Terminal.feed_position ground rowDecimal colDecimal
  rw [row, col] at read
  exact read

/-! ## Cells -/

/-- A cell of the screen has an index. -/
theorem screenLoc_inside {i j : Nat} (low : i < screenHeight) (narrow : j < screenWidth) :
    InBuffer (screenLoc j i) ∧ (screenLoc j i).toNat = i * screenWidth + j := by
  unfold InBuffer screenLoc screenHeight screenWidth at *
  constructor
  · constructor <;> omega
  · omega

section Cells

variable {A : Type} {s : Screen} {r : Reflush} {loc : Int}

/-- Reading inside `new_screen`. -/
theorem getNew_ok (inside : InBuffer loc) : getNew loc s = .ok (s.newScreen loc.toNat, s) := by
  change (if _ then _ else _ : ScreenRoutine UInt8) s = _
  rw [if_pos inside]
  rfl

/-- Reading inside `old_screen`. -/
theorem getOld_ok (inside : InBuffer loc) : getOld loc s = .ok (s.oldScreen loc.toNat, s) := by
  change (if _ then _ else _ : ScreenRoutine UInt8) s = _
  rw [if_pos inside]
  rfl

/-- Writing inside `new_screen`. -/
theorem setNew_ok (inside : InBuffer loc) (ch : UInt8) : setNew loc ch s =
    .ok ((), { s with newScreen := Function.update s.newScreen loc.toNat ch }) := by
  unfold setNew
  rw [if_pos inside]
  rfl

/-- Writing inside `old_screen`. -/
theorem setOld_ok (inside : InBuffer loc) (ch : UInt8) : setOld loc ch s =
    .ok ((), { s with oldScreen := Function.update s.oldScreen loc.toNat ch }) := by
  unfold setOld
  rw [if_pos inside]
  rfl

/-- A routine inside `screen_reflush` leaves its local variables alone. -/
theorem onScreen_ok {routine : ScreenRoutine A} {value : A} {screen : Screen}
    (ran : routine r.screen = .ok (value, screen)) :
    onScreen routine r = .ok (value, { r with screen }) := by
  unfold onScreen
  rw [ran]

/-- What follows a routine that has run. -/
theorem bind_ok {State Stop B : Type} {routine : Routine State Stop A}
    {rest : A → Routine State Stop B} {state next : State} {value : A}
    (ran : routine state = .ok (value, next)) : (routine >>= rest) state = rest value next := by
  change (routine state).bind _ = _
  rw [ran]
  rfl

/-- The cells before an index are refreshed, and the last one printed was left of the cursor. -/
structure Refreshed (s : Screen) (n : Nat) (r : Reflush) : Prop where
  /-- Cursors and limits are as before. -/
  pcb : r.screen.pcb = s.pcb
  /-- So is the new screen. -/
  new : r.screen.newScreen = s.newScreen
  /-- The old screen has become the new one so far. -/
  old : ∀ k, r.screen.oldScreen k = if k < n then s.newScreen k else s.oldScreen k
  /-- What was sent shows the new screen so far. -/
  shown : ∃ bytes, r.screen.port = s.port ++ bytes ∧
    ∀ t : Terminal, t.parser = .ground →
      (∀ k < screenWidth * screenHeight, Printable (s.newScreen k)) →
      (t.feed bytes).parser = .ground ∧
      (∀ i j, j < screenWidth → (t.feed bytes).cells i j =
        if i * screenWidth + j < n ∧
            s.newScreen (i * screenWidth + j) ≠ s.oldScreen (i * screenWidth + j) then
          s.newScreen (i * screenWidth + j)
        else t.cells i j) ∧
      (0 ≤ r.i0 → ((t.feed bytes).row : Int) = r.i0 ∧ ((t.feed bytes).col : Int) = r.j0 + 1)

/-- A cell that has not changed is skipped. -/
theorem Refreshed.skip {n : Nat} (refreshed : Refreshed s n r)
    (same : s.newScreen n = s.oldScreen n) : Refreshed s (n + 1) r where
  pcb := refreshed.pcb
  new := refreshed.new
  old := by
    intro k
    rw [refreshed.old]
    by_cases here : k = n
    · simp [here, same]
    · exact if_congr (by omega) rfl rfl
  shown := by
    obtain ⟨bytes, port, draws⟩ := refreshed.shown
    refine ⟨bytes, port, fun t ground printable => ?_⟩
    obtain ⟨after, cells, cursor⟩ := draws t ground printable
    refine ⟨after, fun i j narrow => ?_, cursor⟩
    rw [cells i j narrow]
    by_cases here : i * screenWidth + j = n
    · simp [here, same]
    · exact if_congr (and_congr_left fun _ => by omega) rfl rfl

/-- The bytes sent for a changed cell: the position is left out behind the last cell printed. -/
def cellBytes (r : Reflush) (i j : Nat) (ch : UInt8) : List UInt8 :=
  (if i = r.i0 ∧ j = r.j0 + 1 then [] else positionBytes (j + 1) (i + 1)) ++ [ch]

/-- A changed cell is printed where it belongs. -/
theorem Refreshed.print {i j : Nat} (refreshed : Refreshed s (i * screenWidth + j) r)
    (low : i < screenHeight) (narrow : j < screenWidth)
    (differ : s.newScreen (i * screenWidth + j) ≠ s.oldScreen (i * screenWidth + j)) :
    Refreshed s (i * screenWidth + (j + 1))
      { screen :=
          { r.screen with
            port := r.screen.port ++ cellBytes r i j (s.newScreen (i * screenWidth + j))
            oldScreen := Function.update r.screen.oldScreen (i * screenWidth + j)
              (s.newScreen (i * screenWidth + j)) }
        i0 := i
        j0 := j } where
  pcb := refreshed.pcb
  new := refreshed.new
  old := by
    intro k
    by_cases here : k = i * screenWidth + j
    · simp [here]
    · simp only [Function.update_of_ne here, refreshed.old]
      exact if_congr (by omega) rfl rfl
  shown := by
    obtain ⟨bytes, port, draws⟩ := refreshed.shown
    refine ⟨bytes ++ cellBytes r i j (s.newScreen (i * screenWidth + j)), by simp [port], ?_⟩
    intro t ground printable
    obtain ⟨after, cells, cursor⟩ := draws t ground printable
    have inside : i * screenWidth + j < screenWidth * screenHeight := by
      unfold screenWidth screenHeight at *
      omega
    -- Whether or not its position was sent, the terminal's cursor is now at the cell.
    have placed : ((t.feed bytes).feed
        (if i = r.i0 ∧ j = r.j0 + 1 then [] else positionBytes (j + 1) (i + 1))) =
        { t.feed bytes with row := i, col := j } := by
      by_cases next : i = r.i0 ∧ j = r.j0 + 1
      · obtain ⟨row, col⟩ := cursor (by omega)
        have row : (t.feed bytes).row = i := by omega
        have col : (t.feed bytes).col = j := by omega
        rw [if_pos next, Terminal.feed_nil, ← row, ← col]
      · rw [if_neg next]
        refine feed_positionBytes after ?_ ?_
        · unfold screenWidth at narrow; omega
        · unfold screenHeight at low; omega
    have drawn : t.feed (bytes ++ cellBytes r i j (s.newScreen (i * screenWidth + j))) =
        ({ t.feed bytes with row := i, col := j } : Terminal).print
          (s.newScreen (i * screenWidth + j)) := by
      unfold cellBytes
      rw [Terminal.feed_append, Terminal.feed_append, placed, Terminal.feed_cons,
        Terminal.feed_nil]
      exact Terminal.step_print after (printable _ inside)
    rw [drawn]
    refine ⟨after, fun i' j' narrow' => ?_, fun _ => ⟨rfl, by simp [Terminal.print]⟩⟩
    by_cases here : i' = i ∧ j' = j
    · obtain ⟨rfl, rfl⟩ := here
      simp [Terminal.print, differ]
    · have other : i' * screenWidth + j' ≠ i * screenWidth + j := by
        unfold screenWidth at *
        omega
      have kept : (({ t.feed bytes with row := i, col := j } : Terminal).print
          (s.newScreen (i * screenWidth + j))).cells i' j' = (t.feed bytes).cells i' j' := by
        by_cases row : i' = i
        · have col : j' ≠ j := fun col => here ⟨row, col⟩
          simp [Terminal.print, row, col]
        · simp [Terminal.print, row]
      rw [kept, cells i' j' narrow']
      exact if_congr (and_congr_left fun _ => by omega) rfl rfl

/-- One round of both loops. -/
theorem reflushCell_refreshes {i j : Nat} (refreshed : Refreshed s (i * screenWidth + j) r)
    (low : i < screenHeight) (narrow : j < screenWidth) :
    ∃ r', reflushCell i j r = .ok ((), r') ∧ Refreshed s (i * screenWidth + (j + 1)) r' := by
  -- The cell is compared first, and then perhaps printed, behind its position if need be.
  obtain ⟨inside, index⟩ := screenLoc_inside low narrow
  have new := onScreen_ok (r := r) (getNew_ok (s := r.screen) inside)
  have old := onScreen_ok (r := r) (getOld_ok (s := r.screen) inside)
  rw [index, refreshed.new] at new
  rw [index, refreshed.old, if_neg (Nat.lt_irrefl _)] at old
  by_cases same : s.newScreen (i * screenWidth + j) = s.oldScreen (i * screenWidth + j)
  · have ran : reflushCell i j r = .ok ((), r) := by
      unfold reflushCell
      rw [bind_ok new, bind_ok old, if_neg (not_not.mpr same)]
      rfl
    exact ⟨r, ran, refreshed.skip same⟩
  · have sent : ∀ r bytes, onScreen (biosPutstr bytes) r =
        .ok ((), { r with screen := { r.screen with port := r.screen.port ++ bytes } }) :=
      fun _ _ => rfl
    have ran : reflushCell i j r = .ok ((),
        { screen :=
            { r.screen with
              port := r.screen.port ++ cellBytes r i j (s.newScreen (i * screenWidth + j))
              oldScreen := Function.update r.screen.oldScreen (i * screenWidth + j)
                (s.newScreen (i * screenWidth + j)) }
          i0 := i
          j0 := j }) := by
      have asked : (get : Routine Reflush ScreenStop Reflush) r = .ok (r, r) := rfl
      unfold reflushCell cellBytes biosPutchar
      rw [bind_ok new, bind_ok old, if_pos same, ← List.append_assoc, ← index, bind_ok asked]
      by_cases next : (i : Int) = r.i0 ∧ (j : Int) = r.j0 + 1
      · rw [if_pos next, if_pos next, List.append_nil]
        beta_reduce
        rw [bind_ok (sent _ _), bind_ok (onScreen_ok (setOld_ok inside _))]
        rfl
      · rw [if_neg next, if_neg next]
        unfold vt100MoveCursor
        rw [bind_ok (sent _ _)]
        beta_reduce
        rw [bind_ok (sent _ _), bind_ok (onScreen_ok (setOld_ok inside _))]
        rfl
    exact ⟨_, ran, refreshed.print low narrow same⟩

attribute [local irreducible] reflushCell forUpto

/-- The whole loops. -/
theorem reflushCells_refreshes (s : Screen) :
    Goes reflushCells { screen := s, i0 := -1, j0 := -2 } fun _ =>
      Refreshed s (screenHeight * screenWidth) := by
  -- Rows are refreshed one after the other, and cells in each row.
  have start : Refreshed s (0 * screenWidth) { screen := s, i0 := -1, j0 := -2 } :=
    { pcb := rfl
      new := rfl
      old := fun k => by simp
      shown := ⟨[], by simp, fun t ground _ => ⟨ground, by simp, by simp⟩⟩ }
  have cell : ∀ i < screenHeight, ∀ j < screenWidth, ∀ r,
      Refreshed s (i * screenWidth + j) r →
      Goes (reflushCell i j) r fun _ => Refreshed s (i * screenWidth + (j + 1)) :=
    fun i low j narrow r refreshed => goes_iff.mpr (reflushCell_refreshes refreshed low narrow)
  unfold reflushCells
  refine meets_forUpto (fun i => Refreshed s (i * screenWidth)) screenHeight start
    fun i low r refreshed => ?_
  rw [Nat.succ_mul]
  exact meets_forUpto (fun j => Refreshed s (i * screenWidth + j)) screenWidth refreshed
    (cell i low)

end Cells

attribute [local irreducible] reflushCells

/-- A terminal shows the contents of a buffer. -/
def Shows (t : Terminal) (buffer : Nat → UInt8) : Prop :=
  ∀ i < screenHeight, ∀ j < screenWidth, t.cells i j = buffer (i * screenWidth + j)

/-- The cursor of a process lies on the screen. -/
def ScreenPcb.Inside (pcb : ScreenPcb) : Prop :=
  (0 ≤ pcb.cursorX ∧ pcb.cursorX < screenWidth) ∧ 0 ≤ pcb.cursorY ∧ pcb.cursorY < screenHeight

instance (pcb : ScreenPcb) : Decidable pcb.Inside := inferInstanceAs (Decidable (_ ∧ _))

/-- Refreshing always comes to its end, and changes neither cursors nor the new screen. -/
theorem screenReflush_refreshes (p : Nat) (s : Screen) :
    ∃ r, Refreshed s (screenHeight * screenWidth) r ∧
      screenReflush p s = .ok ((), { r.screen with
        port := r.screen.port ++
          positionBytes ((s.pcb p).cursorX + 1) ((s.pcb p).cursorY + 1) }) := by
  obtain ⟨r, ran, refreshed⟩ := goes_iff.mp (reflushCells_refreshes s)
  refine ⟨r, refreshed, ?_⟩
  rw [← refreshed.pcb]
  unfold screenReflush
  refine bind_ok (?_ : _ = Except.ok ((), r.screen))
  rw [ran]

/--
Refreshing is as good as drawing everything anew.

A terminal that shows the old screen shows the new one, with its cursor where the process has it.
-/
theorem reflush_redraws (p : Nat) (s : Screen) (t : Terminal)
    (printable : ∀ k < screenWidth * screenHeight, Printable (s.newScreen k))
    (inside : (s.pcb p).Inside) (ground : t.parser = .ground) (shows : Shows t s.oldScreen) :
    ∃ s' bytes, screenReflush p s = .ok ((), s') ∧ s'.port = s.port ++ bytes ∧
      s'.newScreen = s.newScreen ∧
      (∀ k < screenWidth * screenHeight, s'.oldScreen k = s'.newScreen k) ∧
      Shows (t.feed bytes) s'.newScreen ∧ (t.feed bytes).parser = .ground ∧
      ((t.feed bytes).row : Int) = (s.pcb p).cursorY ∧
      ((t.feed bytes).col : Int) = (s.pcb p).cursorX := by
  -- After all cells only the position of the cursor of the process is sent.
  obtain ⟨r, refreshed, ran⟩ := screenReflush_refreshes p s
  obtain ⟨bytes, port, draws⟩ := refreshed.shown
  obtain ⟨after, cells, -⟩ := draws t ground printable
  obtain ⟨⟨left, right⟩, top, bottom⟩ := inside
  obtain ⟨x, column⟩ := Int.eq_ofNat_of_zero_le left
  obtain ⟨y, line⟩ := Int.eq_ofNat_of_zero_le top
  rw [column] at right
  rw [line] at bottom
  have narrow : x < screenWidth := by omega
  have low : y < screenHeight := by omega
  have placed : t.feed (bytes ++ positionBytes ((x : Int) + 1) ((y : Int) + 1)) =
      { t.feed bytes with row := y, col := x } := by
    rw [Terminal.feed_append]
    refine feed_positionBytes after ?_ ?_
    · unfold screenWidth at narrow; omega
    · unfold screenHeight at low; omega
  rw [column, line] at ran
  refine ⟨_, bytes ++ positionBytes ((x : Int) + 1) ((y : Int) + 1), ran,
    by simp [port, List.append_assoc], refreshed.new, ?_, ?_, ?_, ?_, ?_⟩
  · intro k small
    change r.screen.oldScreen k = r.screen.newScreen k
    rw [refreshed.old, refreshed.new, if_pos (by rw [Nat.mul_comm]; exact small)]
  · intro i low j narrow
    change _ = r.screen.newScreen _
    have index : i * screenWidth + j < screenHeight * screenWidth := by
      unfold screenWidth screenHeight at *
      omega
    rw [placed, refreshed.new]
    change (t.feed bytes).cells i j = _
    rw [cells i j narrow]
    by_cases same : s.newScreen (i * screenWidth + j) = s.oldScreen (i * screenWidth + j)
    · rw [if_neg (by simp [same]), shows i low j narrow, same]
    · rw [if_pos ⟨index, same⟩]
  · rw [placed]
    exact after
  · rw [placed, line]
  · rw [placed, column]

/-- A blank terminal is filled with a letter. -/
theorem reflush_redraws_letters :
    ∃ s' bytes, screenReflush 0
        { bootScreen with newScreen := fun _ => 65, oldScreen := fun _ => 32 } = .ok ((), s') ∧
      s'.port = [] ++ bytes ∧
      s'.newScreen = (fun _ => 65) ∧
      (∀ k < screenWidth * screenHeight, s'.oldScreen k = s'.newScreen k) ∧
      Shows (Terminal.feed ⟨fun _ _ => 32, 7, 3, .ground⟩ bytes) s'.newScreen ∧
      (Terminal.feed ⟨fun _ _ => 32, 7, 3, .ground⟩ bytes).parser = .ground ∧
      ((Terminal.feed ⟨fun _ _ => 32, 7, 3, .ground⟩ bytes).row : Int) = 0 ∧
      ((Terminal.feed ⟨fun _ _ => 32, 7, 3, .ground⟩ bytes).col : Int) = 0 :=
  reflush_redraws 0 { bootScreen with newScreen := fun _ => 65, oldScreen := fun _ => 32 }
    ⟨fun _ _ => 32, 7, 3, .ground⟩ (fun _ _ => show Printable 65 by decide)
    (show newScreenPcb.Inside by decide) rfl (fun _ _ _ _ => rfl)

end GlucOS
