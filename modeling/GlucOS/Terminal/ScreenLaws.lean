import GlucOS.Terminal.ReflushLaws

/-! When the cursors and the buffers of the screen are kept to its size. -/

namespace GlucOS

open Routine

attribute [local irreducible] screenReflush forUpto

/-- Every cursor lies on the screen. -/
def CursorsInside (s : Screen) : Prop := ∀ p, (s.pcb p).Inside

section Steps

variable {s : Screen} {pcb : Nat → ScreenPcb} {loc : Int}

/-- A routine that goes to its end and leaves all PCBs alone. -/
abbrev Draws (routine : ScreenRoutine Unit) (pcb : Nat → ScreenPcb) : Prop :=
  ∀ s : Screen, s.pcb = pcb → Goes routine s fun _ s' => s'.pcb = pcb

/-- Blanks are drawn inside the buffers. -/
theorem setNew_draws (inside : InBuffer loc) (ch : UInt8) : Draws (setNew loc ch) pcb :=
  fun _ same => goes_iff.mpr ⟨_, setNew_ok inside ch, same⟩

/-- The same for the other buffer. -/
theorem setOld_draws (inside : InBuffer loc) (ch : UInt8) : Draws (setOld loc ch) pcb :=
  fun _ same => goes_iff.mpr ⟨_, setOld_ok inside ch, same⟩

/-- Copying from one index to another. -/
theorem copy_draws {source target : Int} (there : InBuffer source) (here : InBuffer target) :
    Draws (getNew source >>= fun ch => setNew target ch) pcb := by
  intro s same
  apply goes_iff.mpr
  refine ⟨{ s with
    newScreen := Function.update s.newScreen target.toNat (s.newScreen source.toNat) }, ?_, same⟩
  rw [bind_ok (getNew_ok there), setNew_ok here]

/-- One routine and then another. -/
theorem Draws.bind {first second : ScreenRoutine Unit} (one : Draws first pcb)
    (two : Draws second pcb) : Draws (first >>= fun _ => second) pcb :=
  fun s same => Meets.bind (one s same) fun _ s' kept => two s' kept

/-- A loop draws when each of its rounds does. -/
theorem forRange_draws {first last : Int} {body : Int → ScreenRoutine Unit}
    (round : ∀ i, first ≤ i → i < last → Draws (body i) pcb) :
    Draws (forRange first last body) pcb := by
  -- The rounds are counted from zero.
  intro s same
  exact meets_forUpto (fun _ s => s.pcb = pcb) (last - first).toNat same
    fun k small s same => round (first + k) (by omega) (by omega) s same

/-- Sending bytes. -/
theorem biosPutstr_draws (bytes : List UInt8) : Draws (biosPutstr bytes) pcb :=
  fun _ same => same

/-- Refreshing. -/
theorem screenReflush_draws (p : Nat) : Draws (screenReflush p) pcb := by
  intro s same
  apply goes_iff.mpr
  obtain ⟨r, refreshed, ran⟩ := screenReflush_refreshes p s
  exact ⟨_, ran, refreshed.pcb.trans same⟩

/-- An index of a row and a column of the screen. -/
theorem inBuffer_of {x y : Int} (left : 0 ≤ x) (right : x < screenWidth) (top : 0 ≤ y)
    (bottom : y < screenHeight) : InBuffer (screenLoc x y) := by
  unfold InBuffer screenLoc screenWidth screenHeight at *
  constructor <;> omega

/-- Changing one PCB. -/
theorem cursorsInside_update {pcb : Nat → ScreenPcb} (inside : ∀ p, (pcb p).Inside) (p : Nat)
    {new : ScreenPcb} (good : new.Inside) : ∀ q, (Function.update pcb p new q).Inside := by
  intro q
  by_cases same : q = p
  · rw [same, Function.update_self]
    exact good
  · rw [Function.update_of_ne same]
    exact inside q

/-- The cursor is back in its column, and perhaps one row below. -/
def ScreenPcb.nextLine (pcb : ScreenPcb) : ScreenPcb :=
  { pcb with
    cursorX := 0
    cursorY := if pcb.cursorY < screenHeight - 1 then pcb.cursorY + 1 else pcb.cursorY }

/-- Whether the next line makes the rows between the limits scroll. -/
def ScreenPcb.Scrolls (pcb : ScreenPcb) : Prop :=
  0 ≤ pcb.cylimL ∧ pcb.cylimL ≤ pcb.cylimH ∧
    (pcb.cylimH < pcb.nextLine.cursorY ∨ ¬ pcb.cursorY < screenHeight - 1)

instance (pcb : ScreenPcb) : Decidable pcb.Scrolls := inferInstanceAs (Decidable (_ ∧ _))

/-- `write_lf` moves to the next line, and then scrolls or not. -/
theorem writeLf_eq (p : Nat) (s : Screen) : writeLf p s =
    (if (s.pcb p).Scrolls then scroll p (s.pcb p).cylimL (s.pcb p).cylimH else pure ())
      { s with pcb := Function.update s.pcb p (s.pcb p).nextLine } := by
  -- Both assignments to the cursor are seen as one.
  have moved (change : ScreenPcb → ScreenPcb) (s : Screen) : setScreenPcb p change s =
      .ok ((), { s with pcb := Function.update s.pcb p (change (s.pcb p)) }) := rfl
  have asked (s : Screen) : (get : ScreenRoutine Screen) s = .ok (s, s) := rfl
  unfold writeLf
  rw [bind_ok (moved _ _), bind_ok (asked _)]
  simp only [Function.update_self]
  by_cases room : (s.pcb p).cursorY < screenHeight - 1
  · have next : (s.pcb p).nextLine =
        { s.pcb p with cursorX := 0, cursorY := (s.pcb p).cursorY + 1 } := by
      unfold ScreenPcb.nextLine
      rw [if_pos room]
    have scrolls : (s.pcb p).Scrolls ↔ 0 ≤ (s.pcb p).cylimL ∧
        (s.pcb p).cylimL ≤ (s.pcb p).cylimH ∧ (s.pcb p).cylimH < (s.pcb p).cursorY + 1 := by
      unfold ScreenPcb.Scrolls
      rw [next]
      simp [room]
    rw [if_neg (by simp [room]), bind_ok (moved _ _), bind_ok (asked _)]
    simp only [Function.update_self, Function.update_idem, room, not_true_eq_false, or_false, next]
    rw [if_congr scrolls rfl rfl]
  · have next : (s.pcb p).nextLine = { s.pcb p with cursorX := 0 } := by
      unfold ScreenPcb.nextLine
      rw [if_neg room]
    have scrolls : (s.pcb p).Scrolls ↔ 0 ≤ (s.pcb p).cylimL ∧
        (s.pcb p).cylimL ≤ (s.pcb p).cylimH := by
      unfold ScreenPcb.Scrolls
      simp [room]
    rw [if_pos (by simp [room])]
    rw [bind_ok (asked _)]
    simp only [Function.update_self, room, not_false_eq_true, or_true, and_true, next]
    rw [if_congr scrolls rfl rfl]

/-- Scrolling between limits on the screen ends in the row of the upper one. -/
theorem scroll_goes {p : Nat} {cylimL cylimH : Int} (low : 0 ≤ cylimL)
    (high : cylimH < screenHeight) (proper : cylimL ≤ cylimH) (s : Screen) :
    Goes (scroll p cylimL cylimH) s fun _ s' =>
      s'.pcb = Function.update s.pcb p { s.pcb p with cursorY := cylimH } := by
  -- The rows copied from end where the last one is blanked.
  have rows : Draws (forRange cylimL cylimH fun y => forRange 0 screenWidth fun x => do
      let ch ← getNew (screenLoc x (y + 1))
      setNew (screenLoc x y) ch) s.pcb :=
    forRange_draws fun y first last => forRange_draws fun x left right =>
      copy_draws (inBuffer_of left right (by omega) (by omega))
        (inBuffer_of left right (by omega) (by omega))
  have blank : Draws (forRange 0 screenWidth fun x => setNew (screenLoc x cylimH) 32)
      (Function.update s.pcb p { s.pcb p with cursorY := cylimH }) :=
    forRange_draws fun x left right =>
      setNew_draws (inBuffer_of left right (by omega) high) 32
  unfold scroll
  refine Meets.bind (rows s rfl) fun _ s₁ kept => ?_
  have moved : Goes (setScreenPcb p fun pcb => { pcb with cursorY := cylimH }) s₁ fun _ s₂ =>
      s₂.pcb = Function.update s.pcb p { s.pcb p with cursorY := cylimH } :=
    goes_iff.mpr ⟨_, rfl, by simp [kept]⟩
  exact Meets.bind moved fun _ s₂ same => blank s₂ same

/-- A routine may do anything at all. -/
theorem goes_anywhere {A : Type} (routine : ScreenRoutine A) (s : Screen) :
    Meets (fun _ => True) routine s fun _ _ => True := by
  unfold Meets
  cases routine s with
  | ok answer => trivial
  | error reason => trivial

/-- Scrolling with an upper limit below the screen leaves the buffer. -/
theorem scroll_overruns {p : Nat} {cylimL cylimH : Int} (high : (screenHeight : Int) ≤ cylimH)
    (s : Screen) : ∃ index, scroll p cylimL cylimH s = .error (.overrun index) := by
  -- However far the rows are copied, the last one cannot be blanked.
  have outside : ¬ InBuffer (screenLoc (0 + (79 : Nat)) cylimH) := by
    unfold InBuffer screenLoc screenWidth screenHeight at *
    omega
  have blank (s : Screen) : Meets (fun _ => True)
      (forRange 0 screenWidth fun x => setNew (screenLoc x cylimH) 32) s fun _ _ => False := by
    unfold forRange screenWidth
    change Meets _ (forUpto (79 + 1) _) _ _
    unfold forUpto
    refine Meets.bind (goes_anywhere _ s) fun _ s₁ _ => ?_
    unfold setNew
    beta_reduce
    rw [if_neg outside]
    trivial
  have stops : Meets (fun _ => True) (scroll p cylimL cylimH) s fun _ _ => False := by
    unfold scroll
    refine Meets.bind (goes_anywhere _ s) fun _ s₁ _ => ?_
    exact Meets.bind (goes_anywhere _ s₁) fun _ s₂ _ => blank s₂
  cases ran : scroll p cylimL cylimH s with
  | ok answer => exact (stops.of_ok ran).elim
  | error reason =>
    obtain ⟨index⟩ := reason
    exact ⟨index, rfl⟩

/-- The line after one on the screen is on the screen, unless scrolling leaves it. -/
theorem writeLf_goes {p : Nat} {s : Screen} (others : ∀ q, q ≠ p → (s.pcb q).Inside)
    (top : 0 ≤ (s.pcb p).cursorY) (bottom : (s.pcb p).cursorY < screenHeight)
    (fits : (s.pcb p).Scrolls → (s.pcb p).cylimH < screenHeight) :
    Goes (writeLf p) s fun _ s' => CursorsInside s' := by
  have ends : ∀ y : Int, 0 ≤ y → y < screenHeight → ∀ q, (Function.update s.pcb p
      { (s.pcb p).nextLine with cursorY := y } q).Inside := by
    intro y above below q
    by_cases same : q = p
    · rw [same, Function.update_self]
      exact ⟨⟨le_rfl, show (0 : Int) < screenWidth by decide⟩, above, below⟩
    · rw [Function.update_of_ne same]
      exact others q same
  have next : 0 ≤ (s.pcb p).nextLine.cursorY ∧ (s.pcb p).nextLine.cursorY < screenHeight := by
    unfold ScreenPcb.nextLine
    by_cases room : (s.pcb p).cursorY < screenHeight - 1
    · simp only [if_pos room]
      omega
    · simp only [if_neg room]
      omega
  apply goes_iff.mpr
  rw [writeLf_eq]
  by_cases down : (s.pcb p).Scrolls
  · have scrolled := scroll_goes (p := p) down.1 (fits down) down.2.1
      { s with pcb := Function.update s.pcb p (s.pcb p).nextLine }
    obtain ⟨s', ran, same⟩ := goes_iff.mp scrolled
    rw [if_pos down]
    refine ⟨s', ran, fun q => ?_⟩
    rw [same]
    simp only [Function.update_self, Function.update_idem]
    exact ends _ (down.1.trans down.2.1) (fits down) q
  · rw [if_neg down]
    exact ⟨_, rfl, ends _ next.1 next.2⟩

/-- Whether a character ends the line. -/
def EndsLine (pcb : ScreenPcb) (ch : UInt8) : Prop :=
  ch = 10 ∨ (ch ≠ 8 ∧ ch ≠ 127 ∧ screenWidth ≤ pcb.cursorX + 1)

instance (pcb : ScreenPcb) (ch : UInt8) : Decidable (EndsLine pcb ch) :=
  inferInstanceAs (Decidable (_ ∨ _))

/-- The last line of the screen ends, and the limits reach below the screen. -/
def Overruns (s : Screen) : ScreenEvent → Prop
  | .writeCh p ch => EndsLine (s.pcb p) ch ∧ (s.pcb p).cursorY = screenHeight - 1 ∧
      0 ≤ (s.pcb p).cylimL ∧ (s.pcb p).cylimL ≤ (s.pcb p).cylimH ∧
      screenHeight ≤ (s.pcb p).cylimH
  | _ => False

instance (s : Screen) (event : ScreenEvent) : Decidable (Overruns s event) := by
  cases event <;> unfold Overruns <;> infer_instance

/-- What `screen_write_ch` does with a character that is neither a line feed nor a backspace. -/
theorem screenWriteCh_other {p : Nat} {s : Screen} {ch : UInt8} (feed : ch ≠ 10)
    (back : ¬ (ch = 8 ∨ ch = 127)) (inside : (s.pcb p).Inside) : screenWriteCh p ch s =
    (if screenWidth ≤ (s.pcb p).cursorX + 1 then writeLf p else pure ())
      { s with
        newScreen := Function.update s.newScreen
          (screenLoc (s.pcb p).cursorX (s.pcb p).cursorY).toNat ch
        pcb := Function.update s.pcb p { s.pcb p with cursorX := (s.pcb p).cursorX + 1 } } := by
  have stored := setNew_ok (s := s)
    (inBuffer_of inside.1.1 inside.1.2 inside.2.1 inside.2.2) ch
  have moved (change : ScreenPcb → ScreenPcb) (s : Screen) : setScreenPcb p change s =
      .ok ((), { s with pcb := Function.update s.pcb p (change (s.pcb p)) }) := rfl
  have asked : (get : ScreenRoutine Screen) s = .ok (s, s) := rfl
  unfold screenWriteCh
  rw [bind_ok asked, if_neg feed, if_neg back, bind_ok stored, bind_ok (moved _ _)]

/-- `screen_rclear` checks its rows. -/
theorem screenRclear_draws (p : Nat) (ybegin yend : Int) :
    Draws (screenRclear p ybegin yend) pcb := by
  intro s same
  unfold screenRclear
  refine meets_ite (fun rows => ?_) (fun _ => screenReflush_draws p s same)
  have blank : Draws (forRange ybegin yend fun i =>
      forRange 0 screenWidth fun j => setNew (screenLoc j i) 32) pcb :=
    forRange_draws fun i first last => forRange_draws fun j left right =>
      setNew_draws (inBuffer_of left right (by omega) (by omega)) 32
  exact blank.bind (screenReflush_draws p) s same

/-- `screen_clear` leaves the cursor in the corner. -/
theorem screenClear_goes (p : Nat) (s : Screen) : Goes (screenClear p) s fun _ s' =>
    s'.pcb = Function.update s.pcb p { s.pcb p with cursorX := 0, cursorY := 0 } := by
  have blank : Draws (forRange 0 screenHeight fun i => forRange 0 screenWidth fun j => do
      setNew (screenLoc j i) 32
      setOld (screenLoc j i) 32) s.pcb :=
    forRange_draws fun i top bottom => forRange_draws fun j left right =>
      (setNew_draws (inBuffer_of left right top bottom) 32).bind
        (setOld_draws (inBuffer_of left right top bottom) 32)
  unfold screenClear
  refine Meets.bind (biosPutstr_draws _ s rfl) fun _ s₁ kept => ?_
  refine Meets.bind (blank s₁ kept) fun _ s₂ kept => ?_
  have moved : Goes (setScreenPcb p fun pcb => { pcb with cursorX := 0, cursorY := 0 }) s₂
      fun _ s₃ => s₃.pcb = Function.update s.pcb p { s.pcb p with cursorX := 0, cursorY := 0 } :=
    goes_iff.mpr ⟨_, rfl, by simp [kept]⟩
  exact Meets.bind moved fun _ s₃ same => screenReflush_draws p s₃ same

/-- Scrolling stays on the screen unless the last line overruns it. -/
theorem fits_of_safe {new : ScreenPcb} (bottom : new.cursorY < screenHeight)
    (safe : ¬ (new.cursorY = screenHeight - 1 ∧ 0 ≤ new.cylimL ∧ new.cylimL ≤ new.cylimH ∧
      screenHeight ≤ new.cylimH)) (down : new.Scrolls) : new.cylimH < screenHeight := by
  obtain ⟨low, proper, reached⟩ := down
  unfold ScreenPcb.nextLine at reached
  by_cases room : new.cursorY < screenHeight - 1
  · simp only [room, not_true_eq_false, or_false] at reached
    omega
  · omega

/-- Writing a character that does not overrun the buffers. -/
theorem screenWriteCh_goes {s : Screen} (inside : CursorsInside s) (p : Nat) (ch : UInt8)
    (safe : ¬ Overruns s (.writeCh p ch)) :
    Goes (screenWriteCh p ch) s fun _ s' => CursorsInside s' := by
  have safe : EndsLine (s.pcb p) ch → ¬ ((s.pcb p).cursorY = screenHeight - 1 ∧
      0 ≤ (s.pcb p).cylimL ∧ (s.pcb p).cylimL ≤ (s.pcb p).cylimH ∧
      screenHeight ≤ (s.pcb p).cylimH) := fun ends bad => safe ⟨ends, bad⟩
  obtain ⟨⟨left, right⟩, top, bottom⟩ := inside p
  by_cases feed : ch = 10
  · have line := writeLf_goes (fun q _ => inside q) top bottom
      (fits_of_safe bottom (safe (.inl feed)))
    unfold Goes screenWriteCh
    rw [meets_get_bind, if_pos feed]
    exact line
  · by_cases back : ch = 8 ∨ ch = 127
    · unfold Goes screenWriteCh
      rw [meets_get_bind, if_neg feed, if_pos back]
      refine meets_ite (fun right' => ?_) fun first =>
        meets_ite (fun below => ?_) (fun _ => inside)
      · have good : ScreenPcb.Inside { s.pcb p with cursorX := (s.pcb p).cursorX - 1 } :=
          ⟨⟨by change 0 ≤ (s.pcb p).cursorX - 1; omega,
            by change (s.pcb p).cursorX - 1 < screenWidth; omega⟩, top, bottom⟩
        exact cursorsInside_update inside p good
      · have good : ScreenPcb.Inside { s.pcb p with
            cursorY := (s.pcb p).cursorY - 1, cursorX := screenWidth - 1 } :=
          ⟨show (0 : Int) ≤ screenWidth - 1 ∧ (screenWidth : Int) - 1 < screenWidth by decide,
            by change 0 ≤ (s.pcb p).cursorY - 1; omega,
            by change (s.pcb p).cursorY - 1 < screenHeight; omega⟩
        exact cursorsInside_update inside p good
    · apply goes_iff.mpr
      rw [screenWriteCh_other feed back (inside p)]
      by_cases full : screenWidth ≤ (s.pcb p).cursorX + 1
      · rw [if_pos full]
        apply goes_iff.mp
        have ends : EndsLine (s.pcb p) ch :=
          .inr ⟨fun same => back (.inl same), fun same => back (.inr same), full⟩
        refine writeLf_goes ?_ ?_ ?_ ?_
        · intro q other
          simp only [Function.update_of_ne other]
          exact inside q
        · simpa only [Function.update_self] using top
        · simpa only [Function.update_self] using bottom
        · simp only [Function.update_self]
          exact fun down => fits_of_safe bottom (safe ends) down
      · rw [if_neg full]
        have good : ScreenPcb.Inside { s.pcb p with cursorX := (s.pcb p).cursorX + 1 } :=
          ⟨⟨by change 0 ≤ (s.pcb p).cursorX + 1; omega,
            by change (s.pcb p).cursorX + 1 < screenWidth; omega⟩, top, bottom⟩
        exact ⟨_, rfl, cursorsInside_update inside p good⟩

/-- A step that does not overrun the buffers leaves all cursors on the screen. -/
theorem screenStep_goes {s : Screen} (inside : CursorsInside s) (event : ScreenEvent)
    (safe : ¬ Overruns s event) : Goes (screenStep event) s fun _ s' => CursorsInside s' := by
  have stays {s' : Screen} (same : s'.pcb = s.pcb) : CursorsInside s' := by
    unfold CursorsInside
    rw [same]
    exact inside
  cases event with
  | setCylim p cylimL cylimH =>
    have good : ScreenPcb.Inside { s.pcb p with cylimL, cylimH } := inside p
    exact cursorsInside_update inside p good
  | moveCursor p x y =>
    have clamped (value : Int) {bound : Int} (positive : 0 < bound) :
        0 ≤ clamp value bound ∧ clamp value bound < bound := by
      unfold clamp
      split
      · omega
      · split <;> omega
    have good : ScreenPcb.Inside { s.pcb p with
        cursorX := clamp x screenWidth, cursorY := clamp y screenHeight } :=
      ⟨clamped x (by decide), clamped y (by decide)⟩
    exact cursorsInside_update inside p good
  | rclear p ybegin yend =>
    exact (screenRclear_draws p ybegin yend s rfl).mono fun _ _ same => stays same
  | clear p =>
    have good : ScreenPcb.Inside { s.pcb p with cursorX := 0, cursorY := 0 } :=
      show ((0 : Int) ≤ 0 ∧ (0 : Int) < screenWidth) ∧ (0 : Int) ≤ 0 ∧ (0 : Int) < screenHeight by
        decide
    refine (screenClear_goes p s).mono fun _ s' same => ?_
    unfold CursorsInside
    rw [same]
    exact cursorsInside_update inside p good
  | writeCh p ch => exact screenWriteCh_goes inside p ch safe
  | reflush p => exact (screenReflush_draws p s rfl).mono fun _ _ same => stays same
  | create p => exact cursorsInside_update inside p (show newScreenPcb.Inside by decide)
  | fork p child => exact cursorsInside_update inside child (inside p)

/-- A line that ends at the bottom with limits below the screen leaves the buffer. -/
theorem writeLf_overruns {p : Nat} {s : Screen} (bottom : (s.pcb p).cursorY = screenHeight - 1)
    (low : 0 ≤ (s.pcb p).cylimL) (proper : (s.pcb p).cylimL ≤ (s.pcb p).cylimH)
    (high : screenHeight ≤ (s.pcb p).cylimH) :
    ∃ index, writeLf p s = .error (.overrun index) := by
  have down : (s.pcb p).Scrolls := ⟨low, proper, .inr (by omega)⟩
  rw [writeLf_eq, if_pos down]
  exact scroll_overruns high _

/-- An overrun is one whatever the rest of the screen is like. -/
theorem screenStep_overruns {s : Screen} (inside : CursorsInside s) {event : ScreenEvent}
    (bad : Overruns s event) : ∃ index, screenStep event s = .error (.overrun index) := by
  cases event with
  | writeCh p ch =>
    obtain ⟨ends, bottom, low, proper, high⟩ := bad
    by_cases feed : ch = 10
    · rw [feed]
      exact writeLf_overruns bottom low proper high
    · obtain ⟨first, second, full⟩ := ends.resolve_left feed
      change ∃ index, screenWriteCh p ch s = _
      rw [screenWriteCh_other feed (fun back => back.elim first second) (inside p), if_pos full]
      refine writeLf_overruns ?_ ?_ ?_ ?_ <;> simp only [Function.update_self] <;> assumption
  | _ => exact bad.elim

end Steps

/-! ## Runs -/

/-- Along the whole run the buffers are never left, and every cursor stays on the screen. -/
def Stays (s : Screen) : List ScreenEvent → Prop
  | [] => CursorsInside s
  | event :: rest => CursorsInside s ∧
      ∃ s', screenStep event s = .ok ((), s') ∧ Stays s' rest

/-- No step of the run overruns the buffers. -/
def Avoids (s : Screen) : List ScreenEvent → Prop
  | [] => True
  | event :: rest => ¬ Overruns s event ∧
      ∀ s', screenStep event s = .ok ((), s') → Avoids s' rest

/-- From cursors on the screen, a run stays there exactly if it avoids overruns. -/
theorem stays_iff_avoids (events : List ScreenEvent) :
    ∀ s, CursorsInside s → (Stays s events ↔ Avoids s events) := by
  -- What the first step leaves is where the rest of the run starts.
  induction events with
  | nil => intro s inside; exact ⟨fun _ => trivial, fun _ => inside⟩
  | cons event rest ih =>
    intro s inside
    constructor
    · rintro ⟨-, s', ran, stays⟩
      have safe : ¬ Overruns s event := by
        intro bad
        obtain ⟨index, failed⟩ := screenStep_overruns inside bad
        rw [ran] at failed
        cases failed
      refine ⟨safe, fun next same => ?_⟩
      have onScreen := (screenStep_goes inside event safe).of_ok same
      rw [ran] at same
      cases same
      exact (ih s' onScreen).mp stays
    · rintro ⟨safe, avoids⟩
      obtain ⟨s', ran, next⟩ := goes_iff.mp (screenStep_goes inside event safe)
      exact ⟨inside, s', ran, (ih s' next).mpr (avoids s' ran)⟩

/-- At the start every cursor is in the corner. -/
theorem bootScreen_inside : CursorsInside bootScreen :=
  fun _ => show newScreenPcb.Inside by decide

/--
The screen is never overrun exactly if no line ends in the last row below which limits reach.

What the processes do in which order does not matter otherwise.
-/
theorem screen_stays_iff (events : List ScreenEvent) :
    Stays bootScreen events ↔ Avoids bootScreen events :=
  stays_iff_avoids events bootScreen bootScreen_inside

/-- Limits that reach below the screen are stored, and the next line at the bottom overruns it. -/
theorem screen_overrun_limits :
    ¬ Stays bootScreen [.setCylim 0 0 100, .moveCursor 0 0 49, .writeCh 0 10] := by
  -- The first two steps only store the limits and the cursor.
  intro stays
  have avoids := (stays_iff_avoids _ _ bootScreen_inside).mp stays
  have stored := avoids.2 _ rfl
  have moved := stored.2 _ rfl
  exact moved.1 (by decide)

end GlucOS
