import GlucOS.Lib.Routine

/-! The screen buffers with the cursor of each process, and what is sent to the serial port. -/

namespace GlucOS

open Routine

/-- `SCREEN_WIDTH`. -/
def screenWidth : Nat := 80

/-- `SCREEN_HEIGHT`. -/
def screenHeight : Nat := 50

/-- `SCREEN_LOC`. -/
def screenLoc (x y : Int) : Int := y * screenWidth + x

/-- What a PCB holds about the screen. -/
structure ScreenPcb where
  /-- `cursor_x`. -/
  cursorX : Int
  /-- `cursor_y`. -/
  cursorY : Int
  /-- `cylim_l`. -/
  cylimL : Int
  /-- `cylim_h`. -/
  cylimH : Int
deriving DecidableEq, Repr

/-- What a new process gets. -/
def newScreenPcb : ScreenPcb := { cursorX := 0, cursorY := 0, cylimL := -1, cylimH := -1 }

/-- The screen as all processes share it. -/
structure Screen where
  /-- `new_screen`. -/
  newScreen : Nat → UInt8
  /-- `old_screen`. -/
  oldScreen : Nat → UInt8
  /-- The PCB of each process. -/
  pcb : Nat → ScreenPcb
  /-- The bytes sent to the serial port. -/
  port : List UInt8

/-- Why a routine on the screen goes wrong. -/
inductive ScreenStop
  /-- A buffer was used at an index that it does not have. -/
  | overrun (index : Int)
deriving DecidableEq, Repr

/-- A routine on the screen. -/
abbrev ScreenRoutine := Routine Screen ScreenStop

/-! ## Access to the buffers -/

/-- Whether an index lies in the buffers. -/
def InBuffer (loc : Int) : Prop := 0 ≤ loc ∧ loc < (screenWidth * screenHeight : Nat)

instance (loc : Int) : Decidable (InBuffer loc) := inferInstanceAs (Decidable (_ ∧ _))

/-- Reading `new_screen`. -/
def getNew (loc : Int) : ScreenRoutine UInt8 := do
  let s ← get
  if InBuffer loc then return s.newScreen loc.toNat else stop (.overrun loc)

/-- Reading `old_screen`. -/
def getOld (loc : Int) : ScreenRoutine UInt8 := do
  let s ← get
  if InBuffer loc then return s.oldScreen loc.toNat else stop (.overrun loc)

/-- Writing `new_screen`. -/
def setNew (loc : Int) (ch : UInt8) : ScreenRoutine Unit :=
  if InBuffer loc then
    modify fun s => { s with newScreen := Function.update s.newScreen loc.toNat ch }
  else stop (.overrun loc)

/-- Writing `old_screen`. -/
def setOld (loc : Int) (ch : UInt8) : ScreenRoutine Unit :=
  if InBuffer loc then
    modify fun s => { s with oldScreen := Function.update s.oldScreen loc.toNat ch }
  else stop (.overrun loc)

/-- A loop of a counter from one bound up to another. -/
def forRange (first last : Int) (body : Int → ScreenRoutine Unit) : ScreenRoutine Unit :=
  forUpto (last - first).toNat fun k => body (first + k)

/-- The PCB of a process changes. -/
def setScreenPcb (p : Nat) (change : ScreenPcb → ScreenPcb) : ScreenRoutine Unit :=
  modify fun s => { s with pcb := Function.update s.pcb p (change (s.pcb p)) }

/-! ## What is sent to the terminal -/

/-- The loop of `mini_itoa` over the digits, the last one first, for so many rounds at most. -/
def miniDigits : Nat → Nat → List UInt8
  | 0, _ => []
  | rounds + 1, value =>
    UInt8.ofNat (48 + value % 10) :: if value / 10 = 0 then [] else miniDigits rounds (value / 10)

/-- `mini_itoa` for `%d`; a `long` has nineteen digits at most. -/
def miniItoa (value : Int) : List UInt8 :=
  (miniDigits 19 value.natAbs ++ if value < 0 then [45] else []).reverse

/-- `bios_putstr`. -/
def biosPutstr (str : List UInt8) : ScreenRoutine Unit :=
  modify fun s => { s with port := s.port ++ str }

/-- `bios_putchar`. -/
def biosPutchar (ch : UInt8) : ScreenRoutine Unit := biosPutstr [ch]

/-- `vt100_move_cursor` prints an escape character, a bracket, both numbers and an `H`. -/
def vt100MoveCursor (x y : Int) : ScreenRoutine Unit :=
  biosPutstr (27 :: 91 :: (miniItoa y ++ 59 :: (miniItoa x ++ [72])))

/-- `vt100_clear`. -/
def vt100Clear : ScreenRoutine Unit := biosPutstr [27, 91, 50, 74]

/-! ## Refreshing -/

/-- `screen_reflush` with its local variables. -/
structure Reflush where
  /-- The screen. -/
  screen : Screen
  /-- `i0`. -/
  i0 : Int
  /-- `j0`. -/
  j0 : Int

/-- A routine on the screen inside `screen_reflush`. -/
def onScreen {A : Type} (routine : ScreenRoutine A) : Routine Reflush ScreenStop A := fun r =>
  match routine r.screen with
  | .ok (value, screen) => .ok (value, { r with screen })
  | .error reason => .error reason

/-- The body of both loops of `screen_reflush`. -/
def reflushCell (i j : Nat) : Routine Reflush ScreenStop Unit := do
  let new ← onScreen (getNew (screenLoc j i))
  let old ← onScreen (getOld (screenLoc j i))
  if new ≠ old then
    let r ← get
    if i = r.i0 ∧ j = r.j0 + 1 then pure () else onScreen (vt100MoveCursor (j + 1) (i + 1))
    onScreen (biosPutchar new)
    onScreen (setOld (screenLoc j i) new)
    modify fun r => { r with i0 := i, j0 := j }
  else return ()

/-- The loops of `screen_reflush`. -/
def reflushCells : Routine Reflush ScreenStop Unit :=
  forUpto screenHeight fun i => forUpto screenWidth fun j => reflushCell i j

/-- `screen_reflush` of the current process. -/
def screenReflush (p : Nat) : ScreenRoutine Unit := do
  (fun s => match reflushCells { screen := s, i0 := -1, j0 := -2 } with
    | .ok (_, r) => .ok ((), r.screen)
    | .error reason => .error reason)
  let s ← get
  vt100MoveCursor ((s.pcb p).cursorX + 1) ((s.pcb p).cursorY + 1)

/-! ## Writing -/

/-- The scrolling of `screen_write_ch`, after whose loop the counter is the upper limit. -/
def scroll (p : Nat) (cylimL cylimH : Int) : ScreenRoutine Unit := do
  forRange cylimL cylimH fun y =>
    forRange 0 screenWidth fun x => do
      let ch ← getNew (screenLoc x (y + 1))
      setNew (screenLoc x y) ch
  setScreenPcb p fun pcb => { pcb with cursorY := cylimH }
  forRange 0 screenWidth fun x => setNew (screenLoc x cylimH) 32

/-- `screen_write_ch` from `write_lf` on. -/
def writeLf (p : Nat) : ScreenRoutine Unit := do
  setScreenPcb p fun pcb => { pcb with cursorX := 0 }
  let s ← get
  let limited := ¬ (s.pcb p).cursorY < screenHeight - 1
  if limited then pure ()
  else setScreenPcb p fun pcb => { pcb with cursorY := pcb.cursorY + 1 }
  let s ← get
  let pcb := s.pcb p
  if 0 ≤ pcb.cylimL ∧ pcb.cylimL ≤ pcb.cylimH ∧ (pcb.cylimH < pcb.cursorY ∨ limited) then
    scroll p pcb.cylimL pcb.cylimH
  else return ()

/-- `screen_write_ch`. -/
def screenWriteCh (p : Nat) (ch : UInt8) : ScreenRoutine Unit := do
  let s ← get
  let pcb := s.pcb p
  if ch = 10 then writeLf p
  else if ch = 8 ∨ ch = 127 then
    if 0 < pcb.cursorX then setScreenPcb p fun pcb => { pcb with cursorX := pcb.cursorX - 1 }
    else if 0 < pcb.cursorY then
      setScreenPcb p fun pcb =>
        { pcb with cursorY := pcb.cursorY - 1, cursorX := screenWidth - 1 }
    else return ()
  else
    setNew (screenLoc pcb.cursorX pcb.cursorY) ch
    setScreenPcb p fun pcb => { pcb with cursorX := pcb.cursorX + 1 }
    if screenWidth ≤ pcb.cursorX + 1 then writeLf p else return ()

/-- `screen_clear`. -/
def screenClear (p : Nat) : ScreenRoutine Unit := do
  vt100Clear
  forRange 0 screenHeight fun i =>
    forRange 0 screenWidth fun j => do
      setNew (screenLoc j i) 32
      setOld (screenLoc j i) 32
  setScreenPcb p fun pcb => { pcb with cursorX := 0, cursorY := 0 }
  screenReflush p

/-- `screen_rclear`. -/
def screenRclear (p : Nat) (ybegin yend : Int) : ScreenRoutine Unit := do
  if 0 ≤ ybegin ∧ ybegin < screenHeight ∧ 0 ≤ yend ∧ yend < screenHeight then
    forRange ybegin yend fun i =>
      forRange 0 screenWidth fun j => setNew (screenLoc j i) 32
  else pure ()
  screenReflush p

/-- The clamping of `screen_move_cursor`. -/
def clamp (value bound : Int) : Int :=
  if bound ≤ value then bound - 1 else if value < 0 then 0 else value

/-- `screen_move_cursor`. -/
def screenMoveCursor (p : Nat) (x y : Int) : ScreenRoutine Unit := do
  setScreenPcb p fun pcb =>
    { pcb with cursorX := clamp x screenWidth, cursorY := clamp y screenHeight }
  vt100MoveCursor (clamp x screenWidth + 1) (clamp y screenHeight + 1)

/-- `screen_set_cylim`. -/
def screenSetCylim (p : Nat) (cylimL cylimH : Int) : ScreenRoutine Unit :=
  setScreenPcb p fun pcb => { pcb with cylimL, cylimH }

/-! ## Runs -/

/-- What a process may do to the screen. -/
inductive ScreenEvent
  /-- `screen_set_cylim`. -/
  | setCylim (p : Nat) (cylimL cylimH : Int)
  /-- `screen_move_cursor`. -/
  | moveCursor (p : Nat) (x y : Int)
  /-- `screen_rclear`. -/
  | rclear (p : Nat) (ybegin yend : Int)
  /-- `screen_clear`. -/
  | clear (p : Nat)
  /-- `screen_write_ch`. -/
  | writeCh (p : Nat) (ch : UInt8)
  /-- `screen_reflush`. -/
  | reflush (p : Nat)
  /-- A process is created. -/
  | create (p : Nat)
  /-- A process is forked. -/
  | fork (p child : Nat)
deriving DecidableEq, Repr

/-- One event. -/
def screenStep : ScreenEvent → ScreenRoutine Unit
  | .setCylim p cylimL cylimH => screenSetCylim p cylimL cylimH
  | .moveCursor p x y => screenMoveCursor p x y
  | .rclear p ybegin yend => screenRclear p ybegin yend
  | .clear p => screenClear p
  | .writeCh p ch => screenWriteCh p ch
  | .reflush p => screenReflush p
  | .create p => setScreenPcb p fun _ => newScreenPcb
  | .fork p child => modify fun s =>
    { s with pcb := Function.update s.pcb child (s.pcb p) }

/-- The screen before anything is written. -/
def bootScreen : Screen where
  newScreen := fun _ => 0
  oldScreen := fun _ => 0
  pcb := fun _ => newScreenPcb
  port := []

end GlucOS
