import GlucOS.Gfs.Disk

/-! Path strings in buffers: splitting them at slashes and squeezing `.` and `..` out of them. -/

namespace GlucOS

/-- A buffer of characters, which holds a C string when one of them is zero. -/
abbrev CharBuf := List UInt8

/-- `'/'`. -/
def slash : UInt8 := 47

/-- `"."`. -/
def dotName : CharBuf := [46]

/-- `".."`. -/
def dotDotName : CharBuf := [46, 46]

/-- The string that starts at an offset of a buffer. -/
def cstr (buf : CharBuf) (p : Nat) : CharBuf := (buf.drop p).takeWhile fun c => c ≠ 0

/--
The loop of `split` over the characters from offset `p` on, with `i` pointers found before.

It answers with the pointers and with what the characters become.
-/
def split (sep : UInt8) (pmax : Nat) : CharBuf → Nat → Bool → Nat → List Nat × CharBuf
  | [], _, _, _ => ([], [])
  | c :: src, p, flagNew, i =>
    if c = 0 then ([], c :: src)
    else
      let here := if flagNew then [p] else []
      let i := if flagNew then i + 1 else i
      if c = sep then
        if i ≥ pmax then (here, 0 :: src)
        else
          let (parr, buf) := split sep pmax src (p + 1) true i
          (here ++ parr, 0 :: buf)
      else
        let (parr, buf) := split sep pmax src (p + 1) false i
        (here ++ parr, c :: buf)

/--
The scan of `path_squeeze` over the pointers that are left.

`names` are the entries before them, null where they are left out, and `above` is `j + 1`.
-/
def squeezeScan (buf : CharBuf) : List Nat → List (Option Nat) → Nat → List (Option Nat)
  | [], names, _ => names
  | p :: left, names, above =>
    if cstr buf p = dotDotName then
      -- With `j` below zero nothing is left out, and `j` stays.
      if 0 < above then squeezeScan buf left (names.set (above - 1) none ++ [none]) (above - 1)
      else squeezeScan buf left (names ++ [none]) above
    else if cstr buf p = dotName then squeezeScan buf left (names ++ [none]) above
    else squeezeScan buf left (names ++ [some p]) (names.length + 1)

/-- The copy of one name to offset `l` of the buffer it is in, with a bound on its length. -/
def squeezeCopy : Nat → CharBuf → Nat → Nat → Nat × CharBuf
  | 0, path, l, _ => (l, path)
  | fuel + 1, path, l, p =>
    if path.getD p 0 = 0 then (l, path)
    else squeezeCopy fuel (path.set l (path.getD p 0)) (l + 1) (p + 1)

/-- The loop of `path_squeeze` that writes the names left, each with a slash behind it. -/
def squeezeJoin : List (Option Nat) → Nat → CharBuf → Nat × CharBuf
  | [], l, path => (l, path)
  | none :: names, l, path => squeezeJoin names l path
  | some p :: names, l, path =>
    let (l, path) := squeezeCopy path.length path l p
    squeezeJoin names (l + 1) (path.set l slash)

/-- Entries of the array `fnames[]` of `path_squeeze`. -/
def squeezeMax : Nat := 20

/-- `path_squeeze`: the length of the result, and the buffer with the result. -/
def pathSqueeze (path : CharBuf) : Nat × CharBuf :=
  match path with
  | [] => (0, [])
  | first :: rest =>
    if first ≠ slash then (0, path)
    else
      let (fnames, buf) := split slash squeezeMax rest 0 true 0
      let (l, buf) := squeezeJoin (squeezeScan buf fnames [] 0) 0 buf
      let l := if 0 < l then l - 1 else l
      (l + 1, first :: buf.set l 0)

end GlucOS
