/-! # Decoding UTF-8

Bytes are read one character at a time. A part that no character can continue is ill-formed: the
lossy reading puts one replacement character for each such part, the strict reading refuses the
whole text. -/

namespace StyleAudit.Text.Utf8
set_option autoImplicit false

/-- What a first byte announces. -/
structure Lead where
  /-- The bits of the character that the first byte holds. -/
  bits : Nat
  /-- The number of bytes that follow. -/
  more : Nat
  /-- Bounds of the second byte. -/
  low : UInt8 := 0x80
  high : UInt8 := 0xBF

def lead? (b : UInt8) : Option Lead :=
  let n := b.toNat
  if n < 0x80 then some { bits := n, more := 0 }
  else if n < 0xC2 then none
  else if n < 0xE0 then some { bits := n - 0xC0, more := 1 }
  else if n == 0xE0 then some { bits := 0, more := 2, low := 0xA0 }
  else if n == 0xED then some { bits := 13, more := 2, high := 0x9F }
  else if n < 0xF0 then some { bits := n - 0xE0, more := 2 }
  else if n == 0xF0 then some { bits := 0, more := 3, low := 0x90 }
  else if n == 0xF4 then some { bits := 4, more := 3, high := 0x8F }
  else if n < 0xF4 then some { bits := n - 0xF0, more := 3 }
  else none

/-- Read `more` further bytes, the first of them between `low` and `high`. A byte that does not fit
is left for the next character. -/
def follow : Nat → UInt8 → UInt8 → Nat → List UInt8 → Option Nat × List UInt8
  | 0, _, _, bits, bytes => (some bits, bytes)
  | _ + 1, _, _, _, [] => (none, [])
  | more + 1, low, high, bits, b :: bytes =>
    if low ≤ b && b ≤ high then follow more 0x80 0xBF (64 * bits + (b.toNat - 0x80)) bytes
    else (none, b :: bytes)

theorem length_follow (more : Nat) (low high : UInt8) (bits : Nat) (bytes : List UInt8) :
    (follow more low high bits bytes).2.length ≤ bytes.length := by
  induction more generalizing low high bits bytes with
  | zero => simp [follow]
  | succ more ih =>
    cases bytes with
    | nil => simp [follow]
    | cons b bytes =>
      unfold follow
      split
      · exact Nat.le_succ_of_le (ih _ _ _ _)
      · simp

/-- The next character, or `none` for an ill-formed part, and the bytes after it. -/
def next (b : UInt8) (bytes : List UInt8) : Option Char × List UInt8 :=
  match lead? b with
  | none => (none, bytes)
  | some l =>
    let r := follow l.more l.low l.high l.bits bytes
    (r.1.map Char.ofNat, r.2)

theorem length_next (b : UInt8) (bytes : List UInt8) : (next b bytes).2.length ≤ bytes.length := by
  unfold next
  split
  · simp
  · exact length_follow _ _ _ _ _

/-- The parts of a byte sequence, put in front of `done` in reverse. -/
def partsOnto (done : List (Option Char)) : List UInt8 → List (Option Char)
  | [] => done
  | b :: bytes => partsOnto ((next b bytes).1 :: done) (next b bytes).2
termination_by bytes => bytes.length
decreasing_by
  have h := length_next b bytes
  simp only [List.length_cons]
  omega

def parts (bytes : List UInt8) : List (Option Char) := (partsOnto [] bytes).reverse

/-- Decode with U+FFFD for each ill-formed part. -/
def decodeLossy (bytes : List UInt8) : List Char :=
  (parts bytes).map fun c => c.getD '\uFFFD'

/-- Decode a well-formed text. -/
def decode? (bytes : List UInt8) : Option (List Char) :=
  let cs := parts bytes
  if cs.all Option.isSome then some (cs.map fun c => c.getD '\uFFFD') else none

/-- Text of bytes, with U+FFFD for each ill-formed part. -/
def lossyText (bytes : ByteArray) : String := String.ofList (decodeLossy bytes.data.toList)

/-- Text of well-formed bytes. -/
def text? (bytes : ByteArray) : Option String := (decode? bytes.data.toList).map String.ofList

end StyleAudit.Text.Utf8
