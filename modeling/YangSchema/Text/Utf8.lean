/-!
# UTF-8

A text in UTF-8 is read byte by byte. A character of several bytes is begun by a byte that says how
many more it takes and which values the next of them can have, so that no character has two forms.
What cannot be continued is malformed: a run of bytes that begins a character but is not followed as
it must be counts as one malformed piece.
-/

namespace YangSchema.Text.Utf8

/-- A character that has been begun: how many bytes it still takes, the bounds of the next one, and
the bits so far. -/
structure Begun where
  owed : Nat
  low : Nat
  high : Nat
  bits : Nat
  deriving Repr, DecidableEq

/-- What a byte between characters is: a character, the beginning of one, or malformed. -/
inductive First where
  | whole (c : Char)
  | lead (b : Begun)
  | malformed
  deriving Repr, DecidableEq

/-- Reads a byte between characters. -/
def first (b : Nat) : First :=
  if b < 0x80 then .whole (Char.ofNat b)
  else if b < 0xC2 then .malformed
  else if b < 0xE0 then .lead ⟨1, 0x80, 0xBF, b - 0xC0⟩
  else if b < 0xF0 then
    .lead ⟨2, if b = 0xE0 then 0xA0 else 0x80, if b = 0xED then 0x9F else 0xBF, b - 0xE0⟩
  else if b < 0xF5 then
    .lead ⟨3, if b = 0xF0 then 0x90 else 0x80, if b = 0xF4 then 0x8F else 0xBF, b - 0xF0⟩
  else .malformed

/-- What has been read: the pieces, latest first, `none` for a malformed one, and the character that
has been begun. -/
structure Reading where
  pieces : List (Option Char)
  begun : Option Begun
  deriving Repr, DecidableEq

/-- Reads a byte between characters behind some pieces. -/
def Reading.start (pieces : List (Option Char)) (b : Nat) : Reading :=
  match first b with
  | .whole c => ⟨some c :: pieces, none⟩
  | .lead begun => ⟨pieces, some begun⟩
  | .malformed => ⟨none :: pieces, none⟩

/-- Reads one byte. -/
def Reading.next (r : Reading) (b : Nat) : Reading :=
  match r.begun with
  | none => .start r.pieces b
  | some p =>
    if p.low ≤ b ∧ b ≤ p.high then
      let bits := p.bits * 64 + (b - 0x80)
      if p.owed ≤ 1 then ⟨some (Char.ofNat bits) :: r.pieces, none⟩
      else ⟨r.pieces, some ⟨p.owed - 1, 0x80, 0xBF, bits⟩⟩
    else .start (none :: r.pieces) b

/-- The pieces of a list of bytes: characters, and `none` for what is malformed. -/
def pieces (bytes : List UInt8) : List (Option Char) :=
  let r := bytes.foldl (fun (r : Reading) b => r.next b.toNat) ⟨[], none⟩
  (if r.begun.isSome then none :: r.pieces else r.pieces).reverse

/-- The text of a list of bytes, if it is well-formed. -/
def decode? (bytes : List UInt8) : Option String := ((pieces bytes).mapM id).map String.ofList

end YangSchema.Text.Utf8
