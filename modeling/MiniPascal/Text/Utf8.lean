/-!
# Reading bytes as UTF-8, whatever they are

`decode` reads any bytes as a text. Where the bytes are UTF-8 the text is what they stand for.
Elsewhere each longest beginning of a character that is not completed gives one replacement
character, and so does each byte with which no character can begin.

The byte that breaks a character off is not part of it: it is read again as the beginning of the
next one. A byte order mark is a character like any other.
-/

namespace MiniPascal.Text.Utf8

/-- What stands for bytes that are no character. -/
def replacement : Char := '\uFFFD'

/-- A character of which some bytes have been read. -/
structure Begun where
  /-- The bits of the bytes so far. -/
  bits : Nat
  /-- The number of bytes that are still to come. -/
  owed : Nat
  /-- The least that the next byte may be. -/
  low : Nat := 0x80
  /-- The greatest that the next byte may be. -/
  high : Nat := 0xBF
  deriving DecidableEq, Repr

/-- A character of several bytes after its first byte. The bounds of the second byte rule out
characters that have a shorter form, surrogates, and numbers beyond the last character. -/
def Begun.ofFirst? (b : Nat) : Option Begun :=
  if b < 0xC2 then none
  else if b < 0xE0 then some { bits := b - 0xC0, owed := 1 }
  else if b = 0xE0 then some { bits := 0, owed := 2, low := 0xA0 }
  else if b = 0xED then some { bits := b - 0xE0, owed := 2, high := 0x9F }
  else if b < 0xF0 then some { bits := b - 0xE0, owed := 2 }
  else if b = 0xF0 then some { bits := 0, owed := 3, low := 0x90 }
  else if b < 0xF4 then some { bits := b - 0xF0, owed := 3 }
  else if b = 0xF4 then some { bits := b - 0xF0, owed := 3, high := 0x8F }
  else none

/-- What has been read: whole characters, and one that may be under way. -/
structure Decoder where
  decoded : Array Char := #[]
  begun? : Option Begun := none
  deriving Repr

namespace Decoder

/-- One more character. -/
def add (d : Decoder) (c : Char) : Decoder := { decoded := d.decoded.push c }

/-- Reads a byte with which a character begins. -/
def first (d : Decoder) (b : Nat) : Decoder :=
  if b < 0x80 then d.add (Char.ofNat b)
  else
    match Begun.ofFirst? b with
    | some u => { d with begun? := some u }
    | none => d.add replacement

/-- Reads a byte. -/
def feed (d : Decoder) (byte : UInt8) : Decoder :=
  let b := byte.toNat
  match d.begun? with
  | none => d.first b
  | some u =>
    if u.low ≤ b ∧ b ≤ u.high then
      let bits := u.bits * 0x40 + (b - 0x80)
      if u.owed = 1 then d.add (Char.ofNat bits)
      else { d with begun? := some { bits, owed := u.owed - 1 } }
    else (d.add replacement).first b

/-- The characters, when no byte is left. -/
def finish (d : Decoder) : List Char :=
  match d.begun? with
  | none => d.decoded.toList
  | some _ => d.decoded.toList ++ [replacement]

end Decoder

/-- The text that the bytes stand for. -/
def decode (bytes : List UInt8) : String :=
  String.ofList (bytes.foldl Decoder.feed {}).finish

example : decode [0x61, 0xC3, 0xA9, 0xE2, 0x82, 0xAC] = "aé€" := by decide

/-- Two bytes of three are one beginning; the byte that breaks it off is read again. -/
example : decode [0xE2, 0x82, 0x28] = "\uFFFD(" := by decide

/-- A surrogate cannot begin, so each of its bytes stands alone. -/
example : decode [0xED, 0xA0, 0x80] = "\uFFFD\uFFFD\uFFFD" := by decide

end MiniPascal.Text.Utf8
