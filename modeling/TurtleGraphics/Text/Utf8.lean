/-!
# Reading Bytes as Text

Program files are read as UTF-8. Bytes that do not belong to a well-formed
sequence never stop the reading: each longest beginning of a sequence that goes
no further is replaced by the replacement character `U+FFFD`, and every byte that
begins no sequence is replaced on its own.

## Main definitions

* `Lead`: What a first byte says about the bytes after it.
* `decode`: The text of a sequence of bytes.
-/

namespace TurtleGraphics

namespace Text

namespace Utf8

/-- What the first byte of a sequence announces: its own contribution to the
    code, how many bytes follow, and the bounds of the first of these. All
    further ones lie between `0x80` and `0xBF`. The bounds keep out overlong
    sequences, surrogates and codes past the last one. -/
structure Lead where
  bits : Nat
  following : Nat
  low : Nat
  high : Nat

/-- The announcement of a first byte, if it begins a sequence at all. -/
def lead? (b : Nat) : Option Lead :=
  if b ≤ 0x7F then some ⟨b, 0, 0x80, 0xBF⟩
  else if b < 0xC2 then none
  else if b ≤ 0xDF then some ⟨b - 0xC0, 1, 0x80, 0xBF⟩
  else if b = 0xE0 then some ⟨0, 2, 0xA0, 0xBF⟩
  else if b = 0xED then some ⟨0xD, 2, 0x80, 0x9F⟩
  else if b ≤ 0xEF then some ⟨b - 0xE0, 2, 0x80, 0xBF⟩
  else if b = 0xF0 then some ⟨0, 3, 0x90, 0xBF⟩
  else if b ≤ 0xF3 then some ⟨b - 0xF0, 3, 0x80, 0xBF⟩
  else if b = 0xF4 then some ⟨4, 3, 0x80, 0x8F⟩
  else none

/-- The replacement character. -/
def replacement : Char := Char.ofNat 0xFFFD

/-- Reads bytes one by one. In the middle of a sequence, `owed` bytes are still
    to come, the next of them between `low` and `high`, and `code` is what the
    bytes so far have given. A byte that does not fit ends the sequence and is
    looked at again as a first byte. -/
def decodeFrom (code owed low high : Nat) (done : List Char) : List Nat → List Char
  | [] => (if owed = 0 then done else replacement :: done).reverse
  | b :: rest =>
    if owed ≠ 0 ∧ low ≤ b ∧ b ≤ high then
      let code := code * 64 + (b - 0x80)
      if owed = 1 then decodeFrom 0 0 0x80 0xBF (Char.ofNat code :: done) rest
      else decodeFrom code (owed - 1) 0x80 0xBF done rest
    else
      let done := if owed = 0 then done else replacement :: done
      match lead? b with
      | none => decodeFrom 0 0 0x80 0xBF (replacement :: done) rest
      | some l =>
        if l.following = 0 then decodeFrom 0 0 0x80 0xBF (Char.ofNat l.bits :: done) rest
        else decodeFrom l.bits l.following l.low l.high done rest

/-- The text of a sequence of bytes. -/
def decode (bytes : ByteArray) : String :=
  String.ofList (decodeFrom 0 0 0x80 0xBF [] (bytes.toList.map UInt8.toNat))

end Utf8

end Text

end TurtleGraphics
