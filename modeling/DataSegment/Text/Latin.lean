/-
This file reads and writes listings as Latin-1, in which each byte is one character.
-/

import DataSegment.Text

namespace DataSegment.Text.Latin

/-- A byte stands for the character of the same number. -/
def decode (bytes : List UInt8) : Text := bytes.map Char.ofUInt8

/-- A question mark takes the place of a character that no byte stands for. -/
def encodeLetter (letter : Char) : UInt8 :=
  if letter.toNat < 256 then UInt8.ofNat letter.toNat else UInt8.ofNat '?'.toNat

def encode (text : Text) : List UInt8 := text.map encodeLetter

theorem toNat_ofUInt8 (byte : UInt8) : (Char.ofUInt8 byte).toNat = byte.toNat := rfl

theorem encodeLetter_ofUInt8 (byte : UInt8) : encodeLetter (Char.ofUInt8 byte) = byte := by
  have bound : byte.toNat < 256 := byte.toNat_lt
  simp [encodeLetter, toNat_ofUInt8, bound]

/-- No byte is lost on the way in and out. -/
theorem encode_decode (bytes : List UInt8) : encode (decode bytes) = bytes := by
  simp [encode, decode, Function.comp_def, encodeLetter_ofUInt8]

end DataSegment.Text.Latin
