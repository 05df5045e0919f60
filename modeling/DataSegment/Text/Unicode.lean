/-
This file reads UTF-8 bytes, strictly or with a mark in the place of each broken character.
-/

import DataSegment.Text

namespace DataSegment.Text.Unicode

/-- What the first byte of a character announces. -/
structure Lead where
  /-- The bits of the character in its first byte. -/
  bits : Nat
  /-- The bounds of the second byte. -/
  least : UInt8
  greatest : UInt8
  /-- The number of bytes after the first. -/
  more : Nat

/-- Bounds on the second byte exclude overlong forms, surrogates and values past the last plane. -/
def Lead.ofByte? (byte : UInt8) : Option Lead :=
  if byte < 0x80 then some ⟨byte.toNat, 0x80, 0xbf, 0⟩
  else if byte < 0xc2 then none
  else if byte < 0xe0 then some ⟨byte.toNat - 0xc0, 0x80, 0xbf, 1⟩
  else if byte < 0xf0 then
    some ⟨byte.toNat - 0xe0, if byte = 0xe0 then 0xa0 else 0x80,
      if byte = 0xed then 0x9f else 0xbf, 2⟩
  else if byte < 0xf5 then
    some ⟨byte.toNat - 0xf0, if byte = 0xf0 then 0x90 else 0x80,
      if byte = 0xf4 then 0x8f else 0xbf, 3⟩
  else none

/-- Reads the bytes after the first, as far as they can continue the character. -/
def continuation (value : Nat) (least greatest : UInt8) :
    Nat → List UInt8 → Option Char × List UInt8
  | 0, rest => (some (Char.ofNat value), rest)
  | _ + 1, [] => (none, [])
  | more + 1, byte :: rest =>
      if least ≤ byte && byte ≤ greatest then
        continuation (value * 64 + (byte.toNat - 0x80)) 0x80 0xbf more rest
      else (none, byte :: rest)

theorem continuation_length (value : Nat) (least greatest : UInt8) (more : Nat)
    (bytes : List UInt8) :
    (continuation value least greatest more bytes).2.length ≤ bytes.length := by
  induction more generalizing value least greatest bytes with
  | zero => simp [continuation]
  | succ more inductionHypothesis =>
      cases bytes with
      | nil => simp [continuation]
      | cons byte rest =>
          simp only [continuation]
          split
          · exact Nat.le_succ_of_le (inductionHypothesis ..)
          · exact Nat.le_refl _

/-- Reads one character, or the longest start of one that is broken off. -/
def character (byte : UInt8) (rest : List UInt8) : Option Char × List UInt8 :=
  match Lead.ofByte? byte with
  | none => (none, rest)
  | some lead => continuation lead.bits lead.least lead.greatest lead.more rest

theorem character_length (byte : UInt8) (rest : List UInt8) :
    (character byte rest).2.length ≤ rest.length := by
  simp only [character]
  split
  · exact Nat.le_refl _
  · exact continuation_length ..

/-- The characters of a byte list, where `none` stands for a broken one. -/
def characters : List UInt8 → List (Option Char)
  | [] => []
  | byte :: rest =>
      (character byte rest).1 :: characters (character byte rest).2
termination_by bytes => bytes.length
decreasing_by
  simpa using Nat.lt_succ_of_le (character_length byte rest)

/-- Refuses every broken character. -/
def decode? (bytes : List UInt8) : Option Text := (characters bytes).mapM id

/-- Puts the replacement character in the place of each broken one. -/
def decode (bytes : List UInt8) : Text :=
  (characters bytes).map fun letter => letter.getD '\ufffd'

/-- The number of bytes that a text takes. -/
def size (text : Text) : Nat := text.foldl (fun size letter => size + letter.utf8Size) 0

end DataSegment.Text.Unicode
