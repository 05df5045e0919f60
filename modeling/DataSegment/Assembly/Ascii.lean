/-
This file writes the quoted text of a string directive.
-/

import DataSegment.Text.Numeral

namespace DataSegment.Assembly

open Text

/-- A string is made of quoted characters and of bytes given by number. -/
inductive Piece where
  | quoted (letter : Char)
  | byte (value : UInt8)
  deriving DecidableEq, Repr

/-- Whether a following piece is a character that could be read into an escape before it. -/
def Piece.extends (next : Option Piece) (digit : Char → Bool) : Bool :=
  match next with
  | some (.quoted letter) => digit letter
  | _ => false

def isHexDigit (letter : Char) : Bool := (hexValue? letter).isSome

def isOctalDigit (letter : Char) : Bool := (digitValue? 8 letter).isSome

/-- Three octal digits end an escape whatever follows. A shorter escape is written where the next
piece cannot be read into it. -/
def Piece.render (next : Option Piece) : Piece → Text
  | .byte value =>
      if Piece.extends next isHexDigit then '\\' :: paddedNumeral 3 8 value.toNat
      else '\\' :: 'x' :: paddedNumeral 2 16 value.toNat
  | .quoted letter =>
      if letter = '"' then
        if Piece.extends next isOctalDigit then ['\\', '0', '4', '2'] else ['\\', '4', '2']
      else if letter = '\\' then ['\\', '\\']
      else [letter]

/-- The text between the double quotes of a string directive. -/
def renderPieces : List Piece → Text
  | [] => []
  | piece :: rest => piece.render rest.head? ++ renderPieces rest

def quotedText (text : Text) : Text := renderPieces (text.map .quoted)

end DataSegment.Assembly
