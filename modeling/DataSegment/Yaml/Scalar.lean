/-
This file reads the scalars of a YAML document.
-/

import DataSegment.Text.Numeral
import DataSegment.Yaml.Place

namespace DataSegment.Yaml

open Text

/-- What stands between two words of a scalar. Line breaks swallow the blanks around them. -/
inductive Gap where
  | empty
  | blanks (reversed : Text)
  | broken (first : Option Char) (reversed : Text)
  deriving DecidableEq, Repr

/-- Adds a blank or a line break. -/
def Gap.add (gap : Gap) (letter : Char) : Gap :=
  match gap with
  | .broken first later => if isBreak letter then .broken first (letter :: later) else gap
  | .blanks earlier =>
      if isBreak letter then .broken (some letter) [] else .blanks (letter :: earlier)
  | .empty => if isBreak letter then .broken (some letter) [] else .blanks [letter]

def Gap.isEmpty : Gap → Bool
  | .empty => true
  | _ => false

def Gap.isBroken : Gap → Bool
  | .broken _ _ => true
  | _ => false

/-- A line feed alone reads as a space, and before other line breaks it is left out. -/
def Gap.text : Gap → Text
  | .empty => []
  | .blanks reversed => reversed.reverse
  | .broken (some '\n') [] => [' ']
  | .broken (some '\n') later => later.reverse
  | .broken first later => first.toList ++ later.reverse

/-- A scalar, and where the document goes on after it. -/
structure Scalar where
  text : Text
  rest : Text
  place : Place
  /-- Whether a line break sets the scalar apart from what follows. -/
  broken : Bool
  deriving DecidableEq, Repr

/-- Puts text before a scalar. -/
def Scalar.follow (read : Scalar) (text : Text) : Scalar := { read with text := text ++ read.text }

/-- The escapes of one character. -/
def escapes : List (Char × Char) :=
  [('0', '\x00'), ('a', '\x07'), ('b', '\x08'), ('t', '\t'), ('\t', '\t'), ('n', '\n'),
    ('v', '\x0b'), ('f', '\x0c'), ('r', '\r'), ('e', '\x1b'), (' ', ' '), ('"', '"'), ('/', '/'),
    ('\\', '\\'), ('N', '\u0085'), ('_', '\u00a0'), ('L', '\u2028'), ('P', '\u2029')]

/-- The number of hexadecimal digits after the mark of a numeric escape. -/
def escapeDigits : Char → Nat
  | 'x' => 2
  | 'u' => 4
  | 'U' => 8
  | _ => 0

/-- The character that an escape stands for. -/
def escaped? (mark : Char) (rest : Text) : Option Char :=
  match escapes.find? fun entry => entry.1 == mark with
  | some entry => some entry.2
  | none =>
      let digits := rest.take (escapeDigits mark)
      if digits.length = escapeDigits mark then
        ((natural? 16 digits).filter fun value => decide value.isValidChar).map Char.ofNat
      else none

/-- Reads up to the closing quote, with `skip` characters still to pass. Single quotes are written
twice inside of single quotes, and only double quotes know escapes. -/
def quoted? (quote : Char) (skip : Nat) (gap : Gap) (place : Place) : Text → Option Scalar
  | [] => none
  | letter :: rest =>
      match skip with
      | skip + 1 => quoted? quote skip gap (place.after letter) rest
      | 0 =>
          if isBlank letter || isBreak letter then
            quoted? quote 0 (gap.add letter) (place.after letter) rest
          else if place.column == 0 && startsBound (letter :: rest) then none
          else if letter == '\'' && quote == '\'' && rest.head? == some '\'' then
            (quoted? quote 1 .empty (place.after letter) rest).map
              (·.follow (gap.text ++ [letter]))
          else if letter == quote then some ⟨gap.text, rest, place.after letter, false⟩
          else if letter == '\\' && quote == '"' then
            match rest with
            | [] => none
            | mark :: digits =>
                if isBreak mark then
                  (quoted? quote 1 (.broken none []) (place.after letter) rest).map
                    (·.follow gap.text)
                else
                  match escaped? mark digits with
                  | none => none
                  | some meant =>
                      (quoted? quote (1 + escapeDigits mark) .empty (place.after letter) rest).map
                        (·.follow (gap.text ++ [meant]))
          else
            (quoted? quote 0 .empty (place.after letter) rest).map
              (·.follow (gap.text ++ [letter]))

/-- The characters that delimit flow collections. -/
def isFlowMark (letter : Char) : Bool := [',', '[', ']', '\x7b', '\x7d'].contains letter

/-- The characters that start no plain scalar outside of flow collections either. -/
def isReserved (letter : Char) : Bool :=
  ['#', '&', '*', '!', '|', '>', '\'', '"', '%', '@', '\x60'].contains letter

/-- Whether a plain scalar can start with the character, given what follows it. -/
def startsPlain (flow : Bool) (letter : Char) (rest : Text) : Bool :=
  if letter == '-' then !blankNext rest
  else if letter == '?' || letter == ':' then !flow && !blankNext rest
  else !isBlank letter && !isBreak letter && !isFlowMark letter && !isReserved letter

/-- Whether a plain scalar ends before the character. Behind a gap it ends before a comment, and
outside of flow collections in each column to the left of `least`. -/
def endsPlain (flow : Bool) (least : Nat) (gap : Gap) (place : Place) (letter : Char)
    (rest : Text) : Bool :=
  (!gap.isEmpty && (letter == '#' || (!flow && place.column < least))) ||
    (place.column == 0 && startsBound (letter :: rest)) ||
    (letter == ':' && blankNext rest) || (flow && isFlowMark letter)

/-- The characters that may not follow a colon inside of a flow collection. -/
def endsFlowKey (letter : Char) : Bool := isFlowMark letter || letter == '?'

/-- Reads a plain scalar and the gap behind it. No tab may indent a further line of the scalar. -/
def plain? (flow : Bool) (least : Nat) (gap : Gap) (place : Place) : Text → Option Scalar
  | [] => some ⟨[], [], place, gap.isBroken⟩
  | letter :: rest =>
      if isBlank letter || isBreak letter then
        if gap.isBroken && letter == '\t' && place.column < least then none
        else plain? flow least (gap.add letter) (place.after letter) rest
      else if endsPlain flow least gap place letter rest then
        some ⟨[], letter :: rest, place, gap.isBroken⟩
      else if flow && letter == ':' && rest.head?.any endsFlowKey then none
      else
        (plain? flow least .empty (place.after letter) rest).map
          (·.follow (gap.text ++ [letter]))

end DataSegment.Yaml
