/-
This file holds the Unicode white space of header texts, and trimming and splitting by it.
-/

import DataSegment.Text

namespace DataSegment.Text

/-- The characters with the Unicode property White_Space. -/
def whiteSpace : List Char :=
  ['\t', '\n', '\x0b', '\x0c', '\r', ' ', '\u0085', '\u00a0', '\u1680', '\u2000', '\u2001',
    '\u2002', '\u2003', '\u2004', '\u2005', '\u2006', '\u2007', '\u2008', '\u2009', '\u200a',
    '\u2028', '\u2029', '\u202f', '\u205f', '\u3000']

def isWhite (letter : Char) : Bool := whiteSpace.contains letter

def trimStart (text : Text) : Text := text.dropWhile isWhite

def trimEnd (text : Text) : Text := (text.reverse.dropWhile isWhite).reverse

def trim (text : Text) : Text := trimEnd (trimStart text)

/-- The words of a text are its longest parts without white space. -/
def words (text : Text) : List Text := (text.splitOnP isWhite).filter fun word => !word.isEmpty

@[simp] theorem words_nil : words [] = [] := by
  simp [words]

/-- White space separates words. -/
theorem words_append_white {letter : Char} (white : isWhite letter) (first rest : Text) :
    words (first ++ letter :: rest) = words first ++ words rest := by
  rw [words, List.splitOnP_append_cons first rest white, List.filter_append, words, words]

/-- A text without white space is one word unless it is empty. -/
theorem words_of_solid {text : Text} (filled : text ≠ [])
    (solid : ∀ letter ∈ text, isWhite letter = false) : words text = [text] := by
  rw [words, List.splitOnP_eq_singleton solid]
  simp [filled]

/-- Words with one space between neighbours. -/
def unwords (parts : List Text) : Text := join [' '] parts

end DataSegment.Text
