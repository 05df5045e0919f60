/-
This file reads settings from a YAML document.
-/

import DataSegment.Settings
import DataSegment.Text.Search
import DataSegment.Yaml.Node

namespace DataSegment.Settings

open Text Yaml

/-- Any scalar is a text. -/
def text? : Node → Option Text
  | .scalar text _ => some text
  | _ => none

/-- A scalar of one character. -/
def letter? (node : Node) : Option Char :=
  match text? node with
  | some [letter] => some letter
  | _ => none

/-- A value that is left out is an empty list. -/
def list? {α : Type} (item? : Node → Option α) : Node → Option (List α)
  | .list items => items.mapM item?
  | .scalar [] true => some []
  | _ => none

def entry? (entry : Node × Node) : Option (Text × Text) :=
  match text? entry.1, text? entry.2 with
  | some name, some header => some (name, header)
  | _, _ => none

/-- A value that is left out is an empty table. -/
def table? : Node → Option (List (Text × Text))
  | .map entries => (entries.mapM entry?).map sectionsOfList
  | .scalar [] true => some []
  | _ => none

/-- Reads digits behind the mark of a base. -/
def marked? (mark : Text) (base : Nat) (digits : Text) : Option Nat :=
  (after? mark digits).bind (natural? base)

/-- A number in base ten has no leading zero. A plus sign may stand before any number. -/
def natural? (text : Text) : Option Nat :=
  let digits := match text with
    | '+' :: digits => digits
    | digits => digits
  (marked? ['0', 'x'] 16 digits).or <| (marked? ['0', 'o'] 8 digits).or <|
    (marked? ['0', 'b'] 2 digits).or <|
      if 1 < digits.length ∧ digits.head? = some '0' then none else Text.natural? 10 digits

/-- Only a plain scalar is a number. -/
def alignment? : Node → Option UInt32
  | .scalar text true => ((natural? text).filter (· < UInt32.size)).map UInt32.ofNat
  | _ => none

/-- The keys that are known. -/
inductive Key where
  | symbolPrefix
  | internalPrefixes
  | internalLetters
  | guessedPrefix
  | alignment
  | sections
  | skippedSections
  deriving DecidableEq, Repr

def keyNames : List (Text × Key) :=
  [("symbol_prefix".toList, .symbolPrefix), ("internal_prefixes".toList, .internalPrefixes),
    ("internal_chars".toList, .internalLetters), ("guessed_prefix".toList, .guessedPrefix),
    ("align".toList, .alignment), ("sections".toList, .sections),
    ("skip_sections".toList, .skippedSections)]

def Key.ofName? (name : Text) : Option Key :=
  (keyNames.find? fun entry => entry.1 == name).map Prod.snd

/-- Replaces the setting of a key. -/
def set? (settings : Settings) (value : Node) : Key → Option Settings
  | .symbolPrefix => (text? value).map fun read => { settings with symbolPrefix := read }
  | .internalPrefixes =>
      (list? text? value).map fun read => { settings with internalPrefixes := read }
  | .internalLetters =>
      (list? letter? value).map fun read => { settings with internalLetters := read }
  | .guessedPrefix => (text? value).map fun read => { settings with guessedPrefix := read }
  | .alignment => (alignment? value).map fun read => { settings with alignment := read }
  | .sections => (table? value).map fun read => { settings with sections := read }
  | .skippedSections =>
      (list? text? value).map fun read => { settings with skippedSections := read }

/-- Sets the known keys in order. No known key may be `seen` twice; other keys are ignored. -/
def setAll? (seen : List Key) (settings : Settings) : List (Node × Node) → Option Settings
  | [] => some settings
  | (name, value) :: rest =>
      match (text? name).map Key.ofName? with
      | none => none
      | some none => setAll? seen settings rest
      | some (some key) =>
          if seen.contains key then none
          else
            match settings.set? value key with
            | none => none
            | some settings => setAll? (key :: seen) settings rest

/-- Settings that a document leaves out keep their standard values. -/
def ofNode? : Node → Option Settings
  | .map entries => setAll? [] standard entries
  | .scalar [] true => some standard
  | _ => none

def ofText? (source : Text) : Option Settings := (read? source).bind ofNode?

end DataSegment.Settings
