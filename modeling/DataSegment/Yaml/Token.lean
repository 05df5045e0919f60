/-
This file cuts a YAML document into tokens, among them the bounds of its blocks.
-/

import DataSegment.Text.Search
import DataSegment.Yaml.Scalar

namespace DataSegment.Yaml

open Text

inductive Token where
  | scalar (text : Text) (plain : Bool)
  | openList
  | closeList
  | openMap
  | closeMap
  | comma
  | openBlockList
  | openBlockMap
  | closeBlock
  | dash
  | key
  | value
  | documentStart
  | documentEnd
  | version
  deriving DecidableEq, Repr

/-- A scalar or a flow collection that is a key if a colon follows it. -/
structure Candidate where
  place : Place
  /-- The number of tokens before it. -/
  before : Nat
  /-- Whether nothing but a key can stand there. -/
  required : Bool
  deriving DecidableEq, Repr

/-- The colon stands on the line of its key, at most 1024 characters behind the start of it. -/
def Candidate.isPast (place : Place) (candidate : Candidate) : Bool :=
  candidate.place.line < place.line || candidate.place.column + 1024 < place.column

/-- The part of a document that is still to be read, and what is known of the part before it. -/
structure Lexing where
  rest : Text
  place : Place
  tokens : Array Token
  /-- The columns of the open blocks. The innermost one comes first. -/
  columns : List Nat
  candidate : Option Candidate
  /-- The candidate before each open flow collection. The innermost one comes first. -/
  outer : List (Option Candidate)
  /-- Whether a block key can start here, before which no tab may stand. -/
  keyAllowed : Bool
  deriving DecidableEq, Repr

namespace Lexing

def start (source : Text) : Lexing := ⟨source, ⟨0, 0⟩, #[], [], none, [], true⟩

/-- Whether a flow collection is open. -/
def flow (lexing : Lexing) : Bool := !lexing.outer.isEmpty

/-- Adds a token of one line that is `width` characters wide. -/
def take (lexing : Lexing) (token : Token) (width : Nat) (keyAllowed : Bool) : Lexing :=
  { lexing with
    rest := lexing.rest.drop width
    place := ⟨lexing.place.line, lexing.place.column + width⟩
    tokens := lexing.tokens.push token
    keyAllowed }

/-- Closes the innermost blocks whose columns satisfy a condition. -/
def closeBlocks (lexing : Lexing) (ends : Nat → Bool) : Lexing :=
  if lexing.flow then lexing
  else
    { lexing with
      columns := lexing.columns.dropWhile ends
      tokens := lexing.tokens ++ (lexing.columns.takeWhile ends).map fun _ => Token.closeBlock }

/-- A block opens in a column to the right of the innermost one. -/
def openBlock (lexing : Lexing) (token : Token) (column before : Nat) : Lexing :=
  if lexing.flow || lexing.columns.head?.any (column ≤ ·) then lexing
  else
    { lexing with
      columns := column :: lexing.columns
      tokens := lexing.tokens.insertIdxIfInBounds before token }

/-- Gives up the candidate. -/
def dropCandidate? (lexing : Lexing) : Option Lexing :=
  if lexing.candidate.any (·.required) then none else some { lexing with candidate := none }

/-- Gives up the candidates that no colon can follow any more. -/
def dropPast? (lexing : Lexing) : Option Lexing :=
  let past := Candidate.isPast lexing.place
  let missed := fun candidate : Candidate => candidate.required && past candidate
  if (lexing.candidate :: lexing.outer).any (·.any missed) then none
  else
    some { lexing with
      candidate := lexing.candidate.filter (!past ·)
      outer := lexing.outer.map (·.filter (!past ·)) }

/-- What starts here may be a key. It has to be one in the column of the innermost block. -/
def addCandidate? (lexing : Lexing) : Option Lexing :=
  if lexing.keyAllowed then
    let required := !lexing.flow && lexing.columns.head? == some lexing.place.column
    lexing.dropCandidate?.map fun dropped =>
      { dropped with candidate := some ⟨lexing.place, lexing.tokens.size, required⟩ }
  else some lexing

/-- Passes blanks, comments and line ends. A byte order mark may start a line. -/
def skip (flow comment keyAllowed : Bool) (place : Place) : Text → Text × Place × Bool
  | [] => ([], place, keyAllowed)
  | letter :: rest =>
      if isBreak letter then skip flow false (keyAllowed || !flow) (place.after letter) rest
      else if comment || letter == '#' then skip flow true keyAllowed (place.after letter) rest
      else if letter == ' ' || (letter == '\t' && (flow || !keyAllowed)) ||
          (letter == '\ufeff' && place.column == 0) then
        skip flow false keyAllowed (place.after letter) rest
      else (letter :: rest, place, keyAllowed)

/-- Goes on to the start of a token, and closes the blocks to the right of it. -/
def toToken? (lexing : Lexing) : Option Lexing :=
  let next := skip lexing.flow false lexing.keyAllowed lexing.place lexing.rest
  let moved : Lexing := { lexing with rest := next.1, place := next.2.1, keyAllowed := next.2.2 }
  moved.dropPast?.map (·.closeBlocks (moved.place.column < ·))

/-- Closes all blocks. -/
def closeAll? (lexing : Lexing) : Option Lexing := (lexing.closeBlocks fun _ => true).dropCandidate?

/-- Whether a line declares a version that can be read, which is 1.1 or 1.2. -/
def isVersion (line : Text) : Bool :=
  let numbers := (after? "%YAML".toList line).getD []
  let major := (numbers.dropWhile isBlank).takeWhile Char.isDigit
  let fromPoint := (numbers.dropWhile isBlank).dropWhile Char.isDigit
  let minor := (fromPoint.drop 1).takeWhile Char.isDigit
  let behind := ((fromPoint.drop 1).dropWhile Char.isDigit).dropWhile isBlank
  numbers.head?.any isBlank && fromPoint.head? == some '.' && behind.head?.all (· == '#') &&
    decide (major.length ≤ 9) && decide (minor.length ≤ 9) && natural? 10 major == some 1 &&
    (natural? 10 minor == some 1 || natural? 10 minor == some 2)

/-- A line that declares a version. -/
def version? (lexing : Lexing) : Option Lexing :=
  let line := lexing.rest.takeWhile (!isBreak ·)
  if isVersion line then
    lexing.closeAll?.map fun closed =>
      { closed.take .version (line.length + 1) false with place := ⟨lexing.place.line + 1, 0⟩ }
  else none

/-- A token that opens a flow collection. -/
def openFlow? (lexing : Lexing) (token : Token) : Option Lexing :=
  lexing.addCandidate?.map fun lexing =>
    { lexing.take token 1 true with candidate := none, outer := lexing.candidate :: lexing.outer }

/-- A token that closes a flow collection. The candidate before the collection stands again. -/
def closeFlow? (lexing : Lexing) (token : Token) : Option Lexing :=
  lexing.dropCandidate?.map fun lexing =>
    { lexing.take token 1 false with
      candidate := lexing.outer.head?.join
      outer := lexing.outer.tail }

/-- A dash or a question mark that starts a block or goes on with one. -/
def blockMark? (lexing : Lexing) (block mark : Token) (keyAllowed : Bool) : Option Lexing :=
  if lexing.flow || lexing.keyAllowed then
    (lexing.openBlock block lexing.place.column lexing.tokens.size).dropCandidate?.map
      (·.take mark 1 keyAllowed)
  else none

/-- A colon makes a key of the candidate, and without one it stands for a key left out. -/
def colon? (lexing : Lexing) : Option Lexing :=
  match lexing.candidate with
  | some candidate =>
      let keyed := { lexing with
        candidate := none
        tokens := lexing.tokens.insertIdxIfInBounds candidate.before .key }
      some <| (keyed.openBlock .openBlockMap candidate.place.column candidate.before).take
        .value 1 false
  | none => lexing.blockMark? .openBlockMap .value !lexing.flow

def scalar (lexing : Lexing) (plain : Bool) (read : Scalar) : Lexing :=
  { lexing with
    rest := read.rest
    place := read.place
    tokens := lexing.tokens.push (.scalar read.text plain)
    keyAllowed := read.broken }

/-- The token that starts here. -/
def token? (lexing : Lexing) (letter : Char) (rest : Text) : Option Lexing :=
  let flow := lexing.flow
  let first := lexing.place.column == 0
  if first && letter == '%' then lexing.version?
  else if first && startsBound (letter :: rest) then
    lexing.closeAll?.map
      (·.take (if letter == '-' then .documentStart else .documentEnd) 3 false)
  else if letter == '[' then lexing.openFlow? .openList
  else if letter == '\x7b' then lexing.openFlow? .openMap
  else if letter == ']' then lexing.closeFlow? .closeList
  else if letter == '\x7d' then lexing.closeFlow? .closeMap
  else if letter == ',' then lexing.dropCandidate?.map (·.take .comma 1 true)
  else if letter == '-' && blankNext rest then lexing.blockMark? .openBlockList .dash true
  else if letter == '?' && (flow || blankNext rest) then
    lexing.blockMark? .openBlockMap .key !flow
  else if letter == ':' && (flow || blankNext rest) then lexing.colon?
  else if letter == '\'' || letter == '"' then
    match lexing.addCandidate?, quoted? letter 0 .empty (lexing.place.after letter) rest with
    | some lexing, some read => some (lexing.scalar false read)
    | _, _ => none
  else if startsPlain flow letter rest then
    let least := (lexing.columns.head?.map (· + 1)).getD 0
    match lexing.addCandidate?, plain? flow least .empty lexing.place (letter :: rest) with
    | some lexing, some read => some (lexing.scalar true read)
    | _, _ => none
  else none

/-- The tokens up to the end. Each takes at least one character, so that the length of the rest
bounds the number of steps. -/
def tokens? : Nat → Lexing → Option (List Token)
  | 0, _ => none
  | steps + 1, lexing =>
      match lexing.toToken? with
      | none => none
      | some lexing =>
          match lexing.rest with
          | [] => lexing.closeAll?.map (·.tokens.toList)
          | letter :: rest => (lexing.token? letter rest).bind (tokens? steps)

end Lexing

/-- The tokens of a document. -/
def tokens? (source : Text) : Option (List Token) :=
  if source.all isPrintable then (Lexing.start (normalLineEnds source)).tokens? (source.length + 1)
  else none

end DataSegment.Yaml
