/-
This file reads the tree of a YAML document from its tokens.
-/

import DataSegment.Yaml.Token

namespace DataSegment.Yaml

inductive Node where
  | scalar (text : Text) (plain : Bool)
  | list (items : List Node)
  | map (entries : List (Node × Node))

/-- A node that is left out. -/
def Node.absent : Node := .scalar [] true

/-- Where a node stands, which says what blocks it can be. -/
inductive Site where
  /-- No block stands inside of a flow collection. -/
  | flow
  /-- An item of a block list, or the root. -/
  | item
  /-- A part of a block map, which can also be a list of dashes that opens no block of its own. -/
  | entry
  deriving DecidableEq, Repr

def startsWithAny (tokens : List Token) (ends : List Token) : Bool :=
  tokens.head?.any ends.contains

/-- A comma sets each item of a flow collection apart from the one before it. -/
def behindComma? (first : Bool) (close : Token) (tokens : List Token) : Option (List Token) :=
  if first || tokens.head? = some close then some tokens
  else if tokens.head? = some .comma then some tokens.tail
  else none

mutual

def node? : Nat → Site → List Token → Option (Node × List Token)
  | 0, _, _ => none
  | _ + 1, _, [] => none
  | steps + 1, site, token :: rest =>
      match token with
      | .scalar text plain => some (.scalar text plain, rest)
      | .openList => (flowItems? steps true rest).map fun read => (.list read.1, read.2)
      | .openMap => (flowEntries? steps true rest).map fun read => (.map read.1, read.2)
      | .openBlockList =>
          if site = .flow then none
          else (blockItems? steps false rest).map fun read => (.list read.1, read.2)
      | .openBlockMap =>
          if site = .flow then none
          else (blockEntries? steps rest).map fun read => (.map read.1, read.2)
      | .dash =>
          if site = .entry then
            (blockItems? steps true (.dash :: rest)).map fun read => (.list read.1, read.2)
          else none
      | _ => none

/-- A node that is left out where one of some tokens comes next. -/
def nodeOrAbsent? : Nat → Site → List Token → List Token → Option (Node × List Token)
  | 0, _, _, _ => none
  | steps + 1, site, ends, tokens =>
      if startsWithAny tokens ends then some (.absent, tokens) else node? steps site tokens

/-- The value of a key. It can be left out along with its colon. -/
def value? : Nat → Site → List Token → List Token → Option (Node × List Token)
  | 0, _, _, _ => none
  | steps + 1, site, ends, tokens =>
      if tokens.head? = some .value then nodeOrAbsent? steps site ends tokens.tail
      else some (.absent, tokens)

/-- The items up to a closing bracket. -/
def flowItems? : Nat → Bool → List Token → Option (List Node × List Token)
  | 0, _, _ => none
  | steps + 1, first, tokens =>
      match behindComma? first .closeList tokens with
      | none => none
      | some tokens =>
          if tokens.head? = some .closeList then some ([], tokens.tail)
          else
            match flowItem? steps tokens with
            | none => none
            | some (item, after) =>
                (flowItems? steps false after).map fun later => (item :: later.1, later.2)

/-- An item with a key is a map of one entry. A key that is left out takes the next token with
it. -/
def flowItem? : Nat → List Token → Option (Node × List Token)
  | 0, _ => none
  | steps + 1, tokens =>
      if tokens.head? = some .key then
        let read :=
          if startsWithAny tokens.tail [.value, .comma, .closeList] then
            some (.absent, tokens.tail.tail)
          else node? steps .flow tokens.tail
        match read with
        | none => none
        | some (key, after) =>
            (value? steps .flow [.comma, .closeList] after).map fun value =>
              (.map [(key, value.1)], value.2)
      else node? steps .flow tokens

/-- The entries up to a closing brace. -/
def flowEntries? : Nat → Bool → List Token → Option (List (Node × Node) × List Token)
  | 0, _, _ => none
  | steps + 1, first, tokens =>
      match behindComma? first .closeMap tokens with
      | none => none
      | some tokens =>
          if tokens.head? = some .closeMap then some ([], tokens.tail)
          else
            match flowEntry? steps tokens with
            | none => none
            | some (entry, after) =>
                (flowEntries? steps false after).map fun later => (entry :: later.1, later.2)

/-- An entry without a colon is a key without a value. -/
def flowEntry? : Nat → List Token → Option ((Node × Node) × List Token)
  | 0, _ => none
  | steps + 1, tokens =>
      if tokens.head? = some .key then
        match nodeOrAbsent? steps .flow [.value, .comma, .closeMap] tokens.tail with
        | none => none
        | some (key, after) =>
            (value? steps .flow [.comma, .closeMap] after).map fun value =>
              ((key, value.1), value.2)
      else (node? steps .flow tokens).map fun read => ((read.1, .absent), read.2)

/-- The items of a block list. A `loose` list opened no block, so that it ends before anything but
a dash. -/
def blockItems? : Nat → Bool → List Token → Option (List Node × List Token)
  | 0, _, _ => none
  | steps + 1, loose, tokens =>
      if tokens.head? = some .dash then
        let ends := if loose then [.dash, .key, .value, .closeBlock] else [.dash, .closeBlock]
        match nodeOrAbsent? steps .item ends tokens.tail with
        | none => none
        | some (item, after) =>
            (blockItems? steps loose after).map fun later => (item :: later.1, later.2)
      else if loose then some ([], tokens)
      else if tokens.head? = some .closeBlock then some ([], tokens.tail)
      else none

/-- The entries of a block map. -/
def blockEntries? : Nat → List Token → Option (List (Node × Node) × List Token)
  | 0, _ => none
  | steps + 1, tokens =>
      let ends := [.key, .value, .closeBlock]
      if tokens.head? = some .key then
        match nodeOrAbsent? steps .entry ends tokens.tail with
        | none => none
        | some (key, after) =>
            match value? steps .entry ends after with
            | none => none
            | some (value, after) =>
                (blockEntries? steps after).map fun later => ((key, value) :: later.1, later.2)
      else if tokens.head? = some .closeBlock then some ([], tokens.tail)
      else none

end

/-- The tree behind the start of a document. -/
def root? (steps : Nat) (tokens : List Token) : Option (Node × List Token) :=
  if tokens.isEmpty then some (.absent, [])
  else nodeOrAbsent? steps .item [.documentStart, .documentEnd, .version] tokens

/-- The tree of a document. Nothing but the marks of a document end may follow the tree, and only a
document that declares a version has to mark its start. -/
def document? (tokens : List Token) : Option Node :=
  let steps := 8 * tokens.length + 8
  let read : Option (Node × List Token) :=
    match tokens with
    | [] => some (.absent, [])
    | .documentStart :: rest => root? steps rest
    | .version :: .documentStart :: rest => root? steps rest
    | _ => node? steps .item tokens
  match read with
  | none => none
  | some (node, after) => if after.all (· == .documentEnd) then some node else none

/-- Reads a document with one tree. -/
def read? (source : Text) : Option Node := (tokens? source).bind document?

end DataSegment.Yaml
