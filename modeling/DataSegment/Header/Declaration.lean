/-
This file reads the prototype that a header statement declares.
-/

import DataSegment.Header.Nesting
import DataSegment.Header.Prototype
import DataSegment.Text.Search
import DataSegment.Text.White

namespace DataSegment.Header

open Text

/-- Why a statement declares nothing that can be read. -/
inductive Fault where
  | malformed (text : Text)
  | unknownRegister (name : Text)
  deriving DecidableEq, Repr

def annotationMark : Text := "__declspec(".toList

/-- What follows a closed annotation is shorter than the text. -/
theorem length_lt_of_annotation {text before after inner rest : Text}
    (found : breakOn? annotationMark text = some (before, after))
    (closed : closing? 0 after = some (inner, rest)) : rest.length < text.length := by
  have outer := congrArg List.length (eq_append_of_breakOn? found)
  have inside := congrArg List.length (eq_append_of_closing? closed)
  simp only [List.length_append, List.length_cons] at outer inside
  omega

/-- Puts a space in the place of each annotation up to its closing parenthesis. An annotation that
is not closed ends the work. -/
def dropAnnotations (text : Text) : Text :=
  match found : breakOn? annotationMark text with
  | none => text
  | some (before, after) =>
      match closed : closing? 0 after with
      | none => text
      | some (_, rest) =>
          have := length_lt_of_annotation found closed
          before ++ ' ' :: dropAnnotations rest
termination_by text.length

/-- Words that say nothing about the type of a name. -/
def specifiers : List Text :=
  ["extern".toList, "static".toList, "inline".toList, "__inline".toList]

/-- The words of a statement that are no specifiers, with one space between them. -/
def withoutSpecifiers (text : Text) : Text :=
  unwords ((words (dropAnnotations text)).filter fun word => !specifiers.contains word)

def isIdentifierLetter (letter : Char) : Bool :=
  letter.isAlphanum || letter == '_' || letter == '?' || letter == '@' || letter == '$'

/-- An identifier starts with no digit. -/
def isIdentifier (text : Text) : Bool :=
  match text with
  | [] => false
  | first :: _ => !first.isDigit && text.all isIdentifierLetter

def endsType (letter : Char) : Bool := isWhite letter || letter == '*'

/-- Splits a type from the name behind its last blank or star. -/
def typeAndName? (text : Text) : Option (Text × Text) :=
  let reversed := text.reverse
  let type := trim (reversed.dropWhile fun letter => !endsType letter).reverse
  let name := (reversed.takeWhile fun letter => !endsType letter).reverse
  if !type.isEmpty && isIdentifier name then some (type, name) else none

/-- The last convention that is named counts. -/
def convention (words : List Text) : Convention :=
  (words.filterMap Convention.ofKeyword?).getLast?.getD .cdecl

def withoutKeywords (words : List Text) : List Text :=
  words.filter fun word => (Convention.ofKeyword? word).isNone

/-- Reads a parameter and the register that is marked in it. -/
def Parameter.ofText (text : Text) : Except Fault Parameter :=
  match breakOn? ['@', '<'] text with
  | none => .ok ⟨text, none⟩
  | some (before, after) =>
      match breakOn? ['>'] after with
      | none => .error (.malformed text)
      | some (name, _) =>
          match Register.ofName? name with
          | none => .error (.unknownRegister name)
          | some register => .ok ⟨trim before, some register⟩

/-- A register of the convention is taken at each position where none is marked. -/
def assignRegisters : List Register → List Parameter → List Parameter
  | register :: registers, parameter :: parameters =>
      ⟨parameter.text, some (parameter.register.getD register)⟩ ::
        assignRegisters registers parameters
  | _, parameters => parameters

def voidWord : Text := ['v', 'o', 'i', 'd']

def ellipsis : Text := ['.', '.', '.']

/-- Reads the text between the parentheses of a parameter list. -/
def parameters (convention : Convention) (text : Text) :
    Except Fault (List Parameter × Bool) :=
  let parts := (splitCommas 0 text).map trim
  let written := parts.filter fun part => part ≠ [] ∧ part ≠ voidWord ∧ part ≠ ellipsis
  (written.mapM Parameter.ofText).map fun read =>
    (assignRegisters convention.defaultRegisters read, parts.contains ellipsis)

/-- A name with a type, and with dimensions in brackets that are ignored. -/
def dataPrototype (text : Text) : Except Fault Prototype :=
  match typeAndName? (trim (text.takeWhile (· != '['))) with
  | none => .error (.malformed text)
  | some (type, name) => .ok ⟨name, type, .data, .cdecl, [], false⟩

/-- A pointer to a routine has its convention, a star and its name in parentheses of their own. -/
def pointerPrototype (text type inner tail : Text) : Except Fault Prototype :=
  if inner.contains '*' && !type.isEmpty then
    match closing? 0 tail with
    | none => .error (.malformed text)
    | some (list, _) =>
        let words := words (inner.map fun letter => if letter = '*' then ' ' else letter)
        match (withoutKeywords words).getLast?.filter isIdentifier with
        | none => .error (.malformed text)
        | some name =>
            (parameters (convention words) list).map fun read =>
              ⟨name, type, .pointer, convention words, read.1, read.2⟩
  else .error (.malformed text)

/-- Stars are set apart from the words around them. -/
def spaceStars (text : Text) : Text :=
  text.flatMap fun letter => if letter = '*' then [' ', '*', ' '] else [letter]

/-- A routine has its type, convention and name before the parameter list. A register mark behind
the name is ignored. -/
def routinePrototype (text head list : Text) : Except Fault Prototype :=
  let named := match breakOn? ['@', '<'] head with
    | none => head
    | some (before, _) => before
  let words := words (spaceStars named)
  match typeAndName? (unwords (withoutKeywords words)) with
  | none => .error (.malformed text)
  | some (type, name) =>
      (parameters (convention words) list).map fun read =>
        ⟨name, type, .routine, convention words, read.1, read.2⟩

/-- Whether a statement defines only a type. -/
def definesType (text : Text) : Bool :=
  match words text with
  | [] => true
  | [first] => first = "typedef".toList
  | [first, _] =>
      ["typedef".toList, "struct".toList, "union".toList, "enum".toList, "class".toList].contains
        first
  | first :: _ => first = "typedef".toList

/-- Reads a statement without specifiers. A statement with a body declares nothing, nor does one
that defines only a type. -/
def prototype? (text : Text) : Except Fault (Option Prototype) :=
  if text.contains '\x7b' || definesType text then .ok none
  else
    match breakOn? ['('] text with
    | none => (dataPrototype text).map some
    | some (head, after) =>
        match closing? 0 after with
        | none => .error (.malformed text)
        | some (inner, rest) =>
            match trim rest with
            | '(' :: tail => (pointerPrototype text (trim head) inner tail).map some
            | _ => (routinePrototype text (trim head) inner).map some

end DataSegment.Header
