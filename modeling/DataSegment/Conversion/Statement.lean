/-
This file turns the operands of a declaration into a statement.
-/

import DataSegment.Assembly.Line
import DataSegment.Listing.Entry
import DataSegment.Listing.Operand
import DataSegment.Listing.Quoted
import DataSegment.Conversion.Reference

namespace DataSegment

open Assembly Listing

/-- Every word that must be a number is refused by the same cause. -/
def readNumber (word : Text) : Except Cause UInt64 :=
  match number? word with
  | some value => .ok value
  | none => .error (.badNumber word)

/-- A quoted operand gives its characters, any other operand one byte. -/
def stringPieces (word : Text) : Except Cause (List Piece) :=
  match word with
  | '\'' :: body =>
      match Quoted.ofBody body with
      | .closed content => .ok (content.map .quoted)
      | .trailed => .error (.textAfterQuote body)
      | .unclosed => .error (.openQuote body)
  | _ =>
      match readNumber word with
      | .error cause => .error cause
      | .ok value =>
          if value < 256 then .ok [.byte value.toUInt8] else .error (.byteRange word)

/-- A zero after a single fragment ends the string. -/
def stringStatement (operands : List Text) : Except Cause Statement :=
  match operands with
  | [fragment, ['0']] => (stringPieces fragment).map (.string true)
  | _ => (operands.mapM stringPieces).map fun pieces => .string false pieces.flatten

/-- The value in the parentheses of a repeat. Anything behind them is ignored. -/
def repeatedValue (width : Width) (word : Text) : Except Cause UInt64 :=
  if word.contains ')' then
    let inner := (word.drop 4).takeWhile (· != ')')
    if inner = ['?'] then .ok 0 else (readNumber inner).map width.truncate
  else .error (.badRepeat word)

def fillStatement (width : Width) (count word : Text) : Except Cause Statement := do
  let count ← readNumber count
  let value ← repeatedValue width word
  return .fill count width value

/-- Packs the low bytes of the characters between the quotes, the first one highest. -/
def packedValue (word : Text) : UInt32 :=
  ((word.drop 1).take 4).foldl
    (fun value letter => (value <<< 8) ||| (letter.val &&& 0xff)) 0

/-- A suppressed name is left to the comment. -/
def Reference.item (name : Text) : Reference → Item × List Text
  | .suppressed => (.number 0, [name])
  | .external _ => (.symbol name, [])

namespace Environment

/-- An item with the names that it leaves to the comment of its line. -/
def item (environment : Environment) (width : Width) :
    Operand → Except Cause (Item × List Text)
  | .label name => (environment.reference name).map (Reference.item name)
  | .unset => .ok (.number 0, [])
  | .number word => (readNumber word).map fun value => (.number (width.truncate value), [])

/-- A statement with the names and literals that its comment keeps. -/
def statement (environment : Environment) (width : Width) :
    Form → Except Cause (Statement × List Text)
  | .string operands => (stringStatement operands).map fun statement => (statement, [])
  | .repeated count word => (fillStatement width count word).map fun statement => (statement, [])
  | .packed word => .ok (.packed (packedValue word), [word])
  | .float format literal => .ok (.float format literal, [])
  | .list operands =>
      (operands.mapM (environment.item width)).map fun items =>
        (.list width (items.map Prod.fst), items.flatMap Prod.snd)

def operandRemarks (environment : Environment) : Operand → List Remark
  | .label name => environment.referenceRemarks name
  | _ => []

/-- A list is remarked upon up to its first operand that fails. -/
def formRemarks (environment : Environment) (width : Width) : Form → List Remark
  | .list operands =>
      (operands.takeWhile fun operand => (environment.item width operand).isOk).flatMap
        environment.operandRemarks
  | _ => []

/-- A line of output keeps the label of its declaration. -/
def declarationLine (environment : Environment) (declaration : Declaration) : Except Cause Line :=
  match Form.ofOperands declaration.width declaration.operands with
  | .error cause => .error cause
  | .ok form =>
      (environment.statement declaration.width form).map fun converted =>
        ⟨declaration.label, converted.1, converted.2⟩

def declarationRemarks (environment : Environment) (declaration : Declaration) : List Remark :=
  match Form.ofOperands declaration.width declaration.operands with
  | .error _ => []
  | .ok form => environment.formRemarks declaration.width form

end Environment

end DataSegment
