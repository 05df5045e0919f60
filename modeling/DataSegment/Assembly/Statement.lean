/-
This file holds the data statements of the output and their text.
-/

import DataSegment.Assembly.Ascii
import DataSegment.Width

namespace DataSegment.Assembly

open Text

/-- An item of a list is a value or the address of a symbol. -/
inductive Item where
  | number (value : UInt64)
  | symbol (name : Text)
  deriving DecidableEq, Repr

/-- The statements that lay out data. -/
inductive Statement where
  | align (boundary : UInt64)
  | string (zeroEnded : Bool) (pieces : List Piece)
  | fill (count : UInt64) (width : Width) (value : UInt64)
  | packed (value : UInt32)
  | float (format : FloatFormat) (literal : Text)
  | list (width : Width) (items : List Item)
  deriving DecidableEq, Repr

def unitMnemonic : Width → Text
  | .byte => ".byte".toList
  | .word => ".word".toList
  | .double => ".long".toList
  | .quad => ".quad".toList
  | .ten => ".tfloat".toList

def formatMnemonic : FloatFormat → Text
  | .single => ".float".toList
  | .double => ".double".toList
  | .extended => ".tfloat".toList

/-- A digit stands alone; any other value is hexadecimal. -/
def Item.render (symbolPrefix : Text) : Item → Text
  | .number value =>
      if value < 10 then decimal value.toNat else hexadecimal 1 value.toNat
  | .symbol name => symbolPrefix ++ name

def Statement.render (symbolPrefix : Text) : Statement → Text
  | .align boundary => ".align ".toList ++ decimal boundary.toNat
  | .string zeroEnded pieces =>
      (if zeroEnded then ".asciz \"".toList else ".ascii \"".toList) ++ renderPieces pieces ++ ['"']
  | .fill count width value =>
      ".fill ".toList ++ hexadecimal 2 count.toNat ++ [','] ++ decimal width.size ++ [','] ++
        hexadecimal 2 value.toNat
  | .packed value => ".long ".toList ++ hexadecimal 1 value.toNat
  | .float format literal => formatMnemonic format ++ [' '] ++ literal
  | .list width items =>
      unitMnemonic width ++ [' '] ++ join [',', ' '] (items.map (Item.render symbolPrefix))

theorem Statement.render_string (symbolPrefix : Text) (zeroEnded : Bool) (pieces : List Piece) :
    (Statement.string zeroEnded pieces).render symbolPrefix =
      (if zeroEnded then ".asciz \"".toList else ".ascii \"".toList) ++
        (renderPieces pieces ++ ['"']) := List.append_assoc ..

theorem Statement.render_fill (symbolPrefix : Text) (count : UInt64) (width : Width)
    (value : UInt64) :
    (Statement.fill count width value).render symbolPrefix =
      ".fill ".toList ++ hexadecimal 2 count.toNat ++ [','] ++ decimal width.size ++ [','] ++
        hexadecimal 2 value.toNat := rfl

theorem Statement.render_packed (symbolPrefix : Text) (value : UInt32) :
    (Statement.packed value).render symbolPrefix =
      ".long ".toList ++ hexadecimal 1 value.toNat := rfl

theorem Statement.render_list (symbolPrefix : Text) (width : Width) (items : List Item) :
    (Statement.list width items).render symbolPrefix =
      unitMnemonic width ++ [' '] ++ join [',', ' '] (items.map (Item.render symbolPrefix)) := rfl

end DataSegment.Assembly
