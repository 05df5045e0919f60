/-
This file holds the prototypes that a header declares.
-/

import DataSegment.Text.Numeral

namespace DataSegment.Header

open Text

/-- The general registers of the 32-bit machine. -/
inductive Register where
  | eax
  | ecx
  | edx
  | ebx
  | esp
  | ebp
  | esi
  | edi
  deriving DecidableEq, Repr

namespace Register

def all : List Register := [eax, ecx, edx, ebx, esp, ebp, esi, edi]

def name : Register → Text
  | eax => ['e', 'a', 'x']
  | ecx => ['e', 'c', 'x']
  | edx => ['e', 'd', 'x']
  | ebx => ['e', 'b', 'x']
  | esp => ['e', 's', 'p']
  | ebp => ['e', 'b', 'p']
  | esi => ['e', 's', 'i']
  | edi => ['e', 'd', 'i']

/-- A register is named in either case. -/
def ofName? (word : Text) : Option Register :=
  all.find? fun register => sameLetters register.name word

end Register

/-- How a routine is called. -/
inductive Convention where
  | cdecl
  | stdcall
  | fastcall
  | thiscall
  | usercall
  | userpurge
  deriving DecidableEq, Repr

namespace Convention

/-- The words that name a convention. -/
def keywords : Convention → List Text
  | cdecl => ["__cdecl".toList, "_cdecl".toList, "cdecl".toList]
  | stdcall =>
      ["__stdcall".toList, "_stdcall".toList, "WINAPI".toList, "CALLBACK".toList,
        "APIENTRY".toList]
  | fastcall => ["__fastcall".toList, "_fastcall".toList]
  | thiscall => ["__thiscall".toList]
  | usercall => ["__usercall".toList]
  | userpurge => ["__userpurge".toList]

def all : List Convention := [cdecl, stdcall, fastcall, thiscall, usercall, userpurge]

def ofKeyword? (word : Text) : Option Convention :=
  all.find? fun convention => convention.keywords.contains word

/-- The registers that leading parameters take when no register is written. -/
def defaultRegisters : Convention → List Register
  | fastcall => [.ecx, .edx]
  | thiscall => [.ecx]
  | _ => []

end Convention

/-- A parameter as written, with the register that it is passed in. -/
structure Parameter where
  text : Text
  register : Option Register
  deriving DecidableEq, Repr

/-- A name can stand for a routine, for a pointer to a routine or for data. -/
inductive Kind where
  | routine
  | pointer
  | data
  deriving DecidableEq, Repr

structure Prototype where
  name : Text
  /-- The type of the data or of the value that the routine returns. -/
  type : Text
  kind : Kind
  convention : Convention
  parameters : List Parameter
  variadic : Bool
  deriving DecidableEq, Repr

namespace Prototype

/-- The registers of the parameters, in order of declaration. -/
def registers (prototype : Prototype) : List Register :=
  prototype.parameters.filterMap Parameter.register

/-- The number of parameters that are passed on the stack. -/
def stackCount (prototype : Prototype) : Nat :=
  prototype.parameters.countP fun parameter => parameter.register.isNone

/-- A call through a data pointer can pass no registers, `ecx` alone, or `ecx` and `edx` before
any number of stack parameters. -/
def callable (prototype : Prototype) : Bool :=
  match prototype.registers with
  | [] => true
  | [.ecx] => prototype.stackCount == 0
  | [.ecx, .edx] => true
  | _ => false

/-- Names the registers in order and counts the parameters on the stack. -/
def signature (prototype : Prototype) : Text :=
  let stack :=
    if prototype.stackCount = 0 then []
    else ['\x7b' :: decimal prototype.stackCount ++ " stack\x7d".toList]
  prototype.type ++ [' '] ++ prototype.name ++ ['('] ++
    join [',', ' '] (prototype.registers.map Register.name ++ stack) ++ [')']

end Prototype

end DataSegment.Header
