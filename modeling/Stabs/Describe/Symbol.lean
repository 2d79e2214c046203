import Stabs.Describe.Type
import Stabs.Program.Target
import Stabs.Program.Unit

/-!
# Symbols

A symbol is described by its name, a colon, a letter for its kind and its type. The letter, the
code and the value follow from the declaration and the target alone; many declarations have no
symbol at all.
-/
namespace Stabs

/-- What one description says. `full` asks for the definition of the type. -/
structure Symbol where
  name : String
  letter : Option Char
  code : Code
  value : Placement
  ty : TypeId
  full : Bool := false
deriving DecidableEq

namespace Symbol

def ofTypedef (name : String) (ty : TypeId) : Symbol where
  name; ty; letter := some 't'; code := .localSymbol; value := .number 0; full := true

def ofTag (name : String) (ty : TypeId) : Symbol where
  name; ty; letter := some 'T'; code := .localSymbol; value := .number 0; full := true

/-- The type that a function declaration returns. -/
def returnType (types : TypeTable) (name : String) (ty : TypeId) : Except DescribeError TypeId :=
  match types.get? ty with
  | none => .error (.unknownType ty)
  | some node =>
    match node.kind with
    | .function returns => .ok (returns.getD .void)
    | _ => .error (.notAFunctionType name ty)

/-- A function has a symbol if it has code in this unit. -/
def ofFunction? (types : TypeTable) (name : String) (ty : TypeId) (info : FunctionInfo) :
    Except DescribeError (Option Symbol) :=
  if info.isExternal then .ok none
  else match info.address with
    | none => .ok none
    | some address => do
      let returns ← returnType types name ty
      return some
        { name
          letter := some (if info.isPublic then 'F' else 'f')
          code := .function
          value := .address address
          ty := returns }

/-- The segment that static storage is in; read-only data counts as text. -/
def staticCode (info : VariableInfo) : Code :=
  if !info.isInitialized then .staticBss
  else if info.isReadOnly && !info.isVolatile then .function
  else .staticData

/-- A register variable under the debugger's number. -/
def inRegister (target : Target) (name : String) (ty : TypeId) (regno : UInt32) : Symbol where
  name; ty; letter := some 'r'; code := .register
  value := .number (target.debuggerRegister regno).toNat

/-- A variable has a symbol if it has storage in this unit. -/
def ofVariable? (target : Target) (name : String) (ty : TypeId) (info : VariableInfo) :
    Option Symbol :=
  if info.isExternal then none
  else match info.location with
    | .eliminated => none
    | .static symbol =>
      if info.isPublic then
        some { name, ty, letter := some 'G', code := .global, value := .number 0 }
      else
        some
          { name, ty
            letter := some (if info.isPermanent then 'S' else 'v')
            code := staticCode info
            value := .address symbol }
    | .register regno => some (inRegister target name ty regno)
    | .frame offset =>
      some { name, ty, letter := none, code := .localSymbol, value := .number offset.toInt }

/-- The symbol of a declaration outside of a parameter list. A constant of an enumeration is part
of its type and has none. -/
def ofDeclaration? (types : TypeTable) (target : Target) (decl : Declaration) :
    Except DescribeError (Option Symbol) :=
  match decl.kind with
  | .enumConstant => .ok none
  | .function info => ofFunction? types decl.name decl.ty info
  | .typedef => .ok (some (ofTypedef decl.name decl.ty))
  | .parameter _ => .error (.parameterOutsideList decl.name)
  | .var info => .ok (ofVariable? target decl.name decl.ty info)

/-- The slot of a parameter; on a big-endian target a narrow argument stands at its far end. -/
def argumentOffset (target : Target) (info : ParameterInfo) : Int :=
  if target.bigEndian then info.argOffset.toInt + (info.passedSize.toNat - info.storedSize.toNat)
  else info.argOffset.toInt

def parameterInfo (param : Declaration) : Except DescribeError ParameterInfo :=
  match param.kind with
  | .parameter info => .ok info
  | other => .error (.notAParameter param.name other.describe)

/-- A parameter by its slot in the argument list. -/
def ofParameter (target : Target) (param : Declaration) : Except DescribeError Symbol := do
  let info ← parameterInfo param
  return {
    name := param.name
    letter := some 'p'
    code := .parameter
    value := .number (argumentOffset target info)
    ty := param.ty }

/-- A parameter a second time, by the register that the body keeps it in. -/
def ofRegisterParameter? (target : Target) (param : Declaration) :
    Except DescribeError (Option Symbol) := do
  let info ← parameterInfo param
  match info.location with
  | .register regno => return some (inRegister target param.name param.ty regno)
  | _ => return none

end Symbol

end Stabs
