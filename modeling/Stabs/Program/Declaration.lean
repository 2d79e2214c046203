import Stabs.Types.Node

/-!
# Declarations

A declaration binds a name to a function, a typedef, a variable, a parameter or a constant of an
enumeration. Variables and parameters say where their value lives.
-/
namespace Stabs

/-- Where a value lives at run time: at an assembler symbol, at an offset from the frame pointer,
in a hard register, or nowhere. -/
inductive Location where
  | static (symbol : String)
  | frame (offset : Int64)
  | register (regno : UInt32)
  | eliminated
deriving DecidableEq, Repr

/-- A function that is external is defined in some other unit; one without an address has no
code. -/
structure FunctionInfo where
  isPublic : Bool
  isExternal : Bool := false
  address : Option String
deriving DecidableEq, Repr

/-- A parameter with its slot in the argument block, its place in the body, the bytes that the
caller passes and the bytes of its own type. -/
structure ParameterInfo where
  argOffset : Int64
  location : Location
  passedSize : UInt32
  storedSize : UInt32
deriving DecidableEq, Repr

/-- A permanent variable lives for the whole program and not only inside its block. -/
structure VariableInfo where
  isPublic : Bool
  isExternal : Bool := false
  isPermanent : Bool := true
  isInitialized : Bool := false
  isReadOnly : Bool := false
  isVolatile : Bool := false
  location : Location
deriving DecidableEq, Repr

inductive DeclarationKind where
  | enumConstant
  | function (info : FunctionInfo)
  | typedef
  | parameter (info : ParameterInfo)
  | var (info : VariableInfo)
deriving DecidableEq, Repr

def DeclarationKind.describe : DeclarationKind → String
  | enumConstant => "enum constant"
  | function _ => "function"
  | typedef => "typedef"
  | parameter _ => "parameter"
  | var _ => "variable"

/-- A named binding. The type of a function is its function type, that of a typedef the type it
stands for. -/
structure Declaration where
  name : String
  ty : TypeId
  kind : DeclarationKind
deriving DecidableEq, Repr

/-- A variable of a block: not public, not permanent, without an initial value. -/
def VariableInfo.ofLocal (location : Location) : VariableInfo where
  isPublic := false
  isPermanent := false
  location := location

/-- A variable that starts with a given value. -/
def VariableInfo.withInitializer (info : VariableInfo) (readOnly : Bool) : VariableInfo :=
  { info with isInitialized := true, isReadOnly := readOnly }

namespace Declaration

/-- A function of this unit with code at an assembler symbol. -/
def ofFunction (name : String) (ty : TypeId) (isPublic : Bool) (address : String) : Declaration :=
  ⟨name, ty, .function { isPublic, address := some address }⟩

def ofTypedef (name : String) (ty : TypeId) : Declaration := ⟨name, ty, .typedef⟩

def ofEnumConstant (name : String) (ty : TypeId) : Declaration := ⟨name, ty, .enumConstant⟩

def ofVariable (name : String) (ty : TypeId) (info : VariableInfo) : Declaration :=
  ⟨name, ty, .var info⟩

/-- A variable at file scope. -/
def ofGlobal (name : String) (ty : TypeId) (isPublic : Bool) (symbol : String) : Declaration :=
  ofVariable name ty { isPublic, location := .static symbol }

/-- A block variable on the stack. -/
def ofAutomatic (name : String) (ty : TypeId) (offset : Int64) : Declaration :=
  ofVariable name ty (.ofLocal (.frame offset))

/-- A block variable in a hard register. -/
def ofRegister (name : String) (ty : TypeId) (regno : UInt32) : Declaration :=
  ofVariable name ty (.ofLocal (.register regno))

/-- A parameter of four bytes. -/
def ofParameter (name : String) (ty : TypeId) (argOffset : Int64) (location : Location) :
    Declaration :=
  ⟨name, ty, .parameter { argOffset, location, passedSize := 4, storedSize := 4 }⟩

end Declaration

end Stabs
