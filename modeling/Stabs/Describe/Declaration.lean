import Stabs.Describe.Context

/-!
# Declarations, typedefs and tags

A symbol at file scope is preceded by every tag and typedef of the unit that is not out yet, so
that the types it uses are described before it. A typedef is written once for each typedef-named
entry of the type table, a tag once it is complete and not yet defined.
-/
namespace Stabs

namespace Context

/-- The typedef record of a type that a typedef names. -/
def emitTypedef (types : TypeTable) (ty : TypeId) : Emitting Unit :=
  match types.get? ty with
  | none => throw (.unknownType ty)
  | some node =>
    match node.typedefName? with
    | none => throw (.missingTypedefName ty)
    | some name => do
      markTypedefWritten ty
      describe types (.ofTypedef name ty)

/-- Writes the typedefs that are not out yet, in the order of the table. -/
def flushTypedefs (types : TypeTable) : Emitting Unit :=
  forM types.entries fun (ty, node) => do
    let c ← get
    if node.typedefName?.isSome && !c.typedefsWritten.contains ty then emitTypedef types ty
    else pure ()

def emitTag (types : TypeTable) (tag : Tag) : Emitting Unit :=
  match tag.name with
  | none => pure ()
  | some name =>
    match types.get? tag.ty with
    | none => throw (.unknownType tag.ty)
    | some node => do
      let c ← get
      if !node.isComplete || c.numbering.statusOf tag.ty = .defined then pure ()
      else do
        describe types (.ofTag name tag.ty)
        modify fun c =>
          { c with numbering :=
              (c.numbering.allocate tag.ty).2.setStatus (c.numbering.allocate tag.ty).1 .defined }

/-- Describes each named and complete tag whose type is not defined yet, also one that is
cross-referenced. -/
def emitTags (types : TypeTable) (tags : List Tag) : Emitting Unit :=
  forM tags (emitTag types)

/-- The symbol of a declaration, at file scope after all tags and typedefs. -/
def emitSymbol (u : CompilationUnit) (target : Target) (decl : Declaration) (isLocal : Bool) :
    Emitting Unit := do
  if isLocal then pure ()
  else do
    emitTags u.types u.tags
    flushTypedefs u.types
  let symbol ← orFail (Symbol.ofDeclaration? u.types target decl)
  describe? u.types symbol

def emitParameters (types : TypeTable) (target : Target) (params : List Declaration) :
    Emitting Unit :=
  forM params fun param => do
    let symbol ← orFail (Symbol.ofParameter target param)
    describe types symbol

/-- Describes a second time the parameters that the body keeps in registers. -/
def emitRegisterParameters (types : TypeTable) (target : Target) (params : List Declaration) :
    Emitting Unit :=
  forM params fun param => do
    let symbol ← orFail (Symbol.ofRegisterParameter? target param)
    describe? types symbol

end Context

end Stabs
