import Stabs.Interchange.Types
import Stabs.Program.Unit

/-!
# The JSON form of declarations and statements

Each is an object that names its variant under `decl`, `in`, `stmt` or `item`. A declaration that
is an item carries its own members beside the name of the variant.
-/
namespace Stabs

open Json

def Location.names : List String := ["static", "frame", "register", "eliminated"]

def Location.toJson : Location → Json
  | .static symbol => .object [("in", .string "static"), ("symbol", .string symbol)]
  | .frame offset => .object [("in", .string "frame"), ("offset", .int offset.toInt)]
  | .register regno => .object [("in", .string "register"), ("regno", .nat regno.toNat)]
  | .eliminated => .object [("in", .string "eliminated")]

/-- The single field of a variant, by its key or as the only element. -/
def field? {α : Type} (key : String) (read : Json → Option α) : Json → Option α
  | .object members => required members key read
  | .array [v] => read v
  | _ => none

def Location.ofJson? (v : Json) : Option Location := do
  let (name, content) ← variant? names "in" v
  match name with
  | "static" => return .static (← field? "symbol" asText? content)
  | "frame" => return .frame (← field? "offset" asInt64? content)
  | "register" => return .register (← field? "regno" asUInt32? content)
  | "eliminated" =>
    match content with
    | .array (_ :: _) => none
    | _ => return .eliminated
  | _ => none

def DeclarationKind.names : List String :=
  ["enum_constant", "function", "typedef", "parameter", "variable"]

/-- The variant of a declaration and its fields, as members of the object of the declaration. -/
def DeclarationKind.toMembers : DeclarationKind → List (String × Json)
  | .enumConstant => [("decl", .string "enum_constant")]
  | .function info => [
      ("decl", .string "function"),
      ("public", .bool info.isPublic),
      ("external", .bool info.isExternal),
      ("address", .nullable .string info.address)]
  | .typedef => [("decl", .string "typedef")]
  | .parameter info => [
      ("decl", .string "parameter"),
      ("arg_offset", .int info.argOffset.toInt),
      ("location", info.location.toJson),
      ("passed_size", .nat info.passedSize.toNat),
      ("stored_size", .nat info.storedSize.toNat)]
  | .var info => [
      ("decl", .string "variable"),
      ("public", .bool info.isPublic),
      ("external", .bool info.isExternal),
      ("permanent", .bool info.isPermanent),
      ("initialized", .bool info.isInitialized),
      ("read_only", .bool info.isReadOnly),
      ("volatile", .bool info.isVolatile),
      ("location", info.location.toJson)]

def FunctionInfo.ofMembers? (members : List (String × Json)) : Option FunctionInfo := do
  let isPublic ← required members "public" asBool?
  let isExternal ← withDefault members "external" false asBool?
  let address ← nullableMember members "address" asText?
  return { isPublic, isExternal, address }

def ParameterInfo.ofMembers? (members : List (String × Json)) : Option ParameterInfo := do
  let argOffset ← required members "arg_offset" asInt64?
  let location ← required members "location" Location.ofJson?
  let passedSize ← required members "passed_size" asUInt32?
  let storedSize ← required members "stored_size" asUInt32?
  return { argOffset, location, passedSize, storedSize }

def VariableInfo.ofMembers? (members : List (String × Json)) : Option VariableInfo := do
  let isPublic ← required members "public" asBool?
  let isExternal ← withDefault members "external" false asBool?
  let isPermanent ← withDefault members "permanent" true asBool?
  let isInitialized ← withDefault members "initialized" false asBool?
  let isReadOnly ← withDefault members "read_only" false asBool?
  let isVolatile ← withDefault members "volatile" false asBool?
  let location ← required members "location" Location.ofJson?
  return { isPublic, isExternal, isPermanent, isInitialized, isReadOnly, isVolatile, location }

def DeclarationKind.ofMembers? (members : List (String × Json)) :
    Option DeclarationKind := do
  let name ← required members "decl" (asVariant? names)
  match name with
  | "enum_constant" => return .enumConstant
  | "function" => return .function (← FunctionInfo.ofMembers? members)
  | "typedef" => return .typedef
  | "parameter" => return .parameter (← ParameterInfo.ofMembers? members)
  | "variable" => return .var (← VariableInfo.ofMembers? members)
  | _ => none

def Declaration.toMembers (decl : Declaration) : List (String × Json) :=
  ("name", .string decl.name) :: ("ty", decl.ty.toJson) :: decl.kind.toMembers

def Declaration.toJson (decl : Declaration) : Json := .object decl.toMembers

def Declaration.ofJson? : Json → Option Declaration
  | .object members => do
    let name ← required members "name" asText?
    let ty ← required members "ty" TypeId.ofJson?
    let kind ← DeclarationKind.ofMembers? members
    return { name, ty, kind }
  | _ => none

/-- The members of a declaration that have been met so far; those of the variant come in
reverse. -/
structure Declaration.Draft where
  name : Option String := none
  ty : Option TypeId := none
  variant : List (String × Json) := []

def Declaration.Draft.add (depth : Nat) (draft : Draft) (key : String) (r : Reading) :
    Except UnitError Draft :=
  match key with
  | "name" => do
    let name ← InOrder.fill draft.name (InOrder.scalar asText?) depth r
    return { draft with name }
  | "ty" => do
    let ty ← InOrder.fill draft.ty (InOrder.scalar TypeId.ofJson?) depth r
    return { draft with ty }
  | key => do
    let v ← InOrder.content depth r
    return { draft with variant := (key, v) :: draft.variant }

def Declaration.Draft.finish (draft : Draft) : Except UnitError Declaration := do
  let name ← InOrder.orShape draft.name
  let ty ← InOrder.orShape draft.ty
  let kind ← InOrder.orShape (DeclarationKind.ofMembers? draft.variant.reverse)
  return { name, ty, kind }

def Declaration.inOrder : InOrder Declaration := InOrder.object ⟨{}, Draft.add, Draft.finish⟩

/-- Reads a declaration from its text. -/
def Declaration.parse (text : String) : Except UnitError Declaration :=
  InOrder.parse inOrder text

def Tag.toJson (tag : Tag) : Json :=
  .object [("name", .nullable .string tag.name), ("ty", tag.ty.toJson)]

def Tag.ofJson? : Json → Option Tag
  | .object members => do
    let name ← nullableMember members "name" asText?
    let ty ← required members "ty" TypeId.ofJson?
    return { name, ty }
  | .array [name, ty] => do
    let name ← asNullable? asText? name
    let ty ← TypeId.ofJson? ty
    return { name, ty }
  | _ => none

/-- The members of a tag that have been met so far. -/
structure Tag.Draft where
  name : Option (Option String) := none
  ty : Option TypeId := none

def Tag.Draft.add (depth : Nat) (draft : Draft) (key : String) (r : Reading) :
    Except UnitError Draft :=
  match key with
  | "name" => do
    let name ← InOrder.fill draft.name (InOrder.nullable (InOrder.scalar asText?)) depth r
    return { draft with name }
  | "ty" => do
    let ty ← InOrder.fill draft.ty (InOrder.scalar TypeId.ofJson?) depth r
    return { draft with ty }
  | _ => do
    InOrder.ignored depth r
    return draft

def Tag.Draft.finish (draft : Draft) : Except UnitError Tag := do
  return { name := draft.name.join, ty := ← InOrder.orShape draft.ty }

def Tag.inOrder : InOrder Tag :=
  InOrder.record ["name", "ty"] ⟨{}, Draft.add, Draft.finish⟩

namespace Statement

def names : List String := ["compound", "loop", "if", "scope"]

mutual

def toJson : Statement → Json
  | .compound body => .object [("stmt", .string "compound"), ("body", .array (toJsons body))]
  | .loop body => .object [("stmt", .string "loop"), ("body", .array (toJsons body))]
  | .branch thenPart otherwise => .object [
      ("stmt", .string "if"),
      ("then", .array (toJsons thenPart)),
      ("otherwise", .array (toJsons otherwise))]
  | .scope tags vars body => .object [
      ("stmt", .string "scope"),
      ("tags", .array (tags.map Tag.toJson)),
      ("vars", .array (vars.map Declaration.toJson)),
      ("body", .array (toJsons body))]

def toJsons : List Statement → List Json
  | [] => []
  | statement :: rest => statement.toJson :: toJsons rest

end

/-- A statement from its variant, its members and, for each member, the statements it holds. -/
def ofMembers? (members : List (String × Json))
    (bodies : List (String × Option (List Statement))) : Option Statement := do
  let name ← required members "stmt" (asVariant? names)
  match name with
  | "compound" => return .compound (← required bodies "body" id)
  | "loop" => return .loop (← required bodies "body" id)
  | "if" => do
    let thenPart ← required bodies "then" id
    let otherwise ← withDefault bodies "otherwise" [] id
    return .branch thenPart otherwise
  | "scope" => do
    let tags ← withDefault members "tags" [] (asList? Tag.ofJson?)
    let vars ← withDefault members "vars" [] (asList? Declaration.ofJson?)
    let body ← withDefault bodies "body" [] id
    return .scope tags vars body
  | _ => none

/-- A statement from its variant, the elements behind it and, for each element, the statements it
holds. Elements with a default may be missing at the end. -/
def ofElements? (variant : Json) (elements : List Json)
    (bodies : List (Option (List Statement))) : Option Statement := do
  let name ← asVariant? names variant
  match name, elements, bodies with
  | "compound", [_], [body] => return .compound (← body)
  | "loop", [_], [body] => return .loop (← body)
  | "if", [_], [thenPart] => return .branch (← thenPart) []
  | "if", [_, _], [thenPart, otherwise] => return .branch (← thenPart) (← otherwise)
  | "scope", [], [] => return .scope [] [] []
  | "scope", [tags], [_] => return .scope (← asList? Tag.ofJson? tags) [] []
  | "scope", [tags, vars], [_, _] => do
    let tags ← asList? Tag.ofJson? tags
    let vars ← asList? Declaration.ofJson? vars
    return .scope tags vars []
  | "scope", [tags, vars, _], [_, _, body] => do
    let tags ← asList? Tag.ofJson? tags
    let vars ← asList? Declaration.ofJson? vars
    return .scope tags vars (← body)
  | _, _, _ => none

mutual

def ofJson? : Json → Option Statement
  | .object members => ofMembers? members (memberBodies members)
  | .array (variant :: rest) => ofElements? variant rest (elementBodies rest)
  | _ => none

def listOfJson? : Json → Option (List Statement)
  | .array vs => ofJsons? vs
  | _ => none

def ofJsons? : List Json → Option (List Statement)
  | [] => some []
  | v :: rest => do
    let statement ← ofJson? v
    let statements ← ofJsons? rest
    return statement :: statements

/-- Every member as a list of statements, where it is one. -/
def memberBodies : List (String × Json) → List (String × Option (List Statement))
  | [] => []
  | (key, v) :: rest => (key, listOfJson? v) :: memberBodies rest

def elementBodies : List Json → List (Option (List Statement))
  | [] => []
  | v :: rest => listOfJson? v :: elementBodies rest

end

end Statement

def FunctionDefinition.toMembers (definition : FunctionDefinition) : List (String × Json) := [
  ("decl", definition.decl.toJson),
  ("params", .array (definition.params.map Declaration.toJson)),
  ("body", .array (Statement.toJsons definition.body))]

/-- A function from the content of its item. -/
def FunctionDefinition.ofJson? : Json → Option FunctionDefinition
  | .object members => do
    let decl ← required members "decl" Declaration.ofJson?
    let params ← withDefault members "params" [] (asList? Declaration.ofJson?)
    let body ← withDefault members "body" [] Statement.listOfJson?
    return { decl, params, body }
  | .array (decl :: rest) => do
    let decl ← Declaration.ofJson? decl
    match rest with
    | [] => return { decl }
    | [params] => return { decl, params := ← asList? Declaration.ofJson? params }
    | [params, body] => do
      let params ← asList? Declaration.ofJson? params
      let body ← Statement.listOfJson? body
      return { decl, params, body }
    | _ => none
  | _ => none

namespace Item

def toJson : Item → Json
  | .symbol decl => .object (("item", .string "symbol") :: decl.toMembers)
  | .function definition => .object (("item", .string "function") :: definition.toMembers)

def ofContent? (name : String) (content : Json) : Option Item :=
  match name with
  | "symbol" => (Declaration.ofJson? content).map .symbol
  | "function" => (FunctionDefinition.ofJson? content).map .function
  | _ => none

/-- The variant of an item goes by its name alone. -/
def asVariantName? (v : Json) : Option String := do
  let name ← v.asText?
  if name = "symbol" ∨ name = "function" then return name else none

/-- The members of an item that have been met so far; those of the content come in reverse. -/
structure Draft where
  variant : Option String := none
  content : List (String × Json) := []

def Draft.add (depth : Nat) (draft : Draft) (key : String) (r : Reading) :
    Except UnitError Draft :=
  match key with
  | "item" => do
    let variant ← InOrder.fill draft.variant (InOrder.scalar asVariantName?) depth r
    return { draft with variant }
  | key => do
    let v ← InOrder.content depth r
    return { draft with content := (key, v) :: draft.content }

def Draft.finish (draft : Draft) : Except UnitError Item := do
  let name ← InOrder.orShape draft.variant
  InOrder.orShape (ofContent? name (.object draft.content.reverse))

def inOrder : InOrder Item
  | depth, .array (variant :: rest) closing => do
    let name ← InOrder.scalar asVariantName? (depth - 1) variant
    let content ← rest.mapM (InOrder.content (depth - 1))
    InOrder.orText closing
    InOrder.orShape (ofContent? name (.array content))
  | depth, r => InOrder.object ⟨{}, Draft.add, Draft.finish⟩ depth r

end Item

end Stabs
