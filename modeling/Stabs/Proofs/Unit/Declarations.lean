import Stabs.Proofs.Unit.Order
import Stabs.Proofs.Unit.References
import Stabs.Proofs.Unit.Requests
import Stabs.Samples

/-!
# Every declaration is described once

A walk through the items of a unit meets its declarations. Behind the typedefs of the prelude the
output holds, apart from tags and markers, one description for each of them that has a symbol, in
the order of the walk and with letter, code and value by the kind of the declaration.
-/
namespace Stabs

open TypeDescription

/-- A complete description, its segments joined. -/
structure Description where
  segment : Segment
  code : Code
  value : Placement
deriving DecidableEq

/-- The descriptions among records. A segment that is continued is joined to the next one. -/
def descriptions : List Record → List Description
  | [] => []
  | .symbol segment code value false :: rest => ⟨segment, code, value⟩ :: descriptions rest
  | .symbol segment code value true :: rest =>
    match descriptions rest with
    | [] => [⟨segment, code, value⟩]
    | next :: others => ⟨segment ++ next.segment, code, value⟩ :: others
  | .sourceFile _ _ :: rest => descriptions rest
  | .marker _ _ :: rest => descriptions rest

/-- What a description says of a declaration, with the number of its type. -/
structure Row where
  name : String
  letter : Option Char
  code : Code
  value : Placement
  number : Option TypeNumber
deriving DecidableEq

namespace Description

/-- The row of a description: its heading and the number that the type starts with. -/
def row? (d : Description) : Option Row :=
  match d.segment with
  | .heading name letter :: .number n :: _ => some ⟨name, letter, d.code, d.value, some n⟩
  | _ => none

def isTag (d : Description) : Bool :=
  match d.segment with
  | .heading _ letter :: _ => letter = some 'T'
  | _ => false

end Description

/-- A declaration as a walk meets it: in its own place, in the argument list of its function, or a
second time as the register that holds an argument. -/
inductive Mention where
  | declared (decl : Declaration)
  | argument (param : Declaration)
  | inRegister (param : Declaration)

namespace Statement

mutual

/-- The declarations in a statement. The parameters are met again in the scopes that are top-level
statements of their function. -/
def mentions (params : List Declaration) : Statement → List Mention
  | compound body => allMentions [] body
  | loop body => allMentions [] body
  | branch thenPart otherwise => allMentions [] thenPart ++ allMentions [] otherwise
  | scope _ vars body => vars.map .declared ++ params.map .inRegister ++ allMentions [] body

def allMentions (params : List Declaration) : List Statement → List Mention
  | [] => []
  | statement :: rest => mentions params statement ++ allMentions params rest

end

end Statement

def Item.mentions : Item → List Mention
  | symbol decl => [.declared decl]
  | function definition => .declared definition.decl :: (definition.params.map .argument ++
      Statement.allMentions definition.params definition.body)

/-- The code of static storage: bss, data, or text for what is read only. -/
def VariableInfo.storage : VariableInfo → Code
  | { isInitialized := false, .. } => .staticBss
  | { isInitialized := true, isReadOnly := true, isVolatile := false, .. } => .function
  | { isInitialized := true, .. } => .staticData

/-- Letter, code and value by the kind of a declaration. Constants of an enumeration, what is
external, functions without an address and eliminated variables have none. -/
def DeclarationKind.place? (target : Target) :
    DeclarationKind → Option (Option Char × Code × Placement)
  | .enumConstant => none
  | .parameter _ => none
  | .typedef => some (some 't', .localSymbol, .number 0)
  | .function { isExternal := true, .. } => none
  | .function { address := none, .. } => none
  | .function { isPublic := true, address := some label, .. } =>
    some (some 'F', .function, .address label)
  | .function { isPublic := false, address := some label, .. } =>
    some (some 'f', .function, .address label)
  | .var { isExternal := true, .. } => none
  | .var { location := .eliminated, .. } => none
  | .var { isPublic := true, location := .static _, .. } => some (some 'G', .global, .number 0)
  | .var info@{ isPublic := false, isPermanent := true, location := .static label, .. } =>
    some (some 'S', info.storage, .address label)
  | .var info@{ isPublic := false, isPermanent := false, location := .static label, .. } =>
    some (some 'v', info.storage, .address label)
  | .var { location := .register regno, .. } =>
    some (some 'r', .register, .number (target.debuggerRegister regno).toNat)
  | .var { location := .frame offset, .. } => some (none, .localSymbol, .number offset.toInt)

/-- The type that a declaration is described with: what a function returns, or its own. -/
def Declaration.shownType (types : TypeTable) (decl : Declaration) : TypeId :=
  match decl.kind, types.get? decl.ty with
  | .function _, some { kind := .function returns, .. } => returns.getD .void
  | _, _ => decl.ty

/-- The offset of an argument. On a big-endian target a narrow one stands at the far end of its
slot. -/
def ParameterInfo.offset (target : Target) (info : ParameterInfo) : Int :=
  match target.bigEndian with
  | true => info.argOffset.toInt + (info.passedSize.toNat - info.storedSize.toNat)
  | false => info.argOffset.toInt

/-- The row that the description of a declaration has to have, if the declaration has one. -/
def Mention.row? (types : TypeTable) (target : Target) (N : Numbering) : Mention → Option Row
  | declared decl => (decl.kind.place? target).map fun (letter, code, value) =>
    ⟨decl.name, letter, code, value, N.number? (decl.shownType types)⟩
  | argument param =>
    match param.kind with
    | .parameter info => some
      ⟨param.name, some 'p', .parameter, .number (info.offset target), N.number? param.ty⟩
    | _ => none
  | inRegister param =>
    match param.kind with
    | .parameter { location := .register regno, .. } => some
      ⟨param.name, some 'r', .register, .number (target.debuggerRegister regno).toNat,
        N.number? param.ty⟩
    | _ => none

/-- The rows that the walk through a unit asks for. -/
def CompilationUnit.rows (u : CompilationUnit) (target : Target) (N : Numbering) : List Row :=
  (u.items.flatMap Item.mentions).filterMap (Mention.row? u.types target N)

def Symbol.row (N : Numbering) (symbol : Symbol) : Row :=
  ⟨symbol.name, symbol.letter, symbol.code, symbol.value, N.number? symbol.ty⟩

/-- The rows of what entries describe, without tags. -/
def rowsOf (N : Numbering) (entries : List Entry) : List Row :=
  ((entries.filterMap Entry.symbol?).filter (·.letter ≠ some 'T')).map (Symbol.row N)

theorem symbols_description (symbol : Symbol) (marks : List Mark) (entries : List Entry) :
    (Entry.description symbol marks :: entries).filterMap Entry.symbol? =
      symbol :: entries.filterMap Entry.symbol? := rfl

theorem rowsOf_append (N : Numbering) (a b : List Entry) :
    rowsOf N (a ++ b) = rowsOf N a ++ rowsOf N b := by
  rw [rowsOf, List.filterMap_append, List.filter_append, List.map_append, rowsOf, rowsOf]

theorem rowsOf_nil (N : Numbering) : rowsOf N [] = [] := rfl

theorem rowsOf_record (N : Numbering) (record : Record) (entries : List Entry) :
    rowsOf N (.record record :: entries) = rowsOf N entries := rfl

theorem rowsOf_description (N : Numbering) {symbol : Symbol} (other : symbol.letter ≠ some 'T')
    (marks : List Mark) (entries : List Entry) :
    rowsOf N (.description symbol marks :: entries) = symbol.row N :: rowsOf N entries := by
  rw [rowsOf, symbols_description, List.filter_cons_of_pos (by simpa using other), List.map_cons,
    rowsOf]

/-- A choice of a symbol gives this row, if any. No tag is chosen. -/
def Shows (N : Numbering) (choice : Except DescribeError (Option Symbol)) (row : Option Row) :
    Prop :=
  ∀ chosen, choice = .ok chosen →
    chosen.map (Symbol.row N) = row ∧ ∀ symbol ∈ chosen, symbol.letter ≠ some 'T'

theorem shows_error (N : Numbering) (cause : DescribeError) (row : Option Row) :
    Shows N (.error cause) row := by
  rintro chosen ⟨⟩

theorem shows_none (N : Numbering) : Shows N (.ok none) none := by
  rintro chosen ⟨⟩
  exact ⟨rfl, fun _ mem => by cases mem⟩

theorem shows_some {N : Numbering} {symbol : Symbol} (other : symbol.letter ≠ some 'T') :
    Shows N (.ok (some symbol)) (some (symbol.row N)) := by
  rintro chosen ⟨⟩
  refine ⟨rfl, ?_⟩
  rintro same ⟨⟩
  exact other

namespace Symbol

variable {types : TypeTable} {target : Target} {N : Numbering}

theorem storage_eq (info : VariableInfo) : info.storage = staticCode info := by
  obtain ⟨isPublic, isExternal, isPermanent, isInitialized, isReadOnly, isVolatile, location⟩ := info
  cases isInitialized <;> cases isReadOnly <;> cases isVolatile <;> rfl

theorem shows_ofVariable? (name : String) (ty : TypeId) (info : VariableInfo) :
    Shows N (.ok (ofVariable? target name ty info))
      (Mention.row? types target N (.declared ⟨name, ty, .var info⟩)) := by
  have storage := storage_eq info
  obtain ⟨isPublic, isExternal, isPermanent, isInitialized, isReadOnly, isVolatile, location⟩ := info
  cases isExternal with
  | true => exact shows_none N
  | false =>
    cases location with
    | eliminated => exact shows_none N
    | static label =>
      cases isPublic with
      | true =>
        simp only [Mention.row?, DeclarationKind.place?, Option.map_some]
        exact shows_some (by decide : some 'G' ≠ some 'T')
      | false =>
        cases isPermanent with
        | true =>
          simp only [Mention.row?, DeclarationKind.place?, Option.map_some, storage]
          exact shows_some (by decide : some 'S' ≠ some 'T')
        | false =>
          simp only [Mention.row?, DeclarationKind.place?, Option.map_some, storage]
          exact shows_some (by decide : some 'v' ≠ some 'T')
    | register regno =>
      simp only [Mention.row?, DeclarationKind.place?, Option.map_some]
      exact shows_some (by decide : some 'r' ≠ some 'T')
    | frame offset =>
      simp only [Mention.row?, DeclarationKind.place?, Option.map_some]
      exact shows_some (by decide : none ≠ some 'T')

theorem shows_ofFunction? (name : String) (ty : TypeId) (info : FunctionInfo) :
    Shows N (ofFunction? types name ty info)
      (Mention.row? types target N (.declared ⟨name, ty, .function info⟩)) := by
  obtain ⟨isPublic, isExternal, address⟩ := info
  cases isExternal with
  | true => exact shows_none N
  | false =>
    cases address with
    | none => exact shows_none N
    | some label =>
      change Shows N (returnType types name ty >>= _) _
      cases returned : returnType types name ty with
      | error cause => exact shows_error N cause _
      | ok returns =>
        obtain ⟨⟨_, named, size⟩, result, known, ⟨⟩, rfl⟩ := returnType_eq_ok.1 returned
        cases isPublic with
        | true =>
          simp only [Mention.row?, DeclarationKind.place?, Option.map_some, Declaration.shownType,
            known]
          exact shows_some (by decide : some 'F' ≠ some 'T')
        | false =>
          simp only [Mention.row?, DeclarationKind.place?, Option.map_some, Declaration.shownType,
            known]
          exact shows_some (by decide : some 'f' ≠ some 'T')

theorem shows_ofDeclaration? (decl : Declaration) :
    Shows N (ofDeclaration? types target decl) (Mention.row? types target N (.declared decl)) := by
  obtain ⟨name, ty, kind⟩ := decl
  cases kind with
  | enumConstant => exact shows_none N
  | function info => exact shows_ofFunction? name ty info
  | typedef => exact shows_some (by decide : some 't' ≠ some 'T')
  | parameter info => exact shows_error N _ _
  | var info => exact shows_ofVariable? name ty info

theorem offset_eq (target : Target) (info : ParameterInfo) :
    info.offset target = argumentOffset target info := by
  unfold argumentOffset ParameterInfo.offset
  cases target.bigEndian <;> rfl

theorem shows_ofParameter (param : Declaration) :
    Shows N ((ofParameter target param).map some)
      (Mention.row? types target N (.argument param)) := by
  obtain ⟨name, ty, kind⟩ := param
  cases kind with
  | parameter info =>
    simp only [Mention.row?, offset_eq]
    exact shows_some (by decide : some 'p' ≠ some 'T')
  | _ => exact shows_error N _ _

theorem shows_ofRegisterParameter? (param : Declaration) :
    Shows N (ofRegisterParameter? target param)
      (Mention.row? types target N (.inRegister param)) := by
  obtain ⟨name, ty, kind⟩ := param
  cases kind with
  | parameter info =>
    obtain ⟨argOffset, location, passedSize, storedSize⟩ := info
    cases location with
    | register regno => exact shows_some (by decide : some 'r' ≠ some 'T')
    | _ => exact shows_none N
  | _ => exact shows_error N _ _

end Symbol

variable {u : CompilationUnit} {target : Target} {types : TypeTable} {N : Numbering}
  {entries : List Entry} {next next' : Nat}

/-- Tags are all that tags write. -/
theorem WritesTags.rowsOf {tags : List Tag} (h : WritesTags tags entries) :
    Stabs.rowsOf N entries = [] := by
  induction h with
  | nil => rfl
  | skip _ _ ih => exact ih
  | written marks named _ ih => exact ih

theorem WritesChosen.rowsOf {choice : Declaration → Except DescribeError (Option Symbol)}
    {row : Declaration → Option Row} {decls : List Declaration}
    (h : WritesChosen choice decls entries) (shows : ∀ decl, Shows N (choice decl) (row decl)) :
    Stabs.rowsOf N entries = decls.filterMap row := by
  induction h with
  | nil => rfl
  | @skip decl _ _ chosen _ ih =>
    have same : row decl = none := (shows decl none chosen).1.symm
    rw [List.filterMap_cons_none same, ih]
  | @written decl symbol _ _ marks chosen _ ih =>
    obtain ⟨same, other⟩ := shows decl (some symbol) chosen
    rw [List.filterMap_cons_some same.symm, rowsOf_description N (other symbol rfl), ih]

/-- The rows of the declarations in a scope. -/
theorem WritesScope.rowsOf {tags : List Tag} {vars params : List Declaration}
    (h : WritesScope u target tags vars params entries) :
    Stabs.rowsOf N entries = (vars.map Mention.declared ++
      params.map Mention.inRegister).filterMap (Mention.row? u.types target N) := by
  obtain ⟨first, second, third⟩ := h
  rw [rowsOf_append, rowsOf_append, first.rowsOf, second.rowsOf Symbol.shows_ofDeclaration?,
    third.rowsOf Symbol.shows_ofRegisterParameter?, List.filterMap_append, List.filterMap_map,
    List.filterMap_map]
  rfl

theorem WritesSymbol.rowsOf {decl : Declaration} (h : WritesSymbol u target decl entries) :
    Stabs.rowsOf N entries = [Mention.declared decl].filterMap (Mention.row? u.types target N) := by
  obtain ⟨first, second⟩ := h
  rw [rowsOf_append, first.rowsOf, second.rowsOf Symbol.shows_ofDeclaration?]
  rfl

mutual

/-- A statement writes one row for each declaration in it that has one. -/
theorem WritesStatement.rowsOf {statement : Statement} {enclosed : Bool}
    {params : List Declaration} {entries : List Entry} {next next' : Nat}
    (h : WritesStatement u target enclosed params next statement entries next') :
    Stabs.rowsOf N entries =
      (statement.mentions params).filterMap (Mention.row? u.types target N) := by
  cases h with
  | compound inner =>
    rw [Statement.mentions]
    exact inner.rowsOf
  | loop inner =>
    rw [Statement.mentions]
    exact inner.rowsOf
  | branch before behind =>
    rw [Statement.mentions, rowsOf_append, before.rowsOf, behind.rowsOf, List.filterMap_append]
  | outermost scope inner =>
    rw [Statement.mentions, rowsOf_append, scope.rowsOf, inner.rowsOf]
    simp only [List.filterMap_append]
  | block scope inner =>
    rw [Statement.mentions, rowsOf_append, scope.rowsOf, rowsOf_record, rowsOf_append, inner.rowsOf,
      rowsOf_record, rowsOf_nil, List.append_nil]
    simp only [List.filterMap_append]

theorem WritesStatements.rowsOf {statements : List Statement} {enclosed : Bool}
    {params : List Declaration} {entries : List Entry} {next next' : Nat}
    (h : WritesStatements u target enclosed params next statements entries next') :
    Stabs.rowsOf N entries =
      (Statement.allMentions params statements).filterMap (Mention.row? u.types target N) := by
  cases h with
  | nil => rfl
  | cons head tail =>
    rw [Statement.allMentions, rowsOf_append, head.rowsOf, tail.rowsOf, List.filterMap_append]

end

theorem WritesItem.rowsOf {item : Item} (h : WritesItem u target next item entries next') :
    Stabs.rowsOf N entries = item.mentions.filterMap (Mention.row? u.types target N) := by
  cases h with
  | symbol symbol => exact symbol.rowsOf
  | @function definition _ _ _ _ _ symbol params body =>
    have walk : (Item.function definition).mentions = [.declared definition.decl] ++
        definition.params.map .argument ++
          Statement.allMentions definition.params definition.body :=
      (List.append_assoc [Mention.declared definition.decl] _ _).symm
    rw [walk, rowsOf_append, rowsOf_append, symbol.rowsOf, body.rowsOf,
      params.rowsOf Symbol.shows_ofParameter]
    simp only [List.filterMap_append, List.filterMap_map]
    rfl

theorem WritesItems.rowsOf {items : List Item}
    (h : WritesItems u target next items entries next') :
    Stabs.rowsOf N entries =
      (items.flatMap Item.mentions).filterMap (Mention.row? u.types target N) := by
  induction h with
  | nil => rfl
  | cons head _ ih =>
    rw [List.flatMap_cons, rowsOf_append, head.rowsOf, ih, List.filterMap_append]

/-- The segments of a description are joined to its whole text. -/
theorem descriptions_segments (code : Code) (value : Placement) (segment : Segment)
    (marks : List Mark) (rest : List Record) :
    descriptions (segments code value segment marks ++ rest) =
      ⟨segment ++ TypeDescription.tokens marks, code, value⟩ :: descriptions rest := by
  induction marks generalizing segment with
  | nil => simp [segments, descriptions, TypeDescription.tokens]
  | cons m marks ih =>
    cases m with
    | token token =>
      rw [segments, ih, List.append_assoc]
      rfl
    | safePoint =>
      rw [segments]
      split
      · rw [List.cons_append, descriptions, ih]
        rfl
      · exact ih segment

/-- A description starts with the number of its type; what is no description has no segments. -/
def Entry.Fits (N : Numbering) : Entry → Prop
  | record r => r.text? = none
  | description symbol marks =>
    ∃ n more, marks = .token (.number n) :: more ∧ N.number? symbol.ty = some n

theorem Entry.Fits.grows {N M : Numbering} {entry : Entry} (h : entry.Fits N) (grows : N.Grows M) :
    entry.Fits M := by
  cases entry with
  | record record => exact h
  | description symbol marks =>
    obtain ⟨n, more, e, number⟩ := h
    exact ⟨n, more, e, grows.number? number⟩

/-- The first thing that a reference writes is the number of its type. -/
theorem TypeDescription.Steps.starts {ty : TypeId} {full : Bool} {marks : List Mark}
    {N M : Numbering} (h : Steps types N [.reference ty full] marks M []) :
    ∃ n more, marks = .token (.number n) :: more ∧ M.number? ty = some n := by
  cases h with
  | cons first more =>
    have grows := more.grows
    cases first with
    | unknown => exact absurd ⟨_, _, rfl⟩ more.not_stopped
    | unnamed => exact absurd ⟨_, _, rfl⟩ more.not_stopped
    | settled =>
      exact ⟨_, _, rfl, grows.number? (Numbering.number?_allocate_self N ty)⟩
    | crossReferenced =>
      exact ⟨_, _, rfl, grows.number? (Numbering.number?_introduce_self N ty .crossReferenced)⟩
    | defined => exact ⟨_, _, rfl, grows.number? (Numbering.number?_introduce_self N ty .defined)⟩

theorem Acts.fits {c c' : Context} {task : Task} (h : Acts types c task entries c') :
    ∀ entry ∈ entries, entry.Fits c'.numbering := by
  cases h with
  | described _ steps =>
    intro entry mem
    cases List.mem_singleton.1 mem
    exact steps.starts
  | typedefOut => exact List.forall_mem_nil _
  | tagOut => exact List.forall_mem_nil _
  | _ =>
    intro entry mem
    cases List.mem_singleton.1 mem
    exact rfl

theorem Performs.fits {c c' : Context} {tasks : List Task} {journal : List Entry}
    (h : Performs types c tasks journal c') : ∀ entry ∈ journal, entry.Fits c'.numbering := by
  induction h with
  | nil => exact List.forall_mem_nil _
  | cons first rest ih =>
    intro entry mem
    rcases List.mem_append.1 mem with mem | mem
    · exact (first.fits entry mem).grows rest.grows
    · exact ih entry mem

/-- Each symbol that entries describe is found in their records, with its row, and whether it is a
tag. -/
theorem described_entries (fits : ∀ entry ∈ entries, entry.Fits N) :
    (descriptions (entries.flatMap Entry.records)).map (fun d => (d.isTag, d.row?)) =
      (entries.filterMap Entry.symbol?).map fun symbol =>
        (decide (symbol.letter = some 'T'), some (symbol.row N)) := by
  induction entries with
  | nil => rfl
  | cons entry entries ih =>
    have rest := ih fun e mem => fits e (List.mem_cons_of_mem _ mem)
    have first := fits entry List.mem_cons_self
    rw [List.flatMap_cons]
    cases entry with
    | record record =>
      rw [List.filterMap_cons_none rfl, ← rest]
      cases record with
      | symbol => cases first
      | _ => rfl
    | description symbol marks =>
      obtain ⟨n, more, rfl, number⟩ := first
      rw [Entry.records, Symbol.records, descriptions_segments, symbols_description, List.map_cons,
        List.map_cons, rest, Symbol.row, number]
      rfl

/-- Two lists that agree on a pair agree on its second part where the first one is chosen. -/
theorem map_filter_of_map_eq {α β γ : Type} {f : α → Bool × γ} {g : β → Bool × γ} {l : List α}
    {m : List β} (h : l.map f = m.map g) (p : Bool → Bool) :
    (l.filter fun a => p (f a).1).map (fun a => (f a).2) =
      (m.filter fun b => p (g b).1).map fun b => (g b).2 := by
  have same := congrArg (fun pairs => (pairs.filter fun pair => p pair.1).map Prod.snd) h
  simpa [List.filter_map, Function.comp_def] using same

/-- The rows of what entries describe are found in their records. -/
theorem rows_entries (fits : ∀ entry ∈ entries, entry.Fits N) :
    ((descriptions (entries.flatMap Entry.records)).filter (!·.isTag)).map Description.row? =
      (rowsOf N entries).map some := by
  have rows := map_filter_of_map_eq (described_entries fits) not
  simpa [rowsOf, List.map_map, Function.comp_def] using rows

/-- Behind the source file the prelude holds descriptions of typedefs. -/
theorem WritesPrelude.typedefs (h : WritesPrelude u target entries) :
    ∃ records, entries.flatMap Entry.records =
        .sourceFile u.sourceFile target.textLabel :: records ∧
      (∀ record ∈ records, record.text?.isSome = true) ∧
        ∀ d ∈ descriptions records, ∃ ty node name more, u.types.get? ty = some node ∧
          node.typedefName? = some name ∧
            d = ⟨.heading name (some 't') :: more, .localSymbol, .number 0⟩ := by
  obtain @⟨typedefs, named⟩ := h
  refine ⟨typedefs.flatMap Entry.records, rfl, ?_⟩
  induction typedefs with
  | nil => exact ⟨List.forall_mem_nil _, List.forall_mem_nil _⟩
  | cons entry typedefs ih =>
    obtain ⟨texts, rest⟩ := ih fun e mem => named e (List.mem_cons_of_mem _ mem)
    obtain ⟨ty, node, name, marks, known, typedef, rfl⟩ := named _ List.mem_cons_self
    rw [List.flatMap_cons]
    refine ⟨fun record mem => ?_, fun d mem => ?_⟩
    · rcases List.mem_append.1 mem with mem | mem
      · exact isSome_text?_segments _ _ _ marks record mem
      · exact texts record mem
    · rw [Entry.records, Symbol.records, descriptions_segments] at mem
      rcases List.mem_cons.1 mem with rfl | mem
      · exact ⟨ty, node, name, _, known, typedef, rfl⟩
      · exact rest d mem

namespace Task

theorem ofTag_ne_sourceFile {tag : Tag} {task : Task} {path label : String}
    (h : task ∈ ofTag types tag) : task ≠ .sourceFile path label := by
  rintro rfl
  obtain ⟨name, -, ⟨-, e⟩ | ⟨node, -, -, e⟩⟩ := mem_ofTag.1 h <;> cases e

theorem ofChoice_ne_sourceFile {choice : Except DescribeError (Option Symbol)} {task : Task}
    {path label : String} (h : task ∈ ofChoice choice) : task ≠ .sourceFile path label := by
  rintro rfl
  obtain ⟨cause, -, e⟩ | ⟨s, -, e⟩ := mem_ofChoice.1 h <;> cases e

theorem ofSymbol_ne_sourceFile {decl : Declaration} {task : Task} {path label : String}
    (h : task ∈ ofSymbol u target decl) : task ≠ .sourceFile path label := by
  simp only [ofSymbol, ofTypedefs, List.mem_append, List.mem_flatMap, List.mem_map] at h
  rcases h with (⟨tag, -, mem⟩ | ⟨entry, -, rfl⟩) | mem
  · exact ofTag_ne_sourceFile mem
  · exact nofun
  · exact ofChoice_ne_sourceFile mem

theorem ofBody_ne_sourceFile {scopes : List Scope} {params : List Declaration} {task : Task}
    {path label : String} (h : OfBody u target scopes params task) :
    task ≠ .sourceFile path label := by
  rcases h with ⟨scope, -, ⟨tag, -, mem⟩ | ⟨decl, -, mem⟩⟩ | ⟨param, -, mem⟩ | rfl | ⟨block, rfl⟩
  · exact ofTag_ne_sourceFile mem
  · exact ofChoice_ne_sourceFile mem
  · exact ofChoice_ne_sourceFile mem
  · exact nofun
  · exact nofun

/-- Items do not name the source file again. -/
theorem ofItems_ne_sourceFile {items : List Item} {next : UInt32} {task : Task}
    {path label : String} (h : task ∈ ofItems u target next items) :
    task ≠ .sourceFile path label := by
  induction items generalizing next with
  | nil => cases h
  | cons item rest ih =>
    rcases List.mem_append.1 h with h | h
    · cases item with
      | symbol decl => exact ofSymbol_ne_sourceFile h
      | function definition =>
        simp only [ofItem, List.mem_append, List.mem_flatMap] at h
        rcases h with (h | ⟨param, -, h⟩) | h
        · exact ofSymbol_ne_sourceFile h
        · exact ofChoice_ne_sourceFile h
        · exact ofBody_ne_sourceFile (ofBody_of_mem_ofStatements _ h)
    · exact ih h

end Task

/-- The source file is named by its own task alone. -/
theorem Acts.sourceFile_notMem {c c' : Context} {task : Task} {path label : String}
    (other : task ≠ .sourceFile path label) (h : Acts types c task entries c') :
    ∀ entry ∈ entries, .sourceFile path label ∉ entry.records := by
  intro entry mem inside
  cases h with
  | described _ steps =>
    cases List.mem_singleton.1 mem
    cases isSome_text?_segments _ _ _ _ _ inside
  | typedefOut => cases mem
  | tagOut => cases mem
  | sourceFile =>
    cases List.mem_singleton.1 mem
    cases List.mem_singleton.1 inside
    exact other rfl
  | enter | leave =>
    cases List.mem_singleton.1 mem
    cases List.mem_singleton.1 inside

/-- No declaration is lost, repeated or misplaced. The output starts with what the prelude writes,
the source file and descriptions of typedefs. What follows are markers, descriptions of tags, and for
each declaration that the walk through the items meets, in the order of the walk, one description
with its name, its letter, its code, its value and the number of its type, unless its kind has
none. -/
theorem Writer.describe_declarations {writer after : Writer} {records : List Record}
    (h : writer.describe u = (.ok records, after)) :
    ∃ middle typedefs rest,
      Context.emitPrelude u writer.target (.fresh writer.target.firstBlock) = .ok () middle ∧
        middle.out.records.toList =
          .sourceFile u.sourceFile writer.target.textLabel :: typedefs ∧
        (∀ record ∈ typedefs, record.text?.isSome = true) ∧
        (∀ d ∈ descriptions typedefs, ∃ ty node name more, u.types.get? ty = some node ∧
          node.typedefName? = some name ∧
            d = ⟨.heading name (some 't') :: more, .localSymbol, .number 0⟩) ∧
        records = middle.out.records.toList ++ rest ∧
        (∀ path label, .sourceFile path label ∉ rest) ∧
        ((descriptions rest).filter (!·.isTag)).map Description.row? =
          (u.rows writer.target after.context.numbering).map some := by
  obtain ⟨middle, last, prelude, entries, run, front, items, next, rfl, same⟩ :=
    Writer.describe_parts h
  obtain ⟨written, out⟩ := front.writesPrelude
  have before : middle.out.records.toList = prelude.flatMap Entry.records := by
    rw [front.records]
    simp [Context.fresh, Emitter.empty]
  obtain ⟨typedefs, e, symbols, named⟩ := written.typedefs
  rw [← next] at items
  have fits := items.fits
  refine ⟨middle, typedefs, entries.flatMap Entry.records, run, before.trans e, symbols, named, ?_,
    fun path label mem => ?_, ?_⟩
  · rw [before, List.flatMap_append]
  · obtain ⟨entry, written, inside⟩ := List.mem_flatMap.1 mem
    exact items.forall_entries (.sourceFile path label ∉ ·.records)
      (fun task mem => Acts.sourceFile_notMem (Task.ofItems_ne_sourceFile mem)) entry written inside
  · rw [rows_entries fits, (items.writesItems out).rowsOf, same]
    rfl

/-- Two symbols, and a function whose argument lives in a register of its body. -/
theorem Samples.linkedList_declarations :
    ∃ before rest after,
      (Writer.ofTarget {}).describe linkedList = (.ok (before ++ rest), after) ∧
      ((descriptions rest).filter (!·.isTag)).map Description.row? =
        [some ⟨"node_t", some 't', .localSymbol, .number 0, some ⟨4⟩⟩,
          some ⟨"head", some 'G', .global, .number 0, some ⟨5⟩⟩,
          some ⟨"length", some 'f', .function, .address "_length", some ⟨1⟩⟩,
          some ⟨"list", some 'p', .parameter, .number 8, some ⟨5⟩⟩,
          some ⟨"n", none, .localSymbol, .number (-4), some ⟨1⟩⟩,
          some ⟨"list", some 'r', .register, .number 9, some ⟨5⟩⟩,
          some ⟨"p", some 'r', .register, .number 10, some ⟨5⟩⟩] := by
  have run : ((Writer.ofTarget {}).describe linkedList).1.toOption.isSome = true := by
    decide +kernel
  have rows : linkedList.rows {}
      ((Writer.ofTarget {}).describe linkedList).2.context.numbering =
        [⟨"node_t", some 't', .localSymbol, .number 0, some ⟨4⟩⟩,
          ⟨"head", some 'G', .global, .number 0, some ⟨5⟩⟩,
          ⟨"length", some 'f', .function, .address "_length", some ⟨1⟩⟩,
          ⟨"list", some 'p', .parameter, .number 8, some ⟨5⟩⟩,
          ⟨"n", none, .localSymbol, .number (-4), some ⟨1⟩⟩,
          ⟨"list", some 'r', .register, .number 9, some ⟨5⟩⟩,
          ⟨"p", some 'r', .register, .number 10, some ⟨5⟩⟩] := by decide +kernel
  cases h : (Writer.ofTarget {}).describe linkedList with
  | mk result after =>
    rw [h] at run rows
    cases result with
    | error cause => cases run
    | ok records =>
      obtain ⟨middle, typedefs, rest, -, -, -, -, rfl, -, described⟩ :=
        Writer.describe_declarations h
      refine ⟨middle.out.records.toList, rest, after, rfl, described.trans ?_⟩
      exact congrArg (List.map some) rows

end Stabs
