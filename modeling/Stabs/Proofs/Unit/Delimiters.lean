import Stabs.Proofs.Unit.Declarations
import Stabs.Proofs.Unit.Markers

/-!
# The records inside of a function

A debugger takes the parameters, local symbols and block markers behind the record of a function for
those of that function. What a function item writes comes in two parts: what its own declaration
adds, with the record of the function at the end if the function has code, and what its parameters
and its body add. The second part does not ask whether the first one brought a record. So a function
without code that has something inside adds to the function before it.
-/
namespace Stabs

open TypeDescription

/-- A declaration of a function that has code in this unit. -/
def Declaration.hasCode (decl : Declaration) : Bool :=
  match decl.kind with
  | .function info => info.isEmitted
  | _ => false

/-- The record of a function: a letter for its linkage, the code of functions and its address. -/
def Declaration.Opens (decl : Declaration) (d : Description) : Prop :=
  ∃ info address more, decl.kind = .function info ∧ info.address = some address ∧
    d = ⟨.heading decl.name (some (if info.isPublic then 'F' else 'f')) :: more, .function,
      .address address⟩

/-- Whether a declaration has a description where it is met. -/
def Mention.isShown : Mention → Bool
  | declared decl =>
    match decl.kind with
    | .enumConstant => false
    | .typedef => true
    | .function info => info.isEmitted
    | .parameter _ => false
    | .var info => info.isEmitted
  | argument param => (param.kind matches .parameter _)
  | inRegister param => (param.kind matches .parameter { location := .register _, .. })

namespace FunctionDefinition

/-- The declarations that a walk meets inside of a function. -/
def inside (definition : FunctionDefinition) : List Mention :=
  definition.params.map .argument ++ Statement.allMentions definition.params definition.body

/-- A function with nothing inside that has a record, apart from tags. -/
def isSilent (definition : FunctionDefinition) : Bool :=
  !definition.inside.any Mention.isShown && Statement.allBlocks definition.body = 0

end FunctionDefinition

/-- Records that belong inside of a function: markers, and descriptions of all but tags. -/
def SpeakInside (records : List Record) : Prop :=
  (∃ record ∈ records, record.isMarker = true) ∨ ∃ d ∈ descriptions records, d.isTag = false

/-- What one function item adds to the records of a unit: `own` with its declaration, and `inner`
with its parameters and its body. -/
inductive WrittenFor (u : CompilationUnit) (target : Target) (records : List Record)
    (before : List Item) (definition : FunctionDefinition) (own inner : List Record) : Prop
  | intro {later : List Item} {rest : List Record} {c c₁ c₂ : Context}
      (item : u.items = before ++ .function definition :: later)
      (front : (do
        Context.emitPrelude u target
        forM before (Context.emitItem u target)) (.fresh target.firstBlock) = .ok () c)
      (declared : Context.emitSymbol u target definition.decl false c = .ok () c₁)
      (walked : (do
        Context.emitParameters u.types target definition.params
        Context.walkAll u target 0 definition.params definition.body) c₁ = .ok () c₂)
      (added : c₁.out.records.toList = c.out.records.toList ++ own)
      (behind : c₂.out.records.toList = c₁.out.records.toList ++ inner)
      (all : records = c₂.out.records.toList ++ rest)

/-- Whatever belongs inside of a function has the record of the function in front. -/
def Delimited (u : CompilationUnit) (target : Target) (records : List Record) : Prop :=
  ∀ before definition own inner, WrittenFor u target records before definition own inner →
    SpeakInside inner → ∃ d ∈ descriptions own, definition.decl.Opens d

variable {u : CompilationUnit} {target : Target} {types : TypeTable} {N : Numbering}
  {entries journal : List Entry} {c c' : Context} {next next' : Nat}

theorem isSome_row? (m : Mention) : (m.row? types target N).isSome = m.isShown := by
  cases m with
  | declared decl =>
    obtain ⟨name, ty, kind⟩ := decl
    cases kind with
    | function info =>
      obtain ⟨isPublic, isExternal, address⟩ := info
      cases isExternal <;> cases address <;> cases isPublic <;> rfl
    | var info =>
      obtain ⟨isPublic, isExternal, isPermanent, _, _, _, location⟩ := info
      cases isExternal <;> cases location <;> cases isPublic <;> cases isPermanent <;> rfl
    | _ => rfl
  | argument param =>
    obtain ⟨name, ty, kind⟩ := param
    cases kind <;> rfl
  | inRegister param =>
    obtain ⟨name, ty, kind⟩ := param
    cases kind with
    | parameter info =>
      obtain ⟨_, location, _, _⟩ := info
      cases location <;> rfl
    | _ => rfl

namespace Context

/-- Behind the prelude and some items every typedef is out. -/
theorem typedefsOut_of_front {items : List Item}
    (h : (do emitPrelude u target; forM items (emitItem u target)) (.fresh target.firstBlock) =
      .ok () c) : TypedefsOut u.types c := by
  obtain ⟨_, c₁, front, rest⟩ := bind_ok h
  rw [emitPrelude_eq] at front
  rw [emitItems_eq] at rest
  obtain ⟨_, first⟩ := performAll_ok front
  obtain ⟨_, second⟩ := performAll_ok rest
  exact first.writesPrelude.2.performs second

end Context

theorem Performs.added {tasks : List Task} {records : List Record}
    (h : Performs types c tasks journal c')
    (added : c'.out.records.toList = c.out.records.toList ++ records) :
    records = journal.flatMap Entry.records := by
  rw [h.toList_records, List.append_cancel_left_eq] at added
  exact added.symm

/-- A description of a tag opens no function. -/
theorem not_opens_tag (decl : Declaration) (name : String) (ty : TypeId) (more : Segment)
    (code : Code) (value : Placement) :
    ¬ decl.Opens ⟨(Symbol.ofTag name ty).heading :: more, code, value⟩ := by
  rintro ⟨info, address, rest, -, -, e⟩
  have letter := congrArg (fun d => d.segment.head?) e
  simp only [Symbol.heading, Symbol.ofTag, List.head?_cons] at letter
  cases h : info.isPublic <;> simp [h] at letter

theorem WritesTags.opens_iff {tags : List Tag} (h : WritesTags tags entries) (decl : Declaration)
    (rest : List Record) : (∃ d ∈ descriptions (entries.flatMap Entry.records ++ rest),
      decl.Opens d) ↔ ∃ d ∈ descriptions rest, decl.Opens d := by
  induction h with
  | nil => rfl
  | skip _ _ ih => exact ih
  | @written tag name _ entries marks _ _ ih =>
    rw [List.flatMap_cons, List.append_assoc, Entry.records, Symbol.records, descriptions_segments,
      ← ih]
    simp [not_opens_tag]

/-- The symbol of a declaration is the record of a function if the function has code. -/
theorem opens_of_chosen {decl : Declaration} {symbol : Symbol}
    (chosen : Symbol.ofDeclaration? types target decl = .ok (some symbol)) (more : Segment) :
    decl.Opens ⟨symbol.heading :: more, symbol.code, symbol.value⟩ ↔ decl.hasCode = true := by
  obtain ⟨name, ty, kind⟩ := decl
  cases kind with
  | function info =>
    obtain ⟨isPublic, isExternal, address⟩ := info
    cases isExternal with
    | true => cases chosen
    | false =>
      cases address with
      | none => cases chosen
      | some address =>
        change Symbol.returnType types name ty >>= _ = _ at chosen
        cases returned : Symbol.returnType types name ty with
        | error cause =>
          rw [returned] at chosen
          cases chosen
        | ok returns =>
          rw [returned] at chosen
          cases chosen
          exact ⟨fun _ => rfl, fun _ => ⟨_, address, more, rfl, rfl, rfl⟩⟩
  | _ =>
    refine ⟨?_, nofun⟩
    rintro ⟨info, address, more, ⟨⟩, -⟩

/-- A declaration that is passed over has no code. -/
theorem hasCode_of_skipped {decl : Declaration}
    (skipped : Symbol.ofDeclaration? types target decl = .ok none) : decl.hasCode = false := by
  obtain ⟨name, ty, kind⟩ := decl
  cases kind with
  | function info =>
    obtain ⟨isPublic, isExternal, address⟩ := info
    cases isExternal with
    | true => rfl
    | false =>
      cases address with
      | none => rfl
      | some address =>
        change Symbol.returnType types name ty >>= _ = _ at skipped
        cases returned : Symbol.returnType types name ty <;> rw [returned] at skipped <;>
          cases skipped
  | _ => rfl

/-- The record of a function is written with its declaration if the function has code. -/
theorem WritesSymbol.opens_iff {decl : Declaration} (h : WritesSymbol u target decl entries) :
    (∃ d ∈ descriptions (entries.flatMap Entry.records), decl.Opens d) ↔ decl.hasCode = true := by
  obtain ⟨tags, own⟩ := h
  rw [List.flatMap_append, tags.opens_iff]
  cases own with
  | skip skipped rest =>
    cases rest
    rw [hasCode_of_skipped skipped]
    simp [descriptions]
  | written marks chosen rest =>
    cases rest
    rw [List.flatMap_singleton, Entry.records, Symbol.records, ← List.append_nil (segments ..),
      descriptions_segments]
    simp [descriptions, opens_of_chosen chosen]

/-- A function body has markers if it has blocks. -/
theorem exists_marker_iff (body : List Statement) (next : Nat) :
    (∃ record, record ∈ Statement.allMarkers false next body) ↔ Statement.allBlocks body ≠ 0 := by
  have pairs := (Statement.numbered_allMarkers false next body).pairs
  rw [Statement.entered, if_neg Bool.false_ne_true] at pairs
  constructor
  · rintro ⟨record, mem⟩
    obtain ⟨n, inRange, -⟩ := List.mem_flatMap.1 (pairs.mem_iff.1 mem)
    have := List.mem_range'_1.1 inRange
    omega
  · intro blocks
    refine ⟨.left next, pairs.mem_iff.2 (List.mem_flatMap.2 ⟨next, ?_, List.mem_cons_self⟩)⟩
    exact List.mem_range'_1.2 ⟨Nat.le_refl next, by omega⟩

/-- The rows of what stands inside of a function. -/
theorem rowsOf_inside {definition : FunctionDefinition} {ofParams ofBody : List Entry}
    (params : WritesChosen (fun param => (Symbol.ofParameter target param).map some)
      definition.params ofParams)
    (body : WritesStatements u target false definition.params next definition.body ofBody next') :
    rowsOf N (ofParams ++ ofBody) =
      definition.inside.filterMap (Mention.row? u.types target N) := by
  rw [rowsOf_append, params.rowsOf Symbol.shows_ofParameter, body.rowsOf,
    FunctionDefinition.inside, List.filterMap_append, List.filterMap_map]
  rfl

/-- What is written inside of a function says nothing if the function is silent. -/
theorem speakInside_iff {definition : FunctionDefinition} {ofParams ofBody : List Entry}
    (params : WritesChosen (fun param => (Symbol.ofParameter target param).map some)
      definition.params ofParams)
    (body : WritesStatements u target false definition.params next definition.body ofBody next')
    (fits : ∀ entry ∈ ofParams ++ ofBody, entry.Fits N) :
    SpeakInside ((ofParams ++ ofBody).flatMap Entry.records) ↔ definition.isSilent = false := by
  have markers : (∃ record ∈ (ofParams ++ ofBody).flatMap Entry.records,
      record.isMarker = true) ↔ Statement.allBlocks definition.body ≠ 0 := by
    rw [← exists_marker_iff definition.body next, ← body.markers.1, ← List.nil_append (markersOf _),
      ← params.markers, ← markersOf_append]
    simp only [markersOf, List.mem_filter]
  have shown : (∃ d ∈ descriptions ((ofParams ++ ofBody).flatMap Entry.records),
      d.isTag = false) ↔ ∃ m ∈ definition.inside, m.isShown = true := by
    have rows := rows_entries fits
    rw [rowsOf_inside params body] at rows
    -- as many descriptions that are no tags as declarations with a row
    have count := congrArg List.length rows
    rw [List.length_map, List.length_map, ← List.countP_eq_length_filter,
      List.length_filterMap_eq_countP] at count
    have left : 0 < (descriptions ((ofParams ++ ofBody).flatMap Entry.records)).countP
        (!·.isTag) ↔ _ := List.countP_pos_iff
    have right : 0 < definition.inside.countP (fun m => (m.row? u.types target N).isSome) ↔ _ :=
      List.countP_pos_iff
    rw [count] at left
    simpa only [Bool.not_eq_true', isSome_row?] using left.symm.trans right
  rw [SpeakInside, markers, shown, FunctionDefinition.isSilent, Bool.and_eq_false_iff,
    Bool.not_eq_false', List.any_eq_true, decide_eq_false_iff_not, or_comm]

/-- The two parts that a function item writes: whether there is a record of the function, and
whether there is anything that belongs inside. -/
theorem WrittenFor.parts {records own inner : List Record} {before : List Item}
    {definition : FunctionDefinition}
    (h : WrittenFor u target records before definition own inner) :
    ((∃ d ∈ descriptions own, definition.decl.Opens d) ↔ definition.decl.hasCode = true) ∧
      (SpeakInside inner ↔ definition.isSilent = false) := by
  obtain @⟨later, rest, c, c₁, c₂, -, front, declared, walked, added, behind, -⟩ := h
  have out := Context.typedefsOut_of_front front
  rw [Context.emitSymbol_eq] at declared
  obtain ⟨ofSymbol, first⟩ := Context.performAll_ok declared
  obtain ⟨_, middle, params, body⟩ := Context.bind_ok walked
  rw [Context.emitParameters_eq] at params
  rw [Context.walkAll_eq] at body
  obtain ⟨ofParams, second⟩ := Context.performAll_ok params
  obtain ⟨ofBody, third⟩ := Context.performAll_ok body
  have journal := second.append third
  rw [first.added added, journal.added behind]
  exact ⟨(first.writesSymbol out).1.opens_iff, speakInside_iff second.writesChosen
    third.writesStatements journal.fits⟩

/-- Every function item of a unit that is described has written its two parts. -/
theorem Writer.describe_writtenFor {writer after : Writer} {records : List Record}
    (h : writer.describe u = (.ok records, after)) {before later : List Item}
    {definition : FunctionDefinition} (item : u.items = before ++ .function definition :: later) :
    ∃ own inner, WrittenFor u writer.target records before definition own inner := by
  rw [Writer.describe, Context.reset_eq] at h
  split at h
  · next _ last run =>
    cases h
    unfold Context.emitUnit at run
    rw [item, List.forM_append, List.forM_cons] at run
    obtain ⟨_, first, prelude, items⟩ := Context.bind_ok run
    obtain ⟨_, c, earlier, items⟩ := Context.bind_ok items
    obtain ⟨_, c₂, function, behind⟩ := Context.bind_ok items
    obtain ⟨_, c₁, declared, walked⟩ := Context.bind_ok function
    have front : (do
        Context.emitPrelude u writer.target
        forM before (Context.emitItem u writer.target)) (.fresh writer.target.firstBlock) =
          .ok () c := (Context.bind_of_ok prelude _).trans earlier
    -- the output only grows, by the journal of each part
    have own := declared
    rw [Context.emitSymbol_eq] at own
    obtain ⟨ofSymbol, own⟩ := Context.performAll_ok own
    obtain ⟨_, middle, params, body⟩ := Context.bind_ok walked
    rw [Context.emitParameters_eq] at params
    rw [Context.walkAll_eq] at body
    rw [Context.emitItems_eq] at behind
    obtain ⟨ofParams, params⟩ := Context.performAll_ok params
    obtain ⟨ofBody, body⟩ := Context.performAll_ok body
    obtain ⟨ofItems, behind⟩ := Context.performAll_ok behind
    exact ⟨_, _, .intro item front declared walked own.toList_records
      (params.append body).toList_records behind.toList_records⟩
  · cases h

/-- Whether everything inside of functions stands behind the record of its own function. A function
item writes what its declaration adds and then what is inside. The first part holds the record of
the function if the function has code, and the second one holds something of its own if the
function is not silent. So the records of a unit are delimited if every function without code is
silent, and in no other case. -/
theorem Writer.describe_delimited_iff {writer after : Writer} {records : List Record}
    (h : writer.describe u = (.ok records, after)) :
    (∀ before definition later, u.items = before ++ .function definition :: later →
      ∃ own inner, WrittenFor u writer.target records before definition own inner) ∧
    (∀ before definition own inner,
      WrittenFor u writer.target records before definition own inner →
        ((∃ d ∈ descriptions own, definition.decl.Opens d) ↔ definition.decl.hasCode = true) ∧
          (SpeakInside inner ↔ definition.isSilent = false)) ∧
    (Delimited u writer.target records ↔
      ∀ definition ∈ u.functions, definition.decl.hasCode = true ∨ definition.isSilent = true) := by
  refine ⟨fun _ _ _ => describe_writtenFor h, fun _ _ _ _ => WrittenFor.parts, ?_, ?_⟩
  · intro delimited definition mem
    obtain ⟨item, inUnit, function⟩ := List.mem_filterMap.1 mem
    cases item with
    | symbol decl => cases function
    | function same =>
      cases function
      obtain ⟨before, later, split⟩ := List.append_of_mem inUnit
      obtain ⟨own, inner, written⟩ := describe_writtenFor h split
      obtain ⟨opened, speaks⟩ := written.parts
      cases silent : definition.isSilent with
      | true => exact .inr rfl
      | false => exact .inl (opened.1 (delimited _ _ _ _ written (speaks.2 silent)))
  · intro all before definition own inner written speak
    obtain ⟨opened, speaks⟩ := written.parts
    have mem : definition ∈ u.functions := by
      obtain @⟨later, rest, c, c₁, c₂, item, _⟩ := written
      rw [CompilationUnit.functions, item]
      exact List.mem_filterMap.2 ⟨_, List.mem_append_right _ List.mem_cons_self, rfl⟩
    rcases all definition mem with code | silent
    · exact opened.2 code
    · rw [speaks.1 speak] at silent
      cases silent

namespace Samples

/-- A function without code in this unit, with a parameter and a body, behind one with code. -/
def strayBody : CompilationUnit where
  sourceFile := "stray.c"
  types := table [{ kind := .function (some .int) }]
  items := [
    .function { decl := .ofFunction "main" ⟨3⟩ true "_main" },
    .function
      { decl := ⟨"helper", ⟨3⟩, .function { isPublic := true, isExternal := true, address := none }⟩
        params := [.ofParameter "x" .int 8 (.register 3)]
        body := [.scope [] [.ofAutomatic "i" .int (-4)] [.scope [] [] []]] }]

/-- The functions of the sample of nested scopes all have code. -/
theorem nestedScopes_delimited : ∃ records after,
    (Writer.ofTarget {}).describe nestedScopes = (.ok records, after) ∧
      Delimited nestedScopes {} records := by
  have run : ((Writer.ofTarget {}).describe nestedScopes).1.toOption.isSome = true := by
    decide +kernel
  cases h : (Writer.ofTarget {}).describe nestedScopes with
  | mk result after =>
    rw [h] at run
    cases result with
    | error cause => cases run
    | ok records =>
      obtain ⟨-, -, delimited⟩ := Writer.describe_delimited_iff h
      exact ⟨records, after, rfl, delimited.2 (by decide)⟩

/-- What is inside of the function without code is written all the same, behind the record of the
function before it. -/
theorem strayBody_not_delimited : ∃ records after,
    (Writer.ofTarget {}).describe strayBody = (.ok records, after) ∧
      ¬ Delimited strayBody {} records := by
  have run : ((Writer.ofTarget {}).describe strayBody).1.toOption.isSome = true := by
    decide +kernel
  cases h : (Writer.ofTarget {}).describe strayBody with
  | mk result after =>
    rw [h] at run
    cases result with
    | error cause => cases run
    | ok records =>
      refine ⟨records, after, rfl, fun delimited => ?_⟩
      obtain ⟨own, inner, written⟩ :=
        Writer.describe_writtenFor h (List.take_append_drop 1 strayBody.items).symm
      obtain ⟨opened, speaks⟩ := written.parts
      have speak : SpeakInside inner := speaks.2 (by decide)
      have code := opened.1 (delimited _ _ _ _ written speak)
      exact absurd code (by decide)

end Samples

end Stabs
