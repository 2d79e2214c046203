import Stabs.Proofs.Unit.Demand
import Stabs.Proofs.Unit.Flushing
import Stabs.Samples

/-!
# Units without their skipped declarations

A declaration that has no symbol may be left out of a unit. At file scope it comes up behind the
tags and typedefs of the unit like any other, but these wait for the next item all the same, and
behind the first item none is due. So the unit is written as before, as long as an item is left.
-/
namespace Stabs

/-- A declaration without a symbol: a constant of an enumeration, or a function or a variable that
is external or was given no place. -/
def Declaration.isSkipped (decl : Declaration) : Bool :=
  match decl.kind with
  | .enumConstant => true
  | .function info => !info.isEmitted
  | .var info => !info.isEmitted
  | _ => false

/-- A list of which some elements are left out and the others kept, perhaps with changes. -/
inductive Thinned {α : Type} (gone : α → Prop) (kept : α → α → Prop) : List α → List α → Prop
  | nil : Thinned gone kept [] []
  | keep {a b : α} {l m : List α} (first : kept a b) (rest : Thinned gone kept l m) :
      Thinned gone kept (a :: l) (b :: m)
  | drop {a : α} {l m : List α} (first : gone a) (rest : Thinned gone kept l m) :
      Thinned gone kept (a :: l) m

theorem Thinned.of_nil {α : Type} {gone : α → Prop} {kept : α → α → Prop} {m : List α}
    (h : Thinned gone kept [] m) : m = [] := by
  cases h
  rfl

namespace Statement

mutual

/-- A statement without some of the skipped declarations among the variables of its scopes. -/
inductive Thins : Statement → Statement → Prop
  | compound {body left : List Statement} (inner : AllThin body left) :
      Thins (.compound body) (.compound left)
  | loop {body left : List Statement} (inner : AllThin body left) :
      Thins (.loop body) (.loop left)
  | branch {thenPart otherwise first second : List Statement} (before : AllThin thenPart first)
      (behind : AllThin otherwise second) :
      Thins (.branch thenPart otherwise) (.branch first second)
  | scope {tags : List Tag} {vars others : List Declaration} {body left : List Statement}
      (own : Thinned (·.isSkipped = true) Eq vars others) (inner : AllThin body left) :
      Thins (.scope tags vars body) (.scope tags others left)

inductive AllThin : List Statement → List Statement → Prop
  | nil : AllThin [] []
  | cons {a b : Statement} {l m : List Statement} (first : Thins a b) (rest : AllThin l m) :
      AllThin (a :: l) (b :: m)

end

end Statement

/-- A function without some of the skipped declarations in its body. -/
inductive Item.Thins : Item → Item → Prop
  | symbol (decl : Declaration) : Thins (.symbol decl) (.symbol decl)
  | function {decl : Declaration} {params : List Declaration} {body left : List Statement}
      (inner : Statement.AllThin body left) :
      Thins (.function ⟨decl, params, body⟩) (.function ⟨decl, params, left⟩)

/-- A declaration at file scope that is skipped. -/
def Item.IsSkipped (item : Item) : Prop := ∃ decl, item = .symbol decl ∧ decl.isSkipped = true

/-- A unit without some of its skipped declarations, but not without all of its items. -/
structure CompilationUnit.Thins (u v : CompilationUnit) : Prop where
  sourceFile : v.sourceFile = u.sourceFile
  types : v.types = u.types
  tags : v.tags = u.tags
  items : Thinned Item.IsSkipped Item.Thins u.items v.items
  nonempty : u.items ≠ [] → v.items ≠ []

variable {u v : CompilationUnit} {target : Target} {c c' : Context}

namespace Task

theorem ofLocal_of_isSkipped (u : CompilationUnit) (target : Target) {decl : Declaration}
    (skipped : decl.isSkipped = true) : ofLocal u target decl = [] := by
  obtain ⟨name, ty, kind⟩ := decl
  cases kind with
  | enumConstant => rfl
  | function info =>
    obtain ⟨isPublic, isExternal, address⟩ := info
    cases isExternal <;> cases address <;> first | rfl | cases skipped
  | var info =>
    obtain ⟨isPublic, isExternal, _, _, _, _, location⟩ := info
    cases isExternal <;> cases location <;> first | rfl | cases skipped
  | _ => cases skipped

theorem ofLocals_thinned {vars others : List Declaration}
    (h : Thinned (·.isSkipped = true) Eq vars others) (types : u.types = v.types) :
    vars.flatMap (ofLocal u target) = others.flatMap (ofLocal v target) := by
  induction h with
  | nil => rfl
  | keep first _ ih =>
    subst first
    rw [List.flatMap_cons, List.flatMap_cons, ih, ofLocal, ofLocal, types]
  | drop first _ ih =>
    rw [List.flatMap_cons, ofLocal_of_isSkipped u target first, List.nil_append, ih]

mutual

theorem ofStatement_thinned {a b : Statement} (h : a.Thins b) (types : u.types = v.types)
    (depth : Nat) (params : List Declaration) (next : UInt32) :
    ofStatement u target depth params next a = ofStatement v target depth params next b := by
  cases h with
  | compound inner =>
    rw [ofStatement, ofStatement]
    exact ofStatements_thinned inner types depth [] next
  | loop inner =>
    rw [ofStatement, ofStatement]
    exact ofStatements_thinned inner types depth [] next
  | branch before behind =>
    rw [ofStatement, ofStatement, ofStatements_thinned before types depth [] next,
      ofStatements_thinned behind types]
  | scope own inner =>
    simp only [ofStatement, types, ofLocals_thinned own types,
      ofStatements_thinned inner types (depth + 1) []]

theorem ofStatements_thinned {l m : List Statement} (h : Statement.AllThin l m)
    (types : u.types = v.types) (depth : Nat) (params : List Declaration) (next : UInt32) :
    ofStatements u target depth params next l = ofStatements v target depth params next m := by
  cases h with
  | nil => rw [ofStatements, ofStatements]
  | cons first rest =>
    rw [ofStatements, ofStatements, ofStatement_thinned first types depth params next,
      ofStatements_thinned rest types]

end

/-- The tags and typedefs that every item at file scope comes up behind. -/
def ofFile (u : CompilationUnit) : List Task :=
  u.tags.flatMap (ofTag u.types) ++ ofTypedefs u.types

theorem flushes_ofFile : ∀ task ∈ ofFile u, task.Flushes u.types := by
  intro task mem
  rcases List.mem_append.1 mem with mem | mem
  · obtain ⟨tag, -, mem⟩ := List.mem_flatMap.1 mem
    exact flushes_ofTag mem
  · exact flushes_ofTypedefs mem

theorem ofFile_ne_enter : ∀ task ∈ ofFile u, task ≠ .enter := by
  rintro task mem rfl
  exact (flushes_ofFile _ mem).elim

theorem ofSymbol_eq (u : CompilationUnit) (target : Target) (decl : Declaration) :
    ofSymbol u target decl = ofFile u ++ ofLocal u target decl := rfl

theorem exists_ofItem (u : CompilationUnit) (target : Target) (next : UInt32) (item : Item) :
    ∃ own, ofItem u target next item = ofFile u ++ own := by
  cases item with
  | symbol decl => exact ⟨_, rfl⟩
  | function definition =>
    simp only [ofItem, ofSymbol_eq, List.append_assoc]
    exact ⟨_, rfl⟩

theorem ofItem_of_isSkipped {item : Item} (skipped : item.IsSkipped) (next : UInt32) :
    ofItem u target next item = ofFile u := by
  obtain ⟨decl, rfl, skipped⟩ := skipped
  rw [ofItem, ofSymbol_eq, ofLocal_of_isSkipped u target skipped, List.append_nil]

theorem ofItem_thinned {a b : Item} (h : a.Thins b) (types : u.types = v.types)
    (tags : u.tags = v.tags) (next : UInt32) :
    ofItem u target next a = ofItem v target next b := by
  have same (decl : Declaration) : ofSymbol u target decl = ofSymbol v target decl := by
    rw [ofSymbol, ofSymbol, ofLocal, ofLocal, types, tags]
  cases h with
  | symbol decl => exact same decl
  | function inner => rw [ofItem, ofItem, same, ofStatements_thinned inner types]

end Task

open Stabs.Task

namespace Context

/-- Behind the tags and typedefs of the file, skipped declarations are not missed. -/
theorem performAll_thinned {items others : List Item}
    (h : Thinned Item.IsSkipped Item.Thins items others) (types : u.types = v.types)
    (tags : u.tags = v.tags) (idle : ∀ task ∈ ofFile u, task.Idle c) (next : UInt32) :
    performAll u.types (ofItems u target next items) c =
      performAll u.types (ofItems v target next others) c := by
  induction h generalizing c next with
  | nil => rfl
  | @keep a b _ _ first rest ih =>
    rw [ofItems, ofItems, performAll_append, performAll_append,
      ofItem_thinned first types tags next]
    refine bind_eq_of_eq rfl fun c' run => ih (fun task mem => ?_) _
    obtain ⟨journal, performs⟩ := performAll_ok run
    exact performs.keeps_idle (idle task mem)
  | drop first rest ih =>
    rw [ofItems, ofItem_of_isSkipped first next, performAll_append,
      bind_of_ok (performAll_of_idle idle), nextBlock_of_forall ofFile_ne_enter]
    exact ih idle next

/-- Items that are written start with the tags and typedefs of the file. -/
theorem exists_flush {items : List Item} (nonempty : items ≠ []) {next : UInt32}
    (run : performAll u.types (ofItems u target next items) c = .ok () c') :
    ∃ c₁, performAll u.types (ofFile u) c = .ok () c₁ := by
  cases items with
  | nil => exact absurd rfl nonempty
  | cons item rest =>
    obtain ⟨own, e⟩ := exists_ofItem u target next item
    rw [ofItems, e, List.append_assoc, performAll_append] at run
    obtain ⟨_, c₁, flush, -⟩ := bind_ok run
    exact ⟨c₁, flush⟩

/-- These may as well be written in front of the first item. -/
theorem performAll_ofItems {items : List Item} (nonempty : items ≠ [])
    (flush : performAll u.types (ofFile u) c = .ok () c') (next : UInt32) :
    performAll u.types (ofItems u target next items) c =
      performAll u.types (ofItems u target next items) c' := by
  cases items with
  | nil => exact absurd rfl nonempty
  | cons item rest =>
    obtain ⟨own, e⟩ := exists_ofItem u target next item
    have again : performAll u.types (ofFile u) c' = .ok () c' :=
      performAll_of_idle (idle_of_flush flush flushes_ofFile)
    rw [ofItems, e, List.append_assoc, performAll_append, bind_of_ok flush, bind_of_ok again]

end Context

/-- The items of a unit are written without those that are skipped, as long as one is left. -/
theorem Context.performAll_items (h : u.Thins v) {next : UInt32}
    (run : performAll u.types (ofItems u target next u.items) c = .ok () c') :
    performAll u.types (ofItems v target next v.items) c = .ok () c' := by
  have file : ofFile v = ofFile u := by rw [ofFile, ofFile, h.types, h.tags]
  by_cases empty : u.items = []
  · have none : v.items = [] := (empty ▸ h.items).of_nil
    rw [empty] at run
    rwa [none]
  · -- both units go on from the context behind one flush, wherever their first items stand
    obtain ⟨c₁, flush⟩ := exists_flush empty run
    have idle := idle_of_flush flush flushes_ofFile
    rw [performAll_ofItems empty flush, performAll_thinned h.items h.types.symm h.tags.symm idle]
      at run
    rw [← h.types, ← file] at flush
    rw [← h.types, performAll_ofItems (h.nonempty empty) flush, h.types]
    exact run

/-- A unit that can be described can be described without its skipped declarations, with the same
records, and with the same number and the same status for every type. -/
theorem Writer.describe_thinned {writer after : Writer} {records : List Record} (h : u.Thins v)
    (run : writer.describe u = (.ok records, after)) :
    writer.describe v = (.ok records, after) := by
  have same {last : Context}
      (unit : Context.emitUnit u writer.target (.fresh writer.target.firstBlock) = .ok () last) :
      Context.emitUnit v writer.target (.fresh writer.target.firstBlock) = .ok () last := by
    rw [Context.emitUnit_eq, ofUnit, Context.performAll_append] at unit ⊢
    obtain ⟨_, c, front, items⟩ := Context.bind_ok unit
    have before : prelude v writer.target = prelude u writer.target := by
      rw [prelude, prelude, h.sourceFile, h.types]
    rw [h.types, before, Context.bind_of_ok front]
    exact Context.performAll_items h items
  rw [Writer.describe, Context.reset_eq] at run ⊢
  split at run
  · next last unit => rwa [same unit]
  · cases run

namespace Samples

/-- Declarations without a symbol at file scope, in a function and in a block inside it, beside a
few that have one. -/
def withExternals : CompilationUnit where
  sourceFile := "externals.c"
  types := table [
    { kind := .enumeration [⟨"RED", 0⟩, ⟨"GREEN", 1⟩]
      name := some (.tag "color"), size := some 4 },
    { kind := .function (some .int) }]
  tags := [⟨some "color", ⟨3⟩⟩]
  items := [
    .symbol (.ofEnumConstant "RED" ⟨3⟩),
    .symbol ⟨"puts", ⟨4⟩, .function { isPublic := true, isExternal := true, address := none }⟩,
    .function
      { decl := .ofFunction "main" ⟨4⟩ true "_main"
        body := [.scope [] [
            .ofVariable "errno" .int
              { isPublic := true, isExternal := true, location := .static "_errno" },
            .ofAutomatic "i" .int (-4)]
          [.loop [.scope [] [.ofVariable "unused" ⟨3⟩ (.ofLocal .eliminated)] []]]] },
    .symbol (.ofEnumConstant "GREEN" ⟨3⟩)]

/-- The same declarations, those with a symbol alone. -/
def withoutExternals : CompilationUnit :=
  { withExternals with
    items := [.function
      { decl := .ofFunction "main" ⟨4⟩ true "_main"
        body := [.scope [] [.ofAutomatic "i" .int (-4)] [.loop [.scope [] [] []]]] }] }

theorem withExternals_thinned : ∃ records after,
    withExternals.Thins withoutExternals ∧
      (Writer.ofTarget {}).describe withExternals = (.ok records, after) ∧
      (Writer.ofTarget {}).describe withoutExternals = (.ok records, after) := by
  have run : ((Writer.ofTarget {}).describe withExternals).1.toOption.isSome = true := by
    decide +kernel
  have inner : Statement.AllThin [.loop [.scope [] [.ofVariable "unused" ⟨3⟩
      (.ofLocal .eliminated)] []]] [.loop [.scope [] [] []]] :=
    .cons (.loop (.cons (.scope (.drop rfl .nil) .nil) .nil)) .nil
  have thins : withExternals.Thins withoutExternals := {
    sourceFile := rfl
    types := rfl
    tags := rfl
    items := .drop ⟨_, rfl, rfl⟩ (.drop ⟨_, rfl, rfl⟩ (.keep
      (.function (.cons (.scope (.drop rfl (.keep rfl .nil)) inner) .nil))
        (.drop ⟨_, rfl, rfl⟩ .nil)))
    nonempty := fun _ => List.cons_ne_nil _ _ }
  cases h : (Writer.ofTarget {}).describe withExternals with
  | mk result after =>
    rw [h] at run
    cases result with
    | error cause => cases run
    | ok records => exact ⟨records, after, thins, rfl, Writer.describe_thinned thins h⟩

end Samples

end Stabs
