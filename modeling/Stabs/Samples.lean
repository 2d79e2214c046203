import Stabs.Program.Unit

/-!
# Sample units

Small units that each show one side of the writer: a cyclic type, nested scopes, descriptions long
enough to be cut, and declarations that have no symbol.
-/
namespace Stabs.Samples

/-- Adds nodes to the built-in types. -/
def table (nodes : List TypeNode) : TypeTable :=
  nodes.foldl (fun types node => (types.add node).2) .builtin

/-- A list of nodes that point to one another, and a function with a register parameter. -/
def linkedList : CompilationUnit where
  sourceFile := "list.c"
  types := table [
    { kind := .record [⟨some "value", .int, 0, 32⟩, ⟨some "next", ⟨4⟩, 32, 32⟩]
      name := some (.tag "node"), size := some 8 },
    { kind := .pointer ⟨3⟩, size := some 4 },
    { kind := .function (some .int) }]
  tags := [⟨some "node", ⟨3⟩⟩]
  items := [
    .symbol ⟨"node_t", ⟨3⟩, .typedef⟩,
    .symbol (.ofGlobal "head" ⟨4⟩ true "_head"),
    .function
      { decl := .ofFunction "length" ⟨5⟩ false "_length"
        params := [.ofParameter "list" ⟨4⟩ 8 (.register 9)]
        body := [.scope [] [.ofAutomatic "n" .int (-4)]
          [.scope [] [.ofRegister "p" ⟨4⟩ 10] []]] }]

/-- A loop whose body branches into two scopes. -/
def nestedScopes : CompilationUnit where
  sourceFile := "main.c"
  types := table [{ kind := .function (some .int) }]
  items := [.function
    { decl := .ofFunction "main" ⟨3⟩ true "_main"
      body := [.scope [] [.ofAutomatic "i" .int (-4)] [
        .loop [.scope [] [.ofAutomatic "j" .int (-8)] [
          .branch
            [.scope [] [.ofAutomatic "k" .int (-12)] []]
            [.scope [] [.ofAutomatic "c" .char (-13)] []]]]]] }]

/-- A record that is referred to before it is defined, and one that is never completed. -/
def forwardReferences : CompilationUnit where
  sourceFile := "forward.c"
  types := table [
    { kind := .record [⟨some "self", ⟨4⟩, 0, 32⟩], name := some (.tag "node"), size := some 4 },
    TypeTable.typedefNode "node_ptr" (.pointer ⟨3⟩) (some 4),
    { kind := .record [], name := some (.tag "hidden") }]
  tags := [⟨some "node", ⟨3⟩⟩, ⟨some "hidden", ⟨5⟩⟩]
  items := [
    .symbol ⟨"handle", ⟨5⟩, .typedef⟩,
    .symbol ⟨"token", ⟨5⟩, .typedef⟩]

/-- A record and an enumeration whose descriptions take more than one segment. -/
def wideStruct : CompilationUnit where
  sourceFile := "wide.c"
  types := table [
    { kind := .record ((List.range 6).map fun i =>
        ⟨some ("configuration_field_" ++ i.repr), .int, (i * 32).toUInt64, 32⟩)
      name := some (.tag "settings"), size := some 24 },
    { kind := .enumeration
        ((List.range 8).map fun i => ⟨"OPTION_NUMBER_" ++ i.repr, i.toInt64⟩)
      name := some (.tag "option"), size := some 4 }]
  tags := [⟨some "settings", ⟨3⟩⟩, ⟨some "option", ⟨4⟩⟩]
  items := [.symbol (.ofGlobal "current" ⟨3⟩ true "_current")]

/-- Enumeration constants and an external variable, none of which has a symbol, beside a variable
with an initial value. -/
def handWritten : CompilationUnit where
  sourceFile := "color.c"
  types := table [
    { kind := .enumeration [⟨"RED", 0⟩, ⟨"GREEN", 1⟩]
      name := some (.tag "color"), size := some 4 }]
  tags := [⟨some "color", ⟨3⟩⟩]
  items := [
    .symbol (.ofEnumConstant "RED" ⟨3⟩),
    .symbol (.ofEnumConstant "GREEN" ⟨3⟩),
    .symbol (.ofVariable "errno" .int
      { isPublic := true, isExternal := true, location := .static "_errno" }),
    .symbol (.ofVariable "favorite" ⟨3⟩
      { isPublic := false, isInitialized := true, location := .static "_favorite" })]

end Stabs.Samples
