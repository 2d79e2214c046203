import Stabs.Proofs.Readback.References
import Stabs.Proofs.Unit.Names

/-!
# Legible symbols

The letter of a symbol is never a digit, so it is told from the number behind it. In a unit whose
names are identifiers the names of all symbols are such.
-/
namespace Stabs

/-- A symbol whose name and letter can be told from what follows them. -/
structure Symbol.Legible (symbol : Symbol) : Prop where
  name : isIdentifier symbol.name = true
  letter : ∀ c ∈ symbol.letter, c.isDigit = false

theorem Symbol.isDigit_letters : ∀ c ∈ letters, c.isDigit = false := by simp [letters]

/-- In a unit whose names are identifiers every symbol is legible. -/
theorem Task.due_legible {u : CompilationUnit} {target : Target} {task : Task} {c : Context}
    {symbol : Symbol} (named : ∀ name ∈ u.names, isIdentifier name = true)
    (mem : task ∈ ofUnit u target) (due : task.due u.types c = some symbol) :
    symbol.Legible :=
  have drawn := drawn_of_due mem due
  ⟨named _ drawn.name, fun c mem => Symbol.isDigit_letters c (drawn.letter c mem)⟩

/-- The names in the type table of such a unit are identifiers. -/
theorem Readback.named_of_names {u : CompilationUnit}
    (named : ∀ name ∈ u.names, isIdentifier name = true) : Named u.types :=
  fun _ _ known name mem => named name (CompilationUnit.mem_names_of_node known mem)

end Stabs
