import Stabs.Describe.Unit
import Stabs.Samples

/-!
# Units in succession

A writer is used for one unit after another. A unit that fails leaves a description unfinished,
perhaps with a part of it among the records, types that count as defined without a body, typedefs
that count as written, and numbers of blocks that are gone. None of it reaches the next unit.
-/
namespace Stabs

namespace Writer

/-- Describes units one after another, each with the writer that the one before left behind. -/
def describeAll (writer : Writer) :
    List CompilationUnit → List (Except DescribeError (List Record) × Writer)
  | [] => []
  | u :: rest => writer.describe u :: (writer.describe u).2.describeAll rest

/-- A unit changes nothing about what the writer writes for. -/
theorem target_describe (writer : Writer) (u : CompilationUnit) :
    (writer.describe u).2.target = writer.target := by
  rw [describe]
  split <;> rfl

/-- What a writer makes of a unit follows from its target, whatever it went through before. -/
theorem describe_ofTarget (writer : Writer) (u : CompilationUnit) :
    writer.describe u = (ofTarget writer.target).describe u := by
  rw [describe, describe, Context.reset_eq, Context.reset_eq]
  rfl

/-- In a succession of units each one has the outcome that it has for a new writer, and leaves the
same writer behind: the same number and the same status for every type. -/
theorem describeAll_eq_map (writer : Writer) (units : List CompilationUnit) :
    writer.describeAll units = units.map (ofTarget writer.target).describe := by
  induction units generalizing writer with
  | nil => rfl
  | cons u rest ih =>
    rw [describeAll, List.map_cons, ih, target_describe, describe_ofTarget]

end Writer

namespace Samples

/-- A record whose last member has no description. By then the description has been cut. -/
def unsizedMember : CompilationUnit where
  sourceFile := "unsized.c"
  types := table [
    { kind := .real },
    TypeTable.typedefNode "sample" (.record (((List.range 3).map fun i =>
      ⟨some ("a_rather_long_name_of_a_member_" ++ i.repr), .int, (i * 32).toUInt64, 32⟩) ++
        [⟨some "ratio", ⟨3⟩, 96, 64⟩])) (some 20)]

example :
    let left := ((Writer.ofTarget {}).describe unsizedMember).2.context
    left.out.inSymbol = true ∧ left.numbering.statusOf ⟨4⟩ = .defined ∧
      left.out.records.toList.getLast?.map (· matches .symbol _ _ _ true) = some true := by
  decide +kernel

end Samples

end Stabs
