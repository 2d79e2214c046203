import Stabs.Describe.Context
import Stabs.Proofs.Description.Emission

/-!
# The segments of a description

A finished description adds its segments to the records, one behind the other: the heading and the
tokens of its type, cut at those safe points where the segment has grown past the limit. All
segments carry the code and the value of the symbol, and all but the last are continued.
-/
namespace Stabs

open TypeDescription

/-- The records of a description of which `segment` is written and `marks` are to come. -/
def segments (code : Code) (value : Placement) (segment : Segment) : List Mark → List Record
  | [] => [.symbol segment code value false]
  | .token token :: marks => segments code value (segment ++ [token]) marks
  | .safePoint :: marks =>
    if Segment.limit < segment.size then
      .symbol segment code value true :: segments code value [] marks
    else segments code value segment marks

def Symbol.heading (symbol : Symbol) : Token := .heading symbol.name symbol.letter

def Symbol.records (symbol : Symbol) (marks : List Mark) : List Record :=
  segments symbol.code symbol.value [symbol.heading] marks

/-- The segments of a description have texts. -/
theorem isSome_text?_segments (code : Code) (value : Placement) (segment : Segment)
    (marks : List Mark) :
    ∀ record ∈ segments code value segment marks, record.text?.isSome = true := by
  induction marks generalizing segment with
  | nil =>
    intro record mem
    cases List.mem_singleton.1 mem
    rfl
  | cons m marks ih =>
    cases m with
    | token token => exact ih _
    | safePoint =>
      rw [segments]
      split
      · intro record mem
        rcases List.mem_cons.1 mem with rfl | mem
        · rfl
        · exact ih _ record mem
      · exact ih _

namespace Emitter

def begun (out : Emitter) (symbol : Symbol) : Emitter :=
  out.start symbol.name symbol.letter symbol.code symbol.value

/-- The output after one complete description. -/
def described (out : Emitter) (symbol : Symbol) (marks : List Mark) : Emitter :=
  ((out.begun symbol).play marks).finish

theorem finish_play {out : Emitter} {symbol : PendingSymbol} (h : out.pending = some symbol)
    (marks : List Mark) : (out.play marks).finish =
      ⟨out.records ++ (segments symbol.code symbol.value symbol.segment marks).toArray, none⟩ := by
  induction marks generalizing out symbol with
  | nil => simp [finish, h, segments, PendingSymbol.record]
  | cons m marks ih =>
    cases m with
    | token token =>
      have longer : (out.put (.token token)).pending =
          some { symbol with segment := symbol.segment ++ [token] } := by simp [put, write?, h]
      rw [play_cons, ih longer]
      simp [put, write?, h, segments]
    | safePoint =>
      rw [play_cons]
      by_cases long : Segment.limit < symbol.segment.size
      · have emptied : (out.put .safePoint).pending = some { symbol with segment := [] } := by
          simp [put, safePoint, h, long]
        rw [ih emptied]
        simp [put, safePoint, h, long, segments, PendingSymbol.record]
      · have same : out.put .safePoint = out := by simp [put, safePoint, h, long]
        rw [same, ih h]
        simp [segments, long]

theorem described_eq (out : Emitter) (symbol : Symbol) (marks : List Mark) :
    out.described symbol marks = ⟨out.records ++ (symbol.records marks).toArray, none⟩ :=
  @finish_play (out.begun symbol) ⟨symbol.code, symbol.value, [symbol.heading]⟩ rfl marks

end Emitter

namespace Context

theorem describe_eq (types : TypeTable) (symbol : Symbol) (c : Context) :
    describe types symbol c =
      match encode types symbol.ty symbol.full ⟨c.numbering, c.out.begun symbol⟩ with
      | .ok _ sheet => .ok () { c with numbering := sheet.numbering, out := sheet.out.finish }
      | .error cause sheet => .error cause { c with toSheet := sheet } := by
  simp only [describe, Bind.bind, EStateM.bind, onOutput, onSheet, modify_eq]
  rw [← Emitter.begun]
  cases encode types symbol.ty symbol.full ⟨c.numbering, c.out.begun symbol⟩ <;> rfl

/-- A description that succeeds takes its steps from the reference to the symbol's type, and
touches numbering and output alone. -/
theorem describe_ok {types : TypeTable} {symbol : Symbol} {c c' : Context}
    (h : describe types symbol c = .ok () c') :
    ∃ marks, Steps types c.numbering [.reference symbol.ty symbol.full] marks c'.numbering [] ∧
      c' = { c with numbering := c'.numbering, out := c.out.described symbol marks } := by
  rw [describe_eq] at h
  split at h
  · next sheet eq =>
    obtain ⟨marks, steps, out⟩ := encode_ok rfl eq
    cases h
    exact ⟨marks, steps, by rw [out]; rfl⟩
  · cases h

theorem describe_error {types : TypeTable} {symbol : Symbol} {c c' : Context}
    {cause : DescribeError} (h : describe types symbol c = .error cause c') :
    ∃ marks left, Steps types c.numbering [.reference symbol.ty symbol.full] marks c'.numbering
      (.fault cause :: left) := by
  rw [describe_eq] at h
  split at h
  · cases h
  · next sheet eq =>
    obtain ⟨marks, left, steps, -⟩ := encode_error rfl eq
    cases h
    exact ⟨marks, left, steps⟩

end Context

end Stabs
