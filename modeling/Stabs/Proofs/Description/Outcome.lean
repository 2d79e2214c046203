import Stabs.Proofs.Description.Emission
import Stabs.Proofs.Description.Progress

/-!
# The outcome of a description

The steps of a description are determined, so it comes to one end only: everything is written, or a
fault stands in front of what is left.
-/
namespace Stabs.TypeDescription

variable {types : TypeTable} {N M N' M' : Numbering} {p : Piece} {ms ms' : List Mark}
  {pending body body' left left' : List Piece}

/-- A piece has one expansion at most. -/
theorem Expands.unique (a : Expands types N p ms M body) (b : Expands types N p ms' M' body') :
    ms = ms' ∧ M = M' ∧ body = body' := by
  cases a <;> cases b <;> simp_all

/-- Nothing is left to be written: all pieces are, or a fault stands in front. -/
def Final (left : List Piece) : Prop := left = [] ∨ Stopped left

/-- A description comes to one end only. -/
theorem Steps.unique (a : Steps types N pending ms M left) (ha : Final left)
    (b : Steps types N pending ms' M' left') (hb : Final left') :
    ms = ms' ∧ M = M' ∧ left = left' := by
  have stuck {N M : Numbering} {p : Piece} {ms : List Mark} {body pending : List Piece}
      (first : Expands types N p ms M body) (final : Final (p :: pending)) : False := by
    rcases final with e | ⟨cause, rest, e⟩
    · cases e
    · cases e
      cases first
  induction a generalizing ms' with
  | refl =>
    cases b with
    | refl => exact ⟨rfl, rfl, rfl⟩
    | cons first _ => exact (stuck first ha).elim
  | cons first _ ih =>
    cases b with
    | refl => exact (stuck first hb).elim
    | cons second more =>
      obtain ⟨rfl, rfl, rfl⟩ := first.unique second
      obtain ⟨rfl, rfl, rfl⟩ := ih ha more
      exact ⟨rfl, rfl, rfl⟩

/-- What a description comes to from what it leaves. -/
def outcome (sheet : Sheet) : List Piece → EStateM.Result DescribeError Sheet Unit
  | .fault cause :: _ => .error cause sheet
  | _ => .ok () sheet

/-- A reference is written to its end, and what is left tells how it came out. -/
theorem encode_final (types : TypeTable) (ty : TypeId) (full : Bool) (N : Numbering)
    {out : Emitter} (symbol : out.inSymbol) :
    ∃ marks M left, Steps types N [.reference ty full] marks M left ∧ Final left ∧
      encode types ty full ⟨N, out⟩ = outcome ⟨M, out.play marks⟩ left := by
  cases run : encode types ty full ⟨N, out⟩ with
  | ok _ after =>
    obtain ⟨marks, steps, played⟩ := encode_ok symbol run
    refine ⟨marks, after.numbering, [], steps, .inl rfl, ?_⟩
    change _ = EStateM.Result.ok () _
    rw [← played]
  | error cause after =>
    obtain ⟨marks, left, steps, played⟩ := encode_error symbol run
    exact ⟨marks, after.numbering, _, steps, .inr ⟨_, _, rfl⟩, by rw [outcome, ← played]⟩

end Stabs.TypeDescription
