import Stabs.Proofs.Description.Steps

/-!
# Descriptions and their steps

Writing a reference takes the steps of its pieces, and the output receives exactly the marks that
the steps leave. A description that succeeds wrote all of its pieces, one that fails stopped in
front of the fault that it reports.
-/
namespace Stabs

theorem get_eq {ε σ : Type} (s : σ) : (get : EStateM ε σ σ) s = .ok s s := rfl

theorem modify_eq {ε σ : Type} (f : σ → σ) (s : σ) :
    (modify f : EStateM ε σ Unit) s = .ok () (f s) := rfl

namespace Emitter

open TypeDescription (Mark)

/-- Receives one mark of the description in progress. -/
def put (out : Emitter) : Mark → Emitter
  | .token token => (out.write? token).getD out
  | .safePoint => out.safePoint

def play (out : Emitter) (marks : List Mark) : Emitter := marks.foldl put out

@[simp] theorem play_nil (out : Emitter) : out.play [] = out := rfl

@[simp] theorem play_cons (out : Emitter) (m : Mark) (marks : List Mark) :
    out.play (m :: marks) = (out.put m).play marks := rfl

theorem play_append (out : Emitter) (a b : List Mark) :
    out.play (a ++ b) = (out.play a).play b := List.foldl_append

theorem write?_eq_some {out : Emitter} (h : out.inSymbol) (token : Token) :
    out.write? token = some (out.put (.token token)) := by
  unfold inSymbol at h
  cases hp : out.pending with
  | none => simp [hp] at h
  | some symbol => simp [put, write?, hp]

theorem inSymbol_put {out : Emitter} (h : out.inSymbol) (m : Mark) : (out.put m).inSymbol := by
  unfold inSymbol at h
  cases hp : out.pending with
  | none => simp [hp] at h
  | some symbol =>
    cases m with
    | token token => simp [put, write?, hp, inSymbol]
    | safePoint =>
      simp only [put, safePoint, hp]
      split
      · rfl
      · simp [inSymbol, hp]

theorem inSymbol_play {out : Emitter} (h : out.inSymbol) (marks : List Mark) :
    (out.play marks).inSymbol := by
  induction marks generalizing out with
  | nil => exact h
  | cons m marks ih => exact ih (inSymbol_put h m)

end Emitter

namespace TypeDescription

/-- What a step of a description makes of a sheet: all pieces are written, or the first faulty one
is met. -/
def Realized (types : TypeTable) (pieces : List Piece) (sheet : Sheet) :
    EStateM.Result Halt Sheet Unit → Prop
  | .ok _ after => ∃ marks, Steps types sheet.numbering pieces marks after.numbering [] ∧
      after.out = sheet.out.play marks
  | .error (.fault cause) after => ∃ marks left,
      Steps types sheet.numbering pieces marks after.numbering (.fault cause :: left) ∧
        after.out = sheet.out.play marks
  | .error .depthSpent _ => True

/-- A step writes the given pieces from every sheet with a symbol in progress. -/
def Realizes (types : TypeTable) (pieces : List Piece) (step : Writing Unit) : Prop :=
  ∀ sheet : Sheet, sheet.out.inSymbol → Realized types pieces sheet (step sheet)

namespace Realizes

variable {types : TypeTable} {pieces others : List Piece} {step next : Writing Unit}

theorem pure : Realizes types [] (Pure.pure ()) := fun sheet _ =>
  ⟨[], .refl sheet.numbering [], rfl⟩

theorem write (token : Token) : Realizes types [.token token] (TypeDescription.write token) := by
  intro sheet symbol
  unfold TypeDescription.write
  rw [Emitter.write?_eq_some symbol]
  exact ⟨[.token token], .single (.mark _), rfl⟩

theorem safePoint : Realizes types [.mark .safePoint] TypeDescription.safePoint := fun _ _ =>
  ⟨[.safePoint], .single (.mark _), rfl⟩

theorem fail (cause : DescribeError) :
    Realizes types [.fault cause] (TypeDescription.fail cause) := fun sheet _ =>
  ⟨[], [], .refl sheet.numbering _, rfl⟩

theorem bind (hs : Realizes types pieces step) (hn : Realizes types others next) :
    Realizes types (pieces ++ others) (step >>= fun _ => next) := by
  intro sheet symbol
  have first := hs sheet symbol
  simp only [Bind.bind, EStateM.bind]
  cases h : step sheet with
  | error halt after =>
    rw [h] at first
    cases halt with
    | depthSpent => trivial
    | fault cause =>
      obtain ⟨marks, left, steps, out⟩ := first
      exact ⟨marks, left ++ others, steps.append others, out⟩
  | ok _ middle =>
    rw [h] at first
    obtain ⟨marks, steps, out⟩ := first
    have second := hn middle (out ▸ Emitter.inSymbol_play symbol marks)
    have begun := steps.append others
    dsimp only
    cases h' : next middle with
    | error halt after =>
      rw [h'] at second
      cases halt with
      | depthSpent => trivial
      | fault cause =>
        obtain ⟨marks', left, steps', out'⟩ := second
        exact ⟨marks ++ marks', left, begun.trans steps', by rw [out', out, Emitter.play_append]⟩
    | ok _ after =>
      rw [h'] at second
      obtain ⟨marks', steps', out'⟩ := second
      exact ⟨marks ++ marks', begun.trans steps', by rw [out', out, Emitter.play_append]⟩

theorem forM {α : Type} {item : α → List Piece} {write : α → Writing Unit}
    (h : ∀ a, Realizes types (item a) (write a)) (l : List α) :
    Realizes types (l.flatMap item) (ForM.forM l write) := by
  induction l with
  | nil => exact pure
  | cons a l ih =>
    rw [List.forM_cons, List.flatMap_cons]
    exact bind (h a) ih

theorem withSafePoints {α : Type} {item : α → List Piece} {write : α → Writing Unit}
    (h : ∀ a, Realizes types (item a) (write a)) (l : List α) :
    Realizes types (separated item l) (TypeDescription.withSafePoints write l) := by
  cases l with
  | nil => exact pure
  | cons a l => exact bind (h a) (forM (fun b => bind safePoint (h b)) l)

variable {child : TypeId → Writing Unit}
  (hc : ∀ ty, Realizes types [.reference ty false] (child ty))

include hc

theorem members (category : Aggregate) (size : Option UInt64) (fields : List Field) :
    Realizes types (aggregateLayout category size fields)
      (TypeDescription.members child category size fields) :=
  bind (write _) (bind
    (withSafePoints (fun _ => bind (write _) (bind (hc _) (write _))) _) (write _))

theorem body (ty : TypeId) (n : TypeNumber) (node : TypeNode) :
    Realizes types (layout ty n node) (TypeDescription.body child ty n node) := by
  unfold layout TypeDescription.body
  cases node.kind with
  | void => exact write _
  | integer min max => exact write _
  | real =>
    cases node.size with
    | some size => exact write _
    | none => exact fail _
  | array element length =>
    dsimp only
    split
    · exact bind (write _) (hc _)
    · exact fail _
  | record fields => exact members hc _ _ _
  | union fields => exact members hc _ _ _
  | enumeration values =>
    have items : ∀ v : Enumerator, Realizes types (enumeratorPieces v)
      (TypeDescription.write (.enumerator v.name v.value.toInt)) := fun _ => write _
    exact bind (write _) (bind (withSafePoints items _) (write _))
  | pointer target => exact bind (write _) (hc _)
  | function returns => exact bind (write _) (hc _)

end Realizes

/-- A piece is written by writing its expansion. -/
theorem Realized.expand {types : TypeTable} {sheet : Sheet} {p : Piece} {marks : List Mark}
    {M : Numbering} {body : List Piece} {result : EStateM.Result Halt Sheet Unit}
    (first : Expands types sheet.numbering p marks M body)
    (rest : Realized types body ⟨M, sheet.out.play marks⟩ result) :
    Realized types [p] sheet result := by
  have begun := Steps.single first
  cases result with
  | ok _ after =>
    obtain ⟨marks', steps, out⟩ := rest
    exact ⟨marks ++ marks', begun.trans steps, by rw [out, Emitter.play_append]⟩
  | error halt after =>
    cases halt with
    | depthSpent => trivial
    | fault cause =>
      obtain ⟨marks', left, steps, out⟩ := rest
      exact ⟨marks ++ marks', left, begun.trans steps, by rw [out, Emitter.play_append]⟩

/-- A bounded reference takes the steps of its piece, unless the bound is met. -/
theorem encodeWithin_realizes (types : TypeTable) (depth : Nat) (ty : TypeId) (full : Bool) :
    Realizes types [.reference ty full] (encodeWithin types depth ty full) := by
  induction depth generalizing ty full with
  | zero => exact fun _ _ => trivial
  | succ depth ih =>
    intro sheet symbol
    unfold encodeWithin
    cases known : types.get? ty with
    | none => exact Realized.expand (.unknown known) (Realizes.fail _ _ symbol)
    | some node =>
      simp only [Bind.bind, EStateM.bind, allocate, write, Emitter.write?_eq_some symbol, get_eq,
        Numbering.status_allocate]
      have symbol' := Emitter.inSymbol_put symbol (.token (.number (sheet.numbering.allocate ty).1))
      have symbol'' := Emitter.inSymbol_put symbol' (.token .equals)
      cases settled : isSettled (sheet.numbering.status (sheet.numbering.allocate ty).1) full with
      | true => exact Realized.expand (.settled known settled) (Realizes.pure _ symbol')
      | false =>
        simp only [Bool.false_eq_true, if_false, introduce, Bind.bind, EStateM.bind, write,
          Emitter.write?_eq_some symbol']
        cases crossed : crossReference? node full with
        | none =>
          exact Realized.expand (.defined known settled crossed)
            (Realizes.body (fun ty => ih ty false) ty _ node _ symbol'')
        | some category =>
          cases named : node.name with
          | none =>
            exact Realized.expand (.unnamed known settled crossed named)
              (Realizes.fail _ _ symbol'')
          | some name =>
            simp only [EStateM.bind, write, Emitter.write?_eq_some symbol'']
            exact Realized.expand (.crossReferenced known settled crossed named)
              (Realizes.pure _ (Emitter.inSymbol_put symbol'' (.token (.crossReference _ _))))

theorem encode_ok {types : TypeTable} {ty : TypeId} {full : Bool} {sheet after : Sheet}
    (symbol : sheet.out.inSymbol) (h : encode types ty full sheet = .ok () after) :
    ∃ marks, Steps types sheet.numbering [.reference ty full] marks after.numbering [] ∧
      after.out = sheet.out.play marks := by
  have realized := encodeWithin_realizes types (types.size + 1) ty full sheet symbol
  unfold encode at h
  split at h
  · next eq => cases h; rwa [eq] at realized
  · cases h
  · next eq => exact absurd eq (encodeWithin_ne_depthSpent types ty full sheet _)

theorem encode_error {types : TypeTable} {ty : TypeId} {full : Bool} {sheet after : Sheet}
    {cause : DescribeError} (symbol : sheet.out.inSymbol)
    (h : encode types ty full sheet = .error cause after) :
    ∃ marks left, Steps types sheet.numbering [.reference ty full] marks after.numbering
      (.fault cause :: left) ∧ after.out = sheet.out.play marks := by
  have realized := encodeWithin_realizes types (types.size + 1) ty full sheet symbol
  unfold encode at h
  split at h
  · cases h
  · next eq => cases h; rwa [eq] at realized
  · next eq => exact absurd eq (encodeWithin_ne_depthSpent types ty full sheet _)

end TypeDescription

end Stabs
