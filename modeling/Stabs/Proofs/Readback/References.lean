import Stabs.Proofs.Readback.Contents
import Stabs.Proofs.Readback.Scanning

/-!
# Reading references back

A reference that was written with all of its pieces is read back whole in front of any text that a
bare number may stand in front of. The induction is on the depth of the reader; a body is read
piece by piece, as its steps wrote it.
-/
namespace Stabs.Readback

open TypeDescription

/-- The characters that marks put into the text. -/
def chars (marks : List Mark) : List Char :=
  (tokens marks).flatMap fun token => token.text.toList

@[simp] theorem chars_nil : chars [] = [] := rfl

@[simp] theorem chars_token (token : Token) (marks : List Mark) :
    chars (.token token :: marks) = token.text.toList ++ chars marks := rfl

@[simp] theorem chars_safePoint (marks : List Mark) : chars (.safePoint :: marks) = chars marks := rfl

theorem chars_append (a b : List Mark) : chars (a ++ b) = chars a ++ chars b := by
  rw [chars, tokens_append, List.flatMap_append]
  rfl

theorem toList_number (n : TypeNumber) :
    (Token.number n).text.toList = Nat.toDigits 10 n.value := Nat.toList_repr

theorem toList_equals : Token.equals.text.toList = ['='] := by decide

variable {types : TypeTable} {F N M : Numbering} {ms : List Mark} {depth : Nat}

/-- All names in a type table are identifiers. -/
def Named (types : TypeTable) : Prop :=
  ∀ ty node, types.get? ty = some node → ∀ name ∈ node.names, isIdentifier name = true

/-- References are read back at a depth that is at least the length of their text. -/
def ReadsReferences (types : TypeTable) (F : Numbering) (depth : Nat) : Prop :=
  ∀ {N M : Numbering} {ty : TypeId} {full : Bool} {ms : List Mark},
    Steps types N [.reference ty full] ms M [] → Sound types N → M.Grows F →
      (chars ms).length ≤ depth →
        ∃ n contents, F.number? ty = some n ∧ Tells types F (tokens ms) contents ∧
          ∀ rest, Stops rest → Reads (reference depth) (chars ms) (n, contents) rest

/-- A member is read with any reference whose text is read. -/
theorem reads_member {r : Reader (TypeNumber × Contents)} {name : String} {text : List Char}
    {n : TypeNumber} {contents : Contents} (named : isIdentifier name = true)
    (reads : ∀ rest, Stops rest → Reads r text (n, contents) rest) (bitOffset bitSize : Nat)
    (rest : List Char) :
    Reads (member r) (name.toList ++ ':' :: (text ++ ',' :: (Nat.toDigits 10 bitOffset ++
      ',' :: (Nat.toDigits 10 bitSize ++ [';'])))) ({ name, ty := n, bitOffset, bitSize }, contents)
      rest := by
  apply Reads.name_bind (ne_colon_of_isIdentifier named)
  apply (reads _ (stops_cons (by decide) (by decide))).bind
  apply Reads.expect_bind
  apply Reads.natural_bind (noDigit_cons (by decide))
  apply Reads.expect_bind
  apply Reads.natural_bind (noDigit_cons (by decide))
  apply Reads.expect_bind
  exact .pure _ _

/-- Members and the semicolon behind them are read back. -/
def ReadsMembers (types : TypeTable) (F : Numbering) (depth : Nat) (fields : List (String × Field))
    (marks : List Mark) : Prop :=
  ∃ all : List (Member TypeNumber × Contents),
    (fields.map Field.member).mapM (Member.numbered? F.number?) = some (all.map Prod.fst) ∧
      Tells types F (tokens marks) (all.flatMap Prod.snd) ∧
        ∀ rest, NoDigit (chars marks ++ rest) ∧
          ReadsItems (member (reference depth)) (chars marks) all rest

namespace ReadsMembers

theorem close : ReadsMembers types F depth [] [.token .close] :=
  ⟨[], rfl, (Tells.nil types F).cons nofun, fun rest => ⟨noDigit_cons (by decide), .nil rest⟩⟩

/-- One more member in front: its name, a reference that is read back, and its extent. -/
theorem cons {field : String × Field} {fields : List (String × Field)} {inner back : List Mark}
    {n : TypeNumber} {contents : Contents} (named : isIdentifier field.1 = true)
    (number : F.number? field.2.ty = some n) (tells : Tells types F (tokens inner) contents)
    (reads : ∀ rest, Stops rest → Reads (reference depth) (chars inner) (n, contents) rest)
    (others : ReadsMembers types F depth fields back) :
    ReadsMembers types F depth (field :: fields)
      (.token (.member field.1) :: (inner ++
        .token (.extent field.2.bitOffset.toNat field.2.bitSize.toNat) :: back)) := by
  obtain ⟨all, numbered, told, items⟩ := others
  obtain ⟨c, name, hc, digit, semicolon⟩ := head_of_isIdentifier named
  have own : (Field.member field).numbered? F.number? =
      some ⟨field.1, n, field.2.bitOffset.toNat, field.2.bitSize.toNat⟩ := by
    simp [Member.numbered?, Field.member, number]
  refine ⟨(⟨field.1, n, field.2.bitOffset.toNat, field.2.bitSize.toNat⟩, contents) :: all,
    ?_, ?_, fun rest => ⟨?_, ?_⟩⟩
  · rw [List.map_cons, List.mapM_cons, own, numbered]
    rfl
  · have back' := @Tells.cons _ _ _ _ (.extent field.2.bitOffset.toNat field.2.bitSize.toNat) told nofun
    have all' := tells.append back' (calm_cons rfl)
    have told' := @Tells.cons _ _ _ _ (.member field.1) all' nofun
    simpa [tokens_append, tokens] using told'
  · simpa [Token.text, hc] using noDigit_cons digit
  · have first := reads_member named reads field.2.bitOffset.toNat field.2.bitSize.toNat
      (chars back ++ rest)
    have items' := ReadsItems.cons first (by simp) (by simp [hc, semicolon]) (items rest).2
    simpa [chars_append, Token.text] using items'

/-- The pieces of a member and others behind it. -/
theorem of_pieces (child : ReadsReferences types F depth) {field : String × Field}
    {fields : List (String × Field)} {pending : List Piece} (named : isIdentifier field.1 = true)
    (steps : Steps types N (memberPieces field ++ pending) ms M []) (sound : Sound types N)
    (grows : M.Grows F) (len : (chars ms).length ≤ depth)
    (others : ∀ {K : Numbering} {back : List Mark}, Steps types K pending back M [] →
      Sound types K → (chars back).length ≤ depth → ReadsMembers types F depth fields back) :
    ReadsMembers types F depth (field :: fields) ms := by
  obtain ⟨ms₁, rfl, steps₁⟩ := steps.of_mark
  obtain ⟨inner, K, ms₂, own, steps₂, rfl⟩ := steps₁.of_cons
  obtain ⟨back, rfl, steps₃⟩ := steps₂.of_mark
  simp only [chars_token, chars_append, List.length_append] at len
  have sound' := own.sound sound
  have grows' := steps₂.grows.trans grows
  obtain ⟨n, contents, number, tells, reads⟩ := child own sound grows' (by omega)
  exact cons named number tells reads (others steps₃ sound' (by omega))

theorem of_steps (child : ReadsReferences types F depth) {fields : List (String × Field)}
    (named : ∀ field ∈ fields, isIdentifier field.1 = true)
    (steps : Steps types N (fields.flatMap (fun field => .mark .safePoint :: memberPieces field) ++
      [.token .close]) ms M []) (sound : Sound types N) (grows : M.Grows F)
    (len : (chars ms).length ≤ depth) : ReadsMembers types F depth fields ms := by
  induction fields generalizing N ms with
  | nil =>
    obtain ⟨rest, rfl, more⟩ := steps.of_mark
    obtain ⟨rfl, -⟩ := more.of_nil
    exact close
  | cons field fields ih =>
    rw [List.flatMap_cons, List.cons_append, List.cons_append, List.append_assoc] at steps
    obtain ⟨rest, rfl, more⟩ := steps.of_mark
    change ReadsMembers types F depth (field :: fields) rest
    apply of_pieces child (named field List.mem_cons_self) more sound grows len
    intro K back later sound' len'
    exact ih (fun other mem => named other (List.mem_cons_of_mem _ mem)) later sound' len'

/-- There is no safe point in front of the first member. -/
theorem of_separated (child : ReadsReferences types F depth) {fields : List (String × Field)}
    (named : ∀ field ∈ fields, isIdentifier field.1 = true)
    (steps : Steps types N (separated memberPieces fields ++ [.token .close]) ms M [])
    (sound : Sound types N) (grows : M.Grows F) (len : (chars ms).length ≤ depth) :
    ReadsMembers types F depth fields ms := by
  cases fields with
  | nil => exact of_steps child named steps sound grows len
  | cons field fields =>
    rw [separated, List.append_assoc] at steps
    apply of_pieces child (named field List.mem_cons_self) steps sound grows len
    intro K back later sound' len'
    exact of_steps child (fun other mem => named other (List.mem_cons_of_mem _ mem)) later sound'
      grows len'

end ReadsMembers

/-- An enumerator is read up to its comma. -/
theorem reads_enumerator {name : String} (named : isIdentifier name = true) (value : Int)
    (rest : List Char) :
    Reads enumerator (name.toList ++ ':' :: (value.repr.toList ++ [','])) (name, value) rest := by
  apply Reads.name_bind (ne_colon_of_isIdentifier named)
  apply Reads.integer_bind (noDigit_cons (by decide))
  exact .expect_bind (.pure _ _)

/-- Enumerators and the semicolon behind them are read back. -/
def ReadsEnumerators (types : TypeTable) (F : Numbering) (values : List Enumerator)
    (marks : List Mark) : Prop :=
  Tells types F (tokens marks) [] ∧
    ∀ rest, ReadsItems enumerator (chars marks) (values.map fun v => (v.name, v.value.toInt)) rest

namespace ReadsEnumerators

theorem cons {v : Enumerator} {values : List Enumerator} {back : List Mark}
    (named : isIdentifier v.name = true) (others : ReadsEnumerators types F values back) :
    ReadsEnumerators types F (v :: values)
      (.token (.enumerator v.name v.value.toInt) :: back) := by
  obtain ⟨tells, items⟩ := others
  obtain ⟨c, name, hc, digit, semicolon⟩ := head_of_isIdentifier named
  refine ⟨tells.cons nofun, fun rest => ?_⟩
  have first := reads_enumerator named v.value.toInt (chars back ++ rest)
  have items' := ReadsItems.cons first (by simp) (by simp [hc, semicolon]) (items rest)
  simpa [Token.text] using items'

theorem of_steps {values : List Enumerator} (named : ∀ v ∈ values, isIdentifier v.name = true)
    (steps : Steps types N (values.flatMap (fun v => .mark .safePoint :: enumeratorPieces v) ++
      [.token .close]) ms M []) : ReadsEnumerators types F values ms := by
  induction values generalizing N ms with
  | nil =>
    obtain ⟨rest, rfl, more⟩ := steps.of_mark
    obtain ⟨rfl, -⟩ := more.of_nil
    exact ⟨(Tells.nil types F).cons nofun, ReadsItems.nil⟩
  | cons v values ih =>
    rw [List.flatMap_cons, List.cons_append, List.cons_append, List.append_assoc] at steps
    obtain ⟨ms₁, rfl, steps₁⟩ := steps.of_mark
    obtain ⟨ms₂, rfl, steps₂⟩ := steps₁.of_mark
    exact cons (named v List.mem_cons_self)
      (ih (fun other mem => named other (List.mem_cons_of_mem _ mem)) steps₂)

theorem of_separated {values : List Enumerator} (named : ∀ v ∈ values, isIdentifier v.name = true)
    (steps : Steps types N (separated enumeratorPieces values ++ [.token .close]) ms M []) :
    ReadsEnumerators types F values ms := by
  cases values with
  | nil => exact of_steps named steps
  | cons v values =>
    rw [separated, List.append_assoc] at steps
    obtain ⟨ms₁, rfl, steps₁⟩ := steps.of_mark
    exact cons (named v List.mem_cons_self)
      (of_steps (fun other mem => named other (List.mem_cons_of_mem _ mem)) steps₁)

end ReadsEnumerators

/-- A reference in a body. -/
theorem reads_last (child : ReadsReferences types F depth) {ty : TypeId}
    (steps : Steps types N [.reference ty false] ms M []) (sound : Sound types N)
    (grows : M.Grows F) (len : (chars ms).length ≤ depth) (f : TypeNumber → Content TypeNumber) :
    ∃ n contents, F.number? ty = some n ∧ Tells types F (tokens ms) contents ∧
      ∀ rest, Stops rest → Reads (do
        let (n, contents) ← reference depth
        return (f n, contents)) (chars ms) (f n, contents) rest := by
  obtain ⟨n, contents, number, tells, reads⟩ := child steps sound grows len
  refine ⟨n, contents, number, tells, fun rest stops => ?_⟩
  exact (reads rest stops).last fun p => (f p.1, p.2)

theorem reads_aggregate (child : ReadsReferences types F depth) {category : Aggregate}
    {fields : List Field}
    (named : ∀ field ∈ namedFields fields, isIdentifier field.1 = true)
    (steps : Steps types N (separated memberPieces (namedFields fields) ++ [.token .close]) ms M [])
    (sound : Sound types N) (grows : M.Grows F) (len : (chars ms).length ≤ depth) :
    ∃ members contents,
      ((namedFields fields).map Field.member).mapM (Member.numbered? F.number?) = some members ∧
        Tells types F (tokens ms) contents ∧ ∀ n rest,
          Reads (aggregate category (reference depth)) (Nat.toDigits 10 n ++ chars ms)
            (.aggregate category n members, contents) rest := by
  obtain ⟨all, numbered, tells, items⟩ :=
    ReadsMembers.of_separated child named steps sound grows len
  refine ⟨_, _, numbered, tells, fun n rest => ?_⟩
  apply Reads.natural_bind (items rest).1
  exact (items rest).2.all.last fun members =>
    (Content.aggregate category n (members.map Prod.fst), members.flatMap Prod.snd)

/-- What is needed of a body: the content of its type and what the references in it tell. -/
def ReadsBody (types : TypeTable) (F : Numbering) (depth : Nat) (content : Content TypeId)
    (marks : List Mark) : Prop :=
  ∃ read contents, content.numbered? F.number? = some read ∧
    Tells types F (tokens marks) contents ∧
      ∀ rest, Stops rest → Reads (body (reference depth)) (chars marks) (read, contents) rest

theorem readsBody_range {base : TypeId} {n : TypeNumber} (number : F.number? base = some n)
    (low high : Int) :
    ReadsBody types F depth (.range base low high) [.token (.range n low high)] := by
  refine ⟨.range n low high, [], by simp [Content.numbered?, number],
    (Tells.nil types F).cons nofun, fun rest _ => ?_⟩
  have text : chars [.token (.range n low high)] = 'r' :: (Nat.toDigits 10 n.value ++
      ';' :: (low.repr.toList ++ ';' :: (high.repr.toList ++ [';']))) := by
    simp [Token.text]
  rw [text]
  apply Reads.peek
  apply Reads.expect_bind
  apply Reads.natural_bind (noDigit_cons (by decide))
  apply Reads.expect_bind
  apply Reads.integer_bind (noDigit_cons (by decide))
  apply Reads.expect_bind
  apply Reads.integer_bind (noDigit_cons (by decide))
  apply Reads.expect_bind
  exact .pure _ _

theorem readsBody_itself {ty : TypeId} {n : TypeNumber} (number : F.number? ty = some n) :
    ReadsBody types F depth (.itself ty) [.token (.itself n)] := by
  refine ⟨.itself n, [], by simp [Content.numbered?, number],
    (Tells.nil types F).cons nofun, fun rest stops => ?_⟩
  have text : chars [.token (.itself n)] = Nat.toDigits 10 n.value := by simp [Token.text]
  rw [text]
  apply Reads.peek
  obtain ⟨d, hd, digit⟩ := head_toDigits n.value rest
  rw [hd]
  split
  case h_9 => exact (reads_natural n.value stops.noDigit).last fun n => (Content.itself (TypeNumber.mk n), [])
  all_goals
    next e =>
    cases e
    cases digit

/-- A body that ends in a reference. -/
theorem readsBody_last (child : ReadsReferences types F depth) {ty : TypeId} {token : Token}
    {content : Content TypeId} {f : TypeNumber → Content TypeNumber}
    (plain : ∀ n, token ≠ .number n)
    (steps : Steps types N [.token token, .reference ty false] ms M []) (sound : Sound types N)
    (grows : M.Grows F) (len : (chars ms).length ≤ depth)
    (numbered : content.numbered? F.number? = (F.number? ty).map f)
    (front : ∀ {text rest : List Char} {n : TypeNumber} {contents : Contents},
      Reads (do
        let (n, contents) ← reference depth
        return (f n, contents)) text (f n, contents) rest →
      Reads (body (reference depth)) (token.text.toList ++ text) (f n, contents) rest) :
    ReadsBody types F depth content ms := by
  obtain ⟨inner, rfl, more⟩ := steps.of_mark
  rw [chars_token, List.length_append] at len
  obtain ⟨n, contents, number, tells, reads⟩ := reads_last child more sound grows (by omega) f
  exact ⟨f n, contents, by rw [numbered, number]; rfl, tells.cons plain,
    fun rest stops => front (reads rest stops)⟩

theorem readsBody_aggregate (child : ReadsReferences types F depth) {category : Aggregate}
    {size : Option UInt64} {fields : List Field}
    (named : ∀ field ∈ namedFields fields, isIdentifier field.1 = true)
    (steps : Steps types N (aggregateLayout category size fields) ms M [])
    (sound : Sound types N) (grows : M.Grows F) (len : (chars ms).length ≤ depth)
    (front : ∀ {text rest : List Char} {result : Content TypeNumber × Contents},
      Reads (aggregate category (reference depth)) text result rest →
        Reads (body (reference depth)) (category.letter.toList ++ text) result rest) :
    ReadsBody types F depth (.aggregate category (size.getD 0).toNat
      ((namedFields fields).map Field.member)) ms := by
  obtain ⟨inner, rfl, more⟩ := steps.of_mark
  rw [chars_token, List.length_append] at len
  obtain ⟨members, contents, numbered, tells, reads⟩ :=
    @reads_aggregate _ _ _ _ _ _ child category _ named more sound grows (by omega)
  refine ⟨_, contents, by rw [Content.numbered?, numbered]; rfl, tells.cons nofun, ?_⟩
  intro rest _
  have text : chars (.token (.aggregate category (size.getD 0).toNat) :: inner) =
      category.letter.toList ++ (Nat.toDigits 10 (size.getD 0).toNat ++ chars inner) := by
    simp [Token.text]
  rw [text]
  exact front (reads _ rest)

/-- A body written with all of its pieces is read back as the content of its type. -/
theorem readsBody_layout (child : ReadsReferences types F depth) (named : Named types)
    (int : F.number? .int = some .int) (char : F.number? .char = some .char) {ty : TypeId}
    {n : TypeNumber} {node : TypeNode} (known : types.get? ty = some node)
    (number : F.number? ty = some n) (steps : Steps types N (layout ty n node) ms M [])
    (sound : Sound types N) (grows : M.Grows F) (len : (chars ms).length ≤ depth) :
    ReadsBody types F depth (node.content ty) ms := by
  have names := named ty node known
  unfold TypeNode.names at names
  unfold layout at steps
  unfold TypeNode.content
  cases hk : node.kind with
  | void =>
    simp only [hk] at steps ⊢
    obtain ⟨rest, rfl, more⟩ := steps.of_mark
    obtain ⟨rfl, -⟩ := more.of_nil
    exact readsBody_itself number
  | integer min max =>
    simp only [hk] at steps ⊢
    obtain ⟨rest, rfl, more⟩ := steps.of_mark
    obtain ⟨rfl, -⟩ := more.of_nil
    unfold integerRange
    split
    · exact readsBody_range char _ _
    · exact readsBody_range int _ _
  | real =>
    simp only [hk] at steps ⊢
    cases hs : node.size with
    | none =>
      simp only [hs] at steps
      exact absurd ⟨_, _, rfl⟩ steps.not_stopped
    | some size =>
      simp only [hs] at steps ⊢
      obtain ⟨rest, rfl, more⟩ := steps.of_mark
      obtain ⟨rfl, -⟩ := more.of_nil
      exact readsBody_range int _ _
  | array element length =>
    simp only [hk] at steps ⊢
    split at steps
    · refine readsBody_last child ?_ steps sound grows len rfl fun reads => ?_
      · exact nofun
      · have text : (Token.bounds (length.toNat - 1)).text.toList = ['a', 'r', '1', ';', '0', ';'] ++
            ((length.toNat - 1 : Int).repr.toList ++ [';']) := by
          simp [Token.text, TypeNumber.int, Nat.toDigits_of_lt_base]
        rw [text, List.append_assoc, List.append_assoc]
        apply Reads.peek
        apply (Reads.expectAll _ _).bind
        apply Reads.integer_bind (noDigit_cons (by decide))
        exact .expect_bind reads
    · exact absurd ⟨_, _, rfl⟩ steps.not_stopped
  | record fields =>
    simp only [hk] at steps ⊢
    refine readsBody_aggregate child (fun field mem => names _ ?_) steps sound grows len ?_
    · rw [hk]
      exact List.mem_append_right _ (mem_names_of_namedFields mem)
    · exact fun reads => .peek (.expect_bind reads)
  | union fields =>
    simp only [hk] at steps ⊢
    refine readsBody_aggregate child (fun field mem => names _ ?_) steps sound grows len ?_
    · rw [hk]
      exact List.mem_append_right _ (mem_names_of_namedFields mem)
    · exact fun reads => .peek (.expect_bind reads)
  | enumeration values =>
    simp only [hk] at steps ⊢
    obtain ⟨rest, rfl, more⟩ := steps.of_mark
    have identifiers : ∀ v ∈ values, isIdentifier v.name = true := by
      intro v mem
      apply names
      rw [hk]
      exact List.mem_append_right _ (List.mem_map_of_mem mem)
    obtain ⟨tells, items⟩ := @ReadsEnumerators.of_separated types F _ _ _ _ identifiers more
    refine ⟨_, [], rfl, tells.cons nofun, fun rest _ => ?_⟩
    apply Reads.peek
    apply Reads.expect_bind
    exact (items rest).all.last fun values => (Content.enumeration values, ([] : Contents))
  | pointer target =>
    simp only [hk] at steps ⊢
    refine readsBody_last child ?_ steps sound grows len rfl fun reads => ?_
    · exact nofun
    · exact .peek (.expect_bind reads)
  | function returns =>
    simp only [hk] at steps ⊢
    refine readsBody_last child ?_ steps sound grows len rfl fun reads => ?_
    · exact nofun
    · exact .peek (.expect_bind reads)

/-- A number in front of text that does not go on with an equals sign. -/
theorem reads_bare (n : TypeNumber) {rest : List Char} (stops : Stops rest) :
    Reads (reference (depth + 1)) (Nat.toDigits 10 n.value) (n, []) rest := by
  rw [← List.append_nil (Nat.toDigits 10 n.value)]
  apply Reads.natural_bind
  · exact stops.noDigit
  · apply Reads.peek
    rw [if_neg]
    · exact .pure _ _
    · intro equals
      exact (stops '=' equals).2 rfl

/-- A number, an equals sign and a body that is read. -/
theorem reads_introduced {n : TypeNumber} {text rest : List Char} {content : Content TypeNumber}
    {contents : Contents}
    (reads : Reads (body (reference depth)) text (content, contents) rest) :
    Reads (reference (depth + 1)) (Nat.toDigits 10 n.value ++ '=' :: text)
      (n, (n, content) :: contents) rest := by
  apply Reads.natural_bind (noDigit_cons (by decide))
  apply Reads.peek
  rw [if_pos (by simp)]
  apply Reads.expect_bind
  exact reads.last fun (p : Content TypeNumber × Contents) => (n, (n, p.1) :: p.2)

theorem reads_crossReference {r : Reader (TypeNumber × Contents)} {category : Aggregate}
    {name : String} (named : isIdentifier name = true) (rest : List Char) :
    Reads (body r) ('x' :: (category.letter.toList ++ (name.toList ++ [':'])))
      (.crossReference category name, []) rest := by
  apply Reads.peek
  apply Reads.expect_bind
  have letter : Reads Readback.category category.letter.toList category
      ((name.toList ++ [':']) ++ rest) := by
    cases category <;> exact .peek (.expect_bind (.pure _ _))
  apply letter.bind
  apply Reads.name_bind (ne_colon_of_isIdentifier named)
  exact .pure _ _

/-- The text of a reference starts with the digits of its number. -/
theorem chars_of_reference {ty : TypeId} {full : Bool}
    (steps : Steps types N [.reference ty full] ms M []) :
    ∃ n more, chars ms = Nat.toDigits 10 n ++ more := by
  cases steps with
  | cons first more =>
    cases first with
    | unknown => exact absurd ⟨_, _, rfl⟩ more.not_stopped
    | _ =>
      rw [List.cons_append, chars_token, toList_number]
      exact ⟨_, _, rfl⟩

/-- Every reference is read back at the depth of its length. -/
theorem readsReferences (named : Named types) (int : F.number? .int = some .int)
    (char : F.number? .char = some .char) (depth : Nat) : ReadsReferences types F depth := by
  induction depth with
  | zero =>
    intro N M ty full ms steps sound grows len
    obtain ⟨n, more, text⟩ := chars_of_reference steps
    have digits := @Nat.length_toDigits_pos 10 n
    rw [text, List.length_append] at len
    omega
  | succ depth ih =>
    intro N M ty full ms steps sound grows len
    cases steps with
    | cons first more =>
      have tail := more
      rw [List.append_nil] at tail
      cases first with
      | unknown => exact absurd ⟨_, _, rfl⟩ tail.not_stopped
      | unnamed => exact absurd ⟨_, _, rfl⟩ tail.not_stopped
      | settled known enough =>
        obtain ⟨rfl, rfl⟩ := tail.of_nil
        refine ⟨_, [], grows.number? (Numbering.number?_allocate_self N ty), .bare _, ?_⟩
        intro rest stops
        rw [List.append_nil, chars_token, toList_number, chars_nil, List.append_nil]
        exact reads_bare _ stops
      | @crossReferenced _ _ node category name known unsettled crossed label =>
        obtain ⟨rfl, rfl⟩ := tail.of_nil
        have identifier : isIdentifier name.text = true := by
          apply named ty node known
          simp [TypeNode.names, label]
        refine ⟨_, _, grows.number? (Numbering.number?_introduce_self N ty _),
          .crossReference _ category name.text, ?_⟩
        intro rest stops
        have cross := @reads_crossReference (reference depth) category _ identifier rest
        have read := @reads_introduced depth (N.allocate ty).1 _ _ _ _ cross
        simpa [Token.text] using read
      | @defined _ _ node known unsettled clear =>
        have number := grows.number? (more.grows.number?
          (Numbering.number?_introduce_self N ty .defined))
        have sound' : Sound types (N.introduce ty .defined) :=
          sound.introduce known nofun nofun fun _ => crossReference?_true clear
        rw [List.cons_append, List.cons_append, List.nil_append, chars_token, chars_token,
          toList_number, toList_equals] at len ⊢
        have digits := @Nat.length_toDigits_pos 10 (N.allocate ty).1.value
        simp only [List.length_append, List.length_cons] at len
        obtain ⟨content, contents, numbered, tells, reads⟩ := readsBody_layout ih named int char
          known number tail sound' grows (by omega)
        refine ⟨_, _, number, tells.definition (tail.calm (plain_layout _ _ _)) number known
          numbered, ?_⟩
        intro rest stops
        exact reads_introduced (reads rest stops)

end Stabs.Readback
