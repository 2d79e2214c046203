import Stabs.Proofs.Description.Cuts
import Stabs.Proofs.Listing.Reader
import Stabs.Proofs.Unit.Declarations
import Stabs.Proofs.Unit.Names

/-!
# The listing of a unit

The text of a unit is read back if its names and assembler symbols hold no quotes and no line feeds.
Every token of a description is a name of the unit between fixed signs, and ends in one of these
signs, whatever the name; so a description never ends in a backslash.
-/
namespace Stabs

/-- The names in a token are among the given ones, and it says nothing else that is free. -/
def Token.Says (names : List String) : Token → Prop
  | heading _ _ => False
  | crossReference _ name => name ∈ names
  | member name => name ∈ names
  | enumerator name _ => name ∈ names
  | raw _ => False
  | _ => True

namespace Listing

open TypeDescription Readback

variable {names : List String} {t : Token} {ty : TypeId} {n : TypeNumber} {node : TypeNode}

theorem says_of_separated {α : Type} {item : α → List Piece} {l : List α}
    (h : ∀ a ∈ l, ∀ t, .token t ∈ item a → t.Says names) (mem : .token t ∈ separated item l) :
    t.Says names := by
  obtain ⟨a, inList, mem⟩ := exists_of_mem_separated mem nofun
  exact h a inList t mem

theorem says_of_aggregate {category : Aggregate} {size : Option UInt64} {fields : List Field}
    (parts : fields.filterMap Field.name ⊆ names)
    (mem : .token t ∈ aggregateLayout category size fields) : t.Says names := by
  simp only [aggregateLayout, List.mem_cons, List.mem_append, List.not_mem_nil, or_false] at mem
  rcases mem with e | mem | e
  · cases e
    trivial
  · refine says_of_separated (fun member inFields t mem => ?_) mem
    simp only [memberPieces, List.mem_cons, List.not_mem_nil, or_false] at mem
    rcases mem with e | e | e <;> cases e
    · exact parts (mem_names_of_namedFields inFields)
    · trivial
  · cases e
    trivial

/-- The body of a type says the names of its parts. -/
theorem says_of_layout (mem : .token t ∈ layout ty n node) : t.Says node.names := by
  have parts : node.kind.partNames ⊆ node.names := List.subset_append_right _ _
  unfold layout at mem
  cases hk : node.kind with
  | record fields =>
    rw [hk] at parts
    simp only [hk] at mem
    exact says_of_aggregate parts mem
  | union fields =>
    rw [hk] at parts
    simp only [hk] at mem
    exact says_of_aggregate parts mem
  | enumeration values =>
    rw [hk] at parts
    simp only [hk, List.mem_cons, List.mem_append, List.not_mem_nil, or_false] at mem
    rcases mem with e | mem | e
    · cases e
      trivial
    · refine says_of_separated (fun v inList t mem => ?_) mem
      cases List.mem_singleton.1 mem
      exact parts (List.mem_map_of_mem inList)
    · cases e
      trivial
  | integer min max =>
    simp only [hk, List.mem_singleton] at mem
    cases mem
    unfold integerRange
    split <;> trivial
  | real =>
    simp only [hk] at mem
    split at mem <;> cases List.mem_singleton.1 mem
    trivial
  | array element length =>
    simp only [hk] at mem
    split at mem
    · simp only [List.mem_cons, List.not_mem_nil, or_false] at mem
      rcases mem with e | e <;> cases e
      trivial
    · cases List.mem_singleton.1 mem
  | void =>
    simp only [hk, List.mem_singleton] at mem
    cases mem
    trivial
  | pointer target =>
    simp only [hk, List.mem_cons, List.not_mem_nil, or_false] at mem
    rcases mem with e | e <;> cases e
    trivial
  | function returns =>
    simp only [hk, List.mem_cons, List.not_mem_nil, or_false] at mem
    rcases mem with e | e <;> cases e
    trivial

variable {types : TypeTable} {N M : Numbering} {p : Piece} {pending body left : List Piece}
  {ms : List Mark}

theorem says_of_expands (h : Expands types N p ms M body)
    (table : ∀ ty node, types.get? ty = some node → node.names ⊆ names)
    (own : ∀ t, p = .token t → t.Says names) :
    (∀ t, .token t ∈ ms → t.Says names) ∧ ∀ t, .token t ∈ body → t.Says names := by
  cases h with
  | mark m => exact ⟨fun t mem => own t (List.mem_singleton.1 mem ▸ rfl), by simp⟩
  | unknown => simp
  | settled => simp [Token.Says]
  | @crossReferenced ty _ node category name known _ _ named =>
    have mem : name.text ∈ node.names := by simp [TypeNode.names, named]
    simp [Token.Says, table ty node known mem]
  | unnamed => simp [Token.Says]
  | @defined ty _ node known =>
    refine ⟨by simp [Token.Says], fun t mem => ?_⟩
    have said := says_of_layout mem
    cases t with
    | crossReference => exact table ty node known said
    | member => exact table ty node known said
    | enumerator => exact table ty node known said
    | heading => exact said
    | raw => exact said
    | _ => trivial

/-- A description says names of the type table. -/
theorem says_of_steps (h : Steps types N pending ms M left)
    (table : ∀ ty node, types.get? ty = some node → node.names ⊆ names)
    (waiting : ∀ t, .token t ∈ pending → t.Says names) : ∀ t, .token t ∈ ms → t.Says names := by
  induction h with
  | refl => simp
  | @cons N M N' p pending body left ms rest first more ih =>
    obtain ⟨written, inBody⟩ := says_of_expands first table fun t e =>
      waiting t (e ▸ List.mem_cons_self)
    have behind := ih fun t mem => (List.mem_append.1 mem).elim (inBody t) fun mem =>
      waiting t (List.mem_cons_of_mem _ mem)
    exact fun t mem => (List.mem_append.1 mem).elim (written t) (behind t)

theorem notMem_digits {c : Char} (other : c.isDigit = false) (n : Nat) :
    c ∉ Nat.toDigits 10 n := by
  intro mem
  rw [isDigit_toDigits n c mem] at other
  cases other

theorem notMem_integer {c : Char} (other : c.isDigit = false) (sign : c ≠ '-') (i : Int) :
    c ∉ i.repr.toList := by
  cases i with
  | ofNat n => simpa [Int.repr] using notMem_digits other n
  | negSucc n => simpa [Int.repr, sign] using notMem_digits other (n + 1)

/-- The signs around the names in a token are no quotes and no line feeds. -/
theorem quotable_text (said : t.Says names) (plain : ∀ name ∈ names, Quotable name.toList) :
    Quotable t.text.toList := by
  have digits (n : Nat) : Quotable (Nat.toDigits 10 n) :=
    ⟨notMem_digits rfl n, notMem_digits rfl n⟩
  have integer (i : Int) : Quotable i.repr.toList :=
    ⟨notMem_integer rfl (by decide) i, notMem_integer rfl (by decide) i⟩
  have letter (category : Aggregate) : Quotable category.letter.toList := by
    cases category <;> simp [Quotable, Aggregate.letter]
  unfold Quotable at *
  cases t with
  | heading => exact said.elim
  | raw => exact said.elim
  | crossReference category name => simp [Token.text, plain name said, letter]
  | member name => simp [Token.text, plain name said]
  | enumerator name value => simp [Token.text, plain name said, integer]
  | _ => simp [Token.text, digits, integer, letter]

/-- A token ends in a digit, a letter or a sign of its own. -/
theorem last_text (said : t.Says names) : t.text.toList.getLast? ≠ some '\\' := by
  have digits (n : Nat) : (Nat.toDigits 10 n).getLast? ≠ some '\\' :=
    fun last => notMem_digits rfl n (List.mem_of_getLast? last)
  cases t with
  | heading => exact said.elim
  | raw => exact said.elim
  | number n => simpa [Token.text] using digits n.value
  | itself n => simpa [Token.text] using digits n.value
  | aggregate category size => simpa [Token.text] using digits size
  | _ => simp [Token.text, List.getLast?_cons]

/-- Text for quotes that does not end in a backslash. -/
structure Sealed (text : List Char) : Prop where
  quotable : Quotable text
  last : text.getLast? ≠ some '\\'

theorem Sealed.append {a b : List Char} (ha : Sealed a) (hb : Sealed b) : Sealed (a ++ b) := by
  refine ⟨ha.quotable.append hb.quotable, ?_⟩
  have last := hb.last
  rw [List.getLast?_append]
  cases e : b.getLast? with
  | none => exact ha.last
  | some c =>
    rw [e] at last
    exact last

theorem sealed_nil : Sealed [] := ⟨⟨List.not_mem_nil, List.not_mem_nil⟩, nofun⟩

theorem sealed_segment {segment : Segment} (h : ∀ t ∈ segment, Sealed t.text.toList) :
    Sealed (Segment.text segment).toList := by
  induction segment with
  | nil => exact sealed_nil
  | cons t segment ih =>
    rw [Segment.text, List.map_cons, String.join_cons, String.toList_append]
    exact (h t List.mem_cons_self).append (ih fun t mem => h t (List.mem_cons_of_mem _ mem))

/-- Every part of a description is sealed, wherever it is cut. -/
theorem plain_segments {code : Code} {value : Placement} {segment : Segment} {marks : List Mark}
    (inline : '\n' ∉ value.text.toList) (front : ∀ t ∈ segment, Sealed t.text.toList)
    (behind : ∀ t, .token t ∈ marks → Sealed t.text.toList) :
    ∀ record ∈ segments code value segment marks, record.Plain := by
  have plain {segment : Segment} {continued : Bool} (h : ∀ t ∈ segment, Sealed t.text.toList) :
      (Record.symbol segment code value continued).Plain :=
    ⟨(sealed_segment h).quotable, inline, fun _ => (sealed_segment h).last⟩
  induction marks generalizing segment with
  | nil =>
    intro record mem
    cases List.mem_singleton.1 mem
    exact plain front
  | cons m marks ih =>
    have rest : ∀ t, .token t ∈ marks → Sealed t.text.toList :=
      fun t mem => behind t (List.mem_cons_of_mem _ mem)
    cases m with
    | token t =>
      refine ih (fun u mem => ?_) rest
      rcases List.mem_append.1 mem with mem | mem
      · exact front u mem
      · exact List.mem_singleton.1 mem ▸ behind t List.mem_cons_self
    | safePoint =>
      rw [segments]
      split
      · exact List.forall_mem_cons.2 ⟨plain front, ih (fun t mem => absurd mem List.not_mem_nil) rest⟩
      · exact ih front rest

variable {u : CompilationUnit} {target : Target} {c c' : Context} {task : Task}
  {entries : List Entry}

/-- The heading of a symbol ends in a colon or a letter. -/
theorem sealed_heading {symbol : Symbol} {addresses : List String}
    (drawn : symbol.DrawnFrom names addresses) (plain : ∀ name ∈ names, Quotable name.toList) :
    Sealed symbol.heading.text.toList := by
  have name := plain _ drawn.name
  unfold Symbol.heading
  cases hl : symbol.letter with
  | none => exact ⟨by simpa [Quotable, Token.text] using name, by simp [Token.text]⟩
  | some letter =>
    have signs : ∀ c ∈ Symbol.letters, '"' ≠ c ∧ '\n' ≠ c ∧ c ≠ '\\' := by
      simp [Symbol.letters]
    obtain ⟨quote, feed, backslash⟩ := signs letter (drawn.letter letter hl)
    exact ⟨by simpa [Quotable, Token.text, quote, feed] using name,
      by simpa [Token.text] using backslash⟩

/-- A unit whose names and assembler symbols are quotable. -/
def Tame (u : CompilationUnit) (target : Target) : Prop :=
  ∀ text ∈ u.sourceFile :: target.textLabel :: (u.names ++ u.addresses), Quotable text.toList

instance : Decidable (Tame u target) :=
  inferInstanceAs (Decidable (∀ text ∈ _, _ ∧ _))

/-- No declaration has a source file for its task. -/
theorem eq_of_sourceFile_mem {path label : String}
    (mem : .sourceFile path label ∈ Task.ofUnit u target) :
    path = u.sourceFile ∧ label = target.textLabel := by
  cases Task.origin_of_mem mem with
  | sourceFile => exact ⟨rfl, rfl⟩
  | tag _ h => exact absurd rfl (Task.ofTag_ne_sourceFile h)
  | declaration _ h => exact absurd rfl (Task.ofChoice_ne_sourceFile h)
  | parameter _ h => exact absurd rfl (Task.ofChoice_ne_sourceFile h)
  | registerParameter _ h => exact absurd rfl (Task.ofChoice_ne_sourceFile h)

/-- Everything that a unit of quotable names writes is plain. -/
theorem plain_acts (tame : Tame u target) (mem : task ∈ Task.ofUnit u target)
    (h : Acts u.types c task entries c') : ∀ entry ∈ entries, ∀ record ∈ entry.records,
      record.Plain := by
  have names : ∀ name ∈ u.names, Quotable name.toList := fun name mem =>
    tame name (List.mem_cons_of_mem _ (List.mem_cons_of_mem _ (List.mem_append_left _ mem)))
  have label (head : String) (n : Nat) (plain : '\n' ∉ head.toList) :
      '\n' ∉ (head ++ n.repr).toList := by
    simpa [plain] using notMem_digits rfl n
  intro entry inEntries record inRecord
  cases h with
  | @described _ symbol marks N due steps =>
    cases List.mem_singleton.1 inEntries
    have drawn := Task.drawn_of_due mem due
    have said := says_of_steps steps
      (fun ty node known name mem => CompilationUnit.mem_names_of_node known mem) (by simp)
    refine plain_segments ?_ (fun t mem => List.mem_singleton.1 mem ▸ sealed_heading drawn names)
      (fun t mem => ⟨quotable_text (said t mem) names, last_text (said t mem)⟩) record inRecord
    cases value : symbol.value with
    | number n => exact notMem_integer rfl (by decide) n
    | address label =>
      have known := drawn.address label value
      exact (tame label (List.mem_cons_of_mem _ (List.mem_cons_of_mem _
        (List.mem_append_right _ known)))).2
  | typedefOut => cases inEntries
  | tagOut => cases inEntries
  | sourceFile =>
    cases List.mem_singleton.1 inEntries
    cases List.mem_singleton.1 inRecord
    have path := tame u.sourceFile List.mem_cons_self
    have text := tame target.textLabel (List.mem_cons_of_mem _ List.mem_cons_self)
    obtain ⟨rfl, rfl⟩ := eq_of_sourceFile_mem mem
    exact ⟨path, text⟩
  | enter =>
    cases List.mem_singleton.1 inEntries
    cases List.mem_singleton.1 inRecord
    exact label "LBB" _ (by decide)
  | leave =>
    cases List.mem_singleton.1 inEntries
    cases List.mem_singleton.1 inRecord
    exact label "LBE" _ (by decide)

theorem plain_records {tasks : List Task} {journal : List Entry} (tame : Tame u target)
    (tasksOf : ∀ task ∈ tasks, task ∈ Task.ofUnit u target)
    (h : Performs u.types c tasks journal c') :
    ∀ record ∈ journal.flatMap Entry.records, record.Plain := by
  intro record mem
  obtain ⟨entry, written, inside⟩ := List.mem_flatMap.1 mem
  exact h.forall_entries (fun entry => ∀ record ∈ entry.records, record.Plain)
    (fun task mem => plain_acts tame (tasksOf task mem)) entry written record inside

end Listing

/-- A consumer of the assembler text recovers the records. If the source file, the text label, the
names and the assembler symbols of a unit hold no quotes and no line feeds, its text has one line
for every record. The first line gives the path and the label of the source file. All others, with
a symbol line joined to the next one wherever its quoted text ends in two backslashes, give the
whole text of every description with its code and value, and the markers, in their order. No
description ends in a backslash, so none is joined with the one behind it. -/
theorem Writer.generate_read {writer after : Writer} {u : CompilationUnit} {text : String}
    (h : writer.generate u = (.ok text, after)) (tame : Listing.Tame u writer.target) :
    ∃ records, writer.describe u =
        (.ok (.sourceFile u.sourceFile writer.target.textLabel :: records), after) ∧
      (Listing.lines text.toList).length = records.length + 1 ∧
        Listing.read text = some
          { path := u.sourceFile.toList
            label := writer.target.textLabel.toList
            findings := Record.findings [] records } ∧
          ∀ segment code value, .symbol segment code value false ∈ records →
            (Segment.text segment).toList.getLast? ≠ some '\\' := by
  unfold generate at h
  cases run : writer.describe u with
  | mk result left =>
    rw [run] at h
    cases result with
    | error cause => cases h
    | ok all =>
      cases h
      obtain ⟨middle, last, prelude, entries, -, front, items, -, rfl, -⟩ := describe_parts run
      obtain ⟨typedefs, e, symbols, -⟩ := front.writesPrelude.1.typedefs
      have first := Listing.plain_records tame (fun task => List.mem_append_left _) front
      have second := Listing.plain_records tame (fun task => List.mem_append_right _) items
      have records : (prelude ++ entries).flatMap Entry.records =
          .sourceFile u.sourceFile writer.target.textLabel ::
            (typedefs ++ entries.flatMap Entry.records) := by
        rw [List.flatMap_append, e, List.cons_append]
      have plain : ∀ record ∈ (prelude ++ entries).flatMap Entry.records, record.Plain := by
        rw [List.flatMap_append]
        exact List.forall_mem_append.2 ⟨first, second⟩
      have other : ∀ path label,
          .sourceFile path label ∉ typedefs ++ entries.flatMap Entry.records := by
        intro path label mem
        rcases List.mem_append.1 mem with mem | mem
        · cases symbols _ mem
        · obtain ⟨entry, written, inside⟩ := List.mem_flatMap.1 mem
          exact items.forall_entries (.sourceFile path label ∉ ·.records)
            (fun task mem => Acts.sourceFile_notMem (Task.ofItems_ne_sourceFile mem)) entry written
            inside
      rw [records] at plain ⊢
      refine ⟨_, rfl, ?_, Listing.read_renderAll plain other, fun segment code value mem => ?_⟩
      · rw [Listing.lines_renderAll plain, List.length_map, List.length_cons]
      · exact (plain _ (List.mem_cons_of_mem _ mem)).2.2 rfl

namespace Samples

/-- A record with a long description, all of its names ending in backslashes. -/
def backslashes : CompilationUnit where
  sourceFile := "dir\\"
  types := table [
    { kind := .record ((List.range 6).map fun i =>
        ⟨some ("configuration_field_" ++ i.repr ++ "\\\\"), .int, (i * 32).toUInt64, 32⟩)
      name := some (.tag "settings\\\\"), size := some 24 }]
  tags := [⟨some "settings\\\\", ⟨3⟩⟩]
  items := [.symbol (.ofGlobal "current\\\\" ⟨3⟩ true "_current")]

/-- One of the five descriptions is cut, and only that one is joined. -/
theorem backslashes_read : ∃ text after listing,
    (Writer.ofTarget {}).generate backslashes = (.ok text, after) ∧
      Listing.read text = some listing ∧ listing.path = "dir\\".toList ∧
        listing.findings.length = 5 ∧ (Listing.lines text.toList).length = 7 := by
  have run : ((Writer.ofTarget {}).generate backslashes).1.toOption.isSome = true := by
    decide +kernel
  have sizes : ((Writer.ofTarget {}).describe backslashes).1.toOption.map
      (fun records => (records.length, (Record.findings [] records).length)) = some (7, 5) := by
    decide +kernel
  cases h : (Writer.ofTarget {}).generate backslashes with
  | mk result after =>
    rw [h] at run
    cases result with
    | error cause => cases run
    | ok text =>
      obtain ⟨records, described, lines, read, -⟩ := Writer.generate_read h (by decide +kernel)
      rw [described] at sizes
      obtain ⟨length, count⟩ := Prod.mk.inj (Option.some.inj sizes)
      exact ⟨text, after, _, rfl, read, rfl, count, lines.trans length⟩

end Samples

end Stabs
