import Stabs.Proofs.Interchange.Checking
import Stabs.Proofs.Interchange.Unit
import Stabs.Samples

/-!
# Every layout of a unit

A unit is read from any layout of its JSON form, with any white space and any escapes. A draft
behind some members depends only on which keys were among them, so the order of the members does
not matter.
-/
namespace Stabs

open Json

namespace InOrder

variable {α σ : Type} {read : InOrder α} {write : α → Json} {depth : Nat} {key : String} {a : α}
  {v w : Json} {fields members met rest : List (String × Json)}

/-- Every layout of a value that is not nested too deep is read as `a`. -/
def Accepts (read : InOrder α) (depth : Nat) (v : Json) (a : α) : Prop :=
  ∀ w, Rearranged v w → w.depth ≤ depth → read depth (.ofJson w) = .ok a

theorem content_ofJson (shallow : v.depth ≤ depth) : content depth (.ofJson v) = .ok v := by
  rw [reads_content depth v, if_pos shallow]

theorem ignored_stray (h : Stray v) : ignored depth (.ofJson v) = .ok () := by
  cases h <;> rfl

theorem Accepts.scalar {look : Json → Option α} (flat : v.depth = 0) (h : look v = some a) :
    Accepts (scalar look) depth v a := by
  intro w layout _
  rw [layout.eq_of_flat flat, scalar_ofJson flat, h]
  rfl

theorem Accepts.nullable (h : ∀ a, Accepts read depth (write a) a) (filled : ∀ a, write a ≠ .null)
    (a : Option α) : Accepts (nullable read) depth (Json.nullable write a) a := by
  intro w layout shallow
  cases a with
  | none =>
    rw [layout.eq_of_flat rfl]
    rfl
  | some a =>
    have present : w ≠ .null := by
      rintro rfl
      exact filled a layout.eq_null
    have some_ofJson : InOrder.nullable read depth (.ofJson w) =
        (read depth (.ofJson w)).map some := by
      cases w <;> first | rfl | exact absurd rfl present
    rw [some_ofJson, h a w layout shallow]
    rfl

theorem Accepts.list (h : ∀ a, Accepts read (depth - 1) (write a) a) (as : List α) :
    Accepts (list read) depth (.array (as.map write)) as := by
  intro w layout shallow
  obtain ⟨ws, rfl, layouts⟩ := layout.exists_elements
  rw [Json.depth] at shallow
  have each : (Reading.ofJsons ws).mapM (read (depth - 1)) = .ok as := by
    have inside : depthAll ws ≤ depth - 1 := by omega
    clear layout shallow
    induction as generalizing ws with
    | nil =>
      cases layouts
      rfl
    | cons a as ih =>
      obtain _ | ⟨layout, layouts⟩ := layouts
      rw [depthAll_cons_le] at inside
      simp [Reading.ofJsons, h a _ layout inside.1, ih _ layouts inside.2, pure, Except.pure]
  simp only [Reading.ofJson, InOrder.list, each]
  rfl

theorem accepts_text (s : String) : Accepts (scalar asText?) depth (.string s) s :=
  .scalar rfl rfl

theorem accepts_nullableText (s : Option String) :
    Accepts (nullable (scalar asText?)) depth (Json.nullable .string s) s :=
  .nullable accepts_text (by simp) s

theorem accepts_nullableUInt64 (n : Option UInt64) :
    Accepts (nullable (scalar asUInt64?)) depth (Json.nullable (fun n => .nat n.toNat) n) n :=
  .nullable (fun n => .scalar rfl (asUInt64?_toNat n)) (by simp) n

theorem accepts_typeId (ty : TypeId) : Accepts (scalar TypeId.ofJson?) depth ty.toJson ty :=
  .scalar rfl (restores_typeId ty)

/-! ## Drafts -/

theorem depth_le_of_mem {m : String × Json} (h : m ∈ members) :
    m.2.depth ≤ depthMembers members := by
  induction members with
  | nil => cases h
  | cons first rest ih =>
    rw [depthMembers]
    rcases List.mem_cons.mp h with rfl | h
    · exact Nat.le_max_left _ _
    · exact Nat.le_trans (ih h) (Nat.le_max_right _ _)

/-- When the draft behind each member is the one of the members up to there, this is so behind the
last of them. -/
theorem addMembers_drafts {add : σ → String → Reading → Except UnitError σ}
    {draft : List (String × Json) → σ}
    (step : ∀ met m rest, members = met ++ m :: rest →
      add (draft met) m.1 (.ofJson m.2) = .ok (draft (met ++ [m]))) :
    addMembers add (draft []) (Reading.ofMembers members) = .ok (draft members) := by
  have from_met : ∀ rest met, members = met ++ rest →
      addMembers add (draft met) (Reading.ofMembers rest) = .ok (draft members) := by
    intro rest
    induction rest with
    | nil =>
      rintro met rfl
      simp
    | cons m rest ih =>
      intro met split
      rw [addMembers_cons, step met m rest split, ok_bind, ih (met ++ [m]) (by simp [split])]
  exact from_met members [] rfl

/-- A record is read from all its layouts if the draft behind some of the members can be told from
these members, and the one behind all of them is finished as `a`. -/
theorem accepts_record {record : Fields σ α} (draft : List (String × Json) → σ)
    (opened : ∀ members, read depth (.ofJson (.object members)) =
      addMembers (record.add (depth - 1)) record.start (Reading.ofMembers members) >>=
        record.finish)
    (start : draft [] = record.start)
    (step : ∀ members met key w rest, (∀ field ∈ fields, Stands fields members field) →
      (key ∉ fields.map Prod.fst → Stray w) → members = met ++ (key, w) :: rest →
      w.depth ≤ depth - 1 →
      record.add (depth - 1) (draft met) key (.ofJson w) = .ok (draft (met ++ [(key, w)])))
    (finish : ∀ members, (∀ field ∈ fields, Stands fields members field) →
      record.finish (draft members) = .ok a) :
    Accepts read depth (.object fields) a := by
  intro w layout shallow
  obtain ⟨members, rfl, known, unknown⟩ := layout.exists_members
  rw [Json.depth] at shallow
  have added : addMembers (record.add (depth - 1)) (draft []) (Reading.ofMembers members) =
      .ok (draft members) := by
    refine addMembers_drafts fun met m rest split => ?_
    have mem : m ∈ members := by simp [split]
    have inside := depth_le_of_mem mem
    exact step members met m.1 m.2 rest known (unknown m mem) split (by omega)
  rw [opened, ← start, added, ok_bind, finish members known]

/-! ## Places -/

/-- The place of a draft for a field: it is filled once a member of the key has been met. -/
def place (key : String) (a : α) (met : List (String × Json)) : Option α :=
  (valuesAt met key).head?.map fun _ => a

@[simp] theorem place_nil : place key a [] = none := rfl

@[simp] theorem place_other {name : String} (h : name ≠ key) :
    place key a (met ++ [(name, w)]) = place key a met := by
  simp [place, h]

theorem place_eq (key : String) (a : α) (met : List (String × Json)) :
    place key a met = none ∨ place key a met = some a := by
  rw [place]
  cases valuesAt met key <;> simp

/-- A known member is the only one of its key: its place was free before and is filled behind. -/
theorem place_known (a : α) (stands : Stands fields members (key, v))
    (split : members = met ++ (key, w) :: rest) :
    Rearranged v w ∧ place key a met = none ∧ place key a (met ++ [(key, w)]) = some a := by
  have found : valuesAt members key = valuesAt met key ++ w :: valuesAt rest key := by
    simp [split]
  cases stands with
  | once here layout =>
    simp only [here, List.singleton_eq_append_iff, reduceCtorEq, and_false, or_false,
      List.cons.injEq] at found
    obtain ⟨before, rfl, -⟩ := found
    simp [place, before, layout]
  | leftOut nowhere => simp [nowhere] at found

theorem fill_place (stands : Stands fields members (key, v))
    (split : members = met ++ (key, w) :: rest) (shallow : w.depth ≤ depth)
    (h : Accepts read depth v a) :
    fill (place key a met) read depth (.ofJson w) = .ok (place key a (met ++ [(key, w)])) := by
  obtain ⟨layout, free, filled⟩ := place_known a stands split
  rw [free, filled, fill_none, h w layout shallow, ok_map]

section Finished

variable (stands : Stands fields members (key, v))

include stands

theorem place_required (a : α) (needed : ¬ Omissible fields (key, v)) :
    place key a members = some a := by
  cases stands with
  | once here => simp [place, here]
  | leftOut _ omissible => exact absurd omissible needed

theorem place_default (a absent : α) (default : Omissible fields (key, v) → a = absent) :
    (place key a members).getD absent = a := by
  cases stands with
  | once here => simp [place, here]
  | leftOut nowhere omissible => simp [place, nowhere, default omissible]

end Finished

theorem place_nullable {a : Option α} (stands : Stands fields members (key, Json.nullable write a))
    (noDefault : ∀ d ∈ defaults, d.1 ≠ key) (filled : ∀ a, write a ≠ .null) :
    (place key a members).join = a := by
  cases stands with
  | once here => simp [place, here]
  | leftOut nowhere omissible =>
    cases a with
    | none => simp [place, nowhere]
    | some a => exact absurd omissible (not_omissible (filled a) noDefault)

end InOrder

open InOrder

namespace TypeName

/-- The draft of a name, told from its two places. -/
def Draft.ofPlaces : Option (String → TypeName) → Option String → Draft
  | none, none => .empty
  | some named, none => .kind named
  | none, some text => .content (.string text)
  | some named, some text => .full (named text)

theorem Draft.add_other {key : String} (h : key ≠ "by" ∧ key ≠ "name") (depth : Nat)
    (draft : Draft) (r : Reading) :
    draft.add depth key r = (ignored depth r).map fun _ => draft := by
  cases draft <;> simp [Draft.add, h] <;> rfl

theorem accepts_named {word : String} {named : String → TypeName} (h : ofWord? word = some named)
    (text : String) (depth : Nat) :
    Accepts inOrder depth (.object [("by", .string word), ("name", .string text)])
      (named text) := by
  have kind (depth : Nat) : kindInOrder depth (.ofJson (.string word)) = .ok named := by
    have read := @scalar_ofJson _ (fun v => v.asText?.bind ofWord?) (.string word) rfl depth
    simpa [kindInOrder, Reading.ofJson, asText?, h, orShape] using read
  have content (depth : Nat) : content depth (.ofJson (.string text)) = .ok (.string text) :=
    content_ofJson (Nat.zero_le _)
  have name (depth : Nat) : scalar asText? depth (.ofJson (.string text)) = .ok text :=
    accepts_text text _ (.flat rfl) (Nat.zero_le _)
  refine accepts_record (fun met => .ofPlaces (place "by" named met) (place "name" text met))
    (fun _ => rfl) rfl ?_ ?_
  · intro members met key w rest known unknown split shallow
    simp only [List.forall_mem_cons] at known
    by_cases way : key = "by"
    · subst way
      obtain ⟨layout, free, filled⟩ := place_known named known.1 split
      cases layout.eq_of_flat rfl
      rw [free, filled, place_other (by decide)]
      obtain other | other := place_eq "name" text met <;>
        simp [other, Draft.ofPlaces, Draft.add, kind, pure, Except.pure, orShape, asText?]
    by_cases named : key = "name"
    · subst named
      obtain ⟨layout, free, filled⟩ := place_known text known.2.1 split
      cases layout.eq_of_flat rfl
      rw [free, filled, place_other (by decide)]
      obtain other | other := place_eq "by" named met <;>
        simp [other, Draft.ofPlaces, Draft.add, content, name, pure, Except.pure]
    · have stray := unknown (by simp [way, named])
      rw [place_other way, place_other named]
      simp [Draft.add_other ⟨way, named⟩, ignored_stray stray]
  · intro members known
    simp only [List.forall_mem_cons] at known
    have way := place_required known.1 named (by simp)
    have text := place_required known.2.1 text (by simp)
    simp [way, text, Draft.ofPlaces, Draft.finish]

theorem accepts (name : TypeName) (depth : Nat) : Accepts inOrder depth name.toJson name := by
  cases name with
  | tag text => exact accepts_named rfl text depth
  | typedef text => exact accepts_named rfl text depth

end TypeName

/-- The members of a node that are left for its category. -/
def TypeNode.others (members : List (String × Json)) : List (String × Json) :=
  without (without members "name") "size"

theorem TypeNode.accepts (node : TypeNode) (depth : Nat) :
    Accepts inOrder depth node.toJson node := by
  refine accepts_record
    (fun met => ⟨place "name" node.name met, place "size" node.size met, (others met).reverse⟩)
    (fun _ => rfl) rfl ?_ ?_
  · intro members met key w rest known unknown split shallow
    simp only [List.forall_mem_append, List.forall_mem_cons] at known
    obtain ⟨-, nameStands, sizeStands, -⟩ := known
    by_cases name : key = "name"
    · subst name
      have named := Accepts.nullable (TypeName.accepts · (depth - 1)) (by simp) node.name
      have filled := fill_place nameStands split shallow named
      simp [Draft.add, filled, others, without, pure, Except.pure]
    by_cases size : key = "size"
    · subst size
      have filled := fill_place sizeStands split shallow (accepts_nullableUInt64 _)
      simp [Draft.add, filled, others, without, pure, Except.pure]
    · simp [Draft.add_kept ⟨name, size⟩, content_ofJson shallow, name, size, others, without]
  · intro members known
    simp only [List.forall_mem_append, List.forall_mem_cons] at known
    obtain ⟨category, name, size, -⟩ := known
    have name := place_nullable name (by decide) (by simp)
    have size := place_nullable size (by decide) (by simp)
    have category := TypeKind.finds fun field mem =>
      ((category field mem).without (node.key_category field mem).1).without
        (node.key_category field mem).2
    rw [← others] at category
    simp [Draft.finish, name, size, category, orShape, pure, Except.pure]

theorem TypeTable.accepts (types : TypeTable) (depth : Nat) :
    Accepts inOrder depth types.toJson types := by
  intro w layout shallow
  have nodes := Accepts.list (TypeNode.accepts · (depth - 1)) types.nodes.toList w layout shallow
  rw [inOrder, nodes, ok_bind, ofNodes_nodes]
  rfl

theorem Tag.accepts (tag : Tag) (depth : Nat) : Accepts inOrder depth tag.toJson tag := by
  refine accepts_record (fun met => ⟨place "name" tag.name met, place "ty" tag.ty met⟩)
    (fun _ => rfl) rfl ?_ ?_
  · intro members met key w rest known unknown split shallow
    simp only [List.forall_mem_cons] at known
    by_cases name : key = "name"
    · subst name
      simp [Draft.add, fill_place known.1 split shallow (accepts_nullableText _)]
    by_cases ty : key = "ty"
    · subst ty
      simp [Draft.add, fill_place known.2.1 split shallow (accepts_typeId _)]
    · have stray := unknown (by simp [name, ty])
      simp [Draft.add, name, ty, ignored_stray stray]
  · intro members known
    simp only [List.forall_mem_cons] at known
    have name := place_nullable known.1 (by decide) (by simp)
    have ty := place_required known.2.1 tag.ty (by simp)
    simp [Draft.finish, name, ty, orShape]

namespace Item

theorem accepts_content {name : String} {ms : List (String × Json)} {item : Item}
    (variant : asVariantName? (.string name) = some name) (keys : ∀ m ∈ ms, m.1 ≠ "item")
    (content : ∀ {fields members}, (∀ field ∈ ms, Stands fields members field) →
      ofContent? name (.object members) = some item) (depth : Nat) :
    Accepts inOrder depth (.object (("item", .string name) :: ms)) item := by
  refine accepts_record (fun met => ⟨place "item" name met, (without met "item").reverse⟩)
    (fun _ => rfl) rfl ?_ ?_
  · intro members met key w rest known unknown split shallow
    obtain ⟨stands, -⟩ := List.forall_mem_cons.mp known
    by_cases item : key = "item"
    · subst item
      have filled := fill_place stands split shallow (.scalar rfl variant)
      simp [Draft.add, filled, without, pure, Except.pure]
    · simp [Draft.add_kept item, content_ofJson shallow, item, without]
  · intro members known
    obtain ⟨stands, known⟩ := List.forall_mem_cons.mp known
    have name := place_required stands name (by simp)
    have content := content fun field mem => (known field mem).without (keys field mem)
    simp [Draft.finish, name, content, orShape]

theorem accepts (item : Item) (depth : Nat) : Accepts inOrder depth item.toJson item := by
  cases item with
  | symbol decl =>
    refine accepts_content rfl decl.key_ne_item (fun known => ?_) depth
    rw [ofContent?, Declaration.finds_members known]
    rfl
  | function definition =>
    refine accepts_content rfl (by simp [FunctionDefinition.toMembers]) (fun known => ?_) depth
    rw [ofContent?, FunctionDefinition.finds_members known]
    rfl

end Item

theorem CompilationUnit.accepts (u : CompilationUnit) (depth : Nat) :
    Accepts inOrder depth u.toJson u := by
  refine accepts_record
    (fun met => ⟨place "source_file" u.sourceFile met, place "types" u.types met,
      place "tags" u.tags met, place "items" u.items met⟩)
    (fun _ => rfl) rfl ?_ ?_
  · intro members met key w rest known unknown split shallow
    simp only [List.forall_mem_cons] at known
    obtain ⟨sourceFileStands, typesStand, tagsStand, itemsStand, -⟩ := known
    by_cases sourceFile : key = "source_file"
    · subst sourceFile
      simp [Draft.add, fill_place sourceFileStands split shallow (accepts_text _)]
    by_cases types : key = "types"
    · subst types
      simp [Draft.add, fill_place typesStand split shallow (u.types.accepts _)]
    by_cases tags : key = "tags"
    · subst tags
      simp [Draft.add, fill_place tagsStand split shallow (.list (Tag.accepts · _) _)]
    by_cases items : key = "items"
    · subst items
      simp [Draft.add, fill_place itemsStand split shallow (.list (Item.accepts · _) _)]
    · have stray := unknown (by simp [sourceFile, types, tags, items])
      simp [Draft.add, sourceFile, types, tags, items, ignored_stray stray]
  · intro members known
    simp only [List.forall_mem_cons] at known
    obtain ⟨sourceFile, types, tags, items, -⟩ := known
    have sourceFile := place_required sourceFile u.sourceFile (by simp)
    have types := place_required types u.types (by simp [TypeTable.toJson])
    have tags := place_default tags u.tags [] (by simp)
    have items := place_default items u.items [] (by simp)
    simp [Draft.finish, sourceFile, types, tags, items, orShape]

/-- A unit is read from every layout of its JSON form: with the members of every object in any
order, without fields that are `null` or hold their default, with members that nobody knows, and in
any spelling. -/
theorem CompilationUnit.parse_rearranged (u : CompilationUnit) {v : Json} {text : String}
    (layout : Rearranged u.toJson v) (spelled : Spells v text.toList) (shallow : v.depth ≤ 127) :
    parse text = .ok u := by
  have read := u.accepts depthLimit v layout shallow
  simp only [parse, InOrder.parse, Document.ofText_spelled spelled, read, orText]
  rfl

namespace Samples

/-- A function with a parameter and a block in each kind of statement, beside a variable. -/
def retries : CompilationUnit where
  sourceFile := "retry.c"
  types := table [
    { kind := .record [⟨some "left", .int, 0, 32⟩], name := some (.tag "budget"), size := some 4 },
    { kind := .function none }]
  tags := [⟨some "budget", ⟨3⟩⟩]
  items := [
    .symbol (.ofGlobal "tries" .int false "_tries"),
    .function
      { decl := .ofFunction "retry" ⟨4⟩ true "_retry"
        params := [.ofParameter "limit" .int 8 (.register 9)]
        body := [.scope [] [.ofAutomatic "i" .int (-4)] [
          .loop [.branch [.compound [.scope [⟨none, ⟨3⟩⟩] [] []]] []]]] }]

def scrambledTypes : List Json := [
  .object [
    ("size", .int 4),
    ("name", .object [("name", .string "int"), ("by", .string "typedef")]),
    ("max", .int 2147483647),
    ("min", .int (-2147483648)),
    ("kind", .string "integer")],
  .object [
    ("note", .string "signed"),
    ("max", .int 127),
    ("min", .int (-128)),
    ("size", .int 1),
    ("note", .bool true),
    ("name", .object [("note", .null), ("name", .string "char"), ("by", .string "typedef")]),
    ("kind", .string "integer")],
  .object [
    ("name", .object [("name", .string "void"), ("by", .string "typedef")]),
    ("kind", .string "void")],
  .object [
    ("fields", .array [.object [
      ("bit_size", .int 32), ("bit_offset", .int 0), ("ty", .int 0), ("name", .string "left")]]),
    ("size", .int 4),
    ("name", .object [("name", .string "budget"), ("by", .string "tag")]),
    ("kind", .string "record")],
  .object [("kind", .string "function")]]

/-- The body with the variant of each statement last, and without empty lists where these may be
left out. -/
def scrambledBody : Json := .array [.object [
  ("vars", .array [.object [
    ("location", .object [("offset", .int (-4)), ("in", .string "frame")]),
    ("permanent", .bool false),
    ("public", .bool false),
    ("decl", .string "variable"),
    ("ty", .int 0),
    ("name", .string "i")]]),
  ("line", .int 12),
  ("body", .array [.object [
    ("body", .array [.object [
      ("then", .array [.object [
        ("body", .array [.object [
          ("tags", .array [.object [("ty", .int 3)]]),
          ("stmt", .string "scope")]]),
        ("stmt", .string "compound")]]),
      ("stmt", .string "if")]]),
    ("stmt", .string "loop")]]),
  ("stmt", .string "scope")]]

def scrambledItems : Json := .array [
  .object [
    ("location", .object [("symbol", .string "_tries"), ("in", .string "static")]),
    ("decl", .string "variable"),
    ("public", .bool false),
    ("ty", .int 0),
    ("item", .string "symbol"),
    ("name", .string "tries")],
  .object [
    ("body", scrambledBody),
    ("params", .array [.object [
      ("stored_size", .int 4),
      ("passed_size", .int 4),
      ("line", .int 11),
      ("location", .object [("regno", .int 9), ("in", .string "register"), ("line", .null)]),
      ("arg_offset", .int 8),
      ("decl", .string "parameter"),
      ("ty", .int 0),
      ("name", .string "limit")]]),
    ("decl", .object [
      ("address", .string "_retry"),
      ("public", .bool true),
      ("decl", .string "function"),
      ("ty", .int 4),
      ("name", .string "retry")]),
    ("item", .string "function")]]

/-- The unit with its source file last, and with members that nobody knows. -/
def scrambled : Json := .object [
  ("version", .int 2),
  ("items", scrambledItems),
  ("tags", .array [.object [("ty", .int 3), ("name", .string "budget")]]),
  ("version", .string "two"),
  ("types", .array scrambledTypes),
  ("source_file", .string "retry.c")]

theorem retries_scrambled : CompilationUnit.parse scrambled.compact = .ok retries := by
  have layout : Rearranged retries.toJson scrambled := by decide +kernel
  have exact : Exact scrambled := by
    simp [scrambled, scrambledItems, scrambledBody, scrambledTypes, exact_object_iff,
      exact_array_iff, exact_int_iff, Exact.string, Exact.bool, Exact.null, UInt64.size]
  exact CompilationUnit.parse_rearranged retries layout (spells_compact exact) (by decide +kernel)

end Samples

end Stabs
