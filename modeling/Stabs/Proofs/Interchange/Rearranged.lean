import Mathlib.Data.List.Forall2
import Stabs.Proofs.Interchange.Shape
import Stabs.Proofs.Json.Depth

/-!
# Rearranged values

A unit may be laid out in many ways: the members of an object stand in any order, members that
nobody knows stand between them, and a field that is `null` or holds its default is left out. What
is looked at as a whole is found in each of these layouts.
-/
namespace Stabs

namespace Json

variable {α : Type} {look : Json → Option α} {write : α → Json} {a : α} {key : String}
  {v w : Json} {fields members : List (String × Json)}

/-- What a member that nobody knows may hold: no container, and no number beyond 64 bits. -/
inductive Stray : Json → Prop
  | null : Stray .null
  | bool (b : Bool) : Stray (.bool b)
  | int (n : Int) (low : Int64.minValue.toInt ≤ n) (high : n < UInt64.size) : Stray (.int n)
  | string (s : String) : Stray (.string s)

/-- The fields that have a default, with that value. -/
@[simp] def defaults : List (String × Json) := [
  ("external", .bool false),
  ("permanent", .bool true),
  ("initialized", .bool false),
  ("read_only", .bool false),
  ("volatile", .bool false),
  ("tags", .array []),
  ("vars", .array []),
  ("body", .array []),
  ("params", .array []),
  ("items", .array []),
  ("otherwise", .array [])]

/-- A field that may be left out of an object. Compound statements and loops must have a body. -/
@[simp] def Omissible (fields : List (String × Json)) (field : String × Json) : Prop :=
  field.2 = .null ∨ field ∈ defaults ∧
    (field.1 = "body" → ("stmt", .string "compound") ∉ fields ∧ ("stmt", .string "loop") ∉ fields)

mutual

/-- The second value is a layout of the first one. Where a member stands in an object, and how
often one that nobody knows comes up, is left open. -/
inductive Rearranged : Json → Json → Prop
  | flat {v : Json} (h : v.depth = 0) : Rearranged v v
  | array {vs ws : List Json} (h : List.Forall₂ Rearranged vs ws) :
      Rearranged (.array vs) (.array ws)
  | object {fields members : List (String × Json)}
      (known : ∀ field ∈ fields, Stands fields members field)
      (unknown : ∀ m ∈ members, m.1 ∉ fields.map Prod.fst → Stray m.2) :
      Rearranged (.object fields) (.object members)

/-- Among the members of an object there is one for a field, or the field is left out. -/
inductive Stands : List (String × Json) → List (String × Json) → String × Json → Prop
  | once {fields members : List (String × Json)} {key : String} {v w : Json}
      (here : valuesAt members key = [w]) (h : Rearranged v w) : Stands fields members (key, v)
  | leftOut {fields members : List (String × Json)} {key : String} {v : Json}
      (nowhere : valuesAt members key = []) (h : Omissible fields (key, v)) :
      Stands fields members (key, v)

end

theorem Rearranged.eq_of_flat (h : Rearranged v w) (flat : v.depth = 0) : w = v := by
  cases h with
  | flat => rfl
  | array | object => simp [depth] at flat

theorem Rearranged.eq_null (h : Rearranged v .null) : v = .null := by
  cases h
  rfl

theorem Rearranged.exists_elements {vs : List Json} (h : Rearranged (.array vs) w) :
    ∃ ws, w = .array ws ∧ List.Forall₂ Rearranged vs ws := by
  cases h with
  | flat h => simp [depth] at h
  | array h => exact ⟨_, rfl, h⟩

theorem Rearranged.exists_members (h : Rearranged (.object fields) w) :
    ∃ members, w = .object members ∧ (∀ field ∈ fields, Stands fields members field) ∧
      ∀ m ∈ members, m.1 ∉ fields.map Prod.fst → Stray m.2 := by
  cases h with
  | flat h => simp [depth] at h
  | object known unknown => exact ⟨_, rfl, known, unknown⟩

theorem not_omissible (filled : v ≠ .null) (needed : ∀ d ∈ defaults, d.1 ≠ key) :
    ¬ Omissible fields (key, v) := by
  rintro (null | ⟨mem, -⟩)
  · exact filled null
  · exact needed _ mem rfl

/-- Looking at any layout of a value gives `a`. -/
def Finds (look : Json → Option α) (v : Json) (a : α) : Prop :=
  ∀ w, Rearranged v w → look w = some a

theorem Finds.flat (flat : v.depth = 0) (h : look v = some a) : Finds look v a := by
  intro w layout
  rw [layout.eq_of_flat flat, h]

theorem Finds.object (h : ∀ members, (∀ field ∈ fields, Stands fields members field) →
    look (.object members) = some a) : Finds look (.object fields) a := by
  intro w layout
  obtain ⟨members, rfl, known, -⟩ := layout.exists_members
  exact h members known

theorem Finds.nullable (h : ∀ a, Finds look (write a) a) (filled : ∀ a, write a ≠ .null)
    (a : Option α) : Finds (asNullable? look) (nullable write a) a := by
  intro w layout
  cases a with
  | none =>
    rw [layout.eq_of_flat rfl]
    rfl
  | some a =>
    have present : w ≠ .null := by
      rintro rfl
      exact filled a layout.eq_null
    rw [asNullable?, h a w layout]
    · rfl
    · exact present

theorem Finds.list (h : ∀ a, Finds look (write a) a) (as : List α) :
    Finds (asList? look) (.array (as.map write)) as := by
  intro w layout
  obtain ⟨ws, rfl, layouts⟩ := layout.exists_elements
  clear layout
  rw [asList?]
  induction as generalizing ws with
  | nil =>
    cases layouts
    rfl
  | cons a as ih =>
    obtain _ | ⟨layout, layouts⟩ := layouts
    simp [h a _ layout, ih _ layouts]

/-! ## Members -/

section Members

variable (stands : Stands fields members (key, v))

include stands

theorem Stands.required (needed : ¬ Omissible fields (key, v)) (h : Finds look v a) :
    required members key look = some a := by
  cases stands with
  | once here layout => simpa [Json.required, here] using h _ layout
  | leftOut nowhere omissible => exact absurd omissible needed

theorem Stands.withDefault (absent : α) (default : Omissible fields (key, v) → a = absent)
    (h : Finds look v a) : withDefault members key absent look = some a := by
  cases stands with
  | once here layout => simpa [Json.withDefault, here] using h _ layout
  | leftOut nowhere omissible => rw [Json.withDefault, nowhere, default omissible]

/-- Members under another key can be dropped. -/
theorem Stands.without {other : String} (ne : key ≠ other) :
    Stands fields (without members other) (key, v) := by
  have same := valuesAt_without members ne
  cases stands with
  | once here layout => exact .once (same.trans here) layout
  | leftOut nowhere omissible => exact .leftOut (same.trans nowhere) omissible

end Members

theorem Stands.nullable {a : Option α}
    (stands : Stands fields members (key, nullable write a))
    (noDefault : ∀ d ∈ defaults, d.1 ≠ key) (filled : ∀ a, write a ≠ .null)
    (h : ∀ a, Finds look (write a) a) : nullableMember members key look = some a := by
  refine stands.withDefault none (fun omissible => ?_) (.nullable h filled a)
  cases a with
  | none => rfl
  | some a => exact absurd omissible (not_omissible (filled a) noDefault)

theorem finds_text (s : String) : Finds asText? (.string s) s := .flat rfl rfl

theorem finds_bool (b : Bool) : Finds asBool? (.bool b) b := .flat rfl rfl

theorem finds_int64 (n : Int64) : Finds asInt64? (.int n.toInt) n :=
  .flat rfl (asInt64?_toInt n)

theorem finds_uint64 (n : UInt64) : Finds asUInt64? (.nat n.toNat) n :=
  .flat rfl (asUInt64?_toNat n)

theorem finds_uint32 (n : UInt32) : Finds asUInt32? (.nat n.toNat) n :=
  .flat rfl (asUInt32?_toNat n)

theorem finds_typeId (ty : TypeId) : Finds TypeId.ofJson? ty.toJson ty :=
  .flat rfl (restores_typeId ty)

theorem Stands.variant (names : List String) {name : String}
    (stands : Stands fields members (key, .string name)) (noDefault : ∀ d ∈ defaults, d.1 ≠ key)
    (h : names.contains name = true) : Json.required members key (asVariant? names) = some name :=
  stands.required (not_omissible (by simp) noDefault) (.flat rfl (by rw [asVariant?, if_pos h]))

end Json

open Json

theorem Field.finds (field : Field) : Finds ofJson? field.toJson field := by
  refine .object fun members known => ?_
  simp only [List.forall_mem_cons] at known
  obtain ⟨name, ty, bitOffset, bitSize, -⟩ := known
  have name := name.nullable (by decide) (by simp) finds_text
  have ty := ty.required (by simp) (finds_typeId _)
  have bitOffset := bitOffset.required (by simp) (finds_uint64 _)
  have bitSize := bitSize.required (by simp) (finds_uint64 _)
  simp [ofJson?, name, ty, bitOffset, bitSize]

theorem Enumerator.finds (enumerator : Enumerator) :
    Finds ofJson? enumerator.toJson enumerator := by
  refine .object fun members known => ?_
  simp only [List.forall_mem_cons] at known
  obtain ⟨name, value, -⟩ := known
  have name := name.required (by simp) (finds_text _)
  have value := value.required (by simp) (finds_int64 _)
  simp [ofJson?, name, value]

/-- The category and its fields are found among the members of a node. -/
theorem TypeKind.finds {kind : TypeKind} {fields members : List (String × Json)}
    (known : ∀ field ∈ kind.toMembers, Stands fields members field) :
    ofMembers? members = some kind := by
  obtain ⟨variant, known⟩ := List.forall_mem_cons.mp known
  have variant := variant.variant names (by decide) (by cases kind <;> rfl)
  cases kind with
  | void | real => simp [ofMembers?, variant, category]
  | integer min max =>
    simp only [List.forall_mem_cons] at known
    have min := known.1.required (by simp) (finds_int64 _)
    have max := known.2.1.required (by simp) (finds_int64 _)
    simp [ofMembers?, variant, category, min, max]
  | array element length =>
    simp only [List.forall_mem_cons] at known
    have element := known.1.required (by simp) (finds_typeId _)
    have length := known.2.1.required (by simp) (finds_uint64 _)
    simp [ofMembers?, variant, category, element, length]
  | record fields | union fields =>
    simp only [List.forall_mem_cons] at known
    have fields := known.1.required (by simp) (.list Field.finds _)
    simp [ofMembers?, variant, category, fields]
  | enumeration values =>
    simp only [List.forall_mem_cons] at known
    have values := known.1.required (by simp) (.list Enumerator.finds _)
    simp [ofMembers?, variant, category, values]
  | pointer target =>
    simp only [List.forall_mem_cons] at known
    have target := known.1.required (by simp) (finds_typeId _)
    simp [ofMembers?, variant, category, target]
  | function returns =>
    simp only [List.forall_mem_cons] at known
    have returns := known.1.nullable (by decide) (by simp) finds_typeId
    simp [ofMembers?, variant, category, returns]

/-! ## Declarations -/

/-- The single field of a place stands beside the way to name it. -/
theorem Location.field {α : Type} {look : Json → Option α} {fields members : List (String × Json)}
    {key : String} {v : Json} {a : α} (stands : Stands fields members (key, v))
    (needed : ¬ Omissible fields (key, v)) (other : key ≠ "in") (h : Finds look v a) :
    field? key look (.object (without members "in")) = some a :=
  (stands.without other).required needed h

theorem Location.finds (location : Location) : Finds ofJson? location.toJson location := by
  cases location with
  | static symbol =>
    refine .object fun members known => ?_
    simp only [List.forall_mem_cons] at known
    have variant := known.1.variant names (by decide) rfl
    have symbol := field known.2.1 (by simp) (by decide) (finds_text _)
    simp [ofJson?, variant?, variant, symbol]
  | frame offset =>
    refine .object fun members known => ?_
    simp only [List.forall_mem_cons] at known
    have variant := known.1.variant names (by decide) rfl
    have offset := field known.2.1 (by simp) (by decide) (finds_int64 _)
    simp [ofJson?, variant?, variant, offset]
  | register regno =>
    refine .object fun members known => ?_
    simp only [List.forall_mem_cons] at known
    have variant := known.1.variant names (by decide) rfl
    have regno := field known.2.1 (by simp) (by decide) (finds_uint32 _)
    simp [ofJson?, variant?, variant, regno]
  | eliminated =>
    refine .object fun members known => ?_
    simp only [List.forall_mem_cons] at known
    have variant := known.1.variant names (by decide) rfl
    simp [ofJson?, variant?, variant]

@[simp] theorem Location.toJson_ne_null (location : Location) : location.toJson ≠ .null := by
  cases location <;> simp [toJson]

section Declaration

variable {fields members : List (String × Json)}

theorem FunctionInfo.finds {info : FunctionInfo}
    (known : ∀ field ∈ (DeclarationKind.function info).toMembers, Stands fields members field) :
    ofMembers? members = some info := by
  simp only [DeclarationKind.toMembers, List.forall_mem_cons] at known
  obtain ⟨-, isPublic, isExternal, address, -⟩ := known
  have isPublic := isPublic.required (by simp) (finds_bool _)
  have isExternal := isExternal.withDefault false (by simp) (finds_bool _)
  have address := address.nullable (by decide) (by simp) finds_text
  simp [ofMembers?, isPublic, isExternal, address]

theorem ParameterInfo.finds {info : ParameterInfo}
    (known : ∀ field ∈ (DeclarationKind.parameter info).toMembers, Stands fields members field) :
    ofMembers? members = some info := by
  simp only [DeclarationKind.toMembers, List.forall_mem_cons] at known
  obtain ⟨-, argOffset, location, passedSize, storedSize, -⟩ := known
  have argOffset := argOffset.required (by simp) (finds_int64 _)
  have location := location.required (by simp) (Location.finds _)
  have passedSize := passedSize.required (by simp) (finds_uint32 _)
  have storedSize := storedSize.required (by simp) (finds_uint32 _)
  simp [ofMembers?, argOffset, location, passedSize, storedSize]

theorem VariableInfo.finds {info : VariableInfo}
    (known : ∀ field ∈ (DeclarationKind.var info).toMembers, Stands fields members field) :
    ofMembers? members = some info := by
  simp only [DeclarationKind.toMembers, List.forall_mem_cons] at known
  obtain ⟨-, isPublic, isExternal, isPermanent, isInitialized, isReadOnly, isVolatile, location,
    -⟩ := known
  have isPublic := isPublic.required (by simp) (finds_bool _)
  have isExternal := isExternal.withDefault false (by simp) (finds_bool _)
  have isPermanent := isPermanent.withDefault true (by simp) (finds_bool _)
  have isInitialized := isInitialized.withDefault false (by simp) (finds_bool _)
  have isReadOnly := isReadOnly.withDefault false (by simp) (finds_bool _)
  have isVolatile := isVolatile.withDefault false (by simp) (finds_bool _)
  have location := location.required (by simp) (Location.finds _)
  simp [ofMembers?, isPublic, isExternal, isPermanent, isInitialized, isReadOnly, isVolatile,
    location]

theorem DeclarationKind.finds {kind : DeclarationKind}
    (known : ∀ field ∈ kind.toMembers, Stands fields members field) :
    ofMembers? members = some kind := by
  cases kind with
  | enumConstant | typedef =>
    have variant := (known _ List.mem_cons_self).variant names (by decide) rfl
    simp [ofMembers?, variant]
  | function info =>
    have variant := (known _ List.mem_cons_self).variant names (by decide) rfl
    simp [ofMembers?, variant, FunctionInfo.finds known]
  | parameter info =>
    have variant := (known _ List.mem_cons_self).variant names (by decide) rfl
    simp [ofMembers?, variant, ParameterInfo.finds known]
  | var info =>
    have variant := (known _ List.mem_cons_self).variant names (by decide) rfl
    simp [ofMembers?, variant, VariableInfo.finds known]

/-- A declaration is found among the members of its object, or of its item. -/
theorem Declaration.finds_members {decl : Declaration}
    (known : ∀ field ∈ decl.toMembers, Stands fields members field) :
    ofJson? (.object members) = some decl := by
  simp only [toMembers, List.forall_mem_cons] at known
  obtain ⟨name, ty, kind⟩ := known
  have name := name.required (by simp) (finds_text _)
  have ty := ty.required (by simp) (finds_typeId _)
  simp [ofJson?, name, ty, DeclarationKind.finds kind]

end Declaration

theorem Declaration.finds (decl : Declaration) : Finds ofJson? decl.toJson decl :=
  .object fun _ known => finds_members known

theorem Tag.finds (tag : Tag) : Finds ofJson? tag.toJson tag := by
  refine .object fun members known => ?_
  simp only [List.forall_mem_cons] at known
  obtain ⟨name, ty, -⟩ := known
  have name := name.nullable (by decide) (by simp) finds_text
  have ty := ty.required (by simp) (finds_typeId _)
  simp [ofJson?, name, ty]

/-! ## Statements -/

namespace Statement

variable {α : Type} (members : List (String × Json)) (key : String)

theorem valuesAt_memberBodies :
    valuesAt (memberBodies members) key = (valuesAt members key).map listOfJson? := by
  induction members with
  | nil => simp [memberBodies]
  | cons m rest ih =>
    obtain ⟨name, v⟩ := m
    by_cases h : name = key <;> simp [memberBodies, h, ih]

/-- The statements under a key come from the member itself. -/
theorem required_memberBodies :
    required (memberBodies members) key id = required members key listOfJson? := by
  rw [required, required, valuesAt_memberBodies]
  cases valuesAt members key with
  | nil => rfl
  | cons v vs => cases vs <;> rfl

theorem withDefault_memberBodies :
    withDefault (memberBodies members) key [] id = withDefault members key [] listOfJson? := by
  rw [withDefault, withDefault, valuesAt_memberBodies]
  cases valuesAt members key with
  | nil => rfl
  | cons v vs => cases vs <;> rfl

@[simp] theorem toJsons_eq_nil {body : List Statement} : toJsons body = [] ↔ body = [] := by
  cases body <;> simp [toJsons]

mutual

theorem finds (statement : Statement) : Finds ofJson? statement.toJson statement := by
  match statement with
  | .compound body | .loop body =>
    have inside := finds_list body
    simp only [toJson]
    refine .object fun members known => ?_
    simp only [List.forall_mem_cons] at known
    have variant := known.1.variant names (by decide) rfl
    have body := known.2.1.required (by simp) inside
    simp [ofJson?, ofMembers?, variant, required_memberBodies, body]
  | .branch thenPart otherwise =>
    have thenInside := finds_list thenPart
    have otherwiseInside := finds_list otherwise
    simp only [toJson]
    refine .object fun members known => ?_
    simp only [List.forall_mem_cons] at known
    have variant := known.1.variant names (by decide) rfl
    have thenPart := known.2.1.required (by simp) thenInside
    have otherwise := known.2.2.1.withDefault [] (by simp) otherwiseInside
    simp [ofJson?, ofMembers?, variant, required_memberBodies, withDefault_memberBodies, thenPart,
      otherwise]
  | .scope tags vars body =>
    have inside := finds_list body
    simp only [toJson]
    refine .object fun members known => ?_
    simp only [List.forall_mem_cons] at known
    have variant := known.1.variant names (by decide) rfl
    have tags := known.2.1.withDefault [] (by simp) (.list Tag.finds _)
    have vars := known.2.2.1.withDefault [] (by simp) (.list Declaration.finds _)
    have body := known.2.2.2.1.withDefault [] (by simp) inside
    simp [ofJson?, ofMembers?, variant, withDefault_memberBodies, tags, vars, body]

theorem finds_list (body : List Statement) :
    Finds listOfJson? (.array (toJsons body)) body := by
  intro w layout
  obtain ⟨ws, rfl, layouts⟩ := layout.exists_elements
  match body with
  | [] =>
    cases layouts
    simp [listOfJson?, ofJsons?]
  | statement :: rest =>
    obtain _ | ⟨first, layouts⟩ := layouts
    have first := finds statement _ first
    have others := finds_list rest _ (.array layouts)
    rw [listOfJson?] at others
    simp [listOfJson?, ofJsons?, first, others]

end

end Statement

theorem FunctionDefinition.finds_members {definition : FunctionDefinition}
    {fields members : List (String × Json)}
    (known : ∀ field ∈ definition.toMembers, Stands fields members field) :
    ofJson? (.object members) = some definition := by
  simp only [toMembers, List.forall_mem_cons] at known
  obtain ⟨decl, params, body, -⟩ := known
  have decl := decl.required (by simp [Declaration.toJson]) (Declaration.finds _)
  have params := params.withDefault [] (by simp) (.list Declaration.finds _)
  have body := body.withDefault [] (fun omissible => by simp at omissible; exact omissible.1)
    (Statement.finds_list _)
  simp [ofJson?, decl, params, body]

end Stabs
