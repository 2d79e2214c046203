import Stabs.Proofs.Description.References
import Stabs.Proofs.Readback.Reader

/-!
# Contents told by a description

The content of a node names types by their ids; numbered by a numbering it is what a debugger can
read. A text tells contents: one for each of its references that is not bare, in the same order,
and that of a definition is the content of the type whose number the reference has.
-/
namespace Stabs

open TypeDescription

def Member.numbered? (number? : TypeId → Option TypeNumber) (m : Member TypeId) :
    Option (Member TypeNumber) :=
  (number? m.ty).map fun n =>
    { name := m.name, ty := n, bitOffset := m.bitOffset, bitSize := m.bitSize }

namespace Content

/-- A content with numbers for ids, if all of its types have one. -/
def numbered? (number? : TypeId → Option TypeNumber) :
    Content TypeId → Option (Content TypeNumber)
  | itself ty => (number? ty).map itself
  | range base low high => (number? base).map (range · low high)
  | array upper element => (number? element).map (array upper)
  | aggregate category size members =>
    (members.mapM (Member.numbered? number?)).map (aggregate category size)
  | enumeration values => some (enumeration values)
  | pointer target => (number? target).map pointer
  | function returns => (number? returns).map function
  | crossReference category name => some (crossReference category name)

/-- The form of the reference that tells a content. -/
def form {ρ : Type} : Content ρ → ReferenceForm
  | crossReference category name => .crossReference category name
  | _ => .definition

end Content

/-- A field that has a name, as a member of its type. -/
def Field.member (field : String × Field) : Member TypeId where
  name := field.1
  ty := field.2.ty
  bitOffset := field.2.bitOffset.toNat
  bitSize := field.2.bitSize.toNat

/-- What a description in full has to tell of a type. -/
def TypeNode.content (ty : TypeId) (node : TypeNode) : Content TypeId :=
  match node.kind with
  | .void => .itself ty
  | .integer min max =>
    if ty = .char then .range .char 0 127 else .range .int min.toInt max.toInt
  | .real => .range .int (node.size.getD 0).toNat 0
  | .array element length => .array (length.toNat - 1) element
  | .record fields =>
    .aggregate .record (node.size.getD 0).toNat ((namedFields fields).map Field.member)
  | .union fields =>
    .aggregate .union (node.size.getD 0).toNat ((namedFields fields).map Field.member)
  | .enumeration values => .enumeration (values.map fun v => (v.name, v.value.toInt))
  | .pointer target => .pointer target
  | .function returns => .function (returns.getD .void)

/-- The names of the parts of a type. -/
def TypeKind.partNames : TypeKind → List String
  | record fields => fields.filterMap Field.name
  | union fields => fields.filterMap Field.name
  | enumeration values => values.map Enumerator.name
  | _ => []

def TypeNode.names (node : TypeNode) : List String :=
  (node.name.map TypeName.text).toList ++ node.kind.partNames

theorem mem_names_of_namedFields {fields : List Field} {field : String × Field}
    (h : field ∈ namedFields fields) : field.1 ∈ fields.filterMap Field.name := by
  simp only [namedFields, List.mem_filterMap, Option.map_eq_some_iff] at h
  obtain ⟨f, mem, name, named, rfl⟩ := h
  exact List.mem_filterMap.2 ⟨f, mem, named⟩

/-- The content of a node is always told by a definition. -/
theorem TypeNode.form_content {ty : TypeId} {node : TypeNode} {number? : TypeId → Option TypeNumber}
    {content : Content TypeNumber} (h : (node.content ty).numbered? number? = some content) :
    content.form = .definition := by
  unfold TypeNode.content at h
  split at h
  case h_2 =>
    split at h <;> simp only [Content.numbered?, Option.map_eq_some_iff] at h <;>
      obtain ⟨_, -, rfl⟩ := h <;> rfl
  case h_7 => cases h; rfl
  all_goals
    simp only [Content.numbered?, Option.map_eq_some_iff] at h
    obtain ⟨_, -, rfl⟩ := h
    rfl

/-- A content by the number and the form of the reference that tells it. -/
def Contents.references (contents : Contents) : List Reference :=
  contents.map fun (n, content) => ⟨n, content.form⟩

/-- A text tells these contents; `F` is a numbering that holds all of its numbers. -/
structure Tells (types : TypeTable) (F : Numbering) (text : List Token) (contents : Contents) :
    Prop where
  forms : contents.references = (references text).filter (·.form ≠ .bare)
  faithful : ∀ n content, (n, content) ∈ contents → content.form = .definition →
    ∃ ty node, F.number? ty = some n ∧ types.get? ty = some node ∧
      (node.content ty).numbered? F.number? = some content

namespace Tells

variable {types : TypeTable} {F : Numbering} {text other : List Token}
  {contents more : Contents} {token : Token}

theorem nil (types : TypeTable) (F : Numbering) : Tells types F [] [] := ⟨rfl, nofun⟩

theorem append (a : Tells types F text contents) (b : Tells types F other more)
    (calm : Calm other) : Tells types F (text ++ other) (contents ++ more) where
  forms := by
    have both : (contents ++ more).references = contents.references ++ more.references :=
      List.map_append
    rw [both, a.forms, b.forms, references_append calm, List.filter_append]
  faithful n content mem form := by
    rcases List.mem_append.1 mem with mem | mem
    · exact a.faithful n content mem form
    · exact b.faithful n content mem form

/-- A token that is no number tells nothing. -/
theorem cons (h : Tells types F text contents) (number : ∀ n, token ≠ .number n) :
    Tells types F (token :: text) contents where
  forms := by
    have same : references (token :: text) = references text := by
      cases token with
      | number n => exact absurd rfl (number n)
      | _ => rfl
    rw [same, h.forms]
  faithful := h.faithful

/-- A bare number tells nothing either. -/
theorem bare (n : TypeNumber) : Tells types F [.number n] [] := ⟨rfl, nofun⟩

theorem crossReference (n : TypeNumber) (category : Aggregate) (name : String) :
    Tells types F [.number n, .equals, .crossReference category name]
      [(n, .crossReference category name)] where
  forms := rfl
  faithful m content mem form := by
    cases List.mem_singleton.1 mem
    cases form

/-- A definition tells the content of its type, and what its body tells. -/
theorem definition (h : Tells types F text contents) (calm : Calm text) {n : TypeNumber}
    {ty : TypeId} {node : TypeNode} {content : Content TypeNumber} (number : F.number? ty = some n)
    (known : types.get? ty = some node)
    (told : (node.content ty).numbered? F.number? = some content) :
    Tells types F (.number n :: .equals :: text) ((n, content) :: contents) where
  forms := by
    have here : ReferenceForm.ofRest (.equals :: text) = .definition :=
      ofRest_append calm [.equals]
    have rest := h.forms
    simp only [Contents.references] at rest
    simp [Contents.references, references, here, TypeNode.form_content told, rest]
  faithful m content' mem form' := by
    rcases List.mem_cons.1 mem with e | mem
    · cases e
      exact ⟨ty, node, number, known, told⟩
    · exact h.faithful m content' mem form'

end Tells

end Stabs
