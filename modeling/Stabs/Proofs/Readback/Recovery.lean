import Stabs.Proofs.Readback.Contents

/-!
# Recovering types from contents

The references of a text say in which order contents come, so the last content of a number is its
definition if the type is defined, and its cross-reference otherwise.
-/
namespace Stabs

open TypeDescription

variable {types : TypeTable} {N : Numbering} {text : List Token} {contents : Contents}
  {n : TypeNumber} {content : Content TypeNumber}

/-- The last content of a number has no other one of that number behind it. -/
theorem Contents.split_of_content? (h : contents.content? n = some content) :
    ∃ before after, contents = before ++ (n, content) :: after ∧ ∀ e ∈ after, e.1 ≠ n := by
  obtain ⟨after, before, e, none⟩ := List.lookup_eq_some_iff.1 h
  refine ⟨before.reverse, after.reverse, ?_, fun p mem => ?_⟩
  · rw [← List.reverse_reverse contents, e]
    simp
  · have ne := none p (List.mem_reverse.1 mem)
    simpa using Ne.symm (by simpa using ne : n ≠ p.1)

theorem Contents.exists_content? {form : ReferenceForm} (h : ⟨n, form⟩ ∈ contents.references) :
    ∃ content, contents.content? n = some content := by
  obtain ⟨⟨m, content⟩, mem, e⟩ := List.mem_map.1 h
  cases e
  rw [← Option.isSome_iff_exists, Contents.content?, List.lookup_isSome_iff]
  exact ⟨(n, content), List.mem_reverse.2 mem, by simp⟩

/-- What contents have to give back of the types that a numbering holds. -/
structure Recovers (types : TypeTable) (N : Numbering) (contents : Contents) : Prop where
  defined : ∀ ty n, N.number? ty = some n → N.statusOf ty = .defined →
    ∃ node content, types.get? ty = some node ∧
      (node.content ty).numbered? N.number? = some content ∧ contents.content? n = some content
  crossReferenced : ∀ ty n, N.number? ty = some n → N.statusOf ty = .crossReferenced →
    ∃ node category name, types.get? ty = some node ∧ aggregate? node.kind = some category ∧
      node.name.map TypeName.text = some name ∧
        contents.content? n = some (.crossReference category name)
  known : ∀ n content, contents.content? n = some content → ∃ ty, N.number? ty = some n

namespace Tells

/-- What a text tells stands in a reference of that text. -/
theorem mem_references (tells : Tells types N text contents) (mem : (n, content) ∈ contents) :
    ⟨n, content.form⟩ ∈ references text := by
  have told : ⟨n, content.form⟩ ∈ contents.references := List.mem_map.2 ⟨_, mem, rfl⟩
  rw [tells.forms] at told
  exact (List.mem_filter.1 told).1

theorem mem_of_references (tells : Tells types N text contents) {form : ReferenceForm}
    (mem : ⟨n, form⟩ ∈ references text) (ne : form ≠ .bare) :
    ⟨n, form⟩ ∈ contents.references := by
  rw [tells.forms]
  exact List.mem_filter.2 ⟨mem, by simpa using ne⟩

/-- Nothing comes behind the definition of a number. -/
theorem form_of_definition (tells : Tells types N text contents)
    (orderly : Orderly types N (references text)) (written : ⟨n, .definition⟩ ∈ references text)
    (h : contents.content? n = some content) : content.form = .definition := by
  obtain ⟨before, after, e, last⟩ := Contents.split_of_content? h
  by_cases same : content.form = .definition
  · exact same
  exfalso
  have told := tells.mem_of_references written nofun
  have split : (references text).filter (·.form ≠ .bare) =
      Contents.references before ++ ⟨n, content.form⟩ :: Contents.references after := by
    rw [← tells.forms, e]
    exact List.map_append
  rw [e] at told
  have earlier : ⟨n, .definition⟩ ∈ Contents.references before := by
    obtain ⟨⟨m, c⟩, mem, eq⟩ := List.mem_map.1 told
    rw [Reference.mk.injEq] at eq
    obtain ⟨rfl, form⟩ := eq
    rcases List.mem_append.1 mem with mem | mem
    · exact List.mem_map.2 ⟨_, mem, by simp [form]⟩
    · rcases List.mem_cons.1 mem with eq | mem
      · cases eq
        exact absurd form same
      · exact absurd rfl (last _ mem)
  obtain ⟨l₁, l₂, whole, front, back⟩ := List.filter_eq_append_iff.1 split
  obtain ⟨l₃, l₄, rfl, -, bare, -⟩ := List.filter_eq_cons_iff.1 back
  have fits := orderly.fits (l₁ ++ l₃) ⟨n, content.form⟩ l₄ (by rw [whole, List.append_assoc])
  refine (by simpa using bare : content.form ≠ .bare) (fits.once ?_)
  rw [← front] at earlier
  exact List.mem_append_left _ (List.mem_filter.1 earlier).1

/-- The contents that an orderly text tells give back every type that has a number. -/
theorem recovers (tells : Tells types N text contents)
    (orderly : Orderly types N (references text)) : Recovers types N contents where
  defined ty n number status := by
    have written := (orderly.defined ty n number).1 status
    obtain ⟨content, found⟩ := Contents.exists_content? (tells.mem_of_references written nofun)
    have form := tells.form_of_definition orderly written found
    obtain ⟨before, after, e, -⟩ := Contents.split_of_content? found
    have mem : (n, content) ∈ contents := e ▸ List.mem_append_right _ List.mem_cons_self
    obtain ⟨ty', node, number', known, told⟩ := tells.faithful n content mem form
    obtain rfl := Numbering.number?_inj number number'
    exact ⟨node, content, known, told, found⟩
  crossReferenced ty n number status := by
    obtain ⟨undefined, category, name, written⟩ := (orderly.crossReferenced ty n number).1 status
    obtain ⟨content, found⟩ := Contents.exists_content? (tells.mem_of_references written nofun)
    obtain ⟨before, after, e, -⟩ := Contents.split_of_content? found
    have mem : (n, content) ∈ contents := e ▸ List.mem_append_right _ List.mem_cons_self
    have reference := tells.mem_references mem
    cases content with
    | crossReference category' name' =>
      obtain ⟨ty', node, number', known, label, named⟩ := orderly.labelled n category' name' reference
      obtain rfl := Numbering.number?_inj number number'
      exact ⟨node, category', name', known, label, named, found⟩
    | _ => exact absurd reference undefined
  known n content found := by
    obtain ⟨before, after, e, -⟩ := Contents.split_of_content? found
    have mem : (n, content) ∈ contents := e ▸ List.mem_append_right _ List.mem_cons_self
    have reference := tells.mem_references mem
    by_cases form : content.form = .definition
    · obtain ⟨ty, node, number, -⟩ := tells.faithful n content mem form
      exact ⟨ty, number⟩
    · cases content with
      | crossReference category name =>
        obtain ⟨ty, node, number, -⟩ := orderly.labelled n category name reference
        exact ⟨ty, number⟩
      | _ => exact absurd rfl form

end Tells

end Stabs
