import Stabs.Proofs.Unit.Blocks
import Stabs.Proofs.Unit.Closure

/-!
# Which units can be described

A unit can be described exactly when it is well formed: declarations stand where they may, what is
named by a tag, a typedef or a symbol is in the table, what is demanded can be written and there is
a number for each block. A type that nothing demands may be as wrong as it likes.
-/
namespace Stabs

open TypeDescription

/-- A unit that is well formed for a target. The ids of a table wrap around beyond the range of
an index, so the typedefs have to be found again under their ids. -/
structure Describable (u : CompilationUnit) (target : Target) : Prop where
  typedefs : ∀ entry ∈ u.types.entries, entry.2.typedefName?.isSome = true →
    u.types.IsTypedef entry.1
  tags : ∀ tag ∈ u.writtenTags, tag.name.isSome = true → ∃ node, u.types.get? tag.ty = some node
  declarations : ∀ decl ∈ u.declarations, ∀ info, decl.kind ≠ .parameter info
  functions : ∀ decl ∈ u.declarations, ∀ info, decl.kind = .function info →
    info.isEmitted = true →
      ∃ node returns, u.types.get? decl.ty = some node ∧ node.kind = .function returns
  parameters : ∀ param ∈ u.parameters, ∃ info, param.kind = .parameter info
  demanded : ∀ ty, AskedInFull u ty ∨ Mentioned u ty →
    ∃ node, u.types.get? ty = some node ∧ (node.isForward = true → node.name.isSome = true)
  required : ∀ ty, Required u ty → ∃ node, u.types.get? ty = some node ∧ node.isDefinable = true
  blocks : target.firstBlock.toNat + u.blocks < UInt32.size

variable {u : CompilationUnit} {target : Target} {N M : Numbering} {ty : TypeId}

/-- In a table with no more types than there are ids each typedef is found under its id. -/
theorem TypeTable.isTypedef_of_mem {types : TypeTable} {entry : TypeId × TypeNode}
    (small : types.size ≤ UInt32.size) (mem : entry ∈ types.entries)
    (named : entry.2.typedefName?.isSome = true) : types.IsTypedef entry.1 := by
  obtain ⟨⟨node, i⟩, place, rfl⟩ := List.mem_map.1 mem
  have known := List.mk_mem_zipIdx_iff_getElem?.1 place
  rw [Array.getElem?_toList] at known
  obtain ⟨bound, -⟩ := Array.getElem?_eq_some_iff.1 known
  refine ⟨node, ?_, named⟩
  rw [TypeTable.get?, TypeId.toNat_ofNat (Nat.lt_of_lt_of_le bound small)]
  exact known

/-- A named tag is refused only if its type is unknown. -/
theorem Tag.fault_notMem_request {tag : Tag} {types : TypeTable} :
    (∀ cause, .fault cause ∉ tag.request types) ↔
      (tag.name.isSome = true → ∃ node, types.get? tag.ty = some node) := by
  unfold Tag.request
  cases tag.name with
  | none => simp
  | some name =>
    cases types.get? tag.ty with
    | none => simp
    | some node => by_cases complete : node.isComplete = true <;> simp [complete]

namespace Declaration

/-- A declaration is refused if it is a parameter, or the code of something that is no function. -/
theorem fault_notMem_request {decl : Declaration} {types : TypeTable} :
    (∀ cause, .fault cause ∉ decl.request types) ↔
      (∀ info, decl.kind ≠ .parameter info) ∧
        ∀ info, decl.kind = .function info → info.isEmitted = true →
          ∃ node returns, types.get? decl.ty = some node ∧ node.kind = .function returns := by
  unfold request
  cases decl.kind with
  | enumConstant => simp
  | typedef => simp
  | parameter => simp
  | var info => by_cases emitted : info.isEmitted = true <;> simp [emitted]
  | function info =>
    by_cases emitted : info.isEmitted = true
    · cases hr : Symbol.returnType types decl.name decl.ty with
      | ok returns =>
        obtain ⟨node, result, known, function, -⟩ := Symbol.returnType_eq_ok.1 hr
        simp [emitted, known, function]
      | error cause =>
        simp only [emitted, if_true, List.mem_singleton]
        constructor
        · intro sound
          exact absurd rfl (sound cause)
        · rintro ⟨-, functions⟩
          obtain ⟨node, result, known, function⟩ := functions info rfl emitted
          have ok : Symbol.returnType types decl.name decl.ty = .ok (result.getD .void) :=
            Symbol.returnType_eq_ok.2 ⟨node, result, known, function, rfl⟩
          cases hr.symm.trans ok
    · simp [emitted]

theorem fault_notMem_parameterRequest {param : Declaration} :
    (∀ cause, .fault cause ∉ param.parameterRequest) ↔ ∃ info, param.kind = .parameter info := by
  unfold parameterRequest
  cases param.kind <;> simp

end Declaration

theorem CompilationUnit.fault_notMem_requests : (∀ cause, .fault cause ∉ u.requests) ↔
    (∀ tag ∈ u.writtenTags, ∀ cause, .fault cause ∉ tag.request u.types) ∧
      (∀ decl ∈ u.declarations, ∀ cause, .fault cause ∉ decl.request u.types) ∧
        ∀ param ∈ u.parameters, ∀ cause, .fault cause ∉ param.parameterRequest := by
  constructor
  · intro sound
    exact ⟨fun tag mem cause fault => sound cause (mem_requests_of_tag mem fault),
      fun decl mem cause fault => sound cause (mem_requests_of_declaration mem fault),
      fun param mem cause fault => sound cause (mem_requests_of_parameter mem fault)⟩
  · rintro ⟨tags, declarations, parameters⟩ cause fault
    simp only [requests, List.mem_append, List.mem_flatMap, List.mem_map] at fault
    rcases fault with ((⟨entry, -, fault⟩ | ⟨tag, mem, fault⟩) | ⟨decl, mem, fault⟩) |
      ⟨param, mem, fault⟩
    · cases fault
    · exact tags tag mem cause fault
    · exact declarations decl mem cause fault
    · exact parameters param mem cause fault

theorem TypeNode.isForward_eq_true {node : TypeNode} :
    node.isForward = true ↔ crossReference? node true ≠ none := by
  rw [Ne, TypeNode.crossReference?_true_eq_none, Bool.not_eq_false]

/-- A reference that is done has a name if its type is only declared. -/
theorem TypeDescription.Done.exists_node {full : Bool}
    (h : Done u.types N (.reference ty full)) :
    ∃ node, u.types.get? ty = some node ∧ (node.isForward = true → node.name.isSome = true) := by
  obtain ⟨node, known, -, -, named⟩ := h
  refine ⟨node, known, fun forward => ?_⟩
  rw [TypeNode.isForward_eq_true] at forward
  rw [Option.isSome_iff_ne_none]
  exact named fun clear => forward (crossReference?_true clear)

/-- What a described unit leaves behind shows that the unit is well formed. -/
theorem Fulfilled.describable (h : Fulfilled u N)
    (blocks : target.firstBlock.toNat + u.blocks < UInt32.size) : Describable u target := by
  have sound : ∀ cause, .fault cause ∉ u.requests := fun cause fault => h.requests _ fault
  obtain ⟨tags, declarations, parameters⟩ := CompilationUnit.fault_notMem_requests.1 sound
  exact
    { typedefs := h.typedefs
      tags := fun tag mem => Tag.fault_notMem_request.1 (tags tag mem)
      declarations := fun decl mem => (Declaration.fault_notMem_request.1 (declarations decl mem)).1
      functions := fun decl mem => (Declaration.fault_notMem_request.1 (declarations decl mem)).2
      parameters := fun param mem =>
        Declaration.fault_notMem_parameterRequest.1 (parameters param mem)
      demanded := by
        rintro ty (asked | mentioned)
        · exact (h.done_of_askedInFull asked).exists_node
        · exact (h.done_of_mentioned mentioned).exists_node
      required := fun ty required => by
        have defined := h.defined_of_required required
        obtain ⟨node, known⟩ := h.sound.known ty (by simp [defined])
        obtain ⟨n, done⟩ := h.layout_done known defined
        exact ⟨node, known, fault_notMem_layout.1 fun cause fault => done _ fault⟩
      blocks }

namespace Describable

variable {p : Piece} {ms : List Mark} {pending body left : List Piece}

theorem fault_notMem (d : Describable u target) (cause : DescribeError) :
    .fault cause ∉ u.requests := by
  refine CompilationUnit.fault_notMem_requests.2 ⟨fun tag mem => ?_, fun decl mem => ?_,
    fun param mem => ?_⟩ cause
  · exact Tag.fault_notMem_request.2 (d.tags tag mem)
  · exact Declaration.fault_notMem_request.2 ⟨d.declarations decl mem, d.functions decl mem⟩
  · exact Declaration.fault_notMem_parameterRequest.2 (d.parameters param mem)

/-- In a well-formed unit no demanded reference runs into a fault. -/
theorem expands (d : Describable u target) (h : Expands u.types N p ms M body)
    (demanded : Demanded u p) : ∀ cause, .fault cause ∉ body := by
  intro cause fault
  cases h with
  | mark => cases fault
  | @unknown ty full missing =>
    obtain ⟨node, known, -⟩ := d.demanded ty (demanded_iff.1 ⟨full, demanded⟩)
    cases known.symm.trans missing
  | settled => cases fault
  | crossReferenced => cases fault
  | @unnamed ty full node category known _ crossed unnamed =>
    obtain ⟨node', known', named⟩ := d.demanded ty (demanded_iff.1 ⟨full, demanded⟩)
    cases known.symm.trans known'
    have crossing : crossReference? node full ≠ none := by simp [crossed]
    have forward : node.isForward = true :=
      TypeNode.isForward_eq_true.2 fun clear => name_of_crossed clear crossing unnamed
    have some := named forward
    rw [unnamed] at some
    cases some
  | @defined ty full node known _ clear =>
    obtain ⟨node', known', definable⟩ := d.required ty (required_of_demanded demanded known clear)
    cases known.symm.trans known'
    exact fault_notMem_layout.2 definable cause fault

/-- A demanded reference is never left at a fault. -/
theorem steps (d : Describable u target) (h : Steps u.types N pending ms M left)
    (inv : ∀ p ∈ pending, Demanded u p ∧ ∀ cause, p ≠ .fault cause) :
    ∀ p ∈ left, Demanded u p ∧ ∀ cause, p ≠ .fault cause := by
  refine h.keeps (fun _ left => ∀ p ∈ left, Demanded u p ∧ ∀ cause, p ≠ .fault cause) ?_ inv
  intro N M p ms body left first inv q mem
  have head := (inv p List.mem_cons_self).1
  rcases List.mem_append.1 mem with mem | mem
  · refine ⟨first.demanded head q mem, ?_⟩
    rintro cause rfl
    exact d.expands first head cause mem
  · exact inv q (List.mem_cons_of_mem _ mem)

theorem typedefs_of_mem (d : Describable u target) (mem : .typedef ty ∈ Task.ofUnit u target) :
    u.types.IsTypedef ty := by
  cases Task.origin_of_mem mem with
  | typedef entry named => exact d.typedefs _ entry named
  | tag _ h => obtain ⟨_, _, ⟨_, e⟩ | ⟨_, _, _, e⟩⟩ := Task.mem_ofTag.1 h <;> cases e
  | declaration _ h | parameter _ h | registerParameter _ h =>
    obtain ⟨_, _, e⟩ | ⟨_, _, e⟩ := Task.mem_ofChoice.1 h <;> cases e

/-- No task of a well-formed unit fails after those before it. -/
theorem not_fails (d : Describable u target) {before later : List Task} {task : Task}
    {journal : List Entry} {c : Context} {cause : DescribeError}
    (tasks : Task.ofUnit u target = before ++ task :: later)
    (performs : Performs u.types (.fresh target.firstBlock) before journal c) :
    ¬ Fails u.types c task cause := by
  have inUnit : task ∈ Task.ofUnit u target := by simp [tasks]
  intro fails
  cases fails with
  | rejected =>
    exact d.fault_notMem cause (Task.mem_request.1 ⟨_, inUnit, List.mem_singleton_self _⟩)
  | @unknownTypedef ty missing =>
    obtain ⟨node, known, -⟩ := d.typedefs_of_mem inUnit
    cases known.symm.trans missing
  | @unnamedTypedef ty node known unnamed =>
    obtain ⟨node', known', named⟩ := d.typedefs_of_mem inUnit
    cases known.symm.trans known'
    simp [unnamed] at named
  | @faulty _ symbol marks N cause left due steps =>
    have requested : symbol.reference ∈ u.requests := by
      refine Task.mem_request.1 ⟨task, inUnit, ?_⟩
      rw [Task.request_of_due due]
      exact List.mem_singleton_self _
    have left := d.steps steps fun p mem => by
      cases List.mem_singleton.1 mem
      exact ⟨CompilationUnit.demanded_of_mem_requests requested, nofun⟩
    exact (left _ List.mem_cons_self).2 cause rfl
  | exhausted full =>
    have count := @Task.count_enter_ofUnit u target
    have room := d.blocks
    have start : (Context.fresh target.firstBlock).nextBlock = target.firstBlock := rfl
    rw [tasks, List.count_append, List.count_cons_self] at count
    rw [performs.nextBlock, start] at full
    omega

end Describable

/-- A unit is described exactly when it is well formed for the target. -/
theorem Writer.describe_ok_iff {writer : Writer} {u : CompilationUnit} :
    (∃ records, (writer.describe u).1 = .ok records) ↔ Describable u writer.target := by
  constructor
  · rintro ⟨records, ok⟩
    have h : writer.describe u = (.ok records, (writer.describe u).2) := Prod.ext ok rfl
    obtain ⟨journal, c, performs, -, -⟩ := Writer.describe_ok h
    apply performs.fulfilled.describable
    have taken := performs.nextBlock
    rw [Task.count_enter_ofUnit] at taken
    have start : (Context.fresh writer.target.firstBlock).nextBlock = writer.target.firstBlock :=
      rfl
    rw [start] at taken
    exact taken ▸ c.nextBlock.toNat_lt_size
  · intro d
    cases h : writer.describe u with
    | mk result after =>
      cases result with
      | ok records => exact ⟨records, rfl⟩
      | error cause =>
        obtain ⟨before, task, later, journal, c, tasks, performs, fails⟩ := Writer.describe_error h
        exact absurd fails (d.not_fails tasks performs)

end Stabs
