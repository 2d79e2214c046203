import Stabs.Proofs.Unit.Demand

/-!
# What the tasks of a unit request

A task requests one reference, or nothing; one that is rejected requests a fault. The requests of
all tasks are those of the typedefs, tags, declarations and parameters of the unit, in whatever
order the tasks come up, and each of them is demanded.
-/
namespace Stabs

open TypeDescription

/-- The reference in the description of a symbol. -/
def Symbol.reference (symbol : Symbol) : Piece := .reference symbol.ty symbol.full

/-- The pieces that a task asks to have written. -/
def Task.request : Task → List Piece
  | typedef ty => [.reference ty true]
  | tag _ ty => [.reference ty true]
  | symbol s => [s.reference]
  | reject cause => [.fault cause]
  | _ => []

/-- What a tag asks for: the definition of its type, if there is one. -/
def Tag.request (types : TypeTable) (tag : Tag) : List Piece :=
  match tag.name, types.get? tag.ty with
  | none, _ => []
  | some _, none => [.fault (.unknownType tag.ty)]
  | some _, some node => if node.isComplete then [.reference tag.ty true] else []

namespace Declaration

/-- What a declaration outside of a parameter list asks for. -/
def request (types : TypeTable) (decl : Declaration) : List Piece :=
  match decl.kind with
  | .enumConstant => []
  | .typedef => [.reference decl.ty true]
  | .parameter _ => [.fault (.parameterOutsideList decl.name)]
  | .var info => if info.isEmitted then [.reference decl.ty false] else []
  | .function info =>
    if info.isEmitted then
      match Symbol.returnType types decl.name decl.ty with
      | .ok returns => [.reference returns false]
      | .error cause => [.fault cause]
    else []

/-- What a declaration in a parameter list asks for. -/
def parameterRequest (param : Declaration) : List Piece :=
  match param.kind with
  | .parameter _ => [.reference param.ty false]
  | other => [.fault (.notAParameter param.name other.describe)]

end Declaration

/-- What a unit asks for, apart from what its types refer to. -/
def CompilationUnit.requests (u : CompilationUnit) : List Piece :=
  (u.types.entries.filter (·.2.typedefName?.isSome)).map (.reference ·.1 true) ++
    u.writtenTags.flatMap (Tag.request u.types) ++
      u.declarations.flatMap (Declaration.request u.types) ++
        u.parameters.flatMap Declaration.parameterRequest

variable {u : CompilationUnit} {target : Target} {types : TypeTable}

namespace Symbol

variable {name : String} {ty : TypeId}

theorem ofVariable?_of_emitted {info : VariableInfo} (h : info.isEmitted = true) :
    ∃ s, ofVariable? target name ty info = some s ∧ s.reference = .reference ty false := by
  simp only [VariableInfo.isEmitted, Bool.and_eq_true, Bool.not_eq_true', decide_eq_true_eq] at h
  unfold ofVariable?
  rw [h.1]
  cases hl : info.location with
  | eliminated => exact absurd hl h.2
  | static => cases hp : info.isPublic <;> exact ⟨_, rfl, rfl⟩
  | register => exact ⟨_, rfl, rfl⟩
  | frame => exact ⟨_, rfl, rfl⟩

theorem ofVariable?_of_not_emitted {info : VariableInfo} (h : info.isEmitted = false) :
    ofVariable? target name ty info = none := by
  unfold VariableInfo.isEmitted at h
  unfold ofVariable?
  cases external : info.isExternal with
  | true => rfl
  | false =>
    cases hl : info.location with
    | eliminated => rfl
    | _ => simp [external, hl] at h

theorem ofFunction?_of_emitted {info : FunctionInfo} (h : info.isEmitted = true) :
    ∃ letter value, ofFunction? types name ty info =
      (returnType types name ty).map fun returns =>
        some { name, letter, code := .function, value, ty := returns } := by
  simp only [FunctionInfo.isEmitted, Bool.and_eq_true, Bool.not_eq_true'] at h
  obtain ⟨address, ha⟩ := Option.isSome_iff_exists.1 h.2
  refine ⟨some (if info.isPublic then 'F' else 'f'), .address address, ?_⟩
  unfold ofFunction?
  rw [h.1, ha]
  cases returnType types name ty <;> rfl

theorem ofFunction?_of_not_emitted {info : FunctionInfo} (h : info.isEmitted = false) :
    ofFunction? types name ty info = .ok none := by
  unfold FunctionInfo.isEmitted at h
  unfold ofFunction?
  cases external : info.isExternal with
  | true => rfl
  | false =>
    cases ha : info.address with
    | none => rfl
    | some => simp [external, ha] at h

theorem returnType_eq_ok {returns : TypeId} : returnType types name ty = .ok returns ↔
    ∃ node result, types.get? ty = some node ∧ node.kind = .function result ∧
      returns = result.getD .void := by
  unfold returnType
  cases types.get? ty with
  | none => simp
  | some node => cases hk : node.kind <;> simp [hk, eq_comm]

end Symbol

namespace Task

variable {p : Piece}

theorem request_ofTag (tag : Tag) :
    (ofTag types tag).flatMap request = tag.request types := by
  unfold ofTag Tag.request
  cases tag.name with
  | none => rfl
  | some name =>
    cases types.get? tag.ty with
    | none => rfl
    | some node => by_cases complete : node.isComplete = true <;> simp [complete, request]

theorem request_ofLocal (decl : Declaration) :
    (ofLocal u target decl).flatMap request = decl.request u.types := by
  unfold ofLocal Symbol.ofDeclaration? Declaration.request
  cases decl.kind with
  | enumConstant => rfl
  | typedef => rfl
  | parameter => rfl
  | var info =>
    cases emitted : info.isEmitted with
    | false => simp [Symbol.ofVariable?_of_not_emitted emitted, ofChoice, emitted]
    | true =>
      obtain ⟨s, choice, same⟩ :=
        @Symbol.ofVariable?_of_emitted target decl.name decl.ty info emitted
      simp [choice, ofChoice, request, same, emitted]
  | function info =>
    cases emitted : info.isEmitted with
    | false => simp [Symbol.ofFunction?_of_not_emitted emitted, ofChoice, emitted]
    | true =>
      obtain ⟨letter, value, choice⟩ :=
        @Symbol.ofFunction?_of_emitted u.types decl.name decl.ty info emitted
      simp only [choice, emitted, if_true]
      cases Symbol.returnType u.types decl.name decl.ty <;> rfl

theorem request_ofParameter (param : Declaration) :
    (ofParameter target param).flatMap request = param.parameterRequest := by
  unfold ofParameter Symbol.ofParameter Symbol.parameterInfo Declaration.parameterRequest
  cases param.kind <;> rfl

/-- A parameter in a register asks for its type once more. -/
theorem request_ofRegisterParameter (param : Declaration) :
    (ofRegisterParameter target param).flatMap request ⊆ param.parameterRequest := by
  unfold ofRegisterParameter Symbol.ofRegisterParameter? Symbol.parameterInfo
    Declaration.parameterRequest
  cases param.kind with
  | parameter info =>
    cases hl : info.location with
    | register =>
      simp only [Bind.bind, Except.bind, hl]
      exact List.Subset.refl _
    | _ =>
      simp only [Bind.bind, Except.bind, hl]
      exact List.nil_subset _
  | _ => exact List.Subset.refl _

/-- The tasks of a unit request what the unit asks for. -/
theorem mem_request : (∃ task ∈ ofUnit u target, p ∈ task.request) ↔ p ∈ u.requests := by
  simp only [CompilationUnit.requests, List.mem_append, List.mem_flatMap, List.mem_map,
    List.mem_filter]
  constructor
  · rintro ⟨task, mem, h⟩
    cases origin_of_mem mem with
    | sourceFile => cases h
    | enter => cases h
    | leave => cases h
    | typedef entry named =>
      cases List.mem_singleton.1 h
      exact .inl (.inl (.inl ⟨_, ⟨entry, named⟩, rfl⟩))
    | @tag tag _ written ht =>
      refine .inl (.inl (.inr ⟨tag, written, ?_⟩))
      exact request_ofTag tag ▸ List.mem_flatMap.2 ⟨task, ht, h⟩
    | @declaration decl _ declared hd =>
      refine .inl (.inr ⟨decl, declared, ?_⟩)
      exact request_ofLocal decl ▸ List.mem_flatMap.2 ⟨task, hd, h⟩
    | @parameter param _ declared hp =>
      refine .inr ⟨param, declared, ?_⟩
      exact request_ofParameter param ▸ List.mem_flatMap.2 ⟨task, hp, h⟩
    | @registerParameter param _ declared hp =>
      refine .inr ⟨param, declared, ?_⟩
      exact request_ofRegisterParameter param (List.mem_flatMap.2 ⟨task, hp, h⟩)
  · rintro (((⟨entry, ⟨mem, named⟩, rfl⟩ | ⟨tag, written, h⟩) | ⟨decl, declared, h⟩) |
      ⟨param, declared, h⟩)
    · exact ⟨_, mem_ofUnit_of_typedef mem named, List.mem_singleton_self _⟩
    · rw [← request_ofTag] at h
      obtain ⟨task, mem, h⟩ := List.mem_flatMap.1 h
      exact ⟨task, mem_ofUnit_of_tag written mem, h⟩
    · rw [← request_ofLocal] at h
      obtain ⟨task, mem, h⟩ := List.mem_flatMap.1 h
      exact ⟨task, mem_ofUnit_of_declaration declared mem, h⟩
    · rw [← request_ofParameter] at h
      obtain ⟨task, mem, h⟩ := List.mem_flatMap.1 h
      exact ⟨task, mem_ofUnit_of_parameter declared mem, h⟩

end Task

namespace CompilationUnit

variable {p : Piece}

theorem mem_requests_of_declaration {decl : Declaration} (mem : decl ∈ u.declarations)
    (h : p ∈ decl.request u.types) : p ∈ u.requests :=
  List.mem_append_left _ (List.mem_append_right _ (List.mem_flatMap.2 ⟨decl, mem, h⟩))

theorem mem_requests_of_parameter {param : Declaration} (mem : param ∈ u.parameters)
    (h : p ∈ param.parameterRequest) : p ∈ u.requests :=
  List.mem_append_right _ (List.mem_flatMap.2 ⟨param, mem, h⟩)

theorem mem_requests_of_tag {tag : Tag} (mem : tag ∈ u.writtenTags)
    (h : p ∈ tag.request u.types) : p ∈ u.requests :=
  List.mem_append_left _ (List.mem_append_left _
    (List.mem_append_right _ (List.mem_flatMap.2 ⟨tag, mem, h⟩)))

theorem mem_requests_of_entry {ty : TypeId} {node : TypeNode} (mem : (ty, node) ∈ u.types.entries)
    (named : node.typedefName?.isSome = true) : .reference ty true ∈ u.requests :=
  List.mem_append_left _ (List.mem_append_left _ (List.mem_append_left _
    (List.mem_map.2 ⟨(ty, node), List.mem_filter.2 ⟨mem, named⟩, rfl⟩)))

theorem demanded_of_request {decl : Declaration} (mem : decl ∈ u.declarations)
    (h : p ∈ decl.request u.types) : Demanded u p := by
  unfold Declaration.request at h
  cases hk : decl.kind with
  | enumConstant => simp [hk] at h
  | typedef =>
    simp only [hk, List.mem_singleton] at h
    cases h
    exact AskedInFull.typedef mem hk
  | parameter =>
    simp only [hk, List.mem_singleton] at h
    cases h
    trivial
  | var info =>
    simp only [hk] at h
    split at h
    · next emitted =>
      cases List.mem_singleton.1 h
      exact Mentioned.stored mem hk emitted
    · cases h
  | function info =>
    simp only [hk] at h
    split at h
    · next emitted =>
      cases hr : Symbol.returnType u.types decl.name decl.ty with
      | error cause =>
        simp only [hr, List.mem_singleton] at h
        cases h
        trivial
      | ok returns =>
        simp only [hr, List.mem_singleton] at h
        cases h
        obtain ⟨node, result, known, function, rfl⟩ := Symbol.returnType_eq_ok.1 hr
        exact Mentioned.returned mem hk emitted known function
    · cases h

/-- A unit has a reason for everything that it asks for. -/
theorem demanded_of_mem_requests (h : p ∈ u.requests) : Demanded u p := by
  simp only [requests, List.mem_append, List.mem_flatMap, List.mem_map, List.mem_filter] at h
  rcases h with ((⟨entry, ⟨mem, named⟩, rfl⟩ | ⟨tag, written, h⟩) | ⟨decl, declared, h⟩) |
    ⟨param, declared, h⟩
  · exact AskedInFull.entry mem named
  · unfold Tag.request at h
    split at h
    · cases h
    · cases List.mem_singleton.1 h
      trivial
    · next name node hn known =>
      split at h
      · next complete =>
        cases List.mem_singleton.1 h
        exact AskedInFull.tag written (by rw [hn]; rfl) known complete
      · cases h
  · exact demanded_of_request declared h
  · unfold Declaration.parameterRequest at h
    split at h <;> cases List.mem_singleton.1 h
    · exact Mentioned.parameter declared
    · trivial

theorem mem_requests_of_askedInFull {ty : TypeId} (h : AskedInFull u ty) :
    .reference ty true ∈ u.requests := by
  cases h with
  | entry mem named => exact mem_requests_of_entry mem named
  | @tag tag node written named known complete =>
    obtain ⟨name, hn⟩ := Option.isSome_iff_exists.1 named
    apply mem_requests_of_tag written
    simp [Tag.request, hn, known, complete]
  | typedef mem kind =>
    apply mem_requests_of_declaration mem
    simp [Declaration.request, kind]

end CompilationUnit

end Stabs
