import Stabs.Describe.Unit
import Stabs.Proofs.Description.Progress
import Stabs.Proofs.Description.Segments

/-!
# A unit as a list of tasks

What a unit has to write is fixed before anything is written: its typedefs, tags and symbols in the
order in which they come up, the markers of its nested scopes with their numbers, and the
declarations that have no place where they stand. Only whether a typedef or a tag is still due
depends on what was written before.
-/
namespace Stabs

open TypeDescription (Mark Piece Steps)

inductive Task where
  | sourceFile (path label : String)
  | typedef (ty : TypeId)
  | tag (name : String) (ty : TypeId)
  | symbol (symbol : Symbol)
  | reject (cause : DescribeError)
  | enter
  | leave (block : UInt32)
deriving DecidableEq

namespace Task

/-- A complete tag is due unless its type is defined; one without a name is passed over. -/
def ofTag (types : TypeTable) (tag : Tag) : List Task :=
  match tag.name with
  | none => []
  | some name =>
    match types.get? tag.ty with
    | none => [.reject (.unknownType tag.ty)]
    | some node => if node.isComplete then [.tag name tag.ty] else []

def ofTypedefs (types : TypeTable) : List Task :=
  (types.entries.filter (·.2.typedefName?.isSome)).map (.typedef ·.1)

/-- A choice of a symbol as a task, if there is anything to do. -/
def ofChoice : Except DescribeError (Option Symbol) → List Task
  | .error cause => [.reject cause]
  | .ok none => []
  | .ok (some s) => [.symbol s]

def ofLocal (u : CompilationUnit) (target : Target) (decl : Declaration) : List Task :=
  ofChoice (Symbol.ofDeclaration? u.types target decl)

/-- A declaration at file scope, after all tags and typedefs of the unit. -/
def ofSymbol (u : CompilationUnit) (target : Target) (decl : Declaration) : List Task :=
  u.tags.flatMap (ofTag u.types) ++ ofTypedefs u.types ++ ofLocal u target decl

def ofParameter (target : Target) (param : Declaration) : List Task :=
  ofChoice ((Symbol.ofParameter target param).map some)

def ofRegisterParameter (target : Target) (param : Declaration) : List Task :=
  ofChoice (Symbol.ofRegisterParameter? target param)

/-- The number of the next block once the tasks are performed. -/
def nextBlock (next : UInt32) (tasks : List Task) : UInt32 :=
  tasks.foldl (fun n task => if task = .enter then n + 1 else n) next

/-- Only a task that enters a block takes a number. -/
theorem nextBlock_of_forall {tasks : List Task} (h : ∀ task ∈ tasks, task ≠ .enter)
    (next : UInt32) : nextBlock next tasks = next := by
  induction tasks generalizing next with
  | nil => rfl
  | cons task tasks ih =>
    rw [nextBlock, List.foldl_cons, if_neg (h task List.mem_cons_self)]
    exact ih (fun t mem => h t (List.mem_cons_of_mem _ mem)) next

theorem nextBlock_append (next : UInt32) (a b : List Task) :
    nextBlock next (a ++ b) = nextBlock (nextBlock next a) b := List.foldl_append

mutual

/-- The tasks of a statement inside `depth` scopes; `next` is the number of the next block. -/
def ofStatement (u : CompilationUnit) (target : Target) (depth : Nat) (params : List Declaration)
    (next : UInt32) : Statement → List Task
  | .compound body => ofStatements u target depth [] next body
  | .loop body => ofStatements u target depth [] next body
  | .branch thenPart otherwise =>
    ofStatements u target depth [] next thenPart ++
      ofStatements u target depth []
        (nextBlock next (ofStatements u target depth [] next thenPart)) otherwise
  | .scope tags vars body =>
    tags.flatMap (ofTag u.types) ++ vars.flatMap (ofLocal u target) ++
      params.flatMap (ofRegisterParameter target) ++
      if 0 < depth then
        .enter :: (ofStatements u target (depth + 1) [] (next + 1) body ++ [.leave next])
      else ofStatements u target (depth + 1) [] next body

def ofStatements (u : CompilationUnit) (target : Target) (depth : Nat) (params : List Declaration)
    (next : UInt32) : List Statement → List Task
  | [] => []
  | statement :: rest =>
    ofStatement u target depth params next statement ++
      ofStatements u target depth params
        (nextBlock next (ofStatement u target depth params next statement)) rest

end

def ofItem (u : CompilationUnit) (target : Target) (next : UInt32) : Item → List Task
  | .symbol decl => ofSymbol u target decl
  | .function definition =>
    ofSymbol u target definition.decl ++ definition.params.flatMap (ofParameter target) ++
      ofStatements u target 0 definition.params next definition.body

def ofItems (u : CompilationUnit) (target : Target) (next : UInt32) : List Item → List Task
  | [] => []
  | item :: rest =>
    ofItem u target next item ++ ofItems u target (nextBlock next (ofItem u target next item)) rest

/-- The task of a named tag: it is rejected if its type is unknown, and written if complete. -/
theorem mem_ofTag {types : TypeTable} {tag : Tag} {task : Task} : task ∈ ofTag types tag ↔
    ∃ name, tag.name = some name ∧
      ((types.get? tag.ty = none ∧ task = .reject (.unknownType tag.ty)) ∨
        ∃ node, types.get? tag.ty = some node ∧ node.isComplete = true ∧
          task = .tag name tag.ty) := by
  unfold ofTag
  cases tag.name with
  | none => simp
  | some name =>
    cases types.get? tag.ty with
    | none => simp
    | some node => by_cases complete : node.isComplete = true <;> simp [complete]

theorem mem_ofChoice {choice : Except DescribeError (Option Symbol)} {task : Task} :
    task ∈ ofChoice choice ↔ (∃ cause, choice = .error cause ∧ task = .reject cause) ∨
      ∃ s, choice = .ok (some s) ∧ task = .symbol s := by
  match choice with
  | .error cause => simp [ofChoice]
  | .ok none => simp [ofChoice]
  | .ok (some s) => simp [ofChoice]

theorem ofTag_ne_enter {types : TypeTable} {tag : Tag} {task : Task}
    (h : task ∈ ofTag types tag) : task ≠ .enter := by
  rintro rfl
  obtain ⟨name, -, ⟨-, e⟩ | ⟨node, -, -, e⟩⟩ := mem_ofTag.1 h <;> cases e

theorem ofChoice_ne_enter {choice : Except DescribeError (Option Symbol)} {task : Task}
    (h : task ∈ ofChoice choice) : task ≠ .enter := by
  rintro rfl
  obtain ⟨cause, -, e⟩ | ⟨s, -, e⟩ := mem_ofChoice.1 h <;> cases e

theorem ofSymbol_ne_enter {u : CompilationUnit} {target : Target} {decl : Declaration}
    {task : Task} (h : task ∈ ofSymbol u target decl) : task ≠ .enter := by
  simp only [ofSymbol, ofTypedefs, List.mem_append, List.mem_flatMap, List.mem_map] at h
  rcases h with (⟨tag, -, mem⟩ | ⟨entry, -, rfl⟩) | mem
  · exact ofTag_ne_enter mem
  · exact nofun
  · exact ofChoice_ne_enter mem

/-- What stands before the first item. -/
def prelude (u : CompilationUnit) (target : Target) : List Task :=
  .sourceFile u.sourceFile target.textLabel :: .typedef .int :: .typedef .char ::
    ofTypedefs u.types

def ofUnit (u : CompilationUnit) (target : Target) : List Task :=
  prelude u target ++ ofItems u target target.firstBlock u.items

end Task

namespace Context

/-- A typedef or tag that is not due any more needs nothing. -/
def perform (types : TypeTable) : Task → Emitting Unit
  | .sourceFile path label => onOutput (·.sourceFile path label)
  | .typedef ty => do
    let c ← get
    if c.typedefsWritten.contains ty then pure () else emitTypedef types ty
  | .tag name ty => do
    let c ← get
    if c.numbering.statusOf ty = .defined then pure () else describe types (.ofTag name ty)
  | .symbol symbol => describe types symbol
  | .reject cause => throw cause
  | .enter => do
    let _ ← enterBlock
  | .leave block => leaveBlock block

def performAll (types : TypeTable) (tasks : List Task) : Emitting Unit :=
  forM tasks (perform types)

theorem performAll_append (types : TypeTable) (a b : List Task) :
    performAll types (a ++ b) = (do performAll types a; performAll types b) :=
  List.forM_append

theorem performAll_cons (types : TypeTable) (task : Task) (tasks : List Task) :
    performAll types (task :: tasks) = (do perform types task; performAll types tasks) :=
  List.forM_cons

theorem performAll_singleton (types : TypeTable) (task : Task) :
    performAll types [task] = perform types task := by
  simp [performAll]

/-- The context inside a block. -/
def entered (c : Context) : Context :=
  { c with
    out := c.out.marker .leftBracket ("LBB" ++ c.nextBlock.toNat.repr)
    nextBlock := c.nextBlock + 1 }

end Context

/-- A part of the output that one task adds: a record of its own, or a description with the marks
of its type. -/
inductive Entry where
  | record (r : Record)
  | description (symbol : Symbol) (marks : List Mark)

namespace Entry

def records : Entry → List Record
  | record r => [r]
  | description symbol marks => symbol.records marks

def symbol? : Entry → Option Symbol
  | record _ => none
  | description symbol _ => some symbol

end Entry

namespace Task

/-- The symbol that a task describes in a context. -/
def due (types : TypeTable) (c : Context) : Task → Option Symbol
  | .typedef ty =>
    if c.typedefsWritten.contains ty then none
    else ((types.get? ty).bind TypeNode.typedefName?).map (Symbol.ofTypedef · ty)
  | .tag name ty =>
    if c.numbering.statusOf ty = .defined then none else some (.ofTag name ty)
  | .symbol s => some s
  | _ => none

/-- The typedefs that are out once a task is performed. -/
def written (typedefs : List TypeId) : Task → List TypeId
  | .typedef ty => typedefs.insert ty
  | _ => typedefs

end Task

/-- What a task that succeeds adds to the output and makes of a context. -/
inductive Acts (types : TypeTable) (c : Context) : Task → List Entry → Context → Prop
  | described {task : Task} {symbol : Symbol} {marks : List Mark} {N : Numbering}
      (due : task.due types c = some symbol)
      (steps : Steps types c.numbering [.reference symbol.ty symbol.full] marks N []) :
      Acts types c task [.description symbol marks]
        { c with
          numbering := N
          out := c.out.described symbol marks
          typedefsWritten := task.written c.typedefsWritten }
  | typedefOut {ty : TypeId} (out : ty ∈ c.typedefsWritten) : Acts types c (.typedef ty) [] c
  | tagOut {name : String} {ty : TypeId} (out : c.numbering.statusOf ty = .defined) :
      Acts types c (.tag name ty) [] c
  | sourceFile (path label : String) :
      Acts types c (.sourceFile path label) [.record (.sourceFile path label)]
        { c with out := c.out.sourceFile path label }
  | enter (room : c.nextBlock.toNat + 1 < UInt32.size) :
      Acts types c .enter [.record (.marker .leftBracket ("LBB" ++ c.nextBlock.toNat.repr))]
        c.entered
  | leave (block : UInt32) :
      Acts types c (.leave block) [.record (.marker .rightBracket ("LBE" ++ block.toNat.repr))]
        { c with out := c.out.marker .rightBracket ("LBE" ++ block.toNat.repr) }

/-- Why a task fails. -/
inductive Fails (types : TypeTable) (c : Context) : Task → DescribeError → Prop
  | rejected (cause : DescribeError) : Fails types c (.reject cause) cause
  | unknownTypedef {ty : TypeId} (missing : types.get? ty = none) :
      Fails types c (.typedef ty) (.unknownType ty)
  | unnamedTypedef {ty : TypeId} {node : TypeNode} (known : types.get? ty = some node)
      (unnamed : node.typedefName? = none) : Fails types c (.typedef ty) (.missingTypedefName ty)
  | faulty {task : Task} {symbol : Symbol} {marks : List Mark} {N : Numbering}
      {cause : DescribeError} {left : List Piece} (due : task.due types c = some symbol)
      (steps : Steps types c.numbering [.reference symbol.ty symbol.full] marks N
        (.fault cause :: left)) : Fails types c task cause
  | exhausted (full : ¬ c.nextBlock.toNat + 1 < UInt32.size) :
      Fails types c .enter (.blockNumbersExhausted c.nextBlock)

namespace Context

theorem perform_typedef (types : TypeTable) (ty : TypeId) (c : Context) :
    perform types (.typedef ty) c =
      if c.typedefsWritten.contains ty then .ok () c else emitTypedef types ty c := by
  simp only [perform, Bind.bind, EStateM.bind, get_eq]
  split <;> rfl

theorem perform_tag (types : TypeTable) (name : String) (ty : TypeId) (c : Context) :
    perform types (.tag name ty) c =
      if c.numbering.statusOf ty = .defined then .ok () c
      else describe types (.ofTag name ty) c := by
  simp only [perform, Bind.bind, EStateM.bind, get_eq]
  split <;> rfl

theorem enterBlock_eq (c : Context) : enterBlock c =
    if c.nextBlock.toNat + 1 < UInt32.size then .ok c.nextBlock c.entered
    else .error (.blockNumbersExhausted c.nextBlock) c := by
  simp only [enterBlock, allocateBlock, Bind.bind, EStateM.bind]
  by_cases room : c.nextBlock.toNat + 1 < UInt32.size
  · simp only [if_pos room]
    rfl
  · simp only [if_neg room]

theorem perform_enter (types : TypeTable) (c : Context) : perform types .enter c =
    if c.nextBlock.toNat + 1 < UInt32.size then .ok () c.entered
    else .error (.blockNumbersExhausted c.nextBlock) c := by
  simp only [perform, Bind.bind, EStateM.bind, enterBlock_eq]
  by_cases room : c.nextBlock.toNat + 1 < UInt32.size
  · simp only [if_pos room]
    rfl
  · simp only [if_neg room]

/-- A typedef that is named is noted as written and then described. -/
theorem emitTypedef_eq {types : TypeTable} {ty : TypeId} {node : TypeNode} {name : String}
    (known : types.get? ty = some node) (named : node.typedefName? = some name) (c : Context) :
    emitTypedef types ty c = describe types (.ofTypedef name ty)
      { c with typedefsWritten := c.typedefsWritten.insert ty } := by
  simp only [emitTypedef, known, named]
  rfl

theorem due_typedef {types : TypeTable} {ty : TypeId} {node : TypeNode} {name : String}
    {c : Context} (known : types.get? ty = some node) (named : node.typedefName? = some name)
    (waiting : ¬ c.typedefsWritten.contains ty = true) :
    Task.due types c (.typedef ty) = some (.ofTypedef name ty) := by
  rw [Task.due, if_neg waiting, known]
  simp [named]

theorem perform_ok {types : TypeTable} {task : Task} {c c' : Context}
    (h : perform types task c = .ok () c') : ∃ entries, Acts types c task entries c' := by
  cases task with
  | sourceFile path label => cases h; exact ⟨_, .sourceFile path label⟩
  | typedef ty =>
    rw [perform_typedef] at h
    split at h
    · next out => cases h; exact ⟨_, .typedefOut (List.contains_iff_mem.1 out)⟩
    · next waiting =>
      cases known : types.get? ty with
      | none => simp only [emitTypedef, known] at h; cases h
      | some node =>
        cases named : node.typedefName? with
        | none => simp only [emitTypedef, known, named] at h; cases h
        | some name =>
          rw [emitTypedef_eq known named] at h
          obtain ⟨marks, steps, eq⟩ := describe_ok h
          rw [eq]
          exact ⟨_, .described (due_typedef known named waiting) steps⟩
  | tag name ty =>
    rw [perform_tag] at h
    split at h
    · next out => cases h; exact ⟨_, .tagOut out⟩
    · next waiting =>
      obtain ⟨marks, steps, eq⟩ := describe_ok h
      rw [eq]
      exact ⟨_, .described (if_neg waiting) steps⟩
  | symbol symbol =>
    obtain ⟨marks, steps, eq⟩ := describe_ok h
    rw [eq]
    exact ⟨_, .described rfl steps⟩
  | reject cause => cases h
  | enter =>
    rw [perform_enter] at h
    split at h
    · next room => cases h; exact ⟨_, .enter room⟩
    · cases h
  | leave block => cases h; exact ⟨_, .leave block⟩

theorem perform_error {types : TypeTable} {task : Task} {c c' : Context} {cause : DescribeError}
    (h : perform types task c = .error cause c') : Fails types c task cause := by
  cases task with
  | sourceFile path label => cases h
  | typedef ty =>
    rw [perform_typedef] at h
    split at h
    · cases h
    · next waiting =>
      cases known : types.get? ty with
      | none => simp only [emitTypedef, known] at h; cases h; exact .unknownTypedef known
      | some node =>
        cases named : node.typedefName? with
        | none =>
          simp only [emitTypedef, known, named] at h
          cases h
          exact .unnamedTypedef known named
        | some name =>
          rw [emitTypedef_eq known named] at h
          obtain ⟨marks, left, steps⟩ := describe_error h
          exact .faulty (due_typedef known named waiting) steps
  | tag name ty =>
    rw [perform_tag] at h
    split at h
    · cases h
    · next waiting =>
      obtain ⟨marks, left, steps⟩ := describe_error h
      exact .faulty (if_neg waiting) steps
  | symbol symbol =>
    obtain ⟨marks, left, steps⟩ := describe_error h
    exact .faulty rfl steps
  | reject cause => cases h; exact .rejected _
  | enter =>
    rw [perform_enter] at h
    split at h
    · cases h
    · next full => cases h; exact .exhausted full
  | leave block => cases h

end Context

end Stabs
