import Stabs.Proofs.Unit.Blocks
import Stabs.Proofs.Unit.Flushing

/-!
# What a unit writes, in order

The output of a unit follows its structure. A scope writes its tags, its variables and the
parameters that live in registers; a block has its markers behind these and around its body. No
entry is left over, so each one belongs to one statement, item or typedef.
-/
namespace Stabs

namespace Record

def left (n : Nat) : Record := .marker .leftBracket ("LBB" ++ n.repr)

def right (n : Nat) : Record := .marker .rightBracket ("LBE" ++ n.repr)

end Record

/-- Some tags are described, in order. One without a name, an incomplete one and one whose type is
defined already are passed over. -/
inductive WritesTags : List Tag → List Entry → Prop
  | nil : WritesTags [] []
  | skip (tag : Tag) {tags : List Tag} {entries : List Entry} (rest : WritesTags tags entries) :
      WritesTags (tag :: tags) entries
  | written {tag : Tag} {name : String} {tags : List Tag} {entries : List Entry}
      (marks : List TypeDescription.Mark) (named : tag.name = some name)
      (rest : WritesTags tags entries) :
      WritesTags (tag :: tags) (.description (.ofTag name tag.ty) marks :: entries)

/-- Each declaration has the description of the symbol that is chosen for it, if any. -/
inductive WritesChosen (choice : Declaration → Except DescribeError (Option Symbol)) :
    List Declaration → List Entry → Prop
  | nil : WritesChosen choice [] []
  | skip {decl : Declaration} {decls : List Declaration} {entries : List Entry}
      (chosen : choice decl = .ok none) (rest : WritesChosen choice decls entries) :
      WritesChosen choice (decl :: decls) entries
  | written {decl : Declaration} {symbol : Symbol} {decls : List Declaration}
      {entries : List Entry} (marks : List TypeDescription.Mark)
      (chosen : choice decl = .ok (some symbol)) (rest : WritesChosen choice decls entries) :
      WritesChosen choice (decl :: decls) (.description symbol marks :: entries)

section

variable (u : CompilationUnit) (target : Target)

/-- The entries of a scope itself, without those of its body. -/
inductive WritesScope : List Tag → List Declaration → List Declaration → List Entry → Prop
  | intro {tags : List Tag} {vars params : List Declaration} {ofTags ofVars ofParams : List Entry}
      (first : WritesTags tags ofTags)
      (second : WritesChosen (Symbol.ofDeclaration? u.types target) vars ofVars)
      (third : WritesChosen (Symbol.ofRegisterParameter? target) params ofParams) :
      WritesScope tags vars params (ofTags ++ ofVars ++ ofParams)

mutual

/-- The entries of a statement, from the number of the next block to the next but those inside.
The parameters are those that a scope describes a second time. -/
inductive WritesStatement : Bool → List Declaration → Nat → Statement → List Entry → Nat → Prop
  | compound {enclosed : Bool} {params : List Declaration} {next next' : Nat}
      {body : List Statement} {entries : List Entry}
      (inner : WritesStatements enclosed [] next body entries next') :
      WritesStatement enclosed params next (.compound body) entries next'
  | loop {enclosed : Bool} {params : List Declaration} {next next' : Nat}
      {body : List Statement} {entries : List Entry}
      (inner : WritesStatements enclosed [] next body entries next') :
      WritesStatement enclosed params next (.loop body) entries next'
  | branch {enclosed : Bool} {params : List Declaration} {next middle next' : Nat}
      {thenPart otherwise : List Statement} {first second : List Entry}
      (before : WritesStatements enclosed [] next thenPart first middle)
      (behind : WritesStatements enclosed [] middle otherwise second next') :
      WritesStatement enclosed params next (.branch thenPart otherwise) (first ++ second) next'
  | outermost {params vars : List Declaration} {tags : List Tag} {next next' : Nat}
      {body : List Statement} {own entries : List Entry}
      (scope : WritesScope u target tags vars params own)
      (inner : WritesStatements true [] next body entries next') :
      WritesStatement false params next (.scope tags vars body) (own ++ entries) next'
  | block {params vars : List Declaration} {tags : List Tag} {next next' : Nat}
      {body : List Statement} {own entries : List Entry}
      (scope : WritesScope u target tags vars params own)
      (inner : WritesStatements true [] (next + 1) body entries next') :
      WritesStatement true params next (.scope tags vars body)
        (own ++ .record (.left next) :: (entries ++ [.record (.right next)])) next'

inductive WritesStatements :
    Bool → List Declaration → Nat → List Statement → List Entry → Nat → Prop
  | nil {enclosed : Bool} {params : List Declaration} {next : Nat} :
      WritesStatements enclosed params next [] [] next
  | cons {enclosed : Bool} {params : List Declaration} {next middle next' : Nat}
      {statement : Statement} {rest : List Statement} {first second : List Entry}
      (head : WritesStatement enclosed params next statement first middle)
      (tail : WritesStatements enclosed params middle rest second next') :
      WritesStatements enclosed params next (statement :: rest) (first ++ second) next'

end

/-- A declaration at file scope has the tags of the file in front of it, as far as they are due. No
typedef is due any more. -/
inductive WritesSymbol : Declaration → List Entry → Prop
  | intro {decl : Declaration} {ofTags ofSymbol : List Entry} (first : WritesTags u.tags ofTags)
      (second : WritesChosen (Symbol.ofDeclaration? u.types target) [decl] ofSymbol) :
      WritesSymbol decl (ofTags ++ ofSymbol)

inductive WritesItem : Nat → Item → List Entry → Nat → Prop
  | symbol {decl : Declaration} {next : Nat} {own : List Entry}
      (symbol : WritesSymbol u target decl own) : WritesItem next (.symbol decl) own next
  | function {definition : FunctionDefinition} {next next' : Nat}
      {own ofParams ofBody : List Entry} (symbol : WritesSymbol u target definition.decl own)
      (params : WritesChosen (fun param => (Symbol.ofParameter target param).map some)
        definition.params ofParams)
      (body : WritesStatements u target false definition.params next definition.body ofBody
        next') :
      WritesItem next (.function definition) (own ++ ofParams ++ ofBody) next'

inductive WritesItems : Nat → List Item → List Entry → Nat → Prop
  | nil {next : Nat} : WritesItems next [] [] next
  | cons {next middle next' : Nat} {item : Item} {rest : List Item} {first second : List Entry}
      (head : WritesItem u target next item first middle)
      (tail : WritesItems middle rest second next') :
      WritesItems next (item :: rest) (first ++ second) next'

/-- The source file and typedefs of the table. -/
inductive WritesPrelude : List Entry → Prop
  | intro {typedefs : List Entry} (named : ∀ entry ∈ typedefs, ∃ ty node name marks,
        u.types.get? ty = some node ∧ node.typedefName? = some name ∧
          entry = .description (.ofTypedef name ty) marks) :
      WritesPrelude (.record (.sourceFile u.sourceFile target.textLabel) :: typedefs)

/-- The entries of a unit: what stands in front, and then the items. -/
inductive WritesUnit : List Entry → Nat → Prop
  | intro {prelude entries : List Entry} {next : Nat} (front : WritesPrelude u target prelude)
      (items : WritesItems u target target.firstBlock.toNat u.items entries next) :
      WritesUnit (prelude ++ entries) next

end

variable {u : CompilationUnit} {target : Target} {types : TypeTable} {c c' : Context}
  {task : Task} {tasks others : List Task} {entries journal : List Entry}

/-- Tasks in a row are performed one part after the other. -/
theorem Performs.of_append (h : Performs types c (tasks ++ others) journal c') :
    ∃ middle first second, Performs types c tasks first middle ∧
      Performs types middle others second c' ∧ journal = first ++ second := by
  induction tasks generalizing c journal with
  | nil => exact ⟨c, [], journal, .nil c, h, rfl⟩
  | cons task tasks ih =>
    cases h with
    | cons head tail =>
      obtain ⟨middle, first, second, hf, hs, rfl⟩ := ih tail
      exact ⟨middle, _ ++ first, second, .cons head hf, hs, (List.append_assoc ..).symm⟩

theorem Performs.append {middle : Context} (h : Performs types c tasks entries middle)
    (more : Performs types middle others journal c') :
    Performs types c (tasks ++ others) (entries ++ journal) c' := by
  induction h with
  | nil => exact more
  | cons first _ ih =>
    rw [List.cons_append, List.append_assoc]
    exact .cons first (ih more)

theorem Performs.of_singleton (h : Performs types c [task] journal c') :
    Acts types c task journal c' := by
  cases h with
  | cons head tail =>
    cases tail
    rwa [List.append_nil]

theorem Performs.writesTags {tags : List Tag}
    (h : Performs types c (tags.flatMap (Task.ofTag types)) journal c') :
    WritesTags tags journal := by
  induction tags generalizing c journal with
  | nil =>
    cases h
    exact .nil
  | cons tag tags ih =>
    obtain ⟨middle, first, second, head, tail, rfl⟩ := Performs.of_append h
    have rest := ih tail
    unfold Task.ofTag at head
    split at head
    · cases head
      exact rest.skip tag
    · next name named =>
      split at head
      · exact absurd head.of_singleton Acts.not_reject
      · split at head
        · cases head.of_singleton with
          | described due =>
            rw [Task.due] at due
            split at due <;> cases due
            exact rest.written _ named
          | tagOut => exact rest.skip tag
        · cases head
          exact rest.skip tag

theorem Performs.writesChosen {choice : Declaration → Except DescribeError (Option Symbol)}
    {decls : List Declaration}
    (h : Performs types c (decls.flatMap fun decl => Task.ofChoice (choice decl)) journal c') :
    WritesChosen choice decls journal := by
  induction decls generalizing c journal with
  | nil =>
    cases h
    exact .nil
  | cons decl decls ih =>
    obtain ⟨middle, first, second, head, tail, rfl⟩ := Performs.of_append h
    have rest := ih tail
    match chosen : choice decl with
    | .error cause =>
      simp only [chosen] at head
      exact absurd head.of_singleton Acts.not_reject
    | .ok none =>
      simp only [chosen] at head
      cases head
      exact rest.skip chosen
    | .ok (some symbol) =>
      simp only [chosen] at head
      cases head.of_singleton with
      | described due =>
        cases due
        exact rest.written _ chosen

/-- The typedefs of the table are out. -/
def TypedefsOut (types : TypeTable) (c : Context) : Prop :=
  ∀ ty, .typedef ty ∈ Task.ofTypedefs types → ty ∈ c.typedefsWritten

theorem TypedefsOut.performs (h : Performs types c tasks journal c') (out : TypedefsOut types c) :
    TypedefsOut types c' :=
  h.keeps (TypedefsOut types) (fun acts out ty mem => acts.typedefs_subset (out ty mem)) out

theorem Performs.writesTypedefs (h : Performs types c (Task.ofTypedefs types) journal c')
    (out : TypedefsOut types c) : journal = [] := by
  refine (h.of_idle fun task mem => ?_).1
  obtain ⟨entry, -, rfl⟩ := List.mem_map.1 mem
  exact out _ mem

theorem Performs.writesScope {tags : List Tag} {vars params : List Declaration}
    (h : Performs u.types c (tags.flatMap (Task.ofTag u.types) ++
      vars.flatMap (Task.ofLocal u target) ++ params.flatMap (Task.ofRegisterParameter target))
        journal c') :
    WritesScope u target tags vars params journal ∧ c'.nextBlock.toNat = c.nextBlock.toNat := by
  have next := h.nextBlock
  obtain ⟨c₂, before, ofParams, others, third, rfl⟩ := h.of_append
  obtain ⟨c₁, ofTags, ofVars, first, second, rfl⟩ := others.of_append
  refine ⟨.intro first.writesTags second.writesChosen third.writesChosen, ?_⟩
  rw [next, List.count_append, List.count_append, Task.count_enter_ofTags]
  unfold Task.ofLocal Task.ofRegisterParameter
  rw [Task.count_enter_ofChoices, Task.count_enter_ofChoices, Nat.add_zero]

/-- Behind tasks the number of the next block is that of the context. -/
theorem Performs.nextBlock_eq (h : Performs types c tasks journal c') :
    Task.nextBlock c.nextBlock tasks = c'.nextBlock := by
  induction h with
  | nil => rfl
  | @cons c c₁ c₂ task tasks entries journal first _ ih =>
    rw [← ih, Context.nextBlock_acts first, ← Task.nextBlock_append, List.singleton_append]

namespace Performs

/-- A block has its markers around what is inside, and only its left one takes a number. -/
theorem of_block {block : UInt32}
    (h : Performs types c (.enter :: (tasks ++ [.leave block])) journal c') :
    ∃ outside entries, Performs types c.entered tasks entries outside ∧
      c.entered.nextBlock.toNat = c.nextBlock.toNat + 1 ∧
        c' = { outside with
          out := outside.out.marker .rightBracket ("LBE" ++ block.toNat.repr) } ∧
            journal = .record (.left c.nextBlock.toNat) ::
              (entries ++ [.record (.right block.toNat)]) := by
  cases h with
  | cons enter rest =>
    obtain ⟨outside, entries, stop, inner, leave, rfl⟩ := rest.of_append
    have taken := enter.nextBlock
    cases enter with
    | described due => cases due
    | enter room =>
      cases leave.of_singleton with
      | described due => cases due
      | leave => exact ⟨outside, entries, inner, taken, rfl, rfl⟩

mutual

/-- The tasks of a statement write its entries. -/
theorem writesStatement (statement : Statement) {depth : Nat} {params : List Declaration}
    {c c' : Context} {journal : List Entry}
    (h : Performs u.types c (Task.ofStatement u target depth params c.nextBlock statement) journal
      c') :
    WritesStatement u target (decide (0 < depth)) params c.nextBlock.toNat statement journal
      c'.nextBlock.toNat := by
  cases statement with
  | compound body =>
    rw [Task.ofStatement] at h
    exact .compound (writesStatements body h)
  | loop body =>
    rw [Task.ofStatement] at h
    exact .loop (writesStatements body h)
  | branch thenPart otherwise =>
    rw [Task.ofStatement] at h
    obtain ⟨middle, first, second, before, behind, rfl⟩ := h.of_append
    rw [before.nextBlock_eq] at behind
    exact .branch (writesStatements thenPart before) (writesStatements otherwise behind)
  | scope tags vars body =>
    rw [Task.ofStatement] at h
    obtain ⟨c₁, own, rest, ofScope, inside, rfl⟩ := h.of_append
    obtain ⟨scope, same⟩ := ofScope.writesScope
    have next : c.nextBlock = c₁.nextBlock := UInt32.toNat_inj.1 same.symm
    rw [next] at inside ⊢
    split at inside
    · next enclosed =>
      rw [decide_eq_true enclosed]
      obtain ⟨outside, entries, inner, next', rfl, rfl⟩ := inside.of_block
      have written := writesStatements body inner
      rw [next'] at written
      exact .block scope written
    · next outside =>
      rw [decide_eq_false outside]
      exact .outermost scope (writesStatements body inside)

theorem writesStatements (statements : List Statement) {depth : Nat}
    {params : List Declaration} {c c' : Context} {journal : List Entry}
    (h : Performs u.types c (Task.ofStatements u target depth params c.nextBlock statements)
      journal c') :
    WritesStatements u target (decide (0 < depth)) params c.nextBlock.toNat statements journal
      c'.nextBlock.toNat := by
  cases statements with
  | nil =>
    rw [Task.ofStatements] at h
    cases h
    exact .nil
  | cons statement rest =>
    rw [Task.ofStatements] at h
    obtain ⟨middle, first, second, head, tail, rfl⟩ := h.of_append
    rw [head.nextBlock_eq] at tail
    exact .cons (writesStatement statement head) (writesStatements rest tail)

end

end Performs

/-- A declaration at file scope, behind typedefs that are all out. -/
theorem Performs.writesSymbol {decl : Declaration} (out : TypedefsOut u.types c)
    (h : Performs u.types c (Task.ofSymbol u target decl) journal c') :
    WritesSymbol u target decl journal ∧ c'.nextBlock.toNat = c.nextBlock.toNat := by
  have next := h.nextBlock
  rw [Task.count_enter_ofSymbol, Nat.add_zero] at next
  obtain ⟨c₂, before, ofSymbol, others, symbol, rfl⟩ := h.of_append
  obtain ⟨c₁, ofTags, ofTypedefs, tags, typedefs, rfl⟩ := others.of_append
  have none := typedefs.writesTypedefs (out.performs tags)
  subst none
  rw [List.append_nil]
  have own : Performs u.types c₂ ([decl].flatMap (Task.ofLocal u target)) ofSymbol c' := by
    rwa [List.flatMap_cons, List.flatMap_nil, List.append_nil]
  exact ⟨.intro tags.writesTags own.writesChosen, next⟩

theorem Performs.writesItem {item : Item} (out : TypedefsOut u.types c)
    (h : Performs u.types c (Task.ofItem u target c.nextBlock item) journal c') :
    WritesItem u target c.nextBlock.toNat item journal c'.nextBlock.toNat := by
  cases item with
  | symbol decl =>
    obtain ⟨symbol, same⟩ := writesSymbol out h
    rw [same]
    exact .symbol symbol
  | function definition =>
    obtain ⟨c₂, before, ofBody, others, body, rfl⟩ := h.of_append
    obtain ⟨c₁, own, ofParams, symbol, params, rfl⟩ := others.of_append
    obtain ⟨symbol, same⟩ := writesSymbol out symbol
    have next := params.nextBlock
    unfold Task.ofParameter at params next
    rw [Task.count_enter_ofChoices, Nat.add_zero, same] at next
    rw [← UInt32.toNat_inj.1 next] at body ⊢
    exact .function symbol params.writesChosen (writesStatements definition.body body)

theorem Performs.writesItems {items : List Item} (out : TypedefsOut u.types c)
    (h : Performs u.types c (Task.ofItems u target c.nextBlock items) journal c') :
    WritesItems u target c.nextBlock.toNat items journal c'.nextBlock.toNat := by
  induction items generalizing c journal with
  | nil =>
    cases h
    exact .nil
  | cons item rest ih =>
    rw [Task.ofItems] at h
    obtain ⟨middle, first, second, head, tail, rfl⟩ := h.of_append
    rw [head.nextBlock_eq] at tail
    exact .cons (writesItem out head) (ih (out.performs head) tail)

/-- Of a typedef nothing is written but its description. -/
theorem Acts.writesTypedef {ty : TypeId} (h : Acts types c (.typedef ty) entries c') :
    ∀ entry ∈ entries, ∃ ty node name marks, types.get? ty = some node ∧
      node.typedefName? = some name ∧ entry = .description (.ofTypedef name ty) marks := by
  intro entry mem
  cases h with
  | @described _ symbol marks N due steps =>
    cases List.mem_singleton.1 mem
    rw [Task.due] at due
    split at due
    · cases due
    · obtain ⟨name, named, rfl⟩ := Option.map_eq_some_iff.1 due
      obtain ⟨node, known, named⟩ := Option.bind_eq_some_iff.1 named
      exact ⟨ty, node, name, marks, known, named, rfl⟩
  | typedefOut => cases mem

theorem Performs.writesPrelude (h : Performs u.types c (Task.prelude u target) journal c') :
    WritesPrelude u target journal ∧ TypedefsOut u.types c' := by
  constructor
  · cases h with
    | cons first rest =>
      cases first with
      | described due => cases due
      | sourceFile =>
        refine .intro (rest.forall_entries _ ?_)
        simp only [Task.ofTypedefs, List.mem_cons, List.mem_map]
        rintro task (rfl | rfl | ⟨entry, -, rfl⟩) <;> exact Acts.writesTypedef
  · intro ty mem
    have idle : (Task.typedef ty).Idle c' := by
      refine h.idle ?_ trivial
      exact List.mem_cons_of_mem _ (List.mem_cons_of_mem _ (List.mem_cons_of_mem _ mem))
    exact idle

/-- A unit that is described has run its prelude and then its items. -/
theorem Writer.describe_parts {writer after : Writer} {records : List Record}
    (h : writer.describe u = (.ok records, after)) :
    ∃ middle last prelude entries,
      Context.emitPrelude u writer.target (.fresh writer.target.firstBlock) = .ok () middle ∧
        Performs u.types (.fresh writer.target.firstBlock) (Task.prelude u writer.target) prelude
          middle ∧
          Performs u.types middle (Task.ofItems u writer.target writer.target.firstBlock u.items)
            entries last ∧
            middle.nextBlock = writer.target.firstBlock ∧
              records = (prelude ++ entries).flatMap Entry.records ∧
                after.context.numbering = last.numbering := by
  rw [Writer.describe, Context.reset_eq] at h
  split at h
  · next last run =>
    simp only [Context.emitUnit, Bind.bind, EStateM.bind] at run
    cases front : Context.emitPrelude u writer.target (.fresh writer.target.firstBlock) with
    | error cause middle => rw [front] at run; cases run
    | ok _ middle =>
      rw [front] at run
      dsimp only at run
      have front' := front
      rw [Context.emitPrelude_eq] at front'
      have next : middle.nextBlock = writer.target.firstBlock := Context.nextBlock_prelude front'
      rw [Context.emitItems_eq, next] at run
      obtain ⟨prelude, first⟩ := Context.performAll_ok front'
      obtain ⟨entries, second⟩ := Context.performAll_ok run
      cases h
      refine ⟨middle, last, prelude, entries, rfl, first, second, next, ?_, rfl⟩
      rw [second.records, first.records]
      simp [Context.fresh, Emitter.empty]
  · cases h

/-- The output of a unit follows the structure of the unit. -/
theorem Writer.describe_writes {writer after : Writer} {records : List Record}
    (h : writer.describe u = (.ok records, after)) :
    ∃ entries next, WritesUnit u writer.target entries next ∧ next < UInt32.size ∧
      records = entries.flatMap Entry.records := by
  obtain ⟨middle, last, prelude, entries, -, front, items, next, rfl, -⟩ := describe_parts h
  obtain ⟨written, out⟩ := front.writesPrelude
  rw [← next] at items
  have behind := items.writesItems out
  rw [next] at behind
  exact ⟨_, _, .intro written behind, last.nextBlock.toNat_lt, rfl⟩

end Stabs
