import Stabs.Proofs.Unit.Declarations

/-!
# The typedefs of a unit

In front of the items a unit has one description for each type of the table that a typedef names, in
the order of the table. A typedef that is out is not written again: neither where `int` and `char`
come up a second time, nor in front of any item. Behind the first item only what the unit declares
as a typedef has the letter of one.
-/
namespace Stabs

open TypeDescription

namespace TypeTable

/-- The types that a typedef names, in the order of the table. Places beyond the last id of 32 bits
have no type of their own. -/
def typedefs (types : TypeTable) : List TypeId :=
  ((types.entries.take UInt32.size).filter (·.2.typedefName?.isSome)).map (·.1)

theorem getElem?_entries (types : TypeTable) (i : Nat) :
    types.entries[i]? = types.nodes[i]?.map fun node => (.ofNat i, node) := by
  simp [entries, Option.map_map, Function.comp_def]

/-- The id of an entry leads back to its node. -/
theorem mem_take_entries {types : TypeTable} {ty : TypeId} {node : TypeNode} :
    (ty, node) ∈ types.entries.take UInt32.size ↔ types.get? ty = some node := by
  rw [List.mem_iff_getElem?]
  constructor
  · rintro ⟨i, h⟩
    rw [List.getElem?_take] at h
    split at h
    · next small =>
      rw [getElem?_entries, Option.map_eq_some_iff] at h
      obtain ⟨_, known, e⟩ := h
      cases e
      rwa [get?, TypeId.toNat_ofNat small]
    · cases h
  · intro known
    refine ⟨ty.toNat, ?_⟩
    rw [List.getElem?_take, if_pos (by exact ty.index.toNat_lt), getElem?_entries]
    rw [get?] at known
    rw [known, Option.map_some, TypeId.ofNat_toNat]

theorem mem_typedefs {types : TypeTable} {ty : TypeId} : ty ∈ types.typedefs ↔
    ((types.get? ty).bind TypeNode.typedefName?).isSome = true := by
  simp only [typedefs, List.mem_map, List.mem_filter]
  constructor
  · rintro ⟨⟨ty, node⟩, ⟨mem, named⟩, rfl⟩
    rwa [mem_take_entries.1 mem, Option.bind_some]
  · intro named
    obtain ⟨name, h⟩ := Option.isSome_iff_exists.1 named
    obtain ⟨node, known, h⟩ := Option.bind_eq_some_iff.1 h
    exact ⟨(ty, node), ⟨mem_take_entries.2 known, by rw [h]; rfl⟩, rfl⟩

theorem pairwise_typedefs (types : TypeTable) :
    types.typedefs.Pairwise fun a b => a.toNat < b.toNat := by
  have place {i : Nat} (hi : i < (types.entries.take UInt32.size).length) :
      (types.entries.take UInt32.size)[i].1.toNat = i := by
    have small : i < UInt32.size := Nat.lt_of_lt_of_le hi (List.length_take_le _ _)
    have entry := List.getElem?_eq_getElem hi
    rw [List.getElem?_take, if_pos small, getElem?_entries, Option.map_eq_some_iff] at entry
    obtain ⟨node, -, e⟩ := entry
    rw [← e, TypeId.toNat_ofNat small]
  rw [typedefs, List.pairwise_map]
  apply List.Pairwise.filter
  rw [List.pairwise_iff_getElem]
  intro i j hi hj less
  rwa [place hi, place hj]

theorem nodup_typedefs (types : TypeTable) : types.typedefs.Nodup :=
  types.pairwise_typedefs.imp fun less e => by simp [e] at less

/-- The built-in types come first. -/
theorem typedefs_builtins (types : TypeTable) : [.int, .char, .void] <+: types.typedefs := by
  obtain ⟨int, char, void, rest, nodes, hi, hc, hv⟩ := types.builtin_nodes
  unfold typedefs entries
  rw [nodes]
  simp only [List.zipIdx_cons, List.map_cons]
  rw [show UInt32.size = UInt32.size - 3 + 1 + 1 + 1 from rfl]
  simp only [List.take_succ_cons, List.filter_cons, hi.named, hc.named, hv.named, if_true,
    List.map_cons]
  exact List.prefix_append [TypeId.int, .char, .void] _

end TypeTable

/-- A list with its own front before it has its elements in the same order. -/
theorem eraseDups_append_of_prefix {α : Type} [DecidableEq α] {l m : List α} (h : l <+: m) :
    (l ++ m).eraseDups = m.eraseDups := by
  obtain ⟨rest, rfl⟩ := h
  have none : l.removeAll l = [] := List.filter_eq_nil_iff.2 fun a mem => by simpa using mem
  have same : (l ++ rest).removeAll l = rest.removeAll l := by
    rw [List.removeAll, List.filter_append, ← List.removeAll, none, List.nil_append, List.removeAll]
  rw [List.eraseDups_append, same, List.eraseDups_append]

/-- The symbol of the typedef that names a type. -/
def Symbol.ofTypedef? (types : TypeTable) (ty : TypeId) : Option Symbol :=
  ((types.get? ty).bind TypeNode.typedefName?).map (.ofTypedef · ty)

variable {u : CompilationUnit} {target : Target} {types : TypeTable} {c c' : Context}
  {entries journal : List Entry} {N : Numbering}

/-- Every typedef that is out has a name. -/
def NamedOut (types : TypeTable) (c : Context) : Prop := c.typedefsWritten ⊆ types.typedefs

theorem Acts.typedef_cases {ty : TypeId} (h : Acts types c (.typedef ty) entries c') :
    (ty ∈ c.typedefsWritten ∧ entries = [] ∧ c' = c) ∨
      ty ∉ c.typedefsWritten ∧ ∃ symbol marks, Symbol.ofTypedef? types ty = some symbol ∧
        entries = [.description symbol marks] ∧
          c'.typedefsWritten = c.typedefsWritten.insert ty := by
  cases h with
  | typedefOut out => exact .inl ⟨out, rfl, rfl⟩
  | @described _ symbol marks N due steps =>
    rw [Task.due] at due
    split at due
    · cases due
    · next waiting => exact .inr ⟨by simpa using waiting, symbol, marks, due, rfl, rfl⟩

/-- Typedefs are described as they come up, those that are out left aside and none twice. -/
theorem Performs.typedefs_symbols {tys : List TypeId}
    (h : Performs types c (tys.map .typedef) journal c') :
    journal.filterMap Entry.symbol? =
      (tys.filter (· ∉ c.typedefsWritten)).eraseDups.filterMap (Symbol.ofTypedef? types) := by
  induction tys generalizing c journal with
  | nil =>
    cases h
    rfl
  | cons ty tys ih =>
    cases h with
    | cons first rest =>
      rw [List.filterMap_append, ih rest]
      rcases first.typedef_cases with ⟨out, rfl, rfl⟩ | ⟨waiting, symbol, marks, due, rfl, written⟩
      · rw [List.filter_cons_of_neg (by simpa using out)]
        rfl
      · have later : tys.filter (· ∉ (c.typedefsWritten.insert ty)) =
            (tys.filter (· ∉ c.typedefsWritten)).filter fun x => !x == ty := by
          rw [List.filter_filter]
          refine List.filter_congr fun x _ => ?_
          by_cases e : x = ty <;> simp [e]
        rw [List.filter_cons_of_pos (by simpa using waiting), List.eraseDups_cons,
          List.filterMap_cons_some due, written, later]
        rfl

theorem Acts.namedOut {task : Task} (h : Acts types c task entries c') (named : NamedOut types c) :
    NamedOut types c' := by
  intro x mem
  rw [Context.written_acts h] at mem
  cases task with
  | typedef ty =>
    rcases List.mem_insert_iff.1 mem with rfl | mem
    · rcases h.typedef_cases with ⟨out, -⟩ | ⟨-, symbol, marks, due, -⟩
      · exact named out
      · obtain ⟨name, h, -⟩ := Option.map_eq_some_iff.1 due
        exact TypeTable.mem_typedefs.2 (by rw [h]; rfl)
    · exact named mem
  | _ => exact named mem

/-- The typedefs of the prelude are those of the table. -/
theorem Performs.prelude_symbols (none : c.typedefsWritten = [])
    (h : Performs types c (.typedef .int :: .typedef .char :: Task.ofTypedefs types) journal c') :
    journal.filterMap Entry.symbol? =
      types.typedefs.filterMap (Symbol.ofTypedef? types) := by
  let more := ((types.entries.drop UInt32.size).filter (·.2.typedefName?.isSome)).map (·.1)
  have all : Task.ofTypedefs types = (types.typedefs ++ more).map .typedef := by
    rw [TypeTable.typedefs, ← List.map_append, ← List.filter_append, List.take_append_drop,
      List.map_map]
    rfl
  have tasks : .typedef .int :: .typedef .char :: Task.ofTypedefs types =
      (([TypeId.int, .char] ++ types.typedefs) ++ more).map .typedef := by
    rw [all]
    rfl
  rw [tasks] at h
  -- an id beyond 32 bits is that of an earlier type again, which has a name since it was written
  have subset : more ⊆ [.int, .char] ++ types.typedefs := by
    intro ty mem
    have out : ty ∈ c'.typedefsWritten :=
      h.idle (List.mem_map_of_mem (List.mem_append_right _ mem)) trivial
    have named : NamedOut types c' :=
      h.keeps (NamedOut types) (fun acts named => acts.namedOut named)
        (by rw [NamedOut, none]; exact List.nil_subset _)
    exact List.mem_append_right _ (named out)
  have front : [.int, .char] <+: types.typedefs :=
    (List.prefix_append [TypeId.int, .char] [.void]).trans types.typedefs_builtins
  rw [h.typedefs_symbols, none, List.filter_eq_self.2 (by simp), eraseDups_append_of_subset subset,
    eraseDups_append_of_prefix front, eraseDups_of_nodup types.nodup_typedefs]

namespace Description

/-- Whether a description has the letter of a typedef. -/
def isTypedef (d : Description) : Bool :=
  match d.segment with
  | .heading _ letter :: _ => letter = some 't'
  | _ => false

theorem isTag_of_isTypedef {d : Description} (h : d.isTypedef = true) : d.isTag = false := by
  unfold isTypedef at h
  unfold isTag
  split at h
  · simp_all
  · cases h

theorem isTypedef_of_row? {d : Description} {row : Row} (h : d.row? = some row) :
    d.isTypedef = decide (row.letter = some 't') := by
  unfold row? at h
  unfold isTypedef
  split at h
  · next e =>
    cases h
    simp [e]
  · cases h

end Description

/-- Where the rows of all descriptions but tags are known, so are those of typedefs. -/
theorem rows_typedefs {ds : List Description} {rows : List Row}
    (h : (ds.filter (!·.isTag)).map Description.row? = rows.map some) :
    (ds.filter (·.isTypedef)).map Description.row? =
      (rows.filter (·.letter = some 't')).map some := by
  have same : ds.filter (·.isTypedef) = (ds.filter (!·.isTag)).filter (·.isTypedef) := by
    rw [List.filter_filter]
    refine List.filter_congr fun d _ => ?_
    cases ht : d.isTypedef with
    | false => rfl
    | true => rw [Description.isTag_of_isTypedef ht]; rfl
  rw [same]
  generalize ds.filter (!·.isTag) = ds at h
  induction ds generalizing rows with
  | nil =>
    cases rows with
    | nil => rfl
    | cons => cases h
  | cons d ds ih =>
    cases rows with
    | nil => cases h
    | cons row rows =>
      obtain ⟨first, rest⟩ := List.cons_eq_cons.1 h
      rw [List.filter_cons, List.filter_cons, Description.isTypedef_of_row? first]
      split
      · rw [List.map_cons, List.map_cons, first, ih rest]
      · exact ih rest

/-- A mention of a typedef declaration. -/
def Mention.typedef? : Mention → Option Declaration
  | declared decl => if decl.kind = .typedef then some decl else none
  | _ => none

/-- The typedef declarations of a unit, in the order of the walk. -/
def CompilationUnit.typedefDeclarations (u : CompilationUnit) : List Declaration :=
  (u.items.flatMap Item.mentions).filterMap Mention.typedef?

/-- The row of a typedef declaration. -/
def Declaration.typedefRow (N : Numbering) (decl : Declaration) : Row :=
  ⟨decl.name, some 't', .localSymbol, .number 0, N.number? decl.ty⟩

/-- The row of the typedef record that a type of the table has in front of the items. -/
def TypeTable.typedefRow? (types : TypeTable) (N : Numbering) (ty : TypeId) : Option Row :=
  ((types.get? ty).bind TypeNode.typedefName?).map fun name =>
    ⟨name, some 't', .localSymbol, .number 0, N.number? ty⟩

/-- No row but that of a typedef declaration has its letter. -/
theorem Mention.filter_row? (m : Mention) :
    (m.row? types target N).filter (·.letter = some 't') =
      m.typedef?.map (Declaration.typedefRow N) := by
  cases m with
  | declared decl =>
    obtain ⟨name, ty, kind⟩ := decl
    cases kind with
    | function info =>
      obtain ⟨isPublic, isExternal, address⟩ := info
      cases isExternal <;> cases address <;> cases isPublic <;> rfl
    | var info =>
      obtain ⟨isPublic, isExternal, isPermanent, _, _, _, location⟩ := info
      cases isExternal <;> cases location <;> cases isPublic <;> cases isPermanent <;> rfl
    | _ => rfl
  | argument param =>
    obtain ⟨name, ty, kind⟩ := param
    cases kind <;> rfl
  | inRegister param =>
    obtain ⟨name, ty, kind⟩ := param
    cases kind with
    | parameter info =>
      obtain ⟨_, location, _, _⟩ := info
      cases location <;> rfl
    | _ => rfl

theorem CompilationUnit.filter_rows (u : CompilationUnit) (target : Target) (N : Numbering) :
    (u.rows target N).filter (·.letter = some 't') =
      u.typedefDeclarations.map (Declaration.typedefRow N) := by
  rw [rows, List.filter_filterMap, typedefDeclarations, List.map_filterMap]
  exact congrArg (List.filterMap · _) (funext Mention.filter_row?)

theorem map_some_filterMap {α β : Type} {f : α → Option β} {l : List α}
    (h : ∀ a ∈ l, (f a).isSome = true) : (l.filterMap f).map some = l.map f := by
  induction l with
  | nil => rfl
  | cons a l ih =>
    obtain ⟨b, hb⟩ := Option.isSome_iff_exists.1 (h a List.mem_cons_self)
    rw [List.filterMap_cons_some hb, List.map_cons, List.map_cons, hb,
      ih fun a mem => h a (List.mem_cons_of_mem _ mem)]

/-- The rows of the typedefs of the table. -/
theorem TypeTable.rows_typedefs (types : TypeTable) (N : Numbering) :
    (types.typedefs.filterMap (Symbol.ofTypedef? types)).map (some <| Symbol.row N ·) =
      types.typedefs.map (types.typedefRow? N) := by
  have row (ty : TypeId) :
      types.typedefRow? N ty = (Symbol.ofTypedef? types ty).map (Symbol.row N) := by
    simp [typedefRow?, Symbol.ofTypedef?, Option.map_map, Function.comp_def, Symbol.row,
      Symbol.ofTypedef]
  have named : ∀ ty ∈ types.typedefs, (types.typedefRow? N ty).isSome = true := fun ty mem => by
    rw [typedefRow?, Option.isSome_map]
    exact mem_typedefs.1 mem
  rw [← map_some_filterMap named, funext row, ← List.map_filterMap, List.map_map]
  rfl

/-- The typedefs in front of the items, with the numbers that the types have in the end. -/
theorem Performs.prelude_rows {block : UInt32} {typedefs : List Record}
    (h : Performs u.types (.fresh block) (Task.prelude u target) journal c)
    (records : journal.flatMap Entry.records =
      .sourceFile u.sourceFile target.textLabel :: typedefs) (grows : c.numbering.Grows N) :
    (descriptions typedefs).map Description.row? =
      u.types.typedefs.map (u.types.typedefRow? N) := by
  have fits : ∀ entry ∈ journal, entry.Fits N := fun entry mem => (h.fits entry mem).grows grows
  have symbols : journal.filterMap Entry.symbol? =
      u.types.typedefs.filterMap (Symbol.ofTypedef? u.types) := by
    cases h with
    | cons first rest =>
      cases first with
      | described due => cases due
      | sourceFile =>
        rw [List.filterMap_append]
        exact rest.prelude_symbols rfl
  have rows := congrArg (List.map Prod.snd) (described_entries fits)
  rw [records, symbols, List.map_map, List.map_map] at rows
  exact rows.trans (u.types.rows_typedefs N)

/-- Items describe no typedef but those that they declare. -/
theorem Performs.declared_rows (out : TypedefsOut u.types c)
    (h : Performs u.types c (Task.ofItems u target c.nextBlock u.items) journal c') :
    ((descriptions (journal.flatMap Entry.records)).filter (·.isTypedef)).map Description.row? =
      u.typedefDeclarations.map (some <| Declaration.typedefRow c'.numbering ·) := by
  have rows := rows_entries h.fits
  rw [(h.writesItems out).rowsOf] at rows
  have own := u.filter_rows target c'.numbering
  rw [CompilationUnit.rows] at own
  rw [rows_typedefs rows, own, List.map_map]
  rfl

/-- Each typedef of the table is written once. Between the source file and the first item stand
descriptions alone, one for each type of the table that a typedef names, in the order of the table,
with the name of the typedef and the number of the type. The first three are those of `int`, `char`
and `void` with the numbers one to three. Behind them the letter of a typedef stands only at
declarations of typedefs, each of which has one description. -/
theorem Writer.describe_typedefs {writer after : Writer} {records : List Record}
    (h : writer.describe u = (.ok records, after)) :
    let N := after.context.numbering
    ∃ middle typedefs rest,
      Context.emitPrelude u writer.target (.fresh writer.target.firstBlock) = .ok () middle ∧
        middle.out.records.toList =
          .sourceFile u.sourceFile writer.target.textLabel :: typedefs ∧
        records = middle.out.records.toList ++ rest ∧
        (∀ record ∈ typedefs, record.text?.isSome = true) ∧
        (descriptions typedefs).map Description.row? =
          u.types.typedefs.map (u.types.typedefRow? N) ∧
        [.int, .char, .void] <+: u.types.typedefs ∧
        N.number? .int = some ⟨1⟩ ∧ N.number? .char = some ⟨2⟩ ∧ N.number? .void = some ⟨3⟩ ∧
        ((descriptions rest).filter (·.isTypedef)).map Description.row? =
          u.typedefDeclarations.map (some <| Declaration.typedefRow N ·) := by
  obtain ⟨middle, last, prelude, entries, run, front, items, next, rfl, same⟩ :=
    Writer.describe_parts h
  obtain ⟨written, out⟩ := front.writesPrelude
  obtain ⟨typedefs, e, texts, -⟩ := written.typedefs
  have before : middle.out.records.toList = prelude.flatMap Entry.records := front.toList_records
  have builtins := (front.append items).number?_builtins
  rw [← next] at items
  simp only [same]
  refine ⟨middle, typedefs, entries.flatMap Entry.records, run, before.trans e, ?_, texts,
    front.prelude_rows e items.grows, u.types.typedefs_builtins, builtins.1, builtins.2.1,
    builtins.2.2, items.declared_rows out⟩
  rw [before, List.flatMap_append]

/-- One typedef of the table beside the built-in ones, and two that the unit declares. -/
theorem Samples.forwardReferences_typedefs : ∃ typedefs rest after,
    (Writer.ofTarget {}).describe forwardReferences =
        (.ok (.sourceFile "forward.c" "Ltext" :: typedefs ++ rest), after) ∧
      (descriptions typedefs).map Description.row? =
        [some ⟨"int", some 't', .localSymbol, .number 0, some ⟨1⟩⟩,
          some ⟨"char", some 't', .localSymbol, .number 0, some ⟨2⟩⟩,
          some ⟨"void", some 't', .localSymbol, .number 0, some ⟨3⟩⟩,
          some ⟨"node_ptr", some 't', .localSymbol, .number 0, some ⟨4⟩⟩] ∧
      ((descriptions rest).filter (·.isTypedef)).map Description.row? =
        [some ⟨"handle", some 't', .localSymbol, .number 0, some ⟨6⟩⟩,
          some ⟨"token", some 't', .localSymbol, .number 0, some ⟨6⟩⟩] := by
  have run : ((Writer.ofTarget {}).describe forwardReferences).1.toOption.isSome = true := by
    decide +kernel
  have table : forwardReferences.types.typedefs.map (forwardReferences.types.typedefRow?
      ((Writer.ofTarget {}).describe forwardReferences).2.context.numbering) =
        [some ⟨"int", some 't', .localSymbol, .number 0, some ⟨1⟩⟩,
          some ⟨"char", some 't', .localSymbol, .number 0, some ⟨2⟩⟩,
          some ⟨"void", some 't', .localSymbol, .number 0, some ⟨3⟩⟩,
          some ⟨"node_ptr", some 't', .localSymbol, .number 0, some ⟨4⟩⟩] := by decide +kernel
  have declared : forwardReferences.typedefDeclarations.map (some <| Declaration.typedefRow
      ((Writer.ofTarget {}).describe forwardReferences).2.context.numbering ·) =
        [some ⟨"handle", some 't', .localSymbol, .number 0, some ⟨6⟩⟩,
          some ⟨"token", some 't', .localSymbol, .number 0, some ⟨6⟩⟩] := by decide +kernel
  cases h : (Writer.ofTarget {}).describe forwardReferences with
  | mk result after =>
    rw [h] at run table declared
    cases result with
    | error cause => cases run
    | ok records =>
      obtain ⟨middle, typedefs, rest, -, front, rfl, -, rows, -, -, -, -, behind⟩ :=
        Writer.describe_typedefs h
      rw [front]
      exact ⟨typedefs, rest, after, rfl, rows.trans table, behind.trans declared⟩

end Stabs
