import Stabs.Toml.Value

/-!
# Tables put together from lines

A key with its value goes to the end of the table that is open. A header in double brackets adds an
empty table to the list under its key, and the keys that follow go into that one.
-/
namespace Stabs.Toml

namespace Entries

variable {base : Entries} {key : String} {v : Toml}

theorem lookup_append_self (fresh : base.lookup key = none) :
    (base ++ [(key, v)]).lookup key = some v := by
  simp [List.lookup_append, fresh]

/-- The last entry is replaced if no other one has its key. -/
theorem replace_append_self (fresh : base.lookup key = none) (v' : Toml) :
    Entries.replace (base ++ [(key, v)]) key v' = base ++ [(key, v')] := by
  have other : ∀ entry ∈ base, entry.1 ≠ key := by
    intro entry mem same
    have unset := List.lookup_eq_none_iff.1 fresh entry mem
    simp [same] at unset
  have kept : Entries.replace base key v' = base :=
    (List.map_congr_left fun entry mem => if_neg (other entry mem)).trans (List.map_id base)
  rw [Entries.replace, List.map_append, ← Entries.replace, kept]
  simp

theorem assign_last (fresh : base.lookup key = none) (v : Toml) :
    base.assign .header ⟨[], key⟩ v = some (base ++ [(key, v)]) := by
  simp [assign, enter, fresh]

/-- The way to a list of tables ends in the last one. -/
theorem enter_tables (fresh : base.lookup key = none) (items : List Entries) (inner : Entries)
    (change : TableOrigin → Entries → Option Entries) :
    enter false .header (base ++ [(key, .tables (items ++ [inner]))]) [key] change =
      (change .header inner).map fun inner => base ++ [(key, .tables (items ++ [inner]))] := by
  rw [enter, lookup_append_self fresh]
  simp only [List.getLast?_append]
  cases h : change .header inner with
  | none => simp [enter, h]
  | some changed => simp [enter, h, replace_append_self fresh]

end Entries

namespace Draft

variable {base inner : Entries} {key name : String}

theorem add_assignment (fresh : base.lookup key = none) (v : Toml) :
    add ⟨base, []⟩ (.assignment ⟨[], key⟩ v) = some ⟨base ++ [(key, v)], []⟩ := by
  simp [add, Entries.enter, Entries.assign_last fresh]

/-- The entries of a document with a list of tables behind them, which has no key while it has no
table. -/
def withTables (base : Entries) (key : String) : List Entries → Entries
  | [] => base
  | items => base ++ [(key, .tables items)]

theorem withTables_append (items : List Entries) :
    withTables base key (items ++ [inner]) = base ++ [(key, .tables (items ++ [inner]))] := by
  cases items <;> rfl

theorem add_itemHeader (fresh : base.lookup key = none) (items : List Entries)
    (current : List String) :
    add ⟨withTables base key items, current⟩ (.itemHeader ⟨[], key⟩) =
      some ⟨withTables base key (items ++ [[]]), [key]⟩ := by
  rw [withTables_append]
  cases items with
  | nil => simp [add, Entries.openItem, Entries.enter, withTables, fresh, KeyPath.parts]
  | cons item items =>
    simp [add, Entries.openItem, Entries.enter, withTables, Entries.lookup_append_self fresh,
      Entries.replace_append_self fresh, KeyPath.parts]

theorem add_inside (fresh : base.lookup key = none) (unset : inner.lookup name = none)
    (items : List Entries) (v : Toml) :
    add ⟨withTables base key (items ++ [inner]), [key]⟩ (.assignment ⟨[], name⟩ v) =
      some ⟨withTables base key (items ++ [inner ++ [(name, v)]]), [key]⟩ := by
  rw [withTables_append, withTables_append, add, Entries.enter_tables fresh,
    Entries.assign_last unset]
  rfl

end Draft

end Stabs.Toml
