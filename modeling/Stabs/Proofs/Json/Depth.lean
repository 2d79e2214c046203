import Stabs.Proofs.Json.Spelling

/-!
# Nesting depth

How deep the containers of a value are nested alone decides whether a text without any fault can
be taken: the limit counts every array and object on the way down, empty ones included, and the
fault behind the limit is one of the text.
-/
namespace Stabs.Json

mutual

/-- How deep arrays and objects are nested in a value. An empty one counts as well. -/
def depth : Json → Nat
  | .array vs => depthAll vs + 1
  | .object ms => depthMembers ms + 1
  | _ => 0

def depthAll : List Json → Nat
  | [] => 0
  | v :: rest => max v.depth (depthAll rest)

def depthMembers : List (String × Json) → Nat
  | [] => 0
  | (_, v) :: rest => max v.depth (depthMembers rest)

end

section

variable {v : Json} {vs : List Json} {m : String × Json} {ms others : List (String × Json)}
  {d : Nat}

theorem depthAll_cons_le : depthAll (v :: vs) ≤ d ↔ v.depth ≤ d ∧ depthAll vs ≤ d := by
  rw [depthAll, Nat.max_le]

theorem depthMembers_nil_le : depthMembers [] ≤ d := by
  rw [depthMembers]
  exact Nat.zero_le d

theorem depthMembers_cons_le :
    depthMembers (m :: ms) ≤ d ↔ m.2.depth ≤ d ∧ depthMembers ms ≤ d := by
  rw [depthMembers, Nat.max_le]

theorem depthMembers_append_le :
    depthMembers (ms ++ others) ≤ d ↔ depthMembers ms ≤ d ∧ depthMembers others ≤ d := by
  induction ms with
  | nil => simp [depthMembers_nil_le]
  | cons m ms ih => rw [List.cons_append, depthMembers_cons_le, depthMembers_cons_le, ih, and_assoc]

end

namespace Reading

mutual

/-- Of a reading without faults only the depth can be refused. -/
theorem take_ofJson (v : Json) (d : Nat) :
    take d (ofJson v) = if v.depth ≤ d then .ok v else .error .malformed := by
  match v, d with
  | .null, d | .bool b, d | .int n, d | .fraction, d | .string s, d =>
    simp [ofJson, take, Leaf.whole, depth, Except.map]
  | .array vs, 0 | .object ms, 0 => simp [ofJson, take, depth]
  | .array vs, d + 1 =>
    simp only [ofJson, take, takeAll_ofJsons vs d, depth, Nat.add_le_add_iff_right]
    split <;> rfl
  | .object ms, d + 1 =>
    simp only [ofJson, take, takeMembers_ofMembers ms d, depth, Nat.add_le_add_iff_right]
    split <;> rfl

theorem takeAll_ofJsons (vs : List Json) (d : Nat) :
    takeAll d (ofJsons vs) = if depthAll vs ≤ d then .ok vs else .error .malformed := by
  match vs with
  | [] => simp [ofJsons, takeAll, depthAll]
  | v :: rest =>
    simp only [ofJsons, takeAll, take_ofJson v d, takeAll_ofJsons rest d, depthAll_cons_le]
    by_cases head : v.depth ≤ d <;> by_cases tail : depthAll rest ≤ d <;>
      simp [head, tail, bind, Except.bind, pure, Except.pure]

theorem takeMembers_ofMembers (ms : List (String × Json)) (d : Nat) :
    takeMembers d (ofMembers ms) =
      if depthMembers ms ≤ d then .ok ms else .error .malformed := by
  match ms with
  | [] => simp [ofMembers, takeMembers, depthMembers]
  | (k, v) :: rest =>
    simp only [ofMembers, takeMembers, take_ofJson v d, takeMembers_ofMembers rest d,
      depthMembers_cons_le, key, Leaf.whole]
    by_cases head : v.depth ≤ d <;> by_cases tail : depthMembers rest ≤ d <;>
      simp [head, tail, bind, Except.bind, pure, Except.pure]

end

end Reading

end Stabs.Json
