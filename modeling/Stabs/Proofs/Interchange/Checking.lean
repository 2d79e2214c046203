import Stabs.Proofs.Interchange.Rearranged

/-!
# Checking a layout

Whether one value is a layout of another can be computed. The fields of an object are looked up one
by one, and every member that is left over has to be a stray one.
-/
namespace Stabs.Json

/-! ## Equal values -/

mutual

/-- Whether two values are the same, with the members of objects in the same order. -/
def same : Json → Json → Bool
  | .null, .null => true
  | .bool a, .bool b => a = b
  | .int a, .int b => a = b
  | .fraction, .fraction => true
  | .string a, .string b => a = b
  | .array vs, .array ws => sameAll vs ws
  | .object fields, .object members => sameMembers fields members
  | _, _ => false

def sameAll : List Json → List Json → Bool
  | [], [] => true
  | v :: vs, w :: ws => same v w && sameAll vs ws
  | _, _ => false

def sameMembers : List (String × Json) → List (String × Json) → Bool
  | [], [] => true
  | (key, v) :: fields, (other, w) :: members =>
    key = other && same v w && sameMembers fields members
  | _, _ => false

end

mutual

theorem same_iff (v w : Json) : same v w = true ↔ v = w := by
  match v with
  | .null | .bool _ | .int _ | .fraction | .string _ => cases w <;> simp [same]
  | .array vs => cases w <;> simp [same, sameAll_iff vs]
  | .object fields => cases w <;> simp [same, sameMembers_iff fields]

theorem sameAll_iff (vs ws : List Json) : sameAll vs ws = true ↔ vs = ws := by
  match vs with
  | [] => cases ws <;> simp [sameAll]
  | v :: vs => cases ws <;> simp [sameAll, same_iff v, sameAll_iff vs]

theorem sameMembers_iff (fields members : List (String × Json)) :
    sameMembers fields members = true ↔ fields = members := by
  match fields with
  | [] => cases members <;> simp [sameMembers]
  | (key, v) :: fields =>
    cases members <;> simp [sameMembers, same_iff v, sameMembers_iff fields, Prod.ext_iff]

end

instance : DecidableEq Json := fun v w => decidable_of_iff _ (same_iff v w)

/-! ## Layouts -/

instance : DecidablePred Stray
  | .null => .isTrue .null
  | .bool b => .isTrue (.bool b)
  | .int n => decidable_of_iff (Int64.minValue.toInt ≤ n ∧ n < UInt64.size)
    ⟨fun bounds => .int n bounds.1 bounds.2, fun | .int _ low high => ⟨low, high⟩⟩
  | .string s => .isTrue (.string s)
  | .fraction | .array _ | .object _ => .isFalse nofun

instance (fields : List (String × Json)) (field : String × Json) :
    Decidable (Omissible fields field) :=
  inferInstanceAs (Decidable (_ ∨ _ ∧ (_ → _)))

mutual

/-- Whether the second value is a layout of the first one. -/
def isLayout : Json → Json → Bool
  | .array vs, .array ws => areLayouts vs ws
  | .object fields, .object members =>
    stand fields fields members &&
      decide (∀ m ∈ members, m.1 ∉ fields.map Prod.fst → Stray m.2)
  | v, w => v.depth = 0 && v = w

def areLayouts : List Json → List Json → Bool
  | [], [] => true
  | v :: vs, w :: ws => isLayout v w && areLayouts vs ws
  | _, _ => false

/-- Whether each of the fields that are left stands among the members of an object, or is left
out. -/
def stand : (rest fields members : List (String × Json)) → Bool
  | [], _, _ => true
  | (key, v) :: rest, fields, members =>
    (match valuesAt members key with
      | [] => decide (Omissible fields (key, v))
      | [w] => isLayout v w
      | _ => false) && stand rest fields members

end

mutual

theorem isLayout_iff (v w : Json) : isLayout v w = true ↔ Rearranged v w := by
  match v with
  | .null | .bool _ | .int _ | .fraction | .string _ =>
    simp only [isLayout, Bool.and_eq_true, decide_eq_true_eq]
    exact ⟨fun ⟨flat, e⟩ => e ▸ .flat flat, fun h => ⟨rfl, (h.eq_of_flat rfl).symm⟩⟩
  | .array vs =>
    refine ⟨fun h => ?_, fun h => ?_⟩
    · cases w with
      | array ws =>
        rw [isLayout] at h
        exact .array ((areLayouts_iff vs ws).1 h)
      | _ => simp [isLayout, depth] at h
    · obtain ⟨ws, rfl, layouts⟩ := h.exists_elements
      rw [isLayout]
      exact (areLayouts_iff vs ws).2 layouts
  | .object fields =>
    refine ⟨fun h => ?_, fun h => ?_⟩
    · cases w with
      | object members =>
        rw [isLayout, Bool.and_eq_true, stand_iff fields fields members, decide_eq_true_eq] at h
        exact .object h.1 h.2
      | _ => simp [isLayout, depth] at h
    · obtain ⟨members, rfl, stands⟩ := h.exists_members
      rw [isLayout, Bool.and_eq_true, stand_iff fields fields members, decide_eq_true_eq]
      exact stands
termination_by structural v

theorem areLayouts_iff (vs ws : List Json) :
    areLayouts vs ws = true ↔ List.Forall₂ Rearranged vs ws := by
  match vs with
  | [] => cases ws <;> simp [areLayouts]
  | v :: vs => cases ws <;> simp [areLayouts, isLayout_iff v, areLayouts_iff vs]
termination_by structural vs

theorem stand_iff (rest fields members : List (String × Json)) :
    stand rest fields members = true ↔ ∀ field ∈ rest, Stands fields members field := by
  match rest with
  | [] => simp [stand]
  | (key, v) :: rest =>
    rw [stand, Bool.and_eq_true, stand_iff rest fields members, List.forall_mem_cons]
    refine and_congr_left fun _ => ?_
    cases found : valuesAt members key with
    | nil =>
      rw [decide_eq_true_eq]
      refine ⟨.leftOut found, fun stands => ?_⟩
      cases stands with
      | once here => simp [found] at here
      | leftOut _ omissible => exact omissible
    | cons w others =>
      cases others with
      | nil =>
        refine ⟨fun h => .once found ((isLayout_iff v w).1 h), fun stands => ?_⟩
        cases stands with
        | once here layout =>
          cases found.symm.trans here
          exact (isLayout_iff v w).2 layout
        | leftOut nowhere => simp [found] at nowhere
      | cons =>
        refine ⟨nofun, fun stands => ?_⟩
        cases stands with
        | once here => simp [found] at here
        | leftOut nowhere => simp [found] at nowhere
termination_by structural rest

end

instance (v w : Json) : Decidable (Rearranged v w) := decidable_of_iff _ (isLayout_iff v w)

end Stabs.Json
