import Stabs.Interchange.Unit

/-!
# Numbers and members

Looking at the JSON form of a number gives the number back, and members are found by their key.
-/
namespace Stabs

namespace Json

variable {α β : Type} {key : String} {v : β} {ms : List (String × β)}

/-- Looking at what was written gives back what it was written for. -/
def Restores (read : Json → Option α) (write : α → Json) : Prop := ∀ a, read (write a) = some a

theorem asInt64?_toInt (n : Int64) : asInt64? (.int n.toInt) = some n := by
  have bounds := And.intro (Int64.minValue_le_toInt n) (Int64.toInt_le n)
  simp only [asInt64?, if_pos bounds, Int64.ofInt_toInt]

theorem asUInt64?_toNat (n : UInt64) : asUInt64? (.nat n.toNat) = some n := by
  have bounds : 0 ≤ (n.toNat : Int) ∧ (n.toNat : Int) < UInt64.size :=
    ⟨Int.natCast_nonneg _, Int.ofNat_lt.mpr n.toNat_lt_size⟩
  simp only [asUInt64?, nat, if_pos bounds, Int.toNat_natCast, UInt64.ofNat_toNat]

theorem asUInt32?_toNat (n : UInt32) : asUInt32? (.nat n.toNat) = some n := by
  have bounds : 0 ≤ (n.toNat : Int) ∧ (n.toNat : Int) < UInt32.size :=
    ⟨Int.natCast_nonneg _, Int.ofNat_lt.mpr n.toNat_lt_size⟩
  simp only [asUInt32?, nat, if_pos bounds, Int.toNat_natCast, UInt32.ofNat_toNat]

theorem restores_typeId : Restores TypeId.ofJson? TypeId.toJson := by
  intro ty
  simp [TypeId.ofJson?, TypeId.toJson, TypeId.toNat, asUInt32?_toNat]

@[simp] theorem nat_ne_null (n : Nat) : nat n ≠ .null := by simp [nat]

@[simp] theorem typeId_ne_null (ty : TypeId) : ty.toJson ≠ .null := nat_ne_null _

/-! ## Members -/

@[simp] theorem valuesAt_nil (key : String) : valuesAt ([] : List (String × β)) key = [] := rfl

@[simp] theorem valuesAt_cons (key name : String) (v : β) (rest : List (String × β)) :
    valuesAt ((name, v) :: rest) key =
      if name = key then v :: valuesAt rest key else valuesAt rest key := by
  unfold valuesAt
  rw [List.filterMap_cons]
  split <;> simp_all

@[simp] theorem valuesAt_append (xs ys : List (String × β)) (key : String) :
    valuesAt (xs ++ ys) key = valuesAt xs key ++ valuesAt ys key := by
  simp [valuesAt]

theorem valuesAt_eq_nil (absent : key ∉ ms.map Prod.fst) : valuesAt ms key = [] := by
  induction ms with
  | nil => rfl
  | cons m rest ih =>
    rw [List.map_cons, List.mem_cons, not_or] at absent
    rw [valuesAt_cons, if_neg (Ne.symm absent.1), ih absent.2]

theorem valuesAt_of_mem (distinct : (ms.map Prod.fst).Nodup) (mem : (key, v) ∈ ms) :
    valuesAt ms key = [v] := by
  induction ms with
  | nil => cases mem
  | cons m rest ih =>
    obtain ⟨name, w⟩ := m
    rw [List.map_cons, List.nodup_cons] at distinct
    rw [valuesAt_cons]
    rcases List.mem_cons.mp mem with same | mem
    · cases same
      rw [if_pos rfl, valuesAt_eq_nil distinct.1]
    · have other : name ≠ key := by
        rintro rfl
        exact distinct.1 (List.mem_map.mpr ⟨_, mem, rfl⟩)
      rw [if_neg other, ih distinct.2 mem]

theorem valuesAt_without (members : List (String × β)) {key other : String}
    (ne : key ≠ other) : valuesAt (without members other) key = valuesAt members key := by
  induction members with
  | nil => rfl
  | cons m rest ih =>
    obtain ⟨name, v⟩ := m
    by_cases h : name = other
    · subst h
      have gone : without ((name, v) :: rest) name = without rest name := by simp [without]
      rw [gone, ih, valuesAt_cons, if_neg ne.symm]
    · have kept : without ((name, v) :: rest) other = (name, v) :: without rest other := by
        simp [without, h]
      rw [kept, valuesAt_cons, valuesAt_cons, ih]

end Json

end Stabs
