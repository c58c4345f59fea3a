import Mathlib.Algebra.Ring.Nat
import ScopedHeap.Slot

/-!
# The numbers that bit patterns stand for

A finite binary64 number is a whole multiple of the least positive one. Decoded that way, two
patterns are numerically equal just if they stand for the same number (`Binary64.numEq_iff`): a NaN
stands for none, both zeros stand for zero, and any other number has one pattern.
-/
namespace ScopedHeap

namespace Binary64

inductive Number where
  /-- A multiple of the least positive number. -/
  | finite (units : Int)
  | infinite (negative : Bool)
  deriving DecidableEq, Repr

def isNegative (x : Binary64) : Bool := 2 ^ 63 ≤ x.bits.toNat

/-- How many times the least positive number a magnitude is: 52 bits of fraction below the exponent,
and a leading one if the exponent is not zero. -/
def units (magnitude : Nat) : Nat :=
  if magnitude / 2 ^ 52 = 0 then
    magnitude % 2 ^ 52
  else
    (2 ^ 52 + magnitude % 2 ^ 52) * 2 ^ (magnitude / 2 ^ 52 - 1)

/-- The number that a pattern stands for, if any. -/
def number? (x : Binary64) : Option Number :=
  if x.isNaN then
    none
  else if x.magnitude = 0x7ff0000000000000 then
    some (.infinite x.isNegative)
  else
    let units : Int := units x.magnitude.toNat
    some (.finite (if x.isNegative then -units else units))

theorem units_lt_units {m n : Nat} (lt : m < n) : units m < units n := by
  have hm := Nat.mod_lt m (Nat.two_pow_pos 52)
  have hn := Nat.mod_lt n (Nat.two_pow_pos 52)
  have dm := Nat.div_add_mod m (2 ^ 52)
  have dn := Nat.div_add_mod n (2 ^ 52)
  unfold units
  generalize m / 2 ^ 52 = e at *
  generalize n / 2 ^ 52 = e' at *
  generalize m % 2 ^ 52 = f at *
  generalize n % 2 ^ 52 = f' at *
  have le : e ≤ e' := by omega
  rcases Nat.eq_or_lt_of_le le with rfl | le
  · -- the exponents are the same
    have less : f < f' := by omega
    by_cases zero : e = 0
    · rwa [if_pos zero, if_pos zero]
    · rw [if_neg zero, if_neg zero]
      exact Nat.mul_lt_mul_of_pos_right (by omega) (Nat.two_pow_pos _)
  · have positive : e' ≠ 0 := by omega
    rw [if_neg positive]
    have floor : 2 ^ 52 * 2 ^ (e' - 1) ≤ (2 ^ 52 + f') * 2 ^ (e' - 1) :=
      Nat.mul_le_mul_right _ (Nat.le_add_right _ _)
    by_cases zero : e = 0
    · rw [if_pos zero]
      have one := Nat.mul_le_mul_left (2 ^ 52) (Nat.two_pow_pos (e' - 1))
      omega
    · rw [if_neg zero]
      obtain ⟨k, rfl⟩ := Nat.exists_eq_succ_of_ne_zero zero
      calc (2 ^ 52 + f) * 2 ^ k
          < (2 ^ 52 + 2 ^ 52) * 2 ^ k :=
            Nat.mul_lt_mul_of_pos_right (by omega) (Nat.two_pow_pos k)
        _ = 2 ^ 52 * 2 ^ (k + 1) := by
            rw [Nat.pow_succ]
            omega
        _ ≤ 2 ^ 52 * 2 ^ (e' - 1) :=
            Nat.mul_le_mul_left _ (Nat.pow_le_pow_right (by decide) (by omega))
        _ ≤ _ := floor

theorem units_inj {m n : Nat} : units m = units n ↔ m = n := by
  constructor
  · intro same
    rcases Nat.lt_trichotomy m n with lt | eq | gt
    · exact absurd same (Nat.ne_of_lt (units_lt_units lt))
    · exact eq
    · exact absurd same (Nat.ne_of_gt (units_lt_units gt))
  · rintro rfl
    rfl

section

variable {x y z : Binary64}

theorem toNat_magnitude (x : Binary64) : x.magnitude.toNat = x.bits.toNat % 2 ^ 63 := by
  rw [magnitude, UInt64.toNat_and]
  exact Nat.and_two_pow_sub_one_eq_mod _ 63

theorem bits_eq_iff : x.bits = y.bits ↔
    x.isNegative = y.isNegative ∧ x.magnitude = y.magnitude := by
  have hx := x.bits.toNat_lt
  have hy := y.bits.toNat_lt
  rw [← UInt64.toNat_inj, ← UInt64.toNat_inj, toNat_magnitude, toNat_magnitude, isNegative,
    isNegative, decide_eq_decide]
  omega

theorem number?_eq_infinite {negative : Bool} : x.number? = some (.infinite negative) ↔
    x.magnitude = 0x7ff0000000000000 ∧ x.isNegative = negative := by
  by_cases infinite : x.magnitude = 0x7ff0000000000000
  · have number : x.isNaN = false := by
      rw [isNaN, infinite]
      rfl
    simp [number?, number, infinite]
  · by_cases nan : x.isNaN = true <;> simp [number?, nan, infinite]

theorem number?_eq_finite {u : Int} : x.number? = some (.finite u) ↔ x.isNaN = false ∧
    x.magnitude ≠ 0x7ff0000000000000 ∧
      u = if x.isNegative then -(units x.magnitude.toNat : Int) else units x.magnitude.toNat := by
  rw [number?]
  by_cases nan : x.isNaN = true
  · rw [if_pos nan, nan]
    simp
  · rw [if_neg nan]
    by_cases infinite : x.magnitude = 0x7ff0000000000000
    · rw [if_pos infinite]
      refine iff_of_false ?_ fun shown => shown.2.1 infinite
      intro h
      cases h
    · rw [if_neg infinite, Option.some.injEq, Number.finite.injEq]
      rw [Bool.not_eq_true] at nan
      exact ⟨fun value => ⟨nan, infinite, value.symm⟩, fun shown => shown.2.2.symm⟩

theorem number?_of_isZero (zero : x.isZero = true) : x.number? = some (.finite 0) := by
  have magnitude : x.magnitude = 0 := by simpa [isZero] using zero
  have units : units 0 = 0 := rfl
  rw [number?_eq_finite]
  simp [isNaN, magnitude, units]

theorem isSome_number? (number : x.isNaN = false) : ∃ q, x.number? = some q := by
  by_cases infinite : x.magnitude = 0x7ff0000000000000
  · exact ⟨_, number?_eq_infinite.mpr ⟨infinite, rfl⟩⟩
  · exact ⟨_, number?_eq_finite.mpr ⟨number, infinite, rfl⟩⟩

theorem numEq_iff : x.numEq y = true ↔ ∃ q, x.number? = some q ∧ y.number? = some q := by
  simp only [numEq, Bool.and_eq_true, Bool.not_eq_true', Bool.or_eq_true, beq_iff_eq]
  constructor
  · rintro ⟨⟨number, _⟩, same | ⟨zero, zero'⟩⟩
    · obtain ⟨q, hq⟩ := isSome_number? number
      have equal : x = y := congrArg Binary64.mk same
      exact ⟨q, hq, equal ▸ hq⟩
    · exact ⟨_, number?_of_isZero zero, number?_of_isZero zero'⟩
  · rintro ⟨q, hx, hy⟩
    cases q with
    | infinite negative =>
      obtain ⟨infinite, sign⟩ := number?_eq_infinite.mp hx
      obtain ⟨infinite', sign'⟩ := number?_eq_infinite.mp hy
      refine ⟨⟨by rw [isNaN, infinite]; rfl, by rw [isNaN, infinite']; rfl⟩, Or.inl ?_⟩
      exact bits_eq_iff.mpr ⟨sign.trans sign'.symm, infinite.trans infinite'.symm⟩
    | finite u =>
      obtain ⟨number, _, value⟩ := number?_eq_finite.mp hx
      obtain ⟨number', _, value'⟩ := number?_eq_finite.mp hy
      refine ⟨⟨number, number'⟩, ?_⟩
      by_cases sign : x.isNegative = y.isNegative
      · -- with the same sign, the magnitudes are the same
        have same : units x.magnitude.toNat = units y.magnitude.toNat := by
          rw [value', sign] at value
          split at value <;> omega
        exact Or.inl (bits_eq_iff.mpr ⟨sign, UInt64.toNat_inj.mp (units_inj.mp same)⟩)
      · -- a number that is its own opposite is zero
        have zero : units x.magnitude.toNat = 0 ∧ units y.magnitude.toNat = 0 := by
          rw [value'] at value
          cases hx : x.isNegative <;> cases hy : y.isNegative
          · exact absurd (hx.trans hy.symm) sign
          · simp only [hx, hy, Bool.false_eq_true, ↓reduceIte] at value
            omega
          · simp only [hx, hy, Bool.false_eq_true, ↓reduceIte] at value
            omega
          · exact absurd (hx.trans hy.symm) sign
        have magnitude {m : UInt64} (h : units m.toNat = 0) : m = 0 :=
          UInt64.toNat_inj.mp (units_inj.mp h)
        exact Or.inr ⟨by simp [isZero, magnitude zero.1], by simp [isZero, magnitude zero.2]⟩

theorem numEq_self (number : x.isNaN = false) : x.numEq x = true := by
  obtain ⟨q, hq⟩ := isSome_number? number
  exact numEq_iff.mpr ⟨q, hq, hq⟩

theorem numEq_comm : x.numEq y = y.numEq x := by
  rw [Bool.eq_iff_iff, numEq_iff, numEq_iff]
  exact exists_congr fun q => and_comm

theorem numEq_trans (h : x.numEq y = true) (k : y.numEq z = true) : x.numEq z = true := by
  obtain ⟨q, hx, hy⟩ := numEq_iff.mp h
  obtain ⟨q', hy', hz⟩ := numEq_iff.mp k
  cases hy.symm.trans hy'
  exact numEq_iff.mpr ⟨q, hx, hz⟩

end

end Binary64

end ScopedHeap
