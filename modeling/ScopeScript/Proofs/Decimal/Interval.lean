import Mathlib.Algebra.Order.Field.Power
import Mathlib.Data.Rat.Cast.Order
import Mathlib.Tactic.FieldSimp
import Mathlib.Tactic.Linarith
import Mathlib.Tactic.Positivity
import Mathlib.Tactic.Ring
import ScopeScript.Decimal.Shortest

namespace ScopeScript.Decimal

namespace Magnitude

-- The ends of what rounds to a size are counted in quarters of its unit.
def quarter (size : Magnitude) : ℚ := 2 ^ (size.exponent - 2)

def value (size : Magnitude) : ℚ := size.significand * 2 ^ size.exponent

-- The numbers that read as the size.
def Rounds (size : Magnitude) (v : ℚ) : Prop :=
  if size.significand % 2 = 0 then size.lowest * size.quarter ≤ v ∧ v ≤ size.highest * size.quarter
  else size.lowest * size.quarter < v ∧ v < size.highest * size.quarter

-- The sizes that doubles have: short, and as long as they can be from the second exponent on.
structure Proper (size : Magnitude) : Prop where
  least : leastExponent ≤ size.exponent
  short : size.significand < 2 * hiddenBit
  full : leastExponent < size.exponent → hiddenBit ≤ size.significand

theorem quarter_pos (size : Magnitude) : 0 < size.quarter := by
  unfold quarter
  positivity

theorem value_eq (size : Magnitude) : size.value = 4 * size.significand * size.quarter := by
  have split : (2 : ℚ) ^ size.exponent = 4 * 2 ^ (size.exponent - 2) := by
    rw [zpow_sub₀ (by norm_num)]
    norm_num
    ring
  rw [value, quarter, split]
  ring

theorem Rounds.weaken {size : Magnitude} {v : ℚ} (h : size.Rounds v) :
    size.lowest * size.quarter ≤ v ∧ v ≤ size.highest * size.quarter := by
  unfold Rounds at h
  split at h
  · exact h
  · exact ⟨h.1.le, h.2.le⟩

theorem Rounds.strict {size : Magnitude} {v : ℚ} (h : size.Rounds v) (odd : ¬ size.significand % 2 = 0) :
    size.lowest * size.quarter < v ∧ v < size.highest * size.quarter := by
  unfold Rounds at h
  rwa [if_neg odd] at h

theorem Rounds.inside {size : Magnitude} {v : ℚ} (low : size.lowest * size.quarter < v)
    (high : v < size.highest * size.quarter) : size.Rounds v := by
  unfold Rounds
  split
  · exact ⟨low.le, high.le⟩
  · exact ⟨low, high⟩

theorem lowest_le (size : Magnitude) : size.lowest ≤ 4 * size.significand := by
  unfold lowest
  split <;> omega

theorem lowest_ge (size : Magnitude) : 4 * size.significand ≤ size.lowest + 2 := by
  unfold lowest
  split <;> omega

theorem lowest_lt_value {size : Magnitude} (nonzero : size.significand ≠ 0) : size.lowest * size.quarter < size.value := by
  have low : size.lowest < 4 * size.significand := by
    unfold lowest
    split <;> omega
  rw [value_eq]
  exact mul_lt_mul_of_pos_right (by exact_mod_cast low) size.quarter_pos

theorem value_lt_highest (size : Magnitude) : size.value < size.highest * size.quarter := by
  have high : 4 * size.significand < size.highest := by
    unfold highest
    omega
  rw [value_eq]
  exact mul_lt_mul_of_pos_right (by exact_mod_cast high) size.quarter_pos

-- A size rounds to itself, zero as the lower end of what rounds to it.
theorem rounds_value (size : Magnitude) : size.Rounds size.value := by
  by_cases zero : size.significand = 0
  · have low : size.lowest = 0 := by
      have bound := size.lowest_le
      omega
    have null : size.value = 0 := by rw [value, zero, Nat.cast_zero, zero_mul]
    have high := size.value_lt_highest
    rw [null] at high ⊢
    unfold Rounds
    rw [if_pos (by rw [zero]), low]
    exact ⟨by simp, high.le⟩
  · exact .inside (lowest_lt_value zero) size.value_lt_highest

section

variable {a b : Magnitude} {v : ℚ}

-- Within one exponent what rounds to a smaller size ends where the next one begins, and an odd one has no ends.
theorem Rounds.significand_le (same : a.exponent = b.exponent) (ha : a.Rounds v) (hb : b.Rounds v) :
    b.significand ≤ a.significand := by
  by_contra less
  rw [not_le] at less
  have quarters : a.quarter = b.quarter := by rw [quarter, quarter, same]
  have positive := b.quarter_pos
  have upper := ha.weaken.2
  have lower := hb.weaken.1
  rw [quarters] at upper
  have meet : b.lowest ≤ a.highest := by
    by_contra apart
    rw [not_le] at apart
    have apart' : (a.highest : ℚ) < b.lowest := by exact_mod_cast apart
    exact absurd (lower.trans upper) (not_le.mpr (mul_lt_mul_of_pos_right apart' positive))
  have next : b.significand = a.significand + 1 ∧ b.lowest = a.highest := by
    have far := b.lowest_ge
    unfold highest at meet ⊢
    omega
  have ends : (b.lowest : ℚ) * b.quarter = a.highest * b.quarter := by rw [next.2]
  by_cases even : a.significand % 2 = 0
  · have odd := hb.strict (by omega)
    linarith [odd.1]
  · have odd := ha.strict even
    rw [quarters] at odd
    linarith [odd.2]

-- What rounds to a size lies below what rounds to the first size of the next exponent.
theorem Proper.below (pa : a.Proper) (ha : a.Rounds v) : v < (8 * hiddenBit - 2 : ℚ) * a.quarter := by
  have short := pa.short
  have positive := a.quarter_pos
  by_cases last : a.significand + 1 = 2 * hiddenBit
  · have top : a.highest + 2 = 8 * hiddenBit := by
      unfold highest
      omega
    have top' : (a.highest : ℚ) + 2 = 8 * hiddenBit := by exact_mod_cast top
    rw [← top', add_sub_cancel_right]
    exact (ha.strict (by omega)).2
  · have room : a.highest + 6 ≤ 8 * hiddenBit := by
      unfold highest
      omega
    have room' : (a.highest : ℚ) + 6 ≤ 8 * hiddenBit := by exact_mod_cast room
    exact ha.weaken.2.trans_lt (mul_lt_mul_of_pos_right (by linarith) positive)

-- What rounds to a size past the least exponent lies above what rounds to the last one of an exponent before.
theorem Proper.above (pb : b.Proper) (past : leastExponent < b.exponent) (hb : b.Rounds v) :
    (4 * hiddenBit - 1 : ℚ) * b.quarter ≤ v := by
  have full := pb.full past
  have above : 4 * hiddenBit ≤ b.lowest + 1 := by
    have wide : b.significand = hiddenBit ∨ hiddenBit < b.significand := by omega
    unfold lowest
    rcases wide with least | more
    · rw [if_pos ⟨least, past⟩]
      omega
    · rw [if_neg fun both => by omega]
      omega
  have above' : (4 * hiddenBit : ℚ) ≤ b.lowest + 1 := by exact_mod_cast above
  exact (mul_le_mul_of_nonneg_right (by linarith) b.quarter_pos.le).trans hb.weaken.1

theorem twice_quarter (less : a.exponent < b.exponent) : 2 * a.quarter ≤ b.quarter := by
  have step : (2 : ℚ) * 2 ^ (a.exponent - 2) = 2 ^ (a.exponent - 2 + 1) := by
    rw [zpow_add₀ (by norm_num), zpow_one, mul_comm]
  rw [quarter, quarter, step]
  exact zpow_le_zpow_right₀ (by norm_num) (by omega)

-- With a smaller exponent everything lies below.
theorem Rounds.exponent_le (pa : a.Proper) (pb : b.Proper) (ha : a.Rounds v) (hb : b.Rounds v) :
    b.exponent ≤ a.exponent := by
  by_contra less
  rw [not_le] at less
  have first : (0 : ℚ) ≤ 4 * hiddenBit - 1 := by
    have : (1 : ℚ) ≤ hiddenBit := by exact_mod_cast (show 1 ≤ hiddenBit by decide)
    linarith
  have crossed : v < v := calc
    v < (8 * hiddenBit - 2) * a.quarter := pa.below ha
    _ = (4 * hiddenBit - 1) * (2 * a.quarter) := by ring
    _ ≤ (4 * hiddenBit - 1) * b.quarter := mul_le_mul_of_nonneg_left (twice_quarter less) first
    _ ≤ v := pb.above (lt_of_le_of_lt pa.least less) hb
  exact lt_irrefl v crossed

-- No number reads as two sizes.
theorem Rounds.unique (pa : a.Proper) (pb : b.Proper) (ha : a.Rounds v) (hb : b.Rounds v) : a = b := by
  have exponents := le_antisymm (ha.exponent_le pa pb hb) (hb.exponent_le pb pa ha)
  have significands := le_antisymm (ha.significand_le exponents.symm hb) (hb.significand_le exponents ha)
  cases a
  cases b
  simp_all

end

end Magnitude

namespace Double

variable {negative : Bool} {size : Magnitude}

theorem ofBits_proper {bits : Nat} (finite : Double.ofBits bits = .finite negative size) : size.Proper := by
  have short := Nat.mod_lt bits (show 0 < hiddenBit by decide)
  have field := Nat.mod_lt (bits / hiddenBit) (show 0 < 2048 by decide)
  unfold ofBits at finite
  dsimp only at finite
  split at finite
  · split at finite <;> cases finite
  · split at finite
    · cases finite
      exact ⟨le_refl _, by dsimp only; omega, fun above => absurd above (lt_irrefl _)⟩
    · cases finite
      exact ⟨by dsimp only; omega, by dsimp only; omega, fun _ => Nat.le_add_right _ _⟩

-- The three fields of the bits, read off what they say.
theorem ofBits_fields {bits : Nat} (finite : Double.ofBits bits = .finite negative size) :
    (bits / 2 ^ 63 % 2 == 1) = negative ∧ leastExponent + (bits / hiddenBit % 2048 - 1 : Nat) = size.exponent ∧
      (if bits / hiddenBit % 2048 = 0 then 0 else hiddenBit) + bits % hiddenBit = size.significand := by
  unfold ofBits at finite
  dsimp only at finite
  split at finite
  · split at finite <;> cases finite
  · split at finite
    · next zero =>
      cases finite
      exact ⟨rfl, by simp [zero], by simp [zero]⟩
    · next zero =>
      cases finite
      exact ⟨rfl, rfl, by simp [zero]⟩

theorem ofBits_injective {bits others : Nat} (hb : bits < 2 ^ 64) (ho : others < 2 ^ 64)
    (first : Double.ofBits bits = .finite negative size) (second : Double.ofBits others = .finite negative size) :
    bits = others := by
  have unit : hiddenBit = 2 ^ 52 := rfl
  obtain ⟨sign, exponent, significand⟩ := ofBits_fields first
  obtain ⟨sign', exponent', significand'⟩ := ofBits_fields second
  have top : bits / 2 ^ 63 = others / 2 ^ 63 := by
    have same := sign.trans sign'.symm
    rw [Bool.eq_iff_iff, beq_iff_eq, beq_iff_eq] at same
    omega
  rw [unit] at exponent exponent' significand significand'
  have fields : bits / 2 ^ 52 % 2048 = others / 2 ^ 52 % 2048 := by
    split at significand <;> split at significand' <;> omega
  rw [fields] at significand
  omega

theorem ofFloat_injective {x y : Float} (hx : Double.ofFloat x = .finite negative size)
    (hy : Double.ofFloat y = .finite negative size) : x = y := by
  have bits : x.toBits = y.toBits := UInt64.toNat_inj.mp (ofBits_injective x.toBits.toNat_lt y.toBits.toNat_lt hx hy)
  -- A double is its bits, with a proof that they are in order.
  obtain ⟨⟨inner, _⟩⟩ := x
  obtain ⟨⟨other, _⟩⟩ := y
  obtain rfl : inner = other := bits
  rfl

end Double

end ScopeScript.Decimal
