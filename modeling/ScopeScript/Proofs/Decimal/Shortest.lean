import ScopeScript.Proofs.Decimal.Interval

namespace ScopeScript.Decimal

def Digits.value (d : Digits) : ℚ := d.digits * 10 ^ d.scale

theorem ten_pos (scale : ℤ) : (0 : ℚ) < 10 ^ scale := zpow_pos (by norm_num) scale

-- A power times the one that clears its denominator.
theorem cleared (base : ℚ) (nonzero : base ≠ 0) (z : ℤ) : base ^ z * base ^ (-z).toNat = base ^ z.toNat := by
  rw [← zpow_natCast base (-z).toNat, ← zpow_natCast base z.toNat, ← zpow_add₀ nonzero]
  congr 1
  have parts := Int.toNat_sub_toNat_neg z
  omega

theorem digitsOf_ne_nil (n : Nat) : digitsOf n ≠ [] := Nat.toDigits_ne_nil

theorem lt_digitsOf (n : Nat) : n < 10 ^ (digitsOf n).length :=
  (Nat.length_toDigits_le_iff (by decide) (List.length_pos_iff.mpr (digitsOf_ne_nil n))).mp (Nat.le_refl _)

theorem digitsOf_le {n : Nat} (positive : 0 < n) : 10 ^ ((digitsOf n).length - 1) ≤ n := by
  by_contra less
  rw [not_le] at less
  by_cases single : (digitsOf n).length - 1 = 0
  · rw [single, Nat.pow_zero] at less
    omega
  · have fewer := (Nat.length_toDigits_le_iff (by decide) (Nat.pos_of_ne_zero single)).mpr less
    unfold digitsOf at single fewer
    omega

namespace Grid

variable {exponent scale : ℤ}

-- A natural number stands for a rational one once both sides carry the common denominator.
def Stands (exponent scale : ℤ) (n : Nat) (v : ℚ) : Prop :=
  (n : ℚ) * 10 ^ scale = (Grid.at exponent scale).denominator * v

theorem denominator_pos (exponent scale : ℤ) : 0 < (Grid.at exponent scale).denominator := by
  simp only [Grid.at, Nat.pow_eq]
  positivity

theorem stands_point (exponent scale : ℤ) (point : Nat) :
    Stands exponent scale (point * (Grid.at exponent scale).denominator) (point * 10 ^ scale) := by
  unfold Stands
  push_cast
  ring

theorem stands_ends (exponent scale : ℤ) (ends : Nat) :
    Stands exponent scale (ends * (Grid.at exponent scale).numerator) (ends * 2 ^ (exponent - 2)) := by
  simp only [Stands, Grid.at, Nat.pow_eq]
  push_cast
  rw [← cleared 2 (by norm_num) (exponent - 2), ← cleared 10 (by norm_num) scale]
  ring

theorem Stands.le_iff {n m : Nat} {u v : ℚ} (hn : Stands exponent scale n u) (hm : Stands exponent scale m v) :
    n ≤ m ↔ u ≤ v := by
  have positive : (0 : ℚ) < (Grid.at exponent scale).denominator := by exact_mod_cast denominator_pos exponent scale
  have scaled : (n : ℚ) * 10 ^ scale ≤ m * 10 ^ scale ↔ (n : ℚ) ≤ m := mul_le_mul_iff_left₀ (ten_pos scale)
  rw [hn, hm, mul_le_mul_iff_right₀ positive] at scaled
  exact (scaled.trans Nat.cast_le).symm

theorem Stands.lt_iff {n m : Nat} {u v : ℚ} (hn : Stands exponent scale n u) (hm : Stands exponent scale m v) :
    n < m ↔ u < v := by
  rw [← not_le, ← not_le, hm.le_iff hn]

end Grid

theorem Tie.choose_either (tie : Tie) (low : Nat) : tie.choose low = low ∨ tie.choose low = low + 1 := by
  cases tie with
  | up => exact .inr rfl
  | toEven =>
    by_cases even : low % 2 = 0
    · exact .inl (if_pos even)
    · exact .inr (if_neg even)

namespace Magnitude

variable {size : Magnitude} {scale : ℤ} {point : Nat}

-- The grid decides what rounds to a size.
theorem holds_iff : size.holds (Grid.at size.exponent scale) point = true ↔ size.Rounds (point * 10 ^ scale) := by
  have here := Grid.stands_point size.exponent scale point
  have low := Grid.stands_ends size.exponent scale size.lowest
  have high := Grid.stands_ends size.exponent scale size.highest
  unfold holds Rounds quarter
  split
  · simp only [Bool.and_eq_true, decide_eq_true_eq, low.le_iff here, here.le_iff high]
  · simp only [Bool.and_eq_true, decide_eq_true_eq, low.lt_iff here, here.lt_iff high]

theorem nearby_rounds {tie : Tie} (found : size.nearby? tie scale = some point) : size.Rounds (point * 10 ^ scale) := by
  rw [← holds_iff]
  unfold nearby? at found
  dsimp only at found
  split at found
  · cases found
  · next kept _ =>
    cases found
    exact kept
  · next kept =>
    cases found
    exact kept
  · next low high =>
    split at found
    · cases found
      exact low
    · split at found
      · cases found
        exact high
      · rw [← Option.some.inj found]
        rcases tie.choose_either _ with same | same
        · rw [same]
          exact low
        · rw [same]
          exact high

-- Of the two grid points around a size one rounds to it where the grid is finer than what rounds to it.
theorem neighbour_rounds {low : Nat} (nonzero : size.significand ≠ 0) (below : (low : ℚ) * 10 ^ scale ≤ size.value)
    (above : size.value < ((low + 1 : Nat) : ℚ) * 10 ^ scale)
    (fine : 10 ^ scale < (size.highest - size.lowest : ℚ) * size.quarter) :
    size.Rounds (low * 10 ^ scale) ∨ size.Rounds ((low + 1 : Nat) * 10 ^ scale) := by
  by_contra neither
  obtain ⟨lower, upper⟩ := not_or.mp neither
  have left : (low : ℚ) * 10 ^ scale ≤ size.lowest * size.quarter := by
    by_contra inner
    exact lower (.inside (not_le.mp inner) (below.trans_lt size.value_lt_highest))
  have right : size.highest * size.quarter ≤ ((low + 1 : Nat) : ℚ) * 10 ^ scale := by
    by_contra inner
    exact upper (.inside ((lowest_lt_value nonzero).trans above) (not_le.mp inner))
  push_cast at right
  linarith

theorem nearby_exists (tie : Tie) (nonzero : size.significand ≠ 0)
    (fine : 10 ^ scale < (size.highest - size.lowest : ℚ) * size.quarter) : ∃ point, size.nearby? tie scale = some point := by
  have numerators := Grid.stands_ends size.exponent scale (4 * size.significand)
  obtain ⟨low, given⟩ : ∃ low, low = 4 * size.significand * (Grid.at size.exponent scale).numerator /
      (Grid.at size.exponent scale).denominator := ⟨_, rfl⟩
  have positive := Grid.denominator_pos size.exponent scale
  have below : (low : ℚ) * 10 ^ scale ≤ size.value := by
    rw [value_eq]
    have step := (Grid.stands_point size.exponent scale low).le_iff numerators
    push_cast at step
    exact step.mp (given ▸ Nat.div_mul_le_self _ _)
  have above : size.value < ((low + 1 : Nat) : ℚ) * 10 ^ scale := by
    rw [value_eq]
    have step := numerators.lt_iff (Grid.stands_point size.exponent scale (low + 1))
    push_cast at step ⊢
    exact step.mp (given ▸ Nat.lt_mul_of_div_lt (Nat.lt_succ_self _) positive)
  have one := neighbour_rounds nonzero below above fine
  rw [← holds_iff, ← holds_iff] at one
  unfold nearby?
  dsimp only
  rw [← given]
  split
  · simp_all
  · exact ⟨_, rfl⟩
  · exact ⟨_, rfl⟩
  · split
    · exact ⟨_, rfl⟩
    · split <;> exact ⟨_, rfl⟩

theorem value_cleared (size : Magnitude) :
    size.value * Nat.pow 2 (-size.exponent).toNat = (size.significand * Nat.pow 2 size.exponent.toNat : Nat) := by
  simp only [value, Nat.pow_eq]
  push_cast
  rw [← cleared 2 (by norm_num) size.exponent]
  ring

-- A size is not below its leading digit's one.
theorem leading_le (nonzero : size.significand ≠ 0) : (10 : ℚ) ^ size.leading ≤ size.value := by
  obtain ⟨above, upper⟩ : ∃ above, above = size.significand * Nat.pow 2 size.exponent.toNat := ⟨_, rfl⟩
  obtain ⟨below, lower⟩ : ∃ below, below = Nat.pow 2 (-size.exponent).toNat := ⟨_, rfl⟩
  have cut := size.value_cleared
  rw [← upper, ← lower] at cut
  have positive : 0 < below := lower ▸ Nat.pow_pos (by decide)
  have filled : 0 < above := upper ▸ Nat.mul_pos (Nat.pos_of_ne_zero nonzero) (Nat.pow_pos (by decide))
  have positive' : (0 : ℚ) < below := by exact_mod_cast positive
  unfold leading
  dsimp only
  rw [← upper, ← lower]
  split
  · next whole =>
    have some := digitsOf_ne_nil (above / below)
    have bound : 10 ^ ((digitsOf (above / below)).length - 1) * below ≤ above :=
      (Nat.mul_le_mul_right below (digitsOf_le (Nat.div_pos whole positive))).trans (Nat.div_mul_le_self _ _)
    have index : ((digitsOf (above / below)).length : ℤ) - 1 = ((digitsOf (above / below)).length - 1 : Nat) := by
      have := List.length_pos_iff.mpr some
      omega
    rw [index, zpow_natCast, ← mul_le_mul_iff_left₀ positive', cut]
    exact_mod_cast bound
  · next short =>
    obtain ⟨times, given⟩ : ∃ times, times = (below + above - 1) / above := ⟨_, rfl⟩
    rw [← given]
    have reach : below ≤ above * times := by
      have cover : below + above - 1 < (times + 1) * above :=
        Nat.lt_mul_of_div_lt (given ▸ Nat.lt_succ_self _) filled
      rw [Nat.succ_mul] at cover
      rw [Nat.mul_comm]
      omega
    have bound : below ≤ above * 10 ^ (digitsOf (times - 1)).length :=
      reach.trans (Nat.mul_le_mul_left above (by have := lt_digitsOf (times - 1); omega))
    have bound' : (below : ℚ) ≤ above * 10 ^ (digitsOf (times - 1)).length := by exact_mod_cast bound
    rw [zpow_neg, zpow_natCast, inv_le_iff_one_le_mul₀ (by positivity), ← mul_le_mul_iff_left₀ positive', mul_right_comm, cut]
    linarith

-- Seventeen digits always suffice.
theorem nearby_last (tie : Tie) (proper : size.Proper) (nonzero : size.significand ≠ 0) :
    ∃ point, size.nearby? tie (size.leading - 16) = some point := by
  refine nearby_exists tie nonzero ?_
  have positive := size.quarter_pos
  have first : (10 : ℚ) ^ (size.leading - 16) * 10 ^ 16 ≤ 4 * size.significand * size.quarter := by
    rw [← value_eq, ← zpow_natCast, ← zpow_add₀ (by norm_num)]
    simpa using leading_le nonzero
  have wide : (4 * size.significand : ℚ) < (size.highest - size.lowest) * 10 ^ 16 := by
    have hidden : hiddenBit = 4503599627370496 := rfl
    have bound : 4 * size.significand + size.lowest * 10 ^ 16 < size.highest * 10 ^ 16 := by
      have short := proper.short
      unfold lowest highest
      split <;> omega
    have bound' : (4 * size.significand : ℚ) + size.lowest * 10 ^ 16 < size.highest * 10 ^ 16 := by exact_mod_cast bound
    linarith
  have scaled := mul_lt_mul_of_pos_right wide positive
  have power : (0 : ℚ) < 10 ^ 16 := by norm_num
  refine lt_of_mul_lt_mul_right (first.trans_lt ?_) power.le
  linarith

end Magnitude

theorem Digits.trim_value (fuel : Nat) (d : Digits) : (d.trim fuel).value = d.value := by
  induction fuel generalizing d with
  | zero => rfl
  | succ fuel ih =>
    unfold trim
    split
    · next whole =>
      rw [ih]
      have tens : (d.digits : ℚ) = (d.digits / 10 : Nat) * 10 := by
        exact_mod_cast (Nat.div_mul_cancel (Nat.dvd_of_mod_eq_zero whole)).symm
      simp only [value]
      rw [tens, zpow_add₀ (by norm_num), zpow_one]
      ring
    · rfl

-- The shortest digits read back as the size.
theorem Magnitude.shortest_rounds {size : Magnitude} (tie : Tie) (proper : size.Proper) :
    size.Rounds (size.shortest tie).value := by
  unfold shortest
  split
  · next zero =>
    have same : size.value = 0 := by rw [value, zero, Nat.cast_zero, zero_mul]
    simpa [Digits.value, same] using size.rounds_value
  · next nonzero =>
    dsimp only
    obtain ⟨point, last⟩ := nearby_last tie proper nonzero
    cases found : (List.range 17).findSome? fun (n : Nat) =>
        (size.nearby? tie (size.leading - n)).map fun point => Digits.trim 18 ⟨point, size.leading - n⟩ with
    | none =>
      have missed := List.findSome?_eq_none_iff.mp found 16 (by decide)
      rw [show size.leading - (16 : Nat) = size.leading - 16 from rfl, last] at missed
      cases missed
    | some d =>
      obtain ⟨n, -, given⟩ := List.exists_of_findSome?_eq_some found
      obtain ⟨point, nearby, trimmed⟩ := Option.map_eq_some_iff.mp given
      rw [Option.getD_some, ← trimmed, Digits.trim_value]
      exact nearby_rounds nearby

end ScopeScript.Decimal
