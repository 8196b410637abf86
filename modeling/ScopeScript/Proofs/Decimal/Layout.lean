import ScopeScript.Decimal.Layout
import ScopeScript.Proofs.Decimal.Shortest

namespace ScopeScript.Decimal

-- The number that a text of digits stands for, with or without a point.
def reading (text : List Char) : ℚ :=
  let whole := text.takeWhile (· != '.')
  let fraction := (text.dropWhile (· != '.')).tail
  numeral (whole ++ fraction) / 10 ^ fraction.length

-- A digit and then digits and points.
def Figures (text : List Char) : Prop :=
  text.head?.any Char.isDigit = true ∧ ∀ c ∈ text, c.isDigit = true ∨ c = '.'

def AllDigits (text : List Char) : Prop := ∀ c ∈ text, c.isDigit = true

namespace AllDigits

variable {ds es : List Char}

theorem digitsOf (n : Nat) : AllDigits (digitsOf n) :=
  fun _ member => Nat.isDigit_of_mem_toDigits (by decide) (by decide) member

theorem zeros (count : Nat) : AllDigits (zeros count) := by
  intro c member
  rw [List.eq_of_mem_replicate member]
  rfl

theorem append (hd : AllDigits ds) (he : AllDigits es) : AllDigits (ds ++ es) :=
  List.forall_mem_append.mpr ⟨hd, he⟩

theorem pointless (hd : AllDigits ds) : ∀ c ∈ ds, (c != '.') = true := by
  intro c member
  rw [bne_iff_ne]
  rintro rfl
  cases hd _ member

theorem figures (hd : AllDigits ds) (some : ds ≠ []) : Figures ds := by
  obtain ⟨c, rest, rfl⟩ := List.exists_cons_of_ne_nil some
  exact ⟨hd c List.mem_cons_self, fun c member => .inl (hd c member)⟩

theorem figures_point (hd : AllDigits ds) (some : ds ≠ []) (he : AllDigits es) : Figures (ds ++ '.' :: es) := by
  obtain ⟨c, rest, rfl⟩ := List.exists_cons_of_ne_nil some
  refine ⟨hd c List.mem_cons_self, fun d member => ?_⟩
  rcases List.mem_append.mp member with whole | behind
  · exact .inl (hd d whole)
  · rcases List.mem_cons.mp behind with point | fraction
    · exact .inr point
    · exact .inl (he d fraction)

theorem reading_whole (hd : AllDigits ds) : reading ds = numeral ds := by
  have taken := @List.takeWhile_append_of_pos _ _ ds [] hd.pointless
  have dropped := @List.dropWhile_append_of_pos _ _ ds [] hd.pointless
  simp only [List.append_nil, List.takeWhile_nil, List.dropWhile_nil] at taken dropped
  simp [reading, taken, dropped]

theorem reading_point (hd : AllDigits ds) : reading (ds ++ '.' :: es) = numeral (ds ++ es) / 10 ^ es.length := by
  simp [reading, List.takeWhile_append_of_pos hd.pointless, List.dropWhile_append_of_pos hd.pointless]

end AllDigits

theorem numeral_eq (ds : List Char) : numeral ds = Nat.ofDigitChars 10 ds 0 := rfl

theorem numeral_digitsOf (n : Nat) : numeral (digitsOf n) = n := Nat.ofDigitChars_toDigits (by decide) (by decide)

theorem numeral_append_zeros (n count : Nat) : numeral (digitsOf n ++ zeros count) = n * 10 ^ count := by
  rw [numeral_eq, Nat.ofDigitChars_append, ← numeral_eq, numeral_digitsOf, zeros, Nat.ofDigitChars_replicate_zero, Nat.mul_comm]

theorem numeral_zeros_append (n count : Nat) : numeral (zeros count ++ digitsOf n) = n := by
  rw [numeral_eq, Nat.ofDigitChars_append, zeros, Nat.ofDigitChars_replicate_zero, Nat.mul_zero, ← numeral_eq, numeral_digitsOf]

-- Digits written out in full are figures that stand for their number.
theorem positional_reads (d : Digits) : Figures (positional d) ∧ reading (positional d) = d.value := by
  have digits := AllDigits.digitsOf d.digits
  have some := digitsOf_ne_nil d.digits
  unfold positional Digits.value
  dsimp only
  split
  · next up =>
    have all := digits.append (.zeros d.scale.toNat)
    refine ⟨all.figures (by simp [some]), ?_⟩
    have power : (10 : ℚ) ^ d.scale = 10 ^ d.scale.toNat := by rw [← zpow_natCast, Int.toNat_of_nonneg up]
    rw [all.reading_whole, numeral_append_zeros, power]
    push_cast
    rfl
  · next down =>
    have power : (10 : ℚ) ^ d.scale = (10 ^ (-d.scale).toNat)⁻¹ := by
      rw [← zpow_natCast, ← zpow_neg, Int.toNat_of_nonneg (by omega), neg_neg]
    rw [power, ← div_eq_mul_inv]
    split
    · next fewer =>
      have front : AllDigits ((digitsOf d.digits).take ((digitsOf d.digits).length - (-d.scale).toNat)) :=
        fun c member => digits c (List.mem_of_mem_take member)
      refine ⟨front.figures_point ?_ fun c member => digits c (List.mem_of_mem_drop member), ?_⟩
      · simp only [ne_eq, List.take_eq_nil_iff, some, or_false]
        omega
      · rw [front.reading_point, List.take_append_drop, numeral_digitsOf, List.length_drop, Nat.sub_sub_self fewer.le]
    · next more =>
      obtain ⟨count, given⟩ : ∃ count, count = (-d.scale).toNat - (digitsOf d.digits).length := ⟨_, rfl⟩
      have zero : AllDigits ['0'] := .zeros 1
      rw [← given]
      have point : '0' :: '.' :: zeros count ++ digitsOf d.digits = ['0'] ++ '.' :: (zeros count ++ digitsOf d.digits) := rfl
      rw [point]
      refine ⟨zero.figures_point (by simp) (.append (.zeros count) digits), ?_⟩
      rw [zero.reading_point, show ['0'] ++ (zeros count ++ digitsOf d.digits) = zeros (count + 1) ++ digitsOf d.digits from rfl,
        numeral_zeros_append, List.length_append, zeros, List.length_replicate, given, Nat.sub_add_cancel (by omega)]

theorem Magnitude.whole_value {size : Magnitude} {n : Nat} (whole : size.whole? = some n) : (n : ℚ) = size.value := by
  unfold whole? at whole
  dsimp only at whole
  split at whole
  · next up =>
    have power : (2 : ℚ) ^ size.exponent = 2 ^ size.exponent.natAbs := by
      rw [← zpow_natCast, Int.natAbs_of_nonneg up]
    rw [← Option.some.inj whole, value, power]
    push_cast [Nat.pow_eq]
    rfl
  · next down =>
    have power : (2 : ℚ) ^ size.exponent = (2 ^ size.exponent.natAbs)⁻¹ := by
      rw [← zpow_natCast, ← zpow_neg, Int.ofNat_natAbs_of_nonpos (by omega), neg_neg]
    split at whole
    · next even =>
      have cut : n * 2 ^ size.exponent.natAbs = size.significand :=
        Option.some.inj whole ▸ Nat.div_mul_cancel (Nat.dvd_of_mod_eq_zero even)
      have cut' : (n : ℚ) * 2 ^ size.exponent.natAbs = size.significand := by exact_mod_cast cut
      rw [value, power, ← cut']
      field_simp
    · cases whole

-- What a literal of the size is written as.
def Magnitude.text (size : Magnitude) : List Char :=
  match size.whole? with
  | some n => digitsOf n ++ ".0".toList
  | none => positional (size.shortest .up)

theorem withPoint_eq {x : Float} {negative : Bool} {size : Magnitude} (finite : Double.ofFloat x = .finite negative size) :
    withPoint x = signed negative size.text := by
  unfold withPoint plain Magnitude.text
  rw [finite]
  dsimp only
  cases size.whole? <;> rfl

theorem Magnitude.text_reads {size : Magnitude} (proper : size.Proper) :
    Figures size.text ∧ size.Rounds (reading size.text) := by
  unfold text
  split
  · next n whole =>
    have digits := AllDigits.digitsOf n
    have tail : digitsOf n ++ ".0".toList = digitsOf n ++ '.' :: zeros 1 := rfl
    rw [tail, digits.reading_point, numeral_append_zeros, zeros, List.length_replicate]
    refine ⟨digits.figures_point (digitsOf_ne_nil n) (.zeros 1), ?_⟩
    have same : ((n * 10 ^ 1 : Nat) : ℚ) / 10 ^ 1 = size.value := by
      rw [← whole_value whole]
      push_cast
      field_simp
    rw [same]
    exact size.rounds_value
  · obtain ⟨figures, value⟩ := positional_reads (size.shortest .up)
    exact ⟨figures, value ▸ shortest_rounds .up proper⟩

-- A sign is no figure.
theorem signed_injective {negative other : Bool} {xs ys : List Char} (hx : Figures xs) (hy : Figures ys)
    (same : signed negative xs = signed other ys) : negative = other ∧ xs = ys := by
  have minus : ∀ {zs : List Char}, ¬ Figures ('-' :: zs) := fun h => by cases h.1
  have lists := String.ofList_injective same
  cases negative <;> cases other <;> simp only [Bool.false_eq_true, if_true, if_false] at lists
  · exact ⟨rfl, lists⟩
  · exact absurd (lists ▸ hx) minus
  · exact absurd (lists ▸ hy) minus
  · exact ⟨rfl, (List.cons.inj lists).2⟩

-- A signed text begins like a number and is one word.
theorem signed_figures (negative : Bool) {text : List Char} (h : Figures text) :
    (signed negative text).toList.head?.any (fun c => c.isDigit || c == '-') = true ∧
      ∀ c ∈ (signed negative text).toList, c.isDigit = true ∨ c = '.' ∨ c = '-' := by
  obtain ⟨opens, inside⟩ := h
  rw [signed, String.toList_ofList]
  cases negative with
  | false =>
    refine ⟨?_, fun c member => (inside c member).imp_right .inl⟩
    cases text with
    | nil => cases opens
    | cons c rest => exact Bool.or_eq_true_iff.mpr (.inl opens)
  | true =>
    refine ⟨rfl, fun c member => ?_⟩
    rcases List.mem_cons.mp member with sign | figure
    · exact .inr (.inr sign)
    · exact (inside c figure).imp_right .inl

def Finite (x : Float) : Prop := ∃ negative size, Double.ofFloat x = .finite negative size

-- No two finite doubles are written alike.
theorem withPoint_injective : Set.InjOn withPoint Finite := by
  rintro x ⟨negative, size, hx⟩ y ⟨other, length, hy⟩ same
  have px := Double.ofBits_proper hx
  have py := Double.ofBits_proper hy
  obtain ⟨figures, reads⟩ := size.text_reads px
  obtain ⟨figures', reads'⟩ := length.text_reads py
  rw [withPoint_eq hx, withPoint_eq hy] at same
  obtain ⟨rfl, texts⟩ := signed_injective figures figures' same
  obtain rfl := reads.unique px py (texts ▸ reads')
  exact Double.ofFloat_injective hx hy

end ScopeScript.Decimal
