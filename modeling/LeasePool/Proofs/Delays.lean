import LeasePool.Proofs.Doubles

/-!
Delays that double. As long as no power of two is infinite the delay is computed without any error,
and later it is the greatest one. Two cases are different: a first delay of zero times an infinite
power is not a number, and from 2^31 on the number of an attempt reads as a negative power.
-/

namespace LeasePool

open Double

variable {n m : Nat} {k : Int}

theorem one_eq_scaled : (1 : Float) = scaled 1 0 := by
  decide

theorem two_eq_scaled : (2 : Float) = scaled 1 1 := by
  decide

/-- Repeated squaring adds up the exponents that the digits call for. -/
theorem powerOnto_scaled (base product n : Nat) :
    powerOnto (scaled 1 base) (scaled 1 product) n =
      scaled 1 ((product + base * n : Nat) : Int) := by
  -- From digit to digit the base is squared, so its exponent doubles.
  induction n using Nat.strongRecOn generalizing base product with
  | ind n ih =>
      have hmul (a b : Nat) : scaled 1 a * scaled 1 b = scaled 1 ((a + b : Nat) : Int) :=
        scaled_mul_power Nat.one_pos (by decide) a b
      have hproduct : (if n % 2 = 1 then scaled 1 product * scaled 1 base else scaled 1 product) =
          scaled 1 ((product + base * (n % 2) : Nat) : Int) := by
        rcases Nat.mod_two_eq_zero_or_one n with heven | hodd
        · rw [heven, if_neg (by decide), Nat.mul_zero, Nat.add_zero]
        · rw [hodd, if_pos rfl, hmul, Nat.mul_one]
      rw [powerOnto]
      simp only [hproduct]
      split
      · next hhalf => rw [show n % 2 = n by omega]
      · next hhalf =>
        rw [hmul, ih (n / 2) (by omega)]
        have hsplit : base * n = base * (n % 2) + (base + base) * (n / 2) := by
          rw [← Nat.two_mul, Nat.mul_comm 2, Nat.mul_assoc, ← Nat.mul_add, Nat.mod_add_div]
        rw [hsplit, Nat.add_assoc]

theorem powerOnto_two (n : Nat) : powerOnto 2 1 n = scaled 1 n := by
  have h := powerOnto_scaled 1 0 n
  rw [Nat.one_mul, Nat.zero_add] at h
  rw [two_eq_scaled, one_eq_scaled]
  exact h

/-- A natural power of two is infinite from the exponent 1024 on. -/
theorem power_two_nat (p : Nat) : power 2 p = scaled 1 p := by
  rw [power, if_neg (by omega), Int.natAbs_natCast, powerOnto_two]

theorem power_two_neg {d : Nat} (hd : 0 < d) : power 2 (-d) = 1 / scaled 1 d := by
  rw [power, if_pos (by omega), Int.natAbs_neg, Int.natAbs_natCast, powerOnto_two]

theorem isNaN_scaled (h : Fits n k) : (scaled n k).isNaN = false := by
  change (parts (scaled n k)).isNaN = false
  rcases Nat.eq_zero_or_pos n with rfl | hn
  · rw [parts_zero]
    rfl
  · by_cases hsmall : n.log2 + k < 1024
    · rw [h.parts_scaled hn hsmall]
      rfl
    · rw [h.scaled_of_large hn (by omega), parts_inf]
      rfl

theorem smaller_of_isNaN {x y : Float} (h : x.isNaN = true) : smaller x y = y := if_pos h

theorem smaller_inf (hm : Fits m 0) : smaller Float.inf (scaled m 0) = scaled m 0 := by
  have hlog := hm.log2_lt
  have hlt : scaled m 0 < Float.inf := by
    rw [lt_iff_parts, parts_inf]
    rcases Nat.eq_zero_or_pos m with rfl | hpos
    · rw [parts_zero]
      rfl
    · rw [hm.parts_scaled hpos (by omega)]
      rfl
  rw [smaller, isNaN_scaled hm, if_neg (by decide), if_neg (by decide), if_pos hlt]

/-- The smaller of two doubles is truncated to the smaller of two numbers. -/
theorem toNat_toUInt64_smaller (h : Fits n k) (hsmall : n.log2 + k < 1024) (hm : Fits m 0) :
    (smaller (scaled n k) (scaled m 0)).toUInt64.toNat = min (units n k / units 1 0) m := by
  have hlog := hm.log2_lt
  have hunits : units m 0 = m * units 1 0 := by
    rw [units, units, Nat.one_mul]
  have hlt := scaled_lt_iff hm h (by omega) hsmall
  rw [smaller, isNaN_scaled h, isNaN_scaled hm, if_neg (by decide), if_neg (by decide)]
  by_cases hless : scaled m 0 < scaled n k
  · have hle : m ≤ units n k / units 1 0 := by
      rw [Nat.le_div_iff_mul_le units_one_pos, ← hunits]
      exact Nat.le_of_lt (hlt.1 hless)
    rw [if_pos hless, toNat_toUInt64_whole hm, Nat.min_eq_right hle]
  · have hle : units n k / units 1 0 ≤ m := by
      rw [← Nat.mul_div_cancel m units_one_pos, ← hunits]
      exact Nat.div_le_div_right (Nat.not_lt.1 fun hunit => hless (hlt.2 hunit))
    have hlarge : m < UInt64.size := Nat.lt_trans hm.lt (by decide)
    rw [if_neg hless, toNat_toUInt64_scaled h hsmall (Nat.lt_of_le_of_lt hle hlarge),
      Nat.min_eq_left hle]

namespace Backoff

variable {initial max : UInt64} {attempt later : UInt32}

/-- The first delay, doubled as many times as the number of the attempt says, up to the greatest
delay. -/
def doubled (initial max : UInt64) (attempt : UInt32) : Nat :=
  min (initial.toNat * 2 ^ attempt.toNat) (Nat.max initial.toNat max.toNat)

theorem exponent_eq (attempt : UInt32) : exponent attempt =
    if attempt.toNat < 2 ^ 31 then (attempt.toNat : Int)
    else -((2 ^ 32 - attempt.toNat : Nat) : Int) := by
  have hlt : attempt.toNat < 2 ^ 32 := attempt.toNat_lt
  change attempt.toBitVec.toInt = _
  rw [BitVec.toInt_eq_toNat_cond]
  change (if 2 * attempt.toNat < 2 ^ 32 then (attempt.toNat : Int)
    else attempt.toNat - (2 ^ 32 : Nat)) = _
  split <;> split <;> omega

theorem toNat_max_new (initial max : UInt64) :
    (new initial max).max.toNat = Nat.max initial.toNat max.toNat := by
  rw [new]
  split
  · next h => exact (Nat.max_eq_left (Nat.le_of_lt (UInt64.lt_iff_toNat_lt.1 h))).symm
  · next h =>
    have hle : initial.toNat ≤ max.toNat :=
      Nat.not_lt.1 fun hlt => h (UInt64.lt_iff_toNat_lt.2 hlt)
    exact (Nat.max_eq_right hle).symm

theorem delay_new (initial max : UInt64) (attempt : UInt32) :
    (new initial max).delay attempt =
      (smaller (scaled initial.toNat 0 * power 2 (exponent attempt))
        (scaled (Nat.max initial.toNat max.toNat) 0)).toUInt64 := by
  rw [delay, toFloat_eq, toFloat_eq, toNat_max_new]
  rfl

theorem fits_greatest (hinitial : initial.toNat < 2 ^ 53) (hmax : max.toNat < 2 ^ 53) :
    Fits (Nat.max initial.toNat max.toNat) 0 :=
  ⟨Nat.max_lt.2 ⟨hinitial, hmax⟩, by decide⟩

/-- A number times an infinite power of two is not below any delay. -/
theorem le_mul_pow_of_large {p : Nat} (hm : m < 2 ^ 53) (hn : 0 < n)
    (hlarge : 1024 ≤ n.log2 + p) : m ≤ n * 2 ^ p := by
  calc m ≤ 2 ^ 53 := Nat.le_of_lt hm
    _ ≤ 2 ^ (n.log2 + p) := Nat.pow_le_pow_right (by decide) (by omega)
    _ = 2 ^ n.log2 * 2 ^ p := Nat.pow_add _ _ _
    _ ≤ n * 2 ^ p := Nat.mul_le_mul_right _ (Nat.log2_self_le (Nat.ne_of_gt hn))

/-- Below 2^31 the power is that of the attempt. -/
theorem delay_of_nat (hinitial : initial.toNat < 2 ^ 53) (hmax : max.toNat < 2 ^ 53)
    (hattempt : attempt.toNat < 2 ^ 31) : ((new initial max).delay attempt).toNat =
      if initial.toNat = 0 ∧ 1024 ≤ attempt.toNat then max.toNat
      else doubled initial max attempt := by
  have hgreatest := fits_greatest hinitial hmax
  rw [doubled, delay_new, exponent_eq, if_pos hattempt, power_two_nat]
  generalize initial.toNat = n at *
  generalize attempt.toNat = p at *
  have hfits : Fits n 0 := ⟨hinitial, by decide⟩
  have hpower : Fits 1 p := ⟨by decide, by omega⟩
  have hproduct : Fits n (0 + (p : Int)) := ⟨hinitial, by omega⟩
  have hlog := hfits.log2_lt
  by_cases hsmall : (n.log2 : Int) + p < 1024
  · rw [scaled_mul_of_small hfits hpower hproduct (by omega) (by omega),
      toNat_toUInt64_smaller hproduct (by omega) hgreatest, Int.zero_add, units_nat_div,
      if_neg (by omega)]
  · rcases Nat.eq_zero_or_pos n with rfl | hn
    · -- The power is infinite, so the product is not a number and the other operand is taken.
      have hlarge : 1024 ≤ (p : Int) := by
        rw [show Nat.log2 0 = 0 by decide] at hsmall
        omega
      rw [hpower.scaled_of_large (by decide) (by rw [log2_one]; omega),
        smaller_of_isNaN (isNaN_zero_mul_inf 0), toNat_toUInt64_whole hgreatest,
        if_pos ⟨rfl, by omega⟩]
      exact Nat.zero_max _
    · have hle := le_mul_pow_of_large hgreatest.lt hn (show 1024 ≤ n.log2 + p by omega)
      have hmul := scaled_mul_power hn hinitial 0 p
      rw [Int.natCast_zero, Nat.zero_add] at hmul
      rw [hmul, Fits.scaled_of_large ⟨hinitial, by omega⟩ hn (by omega),
        smaller_inf hgreatest, toNat_toUInt64_whole hgreatest, if_neg (by omega),
        Nat.min_eq_right hle]

/-- From 2^31 on the power is negative. -/
theorem delay_of_neg (hinitial : initial.toNat < 2 ^ 53) (hmax : max.toNat < 2 ^ 53)
    (hattempt : 2 ^ 31 ≤ attempt.toNat) : ((new initial max).delay attempt).toNat =
      initial.toNat / 2 ^ (2 ^ 32 - attempt.toNat) := by
  have hgreatest := fits_greatest hinitial hmax
  have hlt : attempt.toNat < 2 ^ 32 := attempt.toNat_lt
  rw [delay_new, exponent_eq, if_neg (by omega), power_two_neg (by omega), one_eq_scaled]
  generalize 2 ^ 32 - attempt.toNat = d at *
  generalize initial.toNat = n at *
  have hfits : Fits n 0 := ⟨hinitial, by decide⟩
  have hlog := hfits.log2_lt
  have hle : n / 2 ^ d ≤ Nat.max n max.toNat :=
    Nat.le_trans (Nat.div_le_self _ _) (Nat.le_max_left _ _)
  by_cases hd : d < 1024
  · have hproduct : Fits n (0 + -(d : Int)) := ⟨hinitial, by omega⟩
    rw [one_div_power hd, scaled_mul_of_small hfits ⟨by decide, by omega⟩ hproduct
      (by omega) (by omega), toNat_toUInt64_smaller hproduct (by omega) hgreatest, Int.zero_add,
      units_neg_div _ (by omega), Nat.min_eq_left hle]
  · have hzero : n / 2 ^ d = 0 := by
      refine Nat.div_eq_of_lt (Nat.lt_of_lt_of_le hinitial ?_)
      exact Nat.pow_le_pow_right (by decide) (by omega)
    have hinf : scaled 1 d = Float.inf :=
      Fits.scaled_of_large ⟨by decide, by omega⟩ (by decide) (by rw [log2_one]; omega)
    rw [hinf, one_div_inf 0, scaled_mul_zero hfits (by omega),
      toNat_toUInt64_smaller ⟨by decide, by decide⟩ (by decide) hgreatest, hzero, units,
      Nat.zero_mul, Nat.zero_div, Nat.zero_min]

theorem doubled_le (initial max : UInt64) (attempt : UInt32) :
    doubled initial max attempt ≤ Nat.max initial.toNat max.toNat := Nat.min_le_right _ _

theorem doubled_mono (h : attempt ≤ later) :
    doubled initial max attempt ≤ doubled initial max later := by
  have hpower : 2 ^ attempt.toNat ≤ 2 ^ later.toNat :=
    Nat.pow_le_pow_right (by decide) (UInt32.le_iff_toNat_le.1 h)
  exact Nat.le_min_of_le_of_le (Nat.le_trans (Nat.min_le_left _ _) (Nat.mul_le_mul_left _ hpower))
    (Nat.min_le_right _ _)

theorem doubled_of_zero (hinitial : initial.toNat = 0) : doubled initial max attempt = 0 := by
  rw [doubled, hinitial, Nat.zero_mul, Nat.zero_min]

/-- The first delay is the least one. -/
theorem le_doubled : initial.toNat ≤ doubled initial max attempt := by
  refine Nat.le_min_of_le_of_le ?_ (Nat.le_max_left _ _)
  exact Nat.le_mul_of_pos_right _ (Nat.two_pow_pos _)

theorem doubled_first : doubled initial max 0 = initial.toNat := by
  refine Nat.le_antisymm ?_ le_doubled
  refine Nat.le_trans (Nat.min_le_left _ _) ?_
  exact Nat.le_of_eq (Nat.mul_one _)

theorem toNat_delay (hinitial : initial.toNat < 2 ^ 53) (hmax : max.toNat < 2 ^ 53)
    (attempt : UInt32) : ((new initial max).delay attempt).toNat =
      if 2 ^ 31 ≤ attempt.toNat then initial.toNat / 2 ^ (2 ^ 32 - attempt.toNat)
      else if initial.toNat = 0 ∧ 1024 ≤ attempt.toNat then max.toNat
      else doubled initial max attempt := by
  split
  · next hneg => exact delay_of_neg hinitial hmax hneg
  · next hnat => exact delay_of_nat hinitial hmax (Nat.not_le.1 hnat)

/-- Where the delays are those of doubling. -/
theorem delay_eq_doubled_iff (hinitial : initial.toNat < 2 ^ 53) (hmax : max.toNat < 2 ^ 53) :
    ((new initial max).delay attempt).toNat = doubled initial max attempt ↔
      if initial.toNat = 0 then
        max.toNat = 0 ∨ attempt.toNat < 1024 ∨ 2 ^ 31 ≤ attempt.toNat
      else attempt.toNat < 2 ^ 31 := by
  rw [toNat_delay hinitial hmax]
  by_cases hzero : initial.toNat = 0
  · rw [doubled_of_zero hzero, if_pos hzero, hzero, Nat.zero_div]
    split
    · next hneg => exact iff_of_true rfl (.inr (.inr hneg))
    · split <;> omega
  · rw [if_neg hzero]
    split
    · next hneg =>
      -- A first delay that is halved at least once is below itself, so below every doubled one.
      have hhalf : 1 < 2 ^ (2 ^ 32 - attempt.toNat) :=
        Nat.one_lt_two_pow (Nat.sub_ne_zero_of_lt attempt.toNat_lt)
      have hless := Nat.div_lt_self (Nat.pos_of_ne_zero hzero) hhalf
      exact iff_of_false (Nat.ne_of_lt (Nat.lt_of_lt_of_le hless le_doubled)) (Nat.not_lt.2 hneg)
    · next hnat =>
      rw [if_neg fun h => hzero h.1]
      exact iff_of_true rfl (Nat.not_le.1 hnat)

theorem delay_le_max (hinitial : initial.toNat < 2 ^ 53) (hmax : max.toNat < 2 ^ 53) :
    (new initial max).delay attempt ≤ (new initial max).max := by
  rw [UInt64.le_iff_toNat_le, toNat_delay hinitial hmax, toNat_max_new]
  split
  · exact Nat.le_trans (Nat.div_le_self _ _) (Nat.le_max_left _ _)
  · split
    · exact Nat.le_max_right _ _
    · exact doubled_le _ _ _

theorem delay_first (hinitial : initial.toNat < 2 ^ 53) (hmax : max.toNat < 2 ^ 53) :
    (new initial max).delay 0 = initial := by
  rw [← UInt64.toNat_inj, toNat_delay hinitial hmax, if_neg (by decide),
    if_neg fun h => absurd h.2 (by decide), doubled_first]

/-- Before the powers become negative no delay is below an earlier one. -/
theorem delay_mono (hinitial : initial.toNat < 2 ^ 53) (hmax : max.toNat < 2 ^ 53)
    (hle : attempt ≤ later) (hlater : later.toNat < 2 ^ 31) :
    (new initial max).delay attempt ≤ (new initial max).delay later := by
  have hnumbers := UInt32.le_iff_toNat_le.1 hle
  rw [UInt64.le_iff_toNat_le, delay_of_nat hinitial hmax hlater,
    delay_of_nat hinitial hmax (Nat.lt_of_le_of_lt hnumbers hlater)]
  by_cases hzero : initial.toNat = 0
  · rw [doubled_of_zero hzero, doubled_of_zero hzero]
    split <;> split <;> omega
  · rw [if_neg fun h => hzero h.1, if_neg fun h => hzero h.1]
    exact doubled_mono hle

/-- Every delay of a strategy that doubles, for first and greatest delays below 2^53. It is the
first delay doubled for every attempt, up to the greatest one, except in two cases: a first delay of
zero becomes the greatest delay from the attempt 1024 on, and from the attempt 2^31 on the first
delay is halved, the more often the longer it is to the attempt 2^32. No delay is above the greatest
one, and before the attempt 2^31 none is below an earlier one. -/
theorem delay_doubles (initial max : UInt64) (hinitial : initial.toNat < 2 ^ 53)
    (hmax : max.toNat < 2 ^ 53) :
    (∀ attempt, ((new initial max).delay attempt).toNat =
      if 2 ^ 31 ≤ attempt.toNat then initial.toNat / 2 ^ (2 ^ 32 - attempt.toNat)
      else if initial.toNat = 0 ∧ 1024 ≤ attempt.toNat then max.toNat
      else doubled initial max attempt) ∧
    (∀ attempt, ((new initial max).delay attempt).toNat = doubled initial max attempt ↔
      if initial.toNat = 0 then
        max.toNat = 0 ∨ attempt.toNat < 1024 ∨ 2 ^ 31 ≤ attempt.toNat
      else attempt.toNat < 2 ^ 31) ∧
    (∀ attempt, (new initial max).delay attempt ≤ (new initial max).max) ∧
    (new initial max).delay 0 = initial ∧
    ∀ attempt later, attempt ≤ later → later.toNat < 2 ^ 31 →
      (new initial max).delay attempt ≤ (new initial max).delay later :=
  ⟨toNat_delay hinitial hmax, fun _ => delay_eq_doubled_iff hinitial hmax,
    fun _ => delay_le_max hinitial hmax, delay_first hinitial hmax,
    fun _ _ => delay_mono hinitial hmax⟩

theorem delay_doubles_hundred : (100 : UInt64).toNat < 2 ^ 53 ∧ (5000 : UInt64).toNat < 2 ^ 53 ∧
    ((new 100 5000).delay 3).toNat = 800 ∧ ((new 100 5000).delay 64).toNat = 5000 := by
  have hinitial : (100 : UInt64).toNat < 2 ^ 53 := by decide
  have hmax : (5000 : UInt64).toNat < 2 ^ 53 := by decide
  obtain ⟨hdelay, -⟩ := delay_doubles 100 5000 hinitial hmax
  exact ⟨hinitial, hmax, (hdelay 3).trans (by decide), (hdelay 64).trans (by decide)⟩

/-- A first delay of zero becomes the greatest delay, and a delay at the greatest one is lost. -/
theorem delay_leaves_doubling :
    ((new 0 5000).delay 1024).toNat = 5000 ∧ doubled 0 5000 1024 = 0 ∧
      ((new 100 1000).delay 2147483648).toNat = 0 ∧ doubled 100 1000 2147483648 = 1000 := by
  refine ⟨?_, doubled_of_zero rfl, ?_, ?_⟩
  · rw [delay_of_nat (by decide) (by decide) (by decide)]
    decide
  · rw [delay_of_neg (by decide) (by decide) (by decide)]
    have hlarge : (100 : UInt64).toNat < 2 ^ 7 := by decide
    refine Nat.div_eq_of_lt (Nat.lt_of_lt_of_le hlarge ?_)
    exact Nat.pow_le_pow_right (by decide) (by decide)
  · have hfour : doubled 100 1000 4 = 1000 := by decide
    exact Nat.le_antisymm (doubled_le _ _ _) (hfour ▸ doubled_mono (by decide))

end Backoff
end LeasePool
