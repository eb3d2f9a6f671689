import LeasePool.Backoff
import Mathlib

/-!
Doubles that are a natural number below 2^53 times a power of two. Products of such doubles with
powers of two are exact as long as they are not too great, and they are compared and truncated as
the numbers they stand for.
-/

namespace LeasePool.Double

open Float.Model Float.Model.UnpackedFloat

variable {m n : Nat} {e j k p : Int}

theorem targetExponent_eq (total : Int) :
    Format.binary64.targetExponent total = max (total - 53) (-1074) := rfl

/-- A mantissa and an exponent as a double keeps them: the mantissa has 53 bits, or the exponent is
the least one. -/
structure Canonical (m : Nat) (e : Int) : Prop where
  pos : 0 < m
  target : Format.binary64.targetExponent (totalExponent m e) = e

theorem Canonical.exponent (h : Canonical m e) :
    e = max ((m.log2 : Int) + 1 + e - 53) (-1074) := by
  have htarget := h.target
  rw [targetExponent_eq, totalExponent] at htarget
  exact htarget.symm

theorem Canonical.lt (h : Canonical m e) : m < 2 ^ 53 := by
  have hexponent := h.exponent
  exact (Nat.log2_lt (Nat.ne_of_gt h.pos)).1 (by omega)

/-- Only at the least exponent are there fewer bits. -/
theorem Canonical.normal_or (h : Canonical m e) : (m.log2 = 52 ∧ -1074 ≤ e) ∨
    (m < 2 ^ 52 ∧ e = -1074) := by
  have hexponent := h.exponent
  by_cases hlog : m.log2 = 52
  · exact .inl ⟨hlog, by omega⟩
  · exact .inr ⟨(Nat.log2_lt (Nat.ne_of_gt h.pos)).1 (by omega), by omega⟩

theorem log2_mul_pow (hn : 0 < n) (d : Nat) : (n * 2 ^ d).log2 = n.log2 + d := by
  induction d with
  | zero => rw [Nat.pow_zero, Nat.mul_one, Nat.add_zero]
  | succ d ih =>
      have hpos : n * 2 ^ d ≠ 0 := Nat.ne_of_gt (Nat.mul_pos hn (Nat.two_pow_pos d))
      rw [Nat.pow_succ, ← Nat.mul_assoc, Nat.mul_comm _ 2, Nat.log2_two_mul hpos, ih, Nat.add_assoc]

/-- Bits that are moved from the exponent to the mantissa leave the size alone. -/
theorem totalExponent_mul_pow (hn : 0 < n) (d : Nat) :
    totalExponent (n * 2 ^ d) (k - d) = totalExponent n k := by
  rw [totalExponent, totalExponent, log2_mul_pow hn]
  omega

/-- With 53 bits the first one is not stored. -/
theorem unpack_pack_normal (hpos : 0 < m) (hlog : m.log2 = 52) (hlow : -1074 ≤ e)
    (hhigh : e ≤ 971) : unpack .binary64 (pack .binary64 (.finite .positive m e hpos)) =
      .finite .positive m e hpos := by
  obtain ⟨hlower, hupper⟩ := (Nat.log2_eq_iff (Nat.ne_of_gt hpos)).1 hlog
  have hbiased : (e + (Format.binary64.exponentBias : Nat) +
      (Format.binary64.mantissaBitsWithoutImplicit : Nat)).toNat = (e + 1075).toNat := by
    change (e + (1023 : Nat) + (52 : Nat)).toNat = _
    omega
  have hexponent : (BitVec.ofNat 11 (e + 1075).toNat).toNat = (e + 1075).toNat := by
    rw [BitVec.toNat_ofNat]
    omega
  have hnotAll : BitVec.ofNat 11 (e + 1075).toNat ≠ -1#11 := by
    intro heq
    rw [heq] at hexponent
    change 2047 = _ at hexponent
    omega
  have hnotZero : BitVec.ofNat 11 (e + 1075).toNat ≠ 0#11 := by
    intro heq
    rw [heq] at hexponent
    change 0 = _ at hexponent
    omega
  have hmantissa : (1#1 ++ BitVec.ofNat 52 m).toNat = m := by
    rw [BitVec.toNat_append, ← Nat.shiftLeft_add_eq_or_of_lt (BitVec.ofNat 52 m).isLt,
      BitVec.toNat_ofNat, Nat.shiftLeft_eq]
    change 1 * 2 ^ 52 + m % 2 ^ 52 = m
    omega
  rw [UnpackedFloat.pack]
  simp only [hlog, hbiased]
  rw [if_neg (by omega), if_pos (by rfl), UnpackedFloat.unpack]
  simp only [unpackMantissa_packComponents, unpackExponent_packComponents,
    unpackSign_packComponents, Sign.ofBitVec_toBitVec]
  rw [if_neg hnotAll, if_neg hnotZero]
  simp only [hmantissa, hexponent]
  congr 1
  change ((e + 1075).toNat : Int) - ((1023 : Nat) + (52 : Nat)) = e
  omega

/-- With fewer bits all of them are stored. -/
theorem unpack_pack_subnormal (hpos : 0 < m) (hm : m < 2 ^ 52) :
    unpack .binary64 (pack .binary64 (.finite .positive m (-1074) hpos)) =
      .finite .positive m (-1074) hpos := by
  have hlog : m.log2 < 52 := (Nat.log2_lt (Nat.ne_of_gt hpos)).2 hm
  have hmantissa : (BitVec.ofNat 52 m).toNat = m := by
    rw [BitVec.toNat_ofNat, Nat.mod_eq_of_lt hm]
  have hnotZero : BitVec.ofNat 52 m ≠ 0#52 := by
    intro heq
    rw [heq] at hmantissa
    change 0 = m at hmantissa
    omega
  have hfew : ¬m.log2 + 1 = Format.binary64.mantissaBits := by
    change ¬m.log2 + 1 = 53
    omega
  rw [UnpackedFloat.pack, if_neg (by decide), if_neg hfew, UnpackedFloat.unpack]
  simp only [unpackMantissa_packComponents, unpackExponent_packComponents,
    unpackSign_packComponents, Sign.ofBitVec_toBitVec]
  rw [if_neg (by decide), if_pos trivial, dif_neg hnotZero]
  simp only [hmantissa]
  rfl

/-- A canonical double that is not too great is kept. -/
theorem Canonical.unpack_pack (h : Canonical m e) (hhigh : e ≤ 971) :
    unpack .binary64 (pack .binary64 (.finite .positive m e h.pos)) =
      .finite .positive m e h.pos := by
  rcases h.normal_or with ⟨hlog, hlow⟩ | ⟨hfew, rfl⟩
  · exact unpack_pack_normal h.pos hlog hlow hhigh
  · exact unpack_pack_subnormal h.pos hfew

/-- A double that is too great is infinite. -/
theorem pack_of_large (hpos : 0 < m) (hhigh : 971 < e) :
    pack .binary64 (.finite .positive m e hpos) = pack .binary64 (.infinity .positive) := by
  have hbiased : 2 ^ Format.binary64.exponentBits ≤ (e + (Format.binary64.exponentBias : Nat) +
      (Format.binary64.mantissaBitsWithoutImplicit : Nat)).toNat + 1 := by
    change 2 ^ 11 ≤ (e + (1023 : Nat) + (52 : Nat)).toNat + 1
    omega
  rw [UnpackedFloat.pack]
  exact if_pos hbiased

/-- Bits that are all zero get lost without a trace. -/
theorem shiftRight_mul_pow (m d : Nat) :
    (⟨m * 2 ^ d, false, false⟩ : ExtendedMantissa) >>> d = ⟨m, false, false⟩ := by
  change d.repeat ExtendedMantissa.shiftRightOne ⟨m * 2 ^ d, false, false⟩ = ⟨m, false, false⟩
  induction d generalizing m with
  | zero => rw [Nat.pow_zero, Nat.mul_one]; rfl
  | succ d ih =>
      rw [Nat.pow_succ, Nat.mul_comm (2 ^ d), ← Nat.mul_assoc, Nat.repeat, ih,
        ExtendedMantissa.shiftRightOne, Nat.mul_div_cancel m (by decide), Nat.mul_mod_left]
      rfl

theorem Canonical.shiftToTargetExponent (h : Canonical m e) (d : Nat) :
    shiftToTargetExponent .binary64 (m * 2 ^ d) (e - d) .exact = (⟨m, false, false⟩, e) := by
  have hshift : (e - (e - (d : Int))).toNat = d := by omega
  rw [UnpackedFloat.shiftToTargetExponent, totalExponent_mul_pow h.pos, h.target, shiftToExponent,
    ExtendedMantissa.ofMantissaAndAccuracy]
  simp only [hshift, shiftRight_mul_pow, Int.sub_add_cancel]

/-- Rounding leads to the canonical form of a number that has one. -/
theorem Canonical.roundWithAccuracy (h : Canonical m e) (d : Nat) :
    roundWithAccuracy .binary64 .positive (m * 2 ^ d) (e - d) .exact =
      .finite .positive m e h.pos := by
  have hfirst := h.shiftToTargetExponent d
  have hsecond := h.shiftToTargetExponent 0
  rw [Nat.pow_zero, Nat.mul_one, Int.natCast_zero, Int.sub_zero] at hsecond
  rw [UnpackedFloat.roundWithAccuracy, hfirst]
  simp only [ExtendedMantissa.roundedMantissa, ExtendedMantissa.accuracy,
    Accuracy.roundToNearestEven, hsecond]
  exact dif_neg (Nat.ne_of_gt h.pos)

theorem round_zero (k : Int) : UnpackedFloat.round .binary64 .positive 0 k = .zero .positive := by
  have hshift (shift : Nat) :
      (⟨0, false, false⟩ : ExtendedMantissa) >>> shift = ⟨0, false, false⟩ := by
    have h := shiftRight_mul_pow 0 shift
    rwa [Nat.zero_mul] at h
  simp only [UnpackedFloat.round, decreaseExponent, Nat.zero_shiftLeft,
    UnpackedFloat.roundWithAccuracy, UnpackedFloat.shiftToTargetExponent, shiftToExponent,
    ExtendedMantissa.ofMantissaAndAccuracy, hshift, ExtendedMantissa.roundedMantissa,
    ExtendedMantissa.accuracy, Accuracy.roundToNearestEven]
  rfl

/-- The number has at most 53 bits, and none of them is below the least exponent. -/
structure Fits (n : Nat) (k : Int) : Prop where
  lt : n < 2 ^ 53
  low : -1074 ≤ k

theorem Fits.log2_lt (h : Fits n k) : n.log2 < 53 := by
  by_cases hn : n = 0
  · subst hn
    decide
  · exact (Nat.log2_lt hn).2 h.lt

/-- How many bits the mantissa can take from the exponent. -/
def room (n : Nat) (k : Int) : Nat :=
  (k - Format.binary64.targetExponent (totalExponent n k)).toNat

theorem Fits.room_eq (h : Fits n k) : (room n k : Int) = min (52 - (n.log2 : Int)) (k + 1074) := by
  have hlog := h.log2_lt
  have hlow := h.low
  rw [room, targetExponent_eq, totalExponent]
  omega

theorem Fits.canonical (h : Fits n k) (hn : 0 < n) :
    Canonical (n * 2 ^ room n k) (k - room n k) := by
  have hlog := h.log2_lt
  have hroom := h.room_eq
  refine ⟨Nat.mul_pos hn (Nat.two_pow_pos _), ?_⟩
  rw [totalExponent_mul_pow hn, targetExponent_eq, totalExponent]
  omega

theorem Fits.round_eq (h : Fits n k) (hn : 0 < n) : UnpackedFloat.round .binary64 .positive n k =
    .finite .positive (n * 2 ^ room n k) (k - room n k) (h.canonical hn).pos := by
  have hround := (h.canonical hn).roundWithAccuracy 0
  rw [Nat.pow_zero, Nat.mul_one, Int.natCast_zero, Int.sub_zero] at hround
  rw [← hround, UnpackedFloat.round]
  simp only [decreaseExponent, Nat.shiftLeft_eq]
  rfl

/-- Bits that the mantissa has no room for do no harm if they are zero. -/
theorem Fits.roundWithAccuracy_eq (h : Fits n k) (hn : 0 < n) {bits : Nat}
    (hbits : room n k ≤ bits) :
    roundWithAccuracy .binary64 .positive (n * 2 ^ bits) (k - bits) .exact =
      UnpackedFloat.round .binary64 .positive n k := by
  have hround := (h.canonical hn).roundWithAccuracy (bits - room n k)
  have hexponent : k - (room n k : Int) - ((bits - room n k : Nat) : Int) = k - bits := by
    omega
  rw [Nat.mul_assoc, ← Nat.pow_add, Nat.add_sub_cancel' hbits, hexponent] at hround
  rw [hround, h.round_eq hn]

/-- The double nearest to a number times a power of two. -/
def scaled (n : Nat) (k : Int) : Float :=
  .ofModel (.pack (.round .binary64 .positive n k))

def parts (x : Float) : UnpackedFloat := x.toModel.unpack

theorem inf_eq : Float.inf = .ofModel (.pack (.infinity .positive)) := by
  decide

theorem parts_inf : parts Float.inf = .infinity .positive := by
  rw [inf_eq]
  rfl

theorem scaled_zero (k : Int) : scaled 0 k = .ofModel (.pack (.zero .positive)) := by
  rw [scaled, round_zero]

theorem parts_zero (k : Int) : parts (scaled 0 k) = .zero .positive := by
  rw [scaled_zero]
  rfl

theorem Fits.parts_scaled (h : Fits n k) (hn : 0 < n) (hsmall : n.log2 + k < 1024) :
    parts (scaled n k) =
      .finite .positive (n * 2 ^ room n k) (k - room n k) (h.canonical hn).pos := by
  have hlog := h.log2_lt
  have hroom := h.room_eq
  rw [scaled, h.round_eq hn]
  exact (h.canonical hn).unpack_pack (by omega)

theorem log2_one : ((1 : Nat).log2 : Int) = 0 := by
  decide

/-- The mantissa of a power of two is one. -/
theorem Fits.parts_power (h : Fits 1 p) (hp : p < 1024) : parts (scaled 1 p) =
    .finite .positive (1 * 2 ^ room 1 p) (p - room 1 p) (h.canonical (by decide)).pos :=
  h.parts_scaled (by decide) (by rw [log2_one]; omega)

theorem Fits.scaled_of_large (h : Fits n k) (hn : 0 < n) (hlarge : 1024 ≤ n.log2 + k) :
    scaled n k = Float.inf := by
  have hlog := h.log2_lt
  have hroom := h.room_eq
  rw [scaled, h.round_eq hn, Float.Model.pack, inf_eq, Float.Model.pack]
  simp only [pack_of_large (h.canonical hn).pos (e := k - room n k) (by omega)]

theorem toFloat_eq (n : UInt64) : n.toFloat = scaled n.toNat 0 := by
  change Float.ofModel (.pack (UnpackedFloat.normalize .binary64 n.toNat 0 .positive)) = _
  rw [scaled, UnpackedFloat.normalize]
  rcases Nat.eq_zero_or_pos n.toNat with hzero | hpos
  · rw [hzero, round_zero]
    rfl
  · rw [Int.compare_eq_gt.2 (Int.natCast_pos.2 hpos), Int.toNat_natCast]

theorem mul_eq (x y : Float) :
    x * y = .ofModel (.pack (.mul .binary64 (parts x) (parts y))) := rfl

theorem div_eq (x y : Float) :
    x / y = .ofModel (.pack (.div .binary64 (parts x) (parts y))) := rfl

theorem zero_mul_of_small (hpower : Fits 1 p) (hp : p < 1024) :
    scaled 0 j * scaled 1 p = scaled 0 k := by
  rw [mul_eq, parts_zero, hpower.parts_power hp, scaled_zero]
  rfl

/-- A product with a power of two is exact. -/
theorem scaled_mul_of_small (h : Fits n j) (hpower : Fits 1 p) (hproduct : Fits n (j + p))
    (hsmall : n.log2 + j < 1024) (hp : p < 1024) :
    scaled n j * scaled 1 p = scaled n (j + p) := by
  rcases Nat.eq_zero_or_pos n with rfl | hn
  · exact zero_mul_of_small hpower hp
  have hroom : room n (j + p) ≤ room n j + room 1 p := by
    have hlog := h.log2_lt
    have hfirst := h.room_eq
    have hsecond := hpower.room_eq
    have hboth := hproduct.room_eq
    rw [log2_one] at hsecond
    omega
  have hround := hproduct.roundWithAccuracy_eq hn hroom
  have hexponent : j - (room n j : Int) + (p - (room 1 p : Int)) =
      j + p - ((room n j + room 1 p : Nat) : Int) := by
    omega
  rw [Nat.pow_add, ← Nat.mul_assoc] at hround
  rw [mul_eq, h.parts_scaled hn hsmall, hpower.parts_power hp, scaled, UnpackedFloat.mul,
    hexponent, Nat.one_mul]
  exact congrArg (fun rounded => Float.ofModel (.pack rounded)) hround

theorem scaled_mul_inf (hn : 0 < n) (h : Fits n j) (hsmall : n.log2 + j < 1024) :
    scaled n j * Float.inf = Float.inf := by
  rw [mul_eq, h.parts_scaled hn hsmall, parts_inf, inf_eq]
  rfl

theorem inf_mul (hpower : Fits 1 p) (hp : p < 1024) : Float.inf * scaled 1 p = Float.inf := by
  rw [mul_eq, hpower.parts_power hp, parts_inf, inf_eq]
  rfl

theorem inf_mul_inf : Float.inf * Float.inf = Float.inf := by
  rw [mul_eq, parts_inf, inf_eq]
  rfl

theorem scaled_mul_zero (h : Fits n j) (hsmall : n.log2 + j < 1024) :
    scaled n j * scaled 0 k = scaled 0 k := by
  rw [mul_eq, parts_zero, scaled_zero]
  rcases Nat.eq_zero_or_pos n with rfl | hn
  · rw [parts_zero]
    rfl
  · rw [h.parts_scaled hn hsmall]
    rfl

theorem isNaN_zero_mul_inf (k : Int) : (scaled 0 k * Float.inf).isNaN = true := by
  rw [mul_eq, parts_zero, parts_inf]
  rfl

/-- Products of natural powers of two are powers of two, infinite ones included. -/
theorem scaled_mul_power (hn : 0 < n) (hlt : n < 2 ^ 53) (a b : Nat) :
    scaled n a * scaled 1 b = scaled n ((a + b : Nat) : Int) := by
  have hfirst : Fits n a := ⟨hlt, by omega⟩
  have hsecond : Fits 1 b := ⟨by decide, by omega⟩
  have hproduct : Fits n ((a + b : Nat) : Int) := ⟨hlt, by omega⟩
  by_cases ha : (n.log2 : Int) + a < 1024 <;> by_cases hb : (b : Int) < 1024
  · rw [Int.natCast_add]
    exact scaled_mul_of_small hfirst hsecond (by rwa [Int.natCast_add] at hproduct) ha hb
  · rw [hsecond.scaled_of_large (by decide) (by rw [log2_one]; omega),
      hproduct.scaled_of_large hn (by omega), scaled_mul_inf hn hfirst ha]
  · rw [hfirst.scaled_of_large hn (by omega), hproduct.scaled_of_large hn (by omega),
      inf_mul hsecond hb]
  · rw [hfirst.scaled_of_large hn (by omega), hproduct.scaled_of_large hn (by omega),
      hsecond.scaled_of_large (by decide) (by rw [log2_one]; omega), inf_mul_inf]

/-- The quotient of one and a power of two, with all bits that a mantissa may want. -/
theorem divCore_power (d : Nat) (hd : d < 1024) :
    divCore .binary64 (1 * 2 ^ 52) (0 - (52 : Nat)) (1 * 2 ^ 52) (d - (52 : Nat)) =
      (2 ^ min 53 (1074 - d), -(d : Int) - (min 53 (1074 - d) : Nat), .exact) := by
  have hlog : ((1 * 2 ^ 52).log2 : Int) = 52 := by decide
  have htarget : min (0 - ((52 : Nat) : Int) - (d - (52 : Nat)))
      (Format.binary64.targetExponent (totalExponent (1 * 2 ^ 52) (0 - (52 : Nat)) -
        totalExponent (1 * 2 ^ 52) (d - (52 : Nat)))) =
          -(d : Int) - (min 53 (1074 - d) : Nat) := by
    rw [targetExponent_eq, totalExponent, totalExponent, hlog]
    omega
  have hshift : (0 - ((52 : Nat) : Int) - (d - (52 : Nat)) -
      (-(d : Int) - (min 53 (1074 - d) : Nat))).toNat = min 53 (1074 - d) := by
    omega
  rw [divCore, htarget, hshift, Nat.shiftLeft_eq, Nat.one_mul,
    Nat.mul_div_cancel_left _ (Nat.two_pow_pos 52), Nat.mul_mod_right, accuracyOfFraction,
    if_pos rfl]

/-- The inverse of a power of two is exact as long as the power is finite. -/
theorem one_div_power {d : Nat} (hd : d < 1024) : scaled 1 0 / scaled 1 d = scaled 1 (-d) := by
  have hone : Fits 1 0 := ⟨by decide, by decide⟩
  have hpower : Fits 1 d := ⟨by decide, by omega⟩
  have hinverse : Fits 1 (-d) := ⟨by decide, by omega⟩
  have hroom := hinverse.room_eq
  have hroomOne := hone.room_eq
  have hroomPower := hpower.room_eq
  rw [log2_one] at hroom hroomOne hroomPower
  have henough : room 1 (-d) ≤ min 53 (1074 - d) := by omega
  have hround := hinverse.roundWithAccuracy_eq (by decide) henough
  rw [Nat.one_mul] at hround
  have hdiv := divCore_power d hd
  rw [← show room 1 0 = 52 by omega] at hdiv
  rw [div_eq, hone.parts_power (by decide), hpower.parts_power (by omega), UnpackedFloat.div,
    show room 1 (d : Int) = room 1 0 by omega, hdiv, scaled]
  exact congrArg (fun rounded => Float.ofModel (.pack rounded)) hround

theorem one_div_inf (k : Int) : scaled 1 0 / Float.inf = scaled 0 k := by
  have hone : Fits 1 0 := ⟨by decide, by decide⟩
  rw [div_eq, hone.parts_power (by decide), parts_inf, scaled_zero]
  rfl

/-- A number times a power of two, counted in the least doubles. -/
def units (n : Nat) (k : Int) : Nat := n * 2 ^ (k + 1074).toNat

theorem lt_iff_parts (x y : Float) : x < y ↔ UnpackedFloat.lt (parts x) (parts y) = true :=
  decide_eq_true_iff

theorem Canonical.units_lt (hm : Canonical m j) (hn : Canonical n k) (hlt : j < k) :
    units m j < units n k := by
  have hm53 : m < 2 ^ 53 := hm.lt
  have hlow := hm.exponent
  -- The exponent `k` is not the least one, so the mantissa of the second has all its bits.
  have hn52 : 2 ^ 52 ≤ n := by
    rcases hn.normal_or with ⟨hlog, -⟩ | ⟨-, hleast⟩
    · exact hlog ▸ Nat.log2_self_le (Nat.ne_of_gt hn.pos)
    · omega
  calc m * 2 ^ (j + 1074).toNat < 2 ^ 53 * 2 ^ (j + 1074).toNat :=
        Nat.mul_lt_mul_of_pos_right hm53 (Nat.two_pow_pos _)
    _ = 2 ^ 52 * (2 * 2 ^ (j + 1074).toNat) := Nat.mul_assoc (2 ^ 52) 2 _
    _ = 2 ^ 52 * 2 ^ ((j + 1074).toNat + 1) := by rw [← Nat.pow_succ']
    _ ≤ n * 2 ^ (k + 1074).toNat :=
        Nat.mul_le_mul hn52 (Nat.pow_le_pow_right (by decide) (by omega))

theorem Canonical.lt_iff (hm : Canonical m j) (hn : Canonical n k) :
    UnpackedFloat.lt (.finite .positive m j hm.pos) (.finite .positive n k hn.pos) = true ↔
      units m j < units n k := by
  have hlt : UnpackedFloat.lt (.finite .positive m j hm.pos) (.finite .positive n k hn.pos) = true ↔
      (compare j k).then (compare m n) = .lt := by
    simp only [UnpackedFloat.lt, UnpackedFloat.compare, beq_iff_eq, Option.some.injEq]
  rw [hlt]
  rcases Int.lt_trichotomy j k with hless | rfl | hmore
  · rw [Int.compare_eq_lt.2 hless]
    exact iff_of_true rfl (hm.units_lt hn hless)
  · rw [Int.compare_eq_eq.2 rfl, units, units, Nat.mul_lt_mul_right (Nat.two_pow_pos _)]
    exact Nat.compare_eq_lt
  · rw [Int.compare_eq_gt.2 hmore]
    exact iff_of_false (by rintro ⟨⟩) (Nat.lt_asymm (hn.units_lt hm hmore))

theorem units_room (h : Fits n k) : units (n * 2 ^ room n k) (k - room n k) = units n k := by
  have hlow := h.low
  have hroom := h.room_eq
  rw [units, units, Nat.mul_assoc, ← Nat.pow_add]
  congr 2
  omega

theorem scaled_lt_iff (hm : Fits m j) (hn : Fits n k) (hfirst : m.log2 + j < 1024)
    (hsecond : n.log2 + k < 1024) : scaled m j < scaled n k ↔ units m j < units n k := by
  rw [lt_iff_parts]
  rcases Nat.eq_zero_or_pos m with rfl | hmpos <;> rcases Nat.eq_zero_or_pos n with rfl | hnpos
  · rw [parts_zero, parts_zero, units, units, Nat.zero_mul, Nat.zero_mul]
    decide
  · rw [parts_zero, hn.parts_scaled hnpos hsecond, units, Nat.zero_mul]
    exact iff_of_true rfl (Nat.mul_pos hnpos (Nat.two_pow_pos _))
  · rw [parts_zero, hm.parts_scaled hmpos hfirst]
    exact iff_of_false (by rintro ⟨⟩) (by rw [units, units, Nat.zero_mul]; exact Nat.not_lt_zero _)
  · rw [hm.parts_scaled hmpos hfirst, hn.parts_scaled hnpos hsecond,
      (hm.canonical hmpos).lt_iff (hn.canonical hnpos), units_room hm, units_room hn]

/-- Factors of two that stand above and below the line can be exchanged. -/
theorem mul_pow_div_pow (n : Nat) {a b c d : Nat} (h : a + d = c + b) :
    n * 2 ^ a / 2 ^ b = n * 2 ^ c / 2 ^ d := by
  rw [← Nat.mul_div_mul_right _ _ (Nat.two_pow_pos d), Nat.mul_assoc, ← Nat.pow_add, h, Nat.pow_add,
    ← Nat.mul_assoc, Nat.mul_comm (2 ^ b), Nat.mul_div_mul_right _ _ (Nat.two_pow_pos b)]

theorem mantissa_shiftRight (extended : ExtendedMantissa) (d : Nat) :
    (extended >>> d).mantissa = extended.mantissa / 2 ^ d := by
  change (d.repeat ExtendedMantissa.shiftRightOne extended).mantissa = _
  induction d with
  | zero => exact (Nat.div_one _).symm
  | succ d ih =>
      rw [Nat.repeat, ExtendedMantissa.shiftRightOne, ih, Nat.div_div_eq_div_mul, Nat.pow_succ]

/-- A double is truncated to a whole number. -/
theorem roundToInt_eq (m : Nat) (hlow : -1074 ≤ e) :
    roundToInt .positive m e = (units m e / units 1 0 : Nat) := by
  simp only [roundToInt, decreaseExponent, shiftToExponent, ExtendedMantissa.ofMantissaAndAccuracy,
    mantissa_shiftRight, Nat.shiftLeft_eq, Sign.apply, units, Nat.one_mul]
  congr 1
  exact mul_pow_div_pow m (by omega)

theorem toNat_toUInt64_scaled (h : Fits n k) (hsmall : n.log2 + k < 1024)
    (hfits : units n k / units 1 0 < UInt64.size) :
    (scaled n k).toUInt64.toNat = units n k / units 1 0 := by
  change (UInt64.ofNatClamp ((parts (scaled n k)).toInt 0 (UInt64.size - 1)).toNat).toNat = _
  have hvalue : ((parts (scaled n k)).toInt 0 (UInt64.size - 1)).toNat = units n k / units 1 0 := by
    rcases Nat.eq_zero_or_pos n with rfl | hpos
    · rw [parts_zero, units, Nat.zero_mul, Nat.zero_div]
      rfl
    · have hroom := h.room_eq
      have hlow := h.low
      rw [h.parts_scaled hpos hsmall, UnpackedFloat.toInt, roundToInt_eq _ (by omega),
        Int.toNat_natCast, units_room h]
  rw [hvalue, UInt64.ofNatClamp, dif_pos hfits]
  rfl

theorem units_one_pos : 0 < units 1 0 := Nat.mul_pos Nat.one_pos (Nat.two_pow_pos _)

theorem units_nat_div (n p : Nat) : units n p / units 1 0 = n * 2 ^ p := by
  have h := mul_pow_div_pow n (a := ((p : Int) + 1074).toNat) (b := ((0 : Int) + 1074).toNat)
    (c := p) (d := 0) (by omega)
  rwa [Nat.pow_zero, Nat.div_one, ← Nat.one_mul (2 ^ ((0 : Int) + 1074).toNat)] at h

theorem units_neg_div (n : Nat) {d : Nat} (hd : d ≤ 1074) :
    units n (-d) / units 1 0 = n / 2 ^ d := by
  have h := mul_pow_div_pow n (a := (-(d : Int) + 1074).toNat) (b := ((0 : Int) + 1074).toNat)
    (c := 0) (d := d) (by omega)
  rwa [Nat.pow_zero, Nat.mul_one, ← Nat.one_mul (2 ^ ((0 : Int) + 1074).toNat)] at h

/-- A whole number is read back. -/
theorem toNat_toUInt64_whole (h : Fits n 0) : (scaled n 0).toUInt64.toNat = n := by
  have hlog := h.log2_lt
  have hwhole : units n 0 / units 1 0 = n := by
    have hdiv := units_nat_div n 0
    rwa [Nat.pow_zero, Nat.mul_one] at hdiv
  have hlarge : n < UInt64.size := Nat.lt_trans h.lt (by decide)
  rw [toNat_toUInt64_scaled h (by omega) (by rwa [hwhole]), hwhole]

end LeasePool.Double
