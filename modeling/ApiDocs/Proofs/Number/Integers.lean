import ApiDocs.Number.Binary64
import Mathlib.Algebra.Order.Field.Power
import Mathlib.Algebra.Order.Field.Rat
import Mathlib.Tactic.Linarith
import Mathlib.Tactic.NormNum
import Mathlib.Tactic.Ring

/-!
# Integers among binary floating point numbers

Integers of at most fifty-three bits are binary64 numbers, and so are their successors. So counting on from one
of them is exact: the rounding step of a sum has nothing to round.

## Main definitions

* `Binary64.Denotes`: the number is an integer.

## Main results

* `Binary64.Denotes.add_one`: one more than an integer below `2 ^ 53` is the next integer.
-/

namespace ApiDocs.Binary64

open Number (twoTo)

theorem twoTo_eq (n : Nat) : twoTo n = 2 ^ n := rfl

/-- The number is an integer. -/
def Denotes (x : Binary64) (k : ℤ) : Prop :=
  ∃ neg m q, x.view = .finite neg m q ∧ (signed neg m : ℚ) * 2 ^ q = k

/-! ## Patterns and their fields -/

theorem toNat_ofFields (neg : Bool) {e f : Nat} (he : e < 2 ^ 11) (hf : f < 2 ^ 52) :
    (ofFields neg e f).bits.toNat = (if neg then 2 ^ 63 else 0) + e * 2 ^ 52 + f := by
  have hlt : (if neg then 2 ^ 63 else 0) + e * 2 ^ 52 + f < 2 ^ 64 := by
    split <;> omega
  exact UInt64.toNat_ofNat_of_lt' hlt

/-- A normal number is read back from its fields. -/
theorem view_ofFields (neg : Bool) {e f : Nat} (he : 0 < e) (he' : e < 2047) (hf : f < 2 ^ 52) :
    (ofFields neg e f).view = .finite neg (2 ^ 52 + f) (e - 1075) := by
  have hbits := toNat_ofFields neg (show e < 2 ^ 11 by omega) hf
  have hexponent : (ofFields neg e f).exponentField = e := by
    rw [exponentField, hbits, twoTo_eq, twoTo_eq]
    split <;> omega
  have hfraction : (ofFields neg e f).fractionField = f := by
    rw [fractionField, hbits, twoTo_eq]
    split <;> omega
  have hsign : (ofFields neg e f).isNegative = neg := by
    rw [isNegative, hbits, twoTo_eq]
    cases neg
    · simp only [Bool.false_eq_true, if_false, decide_eq_false_iff_not]
      omega
    · simp only [if_true, decide_eq_true_iff]
      omega
  rw [view, hexponent, hfraction, hsign, if_neg he'.ne, if_neg he.ne', twoTo_eq]

theorem view_zero (neg : Bool) : (zero neg).view = .finite neg 0 (-1074) := by
  cases neg <;> rfl

theorem zero_denotes (neg : Bool) : (zero neg).Denotes 0 :=
  ⟨neg, 0, -1074, view_zero neg, by cases neg <;> simp [signed]⟩

/-! ## Rounding what is exact -/

theorem roundHalfEven_mul (m : Nat) {c : Nat} (hc : 0 < c) : roundHalfEven (m * c) c = m := by
  rw [roundHalfEven, Nat.mul_div_cancel m hc, Nat.mul_mod_left]
  simp [hc]

/-- A significand of fifty-three bits is stored as it is. -/
theorem view_ofDyadic (neg : Bool) {m : Nat} {q : ℤ} (hm : 2 ^ 52 ≤ m) (hm' : m < 2 ^ 53) (hq : -1074 ≤ q)
    (hq' : q ≤ 971) : (ofDyadic neg m q).view = .finite neg m q := by
  have hstored : ofDyadic neg m q = ofFields neg (q + 1075).toNat (m - 2 ^ 52) := by
    rw [ofDyadic, twoTo_eq, twoTo_eq, if_neg (by omega)]
    dsimp only
    rw [if_neg (by omega), if_neg (by omega)]
  rw [hstored, view_ofFields neg (by omega) (by omega) (by omega)]
  rw [Nat.add_sub_cancel' hm, Int.toNat_of_nonneg (by omega), add_sub_cancel_right]

/-- The exponent of a ratio that is a natural number. -/
theorem ratioLog2_mul {n : Nat} (hn : 0 < n) (t : Nat) : ratioLog2 (n * 2 ^ t) (2 ^ t) = n.log2 := by
  have hlog : (n * 2 ^ t).log2 = n.log2 + t := by
    refine (Nat.log2_eq_iff (by positivity)).mpr ⟨?_, ?_⟩
    · rw [pow_add]
      exact Nat.mul_le_mul_right _ (Nat.log2_self_le hn.ne')
    · rw [Nat.add_right_comm, pow_add]
      exact Nat.mul_lt_mul_of_pos_right Nat.lt_log2_self (by positivity)
  have hguess : ((n * 2 ^ t).log2 : ℤ) - (2 ^ t).log2 = n.log2 := by
    rw [hlog, Nat.log2_two_pow]
    omega
  have hle : 2 ^ t * 2 ^ n.log2 ≤ n * 2 ^ t := by
    rw [Nat.mul_comm n]
    exact Nat.mul_le_mul_left _ (Nat.log2_self_le hn.ne')
  rw [ratioLog2, hguess]
  simp only [scaled]
  split
  next h =>
    have hzero : (-(n.log2 : ℤ)).toNat = 0 := by omega
    rw [hzero]
    simp only [twoTo_eq, pow_zero, Nat.mul_one]
    exact if_pos (Nat.le_mul_of_pos_left _ hn)
  next h =>
    rw [neg_neg, Int.toNat_natCast]
    exact if_pos hle

/-- **A natural number of fifty-three bits is its own nearest double**, also where it is given as a fraction. -/
theorem ofRatio_denotes (neg : Bool) {n : Nat} (hn : 0 < n) (hn' : n ≤ 2 ^ 53) (t : Nat) :
    (ofRatio neg (n * 2 ^ t) (2 ^ t)).Denotes (signed neg n) := by
  have hlog : n.log2 ≤ 53 := by
    have hlt : n < 2 ^ 54 := by omega
    exact Nat.lt_succ_iff.mp ((Nat.log2_lt hn.ne').mpr hlt)
  have hself := Nat.log2_self_le hn.ne'
  have hlt := Nat.lt_log2_self (n := n)
  have hmax : max ((n.log2 : ℤ) - 52) (-1074) = n.log2 - 52 := by omega
  have hpos : 0 < 2 ^ t := by positivity
  rw [ofRatio, if_neg (by positivity), ratioLog2_mul hn, hmax]
  obtain ⟨m, hround, hm, hm', hvalue⟩ : ∃ m : Nat,
      roundHalfEven (scaled (n * 2 ^ t) (2 ^ t) (-((n.log2 : ℤ) - 52))).1
        (scaled (n * 2 ^ t) (2 ^ t) (-((n.log2 : ℤ) - 52))).2 = m ∧
      2 ^ 52 ≤ m ∧ m < 2 ^ 53 ∧ (m : ℚ) * 2 ^ ((n.log2 : ℤ) - 52) = n := by
    rcases Nat.lt_or_ge 52 n.log2 with hbig | hsmall
    · -- The power `2 ^ 53` itself has one bit too many, which is zero.
      have h53 : n.log2 = 53 := by omega
      rw [h53] at hself
      obtain rfl : n = 2 ^ 53 := by omega
      refine ⟨2 ^ 52, ?_, le_refl _, by norm_num, by rw [h53]; norm_num⟩
      rw [h53]
      have hone : -(((53 : ℕ) : ℤ) - 52) = -1 := by norm_num
      rw [hone, scaled, if_neg (by norm_num)]
      dsimp only
      have hshift : 2 ^ 53 * 2 ^ t = 2 ^ 52 * (2 ^ t * twoTo (- -1 : ℤ).toNat) := by
        norm_num [twoTo_eq]
        ring
      rw [hshift]
      exact roundHalfEven_mul _ (by norm_num [twoTo_eq])
    · obtain ⟨c, hc⟩ := Nat.exists_eq_add_of_le hsmall
      have hshift : -((n.log2 : ℤ) - 52) = c := by omega
      refine ⟨n * 2 ^ c, ?_, ?_, ?_, ?_⟩
      · rw [hshift, scaled, if_pos (by omega), Int.toNat_natCast]
        dsimp only
        rw [twoTo_eq, Nat.mul_right_comm]
        exact roundHalfEven_mul _ hpos
      · rw [hc, pow_add]
        exact Nat.mul_le_mul_right _ hself
      · rw [show 53 = n.log2 + 1 + c by omega, pow_add]
        exact Nat.mul_lt_mul_of_pos_right hlt (by positivity)
      · rw [show (n.log2 : ℤ) - 52 = -(c : ℤ) by omega, zpow_neg, zpow_natCast]
        push_cast
        exact mul_inv_cancel_right₀ (by positivity) _
  refine ⟨neg, m, n.log2 - 52, ?_, ?_⟩
  · dsimp only
    rw [hround]
    exact view_ofDyadic neg hm hm' (by omega) (by omega)
  · cases neg
    · simpa [signed] using hvalue
    · simpa [signed] using hvalue

/-! ## Sums -/

theorem view_one : one.view = .finite false (2 ^ 52) (-52) := by decide +kernel

/-- A significand is shifted to a smaller exponent. -/
theorem shift_eq (z : ℤ) {q e : ℤ} (h : e ≤ q) : (z * twoTo (q - e).toNat : ℤ) * (2 : ℚ) ^ e = z * 2 ^ q := by
  have hsplit : (2 : ℚ) ^ q = 2 ^ (q - e).toNat * 2 ^ e := by
    rw [← zpow_natCast, ← zpow_add₀ (by norm_num), Int.toNat_of_nonneg (by omega), sub_add_cancel]
  rw [hsplit, twoTo_eq]
  push_cast
  ring

/-- A sum that is an integer of at most fifty-three bits is not rounded. -/
theorem ofSigned_denotes {m k e : ℤ} (he : e ≤ 0) (hm : (m : ℚ) * 2 ^ e = k) (hk : |k| ≤ 2 ^ 53) :
    (ofSigned false m e).Denotes k := by
  have hscale : m = k * 2 ^ (-e).toNat := by
    have hpow : (2 : ℚ) ^ e * 2 ^ (-e).toNat = 1 := by
      rw [← zpow_natCast, Int.toNat_of_nonneg (by omega), ← zpow_add₀ (by norm_num), add_neg_cancel, zpow_zero]
    have hq : (m : ℚ) = k * 2 ^ (-e).toNat := by
      rw [← hm, mul_assoc, hpow, mul_one]
    exact_mod_cast hq
  rw [ofSigned]
  split
  next hzero =>
    have hk0 : k = 0 := by
      have hcast : (k : ℚ) = 0 := by rw [← hm, hzero]; simp
      exact_mod_cast hcast
    rw [hk0]
    exact zero_denotes false
  next hne =>
    have hk0 : k ≠ 0 := fun h => hne (by rw [hscale, h, zero_mul])
    have habs : m.natAbs = k.natAbs * 2 ^ (-e).toNat := by
      rw [hscale, Int.natAbs_mul, Int.natAbs_pow]
      rfl
    have hsign : signed (decide (m < 0)) k.natAbs = k := by
      have hiff : m < 0 ↔ k < 0 := by
        rw [hscale]
        exact ⟨fun h => neg_of_mul_neg_left h (by positivity), fun h => mul_neg_of_neg_of_pos h (by positivity)⟩
      rcases lt_or_ge k 0 with hneg | hnonneg
      · rw [decide_eq_true (hiff.mpr hneg), signed, if_pos rfl]
        omega
      · rw [decide_eq_false (mt hiff.mp (not_lt.mpr hnonneg)), signed, if_neg Bool.false_ne_true]
        omega
    have hle : k.natAbs ≤ 2 ^ 53 := by
      rw [abs_le] at hk
      omega
    have hdenotes := ofRatio_denotes (decide (m < 0)) (Int.natAbs_pos.mpr hk0) hle (-e).toNat
    rw [hsign, ← habs] at hdenotes
    rcases he.lt_or_eq with hlt | rfl
    · rw [scaled, if_neg (by omega), Nat.one_mul]
      exact hdenotes
    · simpa [scaled, twoTo_eq] using hdenotes

/-- **One more than an integer below `2 ^ 53` is the next integer.** -/
theorem Denotes.add_one {x : Binary64} {k : ℤ} (h : x.Denotes k) (hk : |k| < 2 ^ 53) :
    (x.add one).Denotes (k + 1) := by
  obtain ⟨neg, m, q, hview, hvalue⟩ := h
  have hsum : x.add one = ofSigned false (signed neg m * twoTo (q - min q (-52)).toNat +
      signed false (2 ^ 52) * twoTo (-52 - min q (-52)).toNat) (min q (-52)) := by
    rw [add, hview, view_one]
    simp
  rw [hsum]
  refine ofSigned_denotes (by omega) ?_ ?_
  · rw [Int.cast_add, add_mul, shift_eq _ (min_le_left _ _), shift_eq _ (min_le_right _ _), hvalue]
    norm_num [signed]
  · rw [abs_lt] at hk
    rw [abs_le]
    omega

end ApiDocs.Binary64
