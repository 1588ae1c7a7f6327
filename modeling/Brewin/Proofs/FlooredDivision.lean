import Mathlib.Data.Int.ModEq
import Mathlib.Data.Rat.Floor
import Brewin.Operation

namespace Brewin

/-- A remainder is zero, or has the sign of the divisor and is smaller. -/
def Remains (m b : Int) : Prop :=
  (0 ≤ m ∧ m < b) ∨ (b < m ∧ m ≤ 0)

theorem Remains.sign_abs {m b : Int} (h : Remains m b) :
    (m = 0 ∨ m.sign = b.sign) ∧ |m| < |b| := by
  rcases h with ⟨hlow, hhigh⟩ | ⟨hlow, hhigh⟩
  · have hb : 0 < b := by omega
    rw [abs_of_nonneg hlow, abs_of_pos hb, Int.sign_eq_one_of_pos hb]
    refine ⟨?_, hhigh⟩
    rcases hlow.eq_or_lt with hzero | hpos
    · exact Or.inl hzero.symm
    · exact Or.inr (Int.sign_eq_one_of_pos hpos)
  · have hb : b < 0 := by omega
    rw [abs_of_nonpos hhigh, abs_of_neg hb, Int.sign_eq_neg_one_of_neg hb]
    refine ⟨?_, by omega⟩
    rcases hhigh.eq_or_lt with hzero | hneg
    · exact Or.inl hzero
    · exact Or.inr (Int.sign_eq_neg_one_of_neg hneg)

theorem floor_div_of_remains {a b q m : Int} (ha : a = b * q + m) (hm : Remains m b) :
    ⌊(a : ℚ) / b⌋ = q := by
  have haq : (a : ℚ) = b * q + m := by exact_mod_cast ha
  rw [Int.floor_eq_iff]
  rcases hm with ⟨hlow, hhigh⟩ | ⟨hlow, hhigh⟩
  · have hb : (0 : ℚ) < b := by exact_mod_cast (by omega : 0 < b)
    have hlow : (0 : ℚ) ≤ m := by exact_mod_cast hlow
    have hhigh : (m : ℚ) < b := by exact_mod_cast hhigh
    rw [le_div_iff₀ hb, div_lt_iff₀ hb]
    constructor
    · linarith
    · linarith
  · have hb : (b : ℚ) < 0 := by exact_mod_cast (by omega : b < 0)
    have hlow : (b : ℚ) < m := by exact_mod_cast hlow
    have hhigh : (m : ℚ) ≤ 0 := by exact_mod_cast hhigh
    rw [le_div_iff_of_neg hb, div_lt_iff_of_neg hb]
    constructor
    · linarith
    · linarith

/-- The remainder of the quotient cut toward zero never has the sign opposite to the dividend's. -/
theorem tmod_sign (a b : Int) : (0 ≤ a → 0 ≤ a.tmod b) ∧ (a ≤ 0 → a.tmod b ≤ 0) := by
  refine ⟨fun ha => Int.tmod_nonneg b ha, fun ha => ?_⟩
  have hneg := Int.tmod_nonneg b (Int.neg_nonneg_of_nonpos ha)
  rw [Int.neg_tmod] at hneg
  omega

theorem natAbs_tmod_lt (a : Int) {b : Int} (hb : b ≠ 0) : (a.tmod b).natAbs < b.natAbs := by
  rw [Int.natAbs_tmod]
  exact Nat.mod_lt _ (by omega)

/-- A quotient that is not exact is at most half as large as the dividend. -/
theorem two_mul_natAbs_tdiv_le {a b : Int} (hmod : a.tmod b ≠ 0) :
    2 * (a.tdiv b).natAbs ≤ a.natAbs := by
  have hone : b.natAbs ≠ 1 := by
    intro h
    have hzero := Int.natAbs_tmod a b
    rw [h, Nat.mod_one] at hzero
    omega
  rw [Int.natAbs_tdiv]
  show 2 * (a.natAbs / b.natAbs) ≤ a.natAbs
  rcases Nat.eq_zero_or_pos b.natAbs with h | h
  · rw [h, Nat.div_zero]
    omega
  · have hle : a.natAbs / b.natAbs ≤ a.natAbs / 2 := Nat.div_le_div_left (by omega) (by omega)
    omega

theorem fits_toInt (a : Int64) : FitsInt64 a.toInt := by
  have hlow := a.le_toInt
  have hhigh := a.toInt_lt
  constructor <;> omega

theorem bmod_of_fits {n : Int} (h : FitsInt64 n) : n.bmod (2 ^ 64) = n := by
  obtain ⟨hlow, hhigh⟩ := h
  apply Int.bmod_eq_of_le <;> omega

/-- The quotient cut toward zero is above the floor: it is not exact, and the signs differ. -/
def Overshoots (a b : Int64) : Prop :=
  a.toInt.tmod b.toInt ≠ 0 ∧ ¬ (a.toInt < 0 ↔ b.toInt < 0)

section

variable {a b : Int64}

theorem toInt_ne_zero (hb : b ≠ 0) : b.toInt ≠ 0 := by
  intro h
  exact hb (Int64.toInt_inj.mp h)

theorem mod_eq_zero_iff_tmod : a % b = 0 ↔ a.toInt.tmod b.toInt = 0 := by
  rw [← Int64.toInt_inj, Int64.toInt_mod]
  rfl

theorem neg_iff_toInt : a < 0 ↔ a.toInt < 0 :=
  Int64.lt_iff_toInt_lt

theorem overshoots_iff_dividend :
    a % b ≠ 0 ∧ (decide (a < 0) != decide (b < 0)) = true ↔ Overshoots a b := by
  simp [Overshoots, mod_eq_zero_iff_tmod, neg_iff_toInt]

/-- A remainder other than zero has the sign of the dividend, so the quotient and the remainder
are corrected in the same cases. -/
theorem overshoots_iff_remainder :
    a % b ≠ 0 ∧ (decide (a % b < 0) != decide (b < 0)) = true ↔ Overshoots a b := by
  rw [← overshoots_iff_dividend]
  apply and_congr_right
  intro hne
  have hmod : a.toInt.tmod b.toInt ≠ 0 := fun h => hne (mod_eq_zero_iff_tmod.mpr h)
  obtain ⟨hpos, hneg⟩ := tmod_sign a.toInt b.toInt
  have hsign : a % b < 0 ↔ a < 0 := by
    rw [neg_iff_toInt, neg_iff_toInt, Int64.toInt_mod]
    omega
  simp [hsign]

theorem Overshoots.remains (h : Overshoots a b) (hb : b ≠ 0) :
    Remains (a.toInt.tmod b.toInt + b.toInt) b.toInt := by
  obtain ⟨hmod, hsigns⟩ := h
  have hlt := natAbs_tmod_lt a.toInt (toInt_ne_zero hb)
  obtain ⟨hpos, hneg⟩ := tmod_sign a.toInt b.toInt
  unfold Remains
  omega

theorem remains_of_not_overshoots (h : ¬ Overshoots a b) (hb : b ≠ 0) :
    Remains (a.toInt.tmod b.toInt) b.toInt := by
  have hne := toInt_ne_zero hb
  have hlt := natAbs_tmod_lt a.toInt hne
  obtain ⟨hpos, hneg⟩ := tmod_sign a.toInt b.toInt
  unfold Overshoots at h
  unfold Remains
  omega

theorem Overshoots.floor_eq (h : Overshoots a b) (hb : b ≠ 0) :
    ⌊(a.toInt : ℚ) / b.toInt⌋ = a.toInt.tdiv b.toInt - 1 := by
  apply floor_div_of_remains _ (h.remains hb)
  have hdiv := Int.mul_tdiv_add_tmod a.toInt b.toInt
  rw [Int.mul_sub]
  omega

theorem floor_eq_of_not_overshoots (h : ¬ Overshoots a b) (hb : b ≠ 0) :
    ⌊(a.toInt : ℚ) / b.toInt⌋ = a.toInt.tdiv b.toInt :=
  floor_div_of_remains (Int.mul_tdiv_add_tmod a.toInt b.toInt).symm
    (remains_of_not_overshoots h hb)

/-- The quotient that wraps around is exact. -/
theorem Overshoots.toInt_div (h : Overshoots a b) : (a / b).toInt = a.toInt.tdiv b.toInt := by
  apply Int64.toInt_div_of_ne_right
  rintro rfl
  exact h.1 (Int.tmod_neg a.toInt 1 ▸ Int.tmod_one a.toInt)

theorem Overshoots.fits_sub_one (h : Overshoots a b) : FitsInt64 ((a / b).toInt - 1) := by
  have hhalf := two_mul_natAbs_tdiv_le h.1
  obtain ⟨hlow, hhigh⟩ := fits_toInt a
  rw [h.toInt_div]
  constructor <;> omega

theorem Overshoots.fits_add (h : Overshoots a b) (hb : b ≠ 0) :
    FitsInt64 ((a % b).toInt + b.toInt) := by
  obtain ⟨hlow, hhigh⟩ := fits_toInt b
  rw [Int64.toInt_mod]
  rcases h.remains hb with hm | hm
  · constructor <;> omega
  · constructor <;> omega

theorem toInt_floorMod (hb : b ≠ 0) :
    (floorMod a b).toInt = a.toInt - b.toInt * ⌊(a.toInt : ℚ) / b.toInt⌋ ∧
      Remains (floorMod a b).toInt b.toInt := by
  have hdiv := Int.mul_tdiv_add_tmod a.toInt b.toInt
  by_cases h : Overshoots a b
  · have hvalue : (floorMod a b).toInt = a.toInt.tmod b.toInt + b.toInt := by
      rw [floorMod, if_pos (overshoots_iff_remainder.mpr h), Int64.toInt_add,
        bmod_of_fits (h.fits_add hb), Int64.toInt_mod]
    rw [hvalue, h.floor_eq hb, Int.mul_sub]
    exact ⟨by omega, h.remains hb⟩
  · have hvalue : (floorMod a b).toInt = a.toInt.tmod b.toInt := by
      rw [floorMod, if_neg fun hc => h (overshoots_iff_remainder.mp hc), Int64.toInt_mod]
    rw [hvalue, floor_eq_of_not_overshoots h hb]
    exact ⟨by omega, remains_of_not_overshoots h hb⟩

theorem toInt_floorDiv (hb : b ≠ 0) (hwrap : ¬ (a = Int64.minValue ∧ b = -1)) :
    (floorDiv a b).toInt = ⌊(a.toInt : ℚ) / b.toInt⌋ := by
  by_cases h : Overshoots a b
  · have hvalue : (a / b - 1).toInt = (a / b).toInt - 1 := by
      rw [Int64.toInt_sub]
      exact bmod_of_fits h.fits_sub_one
    rw [floorDiv, if_pos (overshoots_iff_dividend.mpr h), hvalue, h.toInt_div, h.floor_eq hb]
  · rw [floorDiv, if_neg fun hc => h (overshoots_iff_dividend.mp hc),
      floor_eq_of_not_overshoots h hb]
    by_cases ha : a = Int64.minValue
    · exact Int64.toInt_div_of_ne_right a b fun hone => hwrap ⟨ha, hone⟩
    · exact Int64.toInt_div_of_ne_left a b ha

end

theorem floorDiv_minValue : floorDiv Int64.minValue (-1) = Int64.minValue := by
  decide

theorem intOperation_divide (a b : Int64) : intOperation "/" a b =
    if b = 0 then .error .divisionByZero else .ok (.int (floorDiv a b)) :=
  rfl

theorem intOperation_modulo (a b : Int64) : intOperation "%" a b =
    if b = 0 then .error .moduloByZero else .ok (.int (floorMod a b)) :=
  rfl

/-- Division rounds down on all 64-bit integers, except for the one quotient that wraps around,
and the remainder belongs to the exact quotient. Neither correction leaves the range, and only a
zero divisor makes an operation fail. -/
theorem floored_exact (a b : Int64) :
    (b ≠ 0 →
      (floorDiv a b).toInt =
        (if a = Int64.minValue ∧ b = -1 then -2 ^ 63 else ⌊(a.toInt : ℚ) / b.toInt⌋) ∧
      (floorMod a b).toInt = a.toInt - b.toInt * ⌊(a.toInt : ℚ) / b.toInt⌋ ∧
      ((floorMod a b).toInt = 0 ∨ (floorMod a b).toInt.sign = b.toInt.sign) ∧
      |(floorMod a b).toInt| < |b.toInt| ∧
      a.toInt ≡ b.toInt * (floorDiv a b).toInt + (floorMod a b).toInt [ZMOD 2 ^ 64] ∧
      (a % b ≠ 0 ∧ (decide (a < 0) != decide (b < 0)) → FitsInt64 ((a / b).toInt - 1)) ∧
      (a % b ≠ 0 ∧ (decide (a % b < 0) != decide (b < 0)) →
        FitsInt64 ((a % b).toInt + b.toInt)) ∧
      intOperation "/" a b = .ok (.int (floorDiv a b)) ∧
      intOperation "%" a b = .ok (.int (floorMod a b))) ∧
    ∀ symbol ∈ ["/", "%"],
      (∃ problem, intOperation symbol a b = .error problem ∧
        problem.cause? = some .zeroDivisor) ↔ b = 0 := by
  refine ⟨fun hb => ?_, ?_⟩
  · obtain ⟨hmod, hremains⟩ := toInt_floorMod (a := a) hb
    refine ⟨?_, hmod, hremains.sign_abs.1, hremains.sign_abs.2, ?_,
      fun hc => (overshoots_iff_dividend.mp hc).fits_sub_one,
      fun hc => (overshoots_iff_remainder.mp hc).fits_add hb, ?_, ?_⟩
    · split
      next hwrap =>
        obtain ⟨rfl, rfl⟩ := hwrap
        rw [floorDiv_minValue, Int64.toInt_minValue]
      next hwrap => exact toInt_floorDiv hb hwrap
    · by_cases hwrap : a = Int64.minValue ∧ b = -1
      · obtain ⟨rfl, rfl⟩ := hwrap
        decide
      · rw [toInt_floorDiv hb hwrap, hmod, add_sub_cancel]
    · rw [intOperation_divide, if_neg hb]
    · rw [intOperation_modulo, if_neg hb]
  · intro symbol hsymbol
    have hcases : symbol = "/" ∨ symbol = "%" := by simpa using hsymbol
    by_cases hb : b = 0
    · refine iff_of_true ?_ hb
      rcases hcases with rfl | rfl
      · exact ⟨.divisionByZero, by rw [intOperation_divide, if_pos hb], rfl⟩
      · exact ⟨.moduloByZero, by rw [intOperation_modulo, if_pos hb], rfl⟩
    · refine iff_of_false ?_ hb
      rintro ⟨problem, hp, -⟩
      rcases hcases with rfl | rfl
      · rw [intOperation_divide, if_neg hb] at hp
        cases hp
      · rw [intOperation_modulo, if_neg hb] at hp
        cases hp

/-- Next to the least dividend the quotient is rounded down, and nothing wraps around. -/
theorem floored_exact_half : (2 : Int64) ≠ 0 ∧
    ⌊((-9223372036854775807 : Int64).toInt : ℚ) / (2 : Int64).toInt⌋ = -4611686018427387904 ∧
    intOperation "/" (-9223372036854775807) 2 = .ok (.int (-4611686018427387904)) ∧
    intOperation "%" (-9223372036854775807) 2 = .ok (.int 1) := by
  have hb : (2 : Int64) ≠ 0 := by decide
  obtain ⟨hdiv, -, -, -, -, -, -, hdivide, hmodulo⟩ :=
    (floored_exact (-9223372036854775807) 2).1 hb
  rw [if_neg (by decide)] at hdiv
  exact ⟨hb, hdiv.symm.trans (by decide), hdivide.trans (by decide), hmodulo.trans (by decide)⟩

end Brewin
