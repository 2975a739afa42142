import Mathlib.Algebra.Order.Field.Power
import Mathlib.Algebra.Order.Floor.Semiring
import Mathlib.Data.Int.Log
import Mathlib.Data.Rat.Floor
import Mathlib.Tactic.FieldSimp
import Mathlib.Tactic.Linarith
import Mathlib.Tactic.NormNum
import Mathlib.Tactic.Positivity

/-!
# Doubles

The numbers of JavaScript: finite doubles, which are rational numbers with a sign, the two
infinities and `NaN`. A decimal stands for the double that is nearest to it.
-/

namespace Maeglagi.Core

/-- The nearest natural number, of two equally near ones the even. -/
def roundHalfEven (q : ℚ) : ℕ :=
  let low := ⌊q⌋₊
  if 2 * (q - low) < 1 ∨ (2 * (q - low) = 1 ∧ low % 2 = 0) then low else low + 1

/-- The exponent of the last bit of the doubles around a number. -/
def lastBit (q : ℚ) : ℤ := max (Int.log 2 q - 52) (-1074)

/-- Where the sizes of doubles end. -/
def sizeLimit : ℚ := 2 ^ (1024 : ℤ)

/-- The size of the nearest double, without a value where it is infinite. -/
def nearest (q : ℚ) : Option ℚ :=
  let rounded : ℚ := roundHalfEven (q / 2 ^ lastBit q) * 2 ^ lastBit q
  if rounded < sizeLimit then some rounded else none

theorem sizeLimit_pos : 0 < sizeLimit := zpow_pos (by norm_num) _

theorem roundHalfEven_natCast (n : ℕ) : roundHalfEven n = n := by
  simp [roundHalfEven]

/-- Rounding does not pass a natural number. -/
theorem roundHalfEven_le {q : ℚ} {n : ℕ} (hq : 0 ≤ q) (h : q ≤ n) : roundHalfEven q ≤ n := by
  unfold roundHalfEven
  dsimp only
  have hfloor : ⌊q⌋₊ ≤ n := Nat.floor_le_of_le h
  split_ifs with hlow
  · exact hfloor
  · rcases hfloor.lt_or_eq with hlt | heq
    · exact hlt
    · refine absurd (Or.inl ?_) hlow
      have hle := Nat.floor_le hq
      rw [heq] at hle ⊢
      linarith

theorem le_lastBit (q : ℚ) : -1074 ≤ lastBit q := le_max_right _ _

/-- A number has at most 53 bits before the last one of the doubles around it. -/
theorem lt_lastBit (q : ℚ) : q < 2 ^ (lastBit q + 53) := by
  have hlog := Int.lt_zpow_succ_log_self (R := ℚ) (b := 2) (by decide) q
  refine hlog.trans_le (zpow_le_zpow_right₀ (by norm_num) ?_)
  have := le_max_left (Int.log 2 q - 52) (-1074)
  unfold lastBit
  omega

/-- A multiple of the last bit of the doubles around it is a double. -/
theorem nearest_multiple {r : ℚ} {k : ℕ} {e : ℤ} (hr : r = k * 2 ^ e) (he : lastBit r ≤ e)
    (hlt : r < sizeLimit) : nearest r = some r := by
  have hnat : r / 2 ^ lastBit r = ((k * 2 ^ (e - lastBit r).toNat : ℕ) : ℚ) := by
    have hexp : (e : ℤ) = ((e - lastBit r).toNat : ℤ) + lastBit r := by omega
    have hpow : (2 : ℚ) ^ e = 2 ^ (e - lastBit r).toNat * 2 ^ lastBit r := by
      rw [← zpow_natCast, ← zpow_add₀ (by norm_num), ← hexp]
    rw [div_eq_iff (by positivity)]
    nth_rewrite 1 [hr]
    rw [hpow]
    push_cast
    ring
  unfold nearest
  dsimp only
  rw [hnat, roundHalfEven_natCast, ← hnat, div_mul_cancel₀ _ (by positivity), if_pos hlt]

theorem nearest_zero : nearest 0 = some 0 :=
  nearest_multiple (k := 0) (e := lastBit 0) (by simp) le_rfl sizeLimit_pos

theorem zero_nonneg : (0 : ℚ) ≤ 0 := le_rfl

theorem nearest_nonneg {q r : ℚ} (h : nearest q = some r) : 0 ≤ r := by
  unfold nearest at h
  dsimp only at h
  split_ifs at h
  rw [← Option.some.inj h]
  exact mul_nonneg (Nat.cast_nonneg _) (zpow_nonneg (by norm_num) _)

/-- What a number was rounded to is a double. -/
theorem nearest_nearest {q r : ℚ} (hq : 0 ≤ q) (h : nearest q = some r) :
    nearest r = some r := by
  unfold nearest at h
  dsimp only at h
  split_ifs at h with hlt
  obtain hr := (Option.some.inj h).symm
  have hlt' : r < sizeLimit := hr ▸ hlt
  have hbits : q / 2 ^ lastBit q ≤ ((2 ^ 53 : ℕ) : ℚ) := by
    rw [div_le_iff₀ (by positivity)]
    refine (lt_lastBit q).le.trans_eq ?_
    rw [zpow_add₀ (by norm_num), mul_comm]
    norm_num
  have hk : roundHalfEven (q / 2 ^ lastBit q) ≤ 2 ^ 53 :=
    roundHalfEven_le (div_nonneg hq (by positivity)) hbits
  generalize roundHalfEven (q / 2 ^ lastBit q) = k at hr hk
  have hmin := le_lastBit q
  generalize lastBit q = e at hr hmin
  rcases hk.lt_or_eq with hk | hk
  · -- the bits did not carry into a place more
    rcases Nat.eq_zero_or_pos k with rfl | h0
    · simpa [hr] using nearest_zero
    · have hpos : 0 < r := by
        have hk0 : (0 : ℚ) < k := by exact_mod_cast h0
        rw [hr]
        positivity
      have hlog : Int.log 2 r < e + 53 := by
        rw [← Int.lt_zpow_iff_log_lt (by decide) hpos, hr, zpow_add₀ (by norm_num), mul_comm]
        refine mul_lt_mul_of_pos_left ?_ (by positivity)
        exact_mod_cast hk
      refine nearest_multiple hr (max_le ?_ hmin) hlt'
      omega
  · have hpower : r = ((2 : ℕ) : ℚ) ^ (e + 53) := by
      rw [hr, hk, Nat.cast_ofNat, zpow_add₀ (by norm_num), mul_comm]
      norm_num
    refine nearest_multiple (k := 2 ^ 52) (e := e + 1) ?_ ?_ hlt'
    · rw [hpower, show e + 53 = (e + 1) + 52 by ring, zpow_add₀ (by norm_num), mul_comm]
      norm_num
    · rw [hpower]
      unfold lastBit
      rw [Int.log_zpow (by decide)]
      refine max_le ?_ ?_ <;> omega

/-- A double is a multiple of the smallest one, and so a whole number of its decimal places. -/
theorem exists_multiple_of_nearest {q r : ℚ} (h : nearest q = some r) :
    ∃ n : ℕ, r * 10 ^ (1074 : ℤ) = n := by
  unfold nearest at h
  dsimp only at h
  split_ifs at h
  have hmin := le_lastBit q
  have hr := Option.some.inj h
  generalize roundHalfEven (q / 2 ^ lastBit q) = k at hr
  generalize lastBit q = e at hr hmin
  obtain ⟨n, hn⟩ : ∃ n : ℕ, (1074 : ℤ) = n := ⟨1074, rfl⟩
  rw [hn] at hmin ⊢
  refine ⟨k * 2 ^ (e + n).toNat * 5 ^ n, ?_⟩
  have htwo : (2 : ℚ) ^ e * 2 ^ n = 2 ^ (e + n).toNat := by
    rw [← zpow_natCast, ← zpow_add₀ (by norm_num), ← zpow_natCast,
      Int.toNat_of_nonneg (by omega)]
  have hten : (10 : ℚ) ^ n = 2 ^ n * 5 ^ n := by
    rw [← mul_pow]
    norm_num
  push_cast
  rw [← hr, zpow_natCast, hten, ← htwo]
  ring

/-- A finite double. -/
structure Double where
  negative : Bool
  size : ℚ
  size_nonneg : 0 ≤ size
  nearest_size : nearest size = some size
  deriving DecidableEq

theorem nearest_one : nearest 1 = some 1 := by
  refine nearest_multiple (k := 1) (e := 0) (by norm_num) ?_ ?_
  · rw [lastBit, Int.log_one_right]
    decide
  · exact one_lt_zpow₀ (by norm_num) (by norm_num)

/-- `1` -/
def Double.one : Double := ⟨false, 1, zero_le_one, nearest_one⟩

/-- A number of JavaScript. -/
inductive JsNumber where
  | nan
  | infinity (negative : Bool)
  | finite (d : Double)
  deriving DecidableEq

/-- The number that a decimal stands for. -/
def JsNumber.ofDecimal (negative : Bool) (digits : ℕ) (exponent : ℤ) : JsNumber :=
  match h : nearest (digits * 10 ^ exponent) with
  | none => .infinity negative
  | some size => .finite ⟨negative, size, nearest_nonneg h, nearest_nearest (by positivity) h⟩

theorem JsNumber.ofDecimal_eq {d : Double} {digits : ℕ} {exponent : ℤ}
    (h : nearest (digits * 10 ^ exponent) = some d.size) :
    JsNumber.ofDecimal d.negative digits exponent = .finite d := by
  unfold JsNumber.ofDecimal
  split
  · rename_i hnone
    rw [h] at hnone
    cases hnone
  · rename_i size hsome
    rw [h] at hsome
    obtain rfl := Option.some.inj hsome
    rfl

end Maeglagi.Core
