import WeftAgent.Go.Float
import Mathlib.Tactic

/-!
# Rounding to `float64`

Rounding keeps the order of integers and changes nothing when it is done again. Between two powers
of two it rounds to multiples of one unit, and the powers of two themselves are such multiples.
-/

namespace WeftAgent.Go

/-- Rounding to the nearest multiple of a unit, ties to the even one. -/
def roundTo (unit n : Nat) : Nat :=
  if 2 * (n % unit) > unit ∨ 2 * (n % unit) = unit ∧ n / unit % 2 = 1 then (n / unit + 1) * unit
  else n / unit * unit

theorem float64_eq (n : Nat) :
    float64 n = if n < 2 ^ 53 then n else roundTo (2 ^ excessBits n) n := rfl

variable {unit m n : Nat}

theorem roundTo_of_dvd (h : unit ∣ n) (hpos : 0 < unit) : roundTo unit n = n := by
  have hmod : n % unit = 0 := Nat.mod_eq_zero_of_dvd h
  have hdown : ¬ (2 * (n % unit) > unit ∨ 2 * (n % unit) = unit ∧ n / unit % 2 = 1) := by omega
  rw [roundTo, if_neg hdown, Nat.div_mul_cancel h]

theorem div_mul_le_roundTo (unit n : Nat) : n / unit * unit ≤ roundTo unit n := by
  unfold roundTo
  split_ifs
  · exact Nat.mul_le_mul_right _ (Nat.le_succ _)
  · exact le_rfl

theorem roundTo_le (unit n : Nat) : roundTo unit n ≤ (n / unit + 1) * unit := by
  unfold roundTo
  split_ifs
  · exact le_rfl
  · exact Nat.mul_le_mul_right _ (Nat.le_succ _)

theorem roundTo_mono (h : m ≤ n) : roundTo unit m ≤ roundTo unit n := by
  rcases (Nat.div_le_div_right h : m / unit ≤ n / unit).lt_or_eq with hlt | heq
  · calc roundTo unit m ≤ (m / unit + 1) * unit := roundTo_le unit m
      _ ≤ n / unit * unit := Nat.mul_le_mul_right _ hlt
      _ ≤ roundTo unit n := div_mul_le_roundTo unit n
  · -- between the same two multiples, the larger one is rounded up if the smaller one is
    have hmod : m % unit ≤ n % unit := by
      have hm := Nat.div_add_mod m unit
      have hn := Nat.div_add_mod n unit
      rw [heq] at hm
      omega
    unfold roundTo
    rw [heq]
    split_ifs with hup hup'
    · exact le_rfl
    · omega
    · exact Nat.mul_le_mul_right _ (Nat.le_succ _)
    · exact le_rfl

/-- A multiple of the unit is not crossed by rounding. -/
theorem roundTo_le_of_dvd {b : Nat} (hb : unit ∣ b) (hpos : 0 < unit) (h : n ≤ b) :
    roundTo unit n ≤ b := by
  rw [← roundTo_of_dvd hb hpos]
  exact roundTo_mono h

theorem le_roundTo_of_dvd {a : Nat} (ha : unit ∣ a) (hpos : 0 < unit) (h : a ≤ n) :
    a ≤ roundTo unit n := by
  rw [← roundTo_of_dvd ha hpos]
  exact roundTo_mono h

/-! ## Between powers of two -/

theorem log2_ge_of_le (h : 2 ^ 53 ≤ n) : 53 ≤ n.log2 := (Nat.le_log2 (by omega)).mpr h

theorem pow_excessBits_dvd {e : Nat} (h : n.log2 ≤ e) : 2 ^ excessBits n ∣ 2 ^ e :=
  pow_dvd_pow 2 (by unfold excessBits; omega)

theorem le_float64 (h : 2 ^ 53 ≤ n) : 2 ^ n.log2 ≤ float64 n := by
  rw [float64_eq, if_neg (by omega)]
  exact le_roundTo_of_dvd (pow_excessBits_dvd le_rfl) (by positivity)
    (Nat.log2_self_le (by omega))

theorem float64_le (h : 2 ^ 53 ≤ n) : float64 n ≤ 2 ^ (n.log2 + 1) := by
  rw [float64_eq, if_neg (by omega)]
  exact roundTo_le_of_dvd (pow_excessBits_dvd (Nat.le_succ _)) (by positivity)
    Nat.lt_log2_self.le

theorem float64_mono (h : m ≤ n) : float64 m ≤ float64 n := by
  by_cases hm : m < 2 ^ 53
  · rw [float64_of_le hm.le]
    by_cases hn : n < 2 ^ 53
    · rwa [float64_of_le hn.le]
    · have hlog : 2 ^ 53 ≤ 2 ^ n.log2 := Nat.pow_le_pow_right (by omega) (log2_ge_of_le (by omega))
      have hle := le_float64 (n := n) (by omega)
      omega
  · have hn : ¬ n < 2 ^ 53 := by omega
    have hlog : m.log2 ≤ n.log2 :=
      (Nat.le_log2 (by omega)).mpr ((Nat.log2_self_le (by omega)).trans h)
    rcases hlog.lt_or_eq with hlt | heq
    · calc float64 m ≤ 2 ^ (m.log2 + 1) := float64_le (by omega)
        _ ≤ 2 ^ n.log2 := Nat.pow_le_pow_right (by omega) hlt
        _ ≤ float64 n := le_float64 (by omega)
    · rw [float64_eq, float64_eq, if_neg hm, if_neg hn, excessBits, excessBits, heq]
      exact roundTo_mono h

theorem float64_of_dvd (h : 2 ^ excessBits n ∣ n) : float64 n = n := by
  rw [float64_eq]
  split_ifs
  · rfl
  · exact roundTo_of_dvd h (by positivity)

/-- A rounded integer is a `float64`: it is a multiple of the unit it was rounded to, or the next
power of two. -/
theorem float64_float64 (n : Nat) : float64 (float64 n) = float64 n := by
  by_cases hn : n < 2 ^ 53
  · rw [float64_of_le hn.le, float64_of_le hn.le]
  · have hlow := le_float64 (n := n) (by omega)
    have hhigh := float64_le (n := n) (by omega)
    have hne : float64 n ≠ 0 := (lt_of_lt_of_le (by positivity) hlow).ne'
    apply float64_of_dvd
    rcases hhigh.lt_or_eq with hlt | heq
    · have hlog : (float64 n).log2 = n.log2 := (Nat.log2_eq_iff hne).mpr ⟨hlow, hlt⟩
      rw [excessBits, hlog, float64_eq, if_neg hn, roundTo]
      split_ifs
      · exact Dvd.intro_left _ rfl
      · exact Dvd.intro_left _ rfl
    · rw [heq]
      exact pow_excessBits_dvd (by rw [Nat.log2_two_pow])

end WeftAgent.Go
