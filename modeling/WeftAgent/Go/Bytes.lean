import WeftAgent.Go.Basic
import Mathlib.Algebra.Group.Nat.Defs
import Mathlib.Tactic.IntervalCases
import Mathlib.Tactic.Ring

/-!
# Byte strings as numbers in network order

`beNat` is the number that a fixed-width field of a packet stands for. A field of a given length is
determined by it (`beNat_inj`), and comparing two fields under a mask whose leading bits are set is
comparing the leading bits of the numbers (`mask_eq_mask_iff`).
-/

namespace WeftAgent.Go

/-- The number a field in network order stands for. -/
def beNat (bs : List UInt8) : Nat := bs.foldl (fun n b => n * 256 + b.toNat) 0

/-- The bytes of `xs` and `ms` joined by `&`, position by position. -/
def maskBytes (xs ms : List UInt8) : List UInt8 := List.zipWith (· &&& ·) xs ms

/-- A mask of `len` bytes whose first `ones` bits are set: the loop of `net.CIDRMask`. -/
def leadingMask (ones : Nat) : Nat → List UInt8
  | 0 => []
  | len + 1 =>
    if 8 ≤ ones then 0xff :: leadingMask (ones - 8) len
    else (~~~(0xff >>> UInt8.ofNat ones)) :: leadingMask 0 len

/-! ## Numbers -/

theorem foldl_beNat (bs : List UInt8) (n : Nat) :
    bs.foldl (fun n b => n * 256 + b.toNat) n = n * 256 ^ bs.length + beNat bs := by
  unfold beNat
  induction bs generalizing n with
  | nil => simp
  | cons b bs ih =>
    rw [List.foldl_cons, List.foldl_cons, ih, ih (0 * 256 + b.toNat), List.length_cons, pow_succ]
    ring

@[simp] theorem beNat_nil : beNat [] = 0 := rfl

theorem beNat_cons (b : UInt8) (bs : List UInt8) :
    beNat (b :: bs) = b.toNat * 256 ^ bs.length + beNat bs := by
  rw [beNat, List.foldl_cons, foldl_beNat]
  ring

theorem beNat_lt (bs : List UInt8) : beNat bs < 256 ^ bs.length := by
  induction bs with
  | nil => simp
  | cons b bs ih =>
    have hb : b.toNat + 1 ≤ 256 := b.toNat_lt
    rw [beNat_cons, List.length_cons]
    calc b.toNat * 256 ^ bs.length + beNat bs
        < b.toNat * 256 ^ bs.length + 256 ^ bs.length := by omega
      _ = (b.toNat + 1) * 256 ^ bs.length := by ring
      _ ≤ 256 * 256 ^ bs.length := Nat.mul_le_mul_right _ hb
      _ = 256 ^ (bs.length + 1) := by ring

/-- The first byte of a field decides before the others do. -/
theorem beNat_cons_lt_of_lt {a b : UInt8} {as bs : List UInt8} (hlen : as.length = bs.length)
    (h : a < b) : beNat (a :: as) < beNat (b :: bs) := by
  have hab : a.toNat + 1 ≤ b.toNat := h
  have hrest := beNat_lt as
  rw [beNat_cons, beNat_cons, hlen] at *
  calc a.toNat * 256 ^ bs.length + beNat as
      < a.toNat * 256 ^ bs.length + 256 ^ bs.length := by omega
    _ = (a.toNat + 1) * 256 ^ bs.length := by ring
    _ ≤ b.toNat * 256 ^ bs.length := Nat.mul_le_mul_right _ hab
    _ ≤ b.toNat * 256 ^ bs.length + beNat bs := Nat.le_add_right _ _

/-- A field of a given length is determined by its number. -/
theorem beNat_inj {as bs : List UInt8} (hlen : as.length = bs.length) :
    beNat as = beNat bs ↔ as = bs := by
  refine ⟨fun heq => ?_, congrArg beNat⟩
  induction as generalizing bs with
  | nil => exact (List.length_eq_zero_iff.mp hlen.symm).symm
  | cons a as ih =>
    cases bs with
    | nil => simp at hlen
    | cons b bs =>
      have hlen' : as.length = bs.length := by simpa using hlen
      have hle : ¬ a < b := fun hlt => (beNat_cons_lt_of_lt hlen' hlt).ne heq
      have hge : ¬ b < a := fun hlt => (beNat_cons_lt_of_lt hlen'.symm hlt).ne' heq
      obtain rfl : a = b := UInt8.le_antisymm (UInt8.not_lt.mp hge) (UInt8.not_lt.mp hle)
      rw [beNat_cons, beNat_cons, hlen'] at heq
      rw [ih hlen' (Nat.add_left_cancel heq)]

/-! ## Masks -/

@[simp] theorem length_leadingMask (ones len : Nat) : (leadingMask ones len).length = len := by
  induction len generalizing ones with
  | zero => rfl
  | succ len ih =>
    rw [leadingMask]
    split_ifs <;> simp [ih]

/-- The bytes before the last of the leading bits are set. -/
theorem take_leadingMask {k ones len : Nat} (h : 8 * k ≤ ones) (hk : k ≤ len) :
    (leadingMask ones len).take k = List.replicate k 0xff := by
  induction k generalizing ones len with
  | zero => simp
  | succ k ih =>
    obtain ⟨len, rfl⟩ : ∃ m, len = m + 1 := ⟨len - 1, by omega⟩
    rw [leadingMask, if_pos (by omega), List.take_succ_cons, ih (by omega) (by omega),
      List.replicate_succ]

/-- The bytes behind the leading bits are zero. -/
theorem drop_leadingMask {k ones len : Nat} (h : ones ≤ 8 * k) (hk : k ≤ len) :
    (leadingMask ones len).drop k = List.replicate (len - k) 0 := by
  induction k generalizing ones len with
  | zero =>
    obtain rfl : ones = 0 := by omega
    clear h hk
    induction len with
    | zero => rfl
    | succ len ih =>
      rw [List.drop_zero] at ih ⊢
      rw [leadingMask, if_neg (by decide), ih, Nat.sub_zero, Nat.sub_zero, List.replicate_succ]
      rfl
  | succ k ih =>
    obtain ⟨len, rfl⟩ : ∃ m, len = m + 1 := ⟨len - 1, by omega⟩
    rw [leadingMask, Nat.add_sub_add_right]
    split_ifs
    · exact ih (by omega) (by omega)
    · exact ih (by omega) (by omega)

theorem length_maskBytes {xs ms : List UInt8} (h : xs.length = ms.length) :
    (maskBytes xs ms).length = xs.length := by
  simp [maskBytes, h]

theorem maskBytes_ones {xs : List UInt8} {n : Nat} (h : xs.length = n) :
    maskBytes xs (List.replicate n 0xff) = xs := by
  induction xs generalizing n with
  | nil => simp [maskBytes]
  | cons x xs ih =>
    subst h
    have hbyte : x &&& 0xff = x := UInt8.and_neg_one
    have hrest := ih rfl
    rw [maskBytes] at hrest
    rw [List.length_cons, List.replicate_succ, maskBytes, List.zipWith_cons_cons, hbyte, hrest]

theorem maskBytes_zeros {xs : List UInt8} {n : Nat} (h : xs.length = n) :
    maskBytes xs (List.replicate n 0) = List.replicate n 0 := by
  induction xs generalizing n with
  | nil =>
    subst h
    rfl
  | cons x xs ih =>
    subst h
    have hrest := ih rfl
    rw [maskBytes] at hrest
    rw [List.length_cons, List.replicate_succ, maskBytes, List.zipWith_cons_cons, UInt8.and_zero,
      hrest]

/-- Masking twice is masking once. -/
theorem maskBytes_maskBytes (xs ms : List UInt8) :
    maskBytes (maskBytes xs ms) ms = maskBytes xs ms := by
  unfold maskBytes
  induction xs generalizing ms with
  | nil => simp
  | cons x xs ih =>
    cases ms with
    | nil => simp
    | cons m ms => simp [UInt8.and_assoc, ih]

/-- The mask byte in which the leading bits end clears the bits below. -/
theorem toNat_and_leading (x : UInt8) {n : Nat} (hn : n < 8) :
    (x &&& ~~~(0xff >>> UInt8.ofNat n)).toNat = x.toNat / 2 ^ (8 - n) * 2 ^ (8 - n) := by
  have hones : 0xff >>> n = 2 ^ (8 - n) - 1 := by interval_cases n <;> rfl
  have hmask : (~~~(0xff >>> UInt8.ofNat n) : UInt8).toNat = 2 ^ 8 - (2 ^ (8 - n) - 1 + 1) := by
    have hshift : (UInt8.ofNat n).toNat % 8 = n := by
      rw [UInt8.toNat_ofNat_of_lt' (by simp [UInt8.size]; omega), Nat.mod_eq_of_lt hn]
    rw [UInt8.toNat_not, UInt8.toNat_shiftRight, hshift, UInt8.toNat_ofNat_of_lt (by decide), hones,
      UInt8.size]
    omega
  have hlt : 2 ^ (8 - n) - 1 < 2 ^ 8 := by
    have hle : 2 ^ (8 - n) ≤ 2 ^ 8 := Nat.pow_le_pow_right (by omega) (by omega)
    omega
  apply Nat.eq_of_testBit_eq
  intro i
  rw [UInt8.toNat_and, hmask, Nat.testBit_and, Nat.testBit_two_pow_sub_succ hlt,
    Nat.testBit_two_pow_sub_one, Nat.testBit_mul_two_pow, Nat.testBit_div_two_pow]
  by_cases hlow : 8 - n ≤ i
  · have hi : i - (8 - n) + (8 - n) = i := by omega
    by_cases hhigh : i < 8
    · simp [hlow, hhigh, hi]
    · have hbit : x.toNat.testBit i = false :=
        Nat.testBit_lt_two_pow
          (lt_of_lt_of_le x.toNat_lt (Nat.pow_le_pow_right (by omega) (by omega)))
      simp [hi, hbit]
  · simp [hlow, Nat.lt_of_not_le hlow]

/-- A leading byte and what follows it, cut below the leading byte. -/
theorem beNat_cons_div {k len : Nat} (hk : k ≤ 8 * len) (a : UInt8) {as : List UInt8}
    (hlen : as.length = len) :
    beNat (a :: as) / 2 ^ k = a.toNat * 2 ^ (8 * len - k) + beNat as / 2 ^ k ∧
      beNat as / 2 ^ k < 2 ^ (8 * len - k) := by
  have hpow : 256 ^ len = 2 ^ (8 * len - k) * 2 ^ k := by
    rw [← pow_add, Nat.sub_add_cancel hk, pow_mul]
    rfl
  have hlt := beNat_lt as
  rw [hlen, hpow] at hlt
  constructor
  · rw [beNat_cons, hlen, hpow, ← mul_assoc, Nat.add_comm,
      Nat.add_mul_div_right _ _ (Nat.two_pow_pos k), Nat.add_comm]
  · exact Nat.div_lt_of_lt_mul (by rwa [Nat.mul_comm])

/-- Cut within the leading byte. -/
theorem beNat_cons_div_add (k : Nat) (a : UInt8) (as : List UInt8) :
    beNat (a :: as) / 2 ^ (8 * as.length + k) = a.toNat / 2 ^ k := by
  obtain ⟨hdiv, hlt⟩ := beNat_cons_div le_rfl a (rfl : as.length = as.length)
  rw [Nat.sub_self, pow_zero] at hdiv hlt
  rw [pow_add, ← Nat.div_div_eq_div_mul, hdiv, Nat.lt_one_iff.mp hlt, mul_one, add_zero]

theorem maskBytes_leadingMask_zero (xs : List UInt8) :
    maskBytes xs (leadingMask 0 xs.length) = List.replicate xs.length 0 := by
  have hzeros : (leadingMask 0 xs.length).drop 0 = List.replicate (xs.length - 0) 0 :=
    drop_leadingMask le_rfl (Nat.zero_le _)
  rw [List.drop_zero, Nat.sub_zero] at hzeros
  rw [hzeros, maskBytes_zeros rfl]

theorem mul_add_inj {a b q r d : Nat} (hq : q < d) (hr : r < d) :
    a * d + q = b * d + r ↔ a = b ∧ q = r := by
  constructor
  · intro h
    have hdiv : ∀ {n m : Nat}, m < d → (n * d + m) / d = n := fun {n m} hm => by
      rw [Nat.add_comm, Nat.add_mul_div_right _ _ (by omega), Nat.div_eq_of_lt hm, zero_add]
    obtain rfl : a = b := (hdiv hq).symm.trans (h ▸ hdiv hr)
    exact ⟨rfl, Nat.add_left_cancel h⟩
  · rintro ⟨rfl, rfl⟩
    rfl

/-- Two fields are equal under a mask of leading bits exactly when the leading bits of their numbers
are. -/
theorem mask_eq_mask_iff {as bs : List UInt8} {ones len : Nat} (hones : ones ≤ 8 * len)
    (has : as.length = len) (hbs : bs.length = len) :
    maskBytes as (leadingMask ones len) = maskBytes bs (leadingMask ones len) ↔
      beNat as / 2 ^ (8 * len - ones) = beNat bs / 2 ^ (8 * len - ones) := by
  induction len generalizing as bs ones with
  | zero =>
    rw [List.length_eq_zero_iff.mp has, List.length_eq_zero_iff.mp hbs]
    simp
  | succ len ih =>
    obtain ⟨a, as, rfl⟩ := List.exists_cons_of_length_eq_add_one has
    obtain ⟨b, bs, rfl⟩ := List.exists_cons_of_length_eq_add_one hbs
    have has' : as.length = len := by simpa using has
    have hbs' : bs.length = len := by simpa using hbs
    rw [leadingMask]
    split_ifs with hfull
    · -- the whole byte belongs to the leading bits
      have hcut : 8 * (len + 1) - ones = 8 * len - (ones - 8) := by omega
      obtain ⟨hadiv, halt⟩ := beNat_cons_div (k := 8 * len - (ones - 8)) (by omega) a has'
      obtain ⟨hbdiv, hblt⟩ := beNat_cons_div (k := 8 * len - (ones - 8)) (by omega) b hbs'
      have hrest : _ ↔ beNat as / 2 ^ (8 * len - (ones - 8)) = _ := ih (by omega) has' hbs'
      rw [hcut, hadiv, hbdiv]
      simp only [maskBytes, List.zipWith_cons_cons, List.cons.injEq] at hrest ⊢
      have hbyte : ∀ x : UInt8, x &&& 0xff = x := fun x => UInt8.and_neg_one
      rw [hrest, hbyte, hbyte, mul_add_inj halt hblt, UInt8.toNat_inj]
    · -- the leading bits end in this byte
      have hcuta : 8 * (len + 1) - ones = 8 * as.length + (8 - ones) := by omega
      have hcutb : 8 * as.length + (8 - ones) = 8 * bs.length + (8 - ones) := by omega
      have hzero : maskBytes as (leadingMask 0 len) = maskBytes bs (leadingMask 0 len) := by
        have ha := maskBytes_leadingMask_zero as
        have hb := maskBytes_leadingMask_zero bs
        rw [has'] at ha
        rw [hbs'] at hb
        rw [ha, hb]
      rw [hcuta, beNat_cons_div_add, hcutb, beNat_cons_div_add]
      simp only [maskBytes, List.zipWith_cons_cons, List.cons.injEq] at hzero ⊢
      rw [← UInt8.toNat_inj, toNat_and_leading a (by omega), toNat_and_leading b (by omega),
        Nat.mul_left_inj (Nat.two_pow_pos _).ne']
      exact and_iff_left hzero

end WeftAgent.Go
