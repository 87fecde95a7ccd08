import WeftAgent.Go.Spaces
import Mathlib.Tactic

/-!
# Fields between blanks

`strings.Fields` returns the words of a text in which each word stands behind an ASCII space: an
ASCII space is never a part of a longer one, so it ends the word before it.
-/

namespace WeftAgent.Go

variable {b : UInt8} {s t u : GoString}

/-! ## Spaces -/

theorem spaceWidth_of_isAsciiSpace (h : isAsciiSpace b = true) (s : GoString) :
    spaceWidth (b :: s) = 1 := by
  rcases s with _ | ⟨c, _ | ⟨d, s⟩⟩ <;> simp [spaceWidth, h]

theorem toNat_le_of_isAsciiSpace (h : isAsciiSpace b = true) : b.toNat ≤ 32 := by
  simp only [isAsciiSpace, decide_eq_true_eq] at h
  rcases h with ⟨-, h⟩ | rfl
  · have hle : b.toNat ≤ 13 := UInt8.le_iff_toNat_le.mp h
    omega
  · decide

/-- The bytes of a longer space are all above the ASCII range. -/
theorem high_of_isSpace2 {x y : UInt8} (h : isSpace2 x y = true) :
    128 ≤ x.toNat ∧ 128 ≤ y.toNat := by
  simp only [isSpace2, decide_eq_true_eq] at h
  rcases h with ⟨rfl, rfl | rfl⟩ <;> decide

theorem high_of_isSpace3 {x y z : UInt8} (h : isSpace3 x y z = true) :
    128 ≤ x.toNat ∧ 128 ≤ y.toNat ∧ 128 ≤ z.toNat := by
  simp only [isSpace3, decide_eq_true_eq] at h
  rcases h with ⟨rfl, rfl, rfl⟩ | ⟨rfl, rfl, hz⟩ | ⟨rfl, rfl, rfl⟩ | ⟨rfl, rfl, rfl⟩
  · decide
  · refine ⟨by decide, by decide, ?_⟩
    rcases hz with ⟨hz, -⟩ | rfl | rfl | rfl
    · exact UInt8.le_iff_toNat_le.mp hz
    all_goals decide
  · decide
  · decide

/-- So a longer space has no ASCII byte. -/
theorem isSpace_of_low {x y z : UInt8} (h : x.toNat < 128 ∨ y.toNat < 128) :
    isSpace2 x y = false ∧ isSpace3 x y z = false := by
  constructor
  · by_contra h2
    have hhigh := high_of_isSpace2 (by simpa using h2)
    omega
  · by_contra h3
    have hhigh := high_of_isSpace3 (by simpa using h3)
    omega

/-- A first byte in the printable ASCII range begins no space. -/
theorem spaceWidth_of_printable (hlow : 33 ≤ b) (hhigh : b ≤ 126) (s : GoString) :
    spaceWidth (b :: s) = 0 := by
  have hlow' : 33 ≤ b.toNat := UInt8.le_iff_toNat_le.mp hlow
  have hhigh' : b.toNat ≤ 126 := UInt8.le_iff_toNat_le.mp hhigh
  have hascii : isAsciiSpace b = false := by
    by_contra h
    have hle := toNat_le_of_isAsciiSpace (by simpa using h)
    omega
  have hlong : ∀ y z, isSpace2 b y = false ∧ isSpace3 b y z = false := fun y z =>
    isSpace_of_low (.inl (by omega))
  rcases s with _ | ⟨c, _ | ⟨d, s⟩⟩
  · simp [spaceWidth, hascii]
  · simp [spaceWidth, hascii, (hlong c 0).1]
  · simp [spaceWidth, hascii, hlong c d]

theorem spaceless_of_printable (h : ∀ b ∈ s, 33 ≤ b ∧ b ≤ 126) : Spaceless s := by
  intro t ht
  cases t with
  | nil => rfl
  | cons b t =>
    have hb := h b (((List.mem_tails _ _).mp ht).subset List.mem_cons_self)
    exact spaceWidth_of_printable hb.1 hb.2 t

/-! ## Words -/

/-- The text ends here, or an ASCII space comes next. -/
def Boundary (s : GoString) : Prop := ∀ b ∈ s.head?, isAsciiSpace b = true

/-- What comes behind a word makes no space of the bytes of the word. -/
theorem spaceWidth_append (hu : u ≠ []) (h : spaceWidth u = 0) (hs : Boundary s) :
    spaceWidth (u ++ s) = 0 := by
  cases s with
  | nil => rwa [List.append_nil]
  | cons b s =>
    have hb : b.toNat < 128 := by
      have hle := toNat_le_of_isAsciiSpace (hs b rfl)
      omega
    -- at most two bytes behind a byte count
    rcases u with _ | ⟨x, _ | ⟨y, _ | ⟨z, u⟩⟩⟩
    · exact absurd rfl hu
    · have hx : isAsciiSpace x = false := by simpa [spaceWidth] using h
      cases s with
      | nil => simp [spaceWidth, hx, (isSpace_of_low (z := 0) (.inr hb)).1]
      | cons c s =>
        obtain ⟨h2, h3⟩ := isSpace_of_low (x := x) (z := c) (.inr hb)
        simp [spaceWidth, hx, h2, h3]
    · have hxy : isAsciiSpace x = false ∧ isSpace2 x y = false := by
        simp only [spaceWidth] at h
        split_ifs at h with h₁ h₂
        exact ⟨by simpa using h₁, by simpa using h₂⟩
      have hlong : isSpace3 x y b = false := by
        by_contra h3
        have hhigh := high_of_isSpace3 (by simpa using h3)
        omega
      simp [spaceWidth, hxy, hlong]
    · exact h

/-- The loop reads a word. -/
theorem fieldsFrom_word (ht : Spaceless t) (hs : Boundary s) (n : Nat) (cur : GoString) :
    fieldsFrom (t.length + n) cur (t ++ s) = fieldsFrom n (cur ++ t) s := by
  induction t generalizing cur with
  | nil => simp
  | cons b t ih =>
    have hwidth : spaceWidth (b :: (t ++ s)) = 0 :=
      spaceWidth_append (List.cons_ne_nil b t) (ht _ (by simp)) hs
    have ht' : Spaceless t := fun x hx => ht x (by simp [hx])
    have hlen : (b :: t).length + n = t.length + n + 1 := by simp; omega
    rw [hlen, List.cons_append, fieldsFrom, if_pos hwidth, ih ht']
    simp

/-- The loop at the end of a word. -/
theorem fieldsFrom_boundary (ht : t ≠ []) (hs : Boundary s) :
    fieldsFrom s.length t s = t :: fields s := by
  cases s with
  | nil => simp [fieldsFrom, fields, ht]
  | cons b s =>
    have hwidth := spaceWidth_of_isAsciiSpace (hs b rfl) s
    simp [fieldsFrom, fields, hwidth, ht]

/-- A word is a field. -/
theorem fields_word (hne : t ≠ []) (ht : Spaceless t) (hs : Boundary s) :
    fields (t ++ s) = t :: fields s := by
  rw [fields, List.length_append, fieldsFrom_word ht hs, List.nil_append,
    fieldsFrom_boundary hne hs]

theorem fields_space (hb : isAsciiSpace b = true) (s : GoString) : fields (b :: s) = fields s := by
  simp [fields, fieldsFrom, spaceWidth_of_isAsciiSpace hb s]

/-- The words of a text in which each one stands behind a blank. -/
theorem fields_blank_separated {ts : List GoString} (hts : ∀ t ∈ ts, t ≠ [] ∧ Spaceless t)
    (hs : Boundary s) : fields (ts.flatMap (32 :: ·) ++ s) = ts ++ fields s := by
  induction ts with
  | nil => rfl
  | cons t ts ih =>
    obtain ⟨hne, ht⟩ := hts t List.mem_cons_self
    have hrest : Boundary (ts.flatMap (32 :: ·) ++ s) := by
      cases ts with
      | nil => exact hs
      | cons t' ts =>
        intro b hb
        obtain rfl : 32 = b := by simpa using hb
        decide
    rw [List.flatMap_cons, List.append_assoc, List.cons_append, fields_space (by decide),
      fields_word hne ht hrest, ih fun x hx => hts x (List.mem_cons_of_mem _ hx),
      List.cons_append]

end WeftAgent.Go
