import WeftAgent.Procps.Stat
import WeftAgent.Go.Proofs.SpacesProofs
import WeftAgent.Go.Proofs.StrconvProofs

/-!
# A command name cannot forge a field

`parseStat` reads back what the kernel wrote, whatever the command name is: no `)` stands behind the
name, so the last one of the line closes it. A line that is cut short is refused, and no text at all
makes the parser panic.
-/

namespace WeftAgent.Procps

open WeftAgent.Go

variable {p before comm rest : GoString}

/-! ## The two parentheses -/

/-- The parser splits a line at the first `(` and the last `)`. -/
theorem parseStat_split (hp : 40 ∉ p) (hrest : 41 ∉ rest) :
    parseStat (p ++ 40 :: comm ++ 41 :: rest) = parseFields comm (Go.fields rest) := by
  have hopen : indexByte (p ++ 40 :: comm ++ 41 :: rest) 40 = some p.length := by
    rw [List.append_assoc, List.cons_append]
    exact indexByte_append_cons hp _
  have hclose : lastIndexByte (p ++ 40 :: comm ++ 41 :: rest) 41 = some (p ++ 40 :: comm).length :=
    lastIndexByte_append_cons hrest _
  have hcomm : slice (p ++ 40 :: comm ++ 41 :: rest) (p.length + 1) (p ++ 40 :: comm).length =
      .done comm := by
    rw [slice_of_le (by simp) (by simp), List.take_left]
    simp
  have htail : sliceFrom (p ++ 40 :: comm ++ 41 :: rest) ((p ++ 40 :: comm).length + 1) =
      .done rest := by
    rw [sliceFrom, slice_of_le (by simp) le_rfl, List.take_length, ← List.drop_drop,
      List.drop_left]
    rfl
  have hle : ¬ (p ++ 40 :: comm).length < p.length := by simp
  simp only [parseStat, hopen, hclose, if_neg hle, hcomm, htail, Run.done_bind]

/-- Without a `(` in front of the last `)` the line is refused. -/
theorem parseStat_no_open (hbefore : 40 ∉ before) (hrest : 41 ∉ rest) :
    parseStat (before ++ 41 :: rest) = .done none := by
  have hclose := lastIndexByte_append_cons hrest before
  by_cases hmem : 40 ∈ rest
  · obtain ⟨a, b, rfl, ha⟩ := List.eq_append_cons_of_mem hmem
    have hnot : 40 ∉ before ++ 41 :: a := by simp [hbefore, ha]
    have hopen : indexByte (before ++ 41 :: (a ++ 40 :: b)) 40 =
        some (before ++ 41 :: a).length := by
      rw [← List.cons_append, ← List.append_assoc]
      exact indexByte_append_cons hnot b
    have hlt : before.length < (before ++ 41 :: a).length := by simp
    simp only [parseStat, hopen, hclose, if_pos hlt, Run.pure_eq]
  · have hopen : indexByte (before ++ 41 :: rest) 40 = none :=
      indexByte_eq_none (by simp [hbefore, hmem])
    simp only [parseStat, hopen, Run.pure_eq]

/-- The fields behind the last `)` are all the parser sees beside the name. -/
theorem parseStat_cases (before : GoString) (hrest : 41 ∉ rest) :
    parseStat (before ++ 41 :: rest) = .done none ∨
      ∃ comm, parseStat (before ++ 41 :: rest) = parseFields comm (Go.fields rest) := by
  by_cases hmem : 40 ∈ before
  · obtain ⟨p, comm, rfl, hp⟩ := List.eq_append_cons_of_mem hmem
    exact .inr ⟨comm, parseStat_split hp hrest⟩
  · exact .inl (parseStat_no_open hmem hrest)

/-! ## The fields -/

theorem fieldAt_of_lt {rest : List GoString} {k : Nat} (h : k < rest.length) :
    fieldAt rest k = .done rest[k] := by
  simp [fieldAt, List.getElem?_eq_getElem h]

theorem parseFields_short {rest : List GoString} (h : rest.length < 20) :
    parseFields comm rest = .done none := by
  rw [parseFields, if_pos h, Run.pure_eq]

/-- The length is tested before any field is read. -/
theorem parseFields_ne_panicked (comm : GoString) (rest : List GoString) :
    parseFields comm rest ≠ .panicked := by
  by_cases h : rest.length < 20
  · simp [parseFields_short h]
  · rw [parseFields, if_neg h, fieldAt_of_lt (by omega), fieldAt_of_lt (by omega),
      fieldAt_of_lt (by omega), fieldAt_of_lt (by omega), fieldAt_of_lt (by omega)]
    simp

/-- No content of the file makes the parser panic. -/
theorem parseStat_ne_panicked (s : GoString) : parseStat s ≠ .panicked := by
  by_cases hmem : 41 ∈ s
  · obtain ⟨a, b, hs, ha⟩ := List.eq_append_cons_of_mem (List.mem_reverse.mpr hmem)
    obtain rfl : s = b.reverse ++ 41 :: a.reverse := by
      rw [← List.reverse_reverse s, hs]
      simp
    rcases parseStat_cases b.reverse (List.mem_reverse.not.mpr ha) with h | ⟨comm, h⟩
    · simp [h]
    · rw [h]
      exact parseFields_ne_panicked comm _
  · simp only [parseStat, lastIndexByte_eq_none hmem]
    cases indexByte s 40 <;> simp

/-! ## The numbers of the kernel -/

theorem parseUint_formatUint (n : UInt64) : parseUint (Strconv.formatUint n.toNat) = n := by
  rw [parseUint, Strconv.parseUint_formatUint le_rfl n.toNat_lt, UInt64.ofNat_toNat]

theorem parseInt_formatInt (i : Int32) :
    Strconv.parseInt 32 (Strconv.formatInt i.toInt) = (i.toInt, none) :=
  Strconv.parseInt_formatInt (by decide) i.le_toInt i.toInt_lt

/-- The signs and digits of numbers make a token. -/
theorem isToken_of_numeric {t : GoString} (hne : t ≠ []) (ht : ∀ b ∈ t, 45 ≤ b ∧ b ≤ 57) :
    IsToken t where
  ne_nil := hne
  spaceless := by
    refine spaceless_of_printable fun b hb => ?_
    obtain ⟨hlow, hhigh⟩ := ht b hb
    exact ⟨UInt8.le_trans (by decide : (33 : UInt8) ≤ 45) hlow,
      UInt8.le_trans hhigh (by decide : (57 : UInt8) ≤ 126)⟩
  no_close := fun h => absurd (ht 41 h).1 (by decide)

theorem isToken_formatInt (i : Int) : IsToken (Strconv.formatInt i) :=
  isToken_of_numeric (Strconv.formatInt_ne_nil i) fun _ => Strconv.mem_formatInt

theorem isToken_formatUint (n : Nat) : IsToken (Strconv.formatUint n) := by
  refine isToken_of_numeric (Strconv.formatUint_ne_nil n) fun b hb => ?_
  obtain ⟨hlow, hhigh⟩ := Strconv.mem_formatUint hb
  exact ⟨UInt8.le_trans (by decide : (45 : UInt8) ≤ 48) hlow, hhigh⟩

namespace KernelStat

variable (k : KernelStat)

theorem isToken_of_mem_tokens {t : GoString} (h : t ∈ k.tokens) : IsToken t := by
  have hmap : ∀ ts : List Token, t ∈ ts.map Token.text → IsToken t := by
    intro ts ht
    obtain ⟨tok, -, rfl⟩ := List.mem_map.mp ht
    exact tok.isToken
  simp only [tokens, List.mem_append, List.mem_cons, List.not_mem_nil, or_false] at h
  rcases h with ((((((rfl | rfl) | h) | (rfl | rfl)) | h) | rfl) | h)
  · exact k.state.isToken
  · exact isToken_formatInt _
  · exact hmap _ h
  · exact isToken_formatUint _
  · exact isToken_formatUint _
  · exact hmap _ h
  · exact isToken_formatUint _
  · exact hmap _ h

theorem no_close_tail : 41 ∉ k.tail := by
  intro h
  rcases List.mem_append.mp h with h | h
  · obtain ⟨t, ht, hmem⟩ := List.mem_flatMap.mp h
    rcases List.mem_cons.mp hmem with h | h
    · exact absurd h (by decide)
    · exact (k.isToken_of_mem_tokens ht).no_close h
  · split at h <;> simp at h

theorem fields_tail : Go.fields k.tail = k.tokens := by
  have htokens : ∀ t ∈ k.tokens, t ≠ [] ∧ Spaceless t := fun t ht =>
    have h := k.isToken_of_mem_tokens ht
    ⟨h.ne_nil, h.spaceless⟩
  cases hnew : k.newline with
  | false =>
    have hend : Boundary [] := by simp [Boundary]
    rw [tail, hnew, if_neg (by decide), fields_blank_separated htokens hend]
    exact List.append_nil _
  | true =>
    have hend : Boundary [10] := by simp [Boundary, isAsciiSpace]
    rw [tail, hnew, if_pos rfl, fields_blank_separated htokens hend, fields_space (by decide)]
    exact List.append_nil _

/-- The parser finds each value at its place. -/
theorem parseFields_tokens : parseFields k.comm k.tokens = .done (some k.fields) := by
  have hlen : k.tokens.length = 20 + k.rest.length := by
    simp [tokens, k.length_f5to13, k.length_f16to21]
    omega
  have hfield : ∀ i t, k.tokens[i]? = some t → fieldAt k.tokens i = .done t := by
    intro i t h
    rw [fieldAt, h]
  have hutime : k.tokens[11]? = some (Strconv.formatUint k.utime.toNat) := by
    simp [tokens, k.length_f5to13, k.length_f16to21]
  have hstime : k.tokens[12]? = some (Strconv.formatUint k.stime.toNat) := by
    simp [tokens, k.length_f5to13, k.length_f16to21, List.getElem?_append]
  have hstart : k.tokens[19]? = some (Strconv.formatUint k.starttime.toNat) := by
    simp [tokens, k.length_f5to13, k.length_f16to21, List.getElem?_append]
  rw [parseFields, if_neg (by omega), hfield 0 _ rfl, hfield 1 _ rfl, hfield 11 _ hutime,
    hfield 12 _ hstime, hfield 19 _ hstart]
  simp only [Run.done_bind, parseInt_formatInt, parseUint_formatUint, if_true, Int32.ofInt_toInt,
    Run.pure_eq]
  rfl

/-- The parser reads the line back, whatever the command name is. -/
theorem parseStat_line : parseStat k.line = .done (some k.fields) := by
  have hopen : 40 ∉ Strconv.formatInt k.pid ++ [32] := by
    intro h
    rcases List.mem_append.mp h with h | h
    · exact absurd (Strconv.mem_formatInt h).1 (by decide)
    · exact absurd h (by decide)
  have hline : k.line = (Strconv.formatInt k.pid ++ [32]) ++ 40 :: k.comm ++ 41 :: k.tail := by
    simp [line]
  rw [hline, parseStat_split hopen k.no_close_tail, fields_tail, parseFields_tokens]

end KernelStat

/-! ## The line is read back -/

/-- From every line of the kernel the parser gets exactly the values the kernel wrote, and it
refuses every text with fewer than 20 fields behind the last `)`. -/
theorem kernel_line_read_back :
    (∀ k : KernelStat, parseStat k.line = .done (some {
      comm := k.comm, state := k.state.text, ppid := k.ppid,
      utime := k.utime, stime := k.stime, starttime := k.starttime })) ∧
    ∀ before rest : GoString, 41 ∉ rest → (Go.fields rest).length < 20 →
      parseStat (before ++ 41 :: rest) = .done none := by
  refine ⟨fun k => k.parseStat_line, ?_⟩
  intro before rest hrest hshort
  rcases parseStat_cases before hrest with h | ⟨comm, h⟩
  · exact h
  · rw [h, parseFields_short hshort]

/-- A number as a field. -/
def numToken (i : Int) : Token := ⟨Strconv.formatInt i, isToken_formatInt i⟩

/-- A process whose name has blanks and parentheses. -/
def weirdName : KernelStat where
  pid := 1234
  comm := lit "weird )name) "
  state := ⟨lit "R", by decide, by decide, by decide⟩
  ppid := 7
  f5to13 := [1, 1, 0, -1, 0, 0, 0, 0, 0].map numToken
  utime := 12
  stime := 34
  f16to21 := [0, 0, 20, 0, 1, 0].map numToken
  starttime := 999
  rest := []
  newline := false
  length_f5to13 := rfl
  length_f16to21 := rfl

theorem weirdName_read_back :
    weirdName.line =
        lit "1234 (weird )name) ) R 7 1 1 0 -1 0 0 0 0 0 12 34 0 0 20 0 1 0 999" ∧
      parseStat weirdName.line = .done (some {
        comm := lit "weird )name) ", state := lit "R", ppid := 7,
        utime := 12, stime := 34, starttime := 999 }) ∧
      parseStat (lit "1 (x) S 0 1 2 3") = .done none :=
  ⟨by decide, kernel_line_read_back.1 weirdName,
    kernel_line_read_back.2 (lit "1 (x") (lit " S 0 1 2 3") (by decide) (by decide)⟩

end WeftAgent.Procps
