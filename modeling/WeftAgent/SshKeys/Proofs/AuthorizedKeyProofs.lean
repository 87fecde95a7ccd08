import WeftAgent.SshKeys.SshKeys
import Mathlib.Tactic

/-!
# The keys of a text

`ParseAuthorizedKey` finds the first line that parses; repeated on its rest it finds all of them.
The keys of the rendered file are those of the lines of its entries.
-/

namespace WeftAgent.SshKeys

open WeftAgent.Go

variable (lib : SshLib)

/-- The keys of the lines of a text, in order. -/
def lineKeys (text : GoString) : List ParsedKey :=
  (text.splitOn newline).filterMap fun line => (parseLine lib line).toOption

@[simp] theorem lineKeys_nil : lineKeys lib [] = [] := rfl

theorem lineKeys_append_newline (a b : GoString) :
    lineKeys lib (a ++ newline :: b) = lineKeys lib a ++ lineKeys lib b := by
  rw [lineKeys, List.splitOn_append_cons_self, List.filterMap_append]
  rfl

theorem lineKeys_of_line {line : GoString} (h : newline ∉ line) :
    lineKeys lib line = (parseLine lib line).toOption.toList := by
  rw [lineKeys, List.splitOn_eq_singleton h]
  cases hp : (parseLine lib line).toOption <;> simp [hp]

/-- Cutting off the first line of a text. -/
theorem lineKeys_cut {input : GoString} (hne : input ≠ []) :
    lineKeys lib input =
        (parseLine lib (input.takeWhile (· ≠ newline))).toOption.toList ++
          lineKeys lib ((input.dropWhile (· ≠ newline)).drop 1) ∧
      ((input.dropWhile (· ≠ newline)).drop 1).length < input.length := by
  have hline : newline ∉ input.takeWhile (· ≠ newline) := fun h => by
    simpa using List.mem_takeWhile_imp h
  have hsplit := List.takeWhile_append_dropWhile (p := fun b => decide (b ≠ newline)) (l := input)
  cases hd : input.dropWhile (· ≠ newline) with
  | nil =>
    -- the last line, without a newline
    rw [hd, List.append_nil] at hsplit
    rw [hsplit] at hline ⊢
    refine ⟨?_, List.length_pos_iff.mpr hne⟩
    rw [lineKeys_of_line lib hline]
    simp
  | cons b rest =>
    have hb : b = newline := by
      have h := List.head?_dropWhile_not (fun b => decide (b ≠ newline)) input
      rw [hd] at h
      simpa using h
    rw [hd, hb] at hsplit
    refine ⟨?_, ?_⟩
    · conv_lhs => rw [← hsplit]
      rw [lineKeys_append_newline, lineKeys_of_line lib hline]
      rfl
    · have hlen := congrArg List.length hsplit
      simp only [List.length_append, List.length_cons, List.drop_one, List.tail_cons] at hlen ⊢
      omega

/-- What a search for the first key of a text returns: that key, with a shorter rest that has the
other keys, or an error if no line has a key. -/
def FirstKey (input : GoString) : Except GoError (ParsedKey × GoString) → Prop
  | .ok (parsed, rest) =>
    lineKeys lib input = parsed :: lineKeys lib rest ∧ rest.length < input.length
  | .error _ => lineKeys lib input = []

variable {lib} in
/-- A search may go on behind a line without a key. -/
theorem FirstKey.skip {input rest : GoString} {result} (h : FirstKey lib rest result)
    (hkeys : lineKeys lib input = lineKeys lib rest) (hlen : rest.length < input.length) :
    FirstKey lib input result := by
  rcases result with e | ⟨parsed, rest'⟩
  · exact hkeys.trans h
  · exact ⟨hkeys.trans h.1, h.2.trans hlen⟩

theorem parseFrom_firstKey {n : Nat} {input : GoString} (hn : input.length ≤ n)
    (lastErr : Option GoError) : FirstKey lib input (parseFrom lib n input lastErr) := by
  induction n generalizing input lastErr with
  | zero =>
    rw [List.length_eq_zero_iff.mp (Nat.le_zero.mp hn)]
    exact lineKeys_nil lib
  | succ n ih =>
    rw [parseFrom]
    split_ifs with hne
    · rw [hne]
      exact lineKeys_nil lib
    · obtain ⟨hkeys, hlen⟩ := lineKeys_cut lib hne
      have hrest := Nat.le_of_lt_succ (hlen.trans_le hn)
      cases hline : parseLine lib (input.takeWhile (· ≠ newline)) with
      | ok parsed =>
        rw [hline] at hkeys
        exact ⟨hkeys, hlen⟩
      | error skipped =>
        rw [hline] at hkeys
        cases skipped with
        | none => exact (ih hrest lastErr).skip hkeys hlen
        | some e => exact (ih hrest (some e)).skip hkeys hlen

/-- `ParseAuthorizedKey` returns the key of the first line that has one. -/
theorem parseAuthorizedKey_firstKey (input : GoString) :
    FirstKey lib input (parseAuthorizedKey lib input) :=
  parseFrom_firstKey lib le_rfl none

/-- Repeated on its rest, `ParseAuthorizedKey` returns the keys of all lines. -/
theorem keysIn_eq_lineKeys (text : GoString) : keysIn lib text = lineKeys lib text := by
  -- the loop ends within its bound because each key leaves a shorter rest
  suffices h : ∀ n (input : GoString), input.length ≤ n →
      readFrom lib n input = lineKeys lib input by
    exact h _ text le_rfl
  intro n
  induction n with
  | zero =>
    intro input hn
    rw [List.length_eq_zero_iff.mp (Nat.le_zero.mp hn)]
    rfl
  | succ n ih =>
    intro input hn
    rw [readFrom]
    have hfirst := parseAuthorizedKey_firstKey lib input
    cases hp : parseAuthorizedKey lib input with
    | error e =>
      rw [hp] at hfirst
      exact Eq.symm hfirst
    | ok found =>
      rw [hp] at hfirst
      obtain ⟨hkeys, hlen⟩ := hfirst
      rw [hkeys]
      exact congrArg (found.1 :: ·) (ih found.2 (Nat.le_of_lt_succ (hlen.trans_le hn)))

/-- The text of the file, written from its front. -/
theorem renderKeys_eq (ks : KeySet) :
    renderKeys ks = header ++ newline :: ks.keys.flatMap fun k => k.publicKey ++ [newline] := by
  suffices h : ∀ (keys : List Key) (buf : GoString),
      keys.foldl (fun buf k => buf ++ k.publicKey ++ [newline]) buf =
        buf ++ keys.flatMap fun k => k.publicKey ++ [newline] by
    rw [renderKeys, h]
    simp
  intro keys
  induction keys with
  | nil => simp
  | cons k keys ih =>
    intro buf
    rw [List.foldl_cons, ih, List.flatMap_cons]
    simp

/-- The keys of the rendered file are those of the lines of its entries; its header has none. -/
theorem lineKeys_renderKeys (ks : KeySet) :
    lineKeys lib (renderKeys ks) = ks.keys.flatMap fun k => lineKeys lib k.publicKey := by
  have hheader : lineKeys lib header = [] := rfl
  rw [renderKeys_eq, lineKeys_append_newline, hheader, List.nil_append]
  induction ks.keys with
  | nil => rfl
  | cons k keys ih =>
    rw [List.flatMap_cons, List.append_assoc, List.singleton_append, lineKeys_append_newline, ih,
      List.flatMap_cons]

end WeftAgent.SshKeys
