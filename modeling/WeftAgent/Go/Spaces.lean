import WeftAgent.Go.Basic

/-!
# White space in Go strings

`unicode.IsSpace` on the UTF-8 encoding, and the functions of `strings` and `bytes` that rest on it.
No byte of a multi-byte space but its first starts a space, and a decoder that meets the first byte
always starts a rune there, so the encodings can be matched byte by byte.
-/

namespace WeftAgent.Go

/-- The one-byte spaces: tab, newline, vertical tab, form feed, carriage return and blank. -/
def isAsciiSpace (b : UInt8) : Bool := (9 ≤ b ∧ b ≤ 13) ∨ b = 32

/-- The two-byte spaces: U+0085 and U+00A0. -/
def isSpace2 (a b : UInt8) : Bool := a = 0xC2 ∧ (b = 0x85 ∨ b = 0xA0)

/-- The three-byte spaces: U+1680, U+2000 to U+200A, U+2028, U+2029, U+202F, U+205F and U+3000. -/
def isSpace3 (a b c : UInt8) : Bool :=
  (a = 0xE1 ∧ b = 0x9A ∧ c = 0x80) ∨
  (a = 0xE2 ∧ b = 0x80 ∧ ((0x80 ≤ c ∧ c ≤ 0x8A) ∨ c = 0xA8 ∨ c = 0xA9 ∨ c = 0xAF)) ∨
  (a = 0xE2 ∧ b = 0x81 ∧ c = 0x9F) ∨
  (a = 0xE3 ∧ b = 0x80 ∧ c = 0x80)

/-- The length in bytes of the space a string starts with, 0 if it starts with none. -/
def spaceWidth : GoString → Nat
  | [] => 0
  | [a] => if isAsciiSpace a then 1 else 0
  | [a, b] => if isAsciiSpace a then 1 else if isSpace2 a b then 2 else 0
  | a :: b :: c :: _ =>
    if isAsciiSpace a then 1 else if isSpace2 a b then 2 else if isSpace3 a b c then 3 else 0

/-- The length in bytes of the space a string ends with, 0 if it ends with none. The argument is the
reversed string. -/
def lastSpaceWidth : GoString → Nat
  | [] => 0
  | [a] => if isAsciiSpace a then 1 else 0
  | [b, a] => if isAsciiSpace b then 1 else if isSpace2 a b then 2 else 0
  | c :: b :: a :: _ =>
    if isAsciiSpace c then 1 else if isSpace2 b c then 2 else if isSpace3 a b c then 3 else 0

/-- Drop spaces, measured by `width`, from the front, at most `n` of them. -/
def dropSpaces (width : GoString → Nat) : Nat → GoString → GoString
  | 0, s => s
  | n + 1, s => if width s = 0 then s else dropSpaces width n (s.drop (width s))

/-- `strings.TrimSpace`, `bytes.TrimSpace`. -/
def trimSpace (s : GoString) : GoString :=
  let front := dropSpaces spaceWidth s.length s
  (dropSpaces lastSpaceWidth front.length front.reverse).reverse

/-- The loop of `strings.Fields`: `cur` is the field being read. -/
def fieldsFrom : Nat → GoString → GoString → List GoString
  | 0, cur, _ => if cur = [] then [] else [cur]
  | _ + 1, cur, [] => if cur = [] then [] else [cur]
  | n + 1, cur, b :: s =>
    if spaceWidth (b :: s) = 0 then fieldsFrom n (cur ++ [b]) s
    else if cur = [] then fieldsFrom n [] ((b :: s).drop (spaceWidth (b :: s)))
    else cur :: fieldsFrom n [] ((b :: s).drop (spaceWidth (b :: s)))

/-- `strings.Fields`: the maximal substrings without spaces. -/
def fields (s : GoString) : List GoString := fieldsFrom s.length [] s

/-- No space stands anywhere in the string. -/
def Spaceless (s : GoString) : Prop := ∀ t ∈ s.tails, spaceWidth t = 0

instance (s : GoString) : Decidable (Spaceless s) :=
  inferInstanceAs (Decidable (∀ t ∈ s.tails, spaceWidth t = 0))

/-- `strings.TrimRight(s, "\n")`. -/
def trimNewlines (s : GoString) : GoString := (s.reverse.dropWhile (· = 10)).reverse

end WeftAgent.Go
