import WeftAgent.Go.Spaces

/-!
# Authorized-key lines

`ssh.ParseAuthorizedKey` of the vendored `golang.org/x/crypto/ssh`: line after line of its input is
tried, first as `<type> <base64> [comment]`, then with an options field in front. What a base64
field decodes to, and the SHA-256 digest of a key, are parameters.
-/

namespace WeftAgent.SshKeys

open WeftAgent.Go

/-- `ssh.PublicKey`, by the results of its methods. -/
structure PublicKey where
  /-- `Type()`. -/
  keyType : GoString
  /-- `Marshal()`: the wire encoding. -/
  wire : GoString
  deriving DecidableEq, Repr

/-- The parts of the `ssh` package that are not modelled further. -/
structure SshLib where
  /-- The key that a base64 field encodes (`base64.StdEncoding.Decode`, then `ParsePublicKey`). -/
  decodeKey : GoString → Except GoError PublicKey
  /-- The base64 text of the SHA-256 digest. -/
  sha256 : GoString → GoString

/-- A line that was parsed. -/
structure ParsedKey where
  key : PublicKey
  comment : GoString
  options : List GoString
  deriving DecidableEq, Repr

def isBlank (b : UInt8) : Bool := b = 32 ∨ b = 9

def newline : UInt8 := 10

def carriageReturn : UInt8 := 13

variable (lib : SshLib)

/-- `parseAuthorizedKey`: what stands after the key type. -/
def parseFields (s : GoString) : Except GoError (PublicKey × GoString) :=
  let s := trimSpace s
  let i := s.findIdx isBlank
  match lib.decodeKey (s.take i) with
  | .error e => .error e
  | .ok key => .ok (key, trimSpace (s.drop i))

/-- The scan for options in front of the key type, at index `i` of the line `s`: the index at which
it ends, and the options found. -/
def scanOptions (s : GoString) : GoString → Nat → Nat → Bool → List GoString → Nat × List GoString
  | [], i, _, _, opts => (i - 1, opts)
  | b :: rest, i, start, inQuote, opts =>
    let isEnd := !inQuote && isBlank b
    let stop := (b = 44 && !inQuote) || isEnd
    let opts := if stop ∧ start < i then opts ++ [(s.take i).drop start] else opts
    let start := if stop then i + 1 else start
    if isEnd then (i, opts)
    else
      let quote := b = 34 ∧ (i = 0 ∨ s[i - 1]? ≠ some 92)
      scanOptions s rest (i + 1) start (if quote then !inQuote else inQuote) opts

/-- A key type and what follows it, up to the check that the type is that of the key. -/
def parseTyped (s : GoString) (i : Nat) (options : List GoString) : Except GoError ParsedKey :=
  match parseFields lib (s.drop i) with
  | .error e => .error e
  | .ok (key, comment) =>
    if s.take i = key.keyType then .ok ⟨key, comment, options⟩
    else .error (.errorf
      "ssh: authorized keys key type mismatch: human-readable type %q, encoded type %q"
      [.str (s.take i), .str key.keyType])

/-- One line: the key, or the parsing error for which the line is ignored, if there is one. -/
def parseLine (line : GoString) : Except (Option GoError) ParsedKey :=
  let s := trimSpace (line.takeWhile (· ≠ carriageReturn))
  if s = [] ∨ s.head? = some 35 then .error none
  else
    let i := s.findIdx isBlank
    if i = s.length then .error none
    else
      match parseTyped lib s i [] with
      | .ok parsed => .ok parsed
      | .error e =>
        let (j, options) := scanOptions s s 0 0 false []
        let t := (s.drop j).dropWhile isBlank
        if t = [] then .error (some e)
        else
          let i := t.findIdx isBlank
          if i = t.length then .error (some e)
          else
            match parseTyped lib t i options with
            | .ok parsed => .ok parsed
            | .error e => .error (some e)

/-- The error of an input without a key. -/
def noKeyFound : Option GoError → GoError
  | some e => .wrap "ssh: no key found; last parsing error for ignored line: %w" [] e
  | none => .errorf "ssh: no key found" []

/-- The loop of `ParseAuthorizedKey` over the lines of its input, at most `n` of them: the first
key, and the rest of the input behind its line. -/
def parseFrom : Nat → GoString → Option GoError → Except GoError (ParsedKey × GoString)
  | 0, _, lastErr => .error (noKeyFound lastErr)
  | n + 1, input, lastErr =>
    if input = [] then .error (noKeyFound lastErr)
    else
      let rest := (input.dropWhile (· ≠ newline)).drop 1
      match parseLine lib (input.takeWhile (· ≠ newline)) with
      | .ok parsed => .ok (parsed, rest)
      | .error none => parseFrom n rest lastErr
      | .error (some e) => parseFrom n rest (some e)

def parseAuthorizedKey (input : GoString) : Except GoError (ParsedKey × GoString) :=
  parseFrom lib input.length input none

/-- `ssh.ParseAuthorizedKey` repeated on its rest, at most `n` times. -/
def readFrom : Nat → GoString → List ParsedKey
  | 0, _ => []
  | n + 1, input =>
    match parseAuthorizedKey lib input with
    | .error _ => []
    | .ok (parsed, rest) => parsed :: readFrom n rest

/-- The keys of an authorized-keys text. -/
def keysIn (text : GoString) : List ParsedKey := readFrom lib text.length text

def fingerprintSHA256 (key : PublicKey) : GoString := lit "SHA256:" ++ lib.sha256 key.wire

end WeftAgent.SshKeys
