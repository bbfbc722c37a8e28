import ClientAuth.Json.Number
import ClientAuth.Text.Utf8

/-!
# JSON tokens

A document is first cut into tokens. A flaw in a token ends the row of tokens with a token that tells it, so that what
stands before the flaw is read first. Some flaws count only for a text or number that is read, not for one that is
skipped: a lone surrogate, octets that are not UTF-8, a number that is too large; other flaws may be of another sort when
skipped.
-/

namespace ClientAuth.Json

/-- What can be wrong with the form of a document. -/
inductive Flaw where
  /-- It is not JSON. -/
  | malformed
  /-- It ends too early. -/
  | truncated
  deriving DecidableEq, Repr

/-- A token. -/
inductive Token where
  | openBrace
  | closeBrace
  | openBracket
  | closeBracket
  | comma
  | colon
  | null
  | boolean (b : Bool)
  /-- A number; none when it is too large to be read. -/
  | number (n : Option Number)
  /-- A text; none when it cannot be read, though it can be skipped. -/
  | text (s : Option String)
  /-- A text with a flaw, as it counts when the text is read and when it is skipped. -/
  | badText (read skipped : Flaw)
  /-- Anything else with a flaw. -/
  | badOther (read skipped : Flaw)
  deriving DecidableEq, Repr

/-- The octet of an ASCII character. -/
def octet (c : Char) : UInt8 := UInt8.ofNat c.toNat

/-- The four characters that may stand between tokens. -/
def isBetween (b : UInt8) : Bool := b == 32 || b == 10 || b == 9 || b == 13

/-- The value of a decimal digit. -/
def digit? (b : UInt8) : Option Nat := if 48 ≤ b ∧ b ≤ 57 then some (b.toNat - 48) else none

/-- Digits at the front, and what follows them. -/
def digits : Bytes → List Nat × Bytes
  | [] => ([], [])
  | b :: rest =>
    match digit? b with
    | some d => (d :: (digits rest).1, (digits rest).2)
    | none => ([], b :: rest)

/-- The number that four hexadecimal digits write. -/
def hexQuad? (a b c d : UInt8) : Option Nat := do
  let value (x : UInt8) := Hex.value? (Char.ofNat x.toNat)
  return ((← value a) * 16 + (← value b)) * 256 + ((← value c) * 16 + (← value d))

/-- The first half of a character beyond the basic plane. -/
def isHighSurrogate (n : Nat) : Bool := 0xD800 ≤ n && n ≤ 0xDBFF

/-- The second half of a character beyond the basic plane. -/
def isLowSurrogate (n : Nat) : Bool := 0xDC00 ≤ n && n ≤ 0xDFFF

/-- The character of two halves. -/
def joinSurrogates (high low : Nat) : Char := Char.ofNat (0x10000 + (high - 0xD800) * 1024 + (low - 0xDC00))

/-- What a character behind a backslash stands for, unless it is `u`. -/
def escape? (b : UInt8) : Option UInt8 :=
  if b = octet '"' then some 34
  else if b = octet '\\' then some 92
  else if b = octet '/' then some 47
  else if b = octet 'b' then some 8
  else if b = octet 'f' then some 12
  else if b = octet 'n' then some 10
  else if b = octet 'r' then some 13
  else if b = octet 't' then some 9
  else none

/-- What has been read of a text: its octets in reverse, or nothing once it can only be skipped. -/
abbrev Draft := Option Bytes

/-- A draft with one more octet. -/
def Draft.push (d : Draft) (b : UInt8) : Draft := d.map (b :: ·)

/-- A draft with one more character. -/
def Draft.pushChar (d : Draft) (c : Char) : Draft := d.map ((Utf8.encodeChar c).reverse ++ ·)

/-- The text of a draft whose end was reached, if it can be read. -/
def Draft.finish (d : Draft) : Option String :=
  d.bind fun octets => (Utf8.decode octets.reverse).toOption

/-- A flaw in a text of which a draft was read. A text that can only be skipped is malformed already. -/
def Draft.fail (d : Draft) (f : Flaw) : Token := .badText (if d.isSome then f else .malformed) f

/-- What stands where the second half of a character is due. -/
inductive SecondHalf where
  /-- The second half. -/
  | found (n : Nat)
  /-- Something else: the first half stands alone. -/
  | missing
  /-- The start of an escape that has a flaw of its own. -/
  | flawed

/-- Looks for an escaped second half of a character. -/
def secondHalf : Bytes → SecondHalf
  | [] => .flawed
  | [b] => if b = octet '\\' then .flawed else .missing
  | b :: e :: rest =>
    if b = octet '\\' ∧ e = octet 'u' then
      match rest with
      | h₁ :: h₂ :: h₃ :: h₄ :: _ =>
        match hexQuad? h₁ h₂ h₃ h₄ with
        | none => .flawed
        | some n => if isLowSurrogate n then .found n else .missing
      | _ => .flawed
    else .missing

/-- The text that follows a quote, up to its closing quote, and what stands behind it. -/
def textFrom (d : Draft) : Bytes → Token × Bytes
  | [] => (d.fail .truncated, [])
  | b :: rest =>
    if b = octet '"' then (.text d.finish, rest)
    else if b = octet '\\' then
      match rest with
      | [] => (d.fail .truncated, [])
      | e :: rest =>
        if e = octet 'u' then
          match rest with
          | h₁ :: h₂ :: h₃ :: h₄ :: rest =>
            match hexQuad? h₁ h₂ h₃ h₄ with
            | none => (d.fail .malformed, [])
            | some n =>
              if isLowSurrogate n then textFrom none rest
              else if isHighSurrogate n then
                match secondHalf rest with
                | .missing => textFrom none rest
                | .flawed => textFrom d rest
                | .found m =>
                  match rest with
                  | _ :: _ :: _ :: _ :: _ :: _ :: rest => textFrom (d.pushChar (joinSurrogates n m)) rest
                  | _ => (d.fail .truncated, [])
              else textFrom (d.pushChar (Char.ofNat n)) rest
          | _ => (d.fail .truncated, [])
        else
          match escape? e with
          | some x => textFrom (d.push x) rest
          | none => (d.fail .malformed, [])
    else if b < 32 then (d.fail .malformed, [])
    else textFrom (d.push b) rest

/-- A number that breaks off: only at the end of the document, and only when it is read, is that a lack of text. -/
def breakOff (rest : Bytes) : Token × Bytes :=
  (.badOther (if rest.isEmpty then .truncated else .malformed) .malformed, [])

/-- The exponent of a number, and the number. -/
def exponentFrom (isNegative : Bool) (whole : List Nat) (fraction : Option (List Nat)) (rest : Bytes) : Token × Bytes :=
  let (sign, behindSign) := match rest with
    | b :: behind => if b = octet '+' then (false, behind) else if b = octet '-' then (true, behind) else (false, rest)
    | [] => (false, [])
  match digits behindSign with
  | ([], rest) => breakOff rest
  | (ds, rest) => (.number (Numeral.number? ⟨isNegative, whole, fraction, some (sign, ds)⟩), rest)

/-- What follows the digits before the exponent, and the number. -/
def afterDigits (isNegative : Bool) (whole : List Nat) (fraction : Option (List Nat)) (rest : Bytes) : Token × Bytes :=
  match rest with
  | b :: behind =>
    if b = octet 'e' ∨ b = octet 'E' then exponentFrom isNegative whole fraction behind
    else (.number (Numeral.number? ⟨isNegative, whole, fraction, none⟩), rest)
  | [] => (.number (Numeral.number? ⟨isNegative, whole, fraction, none⟩), [])

/-- A number behind its sign. A nought at its front may not be followed by another digit. -/
def numberFrom (isNegative : Bool) (bs : Bytes) : Token × Bytes :=
  match digits bs with
  | ([], rest) => breakOff rest
  | (0 :: _ :: _, _) => (.badOther .malformed .malformed, [])
  | (whole, rest) =>
    match rest with
    | b :: behind =>
      if b = octet '.' then
        match digits behind with
        | ([], rest) => breakOff rest
        | (fraction, rest) => afterDigits isNegative whole (some fraction) rest
      else afterDigits isNegative whole none rest
    | [] => afterDigits isNegative whole none []

/-- A word behind its first letter: it must stand there in full. -/
def wordFrom (t : Token) : List Char → Bytes → Token × Bytes
  | [], rest => (t, rest)
  | _ :: _, [] => (.badOther .truncated .truncated, [])
  | c :: cs, b :: rest => if b = octet c then wordFrom t cs rest else (.badOther .malformed .malformed, [])

/-- The token that starts with an octet, and what stands behind it. -/
def tokenFrom (b : UInt8) (rest : Bytes) : Token × Bytes :=
  if b = octet '{' then (.openBrace, rest)
  else if b = octet '}' then (.closeBrace, rest)
  else if b = octet '[' then (.openBracket, rest)
  else if b = octet ']' then (.closeBracket, rest)
  else if b = octet ',' then (.comma, rest)
  else if b = octet ':' then (.colon, rest)
  else if b = octet '"' then textFrom (some []) rest
  else if b = octet '-' then numberFrom true rest
  else if (digit? b).isSome then numberFrom false (b :: rest)
  else if b = octet 'n' then wordFrom .null ['u', 'l', 'l'] rest
  else if b = octet 't' then wordFrom (.boolean true) ['r', 'u', 'e'] rest
  else if b = octet 'f' then wordFrom (.boolean false) ['a', 'l', 's', 'e'] rest
  else (.badOther .malformed .malformed, [])

/-- The tokens of at most `fuel` octets. -/
def tokensWithin : (fuel : Nat) → Bytes → List Token
  | 0, _ => []
  | _, [] => []
  | fuel + 1, b :: rest =>
    if isBetween b then tokensWithin fuel rest
    else (tokenFrom b rest).1 :: tokensWithin fuel (tokenFrom b rest).2

/-- The tokens of a document. -/
def tokens (document : Bytes) : List Token := tokensWithin document.length document

end ClientAuth.Json
