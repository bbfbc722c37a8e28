import ClientAuth.Bytes

/-!
# UTF-8

`Utf8.encode` writes a text as octets. `Utf8.segments` cuts any octets into characters and ill-formed stretches, each as
long as it can be while it is still the start of a character; from these, `decode` gives the text or says where the
first ill-formed stretch is, and `decodeLossy` puts the replacement character in the place of each.
-/

namespace ClientAuth.Utf8

/-- The octets of one character. -/
def encodeChar (c : Char) : Bytes :=
  let n := c.toNat
  if n < 0x80 then [UInt8.ofNat n]
  else if n < 0x800 then [UInt8.ofNat (0xC0 + n / 64), UInt8.ofNat (0x80 + n % 64)]
  else if n < 0x10000 then
    [UInt8.ofNat (0xE0 + n / 4096), UInt8.ofNat (0x80 + n / 64 % 64), UInt8.ofNat (0x80 + n % 64)]
  else
    [UInt8.ofNat (0xF0 + n / 262144), UInt8.ofNat (0x80 + n / 4096 % 64), UInt8.ofNat (0x80 + n / 64 % 64),
      UInt8.ofNat (0x80 + n % 64)]

/-- The octets of characters. -/
def encodeChars (s : List Char) : Bytes :=
  s.flatMap encodeChar

/-- The octets of a text. -/
def encode (s : String) : Bytes :=
  encodeChars s.toList

/-- What the first octet of a character says about the rest of it. -/
inductive Lead where
  /-- The character is this octet alone. -/
  | single
  /-- One more octet follows. -/
  | two
  /-- Two more follow, the next one between the bounds. -/
  | three (low high : UInt8)
  /-- Three more follow, the next one between the bounds. -/
  | four (low high : UInt8)
  /-- No character starts with this octet. -/
  | never
  deriving DecidableEq, Repr

/-- The kind of character that starts with an octet; the bounds keep out long forms, surrogates and numbers that are
too large. -/
def lead (a : UInt8) : Lead :=
  if a < 0x80 then .single
  else if a < 0xC2 then .never
  else if a < 0xE0 then .two
  else if a = 0xE0 then .three 0xA0 0xBF
  else if a = 0xED then .three 0x80 0x9F
  else if a < 0xF0 then .three 0x80 0xBF
  else if a = 0xF0 then .four 0x90 0xBF
  else if a < 0xF4 then .four 0x80 0xBF
  else if a = 0xF4 then .four 0x80 0x8F
  else .never

/-- Whether an octet continues a character. -/
def isTail (b : UInt8) : Bool := 0x80 ≤ b && b ≤ 0xBF

/-- The six bits that a continuing octet carries. -/
def tailBits (b : UInt8) : Nat := b.toNat % 64

/-- A stretch of octets, as long as it can be. -/
inductive Segment where
  /-- The octets of a character. -/
  | char (c : Char)
  /-- That many octets start a character that the next octet does not continue. -/
  | broken (size : Nat)
  /-- The octets end within a character. -/
  | cut (size : Nat)
  deriving DecidableEq, Repr

/-- Octets cut into characters and ill-formed stretches. -/
def segments : Bytes → List Segment
  | [] => []
  | a :: r =>
    match lead a with
    | .single => .char (Char.ofNat a.toNat) :: segments r
    | .never => .broken 1 :: segments r
    | .two =>
      match r with
      | [] => [.cut 1]
      | b :: r =>
        if isTail b then .char (Char.ofNat (a.toNat % 32 * 64 + tailBits b)) :: segments r
        else .broken 1 :: segments (b :: r)
    | .three low high =>
      match r with
      | [] => [.cut 1]
      | b :: r =>
        if low ≤ b && b ≤ high then
          match r with
          | [] => [.cut 2]
          | c :: r =>
            if isTail c then
              .char (Char.ofNat ((a.toNat % 16 * 64 + tailBits b) * 64 + tailBits c)) :: segments r
            else .broken 2 :: segments (c :: r)
        else .broken 1 :: segments (b :: r)
    | .four low high =>
      match r with
      | [] => [.cut 1]
      | b :: r =>
        if low ≤ b && b ≤ high then
          match r with
          | [] => [.cut 2]
          | c :: r =>
            if isTail c then
              match r with
              | [] => [.cut 3]
              | d :: r =>
                if isTail d then
                  .char (Char.ofNat (((a.toNat % 8 * 64 + tailBits b) * 64 + tailBits c) * 64 + tailBits d)) ::
                    segments r
                else .broken 3 :: segments (d :: r)
            else .broken 2 :: segments (c :: r)
        else .broken 1 :: segments (b :: r)

/-- Why octets are not text, and how many octets of text stand before the place. -/
inductive Error where
  /-- An ill-formed stretch of that many octets. -/
  | invalid (size index : Nat)
  /-- The octets end within a character. -/
  | incomplete (index : Nat)
  deriving DecidableEq, Repr

/-- What is said about octets that are not text. -/
def Error.message : Error → String
  | invalid size index => s!"invalid utf-8 sequence of {size} bytes from index {index}"
  | incomplete index => s!"incomplete utf-8 byte sequence from index {index}"

/-- The characters of segments that start at an index, if all of them are characters. -/
def charsOf (index : Nat) : List Segment → Except Error (List Char)
  | [] => .ok []
  | .char c :: rest => (charsOf (index + (encodeChar c).length) rest).map (c :: ·)
  | .broken size :: _ => .error (.invalid size index)
  | .cut _ :: _ => .error (.incomplete index)

/-- The characters that octets encode. -/
def decodeChars (bs : Bytes) : Except Error (List Char) :=
  charsOf 0 (segments bs)

/-- The text that octets encode. -/
def decode (bs : Bytes) : Except Error String :=
  (decodeChars bs).map String.ofList

/-- The replacement character. -/
def replacement : Char := '\uFFFD'

/-- A segment as a character, an ill-formed one as the replacement character. -/
def Segment.toChar : Segment → Char
  | char c => c
  | broken _ | cut _ => replacement

/-- The text of any octets, with the replacement character in the place of each ill-formed stretch. -/
def decodeLossy (bs : Bytes) : String :=
  String.ofList ((segments bs).map Segment.toChar)

end ClientAuth.Utf8
