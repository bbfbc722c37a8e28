import ClientAuth.Bytes

/-!
# AES on one block

A block is four columns of four octets. Each step of a round has its inverse beside it: the substitution of octets, the
turn of the rows, the mixing of the columns, and the addition of a round key, which undoes itself. `encrypt` runs the
rounds of a key schedule and `decrypt` runs them back.
-/

namespace ClientAuth.Aes

/-- Four octets of a block, from top to bottom. -/
structure Column where
  a : UInt8
  b : UInt8
  c : UInt8
  d : UInt8
  deriving DecidableEq, Repr

/-- Four columns, from left to right. -/
structure Block where
  w : Column
  x : Column
  y : Column
  z : Column
  deriving DecidableEq, Repr

/-- The same function on every octet of a column. -/
def Column.map (f : UInt8 → UInt8) (s : Column) : Column := ⟨f s.a, f s.b, f s.c, f s.d⟩

/-- The exclusive or of two columns. -/
def Column.xor (s t : Column) : Column := ⟨s.a ^^^ t.a, s.b ^^^ t.b, s.c ^^^ t.c, s.d ^^^ t.d⟩

/-- The octets of a column. -/
def Column.octets (s : Column) : Bytes := [s.a, s.b, s.c, s.d]

/-- A column of octets; missing ones count as zero. -/
def Column.ofOctets (bs : Bytes) : Column := ⟨bs.getD 0 0, bs.getD 1 0, bs.getD 2 0, bs.getD 3 0⟩

namespace Block

/-- The same function on every column. -/
def mapColumns (f : Column → Column) (s : Block) : Block := ⟨f s.w, f s.x, f s.y, f s.z⟩

/-- The exclusive or of two blocks. -/
def xor (s t : Block) : Block := ⟨s.w.xor t.w, s.x.xor t.x, s.y.xor t.y, s.z.xor t.z⟩

/-- The sixteen octets of a block. -/
def octets (s : Block) : Bytes := s.w.octets ++ s.x.octets ++ s.y.octets ++ s.z.octets

/-- A block of octets; missing ones count as zero. -/
def ofOctets (bs : Bytes) : Block :=
  ⟨.ofOctets bs, .ofOctets (bs.drop 4), .ofOctets (bs.drop 8), .ofOctets (bs.drop 12)⟩

end Block

/-- The number of octets in a block. -/
def blockSize : Nat := 16

/-- What each octet is substituted by: its inverse in the field of 256 elements, under an affine map. -/
def substitution : Array UInt8 :=
  #[0x63, 0x7c, 0x77, 0x7b, 0xf2, 0x6b, 0x6f, 0xc5, 0x30, 0x01, 0x67, 0x2b, 0xfe, 0xd7, 0xab, 0x76,
    0xca, 0x82, 0xc9, 0x7d, 0xfa, 0x59, 0x47, 0xf0, 0xad, 0xd4, 0xa2, 0xaf, 0x9c, 0xa4, 0x72, 0xc0,
    0xb7, 0xfd, 0x93, 0x26, 0x36, 0x3f, 0xf7, 0xcc, 0x34, 0xa5, 0xe5, 0xf1, 0x71, 0xd8, 0x31, 0x15,
    0x04, 0xc7, 0x23, 0xc3, 0x18, 0x96, 0x05, 0x9a, 0x07, 0x12, 0x80, 0xe2, 0xeb, 0x27, 0xb2, 0x75,
    0x09, 0x83, 0x2c, 0x1a, 0x1b, 0x6e, 0x5a, 0xa0, 0x52, 0x3b, 0xd6, 0xb3, 0x29, 0xe3, 0x2f, 0x84,
    0x53, 0xd1, 0x00, 0xed, 0x20, 0xfc, 0xb1, 0x5b, 0x6a, 0xcb, 0xbe, 0x39, 0x4a, 0x4c, 0x58, 0xcf,
    0xd0, 0xef, 0xaa, 0xfb, 0x43, 0x4d, 0x33, 0x85, 0x45, 0xf9, 0x02, 0x7f, 0x50, 0x3c, 0x9f, 0xa8,
    0x51, 0xa3, 0x40, 0x8f, 0x92, 0x9d, 0x38, 0xf5, 0xbc, 0xb6, 0xda, 0x21, 0x10, 0xff, 0xf3, 0xd2,
    0xcd, 0x0c, 0x13, 0xec, 0x5f, 0x97, 0x44, 0x17, 0xc4, 0xa7, 0x7e, 0x3d, 0x64, 0x5d, 0x19, 0x73,
    0x60, 0x81, 0x4f, 0xdc, 0x22, 0x2a, 0x90, 0x88, 0x46, 0xee, 0xb8, 0x14, 0xde, 0x5e, 0x0b, 0xdb,
    0xe0, 0x32, 0x3a, 0x0a, 0x49, 0x06, 0x24, 0x5c, 0xc2, 0xd3, 0xac, 0x62, 0x91, 0x95, 0xe4, 0x79,
    0xe7, 0xc8, 0x37, 0x6d, 0x8d, 0xd5, 0x4e, 0xa9, 0x6c, 0x56, 0xf4, 0xea, 0x65, 0x7a, 0xae, 0x08,
    0xba, 0x78, 0x25, 0x2e, 0x1c, 0xa6, 0xb4, 0xc6, 0xe8, 0xdd, 0x74, 0x1f, 0x4b, 0xbd, 0x8b, 0x8a,
    0x70, 0x3e, 0xb5, 0x66, 0x48, 0x03, 0xf6, 0x0e, 0x61, 0x35, 0x57, 0xb9, 0x86, 0xc1, 0x1d, 0x9e,
    0xe1, 0xf8, 0x98, 0x11, 0x69, 0xd9, 0x8e, 0x94, 0x9b, 0x1e, 0x87, 0xe9, 0xce, 0x55, 0x28, 0xdf,
    0x8c, 0xa1, 0x89, 0x0d, 0xbf, 0xe6, 0x42, 0x68, 0x41, 0x99, 0x2d, 0x0f, 0xb0, 0x54, 0xbb, 0x16]

/-- What each octet was substituted for. -/
def inverseSubstitution : Array UInt8 :=
  #[0x52, 0x09, 0x6a, 0xd5, 0x30, 0x36, 0xa5, 0x38, 0xbf, 0x40, 0xa3, 0x9e, 0x81, 0xf3, 0xd7, 0xfb,
    0x7c, 0xe3, 0x39, 0x82, 0x9b, 0x2f, 0xff, 0x87, 0x34, 0x8e, 0x43, 0x44, 0xc4, 0xde, 0xe9, 0xcb,
    0x54, 0x7b, 0x94, 0x32, 0xa6, 0xc2, 0x23, 0x3d, 0xee, 0x4c, 0x95, 0x0b, 0x42, 0xfa, 0xc3, 0x4e,
    0x08, 0x2e, 0xa1, 0x66, 0x28, 0xd9, 0x24, 0xb2, 0x76, 0x5b, 0xa2, 0x49, 0x6d, 0x8b, 0xd1, 0x25,
    0x72, 0xf8, 0xf6, 0x64, 0x86, 0x68, 0x98, 0x16, 0xd4, 0xa4, 0x5c, 0xcc, 0x5d, 0x65, 0xb6, 0x92,
    0x6c, 0x70, 0x48, 0x50, 0xfd, 0xed, 0xb9, 0xda, 0x5e, 0x15, 0x46, 0x57, 0xa7, 0x8d, 0x9d, 0x84,
    0x90, 0xd8, 0xab, 0x00, 0x8c, 0xbc, 0xd3, 0x0a, 0xf7, 0xe4, 0x58, 0x05, 0xb8, 0xb3, 0x45, 0x06,
    0xd0, 0x2c, 0x1e, 0x8f, 0xca, 0x3f, 0x0f, 0x02, 0xc1, 0xaf, 0xbd, 0x03, 0x01, 0x13, 0x8a, 0x6b,
    0x3a, 0x91, 0x11, 0x41, 0x4f, 0x67, 0xdc, 0xea, 0x97, 0xf2, 0xcf, 0xce, 0xf0, 0xb4, 0xe6, 0x73,
    0x96, 0xac, 0x74, 0x22, 0xe7, 0xad, 0x35, 0x85, 0xe2, 0xf9, 0x37, 0xe8, 0x1c, 0x75, 0xdf, 0x6e,
    0x47, 0xf1, 0x1a, 0x71, 0x1d, 0x29, 0xc5, 0x89, 0x6f, 0xb7, 0x62, 0x0e, 0xaa, 0x18, 0xbe, 0x1b,
    0xfc, 0x56, 0x3e, 0x4b, 0xc6, 0xd2, 0x79, 0x20, 0x9a, 0xdb, 0xc0, 0xfe, 0x78, 0xcd, 0x5a, 0xf4,
    0x1f, 0xdd, 0xa8, 0x33, 0x88, 0x07, 0xc7, 0x31, 0xb1, 0x12, 0x10, 0x59, 0x27, 0x80, 0xec, 0x5f,
    0x60, 0x51, 0x7f, 0xa9, 0x19, 0xb5, 0x4a, 0x0d, 0x2d, 0xe5, 0x7a, 0x9f, 0x93, 0xc9, 0x9c, 0xef,
    0xa0, 0xe0, 0x3b, 0x4d, 0xae, 0x2a, 0xf5, 0xb0, 0xc8, 0xeb, 0xbb, 0x3c, 0x83, 0x53, 0x99, 0x61,
    0x17, 0x2b, 0x04, 0x7e, 0xba, 0x77, 0xd6, 0x26, 0xe1, 0x69, 0x14, 0x63, 0x55, 0x21, 0x0c, 0x7d]

/-- Substitutes an octet. -/
def substitute (b : UInt8) : UInt8 := substitution.getD b.toNat 0

/-- Undoes `substitute`. -/
def unsubstitute (b : UInt8) : UInt8 := inverseSubstitution.getD b.toNat 0

/-- Substitutes all octets. -/
def substituteAll (s : Block) : Block := s.mapColumns (·.map substitute)

/-- Undoes `substituteAll`. -/
def unsubstituteAll (s : Block) : Block := s.mapColumns (·.map unsubstitute)

/-- Turns each row to the left by its number. -/
def turnRows (s : Block) : Block :=
  ⟨⟨s.w.a, s.x.b, s.y.c, s.z.d⟩,
   ⟨s.x.a, s.y.b, s.z.c, s.w.d⟩,
   ⟨s.y.a, s.z.b, s.w.c, s.x.d⟩,
   ⟨s.z.a, s.w.b, s.x.c, s.y.d⟩⟩

/-- Turns each row back to the right. -/
def turnRowsBack (s : Block) : Block :=
  ⟨⟨s.w.a, s.z.b, s.y.c, s.x.d⟩,
   ⟨s.x.a, s.w.b, s.z.c, s.y.d⟩,
   ⟨s.y.a, s.x.b, s.w.c, s.z.d⟩,
   ⟨s.z.a, s.y.b, s.x.c, s.w.d⟩⟩

/-- Twice an element of the field of 256 elements. -/
def double (b : UInt8) : UInt8 := if b < 0x80 then b <<< 1 else (b <<< 1) ^^^ 0x1b

/-- Mixes a column: each octet becomes the sum of twice itself, three times the next, and the other two. -/
def mix (s : Column) : Column :=
  ⟨double s.a ^^^ (double s.b ^^^ s.b) ^^^ s.c ^^^ s.d,
   s.a ^^^ double s.b ^^^ (double s.c ^^^ s.c) ^^^ s.d,
   s.a ^^^ s.b ^^^ double s.c ^^^ (double s.d ^^^ s.d),
   (double s.a ^^^ s.a) ^^^ s.b ^^^ s.c ^^^ double s.d⟩

/-- Fourteen, eleven, thirteen and nine times the four elements, summed. -/
def unmixRow (a b c d : UInt8) : UInt8 :=
  double (double (double (a ^^^ b ^^^ c ^^^ d) ^^^ a ^^^ c) ^^^ a ^^^ b) ^^^ b ^^^ c ^^^ d

/-- Undoes `mix`. -/
def unmix (s : Column) : Column :=
  ⟨unmixRow s.a s.b s.c s.d, unmixRow s.b s.c s.d s.a, unmixRow s.c s.d s.a s.b, unmixRow s.d s.a s.b s.c⟩

/-- The rounds of encryption with the keys left; the last round does not mix the columns. -/
def rounds : List Block → Block → Block
  | [], s => s
  | [key], s => (turnRows (substituteAll s)).xor key
  | key :: keys, s => rounds keys (((turnRows (substituteAll s)).mapColumns mix).xor key)

/-- Undoes `rounds`. -/
def unrounds : List Block → Block → Block
  | [], s => s
  | [key], s => unsubstituteAll (turnRowsBack (s.xor key))
  | key :: keys, s => unsubstituteAll (turnRowsBack (((unrounds keys s).xor key).mapColumns unmix))

/-- A key schedule: the key that is added before the rounds, and one for each round. -/
structure Schedule where
  whitening : Block
  roundKeys : List Block
  deriving DecidableEq, Repr

/-- Encrypts a block. -/
def encrypt (k : Schedule) (s : Block) : Block := rounds k.roundKeys (s.xor k.whitening)

/-- Decrypts a block. -/
def decrypt (k : Schedule) (s : Block) : Block := (unrounds k.roundKeys s).xor k.whitening

end ClientAuth.Aes
