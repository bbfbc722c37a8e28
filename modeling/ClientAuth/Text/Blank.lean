/-!
# Blank characters

Blank are the characters of the Unicode property White_Space. `trim` takes them off both ends of a text, `firstWord?`
gives the first run of other characters, and `isAsciiBlank` is the smaller set that encoded text may be wrapped with.
-/

namespace ClientAuth.Text

/-- The Unicode property White_Space. -/
def isBlank (c : Char) : Bool :=
  let n := c.toNat
  (9 ≤ n && n ≤ 13) || n == 0x20 || n == 0x85 || n == 0xA0 || n == 0x1680 || (0x2000 ≤ n && n ≤ 0x200A) ||
    n == 0x2028 || n == 0x2029 || n == 0x202F || n == 0x205F || n == 0x3000

/-- Space, tab, line feed, form feed and carriage return: the blanks that armour and line wrapping put into encoded text.
The vertical tab is not one of them. -/
def isAsciiBlank (c : Char) : Bool :=
  let n := c.toNat
  n == 0x20 || n == 9 || n == 10 || n == 12 || n == 13

/-- A text without the blanks that it ends with. -/
def trimEnd (s : List Char) : List Char :=
  (s.reverse.dropWhile isBlank).reverse

/-- A text without the blanks around it. -/
def trimChars (s : List Char) : List Char :=
  trimEnd (s.dropWhile isBlank)

/-- A text without the blanks around it. -/
def trim (s : String) : String :=
  String.ofList (trimChars s.toList)

/-- Nothing but blanks. -/
def isBlankText (s : String) : Bool :=
  s.toList.all isBlank

/-- The first run of characters that are not blank; a blank text has none. -/
def firstWord? (s : List Char) : Option (List Char) :=
  match s.dropWhile isBlank with
  | [] => none
  | c :: rest => some ((c :: rest).takeWhile (!isBlank ·))

end ClientAuth.Text
