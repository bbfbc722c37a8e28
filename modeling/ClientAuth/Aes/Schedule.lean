import ClientAuth.Aes.Block

/-!
# The key schedule of AES

A key of 16 or 32 octets is stretched to one block for each round and one before them. The words are made one by one
from a window that is as long as the key.
-/

namespace ClientAuth.Aes

/-- A column turned upwards by one octet. -/
def Column.turn (s : Column) : Column := ⟨s.b, s.c, s.d, s.a⟩

/-- The next `count` words behind a window. The word at a multiple of the window's length is turned, substituted and
marked with the constant of its turn; in a window of eight words the fourth behind it is substituted too. -/
def stretch (size : Nat) : (count position : Nat) → (mark : UInt8) → (window : List Column) → List Column
  | 0, _, _, _ => []
  | count + 1, position, mark, window =>
    let last := window.getLastD ⟨0, 0, 0, 0⟩
    let first := window.headD ⟨0, 0, 0, 0⟩
    let turned := position % size == 0
    let change :=
      if turned then (last.turn.map substitute).xor ⟨mark, 0, 0, 0⟩
      else if size == 8 && position % size == 4 then last.map substitute
      else last
    let word := first.xor change
    word :: stretch size count (position + 1) (if turned then double mark else mark) (window.drop 1 ++ [word])

/-- Words taken by fours as blocks. -/
def blocksOf : List Column → List Block
  | w :: x :: y :: z :: rest => ⟨w, x, y, z⟩ :: blocksOf rest
  | _ => []

/-- The schedule of a key: ten rounds for 16 octets, fourteen for 32. -/
def Schedule.ofKey (key : Bytes) : Schedule :=
  let words := (chunks 4 key).map Column.ofOctets
  let total := 4 * (words.length + 7)
  match blocksOf (words ++ stretch words.length (total - words.length) words.length 1 words) with
  | whitening :: roundKeys => ⟨whitening, roundKeys⟩
  | [] => ⟨.ofOctets [], []⟩

end ClientAuth.Aes
