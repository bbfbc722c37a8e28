/-!
# Byte strings and their hexadecimal text

A byte string is a list of octets; `chunks` cuts it up, `xorBytes` combines two, and `combineFront` combines one with as
much of another as there is room for. `Hex.encode` writes each octet as two
lower-case digits, which is how entry files, obfuscated values and keys are named in text, and `Hex.decode?` reads such
text back, in either case of letters. Main statements: nothing is lost by cutting (`flatten_chunks`) or by writing in
hexadecimal (`Hex.decode?_encode`).
-/

namespace ClientAuth

/-- A byte string. -/
abbrev Bytes := List UInt8

/-- A list cut into stretches of `size`, the last of which may be shorter. -/
def chunks {α : Type} (size : Nat) (l : List α) : List (List α) :=
  if l.isEmpty || size == 0 then [] else l.take size :: chunks size (l.drop size)
  termination_by l.length
  decreasing_by cases l <;> simp_all; omega

/-- The stretches put together again are the whole list. -/
theorem flatten_chunks {α : Type} {size : Nat} (h : size ≠ 0) (l : List α) : (chunks size l).flatten = l := by
  fun_induction chunks size l with
  | case1 l hl => grind
  | case2 l hl ih => rw [List.flatten_cons, ih, List.take_append_drop]

/-- Position by position the exclusive or of two byte strings, as long as the shorter of them. -/
def xorBytes (a b : Bytes) : Bytes :=
  List.zipWith (· ^^^ ·) a b

/-- Combines the front of a byte string with another one, octet by octet as far as both go, and leaves what is behind. -/
def combineFront (f : UInt8 → UInt8 → UInt8) : Bytes → Bytes → Bytes
  | [], _ => []
  | slots, [] => slots
  | slot :: slots, b :: bs => f slot b :: combineFront f slots bs

theorem length_combineFront (f : UInt8 → UInt8 → UInt8) (slots bs : Bytes) :
    (combineFront f slots bs).length = slots.length := by
  fun_induction combineFront f slots bs with
  | case1 bs => rfl
  | case2 slots hslots => rfl
  | case3 slot slots b bs ih => rw [List.length_cons, ih, List.length_cons]

/-- To write octets over the front of others is to put what fits of them before the rest. -/
theorem combineFront_write (slots bs : Bytes) :
    combineFront (fun _ b => b) slots bs = bs.take slots.length ++ slots.drop bs.length := by
  fun_induction combineFront (fun _ b => b) slots bs with
  | case1 bs => rw [List.length_nil, List.take_zero, List.drop_nil, List.append_nil]
  | case2 slots hslots => rw [List.take_nil, List.length_nil, List.drop_zero, List.nil_append]
  | case3 slot slots b bs ih =>
    rw [ih]
    rfl

/-- Octets all of which have a partner are combined as a pair of strings is. -/
theorem combineFront_eq_zipWith {f : UInt8 → UInt8 → UInt8} {slots bs : Bytes} (h : slots.length ≤ bs.length) :
    combineFront f slots bs = List.zipWith f slots bs := by
  fun_induction combineFront f slots bs with
  | case1 bs => rfl
  | case2 slots hslots =>
    cases slots with
    | nil => rfl
    | cons slot slots => cases h
  | case3 slot slots b bs ih => rw [ih (Nat.le_of_succ_le_succ h), List.zipWith_cons_cons]

namespace Hex

/-- The digit of a number below sixteen, in lower case. -/
def digit (n : Nat) : Char :=
  if n < 10 then Char.ofNat (48 + n) else Char.ofNat (87 + n)

/-- The number that a hexadecimal digit of either case stands for. -/
def value? (c : Char) : Option Nat :=
  let n := c.toNat
  if 48 ≤ n ∧ n ≤ 57 then some (n - 48)
  else if 97 ≤ n ∧ n ≤ 102 then some (n - 87)
  else if 65 ≤ n ∧ n ≤ 70 then some (n - 55)
  else none

/-- Two digits for one octet, the high half first. -/
def ofByte (b : UInt8) : List Char :=
  [digit (b.toNat / 16), digit (b.toNat % 16)]

/-- The hexadecimal text of a byte string. -/
def encode (bs : Bytes) : String :=
  String.ofList (bs.flatMap ofByte)

/-- Reads pairs of digits; an odd digit or another character is refused. -/
def decodeChars? : List Char → Option Bytes
  | [] => some []
  | [_] => none
  | c :: d :: rest =>
    match value? c, value? d, decodeChars? rest with
    | some h, some l, some bs => some (UInt8.ofNat (h * 16 + l) :: bs)
    | _, _, _ => none

/-- The byte string that a hexadecimal text stands for, if it is one. -/
def decode? (s : String) : Option Bytes :=
  decodeChars? s.toList

/-- A digit stands for the number that it was written for. -/
theorem value?_digit : ∀ {n : Nat}, n < 16 → value? (digit n) = some n := by decide

theorem decodeChars?_flatMap_ofByte (bs : Bytes) : decodeChars? (bs.flatMap ofByte) = some bs := by
  induction bs with
  | nil => rfl
  | cons b bs ih =>
    have hb := b.toNat_lt
    have hh : value? (digit (b.toNat / 16)) = some (b.toNat / 16) := value?_digit (by omega)
    have hl : value? (digit (b.toNat % 16)) = some (b.toNat % 16) := value?_digit (by omega)
    have hs : b.toNat / 16 * 16 + b.toNat % 16 = b.toNat := by omega
    simp [ofByte, decodeChars?, ih, hh, hl, hs]

/-- Reading what was written gives the octets back. -/
theorem decode?_encode (bs : Bytes) : decode? (encode bs) = some bs := by
  rw [decode?, encode, String.toList_ofList, decodeChars?_flatMap_ofByte]

end Hex

end ClientAuth
