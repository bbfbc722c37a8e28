import ClientAuth.Proofs.Encoding.Numeral

/-!
# Values of any kind in a document

A `Tree` is a value as it stands in a document: numbers may be of any size and precision, the members of an object stand in
any order, and a name may occur more than once. A written tree is cut into its tokens (`Tree.lexes`), and it is passed over
as a whole, whatever it holds and however deep it is nested (`Tree.skipValue_tokens`).
-/

namespace ClientAuth.Json

/-- A value of any kind as it is written. -/
inductive Tree where
  | null
  | boolean (b : Bool)
  | number (n : Numeral) (h : n.WellFormed)
  | text (s : String)
  | array (items : List Tree)
  | object (members : List (String × Tree))

namespace Tree

/-- The tree of a whole number of 64 bits. -/
def natural (n : UInt64) : Tree := number (.natural n) (Numeral.wellFormed_natural n)

mutual

/-- Writes a tree. -/
def write : Tree → List Char
  | null => ['n', 'u', 'l', 'l']
  | boolean true => ['t', 'r', 'u', 'e']
  | boolean false => ['f', 'a', 'l', 's', 'e']
  | number n _ => n.write
  | text s => writeText s
  | array items => '[' :: commaSeparated (writeItems items) ++ [']']
  | object members => '{' :: commaSeparated (writeMembers members) ++ ['}']

/-- Writes items. -/
def writeItems : List Tree → List (List Char)
  | [] => []
  | t :: rest => t.write :: writeItems rest

/-- Writes members with their names. -/
def writeMembers : List (String × Tree) → List (List Char)
  | [] => []
  | (name, t) :: rest => (writeText name ++ ':' :: t.write) :: writeMembers rest

end

mutual

/-- The tokens of a tree. -/
def tokens : Tree → List Token
  | null => [.null]
  | boolean b => [.boolean b]
  | number n _ => [.number n.number?]
  | text s => [.text (some s)]
  | array items => .openBracket :: commaTokens (itemTokens items) ++ [.closeBracket]
  | object members => .openBrace :: commaTokens (entryTokens members) ++ [.closeBrace]

/-- The tokens of items. -/
def itemTokens : List Tree → List (List Token)
  | [] => []
  | t :: rest => t.tokens :: itemTokens rest

/-- The tokens of members with their names. -/
def entryTokens : List (String × Tree) → List (List Token)
  | [] => []
  | (name, t) :: rest => memberTokens (name, t.tokens) :: entryTokens rest

end

/-- A document of a tree. -/
def print (t : Tree) : String := String.ofList t.write

theorem writeItems_eq_map (items : List Tree) : writeItems items = items.map write := by
  induction items with
  | nil => rfl
  | cons t rest ih => rw [writeItems, ih, List.map_cons]

theorem writeMembers_eq_map (ms : List (String × Tree)) :
    writeMembers ms = ms.map fun m => writeText m.1 ++ ':' :: m.2.write := by
  induction ms with
  | nil => rfl
  | cons m rest ih => rw [writeMembers, ih, List.map_cons]

theorem itemTokens_eq_map (items : List Tree) : itemTokens items = items.map tokens := by
  induction items with
  | nil => rfl
  | cons t rest ih => rw [itemTokens, ih, List.map_cons]

theorem entryTokens_eq_map (ms : List (String × Tree)) :
    entryTokens ms = (ms.map fun m => (m.1, m.2.tokens)).map memberTokens := by
  induction ms with
  | nil => rfl
  | cons m rest ih => rw [entryTokens, ih, List.map_cons, List.map_cons]

theorem write_natural (n : UInt64) : (natural n).write = (toString n.toNat).toList := by
  rw [natural, write, Numeral.write_natural]

theorem tokens_natural (n : UInt64) : (natural n).tokens = [.number (some (.natural n))] := by
  rw [natural, tokens, Numeral.number?_natural]

/-- What holds of a tree when it holds of what stands in it holds of every tree. -/
theorem induction {P : Tree → Prop} (null : P .null) (boolean : ∀ b, P (.boolean b)) (number : ∀ n h, P (.number n h))
    (text : ∀ s, P (.text s)) (array : ∀ items, (∀ t ∈ items, P t) → P (.array items))
    (object : ∀ ms, (∀ m ∈ ms, P m.2) → P (.object ms)) (t : Tree) : P t := by
  -- the motives are for trees, items, members and a single member
  refine Tree.rec (motive_1 := P) (motive_2 := fun items => ∀ t ∈ items, P t) (motive_3 := fun ms => ∀ m ∈ ms, P m.2)
    (motive_4 := fun m => P m.2) null boolean number text array object ?_ ?_ ?_ ?_ ?_ t
  · exact fun t ht => nomatch ht
  · exact fun t items ht hitems => List.forall_mem_cons.2 ⟨ht, hitems⟩
  · exact fun m hm => nomatch hm
  · exact fun m ms hm hms => List.forall_mem_cons.2 ⟨hm, hms⟩
  · exact fun _ t ht => ht

/-- A written tree is cut into its tokens. -/
theorem lexes (t : Tree) : Lexes t.write t.tokens := by
  induction t using Tree.induction with
  | null => exact Lexes.word (by decide)
  | boolean b =>
    cases b with
    | true => exact Lexes.word (by decide)
    | false => exact Lexes.word (by decide)
  | number n h => exact Lexes.numeral h
  | text s => exact Lexes.text s
  | array items ih =>
    rw [write, tokens, writeItems_eq_map, itemTokens_eq_map]
    exact Lexes.cons (by decide) (lexes_commaSeparated (t := .closeBracket) (by decide) items ih)
  | object ms ih =>
    rw [write, tokens, writeMembers_eq_map, entryTokens_eq_map, List.map_map]
    exact Lexes.cons (by decide)
      (lexes_commaSeparated (t := .closeBrace) (by decide) ms fun m hm => (ih m hm).member m.1)

/-! ## Passing over a tree -/

/-- What is left to pass over behind a value within enclosures. -/
def passed (within : List Enclosure) (more : List Token) : Except Error (List Token) :=
  if within.isEmpty then .ok more else skipFrom .separator within more

/-- A tree is passed over where a value may stand. -/
def Skips (ts : List Token) : Prop :=
  ∀ due within more, due = .value ∨ due = .valueOrEnd → skipFrom due within (ts ++ more) = passed within more

/-- Items behind a passed one are passed over, and the end of their array. -/
theorem skip_items {items : List (List Token)} (hitems : ∀ ts ∈ items, Skips ts) (within : List Enclosure)
    (more : List Token) :
    skipFrom .separator (.array :: within) (items.flatMap (.comma :: ·) ++ .closeBracket :: more) =
      passed within more := by
  induction items with
  | nil =>
    rw [List.flatMap_nil, List.nil_append, skipFrom]
    rfl
  | cons ts items ih =>
    have hrest := ih fun us hus => hitems us (List.mem_cons_of_mem _ hus)
    have hfirst := hitems ts List.mem_cons_self .value (.array :: within)
      (items.flatMap (.comma :: ·) ++ .closeBracket :: more) (Or.inl rfl)
    rw [List.flatMap_cons, List.append_assoc, List.cons_append, skipFrom]
    exact hfirst.trans hrest

/-- An array of items that are passed over is passed over. -/
theorem skips_array {items : List (List Token)} (hitems : ∀ ts ∈ items, Skips ts) :
    Skips (.openBracket :: commaTokens items ++ [.closeBracket]) := by
  intro due within more hdue
  have hopen (ts : List Token) :
      skipFrom due within (.openBracket :: ts) = skipFrom .valueOrEnd (.array :: within) ts := by
    rcases hdue with rfl | rfl <;> rw [skipFrom]
  rw [List.append_assoc, List.singleton_append, List.cons_append, hopen]
  cases items with
  | nil =>
    rw [commaTokens, List.nil_append, skipFrom]
    rfl
  | cons ts items =>
    have hfirst := hitems ts List.mem_cons_self .valueOrEnd (.array :: within)
      (items.flatMap (.comma :: ·) ++ .closeBracket :: more) (Or.inr rfl)
    have hrest := skip_items (fun us hus => hitems us (List.mem_cons_of_mem _ hus)) within more
    rw [commaTokens_cons, List.append_assoc]
    exact hfirst.trans hrest

/-- A member is passed over where a name may stand. -/
theorem skip_member {e : String × List Token} (he : Skips e.2) {due : Due} (hdue : due = .key ∨ due = .keyOrEnd)
    (within : List Enclosure) (more : List Token) :
    skipFrom due within (memberTokens e ++ more) = passed within more := by
  have hvalue := he .value within more (Or.inl rfl)
  rw [memberTokens, List.cons_append, List.cons_append]
  rcases hdue with rfl | rfl
  · rw [skipFrom, skipFrom, if_pos rfl, hvalue]
  · rw [skipFrom, skipFrom, if_pos rfl, hvalue]

/-- Members behind a passed one are passed over, and the end of their object. -/
theorem skip_members {es : List (String × List Token)} (hes : ∀ e ∈ es, Skips e.2) (within : List Enclosure)
    (more : List Token) :
    skipFrom .separator (.object :: within) ((es.map memberTokens).flatMap (.comma :: ·) ++ .closeBrace :: more) =
      passed within more := by
  induction es with
  | nil =>
    rw [List.map_nil, List.flatMap_nil, List.nil_append, skipFrom]
    rfl
  | cons e es ih =>
    have hrest := ih fun f hf => hes f (List.mem_cons_of_mem _ hf)
    have hfirst := skip_member (hes e List.mem_cons_self) (Or.inl rfl) (.object :: within)
      ((es.map memberTokens).flatMap (.comma :: ·) ++ .closeBrace :: more)
    rw [List.map_cons, List.flatMap_cons, List.append_assoc, List.cons_append, skipFrom]
    exact hfirst.trans hrest

/-- An object of members that are passed over is passed over. -/
theorem skips_object {es : List (String × List Token)} (hes : ∀ e ∈ es, Skips e.2) :
    Skips (.openBrace :: commaTokens (es.map memberTokens) ++ [.closeBrace]) := by
  intro due within more hdue
  have hopen (ts : List Token) :
      skipFrom due within (.openBrace :: ts) = skipFrom .keyOrEnd (.object :: within) ts := by
    rcases hdue with rfl | rfl <;> rw [skipFrom]
  rw [List.append_assoc, List.singleton_append, List.cons_append, hopen]
  cases es with
  | nil =>
    rw [List.map_nil, commaTokens, List.nil_append, skipFrom]
    rfl
  | cons e es =>
    have hfirst := skip_member (hes e List.mem_cons_self) (Or.inr rfl) (.object :: within)
      ((es.map memberTokens).flatMap (.comma :: ·) ++ .closeBrace :: more)
    have hrest := skip_members (fun f hf => hes f (List.mem_cons_of_mem _ hf)) within more
    rw [List.map_cons, commaTokens_cons, List.append_assoc]
    exact hfirst.trans hrest

/-- A token that is a value by itself is passed over. -/
theorem skips_one {t : Token} (ht : t = .null ∨ (∃ b, t = .boolean b) ∨ (∃ n, t = .number n) ∨ ∃ s, t = .text s) :
    Skips [t] := by
  intro due within more hdue
  rcases ht with rfl | ⟨b, rfl⟩ | ⟨n, rfl⟩ | ⟨s, rfl⟩ <;> rcases hdue with rfl | rfl <;>
    rw [List.singleton_append, skipFrom] <;> rfl

/-- A tree is passed over as a whole. -/
theorem skips_tokens (t : Tree) : Skips t.tokens := by
  induction t using Tree.induction with
  | null => exact skips_one (Or.inl rfl)
  | boolean b => exact skips_one (Or.inr (Or.inl ⟨b, rfl⟩))
  | number n h => exact skips_one (Or.inr (Or.inr (Or.inl ⟨_, rfl⟩)))
  | text s => exact skips_one (Or.inr (Or.inr (Or.inr ⟨_, rfl⟩)))
  | array items ih =>
    rw [tokens, itemTokens_eq_map]
    exact skips_array (List.forall_mem_map.2 ih)
  | object ms ih =>
    rw [tokens, entryTokens_eq_map]
    exact skips_object (List.forall_mem_map.2 ih)

theorem skipValue_tokens (t : Tree) (more : List Token) : skipValue (t.tokens ++ more) = .ok more :=
  t.skips_tokens .value [] more (Or.inl rfl)

end Tree

end ClientAuth.Json
