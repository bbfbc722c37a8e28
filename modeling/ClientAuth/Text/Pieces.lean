/-!
# Cutting text at a character or at a word

`pieces` cuts at every separator and keeps the empty pieces, so that joining them again gives the text back
(`intercalate_pieces`).
`cutAt?` cuts once, at the first separator, and `mentions` tells whether a word occurs anywhere.
-/

namespace ClientAuth.Text

/-- The pieces between the separators of a text: one more than there are separators, empty ones included. -/
def pieces (sep : Char) : List Char → List (List Char)
  | [] => [[]]
  | c :: rest =>
    if c = sep then [] :: pieces sep rest
    else
      match pieces sep rest with
      | [] => [[c]]
      | p :: ps => (c :: p) :: ps

theorem pieces_ne_nil (sep : Char) (s : List Char) : pieces sep s ≠ [] := by
  cases s with
  | nil => simp [pieces]
  | cons c rest => grind [pieces]

/-- No piece holds the separator. -/
theorem not_mem_of_mem_pieces {sep : Char} {s p : List Char} (h : p ∈ pieces sep s) : sep ∉ p := by
  induction s generalizing p with
  | nil => simp_all [pieces]
  | cons c rest ih =>
    by_cases hc : c = sep
    · grind [pieces]
    · cases hp : pieces sep rest with
      | nil => exact absurd hp (pieces_ne_nil sep rest)
      | cons q qs => grind [pieces]

/-- The pieces with the separator between them again are the text. -/
theorem intercalate_pieces (sep : Char) (s : List Char) : [sep].intercalate (pieces sep s) = s := by
  induction s with
  | nil => simp [pieces, List.intercalate]
  | cons c rest ih =>
    cases hp : pieces sep rest with
    | nil => exact absurd hp (pieces_ne_nil sep rest)
    | cons q qs =>
      rw [hp] at ih
      by_cases hc : c = sep
      · simp [pieces, hc, hp, List.intercalate] at ih ⊢
        exact ih
      · cases qs <;> simp_all [pieces, List.intercalate, List.intersperse]

/-- What stands before and after the first separator; a text without one is not cut. -/
def cutAt? (sep : Char) : List Char → Option (List Char × List Char)
  | [] => none
  | c :: rest =>
    if c = sep then some ([], rest)
    else (cutAt? sep rest).map fun cut => (c :: cut.1, cut.2)

/-- Whether a word occurs in a text. -/
def mentions (word : List Char) : List Char → Bool
  | [] => word.isEmpty
  | c :: rest => word.isPrefixOf (c :: rest) || mentions word rest

end ClientAuth.Text
