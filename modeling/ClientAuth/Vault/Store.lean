import ClientAuth.Vault.Error

/-!
# Stores of text entries

A store maps keys to texts. `Entries` is such a map in memory, seen through `Entries.get?`; `Backing` is what any store
offers, each operation taking the state of the store and giving the next one.
-/

namespace ClientAuth

/-- Without the pairs of a key, that key has nothing and every other one has what it had. -/
theorem lookup_filter_bne {β : Type} (l : List (String × β)) (key k : String) :
    (l.filter (·.1 != key)).lookup k = if k = key then none else l.lookup k := by
  induction l with
  | nil => simp
  | cons e l ih =>
    obtain ⟨a, b⟩ := e
    by_cases ha : a = key
    · rw [List.filter_cons_of_neg (by simp [ha]), ih, ha]
      by_cases hk : k = key
      · simp [hk]
      · have hb : (k == key) = false := by simp [hk]
        simp [hk, List.lookup_cons, hb]
    · rw [List.filter_cons_of_pos (by simp [ha])]
      by_cases hk : k = a
      · simp [hk, ha]
      · have hb : (k == a) = false := by simp [hk]
        simp [List.lookup_cons, hb, ih]

/-- Texts by key, at most one for each key. -/
structure Entries where
  toList : List (String × String)
  deriving DecidableEq, Repr

namespace Entries

/-- No entry. -/
def empty : Entries := ⟨[]⟩

/-- The entry of a key. -/
def get? (s : Entries) (key : String) : Option String := s.toList.lookup key

/-- Without the entry of a key. -/
def erase (s : Entries) (key : String) : Entries := ⟨s.toList.filter (·.1 != key)⟩

/-- With an entry in the place of any former one of its key. -/
def insert (s : Entries) (key blob : String) : Entries := ⟨(key, blob) :: (s.erase key).toList⟩

/-- The number of entries. -/
def size (s : Entries) : Nat := s.toList.length

@[simp] theorem get?_empty (key : String) : empty.get? key = none := rfl

theorem get?_erase (s : Entries) (key k : String) : (s.erase key).get? k = if k = key then none else s.get? k :=
  lookup_filter_bne s.toList key k

theorem get?_insert (s : Entries) (key blob k : String) :
    (s.insert key blob).get? k = if k = key then some blob else s.get? k := by
  by_cases h : k = key
  · simp [insert, get?, h]
  · have he := s.get?_erase key k
    have hb : (k == key) = false := by simp [h]
    simp only [get?, h, if_false] at he
    simp [insert, get?, List.lookup_cons, h, hb, he]

end Entries

/-- What a store with states of type `σ` offers. -/
structure Backing (σ : Type) where
  /-- The entry of a key. -/
  load : σ → String → Except VaultError (Option String)
  /-- Puts an entry in the place of any former one. -/
  save : σ → String → String → Except VaultError Unit × σ
  /-- Removes an entry; that there is none is no failure. -/
  remove : σ → String → Except VaultError Unit × σ

/-- The store in memory. Nothing in it can fail. -/
def Backing.memory : Backing Entries where
  load s key := .ok (s.get? key)
  save s key blob := (.ok (), s.insert key blob)
  remove s key := (.ok (), s.erase key)

end ClientAuth
