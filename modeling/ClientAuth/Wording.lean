/-!
# What failures say

A failure is told as a chain: its own wording, then the wording of what caused it, down to the root cause. A wording is
absent where it belongs to the operating system or to the reader of a foreign format and is not fixed here.
-/

namespace ClientAuth

/-- The wording of one failure, where it is fixed. -/
abbrev Wording := Option String

/-- A failure's wording followed by the wordings of its causes, the root cause last. -/
structure CauseChain where
  /-- What the failure itself says. -/
  message : Wording
  /-- What its causes say, the nearest first. -/
  causes : List Wording
  deriving DecidableEq, Repr

namespace CauseChain

/-- A failure that nothing else caused. -/
def root (w : Wording) : CauseChain := ⟨w, []⟩

/-- The same causes under a failure that says something of its own. -/
def under (w : Wording) (c : CauseChain) : CauseChain := ⟨w, c.message :: c.causes⟩

/-- All wordings of a chain, the failure's own first. -/
def toList (c : CauseChain) : List Wording := c.message :: c.causes

/-- The failure that caused this one, with its own causes. -/
def source? (c : CauseChain) : Option CauseChain :=
  match c.causes with
  | [] => none
  | w :: ws => some ⟨w, ws⟩

@[simp] theorem source?_root (w : Wording) : (root w).source? = none := rfl

@[simp] theorem source?_under (w : Wording) (c : CauseChain) : (under w c).source? = some c := rfl

theorem source?_eq_none_iff {c : CauseChain} : c.source? = none ↔ c.causes = [] := by
  unfold source?
  split <;> simp_all

/-- The causes of a failure are its source and the causes of that. -/
theorem source?_eq_some_iff {c d : CauseChain} : c.source? = some d ↔ c.causes = d.toList := by
  cases d
  unfold source? toList
  split <;> simp_all

/-- What the root cause says. -/
def innermost (c : CauseChain) : Wording := c.causes.getLastD c.message

end CauseChain

/-- A failure of the operating system or of a connection: the name of its kind, and its wording where one is known. -/
structure IoError where
  kind : String
  text : Wording
  deriving DecidableEq, Repr

/-- A failure to read or write has no further cause. -/
def IoError.chain (e : IoError) : CauseChain := .root e.text

end ClientAuth
