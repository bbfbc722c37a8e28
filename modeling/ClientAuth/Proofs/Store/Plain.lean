import ClientAuth.Vault.Store
import Mathlib.Logic.Function.Basic

/-!
# Stores as maps

Operations on a store are data here (`StoreOp`), and `StoreOp.onMap` is what a map from keys to values replies to them. Two
stores that reply alike to every single operation, as long as they are related, reply alike to every row of operations
(`StoreOp.runAll_simulates`).
-/

namespace ClientAuth

/-- An operation on a store that keeps values under keys. -/
inductive StoreOp (α : Type) where
  | save (key : String) (a : α)
  | load (key : String)
  | remove (key : String)
  deriving DecidableEq, Repr

/-- The reply to an operation. -/
inductive StoreReply (α : Type) where
  /-- To a save or a removal. -/
  | done (r : Except VaultError Unit)
  /-- To a load. -/
  | found (r : Except VaultError (Option α))

namespace StoreOp

variable {α σ τ : Type}

/-- The key that an operation is about. -/
def key : StoreOp α → String
  | save key _ | load key | remove key => key

/-- The reply of a map from keys to values, and the map after it. Nothing in it can fail. -/
def onMap (m : String → Option α) : StoreOp α → StoreReply α × (String → Option α)
  | save key a => (.done (.ok ()), Function.update m key (some a))
  | load key => (.found (.ok (m key)), m)
  | remove key => (.done (.ok ()), Function.update m key none)

/-- The replies to operations one after another, and the state after them. -/
def runAll (perform : σ → StoreOp α → StoreReply α × σ) (s : σ) : List (StoreOp α) → List (StoreReply α) × σ
  | [] => ([], s)
  | op :: ops =>
    let (r, s) := perform s op
    let (rs, s) := runAll perform s ops
    (r :: rs, s)

variable {perform : σ → StoreOp α → StoreReply α × σ} {perform' : τ → StoreOp α → StoreReply α × τ}

/-- Two stores that reply alike to each operation and stay related reply alike to a row of operations. -/
theorem runAll_simulates {R : σ → τ → Prop} {P : StoreOp α → Prop}
    (hstep : ∀ s t op, R s t → P op → (perform s op).1 = (perform' t op).1 ∧ R (perform s op).2 (perform' t op).2)
    {ops : List (StoreOp α)} (hops : ∀ op ∈ ops, P op) {s : σ} {t : τ} (h : R s t) :
    (runAll perform s ops).1 = (runAll perform' t ops).1 ∧ R (runAll perform s ops).2 (runAll perform' t ops).2 := by
  induction ops generalizing s t with
  | nil => exact ⟨rfl, h⟩
  | cons op ops ih =>
    obtain ⟨hreply, hnext⟩ := hstep s t op h (hops op List.mem_cons_self)
    obtain ⟨hreplies, hlast⟩ := ih (fun op hop => hops op (List.mem_cons_of_mem _ hop)) hnext
    refine ⟨?_, hlast⟩
    simp only [runAll, hreply, hreplies]

end StoreOp

namespace Backing

variable {σ : Type} (b : Backing σ)

/-- The reply of a store of texts to an operation, and the store after it. -/
def perform (s : σ) : StoreOp String → StoreReply String × σ
  | .save key blob => (.done (b.save s key blob).1, (b.save s key blob).2)
  | .load key => (.found (b.load s key), s)
  | .remove key => (.done (b.remove s key).1, (b.remove s key).2)

/-- A store that behaves as the map of what it shows under keys. -/
structure IsMap (view : σ → String → Option String) : Prop where
  load : ∀ s key, b.load s key = .ok (view s key)
  save : ∀ s key blob, (b.save s key blob).1 = .ok () ∧
    view (b.save s key blob).2 = Function.update (view s) key (some blob)
  remove : ∀ s key, (b.remove s key).1 = .ok () ∧ view (b.remove s key).2 = Function.update (view s) key none

namespace IsMap

variable {b} {view : σ → String → Option String} (h : b.IsMap view)
include h

/-- What was saved is shown under its key. -/
theorem view_save (s : σ) (key blob : String) : view (b.save s key blob).2 key = some blob :=
  (congrFun (h.save s key blob).2 key).trans (Function.update_self _ _ _)

/-- A save leaves all other keys. -/
theorem view_save_of_ne (s : σ) {key other : String} (blob : String) (hother : other ≠ key) :
    view (b.save s key blob).2 other = view s other :=
  (congrFun (h.save s key blob).2 other).trans (Function.update_of_ne hother _ _)

/-- Nothing is shown under a key that was removed. -/
theorem view_remove (s : σ) (key : String) : view (b.remove s key).2 key = none :=
  (congrFun (h.remove s key).2 key).trans (Function.update_self _ _ _)

/-- A removal leaves all other keys. -/
theorem view_remove_of_ne (s : σ) {key other : String} (hother : other ≠ key) :
    view (b.remove s key).2 other = view s other :=
  (congrFun (h.remove s key).2 other).trans (Function.update_of_ne hother _ _)

end IsMap

/-- The store in memory behaves as a map. -/
theorem memory_isMap : memory.IsMap Entries.get? := by
  refine ⟨fun s key => rfl, ?_, ?_⟩
  · intro s key blob
    refine ⟨rfl, funext fun k => ?_⟩
    rw [Function.update_apply]
    exact Entries.get?_insert s key blob k
  · intro s key
    refine ⟨rfl, funext fun k => ?_⟩
    rw [Function.update_apply]
    exact Entries.get?_erase s key k

end Backing

end ClientAuth
