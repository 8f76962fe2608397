import TreePass.Store

/-!
Actions on the store. An action ends with a result or a fault and leaves a store that has grown:
no action can make a tag, a scope or a visit new again that has been given out before.
-/

set_option autoImplicit false
set_option relaxedAutoImplicit false

namespace TreePass

/-- A computation on the store that ends with a result or a fault. -/
structure Action (σ α : Type) where
  run : Store σ → Except Fault α × Store σ
  grows : ∀ s, Store.Grows s (run s).2

namespace Action

variable {σ α β : Type}

def result (a : α) : Action σ α := ⟨fun s => (.ok a, s), Store.Grows.refl⟩

def fail (fault : Fault) : Action σ α := ⟨fun s => (.error fault, s), Store.Grows.refl⟩

/-- One action after another; a fault ends both. -/
def andThen (first : Action σ α) (next : α → Action σ β) : Action σ β where
  run s :=
    match first.run s with
    | (.ok a, s') => (next a).run s'
    | (.error fault, s') => (.error fault, s')
  grows s := by
    have h := first.grows s
    split
    · rename_i a s' hs
      rw [hs] at h
      exact h.trans ((next a).grows s')
    · rename_i fault s' hs
      rw [hs] at h
      exact h

instance : Monad (Action σ) where
  pure := result
  bind := andThen

instance : Inhabited (Action σ α) := ⟨fail .wrongOperand⟩

def ofExcept : Except Fault α → Action σ α
  | .ok a => result a
  | .error fault => fail fault

def allocate (table : Table) : Action σ Tag :=
  ⟨fun s => (.ok s.tables.size, s.push table), fun s => s.grows_push table⟩

def metadata (tag : Tag) : Action σ Table :=
  ⟨fun s => (.ok (s.table tag), s), Store.Grows.refl⟩

def setMetadata (tag : Tag) (key : String) (value : Value) : Action σ Unit :=
  ⟨fun s => (.ok (), s.update tag (Table.put key value)), fun s => s.grows_update tag _⟩

def newScope (assigned bound : NameSet) : Action σ Scope where
  run s := (.ok ⟨s.scopes, assigned, bound⟩, { s with scopes := s.scopes + 1 })
  grows _ := ⟨Nat.le_refl _, Nat.le_succ _, Nat.le_refl _⟩

def newVisit : Action σ Nat where
  run s := (.ok s.visits, { s with visits := s.visits + 1 })
  grows _ := ⟨Nat.le_refl _, Nat.le_refl _, Nat.le_succ _⟩

def warn (warning : Warning) : Action σ Unit where
  run s := (.ok (), { s with warnings := s.warnings.push warning })
  grows _ := ⟨Nat.le_refl _, Nat.le_refl _, Nat.le_refl _⟩

def note (entry : Note) : Action σ Unit where
  run s := (.ok (), { s with notes := s.notes.push entry })
  grows _ := ⟨Nat.le_refl _, Nat.le_refl _, Nat.le_refl _⟩

def user : Action σ σ := ⟨fun s => (.ok s.user, s), Store.Grows.refl⟩

def modifyUser (change : σ → σ) : Action σ Unit where
  run s := (.ok (), { s with user := change s.user })
  grows _ := ⟨Nat.le_refl _, Nat.le_refl _, Nat.le_refl _⟩

/-- How a part of a visit ended: with a result, or by a skip of that visit with a value. -/
inductive Outcome (α : Type)
  | done (result : α)
  | skipped (value : Value)

/-- Takes up a skip of the given visit; every other fault goes on. -/
def catchSkip (visit : Nat) (action : Action σ α) : Action σ (Outcome α) where
  run s :=
    match action.run s with
    | (.ok a, s') => (.ok (.done a), s')
    | (.error (.skip v value), s') =>
      if v = visit then (.ok (.skipped value), s') else (.error (.skip v value), s')
    | (.error fault, s') => (.error fault, s')
  grows s := by
    have h := action.grows s
    split
    · rename_i hs
      rw [hs] at h
      exact h
    · rename_i hs
      rw [hs] at h
      split <;> exact h
    · rename_i hs
      rw [hs] at h
      exact h

end Action

end TreePass
