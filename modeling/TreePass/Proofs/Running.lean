import TreePass.Action

/-!
Running actions. `Action.Ends` says that an action ends with a result, and what holds of the
result and of the store it leaves; an action made of parts is followed part by part.
-/

set_option autoImplicit false
set_option relaxedAutoImplicit false

namespace TreePass

namespace Action

variable {σ α β : Type}

@[simp] theorem run_pure (a : α) (s : Store σ) : (pure a : Action σ α).run s = (.ok a, s) := rfl

@[simp] theorem run_fail (fault : Fault) (s : Store σ) :
    (fail fault : Action σ α).run s = (.error fault, s) := rfl

@[simp] theorem run_metadata (tag : Tag) (s : Store σ) :
    (metadata tag).run s = (.ok (s.table tag), s) := rfl

@[simp] theorem run_allocate (table : Table) (s : Store σ) :
    (allocate table).run s = (.ok s.tables.size, s.push table) := rfl

@[simp] theorem run_setMetadata (tag : Tag) (key : String) (value : Value) (s : Store σ) :
    (setMetadata tag key value).run s = (.ok (), s.update tag (Table.put key value)) := rfl

@[simp] theorem run_note (entry : Note) (s : Store σ) :
    (note entry).run s = (.ok (), { s with notes := s.notes.push entry }) := rfl

@[simp] theorem run_warn (warning : Warning) (s : Store σ) :
    (warn warning).run s = (.ok (), { s with warnings := s.warnings.push warning }) := rfl

@[simp] theorem run_newVisit (s : Store σ) :
    (newVisit : Action σ Nat).run s = (.ok s.visits, { s with visits := s.visits + 1 }) := rfl

@[simp] theorem run_newScope (assigned bound : NameSet) (s : Store σ) :
    (newScope assigned bound).run s =
      (.ok ⟨s.scopes, assigned, bound⟩, { s with scopes := s.scopes + 1 }) := rfl

@[simp] theorem run_ofExcept_ok (a : α) (s : Store σ) :
    (ofExcept (.ok a) : Action σ α).run s = (.ok a, s) := rfl

theorem ok_inj {a b : α} {s s' : Store σ}
    (same : ((.ok a, s) : Except Fault α × Store σ) = (.ok b, s')) : a = b ∧ s = s' := by
  obtain ⟨given, rfl⟩ := Prod.mk.inj same
  exact ⟨Except.ok.inj given, rfl⟩

theorem run_bind_of_ok {first : Action σ α} {next : α → Action σ β} {s s' : Store σ} {a : α}
    (ran : first.run s = (.ok a, s')) : (first >>= next).run s = (next a).run s' := by
  change (andThen first next).run s = _
  simp only [andThen, ran]

theorem run_bind_of_error {first : Action σ α} {next : α → Action σ β} {s s' : Store σ}
    {fault : Fault} (ran : first.run s = (.error fault, s')) :
    (first >>= next).run s = (.error fault, s') := by
  change (andThen first next).run s = _
  simp only [andThen, ran]

theorem run_bind_eq_ok {first : Action σ α} {next : α → Action σ β} {s s'' : Store σ} {b : β} :
    (first >>= next).run s = (.ok b, s'') ↔
      ∃ a s', first.run s = (.ok a, s') ∧ (next a).run s' = (.ok b, s'') := by
  constructor
  · intro ran
    cases run : first.run s with
    | mk outcome s' =>
      cases outcome with
      | error fault =>
        rw [run_bind_of_error run] at ran
        cases ran
      | ok a =>
        rw [run_bind_of_ok run] at ran
        exact ⟨a, s', rfl, ran⟩
  · rintro ⟨a, s', run, ran⟩
    rw [run_bind_of_ok run, ran]

theorem size_le_of_run {action : Action σ α} {s s' : Store σ} {outcome : Except Fault α}
    (ran : action.run s = (outcome, s')) : s.tables.size ≤ s'.tables.size := by
  have grown := (action.grows s).tables
  rwa [ran] at grown

theorem scopes_le_of_run {action : Action σ α} {s s' : Store σ} {outcome : Except Fault α}
    (ran : action.run s = (outcome, s')) : s.scopes ≤ s'.scopes := by
  have grown := (action.grows s).scopes
  rwa [ran] at grown

/-- The action ends with a result, and `post` holds of the result and the store that is left. -/
def Ends (action : Action σ α) (s : Store σ) (post : α → Store σ → Prop) : Prop :=
  ∃ a s', action.run s = (.ok a, s') ∧ post a s'

variable {s : Store σ} {action : Action σ α} {next : α → Action σ β}
  {post post' : α → Store σ → Prop} {after : β → Store σ → Prop}

theorem Ends.of_run {a : α} {s' : Store σ} (ran : action.run s = (.ok a, s'))
    (holds : post a s') : action.Ends s post :=
  ⟨a, s', ran, holds⟩

theorem Ends.mono (ends : action.Ends s post) (weaker : ∀ a s', post a s' → post' a s') :
    action.Ends s post' := by
  obtain ⟨a, s', ran, holds⟩ := ends
  exact ⟨a, s', ran, weaker a s' holds⟩

theorem ends_pure {a : α} (holds : post a s) : (pure a : Action σ α).Ends s post :=
  ⟨a, s, rfl, holds⟩

theorem Ends.bind (ends : action.Ends s post)
    (rest : ∀ a s', post a s' → (next a).Ends s' after) : (action >>= next).Ends s after := by
  obtain ⟨a, s', ran, holds⟩ := ends
  obtain ⟨b, s'', ran', holds'⟩ := rest a s' holds
  exact ⟨b, s'', by rw [run_bind_of_ok ran, ran'], holds'⟩

theorem Ends.of_ran {a : α} {s' : Store σ} (ends : action.Ends s post)
    (ran : action.run s = (.ok a, s')) : post a s' := by
  obtain ⟨b, s'', ran', holds⟩ := ends
  obtain ⟨rfl, rfl⟩ := ok_inj (ran.symm.trans ran')
  exact holds

theorem ends_of_check (check : α → Store σ → Bool)
    (holds : (match action.run s with
      | (.ok a, s') => check a s'
      | (.error _, _) => false) = true) :
    action.Ends s fun a s' => check a s' = true := by
  cases ran : action.run s with
  | mk outcome s' =>
    rw [ran] at holds
    cases outcome with
    | error fault => cases holds
    | ok a => exact .of_run ran holds

theorem ends_bind_of_run {a : α} {s' : Store σ} (ran : action.run s = (.ok a, s'))
    (rest : (next a).Ends s' after) : (action >>= next).Ends s after := by
  obtain ⟨b, s'', ran', holds⟩ := rest
  exact ⟨b, s'', by rw [run_bind_of_ok ran, ran'], holds⟩

end Action

namespace Store

variable {σ : Type}

@[simp] theorem size_push (s : Store σ) (table : Table) :
    (s.push table).tables.size = s.tables.size + 1 := by
  simp [push]

@[simp] theorem size_update (s : Store σ) (tag : Tag) (change : Table → Table) :
    (s.update tag change).tables.size = s.tables.size := by
  simp [update]

theorem table_of_tables_eq {before after : Store σ} (same : after.tables = before.tables)
    (tag : Tag) : after.table tag = before.table tag := by
  rw [table, table, same]

theorem table_push_of_lt (s : Store σ) (table : Table) {tag : Tag} (old : tag < s.tables.size) :
    (s.push table).table tag = s.table tag := by
  have bound : tag < (s.tables.push table).size := by
    simpa only [Array.size_push] using Nat.lt_succ_of_lt old
  simp only [Store.table, push, Array.getElem?_eq_getElem bound, Array.getElem?_eq_getElem old,
    Array.getElem_push_lt old]

@[simp] theorem table_push_self (s : Store σ) (table : Table) :
    (s.push table).table s.tables.size = table := by
  simp [Store.table, push]

theorem table_update_self (s : Store σ) (change : Table → Table) {tag : Tag}
    (old : tag < s.tables.size) : (s.update tag change).table tag = change (s.table tag) := by
  simp [Store.table, update, Array.getElem_modify, old]

theorem table_update_of_ne (s : Store σ) (change : Table → Table) {tag other : Tag}
    (different : other ≠ tag) : (s.update tag change).table other = s.table other := by
  simp [Store.table, update, Array.getElem?_modify, Ne.symm different]

end Store

end TreePass
