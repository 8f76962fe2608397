import TreePass.Proofs.Effects

/-!
Notes. What an action notes is of a kind if what its parts note is; and an analysis that looks for
no targets, and whose handlers note nothing by themselves, notes nothing but skipped subtrees.
-/

set_option autoImplicit false
set_option relaxedAutoImplicit false

namespace TreePass

variable {σ α : Type}

def Store.Noted (kind : Note → Prop) (before after : Store σ) : Prop :=
  ∀ note ∈ after.notes, note ∈ before.notes ∨ kind note

namespace Store.Noted

variable {kind : Note → Prop} {a b c : Store σ}

private theorem of_eq (same : b.notes = a.notes) : Noted kind a b := fun _ listed => .inl
    (same ▸ listed)

theorem trans (first : Noted kind a b) (second : Noted kind b c) : Noted kind a c := by
  intro note listed
  rcases second note listed with earlier | new
  · exact first note earlier
  · exact .inr new

end Store.Noted

namespace Action

variable {kind : Note → Prop} {β : Type}

abbrev Notes (kind : Note → Prop) (action : Action σ α) : Prop := action.Within (Store.Noted kind)

theorem notes_of_silent {action : Action σ α} (silent : ∀ s, (action.run s).2.notes = s.notes) :
    action.Notes kind := fun s => .of_eq (silent s)

theorem notes_pure (a : α) : (pure a : Action σ α).Notes kind := notes_of_silent fun _ => rfl

theorem notes_fail (fault : Fault) : (fail fault : Action σ α).Notes kind :=
  notes_of_silent fun _ => rfl

theorem notes_ofExcept (known : Except Fault α) : (ofExcept known : Action σ α).Notes kind := by
  cases known with
  | ok a => exact notes_pure a
  | error fault => exact notes_fail fault

theorem notes_note {entry : Note} (of : kind entry) : (note entry : Action σ Unit).Notes kind := by
  intro s other listed
  rcases Array.mem_push.mp listed with earlier | rfl
  · exact .inl earlier
  · exact .inr of

theorem Notes.bind_ran {action : Action σ α} {next : α → Action σ β} (first : action.Notes kind)
    (rest : ∀ a, (∃ s s', action.run s = (.ok a, s')) → (next a).Notes kind) :
    (action >>= next).Notes kind := by
  intro s
  refine within_bind_of_trans (Store.Noted kind) Store.Noted.trans (first s) fun a s' ran => ?_
  exact rest a ⟨s, s', ran⟩ s'

theorem Notes.bind {action : Action σ α} {next : α → Action σ β} (first : action.Notes kind)
    (rest : ∀ a, (next a).Notes kind) : (action >>= next).Notes kind :=
  first.bind_ran fun a _ => rest a

end Action

open TreePass.Action

namespace Node

variable {kind : Note → Prop}

private theorem notes_copyTag (tag : Tag) : (copyTag tag : Action σ Tag).Notes kind :=
  notes_of_silent fun _ => rfl

private theorem notes_scope? (node : Expr) : (node.scope? : Action σ (Option Value)).Notes kind :=
  notes_of_silent fun s => by rw [run_scope?]

theorem notes_clone (node : Expr) : (node.clone : Action σ Expr).Notes kind := by
  induction node using Node.induction with
  | atomic tag | symbol tag | primitive tag =>
    exact (notes_copyTag tag).bind fun _ => notes_pure _
  | pairlist tag params ih =>
    refine Notes.bind ?_ fun _ => (notes_copyTag tag).bind fun _ => notes_pure _
    induction params with
    | nil => exact notes_pure _
    | cons p rest ihr =>
      have later := ihr fun q h => ih q (List.mem_cons_of_mem _ h)
      obtain ⟨name, d | d⟩ := p
      · exact later.bind fun _ => notes_pure _
      · exact (ih (name, some d) List.mem_cons_self d rfl).bind fun _ =>
          later.bind fun _ => notes_pure _
  | call tag callee args ihc iha =>
    refine ihc.bind fun _ => Notes.bind ?_ fun _ => (notes_copyTag tag).bind fun _ => notes_pure _
    induction args with
    | nil => exact notes_pure _
    | cons a rest ihr =>
      exact (iha a List.mem_cons_self).bind fun _ =>
        (ihr fun b h => iha b (List.mem_cons_of_mem _ h)).bind fun _ => notes_pure _

theorem notes_plant (node : Expr) : (node.plant : Action σ Expr).Notes kind := by
  have made (make : Tag → Expr) :
      (do return make (← allocate []) : Action σ Expr).Notes kind :=
    notes_of_silent fun _ => rfl
  induction node using Node.induction with
  | atomic | symbol | primitive => exact made _
  | pairlist tag params ih =>
    refine Notes.bind ?_ fun planted => made fun tag => .pairlist tag planted
    induction params with
    | nil => exact notes_pure _
    | cons p rest ihr =>
      have later := ihr fun q h => ih q (List.mem_cons_of_mem _ h)
      obtain ⟨name, d | d⟩ := p
      · exact later.bind fun _ => notes_pure _
      · exact (ih (name, some d) List.mem_cons_self d rfl).bind fun _ =>
          later.bind fun _ => notes_pure _
  | call tag callee args ihc iha =>
    refine ihc.bind fun callee => Notes.bind ?_ fun args => made fun tag => .call tag callee args
    induction args with
    | nil => exact notes_pure _
    | cons a rest ihr =>
      exact (iha a List.mem_cons_self).bind fun _ =>
        (ihr fun b h => iha b (List.mem_cons_of_mem _ h)).bind fun _ => notes_pure _

end Node

namespace Traversal

/-- An analysis that looks for no targets and whose handlers note nothing by themselves. -/
structure Modest (t : Traversal σ) : Prop where
  targetless : t.config.hasTargets = false
  handlers : ∀ (kind : Note → Prop) slot, ∀ handler ∈ t.config.installed slot,
    Handler.Within (fun _ => Store.Noted kind) handler

variable {t : Traversal σ} {kind : Note → Prop}

theorem Modest.links (modest : t.Modest) (slot : Slot) :
    ∀ link ∈ t.config.fullChain slot none, Handler.Within (fun _ => Store.Noted kind) link.run := by
  intro link listed
  rcases List.mem_append.mp listed with special | listed
  · cases special
  rcases List.mem_append.mp listed with installed | standard
  · obtain ⟨handler, own, rfl⟩ := List.mem_map.mp installed
    exact modest.handlers kind slot handler own
  · obtain rfl := List.mem_singleton.mp standard
    intro node ctx _
    cases Standard.ofSlot t.config.mode slot with
    | keepNode | emptyAnalysis | passTopdown => exact notes_pure _
    | mergeAnalysis => exact (notes_ofExcept _).bind fun _ => notes_pure _

private theorem Modest.notes_invoke (modest : t.Modest) (slot : Slot) (ctx : Context σ)
    (node : Expr) : (invoke ctx (t.config.fullChain slot none) node).Notes kind :=
  invoke_within (fun _ _ => .of_eq rfl) (modest.links slot) ctx node

private theorem notes_scopeAt (node : Expr) (inherited : Value) :
    (scopeAt node inherited : Action σ Value).Notes kind :=
  (Node.notes_scope? node).bind fun _ => notes_pure _

private theorem notes_finish (slot : Slot) (of : Kind) (made : Option Expr) (value : Value) :
    (t.finish .analysis slot of made value).Notes kind := by
  simp only [finish, Shape.analysis]
  cases value.entries? with
  | none => exact notes_fail _
  | some entries => exact notes_pure entries

theorem Modest.notes_visit (modest : t.Modest) (skips : ∀ k, kind (.skipped k))
    (topdown inherited : Value) (node : Expr) :
    (t.visit .analysis topdown inherited node).Notes kind := by
  have leaf (topdown inherited : Value) (node : Expr) :
      (t.visitLeaf .analysis topdown inherited node).Notes kind :=
    (notes_scopeAt node inherited).bind fun _ => (notes_pure node).bind fun _ =>
      (modest.notes_invoke _ _ _).bind fun _ => notes_finish _ _ _ _
  have down (topdown scope : Value) (node : Expr) :
      (t.descend none topdown scope node).Notes kind :=
    (notes_of_silent fun _ => rfl).bind fun visit => (modest.notes_invoke _ _ _).catchSkip visit
  have skipped (node : Expr) (value : Value) : (t.endSkipped .analysis node value).Notes kind :=
    (notes_note (skips node.kind)).bind fun _ => notes_finish _ _ _ _
  have up (inner scope : Value) (node : Expr) (results : List Entries) :
      (t.ascend .analysis none inner scope node results).Notes kind :=
    (notes_pure node).bind fun _ => (modest.notes_invoke _ _ _).bind fun _ => notes_finish _ _ _ _
  induction node using Node.induction generalizing topdown inherited with
  | atomic | symbol | primitive => exact leaf topdown inherited _
  | pairlist tag params ih =>
    rw [visit]
    refine (notes_scopeAt _ _).bind fun scope => (down topdown scope _).bind fun outcome => ?_
    cases outcome with
    | skipped value => exact skipped _ value
    | done inner =>
      refine Notes.bind ?_ fun results => up inner scope _ results
      induction params with
      | nil => exact notes_pure _
      | cons p rest ihr =>
        have later := ihr fun q h => ih q (List.mem_cons_of_mem _ h)
        obtain ⟨name, d | d⟩ := p
        · exact later
        · exact (ih (name, some d) List.mem_cons_self d rfl inner scope).bind fun _ =>
            later.bind fun _ => notes_pure _
  | call tag callee args _ ih =>
    rw [visit]
    refine (notes_scopeAt _ _).bind fun scope => ?_
    rw [t.resolve_of_no_targets modest.targetless]
    refine (notes_pure none).bind_ran fun target ran => ?_
    obtain ⟨_, _, ran⟩ := ran
    obtain ⟨rfl, -⟩ := ok_inj ran
    refine (down topdown scope _).bind fun outcome => ?_
    cases outcome with
    | skipped value => exact skipped _ value
    | done inner =>
      refine Notes.bind ?_ fun results => up inner scope _ results
      induction args with
      | nil => exact notes_pure _
      | cons a rest ihr =>
        exact (ih a List.mem_cons_self inner scope).bind fun _ =>
          (ihr fun b h => ih b (List.mem_cons_of_mem _ h)).bind fun _ => notes_pure _

end Traversal

end TreePass
