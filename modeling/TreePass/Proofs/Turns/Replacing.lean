import TreePass.Proofs.Turns.Handing
import TreePass.Proofs.Turns.Purity
import Mathlib.Data.List.Infix

/-!
Replacing a subtree. Two trees that differ in one subtree have the same nodes away from it, and
above it nodes of one kind with one stamp. As long as no handler changes the metadata of nodes, a
visit outside that is handed the same has the same scope in force in both, and hands the same on.
-/

set_option autoImplicit false
set_option relaxedAutoImplicit false

namespace TreePass

variable {σ ρ : Type}

private theorem Store.Keeps.then_quiet {s s₁ s₂ : Store σ} (kept : s.Keeps s₁)
    (quiet : s₁.Quiet s₂) : s.Keeps s₂ :=
  (Store.spares_bound _).trans kept quiet.spares

namespace Traversal

/-- Two trees differ at most at or below a place. A place next to the children of a node stands for
its callee. -/
inductive Replaced (s : Store σ) : Position → Expr → Expr → Prop
  | here {old new : Expr} : Replaced s [] old new
  | beside {node node' : Expr} (composite : node.kind.isComposite = true)
      (kind : node'.kind = node.kind) (stamp : s.stamp? node' = s.stamp? node)
      (same : traversed node' = traversed node) :
      Replaced s [(traversed node).length] node node'
  | inside {node node' child child' : Expr} {before later : List Expr} {place : Position}
      (kind : node'.kind = node.kind) (stamp : s.stamp? node' = s.stamp? node)
      (split : traversed node = before ++ child :: later)
      (split' : traversed node' = before ++ child' :: later)
      (further : Replaced s place child child') :
      Replaced s (before.length :: place) node node'

theorem Replaced.symm {s : Store σ} {place : Position} {node node' : Expr}
    (replaced : Replaced s place node node') : Replaced s place node' node := by
  induction replaced with
  | here => exact .here
  | beside composite kind stamp same =>
    rw [← same]
    exact .beside (by rw [kind, composite]) kind.symm stamp.symm same.symm
  | inside kind stamp split split' _ ih => exact .inside kind.symm stamp.symm split' split ih

theorem Replaced.above {s : Store σ} {place : Position} {node node' : Expr}
    (replaced : Replaced s place node node') (apart : place ≠ []) :
    node'.kind = node.kind ∧ s.stamp? node' = s.stamp? node ∧
      (traversed node').length = (traversed node).length := by
  cases replaced with
  | here => exact absurd rfl apart
  | beside _ kind stamp same => exact ⟨kind, stamp, by rw [same]⟩
  | inside kind stamp split split' _ => exact ⟨kind, stamp, by simp [split, split']⟩

theorem Replaced.child {s : Store σ} {place : Position} {node node' c c' : Expr} {i : Nat}
    (replaced : Replaced s place node node') (apart : place ≠ [])
    (found : (traversed node)[i]? = some c) (found' : (traversed node')[i]? = some c') :
    (c' = c ∧ ¬ [i] <+: place) ∨ ∃ rest, place = i :: rest ∧ Replaced s rest c c' := by
  cases replaced with
  | here => exact absurd rfl apart
  | beside _ _ _ same =>
    rw [same, found] at found'
    have less := (List.getElem?_eq_some_iff.mp found).1
    exact Or.inl ⟨(Option.some.inj found').symm, by simp; omega⟩
  | @inside _ _ child child' before later rest _ _ split split' further =>
    rw [split] at found
    rw [split'] at found'
    -- The child stands before the one that differs, it is that one, or it stands after it.
    rcases Nat.lt_trichotomy i before.length with less | same | more
    · rw [List.getElem?_append_left less] at found found'
      rw [found] at found'
      exact Or.inl ⟨(Option.some.inj found').symm, by simp; omega⟩
    · subst same
      simp only [List.getElem?_append_right (Nat.le_refl _), Nat.sub_self, List.getElem?_cons_zero]
        at found found'
      obtain rfl := Option.some.inj found
      obtain rfl := Option.some.inj found'
      exact Or.inr ⟨rest, rfl, further⟩
    · obtain ⟨k, offset⟩ : ∃ k, i - before.length = k + 1 := ⟨i - before.length - 1, by omega⟩
      rw [List.getElem?_append_right more.le, offset, List.getElem?_cons_succ] at found found'
      rw [found] at found'
      exact Or.inl ⟨(Option.some.inj found').symm, by simp; omega⟩

/-- No handler changes the metadata of a node that it did not make. -/
def Still (t : Traversal σ) : Prop :=
  ∀ slot target, ∀ link ∈ t.config.fullChain slot target, Handler.Still link.run

variable {t : Traversal σ} {shape : Shape σ ρ} {s : Store σ}

private theorem Still.ending_keeps (still : t.Still) {turn : Turn σ} (kept : s.Keeps turn.before) :
    s.Keeps (t.ending turn).2 :=
  (Store.spares_bound _).trans kept (invoke_within (fun _ => (Store.spares_bound _).refl)
    (still turn.slot turn.target) turn.ctx turn.given turn.before)

private theorem Still.down_keeps (still : t.Still) {e : Entry σ} {target : Option Identity}
    {s₀ s₁ : Store σ} {answer : Except Fault Value} (kept : s.Keeps e.start)
    (search : (t.targetOf e.node e.scope).run e.start = (.ok target, s₀))
    (down : t.ending (t.downTurn e target s₀) = (answer, s₁)) :
    s.Keeps (t.downTurn e target s₀).before ∧ s.Keeps s₁ := by
  have found := kept.then_quiet (quiet_of_search search)
  have begun : s.Keeps (t.downTurn e target s₀).before :=
    found.then_quiet (quiet_before (t := t) e target s₀)
  have ended := still.ending_keeps begun
  rw [down] at ended
  exact ⟨begun, ended⟩

mutual

theorem Visited.keeps (sound : shape.Sound) (still : t.Still) {e : Entry σ}
    {turns : List (Turn σ)} {outcome : Except Fault ρ} {after : Store σ}
    (visited : t.Visited shape noLeaves e turns outcome after) (kept : s.Keeps e.start) :
    (∀ turn ∈ turns, s.Keeps turn.entry.start ∧ s.Keeps turn.before) ∧ s.Keeps after := by
  match visited with
  | .replaced there _ => cases there
  | .leaf _ _ readied own =>
    have made := kept.then_quiet (.of_run readied ((sound.leaf e.node e.start).of_ran readied))
    refine ⟨by simpa [ownTurn] using ⟨kept, made⟩, ?_⟩
    exact (still.ending_keeps made).then_quiet (quiet_of_conclude sound own)
  | .lost _ _ search =>
    obtain ⟨-, rfl, -⟩ := unanswerable_of_search search
    exact ⟨by simp, kept⟩
  | .stopped _ _ search down _ =>
    obtain ⟨begun, ended⟩ := still.down_keeps kept search down
    exact ⟨by simpa using ⟨kept, begun⟩, ended⟩
  | .skipped _ _ search down skipped =>
    obtain ⟨begun, ended⟩ := still.down_keeps kept search down
    exact ⟨by simpa using ⟨kept, begun⟩, ended.then_quiet (quiet_of_endSkipped sound skipped)⟩
  | .broken _ _ search down below =>
    obtain ⟨begun, ended⟩ := still.down_keeps kept search down
    obtain ⟨inside, later⟩ := below.keeps sound still ended
    exact ⟨List.forall_mem_cons.mpr ⟨⟨kept, begun⟩, inside⟩, later⟩
  | .done _ composite search down below readied own =>
    obtain ⟨begun, ended⟩ := still.down_keeps kept search down
    obtain ⟨inside, later⟩ := below.keeps sound still ended
    have made := later.then_quiet
      (.of_run readied ((sound.composite e.node _ _ composite below.length).of_ran readied))
    refine ⟨List.forall_mem_cons.mpr ⟨⟨kept, begun⟩, List.forall_mem_append.mpr ⟨inside, ?_⟩⟩, ?_⟩
    · simpa using ⟨kept, made⟩
    · exact (still.ending_keeps made).then_quiet (quiet_of_conclude sound own)
termination_by structural visited

theorem VisitedAll.keeps (sound : shape.Sound) (still : t.Still) {place : Position} {index : Nat}
    {topdown inherited : Value} {nodes : List Expr} {start after : Store σ} {turns : List (Turn σ)}
    {outcome : Except Fault (List ρ)}
    (visited : t.VisitedAll shape noLeaves place index topdown inherited nodes start turns outcome
      after) (kept : s.Keeps start) :
    (∀ turn ∈ turns, s.Keeps turn.entry.start ∧ s.Keeps turn.before) ∧ s.Keeps after := by
  match visited with
  | .nil => exact ⟨by simp, kept⟩
  | .stop first => exact first.keeps sound still kept
  | .cons first others =>
    obtain ⟨early, between⟩ := first.keeps sound still kept
    obtain ⟨late, later⟩ := others.keeps sound still between
    exact ⟨List.forall_mem_append.mpr ⟨early, late⟩, later⟩
termination_by structural visited

end

/-- Entries at one place in runs over two trees: they are given the same, and away from the place
where the trees differ they are of the same node. -/
structure Alongside (s : Store σ) (met : Value → Prop) (place : Position) (root root' : Expr)
    (e e' : Entry σ) : Prop where
  topdown : e'.topdown = e.topdown
  inherited : e'.inherited = e.inherited
  passed : met e.topdown
  stamped : met e.inherited
  comes : ComesTo root e.node
  comes' : ComesTo root' e'.node
  nodes : (e'.node = e.node ∧ ¬ e.place <+: place) ∨
    ∃ rest, place = e.place ++ rest ∧ Replaced s rest e.node e'.node

variable {met : Value → Prop} {place : Position} {root root' : Expr} {e e' : Entry σ}

theorem Alongside.alike (alongside : Alongside s met place root root' e e')
    (outside : ¬ place <+: e.place) : e'.node.kind = e.node.kind ∧
      s.stamp? e'.node = s.stamp? e.node ∧
        (traversed e'.node).length = (traversed e.node).length := by
  rcases alongside.nodes with ⟨same, -⟩ | ⟨rest, split, replaced⟩
  · rw [same]
    exact ⟨rfl, rfl, rfl⟩
  · refine replaced.above fun empty => outside ?_
    rw [split, empty, List.append_nil]

theorem Alongside.node_eq (alongside : Alongside s met place root root' e e')
    (apart : ¬ e.place <+: place) : e'.node = e.node := by
  rcases alongside.nodes with ⟨same, -⟩ | ⟨rest, split, -⟩
  · exact same
  · refine absurd ?_ apart
    rw [split]
    exact List.prefix_append _ _

theorem Alongside.scope_eq (alongside : Alongside s met place root root' e e')
    (outside : ¬ place <+: e.place) (meets : Meets s met root) (meets' : Meets s met root')
    (kept : s.Keeps e.start) (kept' : s.Keeps e'.start) :
    e'.scope = e.scope ∧ met e.scope := by
  obtain ⟨-, stamp, -⟩ := alongside.alike outside
  have own := kept.stamp?_eq (meets.known e.node alongside.comes)
  have own' := kept'.stamp?_eq (meets'.known e'.node alongside.comes')
  rw [Entry.scope, Entry.scope, own, own', stamp, alongside.inherited]
  refine ⟨rfl, ?_⟩
  cases given : s.stamp? e.node with
  | none => exact alongside.stamped
  | some value => exact meets.stamps e.node alongside.comes value given

theorem Alongside.child (alongside : Alongside s met place root root' e e')
    (outside : ¬ place <+: e.place) (same : e'.place = e.place) {inner scope : Value}
    (passed : met inner) (stamped : met scope) {c c' : Entry σ} (together : c'.place = c.place)
    (enters : EntersChild e.place 0 inner scope (traversed e.node) c)
    (enters' : EntersChild e'.place 0 inner scope (traversed e'.node) c') :
    Alongside s met place root root' c c' := by
  obtain ⟨i, found, placed, topdown, inherited⟩ := enters
  obtain ⟨j, found', placed', topdown', inherited'⟩ := enters'
  have index : j = i := by
    rw [placed, placed', same] at together
    simpa using together
  subst index
  rw [Nat.zero_add] at placed
  have comes := alongside.comes.trans (.under (List.mem_of_getElem? found) .self)
  have comes' := alongside.comes'.trans (.under (List.mem_of_getElem? found') .self)
  refine ⟨topdown'.trans topdown.symm, inherited'.trans inherited.symm, topdown ▸ passed,
    inherited ▸ stamped, comes, comes', ?_⟩
  rw [placed]
  rcases alongside.nodes with ⟨node, apart⟩ | ⟨rest, split, replaced⟩
  · rw [node, found] at found'
    exact Or.inl ⟨(Option.some.inj found').symm, fun further =>
      apart ((List.prefix_append _ _).trans further)⟩
  · have apart : rest ≠ [] := fun empty => outside (by rw [split, empty, List.append_nil])
    rcases replaced.child apart found found' with ⟨node, away⟩ | ⟨rest', split', further⟩
    · refine Or.inl ⟨node, fun back => away ?_⟩
      rw [split] at back
      exact (List.prefix_append_right_inj e.place).mp back
    · exact Or.inr ⟨rest', by rw [split, split', List.append_assoc, List.singleton_append], further⟩

theorem Alongside.symm (same : e'.place = e.place)
    (alongside : Alongside s met place root root' e e') :
    Alongside s met place root' root e' e where
  topdown := alongside.topdown.symm
  inherited := alongside.inherited.symm
  passed := alongside.topdown ▸ alongside.passed
  stamped := alongside.inherited ▸ alongside.stamped
  comes := alongside.comes'
  comes' := alongside.comes
  nodes := by
    rw [same]
    rcases alongside.nodes with ⟨node, away⟩ | ⟨rest, split, replaced⟩
    · exact Or.inl ⟨node.symm, away⟩
    · exact Or.inr ⟨rest, split, replaced.symm⟩

end Traversal

end TreePass
