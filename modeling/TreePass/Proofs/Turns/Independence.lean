import TreePass.Proofs.Turns.Replacing
import TreePass.Proofs.Turns.Threading
import TreePass.Proofs.Dispatch.Exactness

/-!
Independence. In two runs over trees that differ in one subtree, pure handlers are told the same
everywhere outside it, as long as the chains on the way down to it answer alike; only what the nodes
above it are told of their children may differ.
-/

set_option autoImplicit false
set_option relaxedAutoImplicit false

namespace TreePass

variable {σ ρ : Type}

namespace Traversal

variable {t : Traversal σ} {shape : Shape σ ρ} {s : Store σ}

/-- The chains on the way down to a place answer alike in two runs, if asked alike. -/
def AboveAgree (t : Traversal σ) (met : Value → Prop) (place : Position)
    (turns turns' : List (Turn σ)) : Prop :=
  ∀ a ∈ turns, ∀ b ∈ turns', a.slot = .topdown → b.slot = .topdown → a.place = b.place →
    a.place <+: place → a.place ≠ place → a.ctx.SameFacts b.ctx →
      SameAnswer met met a.ctx.visit b.ctx.visit (t.ending a).1 (t.ending b).1

/-- Two runs from one store over trees that differ at most at one place. -/
structure Paired (t : Traversal σ) (shape : Shape σ ρ) (s : Store σ) (met : Value → Prop)
    (place : Position) (first first' : Entry σ) (turns turns' : List (Turn σ))
    (ran ran' : Except Fault ρ × Store σ) : Prop where
  course : t.Course shape first turns ran
  course' : t.Course shape first' turns' ran'
  root : first.place = []
  root' : first'.place = []
  kept : ∀ turn ∈ turns, s.Keeps turn.entry.start ∧ s.Keeps turn.before
  kept' : ∀ turn ∈ turns', s.Keeps turn.entry.start ∧ s.Keeps turn.before
  meets : Meets s met first.node
  meets' : Meets s met first'.node
  params : ∀ p ∈ t.params, met p.2
  down : t.PureAt s met (· = .topdown)
  above : t.AboveAgree met place turns turns'
  begins : Alongside s met place first.node first'.node first first'

variable {met : Value → Prop} {place : Position}

namespace Paired

variable {first first' : Entry σ} {turns turns' : List (Turn σ)}
  {ran ran' : Except Fault ρ × Store σ}

theorem scope_eq (paired : t.Paired shape s met place first first' turns turns' ran ran')
    {a b : Turn σ} (member : a ∈ turns) (member' : b ∈ turns') (outside : ¬ place <+: a.place)
    (alongside : Alongside s met place first.node first'.node a.entry b.entry) :
    b.entry.scope = a.entry.scope ∧ met a.entry.scope :=
  alongside.scope_eq outside paired.meets paired.meets' (paired.kept a member).1
    (paired.kept' b member').1

theorem answers (paired : t.Paired shape s met place first first' turns turns' ran ran')
    {a b : Turn σ} (member : a ∈ turns) (member' : b ∈ turns') (down : a.slot = .topdown)
    (down' : b.slot = .topdown) (together : a.place = b.place) (outside : ¬ place <+: a.place)
    (alongside : Alongside s met place first.node first'.node a.entry b.entry) :
    SameAnswer met met a.ctx.visit b.ctx.visit (t.ending a).1 (t.ending b).1 := by
  obtain ⟨scope, inForce⟩ := paired.scope_eq member member' outside alongside
  obtain ⟨e, target, s₁, rfl, search⟩ := (paired.course.accounted a member).1.exists_downTurn down
  obtain ⟨e', target', s₂, rfl, search'⟩ :=
    (paired.course'.accounted b member').1.exists_downTurn down'
  change e'.scope = e.scope at scope
  have topdown : e'.topdown = e.topdown := alongside.topdown
  -- Above the place the chains see different nodes, and that they agree is given.
  by_cases above : e.place <+: place
  · have away : e.place ≠ place := fun same => outside (same ▸ List.prefix_refl e.place)
    refine paired.above _ member _ member' rfl rfl together above away ⟨?_, rfl⟩
    simp only [downTurn, topdown, scope]
    rfl
  · have node : e'.node = e.node := alongside.node_eq above
    rw [node, scope] at search'
    obtain rfl := target_unique search search'
    have chain := paired.down.chain_alike paired.params .topdown rfl target' alongside.passed
      inForce none (by simp) (some s₁.visits) (some s₂.visits) rfl
      (paired.meets.nodes e.node alongside.comes)
    have same := chain _ _ (paired.kept _ member).2 (paired.kept' _ member').2
    have asked : t.ending (t.downTurn e' target' s₂) =
        (invoke (t.context e.topdown e.scope none (some s₂.visits))
          (t.config.fullChain .topdown target') e.node).run (t.downTurn e' target' s₂).before := by
      rw [ending]
      simp only [downTurn, node, topdown, scope]
    rw [asked]
    exact same.1

theorem alongside (paired : t.Paired shape s met place first first' turns turns' ran ran')
    {a b : Turn σ} (member : a ∈ turns) (member' : b ∈ turns') (together : a.place = b.place)
    (outside : ¬ place <+: a.place) :
    Alongside s met place first.node first'.node a.entry b.entry := by
  generalize placed : a.place = here at together outside
  -- Both visits were handed down to from the place above, where the chains answered alike.
  induction here using List.reverseRecOn generalizing a b with
  | nil =>
    rw [(paired.course.accounted a member).2.at_root placed,
      (paired.course'.accounted b member').2.at_root together.symm]
    exact paired.begins
  | append_singleton here i ih =>
    obtain ⟨x, listed, ⟨down, inner, gave, enters⟩, above⟩ :=
      (paired.course.accounted a member).2.from_above paired.root placed
    obtain ⟨y, listed', ⟨down', inner', gave', enters'⟩, above'⟩ :=
      (paired.course'.accounted b member').2.from_above paired.root' together.symm
    have apart : ¬ place <+: here := fun further =>
      outside (further.trans (List.prefix_append _ _))
    have beside := ih listed listed' above above'.symm apart
    have outside' : ¬ place <+: x.place := by rwa [above]
    have same := paired.answers listed listed' down down' (above.trans above'.symm) outside' beside
    obtain ⟨scope, inForce⟩ := paired.scope_eq listed listed' outside' beside
    rw [gave] at same
    obtain ⟨gives, fine⟩ := same.of_ok
    obtain rfl := Except.ok.inj (gave'.symm.trans gives)
    rw [scope] at enters'
    exact beside.child outside' (above'.trans above.symm) fine inForce
      (together.symm.trans placed.symm) enters enters'

theorem topdown_eq (paired : t.Paired shape s met place first first' turns turns' ran ran')
    {a b : Turn σ} (member : a ∈ turns) (member' : b ∈ turns') (together : a.place = b.place)
    (slots : a.slot = b.slot) (outside : ¬ place <+: a.place) :
    b.ctx.topdown = a.ctx.topdown := by
  have beside := paired.alongside member member' together outside
  obtain ⟨kind, -, -⟩ := beside.alike outside
  have accounted := (paired.course.accounted a member).1
  have accounted' := (paired.course'.accounted b member').1
  have alike : b.Begins ↔ a.Begins := by rw [Turn.Begins, Turn.Begins, slots, kind]
  by_cases begins : a.Begins
  · rw [accounted.topdown_eq begins, accounted'.topdown_eq (alike.mpr begins), beside.topdown]
  · obtain ⟨x, listed, down, entry, gave⟩ := accounted.kept_topdown begins
    obtain ⟨y, listed', down', entry', gave'⟩ := accounted'.kept_topdown (mt alike.mp begins)
    have level : x.place = a.place := congrArg Entry.place entry
    have level' : y.place = b.place := congrArg Entry.place entry'
    have same := paired.answers listed listed' down down' (level.trans (together.trans level'.symm))
      (by rwa [level]) (by rwa [entry, entry'])
    rw [gave] at same
    exact Except.ok.inj (gave'.symm.trans same.of_ok.1)

theorem facts (paired : t.Paired shape s met place first first' turns turns' ran ran')
    {a b : Turn σ} (member : a ∈ turns) (member' : b ∈ turns') (together : a.place = b.place)
    (slots : a.slot = b.slot) (outside : ¬ place <+: a.place) :
    Context.SameFacts { a.ctx with bottomup := b.ctx.bottomup } b.ctx := by
  have beside := paired.alongside member member' together outside
  obtain ⟨scope, -⟩ := paired.scope_eq member member' outside beside
  have topdown := paired.topdown_eq member member' together slots outside
  have accounted := (paired.course.accounted a member).1
  have accounted' := (paired.course'.accounted b member').1
  constructor
  · rw [accounted'.ctx_eq, accounted.ctx_eq, scope, topdown]
    rfl
  · exact Bool.eq_iff_iff.mpr (accounted'.visit_isSome_iff.trans
      (slots ▸ accounted.visit_isSome_iff.symm))

theorem result_eq {first first' : Entry σ} {turns turns' : List (Turn σ)}
    {ran ran' : Except Fault Entries × Store σ}
    (paired : t.Paired .analysis s met place first first' turns turns' ran ran')
    (handlers : t.PureAt s met fun _ => True) {a b : Turn σ} (member : a ∈ turns)
    (member' : b ∈ turns') (together : a.place = b.place) (outside : ¬ place <+: a.place)
    (apart : ¬ a.place <+: place) {result result' : Entries}
    (gave : (t.outcome .analysis a.entry).1 = .ok result)
    (gave' : (t.outcome .analysis b.entry).1 = .ok result') : result' = result := by
  have beside := paired.alongside member member' together outside
  have node := beside.node_eq apart
  have visits := visit_alike handlers paired.params (paired.meets.of_comes beside.comes) _ _
    beside.passed beside.stamped _ _ (paired.kept a member).1 (paired.kept' b member').1
  have answers := visits.1
  rw [outcome] at gave gave'
  rw [node, beside.topdown, beside.inherited] at gave'
  rw [gave, gave'] at answers
  exact Except.ok.inj answers.of_ok.1

private theorem bottomup_eq {first first' : Entry σ} {turns turns' : List (Turn σ)}
    {ran ran' : Except Fault Entries × Store σ}
    (paired : t.Paired .analysis s met place first first' turns turns' ran ran')
    (handlers : t.PureAt s met fun _ => True) {a b : Turn σ} (member : a ∈ turns)
    (member' : b ∈ turns') (together : a.place = b.place) (slots : a.slot = b.slot)
    (outside : ¬ place <+: a.place) (apart : ¬ a.place <+: place) :
    b.ctx.bottomup = a.ctx.bottomup := by
  have accounted := (paired.course.accounted a member).1
  have accounted' := (paired.course'.accounted b member').1
  by_cases down : a.slot = .topdown
  · rw [accounted.bottomup_of_down down, accounted'.bottomup_of_down (slots ▸ down)]
  obtain ⟨-, -, length⟩ := (paired.alongside member member' together outside).alike outside
  obtain ⟨results, told, counted, collected⟩ := accounted.exists_results down
  obtain ⟨results', told', counted', collected'⟩ := accounted'.exists_results (slots ▸ down)
  have same : results' = results := by
    refine List.ext_getElem (counted'.trans (length.trans counted.symm)) fun i inside' inside => ?_
    obtain ⟨c, listed, placed, gave⟩ := collected i _ (List.getElem?_eq_getElem inside)
    obtain ⟨c', listed', placed', gave'⟩ := collected' i _ (List.getElem?_eq_getElem inside')
    have level : c.place = c'.place := by rw [placed, placed', together]
    have above : a.place <+: c.place := placed ▸ List.prefix_append _ _
    have away : ¬ c.place <+: place := fun further => apart (above.trans further)
    have beyond : ¬ place <+: c.place := by
      intro further
      rcases List.prefix_concat_iff.mp (placed ▸ further) with whole | part
      · exact away (by rw [placed, whole])
      · exact outside part
    exact paired.result_eq handlers listed listed' level beyond away gave gave'
  rw [told, told', same]

theorem exists_turn (paired : t.Paired shape s met place first first' turns turns' ran ran')
    (complete : t.Complete turns') {a : Turn σ} (member : a ∈ turns) (outside : ¬ place <+: a.place)
    {b : Turn σ} (member' : b ∈ turns') (together : a.place = b.place) :
    ∃ c ∈ turns', c.place = a.place ∧ c.slot = a.slot := by
  have beside := paired.alongside member member' together outside
  obtain ⟨kind, -, -⟩ := beside.alike outside
  have accounted := (paired.course.accounted a member).1
  have accounted' := (paired.course'.accounted b member').1
  by_cases begins : a.Begins
  · by_cases down : a.slot = .topdown
    · obtain ⟨c, listed, topdown, entry⟩ :=
        accounted'.exists_down member' (kind ▸ accounted.composite_of_down down)
      exact ⟨c, listed, (congrArg Entry.place entry).trans together.symm, topdown.trans down.symm⟩
    · have simple := begins.resolve_left down
      have down' : b.slot ≠ .topdown := fun topdown => by
        cases (kind ▸ accounted'.composite_of_down topdown).symm.trans simple
      exact ⟨b, member', together.symm, by
        rw [accounted.slot_eq_ofKind down, accounted'.slot_eq_ofKind down', kind]⟩
  -- Its own way down is matched first; what it gave, the other gave as well.
  · obtain ⟨x, there, down, entry, gave⟩ := accounted.kept_topdown begins
    have composite : a.entry.node.kind.isComposite = true :=
      entry ▸ (paired.course.accounted x there).1.composite_of_down down
    obtain ⟨y, there', down', entry'⟩ := accounted'.exists_down member' (kind ▸ composite)
    have level : x.place = a.place := congrArg Entry.place entry
    have level' : y.place = b.place := congrArg Entry.place entry'
    have same := paired.answers there there' down down' (level.trans (together.trans level'.symm))
      (by rwa [level]) (by rwa [entry, entry'])
    rw [gave] at same
    obtain ⟨⟨own, listed, ownEntry, ownSlot⟩, -⟩ := complete y there' down' _ same.of_ok.1
    refine ⟨own, listed, ?_, ?_⟩
    · exact (congrArg Entry.place (ownEntry.trans entry')).trans together.symm
    · rw [accounted.slot_eq_ofKind fun topdown => begins (Or.inl topdown),
        (paired.course'.accounted own listed).1.slot_eq_ofKind ownSlot, ownEntry, entry', kind]

theorem visited (paired : t.Paired shape s met place first first' turns turns' ran ran')
    {result : ρ} (succeeds : ran'.1 = .ok result) {a : Turn σ} (member : a ∈ turns)
    (outside : ¬ place <+: a.place) : ∃ b ∈ turns', b.place = a.place ∧ b.slot = a.slot := by
  have complete := paired.course'.visited.complete result succeeds
  generalize placed : a.place = here at outside
  induction here using List.reverseRecOn generalizing a with
  | nil =>
    have reached := paired.course'.visited
    rw [succeeds] at reached
    obtain ⟨b, listed, entry⟩ := reached.exists_turn
    have together : a.place = b.place := by rw [placed, Turn.place, entry, paired.root']
    have found := paired.exists_turn complete member (by rwa [placed]) listed together
    rwa [placed] at found
  | append_singleton here i ih =>
    obtain ⟨x, listed, ⟨down, inner, gave, j, child, childPlace, -⟩, above⟩ :=
      (paired.course.accounted a member).2.from_above paired.root placed
    have apart : ¬ place <+: here := fun further =>
      outside (further.trans (List.prefix_append _ _))
    have outside' : ¬ place <+: x.place := by rwa [above]
    obtain ⟨y, listed', level, down'⟩ := ih listed above apart
    rw [down] at down'
    have together : x.place = y.place := above.trans level.symm
    have beside := paired.alongside listed listed' together outside'
    have same := paired.answers listed listed' down down' together outside' beside
    rw [gave] at same
    have index : j = i := by
      have places : x.place ++ [0 + j] = here ++ [i] := childPlace.symm.trans placed
      rw [above] at places
      simpa using places
    have less : i < (traversed y.entry.node).length := by
      rw [(beside.alike outside').2.2, ← index]
      exact (List.getElem?_eq_some_iff.mp child).1
    obtain ⟨b, there, placedBelow⟩ := (complete y listed' down' _ same.of_ok.1).2 i less
    have together' : a.place = b.place := by rw [placed, placedBelow, level]
    have found := paired.exists_turn complete member (by rwa [placed]) there together'
    rwa [placed] at found

end Paired

/-- Away from a place two runs are alike: the same turns in the same circumstances, but for the
results of children that nodes above the place are told. -/
structure Unaffected (place : Position) (turns turns' : List (Turn σ))
    (ran ran' : Except Fault ρ × Store σ) : Prop where
  facts : ∀ a ∈ turns, ∀ b ∈ turns', a.place = b.place → a.slot = b.slot → ¬ place <+: a.place →
    Context.SameFacts { a.ctx with bottomup := b.ctx.bottomup } b.ctx
  apart : ∀ a ∈ turns, ∀ b ∈ turns', a.place = b.place → a.slot = b.slot → ¬ place <+: a.place →
    ¬ a.place <+: place → b.entry.node = a.entry.node ∧ a.ctx.SameFacts b.ctx
  visited : ∀ result, ran'.1 = .ok result → ∀ a ∈ turns, ¬ place <+: a.place →
    ∃ b ∈ turns', b.place = a.place ∧ b.slot = a.slot
  visited' : ∀ result, ran.1 = .ok result → ∀ b ∈ turns', ¬ place <+: b.place →
    ∃ a ∈ turns, a.place = b.place ∧ a.slot = b.slot

theorem AboveAgree.symm {turns turns' : List (Turn σ)}
    (above : t.AboveAgree met place turns turns') : t.AboveAgree met place turns' turns :=
  fun b member' a member down' down together further away facts =>
    (above a member b member' down down' together.symm (together ▸ further) (together ▸ away)
      facts.symm).symm

variable {first first' : Entry σ} {turns turns' : List (Turn σ)}
  {ran ran' : Except Fault ρ × Store σ}

theorem Paired.symm (paired : t.Paired shape s met place first first' turns turns' ran ran') :
    t.Paired shape s met place first' first turns' turns ran' ran where
  course := paired.course'
  course' := paired.course
  root := paired.root'
  root' := paired.root
  kept := paired.kept'
  kept' := paired.kept
  meets := paired.meets'
  meets' := paired.meets
  params := paired.params
  down := paired.down
  above := paired.above.symm
  begins := paired.begins.symm (paired.root'.trans paired.root.symm)

private theorem Paired.unaffected
    (paired : t.Paired shape s met place first first' turns turns' ran ran')
    (results : ∀ a ∈ turns, ∀ b ∈ turns', a.place = b.place → a.slot = b.slot →
      ¬ place <+: a.place → ¬ a.place <+: place → b.ctx.bottomup = a.ctx.bottomup) :
    Unaffected place turns turns' ran ran' where
  facts _ member _ member' := paired.facts member member'
  apart a member b member' together slots outside away := by
    have facts := paired.facts member member' together slots outside
    rw [results a member b member' together slots outside away] at facts
    exact ⟨(paired.alongside member member' together outside).node_eq away, facts⟩
  visited _ succeeds _ member outside := paired.visited succeeds member outside
  visited' _ succeeds _ member outside := paired.symm.visited succeeds member outside

/-- Handlers may meet the nodes of the tree and what a run over it begins with. -/
structure Meeting (t : Traversal σ) (met : Value → Prop) (first : Entry σ) : Prop where
  tree : Meets first.start met first.node
  topdown : met first.topdown
  inherited : met first.inherited
  params : ∀ p ∈ t.params, met p.2

/-- Runs over two trees are alike away from a place, if the chains on the way down to it agree. -/
def Independent (t : Traversal σ) (shape : Shape σ ρ) (met : Value → Prop) (place : Position)
    (first first' : Entry σ) : Prop :=
  ∀ turns turns', t.Course shape first turns (t.outcome shape first) →
    t.Course shape first' turns' (t.outcome shape first') → t.AboveAgree met place turns turns' →
      Unaffected place turns turns' (t.outcome shape first) (t.outcome shape first')

private theorem paired_of_replaced (sound : shape.Sound) (still : t.Still) {first : Entry σ}
    {root' : Expr}
    (root : first.place = []) (replaced : Replaced first.start place first.node root')
    (meeting : t.Meeting met first) (meets' : Meets first.start met root')
    (handlers : t.PureAt first.start met (· = .topdown)) {turns turns' : List (Turn σ)}
    {ran ran' : Except Fault ρ × Store σ} (course : t.Course shape first turns ran)
    (course' : t.Course shape { first with node := root' } turns' ran')
    (above : t.AboveAgree met place turns turns') :
    t.Paired shape first.start met place first { first with node := root' } turns turns' ran
      ran' where
  course := course
  course' := course'
  root := root
  root' := root
  kept := (course.visited.keeps sound still (Store.spares_of_tables_eq rfl)).1
  kept' := (course'.visited.keeps sound still (Store.spares_of_tables_eq rfl)).1
  meets := meeting.tree
  meets' := meets'
  params := meeting.params
  down := handlers
  above := above
  begins := ⟨rfl, rfl, meeting.topdown, meeting.inherited, .self, .self,
    Or.inr ⟨place, by rw [root, List.nil_append], replaced⟩⟩

theorem Accounted.bottomup_eq_none {turns : List (Turn σ)} {turn : Turn σ}
    (accounted : t.Accounted .transforming turns turn) : turn.ctx.bottomup = none := by
  cases accounted with
  | down | leaf | up => rfl

private theorem independent_analysis (still : t.Still) {first : Entry σ} {root' : Expr}
    (root : first.place = []) (replaced : Replaced first.start place first.node root')
    (meeting : t.Meeting met first) (meets' : Meets first.start met root')
    (handlers : t.PureAt first.start met fun _ => True) :
    t.Independent .analysis met place first { first with node := root' } := by
  intro turns turns' course course' above
  have paired := paired_of_replaced Shape.analysis_sound still root replaced meeting meets'
    (fun slot _ => handlers slot trivial) course course' above
  exact paired.unaffected fun a member b member' => paired.bottomup_eq handlers member member'

private theorem independent_transforming (still : t.Still) {first : Entry σ} {root' : Expr}
    (root : first.place = []) (replaced : Replaced first.start place first.node root')
    (meeting : t.Meeting met first) (meets' : Meets first.start met root')
    (handlers : t.PureAt first.start met (· = .topdown)) :
    t.Independent .transforming met place first { first with node := root' } := by
  intro turns turns' course course' above
  have paired := paired_of_replaced Shape.transforming_sound still root replaced meeting meets'
    handlers course course' above
  refine paired.unaffected fun a member b member' _ _ _ _ => ?_
  rw [(course.accounted a member).1.bottomup_eq_none,
    (course'.accounted b member').1.bottomup_eq_none]

/-- The topdown value and the scope are threaded along paths. So a subtree may be replaced without
effect on what pure handlers are told away from it, if the chains on the way down to it agree. -/
theorem topdown_and_scope_follow_paths (t : Traversal σ) (topdown : Value) (scope : Option Scope)
    (root : Expr) (s : Store σ) :
    (∃ turns, t.Threading .analysis (rootEntry topdown scope root s) turns
      ((t.analyse topdown (scope.getD Scope.empty) root).run s)) ∧
    (∃ turns, t.Threading .transforming (rootEntry topdown scope root s) turns
      ((t.transform topdown (scope.getD Scope.empty) root).run s)) ∧
    ∀ (met : Value → Prop) (place : Position) (root' : Expr), Replaced s place root root' →
      t.Meeting met (rootEntry topdown scope root s) → Meets s met root' → t.Still →
        ((t.PureAt s met fun _ => True) → t.Independent .analysis met place
          (rootEntry topdown scope root s) (rootEntry topdown scope root' s)) ∧
        (t.PureAt s met (· = .topdown) → t.Independent .transforming met place
          (rootEntry topdown scope root s) (rootEntry topdown scope root' s)) := by
  refine ⟨?_, ?_, fun met place root' replaced meeting meets' still => ⟨?_, ?_⟩⟩
  · obtain ⟨turns, course⟩ := t.exists_course Shape.analysis_sound (rootEntry topdown scope root s)
    exact ⟨turns, course.threading rfl⟩
  · obtain ⟨turns, course⟩ :=
      t.exists_course Shape.transforming_sound (rootEntry topdown scope root s)
    exact ⟨turns, course.threading rfl⟩
  · exact independent_analysis still rfl replaced meeting meets'
  · exact independent_transforming still rfl replaced meeting meets'

end Traversal

private theorem Handler.pure_of_reads {s : Store σ} {answer : Expr → Context σ → Value}
    (reads : ∀ node ctx ctx', ctx.SameFacts ctx' → answer node ctx' = answer node ctx) :
    Handler.Pure s (fun _ => True) fun node ctx => pure (answer node ctx) := by
  intro node ctx ctx' _ _ facts _
  simp only [reads node ctx ctx' facts]
  exact Action.alike_pure trivial

namespace Setup

open Traversal

private theorem pureAt {setup : Setup σ} {s : Store σ}
    (installed : ∀ i ∈ setup.installs, Handler.Pure s (fun _ => True) i.added)
    (slots : Slot → Prop) : setup.traversal.PureAt s (fun _ => True) slots := by
  intro slot _ target
  exact setup.forall_link installed (Standard.run_pure trivial fun _ _ _ _ => trivial) slot target

/-- A call `g` of two arguments, the second of which is the variable `b`. -/
def twoArguments (tag : Tag) (first : Expr) : Expr :=
  .call tag (.symbol 1 "g") [(none, first), (none, .symbol 2 "b")]

private theorem twoArguments_replaced :
    Replaced sixNodes [0] (twoArguments 0 (.symbol 3 "a")) (twoArguments 5 (.symbol 4 "c")) := by
  have split (tag : Tag) (first : Expr) :
      traversed (twoArguments tag first) = [] ++ first :: [.symbol 2 "b"] := rfl
  refine .inside ?_ ?_ (split 0 _) (split 5 _) .here
  · rfl
  · rfl

private theorem twoArguments_meets {tag : Tag} {first : Expr} (old : tag < 6)
    (small : first.tag < 6)
    (simple : traversed first = []) : Meets sixNodes (fun _ => True) (twoArguments tag first) where
  known n comes := by
    have leaf {root n : Expr} (bare : traversed root = []) (comes : ComesTo root n) : n = root := by
      cases comes with
      | self => rfl
      | under child => rw [bare] at child; cases child
    cases comes with
    | self => exact old
    | under child comes =>
      rcases List.mem_pair.mp child with rfl | rfl
      · rw [leaf simple comes]
        exact small
      · rw [leaf rfl comes]
        decide
  nodes _ _ := trivial
  stamps _ _ _ _ := trivial

def deeper : Handler Unit := fun _ ctx => pure (.list [ctx.topdown])

def depthSetup : Setup Unit := ⟨.analyse, [.handler .topdown deeper], {}, none, []⟩

private theorem depthSetup_ending {turn : Turn Unit} (down : turn.slot = .topdown) :
    depthSetup.traversal.ending turn = (.ok (.list [turn.ctx.topdown]), turn.before) := by
  have chain : depthSetup.traversal.config.fullChain .topdown turn.target =
      [.installed deeper, .standard .passTopdown] := by
    cases turn.target <;> rfl
  rw [ending, down, chain]
  rfl

/-- The second argument is told the same, whatever the first one is. -/
theorem topdown_and_scope_follow_paths_twoArguments :
    let first := rootEntry .none none (twoArguments 0 (.symbol 3 "a")) sixNodes
    let first' := rootEntry .none none (twoArguments 5 (.symbol 4 "c")) sixNodes
    Replaced sixNodes [0] first.node first'.node ∧
      depthSetup.traversal.Meeting (fun _ => True) first ∧
      Meets sixNodes (fun _ => True) first'.node ∧ depthSetup.traversal.Still ∧
      depthSetup.traversal.PureAt sixNodes (fun _ => True) (fun _ => True) ∧
      ∀ turns turns',
        depthSetup.traversal.Course .analysis first turns
          (depthSetup.traversal.outcome .analysis first) →
        depthSetup.traversal.Course .analysis first' turns'
          (depthSetup.traversal.outcome .analysis first') →
        Unaffected [0] turns turns' (depthSetup.traversal.outcome .analysis first)
          (depthSetup.traversal.outcome .analysis first') := by
  intro first first'
  have meeting : depthSetup.traversal.Meeting (fun _ => True) first :=
    ⟨twoArguments_meets (by decide) (by decide) rfl, trivial, trivial, fun _ _ => trivial⟩
  have meets' : Meets sixNodes (fun _ => True) first'.node :=
    twoArguments_meets (by decide) (by decide) rfl
  have still : depthSetup.traversal.Still := by
    refine depthSetup.forall_link (fun i member => ?_)
      (Standard.run_within fun _ => Store.spares_bound _)
    obtain rfl := List.mem_singleton.mp member
    exact fun _ _ _ => Action.within_pure (Store.spares_bound _) _
  have handlers : depthSetup.traversal.PureAt sixNodes (fun _ => True) (fun _ => True) := by
    refine pureAt (fun i member => ?_) _
    obtain rfl := List.mem_singleton.mp member
    exact Handler.pure_of_reads fun _ _ _ facts => by rw [facts.given]
  refine ⟨twoArguments_replaced, meeting, meets', still, handlers, ?_⟩
  intro turns turns' course course'
  have independent := topdown_and_scope_follow_paths depthSetup.traversal .none none
    (twoArguments 0 (.symbol 3 "a")) sixNodes
  refine (independent.2.2 _ [0] _ twoArguments_replaced meeting meets' still).1 handlers turns
    turns' course course' ?_
  intro a _ b _ down down' _ _ _ facts
  have same : b.ctx.topdown = a.ctx.topdown := by rw [facts.given]
  rw [depthSetup_ending down, depthSetup_ending down', same]
  exact .result trivial

def firstArgument : Handler Unit := fun node _ =>
  pure (match node.args? with
    | some (.symbol _ name :: _) => .str name
    | _ => .none)

/-- A handler that reports what is passed down to the variable `b`. -/
def report : Handler Unit := fun node ctx =>
  pure (.map (if node.symbolName? = some "b" then [(some "seen", .list [ctx.topdown])] else []))

def reportSetup : Setup Unit :=
  ⟨.analyse, [.handler .topdown firstArgument, .handler .symbol report], {}, none, []⟩

/-- Pure handlers may carry what they see below a node to all its children: here the second argument
is told the name of the first one. -/
theorem sibling_is_told_of_replacement :
    reportSetup.traversal.PureAt sixNodes (fun _ => True) (fun _ => True) ∧
      Replaced sixNodes [0] (twoArguments 0 (.symbol 3 "a")) (twoArguments 5 (.symbol 4 "c")) ∧
      ((reportSetup.traversal.analyse .none Scope.empty (twoArguments 0 (.symbol 3 "a"))).run
        sixNodes).1 = .ok [(some "seen", .list [.str "a"])] ∧
      ((reportSetup.traversal.analyse .none Scope.empty (twoArguments 5 (.symbol 4 "c"))).run
        sixNodes).1 = .ok [(some "seen", .list [.str "c"])] := by
  refine ⟨pureAt (fun i member => ?_) _, twoArguments_replaced, rfl, rfl⟩
  rcases List.mem_pair.mp member with rfl | rfl
  · exact Handler.pure_of_reads fun _ _ _ _ => rfl
  · exact Handler.pure_of_reads fun _ _ _ facts => by rw [facts.given]

end Setup

end TreePass
