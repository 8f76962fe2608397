import TreePass.Proofs.Dispatch.Tracing
import TreePass.Proofs.Ordering.Recording
import TreePass.Proofs.Refilling

/-!
Two traversals side by side. Their stores may differ in the record of warnings and notes, and their
chains in handlers that only run the rest of the chain. If the handlers respect this likeness and
the traversals find targets with like chains, both end in the same way, and again with like stores.
-/

set_option autoImplicit false
set_option relaxedAutoImplicit false

namespace TreePass

variable {σ α β ρ : Type}

/-- How far two stores are alike. -/
inductive Likeness
  /-- They are the same. -/
  | exact
  /-- They may differ in warnings and notes. -/
  | loose
  /-- They may differ in warnings and notes, and what nodes carry as their scopes are scopes. -/
  | tidy

def Likeness.Admits (l : Likeness) (scope : Value) : Prop := l = .tidy → ∃ x, scope = .scope x

namespace Store

def hushed (s : Store σ) : Store σ := { s with warnings := #[], notes := #[] }

/-- Whatever a node carries as its scope is a scope. -/
def Tidy (s : Store σ) : Prop :=
  ∀ tag value, (s.table tag).find? Node.scopeKey = some value →
    value = .none ∨ ∃ scope, value = .scope scope

structure Alike (l : Likeness) (s s' : Store σ) : Prop where
  hushed : s.hushed = s'.hushed
  exact : l = .exact → s = s'
  tidy : l = .tidy → s.Tidy

variable {l : Likeness} {s s' : Store σ}

private theorem table_push_cases (s : Store σ) (table : Table) (tag : Tag) :
    (s.push table).table tag = s.table tag ∨ (s.push table).table tag = table := by
  rcases Nat.lt_trichotomy tag s.tables.size with old | new | beyond
  · exact Or.inl (s.table_push_of_lt table old)
  · rw [new]
    exact Or.inr (s.table_push_self table)
  · refine Or.inl ?_
    have outside : (s.tables.push table).size ≤ tag := by
      rw [Array.size_push]
      exact beyond
    simp only [Store.table, push, Array.getElem?_eq_none outside,
      Array.getElem?_eq_none (Nat.le_of_lt beyond)]

theorem Alike.refl (tidy : l = .tidy → s.Tidy) : Alike l s s := ⟨rfl, fun _ => rfl, tidy⟩

theorem Alike.tables (alike : Alike l s s') : s.tables = s'.tables := by
  have same := congrArg Store.tables alike.hushed
  exact same

theorem Alike.visits (alike : Alike l s s') : s.visits = s'.visits := by
  have same := congrArg Store.visits alike.hushed
  exact same

theorem Alike.stamp?_eq (alike : Alike l s s') (node : Expr) : s.stamp? node = s'.stamp? node := by
  rw [stamp?, stamp?, table_of_tables_eq alike.tables]

private theorem Alike.push_table (alike : Alike l s s') (tag : Tag) :
    Alike l (s.push (s.table tag)) (s'.push (s'.table tag)) where
  hushed := by
    have copied := table_of_tables_eq alike.tables tag
    have pushed := congrArg (fun t => Store.push t (s.table tag)) alike.hushed
    rw [← copied]
    exact pushed
  exact given := by rw [alike.exact given]
  tidy given := by
    intro other value found
    rcases s.table_push_cases (s.table tag) other with old | new
    · rw [old] at found
      exact alike.tidy given other value found
    · rw [new] at found
      exact alike.tidy given tag value found

private theorem Alike.nextVisit (alike : Alike l s s') :
    Alike l { s with visits := s.visits + 1 } { s' with visits := s'.visits + 1 } where
  hushed := by
    have next := congrArg (fun t : Store σ => { t with visits := t.visits + 1 }) alike.hushed
    exact next
  exact given := by rw [alike.exact given]
  tidy given := alike.tidy given

theorem Alike.note (alike : Alike l s s') (entry : Note) :
    Alike l { s with notes := s.notes.push entry } { s' with notes := s'.notes.push entry } where
  hushed := alike.hushed
  exact given := by rw [alike.exact given]
  tidy given := alike.tidy given

theorem Alike.recorded (alike : Alike l s s') (different : l ≠ .exact)
    (warnings warnings' : Array Warning) (notes notes' : Array Note) :
    Alike l { s with warnings := warnings, notes := notes }
      { s' with warnings := warnings', notes := notes' } :=
  ⟨alike.hushed, fun given => absurd given different, alike.tidy⟩

private theorem Alike.admits (alike : Alike l s s') (node : Expr) {inherited : Value}
    (admitted : l.Admits inherited) : l.Admits ((s.stamp? node).getD inherited) := by
  intro given
  have stamped := alike.tidy given node.tag
  unfold stamp?
  split
  · exact admitted given
  · rename_i notEmpty
    cases found : (s.table node.tag).find? Node.scopeKey with
    | none => exact admitted given
    | some value =>
      rcases stamped value found with rfl | scope
      · exact absurd found notEmpty
      · exact scope

end Store

/-- From like stores both actions end in the same way, with related results and like stores. -/
def Action.Matches (l : Likeness) (related : α → β → Prop) (first : Action σ α)
    (second : Action σ β) : Prop :=
  ∀ s s' : Store σ, Store.Alike l s s' → ∃ t t', Store.Alike l t t' ∧
    ((∃ a b, first.run s = (.ok a, t) ∧ second.run s' = (.ok b, t') ∧ related a b) ∨
      ∃ fault, first.run s = (.error fault, t) ∧ second.run s' = (.error fault, t'))

namespace Action

variable {l : Likeness}

private theorem matches_pure {related : α → β → Prop} {a : α} {b : β} (holds : related a b) :
    Matches l related (pure a : Action σ α) (pure b) :=
  fun s s' alike => ⟨s, s', alike, .inl ⟨a, b, rfl, rfl, holds⟩⟩

private theorem matches_fail (related : α → β → Prop) (fault : Fault) :
    Matches l related (fail fault : Action σ α) (fail fault) :=
  fun s s' alike => ⟨s, s', alike, .inr ⟨fault, rfl, rfl⟩⟩

private theorem matches_ofExcept (known : Except Fault α) :
    Matches l Eq (ofExcept known : Action σ α) (ofExcept known) := by
  cases known with
  | ok a => exact matches_pure rfl
  | error fault => exact matches_fail Eq fault

private theorem matches_note (entry : Note) : Matches l Eq (note entry : Action σ Unit)
    (note entry) :=
  fun _ _ alike => ⟨_, _, alike.note entry, .inl ⟨(), (), rfl, rfl, rfl⟩⟩

private theorem matches_newVisit : Matches l Eq (newVisit : Action σ Nat) newVisit :=
  fun _ _ alike => ⟨_, _, alike.nextVisit, .inl ⟨_, _, rfl, rfl, alike.visits⟩⟩

theorem Matches.mono {related related' : α → β → Prop} {first : Action σ α} {second : Action σ β}
    (ends : Matches l related first second) (weaker : ∀ a b, related a b → related' a b) :
    Matches l related' first second := by
  intro s s' alike
  obtain ⟨t, t', alike', ended⟩ := ends s s' alike
  refine ⟨t, t', alike', ended.imp_left fun ⟨a, b, ran, ran', holds⟩ => ?_⟩
  exact ⟨a, b, ran, ran', weaker a b holds⟩

theorem Matches.bind {α' β' : Type} {related : α → β → Prop} {related' : α' → β' → Prop}
    {first : Action σ α} {second : Action σ β} {next : α → Action σ α'} {next' : β → Action σ β'}
    (begins : Matches l related first second)
    (goes : ∀ a b, related a b → Matches l related' (next a) (next' b)) :
    Matches l related' (first >>= next) (second >>= next') := by
  intro s s' alike
  obtain ⟨t, t', alike', ended⟩ := begins s s' alike
  rcases ended with ⟨a, b, ran, ran', holds⟩ | ⟨fault, ran, ran'⟩
  · rw [run_bind_of_ok ran, run_bind_of_ok ran']
    exact goes a b holds t t' alike'
  · rw [run_bind_of_error ran, run_bind_of_error ran']
    exact ⟨t, t', alike', .inr ⟨fault, rfl, rfl⟩⟩

theorem Matches.bind_eq {α' β' : Type} {related' : α' → β' → Prop} {first second : Action σ α}
    {next : α → Action σ α'} {next' : α → Action σ β'} (begins : Matches l Eq first second)
    (goes : ∀ a, Matches l related' (next a) (next' a)) :
    Matches l related' (first >>= next) (second >>= next') :=
  begins.bind fun a _ same => same ▸ goes a

theorem Matches.catchSkip {first second : Action σ α} (ends : Matches l Eq first second)
    (visit : Nat) : Matches l Eq (first.catchSkip visit) (second.catchSkip visit) := by
  intro s s' alike
  obtain ⟨t, t', alike', ended⟩ := ends s s' alike
  refine ⟨t, t', alike', ?_⟩
  rcases ended with ⟨a, b, ran, ran', rfl⟩ | ⟨fault, ran, ran'⟩
  · exact .inl ⟨_, _, run_catchSkip_of_ok ran, run_catchSkip_of_ok ran', rfl⟩
  · simp only [Action.catchSkip, ran, ran']
    cases fault with
    | skip other value =>
      by_cases same : other = visit
      · simp only [same, ↓reduceIte]
        exact .inl ⟨_, _, rfl, rfl, rfl⟩
      · simp only [same, ↓reduceIte]
        exact .inr ⟨_, rfl, rfl⟩
    | _ => exact .inr ⟨_, rfl, rfl⟩

theorem matches_exact_refl (action : Action σ α) : Matches .exact Eq action action := by
  intro s s' alike
  obtain rfl := alike.exact rfl
  refine ⟨(action.run s).2, (action.run s).2, .refl (by simp), ?_⟩
  cases ran : action.run s with
  | mk outcome t =>
    cases outcome with
    | ok a => exact .inl ⟨a, a, rfl, rfl, rfl⟩
    | error fault => exact .inr ⟨fault, rfl, rfl⟩

theorem Matches.eq_of_exact {first second : Action σ α} (ends : Matches .exact Eq first second) :
    first = second := by
  have runs : first.run = second.run := by
    funext s
    obtain ⟨t, t', alike, ended⟩ := ends s s (.refl (by simp))
    obtain rfl := alike.exact rfl
    rcases ended with ⟨a, b, ran, ran', rfl⟩ | ⟨fault, ran, ran'⟩
    · rw [ran, ran']
    · rw [ran, ran']
  cases first
  cases second
  simpa using runs

end Action

open TreePass.Action (Matches)

namespace Node

variable {l : Likeness}

private theorem copyTag_matches (tag : Tag) :
    Matches l Eq (copyTag tag : Action σ Tag) (copyTag tag) := by
  intro s s' alike
  have sizes : s.tables.size = s'.tables.size := congrArg Array.size alike.tables
  exact ⟨_, _, alike.push_table tag, .inl ⟨_, _, rfl, rfl, sizes⟩⟩

private theorem remake_matches (tag : Tag) (make : Tag → Expr) :
    Matches l Eq (do return make (← copyTag tag) : Action σ Expr)
      (do return make (← copyTag tag)) :=
  (copyTag_matches tag).bind_eq fun _ => Action.matches_pure rfl

private theorem cloneArgs_matches {args : List (Option String × Expr)}
    (each : ∀ a ∈ args, Matches l Eq (a.2.clone : Action σ Expr) a.2.clone) :
    Matches l Eq (cloneArgs args : Action σ _) (cloneArgs args) := by
  induction args with
  | nil => exact Action.matches_pure rfl
  | cons a rest ih =>
    obtain ⟨name, a⟩ := a
    have later := ih fun b h => each b (List.mem_cons_of_mem _ h)
    refine (each (name, a) List.mem_cons_self).bind_eq fun copy => ?_
    exact later.bind_eq fun others => Action.matches_pure rfl

private theorem cloneParams_matches {params : List (String × Option Expr)}
    (each : ∀ p ∈ params, ∀ d ∈ p.2, Matches l Eq (d.clone : Action σ Expr) d.clone) :
    Matches l Eq (cloneParams params : Action σ _) (cloneParams params) := by
  induction params with
  | nil => exact Action.matches_pure rfl
  | cons p rest ih =>
    have later := ih fun q h => each q (List.mem_cons_of_mem _ h)
    obtain ⟨name, d | d⟩ := p
    · exact later.bind_eq fun others => Action.matches_pure rfl
    · refine (each (name, some d) List.mem_cons_self d rfl).bind_eq fun copy => ?_
      exact later.bind_eq fun others => Action.matches_pure rfl

private theorem clone_matches (node : Expr) : Matches l Eq
    (node.clone : Action σ Expr) node.clone := by
  induction node using Node.induction with
  | atomic tag value => exact remake_matches tag _
  | symbol tag name => exact remake_matches tag _
  | primitive tag ref => exact remake_matches tag _
  | pairlist tag params ih =>
    exact (cloneParams_matches ih).bind_eq fun copies => remake_matches tag _
  | call tag callee args ihCallee ih =>
    refine ihCallee.bind_eq fun copy => ?_
    exact (cloneArgs_matches ih).bind_eq fun copies => remake_matches tag _

private theorem withChildren_matches (node : Expr) (fresh : List Expr) :
    Matches l Eq (node.withChildren fresh : Action σ Expr) (node.withChildren fresh) := by
  rw [withChildren_eq]
  split_ifs
  · exact remake_matches _ _
  · exact Action.matches_fail _ _

end Node

structure Shape.Respects (l : Likeness) (shape : Shape σ ρ) : Prop where
  leaf : ∀ node, Matches l Eq (shape.leaf node) (shape.leaf node)
  composite : ∀ node results,
    Matches l Eq (shape.composite node results) (shape.composite node results)
  accept : ∀ made value result, shape.accept made value = some result → Matches l Eq result result

namespace Shape

variable {l : Likeness}

private theorem analysis_respects : (analysis : Shape σ Entries).Respects l where
  leaf _ := Action.matches_pure rfl
  composite _ _ := Action.matches_pure rfl
  accept made value result accepted := by
    obtain ⟨entries, -, rfl⟩ := Option.map_eq_some_iff.mp accepted
    exact Action.matches_pure rfl

private theorem transforming_respects : (transforming : Shape σ Expr).Respects l where
  leaf := Node.clone_matches
  composite node fresh := by
    cases node with
    | call tag callee args =>
      exact (Node.clone_matches callee).bind_eq fun copy => Node.withChildren_matches _ _
    | atomic | symbol | primitive | pairlist => exact Node.withChildren_matches _ _
  accept made value result accepted := by
    obtain ⟨node, -, rfl⟩ := Option.map_eq_some_iff.mp accepted
    cases made with
    | none => exact Node.clone_matches node
    | some fresh =>
      by_cases same : node.same fresh = true
      · simp only [same, ↓reduceIte]
        exact Action.matches_pure rfl
      · simp only [same, Bool.false_eq_true, ↓reduceIte]
        exact Node.clone_matches node

end Shape

/-- The same circumstances but for the rest of the chain, which is matched on every node. -/
structure Context.Alike (l : Likeness) (ctx ctx' : Context σ) : Prop where
  given : ctx' = { ctx with next := ctx'.next }
  admitted : l.Admits ctx.scope
  next : Option.Rel (fun f g => ∀ node, Matches l Eq (f node) (g node)) ctx.next ctx'.next

/-- A handler that ends in the same way in like circumstances: it does not look at the record of
warnings and notes, and where stores are tidy it leaves them so. Whether, how often and with which
nodes it runs the rest of its chain is left open. -/
def Handler.Discreet (l : Likeness) (handler : Handler σ) : Prop :=
  ∀ node ctx ctx', Context.Alike l ctx ctx' →
    Matches l Eq (handler node ctx) (handler node ctx')

section Handlers

variable {l : Likeness} {ctx ctx' : Context σ}

private theorem Context.Alike.withNext (alike : Context.Alike l ctx ctx')
    {next next' : Option (Expr → Action σ Value)}
    (rest : Option.Rel (fun f g => ∀ node, Matches l Eq (f node) (g node)) next next') :
    Context.Alike l { ctx with next := next } { ctx' with next := next' } where
  given := by
    have kept := congrArg (fun c : Context σ => { c with next := next' }) alike.given
    exact kept
  admitted := alike.admitted
  next := rest

theorem Context.Alike.callNext (alike : Context.Alike l ctx ctx') (node : Expr) :
    Matches l Eq (ctx.callNext node) (ctx'.callNext node) := by
  have next := alike.next
  unfold Context.callNext
  revert next
  generalize ctx.next = f
  generalize ctx'.next = g
  intro next
  cases next with
  | none => exact Action.matches_fail _ _
  | some each => exact each node

theorem Context.Alike.skip (alike : Context.Alike l ctx ctx') (value : Value) :
    Matches l Eq (ctx.skip value) (ctx'.skip value) := by
  have visits : ctx'.visit = ctx.visit := by rw [alike.given]
  rw [Context.skip, Context.skip, visits]
  cases ctx.visit with
  | none => exact Action.matches_fail _ _
  | some visit => exact Action.matches_fail _ _

theorem Standard.run_discreet (handler : Standard) :
    Handler.Discreet l (handler.run : Handler σ) := by
  intro node ctx ctx' alike
  have topdown : ctx'.topdown = ctx.topdown := by rw [alike.given]
  have bottomup : ctx'.bottomup = ctx.bottomup := by rw [alike.given]
  cases handler with
  | keepNode => exact Action.matches_pure rfl
  | emptyAnalysis => exact Action.matches_pure rfl
  | passTopdown => exact Action.matches_pure topdown.symm
  | mergeAnalysis =>
    simp only [run, bottomup]
    exact (Action.matches_ofExcept _).bind_eq fun merged => Action.matches_pure rfl

theorem Handler.discreet_of_exact (handler : Handler σ) : handler.Discreet .exact := by
  intro node ctx ctx' alike
  have next : ctx.next = ctx'.next := by
    have nexts := alike.next
    revert nexts
    generalize ctx.next = f
    generalize ctx'.next = g
    intro nexts
    cases nexts with
    | none => rfl
    | some each => exact congrArg some (funext fun n => (each n).eq_of_exact)
  have same : ctx' = ctx := by rw [alike.given, ← next]
  rw [same]
  exact Action.matches_exact_refl _

end Handlers

def passOn : Handler σ := fun node ctx => ctx.callNext node

/-- The second chain is the first one with handlers in it that only run the rest. -/
inductive Padded : List (Link (Handler σ)) → List (Link (Handler σ)) → Prop
  | last (link : Link (Handler σ)) : Padded [link] [link]
  | link {chain chain' : List (Link (Handler σ))} (link : Link (Handler σ))
      (rest : Padded chain chain') : Padded (link :: chain) (link :: chain')
  | pass {chain chain' : List (Link (Handler σ))} (rest : Padded chain chain') :
      Padded chain (.installed passOn :: chain')

namespace Padded

variable {chain chain' : List (Link (Handler σ))}

private theorem ne_nil (padded : Padded chain chain') : chain ≠ [] ∧ chain' ≠ [] := by
  induction padded with
  | last => exact ⟨List.cons_ne_nil _ _, List.cons_ne_nil _ _⟩
  | link => exact ⟨List.cons_ne_nil _ _, List.cons_ne_nil _ _⟩
  | pass rest ih => exact ⟨ih.1, List.cons_ne_nil _ _⟩

theorem append (padded : Padded chain chain') (front : List (Link (Handler σ))) :
    Padded (front ++ chain) (front ++ chain') := by
  induction front with
  | nil => exact padded
  | cons link front ih => exact .link link ih

/-- Both chains end in the same way on every node: an inserted handler adds nothing to what the rest
behind it does. -/
theorem invoke {l : Likeness} (padded : Padded chain chain')
    (discreet : ∀ link ∈ chain, Handler.Discreet l link.run) {ctx ctx' : Context σ}
    (alike : Context.Alike l ctx ctx') (node : Expr) :
    Matches l Eq (Traversal.invoke ctx chain node) (Traversal.invoke ctx' chain' node) := by
  induction padded generalizing node with
  | last link =>
    exact discreet link List.mem_cons_self node _ _ (alike.withNext .none)
  | link link rest ih =>
    rw [Traversal.invoke_cons ctx link rest.ne_nil.1, Traversal.invoke_cons ctx' link rest.ne_nil.2]
    have below := ih fun other member => discreet other (List.mem_cons_of_mem _ member)
    exact discreet link List.mem_cons_self node _ _ (alike.withNext (.some below))
  | pass rest ih =>
    rw [Traversal.invoke_cons ctx' _ rest.ne_nil.2]
    exact ih discreet node

end Padded

namespace Traversal

/-- Traversals that find targets with like chains, in like circumstances. -/
structure Agrees (l : Likeness) (t t' : Traversal σ) : Prop where
  mode : t'.mode = t.mode
  context : t'.context = t.context
  discreet : ∀ slot target, ∀ link ∈ t.config.fullChain slot target, Handler.Discreet l link.run
  leaf : ∀ slot, Padded (t.config.fullChain slot none) (t'.config.fullChain slot none)
  target : ∀ node scope, l.Admits scope →
    Matches l (fun found found' => ∀ slot,
        Padded (t.config.fullChain slot found) (t'.config.fullChain slot found'))
      (t.targetOf node scope) (t'.targetOf node scope)

namespace Agrees

variable {l : Likeness} {t t' : Traversal σ} {shape : Shape σ ρ}

theorem chain (agrees : Agrees l t t') {slot : Slot} {found found' : Option Identity}
    (padded : Padded (t.config.fullChain slot found) (t'.config.fullChain slot found'))
    {scope : Value} (admitted : l.Admits scope) (topdown : Value)
    (bottomup : Option (List Value)) (visit : Option Nat) (node : Expr) :
    Matches l Eq
      (invoke (t.context topdown scope bottomup visit) (t.config.fullChain slot found) node)
      (invoke (t'.context topdown scope bottomup visit) (t'.config.fullChain slot found')
        node) := by
  rw [agrees.context]
  exact padded.invoke (agrees.discreet slot found) ⟨rfl, admitted, .none⟩ node

theorem finish (agrees : Agrees l t t') (respects : shape.Respects l) (slot : Slot) (kind : Kind)
    (made : Option Expr) (value : Value) :
    Matches l Eq (t.finish shape slot kind made value) (t'.finish shape slot kind made value) := by
  simp only [Traversal.finish, agrees.mode]
  split
  · rename_i result accepted
    exact respects.accept made value result accepted
  · exact Action.matches_fail _ _

theorem scopeAt {inherited : Value} (admitted : l.Admits inherited) (node : Expr) :
    Matches l (fun scope scope' => scope = scope' ∧ l.Admits scope)
      (scopeAt node inherited : Action σ Value) (scopeAt node inherited) := by
  intro s s' alike
  refine ⟨s, s', alike,
    .inl ⟨_, _, run_scopeAt node inherited s, run_scopeAt node inherited s', ?_⟩⟩
  exact ⟨by rw [alike.stamp?_eq], alike.admits node admitted⟩

theorem visitLeaf (agrees : Agrees l t t') (respects : shape.Respects l) {inherited : Value}
    (admitted : l.Admits inherited) (topdown : Value) (node : Expr) :
    Matches l Eq (t.visitLeaf shape topdown inherited node)
      (t'.visitLeaf shape topdown inherited node) := by
  refine (scopeAt admitted node).bind fun scope _ found => ?_
  obtain ⟨rfl, inForce⟩ := found
  refine (respects.leaf node).bind_eq fun made => ?_
  refine (agrees.chain (agrees.leaf _) inForce _ _ _ made).bind_eq fun value => ?_
  exact agrees.finish respects _ _ _ _

theorem visitAll {nodes : List Expr} {inherited : Value}
    (each : ∀ n ∈ nodes, ∀ topdown,
      Matches l Eq (t.visit shape topdown inherited n) (t'.visit shape topdown inherited n))
    (topdown : Value) :
    Matches l Eq (t.visitAll shape topdown inherited nodes)
      (t'.visitAll shape topdown inherited nodes) := by
  induction nodes with
  | nil => exact Action.matches_pure rfl
  | cons node rest ih =>
    have later := ih fun n h => each n (List.mem_cons_of_mem _ h)
    refine (each node List.mem_cons_self topdown).bind_eq fun result => ?_
    exact later.bind_eq fun results => Action.matches_pure rfl

theorem composite (agrees : Agrees l t t') (respects : shape.Respects l) {node : Expr}
    (isComposite : node.kind.isComposite = true)
    (each : ∀ n ∈ traversed node, ∀ topdown inherited, l.Admits inherited →
      Matches l Eq (t.visit shape topdown inherited n) (t'.visit shape topdown inherited n))
    (topdown : Value) {inherited : Value} (admitted : l.Admits inherited) :
    Matches l Eq (t.visit shape topdown inherited node)
      (t'.visit shape topdown inherited node) := by
  rw [visit_of_composite _ _ isComposite, visit_of_composite _ _ isComposite]
  refine (scopeAt admitted node).bind fun scope _ found => ?_
  obtain ⟨rfl, inForce⟩ := found
  refine (agrees.target node scope inForce).bind fun found found' padded => ?_
  have down : Matches l Eq (t.descend found topdown scope node)
      (t'.descend found' topdown scope node) :=
    Action.matches_newVisit.bind_eq fun visit =>
      (agrees.chain (padded .topdown) inForce _ _ _ node).catchSkip visit
  refine down.bind_eq fun outcome => ?_
  cases outcome with
  | skipped value =>
    exact (Action.matches_note _).bind_eq fun _ => agrees.finish respects _ _ _ _
  | done inner =>
    have below := visitAll (fun n h top => each n h top scope inForce) inner
    refine below.bind_eq fun results => ?_
    refine (respects.composite node results).bind_eq fun made => ?_
    refine (agrees.chain (padded _) inForce _ _ _ made).bind_eq fun value => ?_
    exact agrees.finish respects _ _ _ _

/-- Both traversals end in the same way at every node. -/
theorem visit (agrees : Agrees l t t') (respects : shape.Respects l) (node : Expr)
    (topdown : Value) {inherited : Value} (admitted : l.Admits inherited) :
    Matches l Eq (t.visit shape topdown inherited node)
      (t'.visit shape topdown inherited node) := by
  induction node using Node.induction generalizing topdown inherited with
  | atomic | symbol | primitive =>
    rw [visit_of_leaf _ _ rfl, visit_of_leaf _ _ rfl]
    exact agrees.visitLeaf respects admitted topdown _
  | pairlist tag params ih =>
    refine agrees.composite respects rfl (fun n member top above given => ?_) topdown admitted
    obtain ⟨p, listed, found⟩ := List.mem_filterMap.mp member
    exact ih p listed n found top given
  | call tag callee args _ ih =>
    refine agrees.composite respects rfl (fun n member top above given => ?_) topdown admitted
    obtain ⟨a, listed, rfl⟩ := List.mem_map.mp member
    exact ih a listed top given

theorem analyse (agrees : Agrees l t t') (topdown : Value) (scope : Scope) (expr : Expr) :
    Matches l Eq (t.analyse topdown scope expr) (t'.analyse topdown scope expr) :=
  agrees.visit Shape.analysis_respects expr _ fun _ => ⟨scope, rfl⟩

theorem transform (agrees : Agrees l t t') (topdown : Value) (scope : Scope) (expr : Expr) :
    Matches l Eq (t.transform topdown scope expr) (t'.transform topdown scope expr) :=
  agrees.visit Shape.transforming_respects expr _ fun _ => ⟨scope, rfl⟩

end Agrees

end Traversal

end TreePass
