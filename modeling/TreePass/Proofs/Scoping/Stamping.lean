import TreePass.Proofs.Scoping.Collection
import TreePass.Proofs.Scoping.Standing

/-!
Stamping writes at every position the scope of the stack of functions that the position stands in,
and writes nowhere else. It relies on the nodes of the tree being all different: which children of
a function literal stand inside it is decided by identity.
-/

set_option autoImplicit false
set_option relaxedAutoImplicit false

namespace TreePass

/-- A scope that holds the sets of a stack of functions. -/
structure Scope.Fits (policy : Policy) (scope : Scope) (stack : List Literal) : Prop where
  assigned : scope.assigned = policy.assignedBy stack
  bound : scope.bound = policy.boundBy stack

/-- Between two stores a node got the stamp of its stack and kept its other metadata. -/
def Stamped {σ : Type} (policy : Policy) (before after : Store σ) (p : Expr × List Literal) :
    Prop :=
  ∃ scope : Scope, scope.Fits policy p.2 ∧
    after.table p.1.tag = Table.put Node.scopeKey (.scope scope) (before.table p.1.tag)

/-- Between two stores the given nodes were stamped, and no other node was touched. -/
structure Stamping {σ : Type} (policy : Policy) (before after : Store σ)
    (placed : List (Expr × List Literal)) : Prop where
  frame : Store.Frame (placed.map (·.1.tag)) before after
  stamped : ∀ p ∈ placed, Stamped policy before after p

namespace Stamping

variable {σ : Type} {policy : Policy}

theorem nil (s : Store σ) : Stamping policy s s [] :=
  ⟨.refl _ s, fun _ member => absurd member List.not_mem_nil⟩

theorem single {s : Store σ} {scope : Scope} {stack : List Literal} (node : Expr)
    (fits : scope.Fits policy stack) (live : node.tag < s.tables.size) :
    Stamping policy s (s.update node.tag (Table.put Node.scopeKey (.scope scope)))
      [(node, stack)] where
  frame := by
    refine ⟨by simp, ?_, rfl, rfl⟩
    intro tag _ untouched
    have different : tag ≠ node.tag := by simpa using untouched
    exact s.table_update_of_ne _ different
  stamped p member := by
    obtain rfl := List.mem_singleton.mp member
    exact ⟨scope, fits, s.table_update_self _ live⟩

theorem append {a b c : Store σ} {xs ys : List (Expr × List Literal)}
    (first : Stamping policy a b xs) (second : Stamping policy b c ys)
    (distinct : ((xs ++ ys).map (·.1.tag)).Nodup)
    (live : ∀ p ∈ xs ++ ys, p.1.tag < a.tables.size) : Stamping policy a c (xs ++ ys) where
  frame := by
    have both := second.frame.mono
      (List.subset_append_right (xs.map (·.1.tag)) (ys.map (·.1.tag)))
    rw [List.map_append]
    exact (first.frame.mono (List.subset_append_left _ _)).trans both
  stamped p member := by
    rw [List.map_append] at distinct
    have apart := (List.nodup_append.mp distinct).2.2
    rcases List.mem_append.mp member with inFirst | inSecond
    · obtain ⟨scope, fits, wrote⟩ := first.stamped p inFirst
      refine ⟨scope, fits, ?_⟩
      rw [← wrote]
      refine second.frame.table _ (Nat.lt_of_lt_of_le (live p member) first.frame.size) ?_
      intro again
      exact apart _ (List.mem_map_of_mem inFirst) _ again rfl
    · obtain ⟨scope, fits, wrote⟩ := second.stamped p inSecond
      refine ⟨scope, fits, ?_⟩
      rw [wrote, first.frame.table _ (live p member)]
      intro again
      exact apart _ again _ (List.mem_map_of_mem inSecond) rfl

theorem of_frame {a b c : Store σ} {placed : List (Expr × List Literal)}
    (frame : Store.Frame [] a b) (stamping : Stamping policy b c placed)
    (live : ∀ p ∈ placed, p.1.tag < a.tables.size) : Stamping policy a c placed where
  frame := (frame.mono (List.nil_subset _)).trans stamping.frame
  stamped p member := by
    obtain ⟨scope, fits, wrote⟩ := stamping.stamped p member
    exact ⟨scope, fits, by rw [wrote, frame.table _ (live p member) List.not_mem_nil]⟩

end Stamping

namespace Policy

variable {σ : Type} (policy : Policy)

structure Separate (s : Store σ) (nodes : List Expr) : Prop where
  distinct : (nodes.map Node.tag).Nodup
  live : ∀ n ∈ nodes, n.tag < s.tables.size

variable {policy}

theorem Separate.left {s : Store σ} {xs ys : List Expr} (separate : Separate s (xs ++ ys)) :
    Separate s xs := by
  have distinct := separate.distinct
  rw [List.map_append] at distinct
  exact ⟨(List.nodup_append.mp distinct).1, fun n h => separate.live n (List.mem_append_left _ h)⟩

theorem Separate.right {s : Store σ} {xs ys : List Expr} (separate : Separate s (xs ++ ys)) :
    Separate s ys := by
  have distinct := separate.distinct
  rw [List.map_append] at distinct
  exact ⟨(List.nodup_append.mp distinct).2.1,
    fun n h => separate.live n (List.mem_append_right _ h)⟩

theorem Separate.tail {s : Store σ} {x : Expr} {xs : List Expr} (separate : Separate s (x :: xs)) :
    Separate s xs :=
  ⟨(List.nodup_cons.mp separate.distinct).2,
    fun n h => separate.live n (List.mem_cons_of_mem _ h)⟩

theorem Separate.apart {s : Store σ} {xs ys : List Expr} (separate : Separate s (xs ++ ys))
    {x y : Expr} (hx : x ∈ xs) (hy : y ∈ ys) : x.tag ≠ y.tag := by
  have distinct := separate.distinct
  rw [List.map_append] at distinct
  exact (List.nodup_append.mp distinct).2.2 _ (List.mem_map_of_mem hx) _ (List.mem_map_of_mem hy)

theorem Separate.later {s s' : Store σ} {nodes : List Expr} (separate : Separate s nodes)
    (grown : s.tables.size ≤ s'.tables.size) : Separate s' nodes :=
  ⟨separate.distinct, fun n h => Nat.lt_of_lt_of_le (separate.live n h) grown⟩

theorem Separate.placed_live {s : Store σ} {nodes : List Expr} (separate : Separate s nodes)
    {placed : List (Expr × List Literal)} (same : placed.map Prod.fst = nodes) :
    ∀ p ∈ placed, p.1.tag < s.tables.size := by
  intro p member
  exact separate.live p.1 (same ▸ List.mem_map_of_mem member)

theorem Separate.placed_distinct {s : Store σ} {nodes : List Expr} (separate : Separate s nodes)
    {placed : List (Expr × List Literal)} (same : placed.map Prod.fst = nodes) :
    (placed.map (·.1.tag)).Nodup := by
  have distinct := separate.distinct
  rwa [← same, List.map_map] at distinct

variable (policy)

private theorem literalScope_ends (info : Scope) {params : Option Expr} (body : Expr)
    (lists : ∀ list ∈ params, list.isPairlist = true) (s : Store σ) :
    (policy.literalScope info params body).Ends s fun scopes s' =>
      (∃ inner : Scope,
        (∀ stack, info.Fits policy stack → inner.Fits policy ((params, body) :: stack)) ∧
        inner.tag = s.scopes ∧ inner.tag < s'.scopes ∧
        scopes body = inner ∧ ∀ list ∈ params, scopes list = inner) ∧
      (∀ child : Expr, child.tag < s.tables.size → child.tag ≠ body.tag →
        (∀ list ∈ params, child.tag ≠ list.tag) → scopes child = info) ∧
      Store.Frame [] s s' := by
  cases params with
  | some list =>
    obtain ⟨names, declared⟩ : ∃ names, list.paramNames? = some names := by
      cases list with
      | pairlist tag params => exact ⟨_, rfl⟩
      | atomic | symbol | primitive | call => exact absurd (lists _ rfl) Bool.false_ne_true
    refine Action.ends_bind_of_run (Action.run_pure list s) ?_
    refine Action.Ends.bind (policy.collect_ends list body declared info.bound s) ?_
    rintro inner s' ⟨made, counted, -, frame⟩
    refine Action.ends_bind_of_run (Action.run_note _ s') (Action.ends_pure ⟨?_, ?_, ?_⟩)
    · refine ⟨inner, fun stack fits => ⟨by rw [made]; rfl, ?_⟩, by rw [made], ?_,
        by simp [Node.same], by simp [Node.same]⟩
      · simp only [made, fits.bound, boundBy, Literal.names, Option.bind_some, declared,
          Option.getD_some]
        rfl
      · simp only [made, counted, Nat.lt_succ_self]
    · intro child _ notBody notList
      have notList := notList list rfl
      simp [Node.same, notBody, notList]
    · exact frame.withNotes _
  | none =>
    have made : (Node.newPairlist [] : Action σ Expr).run s =
      (.ok (.pairlist s.tables.size []), s.push []) := rfl
    refine Action.ends_bind_of_run made ?_
    refine Action.Ends.bind (policy.collect_ends _ body rfl info.bound (s.push [])) ?_
    rintro inner s' ⟨made, counted, -, frame⟩
    refine Action.ends_bind_of_run (Action.run_note _ s') (Action.ends_pure ⟨?_, ?_, ?_⟩)
    · refine ⟨inner, fun stack fits => ⟨by rw [made]; rfl, ?_⟩, by rw [made]; rfl, ?_,
        by simp [Node.same], by simp⟩
      · simp only [made, fits.bound]
        rfl
      · simp only [made, counted, Nat.lt_succ_self]
    · intro child old notBody _
      have notList : child.tag ≠ s.tables.size := Nat.ne_of_lt old
      simp [Node.same, notBody, notList]
    · exact ((s.frame_push []).trans frame).withNotes _

/-- The scopes of the children of a call: the leading arguments that are parts of a literal stand
in a new scope that it opens, everything else where the call stands. -/
theorem childScopes_ends (tag : Tag) {callee : Expr} {args : List (Option String × Expr)}
    (info : Scope) {s : Store σ} (separate : Separate s (callee.nodes ++ Node.nodesOfArgs args)) :
    (policy.childScopes info (.call tag callee args)).Ends s fun scopes s' =>
      scopes callee = info ∧
      (∃ inner : Scope,
        (∀ stack, info.Fits policy stack →
          inner.Fits policy (policy.pushLiteral stack (.call tag callee args))) ∧
        ∀ a ∈ args.take (policy.partCount (.call tag callee args)),
          scopes a.2 = inner ∧ inner.tag = s.scopes ∧ inner.tag < s'.scopes) ∧
      (∀ a ∈ args.drop (policy.partCount (.call tag callee args)), scopes a.2 = info) ∧
      Store.Frame [] s s' := by
  have calleeLive := separate.live callee (List.mem_append_left _ callee.self_mem_nodes)
  have calleeApart : ∀ a ∈ args, callee.tag ≠ a.2.tag := by
    intro a member
    exact separate.apart callee.self_mem_nodes
      (Node.mem_nodesOfArgs.mpr ⟨a, member, a.2.self_mem_nodes⟩)
  cases parts : policy.literalParts? (.call tag callee args) with
  | none =>
    simp only [childScopes, partCount, pushLiteral, parts]
    exact Action.ends_pure ⟨rfl, ⟨info, fun _ fits => fits, by simp⟩, fun _ _ => rfl, .refl [] s⟩
  | some literal =>
    simp only [childScopes, partCount, pushLiteral, parts]
    rcases policy.literalParts?_eq_some parts with
      ⟨name, params, name', body, rest, rfl, isList, rfl⟩ | ⟨name, body, rfl, -, rfl⟩
    · refine (policy.literalScope_ends info body (by simpa using isList) s).mono ?_
      rintro scopes s' ⟨⟨inner, fits, new, counted, ofBody, ofList⟩, others, frame⟩
      have ofList := ofList params rfl
      refine ⟨?_, ⟨inner, fits, ?_⟩, ?_, frame⟩
      · exact others callee calleeLive (calleeApart (name', body) (by simp))
          (by simpa using calleeApart (name, params) (by simp))
      · rw [new] at counted
        simp [ofBody, ofList, new, counted]
      · intro a member
        -- A further argument is neither of the two parts.
        have inRest : a ∈ rest := by simpa using member
        have below := separate.right
        simp only [Node.nodesOfArgs, ← List.append_assoc] at below
        have here : a.2 ∈ Node.nodesOfArgs rest :=
          Node.mem_nodesOfArgs.mpr ⟨a, inRest, a.2.self_mem_nodes⟩
        have notList := below.apart (List.mem_append_left _ params.self_mem_nodes) here
        have notBody := below.apart (List.mem_append_right _ body.self_mem_nodes) here
        exact others a.2 (below.live a.2 (List.mem_append_right _ here)) notBody.symm
          (by simpa using notList.symm)
    · refine (policy.literalScope_ends info body (by simp) s).mono ?_
      rintro scopes s' ⟨⟨inner, fits, new, counted, ofBody, -⟩, others, frame⟩
      refine ⟨?_, ⟨inner, fits, ?_⟩, by simp, frame⟩
      · exact others callee calleeLive (calleeApart (name, body) (by simp)) (by simp)
      · rw [new] at counted
        simp [ofBody, new, counted]

def Stamps (σ : Type) (policy : Policy) (node : Expr) : Prop :=
  ∀ (info : Scope) (stack : List Literal) (s : Store σ), info.Fits policy stack →
    Separate s node.nodes →
    (policy.stamp info node).Ends s fun _ s' => Stamping policy s s' (policy.standing stack node)

private theorem stampArgs_ends {args : List (Option String × Expr)}
    (each : ∀ a ∈ args, Stamps σ policy a.2) {scopes : Expr → Scope} {stack inner : List Literal}
    {parts : Nat} (innerFits : ∀ a ∈ args.take parts, (scopes a.2).Fits policy inner)
    (outerFits : ∀ a ∈ args.drop parts, (scopes a.2).Fits policy stack) {s : Store σ}
    (separate : Separate s (Node.nodesOfArgs args)) :
    (policy.stampArgs scopes args).Ends s fun _ s' =>
      Stamping policy s s' (policy.standingArgs stack inner parts args) := by
  induction args generalizing parts s with
  | nil => cases parts <;> exact Action.ends_pure (.nil s)
  | cons a rest ih =>
    have later := @ih fun b h => each b (List.mem_cons_of_mem _ h)
    have first := each a List.mem_cons_self
    obtain ⟨name, a⟩ := a
    -- The head stands in the inner stack as long as there are parts left.
    obtain ⟨own, left, fits, split, innerFits', outerFits'⟩ : ∃ own left,
        (scopes a).Fits policy own ∧
        policy.standingArgs stack inner parts ((name, a) :: rest) =
          policy.standing own a ++ policy.standingArgs stack inner left rest ∧
        (∀ b ∈ rest.take left, (scopes b.2).Fits policy inner) ∧
        (∀ b ∈ rest.drop left, (scopes b.2).Fits policy stack) := by
      cases parts with
      | zero =>
        exact ⟨stack, 0, outerFits (name, a) List.mem_cons_self, rfl, by simp,
          fun b h => outerFits b (List.mem_cons_of_mem _ h)⟩
      | succ parts =>
        exact ⟨inner, parts, innerFits (name, a) List.mem_cons_self, rfl,
          fun b h => innerFits b (List.mem_cons_of_mem _ h), outerFits⟩
    have places : (policy.standingArgs stack inner parts ((name, a) :: rest)).map Prod.fst =
        Node.nodesOfArgs ((name, a) :: rest) :=
      policy.standingArgs_fst (fun b _ own => policy.standing_fst own b.2) stack inner parts
    rw [split] at places ⊢
    refine Action.Ends.bind (first (scopes a) own s fits separate.left) ?_
    intro _ s₁ stamping
    refine (later innerFits' outerFits' (separate.right.later stamping.frame.size)).mono ?_
    intro _ s₂ stamping'
    exact stamping.append stamping' (separate.placed_distinct places) (separate.placed_live places)

private theorem stampParams_ends {params : List (String × Option Expr)}
    (each : ∀ p ∈ params, ∀ d ∈ p.2, Stamps σ policy d) {info : Scope} {stack : List Literal}
    (fits : info.Fits policy stack) {s : Store σ}
    (separate : Separate s (Node.nodesOfParams params)) :
    (policy.stampParams info params).Ends s fun _ s' =>
      Stamping policy s s' (policy.standingParams stack params) := by
  induction params generalizing s with
  | nil => exact Action.ends_pure (.nil s)
  | cons p rest ih =>
    have later := @ih fun q h => each q (List.mem_cons_of_mem _ h)
    obtain ⟨name, d | d⟩ := p
    · exact later separate
    · have places : (policy.standingParams stack ((name, some d) :: rest)).map Prod.fst =
          Node.nodesOfParams ((name, some d) :: rest) :=
        policy.standingParams_fst stack fun _ _ _ _ => policy.standing_fst stack _
      have first := each (name, some d) List.mem_cons_self d rfl info stack s fits separate.left
      refine Action.Ends.bind first ?_
      intro _ s₁ stamping
      refine (later (separate.right.later stamping.frame.size)).mono ?_
      intro _ s₂ stamping'
      exact stamping.append stamping' (separate.placed_distinct places)
        (separate.placed_live places)

theorem stamp_ends (node : Expr) : Stamps σ policy node := by
  induction node using Node.induction with
  | atomic tag value =>
    intro info stack s fits separate
    exact Action.Ends.of_run (Action.run_setMetadata tag _ _ s)
      (.single (.atomic tag value) fits (separate.live _ List.mem_cons_self))
  | symbol tag name =>
    intro info stack s fits separate
    exact Action.Ends.of_run (Action.run_setMetadata tag _ _ s)
      (.single (.symbol tag name) fits (separate.live _ List.mem_cons_self))
  | primitive tag ref =>
    intro info stack s fits separate
    exact Action.Ends.of_run (Action.run_setMetadata tag _ _ s)
      (.single (.primitive tag ref) fits (separate.live _ List.mem_cons_self))
  | pairlist tag params ih =>
    intro info stack s fits separate
    have root : Stamping policy s _ [(Node.pairlist tag params, stack)] :=
      .single _ fits (separate.live _ List.mem_cons_self)
    have below : Separate s (Node.nodesOfParams params) := separate.tail
    refine Action.ends_bind_of_run (Action.run_setMetadata tag _ _ s) ?_
    refine (policy.stampParams_ends ih fits (below.later root.frame.size)).mono ?_
    intro _ s' stamping
    have places := policy.standing_fst stack (.pairlist tag params)
    exact root.append stamping (separate.placed_distinct places) (separate.placed_live places)
  | call tag callee args ihc iha =>
    intro info stack s fits separate
    have places := policy.standing_fst stack (.call tag callee args)
    have placesBelow := (List.cons.inj places).2
    have root : Stamping policy s _ [(Node.call tag callee args, stack)] :=
      .single _ fits (separate.live _ List.mem_cons_self)
    have below : Separate s (callee.nodes ++ Node.nodesOfArgs args) := separate.tail
    have below₀ := below.later root.frame.size
    refine Action.ends_bind_of_run (Action.run_setMetadata tag _ _ s) ?_
    refine Action.Ends.bind (policy.childScopes_ends tag info below₀) ?_
    rintro scopes s₁ ⟨ofCallee, ⟨inner, opened, ofParts⟩, ofOthers, frame⟩
    have calleeFits : (scopes callee).Fits policy stack := by rwa [ofCallee]
    have innerFits : ∀ a ∈ args.take (policy.partCount (.call tag callee args)),
        (scopes a.2).Fits policy (policy.pushLiteral stack (.call tag callee args)) := by
      intro a member
      rw [(ofParts a member).1]
      exact opened stack fits
    have outerFits : ∀ a ∈ args.drop (policy.partCount (.call tag callee args)),
        (scopes a.2).Fits policy stack := by
      intro a member
      rwa [ofOthers a member]
    have below₁ := below₀.later frame.size
    refine Action.Ends.bind (ihc (scopes callee) stack s₁ calleeFits below₁.left) ?_
    intro _ s₂ stamping
    have below₂ := below₁.right.later stamping.frame.size
    refine (policy.stampArgs_ends iha innerFits outerFits below₂).mono ?_
    intro _ s₃ stamping'
    have children := stamping.append stamping' (below₁.placed_distinct placesBelow)
      (below₁.placed_live placesBelow)
    exact root.append (.of_frame frame children (below₀.placed_live placesBelow))
      (separate.placed_distinct places) (separate.placed_live places)

end Policy

end TreePass
