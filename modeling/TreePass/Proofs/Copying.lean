import TreePass.Node.Build
import TreePass.Proofs.Positions
import TreePass.Proofs.Running

/-!
Copies of trees. A copy has the structure and the metadata of its original at every position, all
its nodes are new, and no two positions of it hold the same node.
-/

set_option autoImplicit false
set_option relaxedAutoImplicit false

namespace TreePass

namespace Store

variable {σ : Type}

/-- Between two stores only the metadata of the given nodes has changed, new nodes apart; no
warning has been recorded and handlers keep what they kept. -/
structure Frame (changed : List Tag) (before after : Store σ) : Prop where
  size : before.tables.size ≤ after.tables.size
  table : ∀ tag < before.tables.size, tag ∉ changed → after.table tag = before.table tag
  warnings : after.warnings = before.warnings
  user : after.user = before.user

theorem Frame.refl (changed : List Tag) (s : Store σ) : Frame changed s s :=
  ⟨Nat.le_refl _, fun _ _ _ => rfl, rfl, rfl⟩

theorem Frame.mono {changed changed' : List Tag} {before after : Store σ}
    (frame : Frame changed before after) (more : changed ⊆ changed') :
    Frame changed' before after :=
  ⟨frame.size, fun tag old untouched => frame.table tag old fun h => untouched (more h),
    frame.warnings, frame.user⟩

theorem Frame.trans {changed : List Tag} {a b c : Store σ} (first : Frame changed a b)
    (second : Frame changed b c) : Frame changed a c where
  size := Nat.le_trans first.size second.size
  table tag old untouched := by
    rw [second.table tag (Nat.lt_of_lt_of_le old first.size) untouched,
      first.table tag old untouched]
  warnings := second.warnings.trans first.warnings
  user := second.user.trans first.user

theorem Frame.withNotes {changed : List Tag} {before after : Store σ}
    (frame : Frame changed before after) (notes : Array Note) :
    Frame changed before { after with notes := notes } :=
  ⟨frame.size, frame.table, frame.warnings, frame.user⟩

theorem frame_push (s : Store σ) (table : Table) : Frame [] s (s.push table) :=
  ⟨by simp, fun _ old _ => s.table_push_of_lt table old, rfl, rfl⟩

theorem frame_of_tables_eq {before after : Store σ} (tables : after.tables = before.tables)
    (warnings : after.warnings = before.warnings) (user : after.user = before.user) :
    Frame [] before after :=
  ⟨Nat.le_of_eq (by rw [tables]), fun tag _ _ => table_of_tables_eq tables tag, warnings, user⟩

end Store

namespace Node

variable {σ : Type}

/-- The nodes were made between two stores, each of them once. -/
structure Fresh (before after : Store σ) (made : List Expr) : Prop where
  nodup : (made.map tag).Nodup
  new : ∀ n ∈ made, before.tables.size ≤ n.tag ∧ n.tag < after.tables.size

theorem Fresh.nil (before after : Store σ) : Fresh before after [] :=
  ⟨List.nodup_nil, fun _ member => absurd member List.not_mem_nil⟩

theorem Fresh.append {a b c : Store σ} {xs ys : List Expr} (first : Fresh a b xs)
    (second : Fresh b c ys) (grown : a.tables.size ≤ b.tables.size)
    (grown' : b.tables.size ≤ c.tables.size) : Fresh a c (xs ++ ys) where
  nodup := by
    rw [List.map_append]
    refine List.nodup_append.mpr ⟨first.nodup, second.nodup, ?_⟩
    intro t inFirst u inSecond same
    obtain ⟨x, hx, rfl⟩ := List.mem_map.mp inFirst
    obtain ⟨y, hy, rfl⟩ := List.mem_map.mp inSecond
    have below := (first.new x hx).2
    have above := (second.new y hy).1
    rw [same] at below
    exact absurd below (Nat.not_lt.mpr above)
  new n member := by
    rcases List.mem_append.mp member with member | member
    · exact ⟨(first.new n member).1, Nat.lt_of_lt_of_le (first.new n member).2 grown'⟩
    · exact ⟨Nat.le_trans grown (second.new n member).1, (second.new n member).2⟩

theorem Fresh.cons_push {a b : Store σ} {below : List Expr} {made : Expr} (table : Table)
    (fresh : Fresh a b below) (grown : a.tables.size ≤ b.tables.size)
    (tagged : made.tag = b.tables.size) : Fresh a (b.push table) (made :: below) where
  nodup := by
    refine List.nodup_cons.mpr ⟨?_, fresh.nodup⟩
    intro member
    obtain ⟨n, hn, same⟩ := List.mem_map.mp member
    have := (fresh.new n hn).2
    rw [same, tagged] at this
    exact absurd this (Nat.lt_irrefl _)
  new n member := by
    rw [Store.size_push]
    rcases List.mem_cons.mp member with rfl | member
    · rw [tagged]
      exact ⟨grown, Nat.lt_succ_self _⟩
    · exact ⟨(fresh.new n member).1, Nat.lt_succ_of_lt (fresh.new n member).2⟩

theorem Fresh.widen {a b c d : Store σ} {made : List Expr} (fresh : Fresh b c made)
    (earlier : a.tables.size ≤ b.tables.size) (later : c.tables.size ≤ d.tables.size) :
    Fresh a d made where
  nodup := fresh.nodup
  new n member :=
    ⟨Nat.le_trans earlier (fresh.new n member).1, Nat.lt_of_lt_of_le (fresh.new n member).2 later⟩

theorem Fresh.perm {before after : Store σ} {xs ys : List Expr} (fresh : Fresh before after xs)
    (same : xs.Perm ys) : Fresh before after ys where
  nodup := (same.map tag).nodup_iff.mp fresh.nodup
  new n member := fresh.new n (same.mem_iff.mpr member)

/-- The nodes of one list carry, in the later store, the metadata that those of the other list
had, if these were nodes of the earlier store. -/
def Carries (before after : Store σ) (olds news : List Expr) : Prop :=
  (∀ n ∈ olds, n.tag < before.tables.size) →
    news.map (fun n => after.table n.tag) = olds.map (fun n => before.table n.tag)

theorem Carries.append {a b c : Store σ} {olds olds' news news' : List Expr}
    (first : Carries a b olds news) (second : Carries b c olds' news')
    (frame : Store.Frame [] a b) (frame' : Store.Frame [] b c)
    (fresh : ∀ n ∈ news, n.tag < b.tables.size) :
    Carries a c (olds ++ olds') (news ++ news') := by
  intro live
  have live₁ : ∀ n ∈ olds, n.tag < a.tables.size := fun n h =>
    live n (List.mem_append_left _ h)
  have live₂ : ∀ n ∈ olds', n.tag < a.tables.size := fun n h =>
    live n (List.mem_append_right _ h)
  have kept : news.map (fun n => c.table n.tag) = news.map (fun n => b.table n.tag) :=
    List.map_congr_left fun n h => frame'.table n.tag (fresh n h) List.not_mem_nil
  have same : olds'.map (fun n => b.table n.tag) = olds'.map (fun n => a.table n.tag) :=
    List.map_congr_left fun n h => frame.table n.tag (live₂ n h) List.not_mem_nil
  have live' : ∀ n ∈ olds', n.tag < b.tables.size := fun n h =>
    Nat.lt_of_lt_of_le (live₂ n h) frame.size
  rw [List.map_append, List.map_append, kept, first live₁, second live', same]

theorem Carries.cons_push {a b : Store σ} {olds news : List Expr} {old made : Expr}
    (carries : Carries a b olds news) (frame : Store.Frame [] a b)
    (fresh : ∀ n ∈ news, n.tag < b.tables.size) (tagged : made.tag = b.tables.size) :
    Carries a (b.push (b.table old.tag)) (old :: olds) (made :: news) := by
  intro live
  have kept : news.map (fun n => (b.push (b.table old.tag)).table n.tag) =
      news.map (fun n => b.table n.tag) :=
    List.map_congr_left fun n h => b.table_push_of_lt _ (fresh n h)
  have own : b.table old.tag = a.table old.tag :=
    frame.table _ (live old List.mem_cons_self) List.not_mem_nil
  rw [List.map_cons, List.map_cons, kept, carries fun n h => live n (List.mem_cons_of_mem _ h),
    tagged, Store.table_push_self, own]

/-- What a copy is: one structure, new nodes at all positions, the metadata of the originals, and
nothing changed beside them. -/
structure Copied (s s' : Store σ) (olds news : List Expr) : Prop where
  fresh : Fresh s s' news
  frame : Store.Frame [] s s'
  carries : Carries s s' olds news

theorem Copied.nil (s : Store σ) : Copied s s [] [] :=
  ⟨Fresh.nil s s, Store.Frame.refl [] s, fun _ => rfl⟩

theorem Copied.append {a b c : Store σ} {olds olds' news news' : List Expr}
    (first : Copied a b olds news) (second : Copied b c olds' news') :
    Copied a c (olds ++ olds') (news ++ news') where
  fresh := first.fresh.append second.fresh first.frame.size second.frame.size
  frame := first.frame.trans second.frame
  carries := first.carries.append second.carries first.frame second.frame
    fun n h => (first.fresh.new n h).2

theorem Copied.cons_push {a b : Store σ} {olds news : List Expr} (below : Copied a b olds news)
    (old made : Expr) (tagged : made.tag = b.tables.size) :
    Copied a (b.push (b.table old.tag)) (old :: olds) (made :: news) where
  fresh := below.fresh.cons_push _ below.frame.size tagged
  frame := below.frame.trans (b.frame_push _)
  carries := below.carries.cons_push below.frame (fun n h => (below.fresh.new n h).2) tagged

@[simp] theorem run_copyTag (tag : Tag) (s : Store σ) :
    (copyTag tag).run s = (.ok s.tables.size, s.push (s.table tag)) := rfl

private theorem cloneArgs_ends {args : List (Option String × Expr)}
    (each : ∀ a ∈ args, ∀ s : Store σ, a.2.clone.Ends s fun out s' =>
      out.bare = a.2.bare ∧ Copied s s' a.2.nodes out.nodes) (s : Store σ) :
    (cloneArgs args).Ends s fun out s' =>
      bareArgs out = bareArgs args ∧ Copied s s' (nodesOfArgs args) (nodesOfArgs out) := by
  induction args generalizing s with
  | nil => exact Action.ends_pure ⟨rfl, Copied.nil s⟩
  | cons a rest ih =>
    obtain ⟨name, a⟩ := a
    refine Action.Ends.bind (each (name, a) List.mem_cons_self s) ?_
    rintro out s₁ ⟨bare, copied⟩
    refine Action.Ends.bind (ih (fun b h => each b (List.mem_cons_of_mem _ h)) s₁) ?_
    rintro outs s₂ ⟨bares, copies⟩
    refine Action.ends_pure ⟨?_, copied.append copies⟩
    simp only [bareArgs, bare, bares]

private theorem cloneParams_ends {params : List (String × Option Expr)}
    (each : ∀ p ∈ params, ∀ d ∈ p.2, ∀ s : Store σ, d.clone.Ends s fun out s' =>
      out.bare = d.bare ∧ Copied s s' d.nodes out.nodes) (s : Store σ) :
    (cloneParams params).Ends s fun out s' =>
      bareParams out = bareParams params ∧
        Copied s s' (nodesOfParams params) (nodesOfParams out) := by
  induction params generalizing s with
  | nil => exact Action.ends_pure ⟨rfl, Copied.nil s⟩
  | cons p rest ih =>
    have later := ih fun q h => each q (List.mem_cons_of_mem _ h)
    obtain ⟨name, d | d⟩ := p
    · refine Action.Ends.bind (later s) ?_
      rintro outs s₁ ⟨bares, copies⟩
      refine Action.ends_pure ⟨?_, copies⟩
      simp only [bareParams, bares]
    · refine Action.Ends.bind (each (name, some d) List.mem_cons_self d rfl s) ?_
      rintro out s₁ ⟨bare, copied⟩
      refine Action.Ends.bind (later s₁) ?_
      rintro outs s₂ ⟨bares, copies⟩
      refine Action.ends_pure ⟨?_, copied.append copies⟩
      simp only [bareParams, bare, bares]

theorem clone_ends (node : Expr) (s : Store σ) :
    node.clone.Ends s fun out s' => out.bare = node.bare ∧ Copied s s' node.nodes out.nodes := by
  induction node using Node.induction generalizing s with
  | atomic tag value =>
    exact Action.ends_bind_of_run (run_copyTag tag s)
      (Action.ends_pure ⟨rfl, (Copied.nil s).cons_push (.atomic tag value) _ rfl⟩)
  | symbol tag name =>
    exact Action.ends_bind_of_run (run_copyTag tag s)
      (Action.ends_pure ⟨rfl, (Copied.nil s).cons_push (.symbol tag name) _ rfl⟩)
  | primitive tag ref =>
    exact Action.ends_bind_of_run (run_copyTag tag s)
      (Action.ends_pure ⟨rfl, (Copied.nil s).cons_push (.primitive tag ref) _ rfl⟩)
  | pairlist tag params ih =>
    refine Action.Ends.bind (cloneParams_ends ih s) ?_
    rintro outs s₁ ⟨bares, copies⟩
    refine Action.ends_bind_of_run (run_copyTag tag s₁) (Action.ends_pure ⟨?_, ?_⟩)
    · simp only [bare, bares]
    · exact copies.cons_push (.pairlist tag params) _ rfl
  | call tag callee args ihc iha =>
    refine Action.Ends.bind (ihc s) ?_
    rintro out s₁ ⟨bareCallee, copied⟩
    refine Action.Ends.bind (cloneArgs_ends iha s₁) ?_
    rintro outs s₂ ⟨bares, copies⟩
    refine Action.ends_bind_of_run (run_copyTag tag s₂) (Action.ends_pure ⟨?_, ?_⟩)
    · simp only [bare, bareCallee, bares]
    · exact (copied.append copies).cons_push (.call tag callee args) _ rfl

theorem copied_of_clone {node out : Expr} {s s' : Store σ}
    (ran : node.clone.run s = (.ok out, s')) :
    out.bare = node.bare ∧ Copied s s' node.nodes out.nodes := by
  obtain ⟨copy, s₁, ran', copied⟩ := node.clone_ends s
  obtain ⟨rfl, rfl⟩ := Action.ok_inj (ran'.symm.trans ran)
  exact copied

theorem fresh_of_clone {node out : Expr} {s s' : Store σ}
    (ran : node.clone.run s = (.ok out, s')) : Fresh s s' out.nodes :=
  (copied_of_clone ran).2.fresh

theorem plant_ends (node : Expr) (s : Store σ) :
    node.plant.Ends s fun out _ => out.bare = node.bare := by
  induction node using Node.induction generalizing s with
  | atomic | symbol | primitive => exact ⟨_, _, rfl, rfl⟩
  | pairlist tag params ih =>
    have below : (plantParams params).Ends s fun out _ => bareParams out = bareParams params := by
      induction params generalizing s with
      | nil => exact Action.ends_pure rfl
      | cons p rest ihr =>
        have later := ihr fun q h => ih q (List.mem_cons_of_mem _ h)
        obtain ⟨name, d | d⟩ := p
        · refine Action.Ends.bind (later s) ?_
          intro outs _ bares
          exact Action.ends_pure (by simp only [bareParams, bares])
        · refine Action.Ends.bind (ih (name, some d) List.mem_cons_self d rfl s) ?_
          intro out s₁ bare
          refine Action.Ends.bind (later s₁) ?_
          intro outs _ bares
          exact Action.ends_pure (by simp only [bareParams, bare, bares])
    refine Action.Ends.bind below ?_
    intro outs s₁ bares
    exact ⟨_, _, rfl, by simp only [bare, bares]⟩
  | call tag callee args ihc iha =>
    have below (s : Store σ) :
        (plantArgs args).Ends s fun out _ => bareArgs out = bareArgs args := by
      induction args generalizing s with
      | nil => exact Action.ends_pure rfl
      | cons a rest ihr =>
        obtain ⟨name, a⟩ := a
        refine Action.Ends.bind (iha (name, a) List.mem_cons_self s) ?_
        intro out s₁ bare
        refine Action.Ends.bind (ihr (fun b h => iha b (List.mem_cons_of_mem _ h)) s₁) ?_
        intro outs _ bares
        exact Action.ends_pure (by simp only [bareArgs, bare, bares])
    refine Action.Ends.bind (ihc s) ?_
    intro out s₁ bareCallee
    refine Action.Ends.bind (below s₁) ?_
    intro outs s₂ bares
    exact ⟨_, _, rfl, by simp only [bare, bareCallee, bares]⟩

end Node

end TreePass
