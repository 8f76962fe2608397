import Mathlib.Data.List.Infix
import TreePass.Proofs.Tables
import TreePass.Settings.Load

/-!
The outcome of loading settings. Only the nearest project file counts. Apart from reports about
fields, loading breaks on a file that is no text, on an integer that is too long, and where
something else stands in the place of a table; all other files without a document are passed over.
-/

set_option autoImplicit false
set_option relaxedAutoImplicit false

namespace TreePass

namespace Content

/-- A file that contributes nothing: it cannot be opened, or it is a text but no document. -/
def IsIgnored : Content → Prop
  | .locked => True
  | .bytes data => ∃ text, Text.Utf8.decode data = .ok text ∧ Toml.parse text = .error .malformed

def Parses (content : Content) (root : Toml.Entries) : Prop :=
  ∃ data text, content = .bytes data ∧ Text.Utf8.decode data = .ok text ∧
    Toml.parse text = .ok root

/-- A file whose document has a settings table. -/
def Holds (content : Content) (own : Toml.Entries) : Prop :=
  ∃ root, content.Parses root ∧ Settings.sectionOf root = .ok own

/-- A file that breaks loading, and how. What is wrong with the scope shows only after the flags
have been taken. -/
inductive Breaks (overrides : Table) : Content → Settings.LoadError → Prop
  | text {data : List UInt8} {malformed : Text.Utf8.Malformed} :
      Text.Utf8.decode data = .error malformed →
      Breaks overrides (.bytes data) (.undecodable malformed)
  | integer {data : List UInt8} {text : String} {digits : Nat} :
      Text.Utf8.decode data = .ok text → Toml.parse text = .error (.longInteger digits) →
      Breaks overrides (.bytes data) (.longInteger digits)
  | tool {content : Content} {root : Toml.Entries} :
      content.Parses root → Settings.tableAt root "tool" = none →
      Breaks overrides content .notTable
  | own {content : Content} {root tool : Toml.Entries} :
      content.Parses root → Settings.tableAt root "tool" = some tool →
      Settings.tableAt tool "exprflow" = none → Breaks overrides content .notTable
  | warnings {content : Content} {own : Toml.Entries} :
      content.Holds own → Settings.tableAt own "warnings" = none →
      Breaks overrides content .notMapping
  | scope {content : Content} {own : Toml.Entries} {given : Table} {flags : Flags} :
      content.Holds own → Settings.fieldsAt own "warnings" = .ok given →
      Flags.ofFields (given.putAll overrides) = .ok flags →
      Settings.tableAt own "scope" = none → Breaks overrides content .notMapping

open Settings

variable {content : Content} {root own : Toml.Entries}

theorem Parses.ownSection_eq (parses : content.Parses root) :
    ownSection (some content) = sectionOf root := by
  obtain ⟨data, text, rfl, decoded, parsed⟩ := parses
  simp only [ownSection, sectionOfFile, decoded, parsed]

theorem IsIgnored.ownSection_eq (ignored : content.IsIgnored) :
    ownSection (some content) = .ok [] := by
  match content, ignored with
  | .locked, _ => rfl
  | .bytes data, ⟨text, decoded, malformed⟩ =>
    simp only [ownSection, sectionOfFile, decoded, malformed]

theorem Holds.ownSection_eq (holds : content.Holds own) : ownSection (some content) = .ok own := by
  obtain ⟨root, parses, found⟩ := holds
  exact parses.ownSection_eq.trans found

end Content

namespace Settings

variable {content : Content} {project : Option Content} {root own : Toml.Entries}
  {overrides : Table} {e : LoadError}

private theorem sectionOf_eq_error_iff :
    sectionOf root = .error e ↔ e = .notTable ∧
      (tableAt root "tool" = none ∨
        ∃ tool, tableAt root "tool" = some tool ∧ tableAt tool "exprflow" = none) := by
  rw [sectionOf]
  match tableAt root "tool" with
  | none => simp [eq_comm]
  | some tool =>
    match inner : tableAt tool "exprflow" with
    | none => simp [inner, eq_comm]
    | some own => simp [inner]

private theorem fieldsAt_eq_error_iff {key : String} :
    fieldsAt own key = .error e ↔ e = .notMapping ∧ tableAt own key = none := by
  rw [fieldsAt]
  cases tableAt own key <;> simp [eq_comm]

private theorem ownSection_cases (content : Content) (overrides : Table) :
    content.IsIgnored ∨ (∃ own, content.Holds own) ∨ ∃ e, content.Breaks overrides e := by
  match content with
  | .locked => exact .inl trivial
  | .bytes data =>
    match decoded : Text.Utf8.decode data with
    | .error malformed => exact .inr (.inr ⟨_, .text decoded⟩)
    | .ok text =>
      match parsed : Toml.parse text with
      | .error .malformed => exact .inl ⟨text, decoded, parsed⟩
      | .error (.longInteger digits) => exact .inr (.inr ⟨_, .integer decoded parsed⟩)
      | .ok root =>
        have parses : (Content.bytes data).Parses root := ⟨data, text, rfl, decoded, parsed⟩
        match found : sectionOf root with
        | .ok own => exact .inr (.inl ⟨own, root, parses, found⟩)
        | .error e =>
          obtain ⟨rfl, outer | ⟨tool, outer, inner⟩⟩ := sectionOf_eq_error_iff.mp found
          · exact .inr (.inr ⟨_, .tool parses outer⟩)
          · exact .inr (.inr ⟨_, .own parses outer inner⟩)

def loadFrom (own : Toml.Entries) (overrides : Table) : Except LoadError Settings := do
  let given ← fieldsAt own "warnings"
  let flags ← validated (Flags.ofFields (given.putAll overrides))
  let policy ← validated (Policy.ofFields (← fieldsAt own "scope"))
  return { flags := flags, policy := policy }

theorem load_of_ownSection (found : ownSection project = .ok own) (overrides : Table) :
    load project overrides = loadFrom own overrides := by
  rw [load, found]
  rfl

private theorem load_of_ownSection_error (broken : ownSection project = .error e)
    (overrides : Table) : load project overrides = .error e := by
  rw [load, broken]
  rfl

/-- Whether loading gives settings or a report about fields. -/
def IsProper : Except LoadError Settings → Prop
  | .ok _ | .error (.invalid _) => True
  | .error _ => False

/-- A settings table gives settings or a report, unless its warnings or its scope are something
else than tables. -/
theorem isProper_loadFrom (own : Toml.Entries) (overrides : Table) :
    IsProper (loadFrom own overrides) ∨ tableAt own "warnings" = none ∨
      ∃ given flags, fieldsAt own "warnings" = .ok given ∧
        Flags.ofFields (given.putAll overrides) = .ok flags ∧ tableAt own "scope" = none := by
  rw [loadFrom]
  match warnings : fieldsAt own "warnings" with
  | .error e => exact .inr (.inl (fieldsAt_eq_error_iff.mp warnings).2)
  | .ok given =>
    match taken : Flags.ofFields (given.putAll overrides) with
    | .error report =>
      left
      simp only [bind, Except.bind, taken, validated, IsProper]
    | .ok flags =>
      match scope : fieldsAt own "scope" with
      | .error e => exact .inr (.inr ⟨given, flags, rfl, taken, (fieldsAt_eq_error_iff.mp scope).2⟩)
      | .ok fields =>
        left
        simp only [bind, Except.bind, taken, validated]
        cases Policy.ofFields fields <;> trivial

private theorem loadFrom_of_warnings (absent : tableAt own "warnings" = none) :
    loadFrom own overrides = .error .notMapping := by
  rw [loadFrom, fieldsAt_eq_error_iff.mpr ⟨rfl, absent⟩]
  rfl

private theorem loadFrom_of_scope {given : Table} {flags : Flags}
    (warnings : fieldsAt own "warnings" = .ok given)
    (taken : Flags.ofFields (given.putAll overrides) = .ok flags)
    (absent : tableAt own "scope" = none) : loadFrom own overrides = .error .notMapping := by
  rw [loadFrom, warnings]
  simp only [bind, Except.bind, taken, validated, fieldsAt_eq_error_iff.mpr ⟨rfl, absent⟩]

theorem loadFrom_of_tables {file scope : Table} {policy : Policy}
    (warnings : fieldsAt own "warnings" = .ok file) (scopes : fieldsAt own "scope" = .ok scope)
    (valid : Policy.ofFields scope = .ok policy) (overrides : Table) :
    loadFrom own overrides =
      (validated (Flags.ofFields (file.putAll overrides))).map fun flags => ⟨flags, policy⟩ := by
  rw [loadFrom, warnings]
  simp only [bind, Except.bind, scopes, valid, validated]
  cases Flags.ofFields (file.putAll overrides) <;> rfl

theorem load_none (overrides : Table) :
    load none overrides =
      (validated (Flags.ofFields (Table.putAll [] overrides))).map fun flags => ⟨flags, {}⟩ :=
  (load_of_ownSection rfl overrides).trans (loadFrom_of_tables rfl rfl rfl overrides)

private theorem isProper_load_none (overrides : Table) : IsProper (load none overrides) := by
  rw [load_none]
  cases Flags.ofFields (Table.putAll [] overrides) <;> trivial

end Settings

open Settings

namespace Content

variable {content : Content} {overrides : Table} {e : LoadError}

theorem Breaks.load_eq (breaks : content.Breaks overrides e) :
    load (some content) overrides = .error e := by
  cases breaks with
  | text decoded =>
    refine load_of_ownSection_error ?_ _
    simp only [ownSection, sectionOfFile, decoded]
  | integer decoded parsed =>
    refine load_of_ownSection_error ?_ _
    simp only [ownSection, sectionOfFile, decoded, parsed]
  | tool parses outer =>
    refine load_of_ownSection_error (parses.ownSection_eq.trans ?_) _
    exact sectionOf_eq_error_iff.mpr ⟨rfl, .inl outer⟩
  | own parses outer inner =>
    refine load_of_ownSection_error (parses.ownSection_eq.trans ?_) _
    exact sectionOf_eq_error_iff.mpr ⟨rfl, .inr ⟨_, outer, inner⟩⟩
  | warnings holds absent =>
    exact (load_of_ownSection holds.ownSection_eq _).trans (loadFrom_of_warnings absent)
  | scope holds warnings taken absent =>
    exact (load_of_ownSection holds.ownSection_eq _).trans
      (loadFrom_of_scope warnings taken absent)

theorem IsIgnored.load_eq (ignored : content.IsIgnored) (overrides : Table) :
    load (some content) overrides = load none overrides :=
  (load_of_ownSection ignored.ownSection_eq overrides).trans (load_of_ownSection rfl overrides).symm

private theorem isProper_or_breaks (content : Content) (overrides : Table) :
    IsProper (load (some content) overrides) ∨ ∃ e, content.Breaks overrides e := by
  rcases ownSection_cases content overrides with ignored | ⟨own, holds⟩ | broken
  · rw [ignored.load_eq]
    exact .inl (isProper_load_none overrides)
  · rw [load_of_ownSection holds.ownSection_eq]
    rcases isProper_loadFrom own overrides with proper | absent | ⟨given, flags, found⟩
    · exact .inl proper
    · exact .inr ⟨_, .warnings holds absent⟩
    · exact .inr ⟨_, .scope holds found.1 found.2.1 found.2.2⟩
  · exact .inr broken

private theorem exists_breaks {project : Option Content}
    (broken : load project overrides = .error e) (unreported : ∀ report, e ≠ .invalid report) :
    ∃ content, project = some content ∧ content.Breaks overrides e := by
  have improper : ¬ IsProper (load project overrides) := by
    rw [broken]
    cases e with
    | invalid report => exact absurd rfl (unreported report)
    | _ => exact id
  match project with
  | none => exact absurd (isProper_load_none overrides) improper
  | some content =>
    obtain ⟨other, breaks⟩ := (content.isProper_or_breaks overrides).resolve_left improper
    obtain rfl : e = other := Except.error.inj (broken.symm.trans breaks.load_eq)
    exact ⟨content, rfl, breaks⟩

end Content

namespace Files

/-- The nearest project file: its content, and the place from which no longer part of the way
leads to another one. -/
def IsNearest (files : Files) (directory : Path) (place : Place) (content : Content) : Prop :=
  place <+: files.resolve directory ∧ files.file? (place ++ [projectFile]) = some content ∧
    ∀ longer, longer <+: files.resolve directory → place.length < longer.length →
      files.file? (longer ++ [projectFile]) = none

private theorem mem_ancestors {place other : Place} : other ∈ ancestors place ↔
    other <+: place := by
  simp only [ancestors, List.mem_reverse, List.mem_map, List.mem_range]
  constructor
  · rintro ⟨count, -, rfl⟩
    exact List.take_prefix count place
  · intro leading
    exact ⟨other.length, Nat.lt_succ_of_le leading.length_le,
      (List.prefix_iff_eq_take.mp leading).symm⟩

/-- The way up passes every place once, the longer ones first. -/
theorem pairwise_ancestors (place : Place) :
    (ancestors place).Pairwise fun nearer further => further.length < nearer.length := by
  rw [ancestors, List.pairwise_reverse, List.pairwise_map]
  refine List.pairwise_lt_range.imp_of_mem fun {i j} _ listed less => ?_
  have bound := List.mem_range.mp listed
  simp only [List.length_take]
  omega

private theorem nearestProject?_eq_some_iff {files : Files} {directory : Path} {content : Content} :
    files.nearestProject? directory = some content ↔
      ∃ place, files.IsNearest directory place content := by
  have order := pairwise_ancestors (files.resolve directory)
  rw [nearestProject?, List.findSome?_eq_some_iff]
  constructor
  · rintro ⟨nearer, place, further, split, found, missing⟩
    have on : place ∈ ancestors (files.resolve directory) := by simp [split]
    refine ⟨place, mem_ancestors.mp on, found, fun longer leading beyond => ?_⟩
    have listed := mem_ancestors.mpr leading
    rw [split] at order listed
    rcases List.mem_append.mp listed with near | far
    · exact missing longer near
    -- what comes after the place is shorter
    · have shorter : longer.length ≤ place.length := by
        rcases List.mem_cons.mp far with rfl | far
        · exact Nat.le_refl _
        · exact ((List.pairwise_cons.mp (List.pairwise_append.mp order).2.1).1 longer far).le
      omega
  · rintro ⟨place, leading, found, missing⟩
    obtain ⟨nearer, further, split⟩ := List.append_of_mem (mem_ancestors.mpr leading)
    refine ⟨nearer, place, further, split, found, fun longer near => ?_⟩
    have on : longer ∈ ancestors (files.resolve directory) := by simp [split, near]
    rw [split] at order
    exact missing longer (mem_ancestors.mp on)
      ((List.pairwise_append.mp order).2.2 longer near place List.mem_cons_self)

/-- Files of which the nearest project file cannot be opened and the next one is no text. -/
def lockedProject : Files where
  current := ["work"]
  entries := [(["pyproject.toml"], some [0xff, 0x0a])]
  locked := [["work", "pyproject.toml"]]

/-- Files of which the nearest project file is no text. -/
def garbledProject : Files where
  current := ["work"]
  entries := [(["work", "pyproject.toml"], some [0xff, 0x0a])]

end Files

end TreePass
