import TreePass.CommandLine.Run
import TreePass.Proofs.Settings.Items
import TreePass.Proofs.Settings.Loading

/-!
Layers of warning flags. A flag may be given by a switch, by items and by the project file; the
highest layer that gives it decides, and without any it is on. Only the deciding value is
coerced, while the keys of all layers have to be keys of flags.
-/

set_option autoImplicit false
set_option relaxedAutoImplicit false

namespace TreePass

namespace Settings

def parsedItem? (item : String) : Option (String × Value) :=
  match keyValue item with
  | .ok entry => some entry
  | .error _ => none

private theorem parsedItem?_eq_some_iff {item key : String} {value : Value} :
    parsedItem? item = some (key, value) ↔ Assigns item key value := by
  rw [← keyValue_eq_ok_iff, parsedItem?]
  cases keyValue item <;> simp

def itemValue? (key item : String) : Option Value :=
  (parsedItem? item).bind fun (other, value) => if other = key then some value else none

private theorem itemValue?_eq_some_iff {key item : String} {value : Value} :
    itemValue? key item = some value ↔ Assigns item key value := by
  rw [← parsedItem?_eq_some_iff, itemValue?]
  match parsedItem? item with
  | none => simp
  | some (other, _) => by_cases same : other = key <;> simp [same]

private theorem itemValue?_eq_none_iff {key item : String} :
    itemValue? key item = none ↔ ¬ ∃ text, Divides item key text := by
  rw [Option.eq_none_iff_forall_ne_some]
  simp only [ne_eq, itemValue?_eq_some_iff]
  refine ⟨?_, ?_⟩
  · rintro gives ⟨text, divides⟩
    exact gives _ ⟨text, divides, stands_typedValue text⟩
  · rintro undivided value ⟨text, divides, -⟩
    exact undivided ⟨text, divides⟩

def itemEntries (items : List String) : Table := items.filterMap parsedItem?

private theorem lookup_itemEntries (key : String) (items : List String) :
    (itemEntries items).lookup key = items.findSome? (itemValue? key) := by
  induction items with
  | nil => rfl
  | cons item rest ih =>
    rw [List.findSome?_cons, itemValue?, itemEntries, List.filterMap_cons]
    match parsedItem? item with
    | none => exact ih
    | some (other, value) =>
      by_cases same : other = key
      · simp [same]
      · have unequal : (key == other) = false := by simpa using Ne.symm same
        simpa [same, List.lookup_cons, unequal, itemEntries] using ih

def readInto (table : Table) (items : List String) : Except MissingEquals Table :=
  items.foldlM (fun table item => (keyValue item).map fun (key, value) => table.put key value) table

private theorem readInto_cons {item : String} {entry : String × Value}
    (read : keyValue item = .ok entry) (table : Table) (rest : List String) :
    readInto table (item :: rest) = readInto (table.put entry.1 entry.2) rest := by
  simp only [readInto, List.foldlM_cons, read]
  rfl

private theorem readInto_of_divided {items : List String}
    (divided : ∀ item ∈ items, '=' ∈ item.toList)
    (table : Table) : readInto table items = .ok (table.putAll (itemEntries items)) := by
  induction items generalizing table with
  | nil => rfl
  | cons item rest ih =>
    obtain ⟨key, value, read, assigns⟩ := exists_keyValue (divided item List.mem_cons_self)
    have entries : itemEntries (item :: rest) = (key, value) :: itemEntries rest :=
      List.filterMap_cons_some (parsedItem?_eq_some_iff.mpr assigns)
    rw [readInto_cons read, ih fun other listed => divided other (List.mem_cons_of_mem _ listed),
      entries]
    rfl

private theorem readInto_of_bare {items : List String} {item : String}
    (first : items.find? (fun item => !item.toList.contains '=') = some item) (table : Table) :
    readInto table items = .error ⟨item⟩ := by
  induction items generalizing table with
  | nil => simp at first
  | cons head rest ih =>
    by_cases divided : '=' ∈ head.toList
    · obtain ⟨key, value, read, -⟩ := exists_keyValue divided
      rw [readInto_cons read]
      exact ih (by simpa [divided] using first) _
    · obtain rfl : head = item := by simpa [divided] using first
      simp only [readInto, List.foldlM_cons, keyValue_of_bare divided]
      rfl

end Settings

private theorem Flag.mem_all (flag : Flag) : flag ∈ Flag.all := by cases flag <;> simp [Flag.all]

namespace Flags

/-- The truth value that fields give for a flag, or why there is none. A flag that is not given is
on. -/
def coerced (fields : Table) (flag : Flag) : Except IssueKind Bool :=
  match fields.find? flag.key with
  | some value => Settings.toBool value
  | none => .ok true

def Known (fields : Table) : Prop := ∀ key ∈ fields.keys, ∃ flag : Flag, flag.key = key

private theorem known_iff {fields : Table} :
    Known fields ↔ ∀ key ∈ fields.keys, key ∈ Flag.all.map Flag.key := by
  simp only [Known, List.mem_map]
  exact ⟨fun known key given => (known key given).imp fun flag named => ⟨flag.mem_all, named⟩,
    fun listed key given => (listed key given).imp fun _ => And.right⟩

private theorem fieldOr_eq (fields : Table) (flag : Flag) :
    (Settings.fieldOr fields flag.key true fun value =>
      Settings.single flag.key (Settings.toBool value)) =
      Settings.single flag.key (coerced fields flag) := by
  rw [Settings.fieldOr, coerced]
  cases fields.find? flag.key <;> rfl

private theorem mem_unknownFields {fields : Table} {issue : Issue} :
    issue ∈ Settings.unknownFields (Flag.all.map Flag.key) fields ↔
      ∃ key ∈ fields.keys, (∀ flag : Flag, flag.key ≠ key) ∧ issue = ⟨[key], .unknownField⟩ := by
  have unknown (key : String) :
      (!(Flag.all.map Flag.key).contains key) = true ↔ ∀ flag : Flag, flag.key ≠ key := by
    simp only [Bool.not_eq_true', ← Bool.not_eq_true, List.contains_iff_mem, List.mem_map,
      not_exists, not_and]
    exact ⟨fun h flag => h flag flag.mem_all, fun h flag _ => h flag⟩
  simp only [Settings.unknownFields, List.mem_map, List.mem_filter, unknown, Table.keys]
  constructor
  · rintro ⟨entry, ⟨listed, foreign⟩, rfl⟩
    exact ⟨entry.1, ⟨entry, listed, rfl⟩, foreign, rfl⟩
  · rintro ⟨-, ⟨entry, listed, rfl⟩, foreign, rfl⟩
    exact ⟨entry, ⟨listed, foreign⟩, rfl⟩

private theorem mem_issuesOf_single {α : Type} {field : String} {result : Except IssueKind α}
    {issue : Issue} :
    issue ∈ Settings.issuesOf (Settings.single field result) ↔
      ∃ kind, result = .error kind ∧ issue = ⟨[field], kind⟩ := by
  cases result <;> simp [Settings.single, Settings.issuesOf, eq_comm]

/-- What is wrong with the fields of flags: a value that stands for no truth value, or a key of no
flag. -/
def Refuses (fields : Table) (issue : Issue) : Prop :=
  (∃ (flag : Flag) (kind : IssueKind), coerced fields flag = .error kind ∧
    issue = ⟨[flag.key], kind⟩) ∨
  ∃ key ∈ fields.keys, (∀ flag : Flag, flag.key ≠ key) ∧ issue = ⟨[key], .unknownField⟩

def issues (fields : Table) : List Issue :=
  Settings.issuesOf (Settings.single Flag.unknownCallee.key (coerced fields .unknownCallee)) ++
    Settings.issuesOf (Settings.single Flag.localShadow.key (coerced fields .localShadow)) ++
    Settings.unknownFields (Flag.all.map Flag.key) fields

variable {fields : Table}

private theorem mem_issues {issue : Issue} : issue ∈ issues fields ↔ Refuses fields issue := by
  simp only [issues, Refuses, List.mem_append, mem_issuesOf_single, mem_unknownFields]
  refine or_congr_left ⟨?_, ?_⟩
  · rintro (found | found)
    exacts [⟨_, found⟩, ⟨_, found⟩]
  · rintro ⟨_ | _, found⟩
    exacts [.inl found, .inr found]

theorem issues_eq_nil_iff :
    issues fields = [] ↔ Known fields ∧ ∀ flag, ∃ on, coerced fields flag = .ok on := by
  simp only [List.eq_nil_iff_forall_not_mem, mem_issues]
  constructor
  · refine fun clean => ⟨fun key given => ?_, fun flag => ?_⟩
    · by_contra foreign
      exact clean _ (.inr ⟨key, given, not_exists.mp foreign, rfl⟩)
    · match result : coerced fields flag with
      | .ok on => exact ⟨on, rfl⟩
      | .error kind => exact (clean _ (.inl ⟨flag, kind, result, rfl⟩)).elim
  · rintro ⟨known, valid⟩ issue (⟨flag, kind, failed, -⟩ | ⟨key, given, foreign, -⟩)
    · obtain ⟨on, worked⟩ := valid flag
      rw [worked] at failed
      cases failed
    · obtain ⟨flag, named⟩ := known key given
      exact foreign flag named

theorem ofFields_of_clean (clean : issues fields = []) {callee shadow : Bool}
    (first : coerced fields .unknownCallee = .ok callee)
    (second : coerced fields .localShadow = .ok shadow) :
    ofFields fields = .ok ⟨.bool callee, .bool shadow⟩ := by
  simp only [issues, List.append_eq_nil_iff] at clean
  simp only [ofFields, fieldOr_eq, clean.2, first, second]
  rfl

private theorem ofFields_of_issues (found : issues fields ≠ []) :
    ofFields fields = .error ⟨recordName, issues fields⟩ := by
  simp only [issues] at found ⊢
  simp only [ofFields, fieldOr_eq]
  generalize coerced fields .unknownCallee = callee at found ⊢
  generalize coerced fields .localShadow = shadow at found ⊢
  generalize Settings.unknownFields (Flag.all.map Flag.key) fields = extra at found ⊢
  match callee, shadow, extra with
  | .ok _, .ok _, [] => exact absurd rfl found
  | .ok _, .ok _, _ :: _ => rfl
  | .error _, _, _ => rfl
  | .ok _, .error _, _ => rfl

theorem ofFields_eq_ok_iff {flags : Flags} :
    ofFields fields = .ok flags ↔
      Known fields ∧ ∀ flag, ∃ on, coerced fields flag = .ok on ∧ flags.stored flag = .bool on := by
  constructor
  · intro taken
    have clean : issues fields = [] := by
      by_contra found
      rw [ofFields_of_issues found] at taken
      cases taken
    obtain ⟨known, valid⟩ := issues_eq_nil_iff.mp clean
    obtain ⟨callee, first⟩ := valid .unknownCallee
    obtain ⟨shadow, second⟩ := valid .localShadow
    obtain rfl := Except.ok.inj ((ofFields_of_clean clean first second).symm.trans taken)
    refine ⟨known, fun flag => ?_⟩
    cases flag
    exacts [⟨callee, first, rfl⟩, ⟨shadow, second, rfl⟩]
  · rintro ⟨known, valid⟩
    have clean := issues_eq_nil_iff.mpr ⟨known, fun flag => (valid flag).imp fun _ => And.left⟩
    obtain ⟨callee, first, firstStored⟩ := valid .unknownCallee
    obtain ⟨shadow, second, secondStored⟩ := valid .localShadow
    rw [ofFields_of_clean clean first second, ← firstStored, ← secondStored]
    rfl

private theorem exists_ofFields_eq_error_iff :
    (∃ report, ofFields fields = .error report) ↔
      ¬ Known fields ∨ ∃ (flag : Flag) (kind : IssueKind), coerced fields flag = .error kind := by
  have refused : (∃ report, ofFields fields = .error report) ↔ issues fields ≠ [] := by
    refine ⟨?_, fun found => ⟨_, ofFields_of_issues found⟩⟩
    rintro ⟨report, refused⟩ clean
    obtain ⟨-, valid⟩ := issues_eq_nil_iff.mp clean
    obtain ⟨callee, first⟩ := valid .unknownCallee
    obtain ⟨shadow, second⟩ := valid .localShadow
    rw [ofFields_of_clean clean first second] at refused
    cases refused
  have failed (flag : Flag) : (¬ ∃ on, coerced fields flag = .ok on) ↔
      ∃ kind, coerced fields flag = .error kind := by
    cases coerced fields flag <;> simp
  rw [refused, Ne, issues_eq_nil_iff, Classical.not_and_iff_not_or_not, not_forall]
  simp only [failed]

end Flags

namespace Settings

private theorem validated_map_eq_ok_iff {result : Except Invalid Flags} {policy : Policy}
    {settings : Settings} :
    (validated result).map (fun flags => (⟨flags, policy⟩ : Settings)) = .ok settings ↔
      result = .ok settings.flags ∧ settings.policy = policy := by
  obtain ⟨flags, other⟩ := settings
  cases result <;> simp [validated, Except.map, eq_comm]

private theorem validated_map_eq_error_iff {α β : Type} {result : Except Invalid α} {f : α → β}
    {report : Invalid} :
    (validated result).map f = .error (.invalid report) ↔ result = .error report := by
  cases result <;> simp [validated, Except.map]

end Settings

namespace CommandLine.Request

variable (request : Request)

/-- Whether a request turns a flag off by a switch. -/
def silences : Flag → Bool
  | .unknownCallee => request.silenceUnknown
  | .localShadow => request.silenceShadow

/-- No item of a request has the key. -/
def Unnamed (key : String) : Prop :=
  ∀ item ∈ request.config, ¬ ∃ text, Settings.Divides item key text

/-- A value of a flag that decides: the switch turns the flag off, else the last item with the key
of the flag counts, and else what the file gives. -/
inductive Decides (file : Table) (flag : Flag) : Value → Prop
  | switch (silenced : request.silences flag = true) : Decides file flag (.bool false)
  | item (loud : request.silences flag = false) {before after : List String} {item : String}
      {value : Value} (listed : request.config = before ++ item :: after)
      (assigns : Settings.Assigns item flag.key value)
      (last : ∀ later ∈ after, ¬ ∃ text, Settings.Divides later flag.key text) :
      Decides file flag value
  | file (loud : request.silences flag = false) (unnamed : request.Unnamed flag.key)
      {value : Value} (given : file.find? flag.key = some value) : Decides file flag value

/-- The truth value of a flag over all layers: what the deciding value stands for. A flag that no
layer gives is on. -/
inductive Effective (file : Table) (flag : Flag) : Bool → Prop
  | given {value : Value} {on : Bool} (decides : request.Decides file flag value)
      (means : Settings.Means value on) : Effective file flag on
  | standard (loud : request.silences flag = false) (unnamed : request.Unnamed flag.key)
      (absent : file.find? flag.key = none) : Effective file flag true

/-- The keys of all layers are keys of flags. -/
structure KeysKnown (file : Table) : Prop where
  items : ∀ item ∈ request.config, ∀ key text, Settings.Divides item key text →
    ∃ flag : Flag, flag.key = key
  file : Flags.Known file

def deciding? (file : Table) (flag : Flag) : Option Value :=
  if request.silences flag then some (.bool false)
  else (request.config.reverse.findSome? (Settings.itemValue? flag.key)).or (file.find? flag.key)

/-- The truth value of a flag, computed, or why there is none. -/
def effective (file : Table) (flag : Flag) : Except IssueKind Bool :=
  match request.deciding? file flag with
  | some value => Settings.toBool value
  | none => .ok true

section Layers

variable {request} {file : Table} {flag : Flag} {value : Value} {on : Bool} {key : String}

private theorem lastItem_eq_none_iff :
    request.config.reverse.findSome? (Settings.itemValue? key) = none ↔ request.Unnamed key := by
  simp only [List.findSome?_eq_none_iff, List.mem_reverse, Settings.itemValue?_eq_none_iff, Unnamed]

private theorem lastItem_eq_some_iff :
    request.config.reverse.findSome? (Settings.itemValue? key) = some value ↔
      ∃ before item after, request.config = before ++ item :: after ∧
        Settings.Assigns item key value ∧
        ∀ later ∈ after, ¬ ∃ text, Settings.Divides later key text := by
  simp only [List.findSome?_eq_some_iff, Settings.itemValue?_eq_some_iff,
    Settings.itemValue?_eq_none_iff]
  constructor
  · rintro ⟨after, item, before, turned, assigns, last⟩
    refine ⟨before.reverse, item, after.reverse, ?_, assigns, by simpa using last⟩
    rw [← List.reverse_reverse request.config, turned]
    simp
  · rintro ⟨before, item, after, listed, assigns, last⟩
    exact ⟨after.reverse, item, before.reverse, by simp [listed], assigns, by simpa using last⟩

private theorem deciding?_eq_some_iff :
    request.deciding? file flag = some value ↔ request.Decides file flag value := by
  rw [deciding?]
  constructor
  · intro decided
    split at decided
    next silenced => exact Option.some.inj decided ▸ .switch silenced
    next noisy =>
      have loud : request.silences flag = false := by simpa using noisy
      rcases Option.or_eq_some_iff.mp decided with ofItem | ⟨unnamed, ofFile⟩
      · obtain ⟨before, item, after, listed, assigns, last⟩ := lastItem_eq_some_iff.mp ofItem
        exact .item loud listed assigns last
      · exact .file loud (lastItem_eq_none_iff.mp unnamed) ofFile
  · intro decides
    cases decides with
    | switch silenced => rw [if_pos silenced]
    | item loud listed assigns last =>
      rw [if_neg (by simp [loud]), lastItem_eq_some_iff.mpr ⟨_, _, _, listed, assigns, last⟩]
      rfl
    | file loud unnamed given =>
      rw [if_neg (by simp [loud]), lastItem_eq_none_iff.mpr unnamed, given]
      rfl

private theorem deciding?_eq_none_iff : request.deciding? file flag = none ↔
    request.silences flag = false ∧ request.Unnamed flag.key ∧ file.find? flag.key = none := by
  rw [deciding?, ← lastItem_eq_none_iff]
  cases request.silences flag <;> simp

theorem effective_eq_ok_iff :
    request.effective file flag = .ok on ↔ request.Effective file flag on := by
  unfold effective
  constructor
  · intro computed
    split at computed
    next decided =>
      exact .given (deciding?_eq_some_iff.mp decided) (Settings.toBool_eq_ok_iff.mp computed)
    next undecided =>
      obtain ⟨loud, unnamed, absent⟩ := deciding?_eq_none_iff.mp undecided
      exact Except.ok.inj computed ▸ .standard loud unnamed absent
  · intro effective
    cases effective with
    | given decides means =>
      rw [deciding?_eq_some_iff.mpr decides]
      exact Settings.toBool_eq_ok_iff.mpr means
    | standard loud unnamed absent => rw [deciding?_eq_none_iff.mpr ⟨loud, unnamed, absent⟩]

private theorem exists_effective_eq_error_iff :
    (∃ kind, request.effective file flag = .error kind) ↔
    ∃ value, request.Decides file flag value ∧ ∀ on, ¬ Settings.Means value on := by
  simp only [← deciding?_eq_some_iff, ← Settings.toBool_eq_ok_iff, effective]
  cases request.deciding? file flag with
  | none => simp
  | some value => cases coerced : Settings.toBool value <;> simp [coerced]

end Layers

def switchEntries : Table :=
  (if request.silenceUnknown then [(Flag.unknownCallee.key, .bool false)] else []) ++
    if request.silenceShadow then [(Flag.localShadow.key, .bool false)] else []

def ownEntries : Table :=
  Settings.itemEntries request.config ++ request.switchEntries

theorem overrides_of_divided (divided : ∀ item ∈ request.config, '=' ∈ item.toList) :
    request.overrides = .ok (Table.putAll [] request.ownEntries) := by
  have read : Settings.keyValues request.config = _ := Settings.readInto_of_divided divided []
  rw [overrides, read, ownEntries, switchEntries]
  cases request.silenceUnknown <;> cases request.silenceShadow <;>
    simp [Table.putAll]

theorem overrides_of_bare {item : String}
    (first : request.config.find? (fun item => !item.toList.contains '=') = some item) :
    request.overrides = .error ⟨item⟩ := by
  have read : Settings.keyValues request.config = _ := Settings.readInto_of_bare first []
  rw [overrides, read]
  rfl

private theorem lookup_switchEntries (flag : Flag) :
    request.switchEntries.reverse.lookup flag.key =
      if request.silences flag then some (.bool false) else none := by
  cases flag <;> cases unknown : request.silenceUnknown <;> cases shadow : request.silenceShadow <;>
    simp [switchEntries, silences, unknown, shadow, Flag.key, List.lookup_cons]

theorem coerced_putAll (file : Table) (flag : Flag) :
    Flags.coerced (Table.putAll file (Table.putAll [] request.ownEntries)) flag =
      request.effective file flag := by
  have distinct : (Table.putAll [] request.ownEntries).keys.Nodup :=
    Table.nodup_keys_putAll _ _ .nil
  have found : (Table.putAll file (Table.putAll [] request.ownEntries)).find? flag.key =
      request.deciding? file flag := by
    rw [Table.find?_putAll, Table.lookup_reverse _ distinct, Table.find?_putAll, ownEntries,
      List.reverse_append, List.lookup_append, lookup_switchEntries, Settings.itemEntries,
      ← List.filterMap_reverse, ← Settings.itemEntries, Settings.lookup_itemEntries, deciding?]
    by_cases silent : request.silences flag <;> simp [silent, Table.find?]
  rw [Flags.coerced, effective, found]

private theorem known_switchEntries : Flags.Known request.switchEntries := by
  intro key given
  simp only [switchEntries, Table.keys_append, List.mem_append] at given
  rcases given with given | given <;> split at given <;> simp [Table.keys] at given
  exacts [⟨_, given.symm⟩, ⟨_, given.symm⟩]

private theorem known_itemEntries : Flags.Known (Settings.itemEntries request.config) ↔
    ∀ item ∈ request.config, ∀ key text, Settings.Divides item key text →
      ∃ flag : Flag, flag.key = key := by
  have listed (key : String) : key ∈ (Settings.itemEntries request.config).keys ↔
      ∃ item ∈ request.config, ∃ text, Settings.Divides item key text := by
    simp only [Table.keys, Settings.itemEntries, List.mem_map, List.mem_filterMap, Prod.exists,
      Settings.parsedItem?_eq_some_iff]
    constructor
    · rintro ⟨_, value, ⟨item, given, text, divides, -⟩, rfl⟩
      exact ⟨item, given, text, divides⟩
    · rintro ⟨item, given, text, divides⟩
      exact ⟨key, _, ⟨item, given, text, divides, Settings.stands_typedValue text⟩, rfl⟩
  simp only [Flags.Known, listed]
  constructor
  · exact fun known item given key text divides => known key ⟨item, given, text, divides⟩
  · rintro known key ⟨item, given, text, divides⟩
    exact known item given key text divides

theorem known_putAll (file : Table) :
    Flags.Known (Table.putAll file (Table.putAll [] request.ownEntries)) ↔
      request.KeysKnown file := by
  have given (key : String) :
      key ∈ (Table.putAll file (Table.putAll [] request.ownEntries)).keys ↔
        (key ∈ (Settings.itemEntries request.config).keys ∨ key ∈ request.switchEntries.keys) ∨
          key ∈ file.keys := by
    rw [Table.mem_keys_putAll, Table.mem_keys_putAll, ownEntries, Table.keys_append,
      List.mem_append]
    simp [Table.keys]
  constructor
  · exact fun known => ⟨request.known_itemEntries.mp fun key listed =>
      known key ((given key).mpr (.inl (.inl listed))),
      fun key listed => known key ((given key).mpr (.inr listed))⟩
  · rintro ⟨ofItems, ofFile⟩ key listed
    rcases (given key).mp listed with (listed | switched) | listed
    · exact request.known_itemEntries.mpr ofItems key listed
    · exact request.known_switchEntries key switched
    · exact ofFile key listed

variable {request} {files : Files} {own : Toml.Entries} {file scope : Table} {policy : Policy}

/-- Of the layers that give a flag the highest one decides: a switch turns the flag off, else the
last item with its key counts, else the project file, and else the flag is on. Loading fails
exactly when some layer has a key of no flag, or a deciding value stands for no truth value. -/
theorem flags_follow_precedence
    (found : Settings.ownSection (files.nearestProject? request.path.parent) = .ok own)
    (warnings : Settings.fieldsAt own "warnings" = .ok file)
    (scopes : Settings.fieldsAt own "scope" = .ok scope)
    (valid : Policy.ofFields scope = .ok policy) :
    (∀ item, request.config.find? (fun item => !item.toList.contains '=') = some item →
      request.overrides = .error ⟨item⟩) ∧
    ((∀ item ∈ request.config, '=' ∈ item.toList) →
      ∃ overrides, request.overrides = .ok overrides ∧
        (∀ settings,
          Settings.load (files.nearestProject? request.path.parent) overrides = .ok settings ↔
            request.KeysKnown file ∧ settings.policy = policy ∧
              ∀ flag, ∃ on, request.Effective file flag on ∧
                settings.flags.stored flag = .bool on) ∧
        ((∃ report, Settings.load (files.nearestProject? request.path.parent) overrides =
            .error (.invalid report)) ↔
          ¬ request.KeysKnown file ∨ ∃ flag value, request.Decides file flag value ∧
            ∀ on, ¬ Settings.Means value on)) := by
  refine ⟨fun item first => request.overrides_of_bare first, fun divided =>
    ⟨_, request.overrides_of_divided divided, ?_⟩⟩
  have fields := request.coerced_putAll file
  have keys := request.known_putAll file
  have loaded := (Settings.load_of_ownSection found (Table.putAll [] request.ownEntries)).trans
    (Settings.loadFrom_of_tables warnings scopes valid _)
  generalize Table.putAll file (Table.putAll [] request.ownEntries) = given at *
  rw [loaded]
  simp only [← keys, ← effective_eq_ok_iff, ← exists_effective_eq_error_iff, ← fields,
    Settings.validated_map_eq_error_iff, ← Flags.exists_ofFields_eq_error_iff, and_true]
  intro settings
  rw [Settings.validated_map_eq_ok_iff, Flags.ofFields_eq_ok_iff, and_assoc, and_comm (b := _ = _)]

def wordyProject : List UInt8 :=
  "[tool.exprflow.warnings]\nwarn_unknown_callee = \"maybe\"\nwarn_possible_local_shadow = 0"
    |>.toList.map fun c => UInt8.ofNat c.toNat

/-- The file next to the current directory. -/
def wordyFiles : Files where
  current := ["work"]
  entries := [(["pyproject.toml"], some wordyProject)]

def wordyFields : Table :=
  [("warn_unknown_callee", .str "maybe"), ("warn_possible_local_shadow", .int 0)]

/-- A request whose items give both flags, one of them after a word for no truth value. -/
def correctingRequest : Request where
  command := .symbols
  path := ⟨"", ["f.py"]⟩
  config := ["warn_unknown_callee=?", " warn_unknown_callee = +00 ",
    "warn_possible_local_shadow= 1_0e-1"]

/-- A request whose switch is set against its item. -/
def switchingRequest : Request :=
  { correctingRequest with silenceUnknown := true, config := ["warn_unknown_callee = TRUE"] }

/-- A request with a number for no truth value. -/
def mistakenRequest : Request := { correctingRequest with config := ["warn_unknown_callee=2"] }

def isWordy : Except Settings.LoadError Toml.Entries → Bool
  | .ok [("warnings", .table [("warn_unknown_callee", .text "maybe"),
      ("warn_possible_local_shadow", .integer 0)])] => true
  | _ => false

private theorem ownSection_wordyFiles :
    Settings.ownSection (wordyFiles.nearestProject? correctingRequest.path.parent) =
      .ok [("warnings", .table [("warn_unknown_callee", .text "maybe"),
        ("warn_possible_local_shadow", .integer 0)])] := by
  have read : isWordy (Settings.ownSection
      (wordyFiles.nearestProject? correctingRequest.path.parent)) = true := by
    decide +kernel
  generalize Settings.ownSection _ = result at read ⊢
  rw [isWordy.eq_def] at read
  split at read
  · rfl
  · cases read

private theorem Effective.of_toOption {request : Request} {file : Table} {flag : Flag} {on : Bool}
    (computed : (request.effective file flag).toOption = some on) :
    request.Effective file flag on := by
  refine effective_eq_ok_iff.mp ?_
  match result : request.effective file flag with
  | .ok other => simpa [result, Except.toOption] using computed
  | .error _ => simp [result, Except.toOption] at computed

/-- Items decide on both flags against the file; then a switch decides against an item, and the file
on the other flag; and a number that stands for no truth value is refused. -/
theorem flags_follow_precedence_correctingRequest :
    (∃ overrides settings, correctingRequest.overrides = .ok overrides ∧
      Settings.load (wordyFiles.nearestProject? correctingRequest.path.parent) overrides =
        .ok settings ∧ settings.flags = ⟨.bool false, .bool true⟩) ∧
    (∃ overrides settings, switchingRequest.overrides = .ok overrides ∧
      Settings.load (wordyFiles.nearestProject? switchingRequest.path.parent) overrides =
        .ok settings ∧ settings.flags = ⟨.bool false, .bool false⟩) ∧
    ∃ overrides report, mistakenRequest.overrides = .ok overrides ∧
      Settings.load (wordyFiles.nearestProject? mistakenRequest.path.parent) overrides =
        .error (.invalid report) := by
  have fileKnown : Flags.Known wordyFields := Flags.known_iff.mpr (by decide)
  refine ⟨?_, ?_, ?_⟩
  · obtain ⟨-, loads⟩ := @flags_follow_precedence correctingRequest wordyFiles _ wordyFields _ _
      ownSection_wordyFiles rfl rfl rfl
    obtain ⟨overrides, given, taken, -⟩ := loads (by decide)
    have known : Flags.Known (Settings.itemEntries correctingRequest.config) :=
      Flags.known_iff.mpr (by decide +kernel)
    refine ⟨overrides, ⟨⟨.bool false, .bool true⟩, {}⟩, given, (taken _).mpr
      ⟨⟨correctingRequest.known_itemEntries.mp known, fileKnown⟩, rfl, fun flag => ?_⟩, rfl⟩
    cases flag
    exacts [⟨false, .of_toOption (by decide +kernel), rfl⟩,
      ⟨true, .of_toOption (by decide +kernel), rfl⟩]
  · obtain ⟨-, loads⟩ := @flags_follow_precedence switchingRequest wordyFiles _ wordyFields _ _
      ownSection_wordyFiles rfl rfl rfl
    obtain ⟨overrides, given, taken, -⟩ := loads (by decide)
    have known : Flags.Known (Settings.itemEntries switchingRequest.config) :=
      Flags.known_iff.mpr (by decide +kernel)
    refine ⟨overrides, ⟨⟨.bool false, .bool false⟩, {}⟩, given, (taken _).mpr
      ⟨⟨switchingRequest.known_itemEntries.mp known, fileKnown⟩, rfl, fun flag => ?_⟩, rfl⟩
    cases flag
    exacts [⟨false, .of_toOption (by decide +kernel), rfl⟩,
      ⟨false, .of_toOption (by decide +kernel), rfl⟩]
  · obtain ⟨-, loads⟩ := @flags_follow_precedence mistakenRequest wordyFiles _ wordyFields _ _
      ownSection_wordyFiles rfl rfl rfl
    obtain ⟨overrides, given, -, refused⟩ := loads (by decide)
    have none : (mistakenRequest.effective wordyFields .unknownCallee).toOption = none := by
      decide +kernel
    obtain ⟨kind, wrong⟩ :
        ∃ kind, mistakenRequest.effective wordyFields .unknownCallee = .error kind := by
      match result : mistakenRequest.effective wordyFields .unknownCallee with
      | .ok _ => simp [result, Except.toOption] at none
      | .error kind => exact ⟨kind, rfl⟩
    obtain ⟨report, failed⟩ :=
      refused.mpr (.inr ⟨_, exists_effective_eq_error_iff.mp ⟨kind, wrong⟩⟩)
    exact ⟨overrides, report, given, failed⟩

end CommandLine.Request

end TreePass
