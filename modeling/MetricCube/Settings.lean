/-
  MetricCube.Settings
  ───────────────────
  **Settings** of planning and dispatch, and how they are read from a document.
  A document has at most two sections, `planner` and `dispatch`, each as a
  table, as dotted keys, as an inline table or as an array of its values in
  order.  What it leaves out keeps its default; a name it does not know, a
  repeated name or a value of another kind makes it unreadable.
-/
import MetricCube.Plan.Planner
import MetricCube.Settings.FileTree
import MetricCube.Settings.Toml

namespace MetricCube

/-- How fetches are dispatched. -/
structure DispatchSettings where
  maxConcurrentFetches : Nat
  requestBudget : Nat
  maxRounds : Nat
deriving DecidableEq

/-- All settings. -/
structure Settings where
  planner : PlannerSettings
  dispatch : DispatchSettings
deriving DecidableEq

/-- Why settings cannot be used. -/
inductive SettingsError where
  | unreadableFile (path : String) (fault : FileFault)
  | malformed
  | invalid (field reason : String)
deriving DecidableEq

/-- The wording of a settings error. -/
def SettingsError.message : SettingsError → String
  | .unreadableFile path fault => "failed to read config " ++ path ++ ": " ++ fault.message
  | .malformed => "invalid config toml"
  | .invalid field reason => "invalid config value for " ++ field ++ ": " ++ reason

/-- The settings of planning by default. -/
def PlannerSettings.standard : PlannerSettings := ⟨true, true⟩

/-- The settings of dispatch by default. -/
def DispatchSettings.standard : DispatchSettings := ⟨4, 64, 3⟩

namespace Settings

/-- The settings by default. -/
def standard : Settings := ⟨.standard, .standard⟩

/-- Settings can be used if at least one fetch may run and one round be made. -/
def validate (s : Settings) : Except SettingsError Settings :=
  if s.dispatch.maxConcurrentFetches = 0 then
    .error (.invalid "dispatch.max_concurrent_fetches" "must be at least 1")
  else if s.dispatch.maxRounds = 0 then
    .error (.invalid "dispatch.max_rounds" "must be at least 1")
  else .ok s

/-! ## §1. Sections. -/

/-- What a document says about a section. -/
inductive Section where
  /-- Values by name; `extendable` while dotted keys may add to it. -/
  | named (entries : List (String × Toml.Value)) (extendable : Bool)
  /-- Values in order. -/
  | placed (items : List Toml.Value)

/-- The sections of a document so far, and the one that entries go to; none before the first
    header. -/
structure Draft where
  sections : List (String × Section)
  current : Option String

/-- The names of the sections. -/
def sectionNames : List String := ["planner", "dispatch"]

/-- The section under a name. -/
def Draft.find? (d : Draft) (name : String) : Option Section :=
  (d.sections.find? fun e => e.1 = name).map Prod.snd

/-- The draft with a section in place of what was there under its name. -/
def Draft.put (d : Draft) (name : String) (s : Section) : Draft :=
  { d with sections := (name, s) :: d.sections.filter fun e => e.1 ≠ name }

/-- The section that a value stands for. -/
def sectionOf? : Toml.Value → Option Section
  | .table _ entries => some (.named entries false)
  | .array items => some (.placed items)
  | _ => none

/-- Takes up one statement. -/
def Draft.add? (d : Draft) : Toml.Statement → Option Draft
  | .header false [name] =>
    if sectionNames.contains name && (d.find? name).isNone then
      some { d.put name (.named [] false) with current := some name }
    else none
  | .header _ _ => none
  | .entry [key] v =>
    match d.current with
    | some name =>
      match d.find? name with
      | some (.named entries extendable) =>
        (Toml.insertAt? [key] v entries).map fun es => d.put name (.named es extendable)
      | _ => none
    | none =>
      if sectionNames.contains key && (d.find? key).isNone then
        (sectionOf? v).map fun s => d.put key s
      else none
  | .entry [name, key] v =>
    if d.current.isSome || !sectionNames.contains name then none
    else
      match d.find? name with
      | none => some (d.put name (.named [(key, v)] true))
      | some (.named entries true) =>
        (Toml.insertAt? [key] v entries).map fun es => d.put name (.named es true)
      | some _ => none
  | .entry _ _ => none

/-- Takes up statements in order. -/
def Draft.addAll? (d : Draft) : List Toml.Statement → Option Draft
  | [] => some d
  | s :: ss => (d.add? s).bind fun d => d.addAll? ss

/-! ## §2. Fields. -/

/-- A named field of a section: how its value changes the settings. -/
structure Field where
  name : String
  store : Toml.Value → Settings → Option Settings

/-- A field that is on or off. -/
def flag (name : String) (set : Bool → Settings → Settings) : Field :=
  ⟨name, fun v s =>
    match v with
    | .boolean b => some (set b s)
    | _ => none⟩

/-- A field that is a number from zero. -/
def amount (name : String) (set : Nat → Settings → Settings) : Field :=
  ⟨name, fun v s =>
    match v with
    | .number (.integer (.ofNat n)) => some (set n s)
    | _ => none⟩

/-- The fields of a section. -/
def fieldsOf (name : String) : List Field :=
  if name = "planner" then
    [flag "prorate_aggregates" fun b s =>
        { s with planner := { s.planner with prorateAggregates := b } },
      flag "fetch_missing_values" fun b s =>
        { s with planner := { s.planner with fetchMissingValues := b } }]
  else
    [amount "max_concurrent_fetches" fun n s =>
        { s with dispatch := { s.dispatch with maxConcurrentFetches := n } },
      amount "request_budget" fun n s =>
        { s with dispatch := { s.dispatch with requestBudget := n } },
      amount "max_rounds" fun n s =>
        { s with dispatch := { s.dispatch with maxRounds := n } }]

/-- Stores values by name. -/
def storeNamed (fields : List Field) : List (String × Toml.Value) → Settings → Option Settings
  | [], s => some s
  | (name, v) :: rest, s =>
    match fields.find? (·.name == name) with
    | none => none
    | some f => (f.store v s).bind (storeNamed fields rest)

/-- Stores values in order; values beyond the fields are passed over. -/
def storePlaced : List Field → List Toml.Value → Settings → Option Settings
  | f :: fs, v :: vs, s => (f.store v s).bind (storePlaced fs vs)
  | _, _, s => some s

/-- Stores all sections. -/
def storeAll : List (String × Section) → Settings → Option Settings
  | [], s => some s
  | (name, .named entries _) :: rest, s =>
    (storeNamed (fieldsOf name) entries s).bind (storeAll rest)
  | (name, .placed items) :: rest, s =>
    (storePlaced (fieldsOf name) items s).bind (storeAll rest)

/-! ## §3. Documents and files. -/

/-- The settings of a document, whether or not they can be used. -/
def ofText? (text : String) : Option Settings := do
  let statements ← Toml.statements? text
  let draft ← Draft.addAll? ⟨[], none⟩ statements
  storeAll draft.sections standard

/-- The settings of a document. -/
def parse (text : String) : Except SettingsError Settings :=
  match ofText? text with
  | none => .error .malformed
  | some s => s.validate

/-- The settings of a file, given its bytes or why it cannot be read. -/
def load (path : String) (contents : Except FileFault ByteArray) :
    Except SettingsError Settings :=
  match contents with
  | .error fault => .error (.unreadableFile path fault)
  | .ok bytes =>
    match String.fromUTF8? bytes with
    | none => .error (.unreadableFile path .notText)
    | some text => parse text

end Settings

/-! ## Settings as text. -/

/-- A named group of fields on one line; `hidden` when it has more than is shown. -/
def groupText (name : String) (fields : List (String × String)) (hidden : Bool) : String :=
  let shown := fields.map fun f => f.1 ++ ": " ++ f.2
  name ++ " \x7b " ++ ", ".intercalate (if hidden then shown ++ [".."] else shown) ++ " \x7d"

/-- A truth value as text. -/
def boolText (b : Bool) : String :=
  if b then "true" else "false"

/-- The settings of planning on one line. -/
def PlannerSettings.text (s : PlannerSettings) : String :=
  groupText "PlannerConfig" [("prorate_aggregates", boolText s.prorateAggregates),
    ("fetch_missing_values", boolText s.fetchMissingValues)] false

/-- The settings of dispatch on one line. -/
def DispatchSettings.text (s : DispatchSettings) : String :=
  groupText "DispatchConfig" [("max_concurrent_fetches", Text.decimal s.maxConcurrentFetches),
    ("request_budget", Text.decimal s.requestBudget), ("max_rounds", Text.decimal s.maxRounds)]
    false

/-- The planner, the dispatcher and the resolver that settings give rise to, one line each. -/
def Settings.text (s : Settings) : List String :=
  let planner := groupText "Planner" [("config", s.planner.text)] true
  let dispatcher := groupText "Dispatcher" [("config", s.dispatch.text)] true
  [planner, dispatcher, groupText "Resolver" [("planner", planner), ("dispatcher", dispatcher),
    ("max_rounds", Text.decimal s.dispatch.maxRounds)] true]

end MetricCube
