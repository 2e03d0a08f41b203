import Grove.Text.Alphanumeric
import Grove.Text.Decimal
import Grove.Text.Split

/-! # Telemetry settings

What is logged and how, as variables of the environment say, and which filters can be installed.
-/

namespace Grove.Telemetry

structure Settings where
  serviceName : String := "forest"
  /-- A filter: a level, or levels by target. -/
  logLevel : String := "info"
  consoleOutput : Bool := true
  jsonLogs : Bool := false
  deriving DecidableEq, Repr

/--
The settings that variables ask for. Console output stays on unless it is `false` or `0`; JSON lines
stay off unless they are `true` or `1`. Case is ignored in the words.
-/
def Settings.ofVariables (lookup : String → Option String) : Settings :=
  let defaults : Settings := {}
  { serviceName := (lookup "FOREST_SERVICE_NAME").getD defaults.serviceName
    logLevel := ((lookup "FOREST_LOG_LEVEL").or (lookup "RUST_LOG")).getD defaults.logLevel
    consoleOutput := ((lookup "FOREST_CONSOLE_OUTPUT").map fun v =>
      v.toLower ≠ "false" && v ≠ "0").getD defaults.consoleOutput
    jsonLogs := ((lookup "FOREST_JSON_LOGS").map fun v =>
      v.toLower = "true" || v = "1").getD defaults.jsonLogs }

/-- The words for a level; the numbers up to five and nothing at all stand for levels too. -/
def levelWords : List String :=
  ["off", "error", "warn", "info", "debug", "trace"]

def isLevel (s : List Char) : Bool :=
  match Decimal.readSigned? s with
  | some n => n ≤ 5
  | none => s = [] || levelWords.contains (String.ofList s).toLower

def isTargetStart (c : Char) : Bool :=
  c = '-' || c = ':' || c = '_' || Text.isAlphanumeric c

/-- What may stand behind a target or a span: nothing, or a level behind an equals sign. -/
def isLevelPart (indented : Bool) : List Char → Bool
  | '=' :: level => !indented && isLevel level
  | s => s.all Text.isSpace

/-- A span is a name, or fields in braces behind one, closed by a bracket. -/
def isSpan (indented : Bool) (s : List Char) : Bool :=
  match s.dropWhile fun c => c ≠ ']' && c ≠ '{' with
  | ']' :: s => isLevelPart indented s
  | _ :: s =>
    match s.span (· ≠ '}') with
    | (_ :: _, _ :: ']' :: s) => isLevelPart indented s
    | _ => false
  | [] => false

/-- A directive is a level, or a target or a span in brackets, or both, with or without a level
behind an equals sign. Blanks may stand around it, but one that begins with blanks has no level
behind an equals sign. -/
def isDirective (s : List Char) : Bool :=
  let indented := s.head?.any Text.isSpace
  match s.dropWhile Text.isSpace with
  | [] => false
  | '[' :: s => isSpan indented s
  | c :: s =>
    isTargetStart c &&
      match s.dropWhile fun c => c ≠ '=' && c ≠ '[' with
      | [] => true
      | '[' :: s => isSpan indented s
      | s => isLevelPart indented s

inductive Error where
  | filter (directive : String)
  | alreadyInitialized
  deriving DecidableEq, Repr

/-- A filter is a list of directives with commas between them, where nothing may stand too. -/
def isFilter (s : List Char) : Bool :=
  (Text.splitAll ',' s).all fun part => part = [] || isDirective part

def Settings.checkFilter (s : Settings) : Except Error Unit :=
  if isFilter s.logLevel.toList then .ok () else .error (.filter s.logLevel)

/-- Installs logging, which can be done once in a process. -/
def Settings.install (s : Settings) (installed : Bool) : Except Error Unit := do
  s.checkFilter
  if installed then throw .alreadyInitialized

end Grove.Telemetry
