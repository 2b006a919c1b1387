import TagWire.Config.Basic
import TagWire.Number.Kind
import TagWire.Text.Blank

/-! The configuration from variables of the environment. A variable that is set must parse; the
first that does not is reported. -/
namespace TagWire.Config

def variableNamed (setting : String) : String := "RAS_CODEC_" ++ setting

/-- The value of a variable read by `parse`, which sees it without the blanks around it. -/
def integerVariable (env : String → Option String) (name : String) (k : IntKind)
    (parse : List Char → Option Int) : Except Error (Option Int) :=
  match env name with
  | none => .ok none
  | some text => match parse (Text.trim text.toList) with
    | some n => if k.Fits n then .ok (some n) else .error (.config (.badVariable name text))
    | none => .error (.config (.badVariable name text))

def sizeVariable (env : String → Option String) (name : String) : Except Error (Option Nat) :=
  (·.map Int.toNat) <$> integerVariable env name .usize fun cs => (Text.natural? cs).map Int.ofNat

def levelVariable (env : String → Option String) (name : String) : Except Error (Option Level) :=
  match env name with
  | none => .ok none
  | some text => match Level.parse? text with
    | some level => .ok (some level)
    | none => .error (.config (.badVariable name text))

def ofEnvironment (env : String → Option String) : Except Error Config := do
  let version ← integerVariable env (variableNamed "PROTOCOL_VERSION") .i64 Text.integer?
  let maxDepth ← sizeVariable env (variableNamed "MAX_DEPTH")
  let maxItems ← sizeVariable env (variableNamed "MAX_COLLECTION_LEN")
  let maxText ← sizeVariable env (variableNamed "MAX_STRING_LEN")
  let level ← levelVariable env (variableNamed "LOG_LEVEL")
  let engine : EngineSettings := {}
  let log : LogSettings := {}
  return {
    engine := {
      version := version.getD engine.version
      maxDepth := maxDepth.getD engine.maxDepth
      maxItems := maxItems.getD engine.maxItems
      maxText := maxText.getD engine.maxText }
    log := { log with level := level.getD log.level } }

end TagWire.Config
