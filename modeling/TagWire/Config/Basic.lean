import TagWire.Config.Fault
import TagWire.Config.Level
import TagWire.Error
import TagWire.Options

/-! The configuration: settings of the engine and of the log, each with defaults and with a list of
complaints about values that parse but make no sense. -/
namespace TagWire

structure EngineSettings where
  version : Int := 0
  maxDepth : Nat := 64
  maxItems : Nat := 1048576
  maxText : Nat := 16777216

structure LogSettings where
  appName : String := "ras-codec"
  level : Config.Level := .info
  toFile : Bool := false
  path : Option String := none
  json : Bool := false

structure Config where
  engine : EngineSettings := {}
  log : LogSettings := {}

namespace EngineSettings

def options (s : EngineSettings) : Options where
  version := s.version
  maxDepth := s.maxDepth
  maxItems := s.maxItems
  maxText := s.maxText

def complaints (s : EngineSettings) : List String :=
  (if s.version < 0 then ["Protocol version cannot be negative: " ++ toString s.version] else []) ++
  (if s.maxDepth = 0 then ["Max depth must be greater than 0"]
    else if 1024 < s.maxDepth then
      ["Max depth too large: " ++ toString s.maxDepth ++ " (maximum: 1024)"]
    else []) ++
  (if s.maxItems = 0 then ["Max collection length must be greater than 0"] else []) ++
  (if s.maxText = 0 then ["Max string length must be greater than 0"]
    else if 268435456 < s.maxText then
      ["Max string length too large: " ++ toString s.maxText ++
        " bytes (maximum recommended: 256 MB)"]
    else [])

end EngineSettings

namespace LogSettings

def complaints (s : LogSettings) : List String :=
  if s.toFile && s.path.isNone then [Config.logPathNeeded] else []

/-- Why a log with these settings cannot be started: a log file without a path, or one that
`opening` says cannot be opened. -/
def refusal? (s : LogSettings) (opening : String → Option Config.PathFault) : Option Error :=
  match s.toFile, s.path with
  | true, some path => (opening path).map fun why => .config (.cannotOpenLog path why)
  | true, none => some (.config .noLogPath)
  | false, _ => none

end LogSettings

namespace Config

def options (c : Config) : Options := c.engine.options

def complaints (c : Config) : List String := c.engine.complaints ++ c.log.complaints

def check (c : Config) : Except Error Unit :=
  if c.complaints.isEmpty then .ok () else .error (.config (.invalid c.complaints))

theorem check_eq_ok_iff (c : Config) : c.check = .ok () ↔ c.complaints = [] := by
  unfold check
  split <;> simp_all

end Config

end TagWire
