/-! What can be wrong with a configuration, its file, or the log it names. -/
namespace TagWire.Config

inductive PathFault
  | missing
  | directory
  | notUtf8

def PathFault.message : PathFault → String
  | .missing => "No such file or directory (os error 2)"
  | .directory => "Is a directory (os error 21)"
  | .notUtf8 => "stream did not contain valid UTF-8"

inductive Fault
  | cannotOpen (why : PathFault)
  | cannotRead (why : PathFault)
  | cannotWrite (why : PathFault)
  | cannotParse
  | cannotSerialize
  | badVariable (name text : String)
  | invalid (problems : List String)
  | cannotOpenLog (path : String) (why : PathFault)
  | noLogPath

def logPathNeeded : String := "log_file_path must be specified when log_to_file is true"

def Fault.message : Fault → String
  | .cannotOpen why => "Failed to open config file: " ++ why.message
  | .cannotRead why => "Failed to read config file: " ++ why.message
  | .cannotWrite why => "Failed to write config file: " ++ why.message
  | .cannotParse => "Failed to parse TOML"
  | .cannotSerialize => "Failed to serialize config"
  | .badVariable name text => "Invalid " ++ name ++ ": " ++ text
  | .invalid problems =>
    "Configuration validation failed:\n  - " ++ String.intercalate "\n  - " problems
  | .cannotOpenLog path why => "Failed to open log file " ++ path ++ ": " ++ why.message
  | .noLogPath => logPathNeeded

end TagWire.Config
