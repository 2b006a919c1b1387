import TagWire.Config.Basic
import TagWire.Number.Kind
import TagWire.Toml.Document
import TagWire.Wire.Text

/-! The configuration as a file: one table for the engine, one for the log. A table may be missing,
but one that is there must be complete, the path of the log apart; further entries are ignored. -/
namespace TagWire.Config

open Toml (Value Entries)

def integerOf? : Value → Option Int
  | .integer n => some n
  | _ => none

def sizeOf? : Value → Option Nat
  | .integer n => if 0 ≤ n then some n.toNat else none
  | _ => none

def stringOf? : Value → Option String
  | .string s => some s
  | _ => none

def booleanOf? : Value → Option Bool
  | .boolean b => some b
  | _ => none

def levelOf? (v : Value) : Option Level := do Level.parse? (← stringOf? v)

/-- The value of a setting: by its name in a table, by its place in an array. -/
def setting? (v : Value) (name : String) (place : Nat) : Option (Option Value) :=
  match v with
  | .table _ entries => some (entries.lookup name)
  | .array items => items[place]?.map some
  | _ => none

def engineOf? (v : Value) : Option EngineSettings := do
  let version ← integerOf? (← (← setting? v "protocol_version" 0))
  let maxDepth ← sizeOf? (← (← setting? v "max_depth" 1))
  let maxItems ← sizeOf? (← (← setting? v "max_collection_len" 2))
  let maxText ← sizeOf? (← (← setting? v "max_string_len" 3))
  return { version, maxDepth, maxItems, maxText }

def logOf? (v : Value) : Option LogSettings := do
  let appName ← stringOf? (← (← setting? v "app_name" 0))
  let level ← levelOf? (← (← setting? v "log_level" 1))
  let toFile ← booleanOf? (← (← setting? v "log_to_file" 2))
  let path ← match ← setting? v "log_file_path" 3 with
    | some w => some <$> stringOf? w
    | none => pure none
  let json ← booleanOf? (← (← setting? v "json_format" 4))
  return { appName, level, toFile, path, json }

def ofEntries? (entries : Entries) : Option Config := do
  let engine ← match entries.lookup "codec" with
    | some v => engineOf? v
    | none => pure {}
  let log ← match entries.lookup "logging" with
    | some v => logOf? v
    | none => pure {}
  return { engine, log }

def ofText (text : String) : Except Error Config :=
  match Toml.Document.parse? text >>= ofEntries? with
  | some c => .ok c
  | none => .error (.config .cannotParse)

inductive Found
  | nothing
  | directory
  | file (bytes : List UInt8)

/-- Loads the configuration from what is found under a path. A directory opens but does not read. -/
def ofFound : Found → Except Error Config
  | .nothing => .error (.config (.cannotOpen .missing))
  | .directory => .error (.config (.cannotRead .directory))
  | .file bytes => match Text.ofUtf8? bytes with
    | some text => ofText text
    | none => .error (.config (.cannotRead .notUtf8))

def line (name value : String) : String := name ++ " = " ++ value ++ "\n"

def renderBoolean (b : Bool) : String := if b then "true" else "false"

def render (c : Config) : Except Error String :=
  if IntKind.i64.Fits c.engine.maxDepth ∧ IntKind.i64.Fits c.engine.maxItems ∧
      IntKind.i64.Fits c.engine.maxText then
    .ok <| String.join [
      "[codec]\n",
      line "protocol_version" (toString c.engine.version),
      line "max_depth" (toString c.engine.maxDepth),
      line "max_collection_len" (toString c.engine.maxItems),
      line "max_string_len" (toString c.engine.maxText),
      "\n[logging]\n",
      line "app_name" (Toml.render c.log.appName),
      line "log_level" (Toml.render c.log.level.name),
      line "log_to_file" (renderBoolean c.log.toFile),
      match c.log.path with
      | some path => line "log_file_path" (Toml.render path)
      | none => "",
      line "json_format" (renderBoolean c.log.json)]
  else .error (.config .cannotSerialize)

/-- The text to write under a path, where `blocked` says why nothing can be written there. The text
is made first. -/
def save (c : Config) (blocked : Option PathFault) : Except Error String := do
  let text ← c.render
  match blocked with
  | some why => .error (.config (.cannotWrite why))
  | none => return text

def example? : Except Error String := render {}

end TagWire.Config
