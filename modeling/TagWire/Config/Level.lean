import TagWire.Text.Decimal

/-! Log levels, by name in any case or by number from the gravest on. -/
namespace TagWire.Config

inductive Level
  | error
  | warn
  | info
  | debug
  | trace
  deriving DecidableEq

namespace Level

def name : Level → String
  | error => "error"
  | warn => "warn"
  | info => "info"
  | debug => "debug"
  | trace => "trace"

def all : List Level := [error, warn, info, debug, trace]

/-- A number from 1 on, or a name in any case of its ASCII letters. -/
def parse? (s : String) : Option Level :=
  match Text.natural? s.toList with
  | some n => if n = 0 then none else all[n - 1]?
  | none => all.find? fun level => level.name.toList = s.toList.map Char.toLower

theorem parse?_name (level : Level) : parse? level.name = some level := by
  cases level <;> decide

end Level

end TagWire.Config
