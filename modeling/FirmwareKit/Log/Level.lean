set_option autoImplicit false

namespace FirmwareKit

inductive Level where
  | debug
  | info
  | warning
  | error
  | critical
deriving DecidableEq, Repr

namespace Level

def number : Level → Nat
  | .debug => 10
  | .info => 20
  | .warning => 30
  | .error => 40
  | .critical => 50

def name : Level → String
  | .debug => "DEBUG"
  | .info => "INFO"
  | .warning => "WARNING"
  | .error => "ERROR"
  | .critical => "CRITICAL"

def all : List Level := [.debug, .info, .warning, .error, .critical]

def ofNumber? (n : Int) : Option Level := all.find? fun l => (l.number : Int) = n

theorem ofNumber?_number (l : Level) : ofNumber? l.number = some l := by
  cases l <;> rfl

end Level
end FirmwareKit
