namespace Stencil

inductive Level
  | debug | info | warning | error | critical
  deriving DecidableEq

namespace Level

def word : Level → String
  | debug => "DEBUG"
  | info => "INFO"
  | warning => "WARNING"
  | error => "ERROR"
  | critical => "CRITICAL"

def rank : Level → Nat
  | debug => 10
  | info => 20
  | warning => 30
  | error => 40
  | critical => 50

end Level

structure LogLine where
  level : Level
  message : String

def LogLine.text (l : LogLine) : String :=
  l.level.word ++ ": " ++ l.message

end Stencil
