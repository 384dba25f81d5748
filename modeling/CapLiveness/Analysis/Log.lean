/-!
# Log records

What the analysis tells about its work while it runs: a level, a message, and
named values. A ratio is kept as its two counts, so that no digit is lost before
it is written.
-/

set_option autoImplicit false

namespace CapLiveness

/-- How important a record is. -/
inductive LogLevel where
  | debug
  | info
  | warn
deriving DecidableEq

/-- The word for a level. -/
def LogLevel.text : LogLevel → String
  | .debug => "DEBUG"
  | .info => "INFO"
  | .warn => "WARN"

/-- A value of a record. -/
inductive LogValue where
  | text (value : String)
  | count (value : Nat)
  | ratio (part whole : Nat)
deriving DecidableEq

/-- A message with named values. -/
structure LogRecord where
  level : LogLevel
  message : String
  values : List (String × LogValue)
deriving DecidableEq

end CapLiveness
