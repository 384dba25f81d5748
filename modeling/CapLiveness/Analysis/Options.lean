import CapLiveness.Text.Quoted

/-!
# Options of the analysis

What a structural error aborts, what happens when the program never refers to
the primitive that raises privileges, and in which order pending work is
visited. Each option is written as a word; an option given as a number that
means nothing is kept as it is.
-/

set_option autoImplicit false

namespace CapLiveness

/-- What a structural error in a function aborts. -/
inductive Strictness where
  /-- The whole run. -/
  | run
  /-- The function: it is taken to need every capability at every point. -/
  | function
  | unknown (code : Int)
deriving DecidableEq

/-- What to do when the program never refers to the primitive that raises
privileges. -/
inductive MissingRaise where
  /-- Return a result without any set. -/
  | proceed
  /-- Return an error. -/
  | fail
  | unknown (code : Int)
deriving DecidableEq

/-- The order in which pending work is visited. -/
inductive Order where
  /-- What became pending first comes first. -/
  | fifo
  /-- What became pending last comes first. -/
  | lifo
  /-- Any pending work, by a seeded generator. -/
  | random
  | unknown (code : Int)
deriving DecidableEq

/-! ## Numbers and words -/

namespace Strictness

/-- The option with a given number. -/
def ofCode : Int → Strictness
  | 0 => .run
  | 1 => .function
  | code => .unknown code

/-- The option as a word. -/
def text : Strictness → String
  | .run => "run"
  | .function => "function"
  | .unknown code => s!"Strictness({code})"

/-- The option with a given word, or the wording of the error. -/
def parse (word : String) : Except String Strictness :=
  match [Strictness.run, .function].find? (·.text == word) with
  | some option => .ok option
  | none => .error s!"unknown strictness {Text.quoted word} (want run or function)"

/-- The number of the option. -/
def code : Strictness → Int
  | .run => 0
  | .function => 1
  | .unknown code => code

end Strictness

namespace MissingRaise

/-- The option with a given number. -/
def ofCode : Int → MissingRaise
  | 0 => .proceed
  | 1 => .fail
  | code => .unknown code

/-- The option as a word. -/
def text : MissingRaise → String
  | .proceed => "proceed"
  | .fail => "fail"
  | .unknown code => s!"MissingRaisePolicy({code})"

/-- The option with a given word, or the wording of the error. -/
def parse (word : String) : Except String MissingRaise :=
  match [MissingRaise.proceed, .fail].find? (·.text == word) with
  | some option => .ok option
  | none => .error s!"unknown missing-raise policy {Text.quoted word} (want proceed or fail)"

/-- The number of the option. -/
def code : MissingRaise → Int
  | .proceed => 0
  | .fail => 1
  | .unknown code => code

end MissingRaise

namespace Order

/-- The option with a given number. -/
def ofCode : Int → Order
  | 0 => .fifo
  | 1 => .lifo
  | 2 => .random
  | code => .unknown code

/-- The option as a word. -/
def text : Order → String
  | .fifo => "fifo"
  | .lifo => "lifo"
  | .random => "random"
  | .unknown code => s!"Order({code})"

/-- The option with a given word, or the wording of the error. -/
def parse (word : String) : Except String Order :=
  match [Order.fifo, .lifo, .random].find? (·.text == word) with
  | some option => .ok option
  | none => .error s!"unknown order {Text.quoted word} (want fifo, lifo or random)"

/-- The number of the option. -/
def code : Order → Int
  | .fifo => 0
  | .lifo => 1
  | .random => 2
  | .unknown code => code

end Order

/-- The options of one run. -/
structure Config where
  strictness : Strictness := .run
  missingRaise : MissingRaise := .proceed
  order : Order := .fifo
  /-- The seed of the random order. -/
  seed : UInt64 := 0

end CapLiveness
