/-!
# Tables of code points

A property of characters is a table of the lengths of runs: of code points without it, with it, without it, and so on.
-/

namespace KiteCompiler.Text

/-- Is the code point in a run that `has` the property, if the first run is one? -/
def inRunsFrom (has : Bool) : (runs : List Nat) → (code : Nat) → Bool
  | [], _ => has
  | run :: runs, code => if code < run then has else inRunsFrom (!has) runs (code - run)

/-- Does the code point have the property? Behind the last run none has it. -/
def inRuns (runs : List Nat) (code : Nat) : Bool := inRunsFrom false runs code

end KiteCompiler.Text
