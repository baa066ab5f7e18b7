import TopDown.Book.Compile
import TopDown.Review.Check

/-!
# Loading a configuration

A configuration that is to be used is reviewed first. `TopDown.Book.load` refuses it if the review
found errors, with all of them, and compiles it otherwise.
-/

namespace TopDown

/-- The book of a reviewed configuration, with the report on it. -/
def Book.load (base : Registry) (config : Json) : Except Stop (Book × Report) :=
  let report := review base config
  if report.errors.isEmpty then do
    return (← Book.compile base config, report)
  else .error (.fault (.ruleInvalid report.errors))

end TopDown
