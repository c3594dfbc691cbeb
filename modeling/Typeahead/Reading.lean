import Typeahead.Logs.Check
import Typeahead.Logs.Cursor
import Typeahead.Metrics.Check
import Typeahead.Metrics.Cursor

/-!
Reading a query of either language: the context at a cursor, and the check of the whole query.
-/

namespace Typeahead

/-- The marks of a language. -/
def Language.marks : Language → Marks
  | .metrics => metricsMarks
  | .logs => logsMarks

/-- The context at a cursor of a query. -/
def contextOf : Language → Text → Int → Context
  | .metrics => Metrics.contextOf
  | .logs => Logs.contextOf

/-- The verdict on a query. -/
def check : Language → Text → Verdict
  | .metrics => Metrics.check
  | .logs => Logs.check

end Typeahead
