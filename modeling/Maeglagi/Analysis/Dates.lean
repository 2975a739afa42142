import Maeglagi.Context.Timeline
import Maeglagi.PlainRuntime
import Maeglagi.Resolution.Resolve

/-!
# Dates out of range

Which extractions the analysis survives. The only exception that escapes it is the overflow of a
datetime whose UTC reading lies before `datetime.min` or after `datetime.max`.
-/

namespace Maeglagi

open Core Temporal Resolution Context

variable {Id : Type} [DecidableEq Id]

end Maeglagi
