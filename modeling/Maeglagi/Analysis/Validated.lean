import Maeglagi.Agent.Validation
import Maeglagi.Analysis.Grounding
import Maeglagi.Resolution.Endpoints

/-!
# Validated relations

What becomes of the relations that the validator accepts: the item it found for each end, the name
the end has after canonicalization, and when that name still stands for one node.
-/

namespace Maeglagi

open Core Resolution

variable {Id : Type}

variable [DecidableEq Id]

section edges
variable (rt : Runtime Id) (result : AnalysisResult) (directory : Option (Snapshot Id))
  (sourceText : Text)

end edges

end Maeglagi
