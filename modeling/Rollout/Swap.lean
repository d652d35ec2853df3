import Rollout.Fault
import Rollout.Recipe.Dependency

namespace Rollout

-- One package to be used in place of another.
structure Swap where
  old : String
  new : String
  -- a sentence that explains the change
  rationale : String
  old_ne_empty : old ≠ ""
  new_ne_empty : new ≠ ""
  old_ne_new : old ≠ new

namespace Swap

def make (old new rationale : String) : Except Fault Swap :=
  if h : old = "" ∨ new = "" then .error .packageNamesEmpty
  else if he : old = new then .error (.replacedByItself old)
  else .ok ⟨old, new, rationale, fun ho => h (.inl ho), fun hn => h (.inr hn), he⟩

def name (swap : Swap) : String := swap.old ++ "-to-" ++ swap.new

end Swap

end Rollout
