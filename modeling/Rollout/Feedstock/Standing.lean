import Rollout.Json

namespace Rollout

-- Whether a feedstock has been marked bad, and why.
inductive Standing where
  | good
  -- marked without a reason
  | flagged
  | reason (text : String)
deriving DecidableEq, Repr, Inhabited

-- The reasons a job tolerates. A mark without a reason is never tolerated.
inductive Tolerance where
  | anyReason
  -- reasons that start with one of these texts
  | startingWith (beginnings : List String)
deriving Repr

namespace Standing

def blocks (tolerance : Tolerance) : Standing → Bool
  | .good => false
  | .flagged => true
  | .reason text =>
    match tolerance with
    | .anyReason => false
    | .startingWith beginnings =>
      !beginnings.any fun beginning => beginning.toList.isPrefixOf text.toList

-- Every document denotes a standing: a text is a reason unless it is empty, and
-- any other value that is set is a mark without a reason.
def ofJson : Json → Standing
  | .string text => if text = "" then .good else .reason text
  | value => if value.truthy then .flagged else .good

def toJson : Standing → Json
  | .good => .bool false
  | .flagged => .bool true
  | .reason text => .string text

end Standing

end Rollout
