namespace Rollout

-- Why a job passes over a feedstock.
inductive SkipReason where
  | archived
  | alreadyMigrated
  | bad
  | parsingError
  | notInGraph
  | predecessorsNotBuilt
  | requirementNotUsed
deriving DecidableEq, Repr

def SkipReason.name : SkipReason → String
  | .archived => "archived"
  | .alreadyMigrated => "already_migrated"
  | .bad => "bad"
  | .parsingError => "parsing_error"
  | .notInGraph => "not_in_graph"
  | .predecessorsNotBuilt => "predecessors_not_built"
  | .requirementNotUsed => "requirement_not_used"

-- What a job decides about a feedstock.
inductive Verdict where
  | proceed
  | skip (reason : SkipReason)
deriving DecidableEq, Repr

end Rollout
