import Rollout.Binary64

namespace Rollout

-- A TOML document or a value in one. A table lists its members in the order in which
-- they are written, each key once.
inductive Toml where
  | string (value : String)
  | int (value : Int)
  | float (value : Binary64)
  | bool (value : Bool)
  | datetime (text : String)
  | array (items : List Toml)
  | table (members : List (String × Toml))
deriving Inhabited, Repr

end Rollout
