import Rollout.Calendar.Timestamp
import Rollout.Identity
import Rollout.Json.Draft

namespace Rollout

-- The state of a pull request on its hosting site.
inductive PullState where
  | opened
  | closed
  | merged
  | unknown
deriving DecidableEq, Repr

namespace PullState

def ofName : String → PullState
  | "open" => .opened
  | "closed" => .closed
  | "merged" => .merged
  | _ => .unknown

def name : PullState → String
  | .opened => "open"
  | .closed => "closed"
  | .merged => "merged"
  | .unknown => "unknown"

-- A state is written as its name, or as the only key of an object, over null. Any
-- other value but null is an unknown state.
def ofJson : Json → Option PullState
  | .null => none
  | .string name => some (ofName name)
  | .object [(name, .null)] => some (ofName name)
  | _ => some .unknown

end PullState

-- What the hosting site says about a pull request, as far as it is known.
structure Hosting where
  state : Option PullState
  createdAt : Option String
  url : Option String
deriving DecidableEq, Repr

namespace Hosting

def fields : List (List String) := [["state"], ["created_at"], ["html_url", "url"]]

def shape : Json.Shape := .record (fields.map fun keys => (keys, .full)) false

-- A text; any other value is taken for a missing one.
def text? : Json → Option String
  | .string value => some value
  | _ => none

def ofJson? (value : Json) : Option Hosting := do
  match ← value.record? fields with
  | [state, createdAt, url] =>
    return ⟨state.bind fun value => PullState.ofJson value.canonical,
      createdAt.bind text?, url.bind text?⟩
  | _ => none

def textJson : Option String → Json
  | none => .null
  | some text => .string text

def toJson (hosting : Hosting) : Json :=
  .object [("created_at", textJson hosting.createdAt), ("html_url", textJson hosting.url),
    ("state", textJson (hosting.state.map PullState.name))]

end Hosting

-- The record of one migration that was attempted: the identity as it was stored,
-- and what is known of its pull request.
structure Attempt where
  data : Json
  keys : List String
  hosting : Option Hosting
deriving DecidableEq, Repr

namespace Attempt

-- The record that posting a migration leaves behind.
def ofIdentity (identity : Identity) (hosting : Option Hosting) : Attempt :=
  ⟨identity.toJson, identity.keys, hosting⟩

def matchesIdentity (attempt : Attempt) (identity : Identity) : Bool :=
  attempt.data == identity.toJson

-- Whether the pull request must be taken as open: unless it is known to be closed
-- or merged.
def isOpen (attempt : Attempt) : Bool :=
  match attempt.hosting.bind Hosting.state with
  | some .closed => false
  | some .merged => false
  | _ => true

def createdAt? (attempt : Attempt) : Option Instant :=
  (attempt.hosting.bind Hosting.createdAt).bind Instant.ofText?

def url? (attempt : Attempt) : Option String := attempt.hosting.bind Hosting.url

def fields : List (List String) := [["data"], ["keys"], ["PR"]]

def shape : Json.Shape := .record (fields.zip [.full, .full, Hosting.shape]) false

def ofJson? (value : Json) : Option Attempt := do
  match ← value.record? fields with
  | [some data, keys, hosting] =>
    return ⟨data.canonical, ← Json.orElse? [] (Json.list? Json.string?) keys,
      ← Json.orElse? none (Json.nullable? Hosting.ofJson?) hosting⟩
  | _ => none

def toJson (attempt : Attempt) : Json :=
  .object (Identity.optional "PR" (attempt.hosting.map Hosting.toJson) ++
    [("data", attempt.data), ("keys", .array (attempt.keys.map .string))])

end Attempt

-- The first record of an identity in a list of records.
def findAttempt? (attempts : List Attempt) (identity : Identity) : Option Attempt :=
  attempts.find? fun attempt => attempt.matchesIdentity identity

end Rollout
