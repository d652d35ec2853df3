namespace Rollout

-- Why a file cannot be read as text.
inductive ReadFault where
  | missing
  | directory
  -- some directory on the way is a file
  | throughFile
  | notUtf8
  | other (text : String)
deriving DecidableEq, Repr

def ReadFault.message : ReadFault → String
  | .missing => "No such file or directory (os error 2)"
  | .directory => "Is a directory (os error 21)"
  | .throughFile => "Not a directory (os error 20)"
  | .notUtf8 => "stream did not contain valid UTF-8"
  | .other text => text

-- The files that are read and written, apart from those that piggyback steps work on.
inductive FileRole where
  | recipe
  | feedstockConfig
  | graph
  | migrations
deriving DecidableEq, Repr

def FileRole.noun : FileRole → String
  | .recipe => "recipe "
  | .feedstockConfig => ""
  | .graph => "graph "
  | .migrations => "config "

-- The name of a feedstock's configuration file.
def feedstockConfigName : String := "conda-forge.yml"

-- Everything that can go wrong while a migration is planned or run.
inductive Fault where
  | unreadable (role : FileRole) (path : String) (cause : ReadFault)
  | unwritable (role : FileRole) (path : String) (cause : String)
  | stepUnreadable (cause : ReadFault)
  | stepFailed (text : String)
  | notJson
  | notYaml
  | notToml
  | configNotMapping (path : String)
  | sectionNull (key : String)
  | sectionNotMapping (key : String)
  | noPayload (name : String)
  | packageNamesEmpty
  | replacedByItself (name : String)
  | replacementIncomplete
  | replacementByItself (name : String)
  | stalenessNotPositive (days : Int)
  | pinningEmpty
  | jobNameEmpty
  | windowTooLong (days : Int)
  | jobNotFound (name : String)
  | feedstockNotFound (name : String)
deriving DecidableEq, Repr

namespace Fault

inductive Kind where
  | io
  | parse
  | inconsistentGraph
  | configuration
  | notFound
  | outOfRange
deriving DecidableEq, Repr

def kind : Fault → Kind
  | .unreadable .. | .unwritable .. | .stepUnreadable _ | .stepFailed _ => .io
  | .notJson | .notYaml | .notToml | .configNotMapping _ | .sectionNull _ | .sectionNotMapping _ =>
    .parse
  | .noPayload _ => .inconsistentGraph
  | .packageNamesEmpty | .replacedByItself _ | .replacementIncomplete | .replacementByItself _
  | .stalenessNotPositive _ | .pinningEmpty | .jobNameEmpty => .configuration
  | .jobNotFound _ | .feedstockNotFound _ => .notFound
  | .windowTooLong _ => .outOfRange

def Kind.heading : Kind → String
  | .io => "I/O error: "
  | .parse => "Parse error: "
  | .inconsistentGraph => "Graph inconsistency: "
  | .configuration => "Configuration error: "
  | .notFound => "Not found: "
  | .outOfRange => "Out of range: "

def detail : Fault → String
  | .unreadable role path cause => "Failed to read " ++ role.noun ++ path ++ ": " ++ cause.message
  | .unwritable role path cause => "Failed to write " ++ role.noun ++ path ++ ": " ++ cause
  | .stepUnreadable cause => cause.message
  | .stepFailed text => text
  | .notJson => "invalid JSON"
  | .notYaml => "invalid YAML"
  | .notToml => "invalid TOML"
  | .configNotMapping path => path ++ " is not a mapping"
  | .sectionNull key => feedstockConfigName ++ ": `" ++ key ++ "` is null"
  | .sectionNotMapping key => feedstockConfigName ++ ": `" ++ key ++ "` is not a mapping"
  | .noPayload name => "node '" ++ name ++ "' has no payload"
  | .packageNamesEmpty => "replacement needs both an old and a new package name"
  | .replacedByItself name => "replacement of " ++ name ++ " by itself"
  | .replacementIncomplete => "replacement needs both `old` and `new`"
  | .replacementByItself name => "replacement of '" ++ name ++ "' by itself"
  | .stalenessNotPositive days => "staleness_days must be positive, got " ++ toString days
  | .pinningEmpty => "pinning_feedstock is empty"
  | .jobNameEmpty => "graph job with an empty name"
  | .windowTooLong days => "a staleness window of " ++ toString days ++ " days"
  | .jobNotFound name => "job '" ++ name ++ "'"
  | .feedstockNotFound name => "feedstock '" ++ name ++ "'"

def message (fault : Fault) : String := fault.kind.heading ++ fault.detail

end Fault

end Rollout
