namespace Rollout.CommandLine

-- What follows an option.
inductive Takes where
  | nothing
  | text
  -- a text that is not empty
  | path
deriving DecidableEq, Repr

structure Flag where
  name : String
  letter : Option Char
  takes : Takes

-- Why arguments ask for no work.
inductive Stop where
  | help
  | version
  | misuse
deriving DecidableEq, Repr

-- The options given so far, with their values.
abbrev Given := List (String × String)

def helpFlag : Flag := ⟨"help", some 'h', .nothing⟩

def versionFlag : Flag := ⟨"version", some 'V', .nothing⟩

def verboseFlag : Flag := ⟨"verbose", some 'v', .nothing⟩

-- An option with its value. Each is given at most once, and those that ask about the
-- program end the reading.
def Flag.record (flag : Flag) (value : String) (given : Given) : Except Stop Given :=
  if flag.name == helpFlag.name then .error .help
  else if flag.name == versionFlag.name then .error .version
  else if given.any (fun entry => entry.1 == flag.name) || (flag.takes == .path && value.isEmpty) then
    .error .misuse
  else .ok (given ++ [(flag.name, value)])

-- Whether an argument can be the value of the option in front of it.
def isValue (argument : String) : Bool :=
  match argument.toList with
  | '-' :: _ :: _ => false
  | _ => true

-- A name with the value that is attached to it by an equals sign.
def splitAttached (text : List Char) : String × Option String :=
  let name := text.takeWhile fun c => c != '='
  (String.ofList name, match text.drop name.length with
    | _ :: value => some (String.ofList value)
    | [] => none)

-- Options of one letter each behind one dash. The last of them may have its value
-- attached, or be left to take the next argument.
def readLetters (flags : List Flag) (given : Given) : List Char → Except Stop (Given × Option Flag)
  | [] => .ok (given, none)
  | c :: rest =>
    match flags.find? fun flag => flag.letter == some c with
    | none => .error .misuse
    | some flag =>
      if flag.takes == .nothing then
        (flag.record "" given).bind fun given => readLetters flags given rest
      else
        match rest with
        | [] => .ok (given, some flag)
        | '=' :: value => (flag.record (String.ofList value) given).map fun given => (given, none)
        | value => (flag.record (String.ofList value) given).map fun given => (given, none)

-- Options up to the first argument that is none, and the arguments from there on.
def readFlags (flags : List Flag) (given : Given) : List String → Except Stop (Given × List String)
  | [] => .ok (given, [])
  | argument :: rest =>
    -- an option that takes the next argument
    let takeNext := fun (flag : Flag) (given : Given) =>
      match rest with
      | value :: rest =>
        if isValue value then
          (flag.record value given).bind fun given => readFlags flags given rest
        else .error .misuse
      | [] => .error .misuse
    match argument.toList with
    | ['-', '-'] => if rest.isEmpty then .ok (given, []) else .error .misuse
    | '-' :: '-' :: text =>
      let (name, attached) := splitAttached text
      match flags.find? fun flag => flag.name == name with
      | none => .error .misuse
      | some flag =>
        match attached with
        | some value =>
          if flag.takes == .nothing then .error .misuse
          else (flag.record value given).bind fun given => readFlags flags given rest
        | none =>
          if flag.takes == .nothing then
            (flag.record "" given).bind fun given => readFlags flags given rest
          else takeNext flag given
    | '-' :: c :: letters =>
      match readLetters flags given (c :: letters) with
      | .error stop => .error stop
      | .ok (given, some flag) => takeNext flag given
      | .ok (given, none) => readFlags flags given rest
    | _ => .ok (given, argument :: rest)

-- The work that arguments ask for.
inductive Request where
  | plan (graph manifest : String) (job : Option String) (showSkipped : Bool)
  | migrate (graph manifest job feedstock recipeDir : String)
deriving DecidableEq, Repr

namespace Request

def graphPath : Request → String
  | .plan graph _ _ _ | .migrate graph _ _ _ _ => graph

def manifestPath : Request → String
  | .plan _ manifest _ _ | .migrate _ manifest _ _ _ => manifest

-- The directory of the recipe that may change, if the request is to change one.
def recipeDir? : Request → Option String
  | .plan .. => none
  | .migrate _ _ _ _ recipeDir => some recipeDir

end Request

def commonFlags : List Flag :=
  [⟨"graph", some 'g', .path⟩, ⟨"config", some 'c', .path⟩, ⟨"job", some 'j', .text⟩, verboseFlag,
   helpFlag]

def planFlags : List Flag := commonFlags ++ [⟨"show-skipped", none, .nothing⟩]

def migrateFlags : List Flag :=
  commonFlags ++ [⟨"feedstock", some 'f', .text⟩, ⟨"recipe-dir", some 'r', .path⟩]

-- The value of an option that must be given.
def required (given : Given) (name : String) : Except Stop String :=
  match given.lookup name with
  | some value => .ok value
  | none => .error .misuse

-- Options of a command that takes no other arguments.
def readCommand (flags : List Flag) (arguments : List String) : Except Stop Given := do
  let (given, rest) ← readFlags flags [] arguments
  if rest.isEmpty then return given else .error .misuse

def readPlan (arguments : List String) : Except Stop Request := do
  let given ← readCommand planFlags arguments
  return .plan (← required given "graph") (← required given "config") (given.lookup "job")
    (given.lookup "show-skipped").isSome

def readMigrate (arguments : List String) : Except Stop Request := do
  let given ← readCommand migrateFlags arguments
  return .migrate (← required given "graph") (← required given "config") (← required given "job")
    (← required given "feedstock") (← required given "recipe-dir")

-- The request that the arguments of the program make.
def Request.ofArguments (arguments : List String) : Except Stop Request := do
  let (_, rest) ← readFlags [verboseFlag, helpFlag, versionFlag] [] arguments
  match rest with
  | "plan" :: rest => readPlan rest
  | "migrate" :: rest => readMigrate rest
  | ["help"] | ["help", "plan"] | ["help", "migrate"] | ["help", "help"] => .error .help
  | _ => .error .misuse

end Rollout.CommandLine
