import Rollout.Fault
import Rollout.Names
import Rollout.Recipe.Counter

namespace Rollout

-- What is found at the path of a file.
inductive FileState where
  | text (content : String)
  -- bytes that are not UTF-8
  | binary (bytes : List UInt8)
  | directory
  | absent (cause : ReadFault)
  -- a text that can be read but not written, what an attempt to write it leaves of it, and how
  -- the attempt fails
  | unwritable (content left cause : String)
deriving DecidableEq, Repr

namespace FileState

def read : FileState → Except ReadFault String
  | .text content => .ok content
  | .binary _ => .error .notUtf8
  | .directory => .error .directory
  | .absent cause => .error cause
  | .unwritable content _ _ => .ok content

-- What is found after an attempt to write. A missing file is made.
def written (file : FileState) (content : String) : FileState :=
  match file with
  | .text _ | .binary _ | .absent .missing => .text content
  | .directory | .absent _ => file
  | .unwritable _ left cause => .unwritable left left cause

-- How an attempt to write ends.
def writing : FileState → Except String Unit
  | .text _ | .binary _ | .absent .missing => .ok ()
  | .directory => .error ReadFault.directory.message
  | .absent cause => .error cause.message
  | .unwritable _ _ cause => .error cause

end FileState

-- A path with a name appended.
def joinPath (directory name : String) : String :=
  match directory.toList.getLast? with
  | none => name
  | some '/' => directory ++ name
  | some _ => directory ++ "/" ++ name

-- The working copy of a feedstock as migrations see it: its recipe, its
-- configuration in the directory above the recipe's, and all other files.
structure Checkout where
  recipeDir : String
  recipe : FileState
  config : FileState
  others : NameMap FileState
deriving DecidableEq

-- The checkout that some work leaves behind, and its result. Work that fails may
-- have changed the checkout before.
structure Worked (α : Type) where
  checkout : Checkout
  result : Except Fault α

namespace Checkout

def recipePath (checkout : Checkout) : String := joinPath checkout.recipeDir "meta.yaml"

def configPath (checkout : Checkout) : String :=
  joinPath (joinPath checkout.recipeDir "..") feedstockConfigName

def readRecipe (checkout : Checkout) : Except Fault String :=
  checkout.recipe.read.mapError (Fault.unreadable .recipe checkout.recipePath)

def readConfig (checkout : Checkout) : Except Fault String :=
  checkout.config.read.mapError (Fault.unreadable .feedstockConfig checkout.configPath)

def storeRecipe (checkout : Checkout) (content : String) : Worked Unit :=
  ⟨{ checkout with recipe := checkout.recipe.written content },
    checkout.recipe.writing.mapError (Fault.unwritable .recipe checkout.recipePath)⟩

def storeConfig (checkout : Checkout) (content : String) : Worked Unit :=
  ⟨{ checkout with config := checkout.config.written content },
    checkout.config.writing.mapError (Fault.unwritable .feedstockConfig checkout.configPath)⟩

-- The recipe's build counter changed.
def changeCounter (checkout : Checkout) (change : BuildNumber) : Worked Unit :=
  match checkout.readRecipe with
  | .error fault => ⟨checkout, .error fault⟩
  | .ok recipe => checkout.storeRecipe (updateCounter recipe change)

end Checkout

end Rollout
