import Rollout.Json

namespace Rollout

-- A YAML document. A mapping lists its entries in the order in which they are
-- written; its keys are any values, each given once.
inductive Yaml where
  | null
  | bool (value : Bool)
  | number (value : Number)
  | string (value : String)
  | sequence (items : List Yaml)
  | mapping (entries : List (Yaml × Yaml))
  | tagged (tag : String) (value : Yaml)
deriving Inhabited, Repr

namespace Number

-- Equality of numbers as keys: kinds differ, the two zeros and all NaNs agree.
def sameKey : Number → Number → Bool
  | .int a, .int b => a == b
  | .float a, .float b => a.sameNumber b
  | _, _ => false

end Number

namespace Yaml

mutual

-- Equality of values as keys. The order of a mapping's entries does not matter.
def same : Yaml → Yaml → Bool
  | .null, .null => true
  | .bool a, .bool b => a == b
  | .number a, .number b => a.sameKey b
  | .string a, .string b => a == b
  | .sequence a, .sequence b => sameItems a b
  | .mapping a, .mapping b => a.length == b.length && sameEntries a b
  | .tagged t a, .tagged u b => t == u && same a b
  | _, _ => false

def sameItems : List Yaml → List Yaml → Bool
  | [], [] => true
  | a :: as, b :: bs => same a b && sameItems as bs
  | _, _ => false

-- Whether each of these entries has its like among others.
def sameEntries : List (Yaml × Yaml) → List (Yaml × Yaml) → Bool
  | [], _ => true
  | (k, v) :: rest, others =>
    (others.any fun other => same k other.1 && same v other.2) && sameEntries rest others

end

end Yaml

-- The entries of a mapping under the keys that are plain texts.
namespace YamlEntries

def isKey (key : String) : Yaml → Bool
  | .string name => name == key
  | _ => false

def get? (entries : List (Yaml × Yaml)) (key : String) : Option Yaml :=
  (entries.find? fun entry => isKey key entry.1).map Prod.snd

def contains (entries : List (Yaml × Yaml)) (key : String) : Bool :=
  entries.any fun entry => isKey key entry.1

-- The entry under a key set: in its place if the key is there, else at the end.
def set (entries : List (Yaml × Yaml)) (key : String) (value : Yaml) : List (Yaml × Yaml) :=
  match entries with
  | [] => [(.string key, value)]
  | (k, v) :: rest =>
    if isKey key k then (k, value) :: rest else (k, v) :: set rest key value

end YamlEntries

end Rollout
