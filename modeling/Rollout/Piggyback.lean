import Rollout.Checkout
import Rollout.Feedstock
import Rollout.Text.Blank

namespace Rollout

-- A small change that rides along with a migration.
structure Piggyback where
  name : String
  -- whether it runs after the migration instead of before it
  after : Bool
  skips : Feedstock → Bool
  work : Feedstock → Checkout → Worked Unit

-- A run of steps: which were executed, in order, and how it ended.
structure Transcript (α : Type) where
  ran : List String
  checkout : Checkout
  result : Except Fault α

namespace Piggyback

-- The steps that do not skip the feedstock, one after another, up to the first that
-- fails. Each sees the checkout as the one before it left it.
def runAll (feedstock : Feedstock) (steps : List Piggyback) (checkout : Checkout) :
    Transcript Unit :=
  match steps with
  | [] => ⟨[], checkout, .ok ()⟩
  | step :: rest =>
    if step.skips feedstock then runAll feedstock rest checkout
    else
      let worked := step.work feedstock checkout
      match worked.result with
      | .error fault => ⟨[step.name], worked.checkout, .error fault⟩
      | .ok () =>
        let later := runAll feedstock rest worked.checkout
        { later with ran := step.name :: later.ran }

-- A step that fails, or appends a text to the recipe, or does nothing.
def scripted (name : String) (after : Bool) (skipped : List String) (appended : Option String)
    (failure : Option String) : Piggyback where
  name := name
  after := after
  skips := fun feedstock => skipped.contains feedstock.feedstockName
  work := fun _ checkout =>
    match failure, appended with
    | some text, _ => ⟨checkout, .error (.stepFailed text)⟩
    | none, none => ⟨checkout, .ok ()⟩
    | none, some text =>
      match checkout.recipe.read with
      | .ok recipe =>
        ⟨{ checkout with recipe := checkout.recipe.written (recipe ++ text) },
          checkout.recipe.writing.mapError Fault.stepFailed⟩
      | .error cause => ⟨checkout, .error (.stepUnreadable cause)⟩

-- Whether a quoted name shows a character by its code: a control character or white
-- space other than a space.
def isHidden (c : Char) : Bool :=
  c.toNat < 32 || (127 ≤ c.toNat && c.toNat < 160) || (isBlank c && c != ' ')

def escaped : Char → String
  | '"' => "\\\""
  | '\\' => "\\\\"
  | '\n' => "\\n"
  | '\r' => "\\r"
  | '\t' => "\\t"
  | '\x00' => "\\0"
  | c =>
    if isHidden c then "\\u\x7b" ++ String.ofList (Nat.toDigits 16 c.toNat) ++ "\x7d"
    else c.toString

-- The names of steps as a bracketed list of quoted texts.
def listing (steps : List Piggyback) : String :=
  let quoted := fun step : Piggyback => "\"" ++ String.join (step.name.toList.map escaped) ++ "\""
  "[" ++ ", ".intercalate (steps.map quoted) ++ "]"

end Piggyback

end Rollout
