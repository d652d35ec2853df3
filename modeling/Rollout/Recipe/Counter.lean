import Rollout.Recipe.BuildNumber
import Rollout.Text.Blank
import Rollout.Text.Digits

namespace Rollout

-- The ways in which a recipe declares its build counter: as a plain key, or as
-- one of two template variables.
inductive CounterForm where
  | plainKey
  | buildNumberVariable
  | buildVariable
deriving DecidableEq, Repr

-- What follows a fixed word at the front of a text.
def afterWord? : (word text : List Char) → Option (List Char)
  | [], text => some text
  | _ :: _, [] => none
  | w :: word, c :: text => if w = c then afterWord? word text else none

theorem afterWord?_length (word text rest : List Char) (h : afterWord? word text = some rest) :
    text.length = word.length + rest.length := by
  induction word generalizing text with
  | nil =>
    simp only [afterWord?, Option.some.injEq] at h
    simp [h]
  | cons w word ih =>
    cases text with
    | nil => simp [afterWord?] at h
    | cons c text =>
      simp only [afterWord?] at h
      split at h
      · have := ih text h
        simp only [List.length_cons]
        omega
      · cases h

def skipBlanks (text : List Char) : List Char := text.dropWhile isBlank

-- A quote at the front of a text is optional.
def skipQuote : List Char → List Char
  | '"' :: rest => rest
  | text => text

-- A longest run of digits with at least one, and what follows it.
def digitRun? (text : List Char) : Option (List Char × List Char) :=
  match text.takeWhile Char.isDigit with
  | [] => none
  | digits => some (digits, text.dropWhile Char.isDigit)

namespace CounterForm

-- The name that a template variable's declaration sets.
def setting : CounterForm → List Char
  | .plainKey => []
  | .buildNumberVariable => "set build_number".toList
  | .buildVariable => "set build".toList

-- A declaration at the front of a text: its digits and what follows it.
def declared? (form : CounterForm) (text : List Char) : Option (List Char × List Char) :=
  match form with
  | .plainKey => do
    let rest ← afterWord? "number:".toList text
    digitRun? (skipBlanks rest)
  | form => do
    let rest ← afterWord? ['\x7b', '%'] text
    let rest ← afterWord? form.setting (skipBlanks rest)
    let rest ← afterWord? ['='] (skipBlanks rest)
    let (digits, rest) ← digitRun? (skipQuote (skipBlanks rest))
    let rest ← afterWord? ['%', '\x7d'] (skipBlanks (skipQuote rest))
    return (digits, rest)

theorem digitRun?_length (text digits rest : List Char) (h : digitRun? text = some (digits, rest)) :
    rest.length < text.length := by
  have hsplit := List.takeWhile_append_dropWhile (p := Char.isDigit) (l := text)
  unfold digitRun? at h
  split at h
  · cases h
  · rename_i hne
    simp only [Option.some.injEq, Prod.mk.injEq] at h
    have hlen := congrArg List.length hsplit
    rw [List.length_append, h.2] at hlen
    have : 0 < (text.takeWhile Char.isDigit).length := by
      cases hd : text.takeWhile Char.isDigit with
      | nil => exact absurd hd hne
      | cons => simp
    omega

theorem skipBlanks_length (text : List Char) : (skipBlanks text).length ≤ text.length :=
  (List.dropWhile_sublist isBlank).length_le

theorem skipQuote_length (text : List Char) : (skipQuote text).length ≤ text.length := by
  unfold skipQuote
  split <;> simp

theorem declared?_length (form : CounterForm) (text digits rest : List Char)
    (h : form.declared? text = some (digits, rest)) : rest.length < text.length := by
  have variable_length : ∀ setting : List Char,
      (do
        let rest ← afterWord? ['\x7b', '%'] text
        let rest ← afterWord? setting (skipBlanks rest)
        let rest ← afterWord? ['='] (skipBlanks rest)
        let (digits, rest) ← digitRun? (skipQuote (skipBlanks rest))
        let rest ← afterWord? ['%', '\x7d'] (skipBlanks (skipQuote rest))
        return (digits, rest)) = some (digits, rest) → rest.length < text.length := by
    intro setting h
    simp only [bind, Option.bind_eq_some_iff, pure, Option.some.injEq, Prod.mk.injEq] at h
    obtain ⟨a, ha, b, hb, c, hc, ⟨d, e⟩, hd, f, hf, _, hr⟩ := h
    have h1 := afterWord?_length _ _ _ ha
    have h2 := afterWord?_length _ _ _ hb
    have h3 := afterWord?_length _ _ _ hc
    have h4 := digitRun?_length _ _ _ hd
    have h5 := afterWord?_length _ _ _ hf
    have s1 := skipBlanks_length a
    have s2 := skipBlanks_length b
    have s3 := skipBlanks_length c
    have s4 := skipQuote_length (skipBlanks c)
    have s5 := skipBlanks_length (skipQuote e)
    have s6 := skipQuote_length e
    simp only [List.length_cons, List.length_nil] at h1 h3 h5
    subst hr
    omega
  cases form with
  | plainKey =>
    simp only [declared?, bind, Option.bind_eq_some_iff] at h
    obtain ⟨a, ha, hd⟩ := h
    have h1 := afterWord?_length _ _ _ ha
    have h2 := digitRun?_length _ _ _ hd
    have h3 := skipBlanks_length a
    omega
  | buildNumberVariable => exact variable_length _ h
  | buildVariable => exact variable_length _ h

-- How a declaration is written back.
def render (form : CounterForm) (value : UInt64) : List Char :=
  let digits := Nat.toDigits 10 value.toNat
  match form with
  | .plainKey => "number: ".toList ++ digits
  | form => '\x7b' :: '%' :: ' ' :: form.setting ++ " = ".toList ++ digits ++ [' ', '%', '\x7d']

def occursIn (form : CounterForm) : List Char → Bool
  | [] => false
  | c :: rest => (form.declared? (c :: rest)).isSome || form.occursIn rest

-- Every declaration of this form renumbered, from left to right. One whose digits
-- spell 2^64 or more is left alone, as is everything between declarations.
def renumber (form : CounterForm) (change : BuildNumber) (text : List Char) : List Char :=
  match _h : form.declared? text with
  | some (digits, rest) =>
    let value := readDecimal digits
    let written :=
      if value < UInt64.size then form.render (change.apply (UInt64.ofNat value))
      else text.take (text.length - rest.length)
    written ++ form.renumber change rest
  | none =>
    match text with
    | [] => []
    | c :: rest => c :: form.renumber change rest
termination_by text.length
decreasing_by
  · exact declared?_length form text digits rest _h
  · simp

-- The order in which the forms are looked for.
def all : List CounterForm := [.plainKey, .buildNumberVariable, .buildVariable]

end CounterForm

-- The form that is renumbered: the first that occurs anywhere in the text.
def counterForm? (text : List Char) : Option CounterForm :=
  CounterForm.all.find? fun form => form.occursIn text

-- A recipe with its counter changed; none if it declares none.
def patchCounter? (recipe : String) (change : BuildNumber) : Option String :=
  let text := recipe.toList
  (counterForm? text).map fun form => String.ofList (form.renumber change text)

-- A recipe with its counter changed, or the recipe as it is.
def updateCounter (recipe : String) (change : BuildNumber) : String :=
  (patchCounter? recipe change).getD recipe

end Rollout
