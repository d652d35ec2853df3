import Rollout.Proofs.Recipe.Counter

namespace Rollout

theorem forall_head?_append {p : Char → Prop} {front rest : List Char}
    (hfront : ∀ c ∈ front, p c) (hrest : ∀ c ∈ rest.head?, p c) :
    ∀ c ∈ (front ++ rest).head?, p c := by
  cases front with
  | nil => exact hrest
  | cons first front =>
      rintro c ⟨⟩
      exact hfront _ List.mem_cons_self

theorem dropWhile_append_of_head? {p : Char → Bool} {front rest : List Char}
    (hfront : ∀ c ∈ front, p c = true) (hrest : ∀ c ∈ rest.head?, p c = false) :
    (front ++ rest).dropWhile p = rest := by
  rw [List.dropWhile_append_of_pos hfront]
  cases rest with
  | nil => rfl
  | cons c rest => simp [hrest c rfl]

theorem afterWord?_append (word rest : List Char) : afterWord? word (word ++ rest) = some rest :=
  afterWord?_eq_some_iff.mpr rfl

theorem skipBlanks_cons {c : Char} (hc : isBlank c = true) (text : List Char) :
    skipBlanks (c :: text) = skipBlanks text :=
  List.dropWhile_cons_of_pos hc

theorem skipBlanks_cons_of_not_blank {c : Char} (hc : isBlank c = false) (text : List Char) :
    skipBlanks (c :: text) = c :: text :=
  List.dropWhile_cons_of_neg (by simp [hc])

theorem skipBlanks_append {blanks rest : List Char} (hblanks : ∀ c ∈ blanks, isBlank c = true)
    (hrest : ∀ c ∈ rest.head?, isBlank c = false) : skipBlanks (blanks ++ rest) = rest :=
  dropWhile_append_of_head? hblanks hrest

theorem skipQuote_eq_self {text : List Char} (h : ∀ c ∈ text.head?, c ≠ '"') :
    skipQuote text = text := by
  unfold skipQuote
  split
  · exact absurd rfl (h '"' rfl)
  · rfl

theorem skipQuote_append {quote rest : List Char} (hquote : IsOptionalQuote quote)
    (hrest : ∀ c ∈ rest.head?, c ≠ '"') : skipQuote (quote ++ rest) = rest := by
  obtain rfl | rfl := hquote
  · exact skipQuote_eq_self hrest
  · rfl

theorem IsOptionalQuote.forall_head? {p : Char → Prop} {quote rest : List Char}
    (h : IsOptionalQuote quote) (hquote : p '"') (hrest : ∀ c ∈ rest.head?, p c) :
    ∀ c ∈ (quote ++ rest).head?, p c := by
  refine forall_head?_append (fun c hc => ?_) hrest
  obtain rfl | rfl := h
  · cases hc
  · rwa [List.mem_singleton.mp hc]

theorem isDigit_eq_false_of_isBlank {c : Char} (h : isBlank c = true) : c.isDigit = false := by
  cases hdigit : c.isDigit with
  | false => rfl
  | true => exact absurd h (by rw [isBlank_eq_false_of_isDigit c hdigit]; decide)

theorem digitRun?_eq_some_iff {text digits rest : List Char} :
    digitRun? text = some (digits, rest) ↔
      text = digits ++ rest ∧ IsNumeral digits ∧ ∀ c ∈ rest.head?, c.isDigit = false := by
  constructor
  · intro h
    obtain ⟨hsplit, hdigits⟩ := digitRun?_eq_some h
    refine ⟨hsplit, hdigits, fun c hc => ?_⟩
    have hrest : text.dropWhile Char.isDigit = rest := by
      rw [digitRun?] at h
      split at h
      · cases h
      · cases h
        rfl
    have hstop := List.head?_dropWhile_not Char.isDigit text
    rw [hrest, hc] at hstop
    simpa using hstop
  · rintro ⟨rfl, hdigits, hrest⟩
    rw [digitRun?, takeWhile_append_of_head? hdigits.2 hrest,
      dropWhile_append_of_head? hdigits.2 hrest]
    cases digits with
    | nil => exact absurd rfl hdigits.1
    | cons c digits => rfl

theorem IsNumeral.head?_isDigit {digits rest : List Char} (h : IsNumeral digits) :
    ∀ c ∈ (digits ++ rest).head?, c.isDigit = true := by
  obtain ⟨first, more, rfl⟩ := List.exists_cons_of_ne_nil h.1
  rintro c ⟨⟩
  exact h.2 _ List.mem_cons_self

theorem IsNumeral.head?_not_blank {digits rest : List Char} (h : IsNumeral digits) :
    ∀ c ∈ (digits ++ rest).head?, isBlank c = false := fun c hc =>
  isBlank_eq_false_of_isDigit c (h.head?_isDigit c hc)

namespace CounterForm

-- A declaration in a text, with what follows it there. The digits of a key go on as long as there
-- are any.
structure StandsBefore (form : CounterForm) (taken digits after : List Char) : Prop where
  spells : form.Spells taken digits
  ends : form = .plainKey → ∀ c ∈ after.head?, c.isDigit = false

variable {form : CounterForm} {taken digits after : List Char}

theorem setting_head?_not_blank (hform : form ≠ .plainKey) (rest : List Char) :
    ∀ c ∈ (form.setting ++ rest).head?, isBlank c = false := by
  cases form with
  | plainKey => exact absurd rfl hform
  | _ =>
      rintro c ⟨⟩
      decide

theorem declared?_templated (hform : form ≠ .plainKey)
    {first second third fourth opening closing : List Char}
    (hfirst : ∀ c ∈ first, isBlank c = true) (hsecond : ∀ c ∈ second, isBlank c = true)
    (hthird : ∀ c ∈ third, isBlank c = true) (hfourth : ∀ c ∈ fourth, isBlank c = true)
    (hopening : IsOptionalQuote opening) (hclosing : IsOptionalQuote closing)
    (hdigits : IsNumeral digits) :
    form.declared? (['\x7b', '%'] ++ (first ++ (form.setting ++ (second ++ (['='] ++ (third ++
      (opening ++ (digits ++ (closing ++ (fourth ++ (['%', '\x7d'] ++ after))))))))))) =
        some (digits, after) := by
  have hsign : ∀ c ∈ (['='] ++ (third ++ (opening ++ (digits ++ (closing ++ (fourth ++
      (['%', '\x7d'] ++ after))))))).head?, isBlank c = false := by
    rintro c ⟨⟩
    decide
  have hend : ∀ c ∈ (['%', '\x7d'] ++ after).head?, isBlank c = false := by
    rintro c ⟨⟩
    decide
  -- Behind the digits come a quote, white space or the end of the template.
  have hafter : ∀ {p : Char → Prop}, (∀ c, isBlank c = true → p c) → p '%' →
      ∀ c ∈ (fourth ++ (['%', '\x7d'] ++ after)).head?, p c := by
    intro p hblank hpercent
    refine forall_head?_append (fun c hc => hblank c (hfourth c hc)) ?_
    rintro c ⟨⟩
    exact hpercent
  have hnodigit : ∀ c ∈ (closing ++ (fourth ++ (['%', '\x7d'] ++ after))).head?,
      c.isDigit = false :=
    hclosing.forall_head? (by decide)
      (hafter (fun c => isDigit_eq_false_of_isBlank) (by decide))
  have hnoquote : ∀ c, isBlank c = true ∨ c.isDigit = true → c ≠ '"' := by
    rintro c hc rfl
    exact absurd hc (by decide)
  rw [declared?.eq_2 form _ hform]
  simp only [bind, pure, afterWord?_append, Option.bind_some,
    skipBlanks_append hfirst (setting_head?_not_blank hform _), skipBlanks_append hsecond hsign,
    skipBlanks_append hthird (hopening.forall_head? (by decide) hdigits.head?_not_blank),
    skipQuote_append hopening fun c hc => hnoquote c (.inr (hdigits.head?_isDigit c hc)),
    digitRun?_eq_some_iff.mpr ⟨rfl, hdigits, hnodigit⟩,
    skipQuote_append hclosing (hafter (fun c hc => hnoquote c (.inl hc)) (by decide)),
    skipBlanks_append hfourth hend]

theorem declared?_eq_some_iff {text : List Char} :
    form.declared? text = some (digits, after) ↔
      ∃ taken, text = taken ++ after ∧ form.StandsBefore taken digits after := by
  constructor
  · intro h
    obtain ⟨taken, hspells, htext⟩ := spells_of_declared? h
    refine ⟨taken, htext, hspells, ?_⟩
    rintro rfl
    simp only [declared?, bind, Option.bind_eq_some_iff] at h
    obtain ⟨rest, -, hrun⟩ := h
    exact (digitRun?_eq_some_iff.mp hrun).2.2
  · rintro ⟨taken, rfl, hspells, hends⟩
    cases hspells with
    | @plainKey blanks digits hblanks hdigits =>
        simp only [declared?, bind, List.append_assoc, afterWord?_append, Option.bind_some]
        rw [skipBlanks_append hblanks hdigits.head?_not_blank, digitRun?_eq_some_iff]
        exact ⟨rfl, hdigits, hends rfl⟩
    | templated hform hfirst hsecond hthird hfourth hopening hclosing hdigits =>
        simp only [List.append_assoc]
        exact declared?_templated hform hfirst hsecond hthird hfourth hopening hclosing hdigits

theorem StandsBefore.declared? (h : form.StandsBefore taken digits after) :
    form.declared? (taken ++ after) = some (digits, after) :=
  declared?_eq_some_iff.mpr ⟨taken, rfl, h⟩

theorem StandsBefore.append_ne_nil (h : form.StandsBefore taken digits after)
    (before : List Char) : before ++ (taken ++ after) ≠ [] := by
  obtain ⟨tail, rfl⟩ := h.spells.exists_mark
  simp

theorem declared?_cons_eq_none {c : Char} {text : List Char} (hc : c ≠ form.start) :
    form.declared? (c :: text) = none := by
  cases hdeclared : form.declared? (c :: text) with
  | none => rfl
  | some found =>
      obtain ⟨taken, htext, hstands⟩ := declared?_eq_some_iff.mp hdeclared
      obtain ⟨tail, rfl, -⟩ := hstands.spells.exists_tail
      exact absurd (List.cons.inj htext).1 hc

-- What a text declares at its front is determined by the text.
theorem StandsBefore.unique {other numeral rest : List Char}
    (h : form.StandsBefore taken digits after) (hother : form.StandsBefore other numeral rest)
    (htext : taken ++ after = other ++ rest) : taken = other ∧ digits = numeral ∧ after = rest := by
  have hsame := hother.declared?
  rw [← htext, h.declared?] at hsame
  cases hsame
  exact ⟨List.append_cancel_right htext, rfl, rfl⟩

-- A declaration as a change of the counter leaves it.
def rewrite (form : CounterForm) (change : BuildNumber) (taken digits : List Char) : List Char :=
  if readDecimal digits < UInt64.size then
    form.render (change.apply (UInt64.ofNat (readDecimal digits)))
  else taken

variable {change : BuildNumber}

theorem renumber_nil : form.renumber change [] = [] := by
  have hnone : form.declared? [] = none := by cases form <;> rfl
  rw [renumber.eq_def]
  split
  · rename_i hsome
    cases hnone.symm.trans hsome
  · rfl

theorem renumber_cons {c : Char} {rest : List Char} (h : form.declared? (c :: rest) = none) :
    form.renumber change (c :: rest) = c :: form.renumber change rest := by
  rw [renumber.eq_def]
  split
  · rename_i hsome
    cases h.symm.trans hsome
  · rfl

theorem renumber_append (h : form.StandsBefore taken digits after) :
    form.renumber change (taken ++ after) =
      form.rewrite change taken digits ++ form.renumber change after := by
  rw [renumber.eq_def]
  split
  · rename_i found rest hsome
    cases h.declared?.symm.trans hsome
    simp [rewrite]
  · rename_i hnone
    cases h.declared?.symm.trans hnone

-- Induction along a text from declaration to declaration.
theorem scan_induction (form : CounterForm) {motive : List Char → Prop} (nil : motive [])
    (keep : ∀ c rest, form.declared? (c :: rest) = none → motive rest → motive (c :: rest))
    (found : ∀ taken digits after, form.StandsBefore taken digits after → motive after →
      motive (taken ++ after))
    (text : List Char) : motive text := by
  fun_induction CounterForm.renumber form (.bump 0) text with
  | case1 text digits rest hdeclared value written ih =>
      obtain ⟨taken, rfl, hstands⟩ := declared?_eq_some_iff.mp hdeclared
      exact found taken digits rest hstands ih
  | case2 => exact nil
  | case3 c rest hdeclared ih => exact keep c rest hdeclared ih

-- No declaration begins inside another.
theorem Spells.start_not_mem_tail {c : Char} {tail : List Char} (h : form.Spells (c :: tail) digits) :
    c = form.start ∧ form.start ∉ tail := by
  obtain ⟨others, hsame, hothers⟩ := h.exists_tail
  obtain ⟨rfl, rfl⟩ := List.cons.inj hsame
  have hletters : form.start ∉ form.body := by cases form <;> decide
  have hclass : ¬ (isBlank form.start = true ∨ form.start.isDigit = true) := by
    cases form <;> decide
  exact ⟨rfl, fun hm => (hothers _ hm).elim hletters hclass⟩

-- Declarations do not overlap: another one is the same or begins behind this one.
theorem StandsBefore.here_or_later {before other numeral rest : List Char}
    (h : form.StandsBefore taken digits after) (hother : form.StandsBefore other numeral rest)
    (htext : taken ++ after = before ++ (other ++ rest)) :
    (before = [] ∧ taken = other ∧ digits = numeral ∧ after = rest) ∨
      ∃ inside, before = taken ++ inside ∧ after = inside ++ (other ++ rest) := by
  obtain ⟨inside, hbefore, hafter⟩ | ⟨inside, htaken, hsame⟩ := List.append_eq_append_iff.mp htext
  · exact .inr ⟨inside, hbefore, hafter⟩
  · cases before with
    | nil => exact .inl ⟨rfl, h.unique hother htext⟩
    | cons c before =>
        cases inside with
        | nil => exact .inr ⟨[], by rw [htaken, List.append_nil, List.append_nil], hsame.symm⟩
        | cons d inside =>
            obtain ⟨tail, rfl, -⟩ := hother.spells.exists_tail
            obtain ⟨rfl, -⟩ := List.cons.inj hsame
            rw [htaken] at h
            exact absurd (List.mem_append_right _ List.mem_cons_self)
              h.spells.start_not_mem_tail.2

-- The form is declared somewhere in the text.
def Occurs (form : CounterForm) (text : List Char) : Prop :=
  ∃ before taken digits after, text = before ++ (taken ++ after) ∧
    form.StandsBefore taken digits after

theorem occursIn_cons {c : Char} {rest : List Char} (h : form.declared? (c :: rest) = none) :
    form.occursIn (c :: rest) = form.occursIn rest := by
  rw [occursIn, h]
  rfl

theorem occursIn_iff (form : CounterForm) (text : List Char) :
    form.occursIn text = true ↔ form.Occurs text := by
  induction text with
  | nil =>
      refine ⟨fun h => (by cases h), ?_⟩
      rintro ⟨before, taken, digits, after, htext, hstands⟩
      exact absurd htext.symm (hstands.append_ne_nil before)
  | cons c rest ih =>
      rw [occursIn, Bool.or_eq_true, ih]
      constructor
      · rintro (hhere | ⟨before, taken, digits, after, rfl, hstands⟩)
        · obtain ⟨⟨digits, after⟩, hdeclared⟩ := Option.isSome_iff_exists.mp hhere
          obtain ⟨taken, htext, hstands⟩ := declared?_eq_some_iff.mp hdeclared
          exact ⟨[], taken, digits, after, htext, hstands⟩
        · exact ⟨c :: before, taken, digits, after, rfl, hstands⟩
      · rintro ⟨before, taken, digits, after, htext, hstands⟩
        cases before with
        | nil =>
            rw [List.nil_append] at htext
            exact .inl (by rw [htext, hstands.declared?]; rfl)
        | cons d before =>
            obtain ⟨rfl, rfl⟩ := List.cons.inj htext
            exact .inr ⟨before, taken, digits, after, rfl, hstands⟩

end CounterForm

-- A text taken apart into its declarations and single characters.
inductive Piece where
  | kept (c : Char)
  | declared (taken digits : List Char)

namespace Piece

def text : Piece → List Char
  | .kept c => [c]
  | .declared taken _ => taken

-- How a number is declared in place of another: what stands in front of it and behind it.
def opening : CounterForm → String
  | .plainKey => "number: "
  | .buildNumberVariable => "\x7b% set build_number = "
  | .buildVariable => "\x7b% set build = "

def closing : CounterForm → String
  | .plainKey => ""
  | _ => " %\x7d"

def replacement (form : CounterForm) (value : UInt64) : String :=
  opening form ++ value.toNat.repr ++ closing form

-- A number of 2^64 or more is out of range and stays as it is.
def changed (form : CounterForm) (change : BuildNumber) : Piece → List Char
  | .kept c => [c]
  | .declared taken digits =>
    if readDecimal digits < UInt64.size then
      (replacement form (change.apply (UInt64.ofNat (readDecimal digits)))).toList
    else taken

theorem toList_replacement (form : CounterForm) (value : UInt64) :
    (replacement form value).toList = form.render value := by
  rw [replacement, String.toList_append, String.toList_append, Nat.toList_repr]
  cases form with
  | plainKey => exact List.append_nil _
  | _ => rfl

theorem changed_declared (form : CounterForm) (change : BuildNumber) (taken digits : List Char) :
    changed form change (.declared taken digits) = form.rewrite change taken digits := by
  rw [changed, CounterForm.rewrite, toList_replacement]

end Piece

namespace CounterForm

-- The pieces of a text among which are its declarations of one form, all of them and no others.
structure Pieces (form : CounterForm) (text : List Char) (pieces : List Piece) : Prop where
  text_eq : text = pieces.flatMap Piece.text
  declared_iff : ∀ before taken digits after,
    (text = before ++ (taken ++ after) ∧ form.StandsBefore taken digits after) ↔
      ∃ front back, pieces = front ++ .declared taken digits :: back ∧
        before = front.flatMap Piece.text ∧ after = back.flatMap Piece.text

variable {form : CounterForm} {taken digits after : List Char} {pieces : List Piece}

theorem Pieces.nil : form.Pieces [] [] := by
  refine ⟨rfl, fun before taken digits after => ⟨?_, ?_⟩⟩
  · rintro ⟨htext, hstands⟩
    exact absurd htext.symm (hstands.append_ne_nil before)
  · rintro ⟨front, back, hpieces, -⟩
    simp at hpieces

theorem Pieces.keep {c : Char} {rest : List Char} (hnone : form.declared? (c :: rest) = none)
    (h : form.Pieces rest pieces) : form.Pieces (c :: rest) (.kept c :: pieces) := by
  refine ⟨congrArg (c :: ·) h.text_eq, fun before taken digits after => ⟨?_, ?_⟩⟩
  · rintro ⟨htext, hstands⟩
    cases before with
    | nil =>
        rw [htext, List.nil_append, hstands.declared?] at hnone
        cases hnone
    | cons d before =>
        obtain ⟨rfl, hrest⟩ := List.cons.inj htext
        obtain ⟨front, back, rfl, rfl, rfl⟩ := (h.declared_iff _ _ _ _).mp ⟨hrest, hstands⟩
        exact ⟨.kept c :: front, back, rfl, rfl, rfl⟩
  · rintro ⟨front, back, hpieces, rfl, rfl⟩
    cases front with
    | nil => cases hpieces
    | cons piece front =>
        obtain ⟨rfl, hrest⟩ := List.cons.inj hpieces
        obtain ⟨htext, hstands⟩ := (h.declared_iff _ _ _ _).mpr ⟨front, back, hrest, rfl, rfl⟩
        exact ⟨congrArg (c :: ·) htext, hstands⟩

theorem Pieces.found (hstands : form.StandsBefore taken digits after)
    (h : form.Pieces after pieces) :
    form.Pieces (taken ++ after) (.declared taken digits :: pieces) := by
  refine ⟨congrArg (taken ++ ·) h.text_eq, fun before other numeral rest => ⟨?_, ?_⟩⟩
  · rintro ⟨htext, hother⟩
    obtain ⟨rfl, rfl, rfl, rfl⟩ | ⟨inside, rfl, hrest⟩ := hstands.here_or_later hother htext
    · exact ⟨[], pieces, rfl, rfl, h.text_eq⟩
    · obtain ⟨front, back, rfl, rfl, rfl⟩ := (h.declared_iff _ _ _ _).mp ⟨hrest, hother⟩
      exact ⟨.declared taken digits :: front, back, rfl, rfl, rfl⟩
  · rintro ⟨front, back, hpieces, rfl, rfl⟩
    cases front with
    | nil =>
        cases hpieces
        rw [← h.text_eq]
        exact ⟨rfl, hstands⟩
    | cons piece front =>
        obtain ⟨rfl, hrest⟩ := List.cons.inj hpieces
        obtain ⟨htext, hother⟩ := (h.declared_iff _ _ _ _).mpr ⟨front, back, hrest, rfl, rfl⟩
        refine ⟨?_, hother⟩
        rw [List.flatMap_cons, List.append_assoc, ← htext]
        rfl

-- Changing the counter changes the pieces one by one.
theorem exists_pieces (form : CounterForm) (text : List Char) :
    ∃ pieces, form.Pieces text pieces ∧
      ∀ change, form.renumber change text = pieces.flatMap (Piece.changed form change) := by
  induction text using form.scan_induction with
  | nil => exact ⟨[], .nil, fun _ => renumber_nil⟩
  | keep c rest hnone ih =>
      obtain ⟨pieces, hpieces, hrenumber⟩ := ih
      refine ⟨.kept c :: pieces, hpieces.keep hnone, fun change => ?_⟩
      rw [renumber_cons hnone, hrenumber change]
      rfl
  | found taken digits after hstands ih =>
      obtain ⟨pieces, hpieces, hrenumber⟩ := ih
      refine ⟨.declared taken digits :: pieces, hpieces.found hstands, fun change => ?_⟩
      rw [renumber_append hstands, hrenumber change, List.flatMap_cons, Piece.changed_declared]

-- A form that the text declares and none of the forms before it is declared there.
def IsFirst (form : CounterForm) (text : List Char) : Prop :=
  form.Occurs text ∧ ∃ earlier later, all = earlier ++ form :: later ∧
    ∀ other ∈ earlier, ¬ other.Occurs text

end CounterForm

theorem counterForm?_eq_none_iff (text : List Char) :
    counterForm? text = none ↔ ∀ form : CounterForm, ¬ form.Occurs text := by
  have hall : ∀ form : CounterForm, form ∈ CounterForm.all := by
    intro form
    cases form <;> decide
  rw [counterForm?, List.find?_eq_none]
  simp only [CounterForm.occursIn_iff]
  exact ⟨fun h form => h form (hall form), fun h form _ => h form⟩

theorem counterForm?_eq_some_iff (text : List Char) (form : CounterForm) :
    counterForm? text = some form ↔ form.IsFirst text := by
  rw [counterForm?, List.find?_eq_some_iff_append]
  simp only [CounterForm.occursIn_iff, Bool.not_eq_eq_eq_not, Bool.not_true,
    ← Bool.not_eq_true, CounterForm.IsFirst]

-- Changing the counter rewrites the declarations of the first form that there is, all those whose
-- number is in range, and no other character.
theorem patchCounter?_rewrites (recipe : String) (change : BuildNumber) :
    (patchCounter? recipe change = none ↔ ∀ form : CounterForm, ¬ form.Occurs recipe.toList) ∧
    ∀ form : CounterForm, form.IsFirst recipe.toList →
      ∃ pieces, form.Pieces recipe.toList pieces ∧ patchCounter? recipe change =
        some (String.ofList (pieces.flatMap (Piece.changed form change))) := by
  refine ⟨?_, fun form hfirst => ?_⟩
  · rw [patchCounter?, Option.map_eq_none_iff, counterForm?_eq_none_iff]
  · obtain ⟨pieces, hpieces, hrenumber⟩ := form.exists_pieces recipe.toList
    have hform := (counterForm?_eq_some_iff _ _).mpr hfirst
    refine ⟨pieces, hpieces, ?_⟩
    rw [patchCounter?, hform, Option.map_some, hrenumber change]

-- A recipe with two forms, of which the key comes first, and with a number that is out of range.
def overlong : String :=
  "\x7b% set build = 2 %\x7d\nbuild:\n  number:   4\n  number: 18446744073709551616\n"

theorem patchCounter?_rewrites_overlong :
    CounterForm.plainKey.IsFirst overlong.toList ∧
      ∃ pieces, CounterForm.plainKey.Pieces overlong.toList pieces ∧
        String.ofList (pieces.flatMap (Piece.changed .plainKey (.bump 1))) =
          "\x7b% set build = 2 %\x7d\nbuild:\n  number: 5\n  number: 18446744073709551616\n" := by
  have hfirst : CounterForm.plainKey.IsFirst overlong.toList :=
    (counterForm?_eq_some_iff _ _).mp (by decide +kernel)
  obtain ⟨pieces, hpieces, hpatch⟩ :=
    (patchCounter?_rewrites overlong (.bump 1)).2 .plainKey hfirst
  refine ⟨hfirst, pieces, hpieces, Option.some.inj (hpatch.symm.trans ?_)⟩
  decide +kernel

end Rollout
