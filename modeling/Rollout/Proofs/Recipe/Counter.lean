import Mathlib.Data.List.TakeWhile
import Rollout.Proofs.Recipe.Dependency
import Rollout.Recipe.Counter

namespace Rollout

theorem afterWord?_eq_some_iff {word text rest : List Char} :
    afterWord? word text = some rest ↔ text = word ++ rest := by
  induction word generalizing text with
  | nil => simp [afterWord?]
  | cons w word ih =>
      cases text with
      | nil => simp [afterWord?]
      | cons c text =>
          rw [afterWord?, List.cons_append, List.cons.injEq]
          split
          · rename_i hc
            rw [ih]
            exact ⟨fun h => ⟨hc.symm, h⟩, fun h => h.2⟩
          · rename_i hc
            simp [Ne.symm hc]

theorem exists_blanks (text : List Char) :
    ∃ blanks, text = blanks ++ skipBlanks text ∧ ∀ c ∈ blanks, isBlank c = true :=
  ⟨text.takeWhile isBlank, List.takeWhile_append_dropWhile.symm, fun _ => List.mem_takeWhile_imp⟩

def IsOptionalQuote (text : List Char) : Prop := text = [] ∨ text = ['"']

theorem exists_quote (text : List Char) :
    ∃ quote, text = quote ++ skipQuote text ∧ IsOptionalQuote quote := by
  unfold skipQuote
  split
  · exact ⟨['"'], rfl, .inr rfl⟩
  · exact ⟨[], rfl, .inl rfl⟩

def IsNumeral (digits : List Char) : Prop := digits ≠ [] ∧ ∀ c ∈ digits, c.isDigit = true

theorem isNumeral_toDigits (n : Nat) : IsNumeral (Nat.toDigits 10 n) :=
  ⟨Nat.toDigits_ne_nil, fun _ hc => Nat.isDigit_of_mem_toDigits (by decide) (by decide) hc⟩

theorem digitRun?_eq_some {text digits rest : List Char} (h : digitRun? text = some (digits, rest)) :
    text = digits ++ rest ∧ IsNumeral digits := by
  have hsplit := List.takeWhile_append_dropWhile (p := Char.isDigit) (l := text)
  rw [digitRun?] at h
  split at h
  · cases h
  · rename_i hne
    cases h
    exact ⟨hsplit.symm, fun hnil => hne hnil, fun c => List.mem_takeWhile_imp⟩

namespace CounterForm

-- The texts that declare a counter: a key with its digits, or an assignment in a template, with
-- white space, line breaks included, between the parts.
inductive Spells : CounterForm → List Char → List Char → Prop where
  | plainKey {blanks digits : List Char} (hblanks : ∀ c ∈ blanks, isBlank c = true)
      (hdigits : IsNumeral digits) :
      Spells .plainKey ("number:".toList ++ (blanks ++ digits)) digits
  | templated {form : CounterForm} {first second third fourth opening closing digits : List Char}
      (hform : form ≠ .plainKey) (hfirst : ∀ c ∈ first, isBlank c = true)
      (hsecond : ∀ c ∈ second, isBlank c = true) (hthird : ∀ c ∈ third, isBlank c = true)
      (hfourth : ∀ c ∈ fourth, isBlank c = true) (hopening : IsOptionalQuote opening)
      (hclosing : IsOptionalQuote closing) (hdigits : IsNumeral digits) :
      Spells form (['\x7b', '%'] ++ (first ++ (form.setting ++ (second ++ (['='] ++
        (third ++ (opening ++ (digits ++ (closing ++ (fourth ++ ['%', '\x7d'])))))))))) digits

theorem spells_of_templated {form : CounterForm} (hform : form ≠ .plainKey)
    {text digits rest : List Char} (h : form.declared? text = some (digits, rest)) :
    ∃ taken, form.Spells taken digits ∧ text = taken ++ rest := by
  rw [declared?.eq_2 form text hform] at h
  simp only [bind, Option.bind_eq_some_iff, pure, Option.some.injEq, Prod.mk.injEq] at h
  obtain ⟨afterOpen, hopen, afterName, hname, afterSign, hsign, ⟨run, afterRun⟩, hrun, last, hlast,
    rfl, rfl⟩ := h
  obtain ⟨first, hfirst, hfirstBlank⟩ := exists_blanks afterOpen
  obtain ⟨second, hsecond, hsecondBlank⟩ := exists_blanks afterName
  obtain ⟨third, hthird, hthirdBlank⟩ := exists_blanks afterSign
  obtain ⟨opening, hopening, hopeningQuote⟩ := exists_quote (skipBlanks afterSign)
  obtain ⟨closing, hclosing, hclosingQuote⟩ := exists_quote afterRun
  obtain ⟨fourth, hfourth, hfourthBlank⟩ := exists_blanks (skipQuote afterRun)
  obtain ⟨hdigits, hnumeral⟩ := digitRun?_eq_some hrun
  rw [afterWord?_eq_some_iff] at hopen hname hsign hlast
  refine ⟨_, .templated hform hfirstBlank hsecondBlank hthirdBlank hfourthBlank hopeningQuote
    hclosingQuote hnumeral, ?_⟩
  rw [hopen, hfirst, hname, hsecond, hsign, hthird, hopening, hdigits, hclosing, hfourth, hlast]
  simp only [List.append_assoc]

theorem spells_of_declared? {form : CounterForm} {text digits rest : List Char}
    (h : form.declared? text = some (digits, rest)) :
    ∃ taken, form.Spells taken digits ∧ text = taken ++ rest := by
  by_cases hform : form = .plainKey
  · subst hform
    simp only [declared?, bind, Option.bind_eq_some_iff] at h
    obtain ⟨after, hkey, hrun⟩ := h
    obtain ⟨blanks, hblanks, hblank⟩ := exists_blanks after
    obtain ⟨hdigits, hnumeral⟩ := digitRun?_eq_some hrun
    refine ⟨_, .plainKey hblank hnumeral, ?_⟩
    rw [afterWord?_eq_some_iff.mp hkey, hblanks, hdigits]
    simp only [List.append_assoc]
  · exact spells_of_templated hform h

-- What a declaration begins with, up to the first character that no dependency can hold.
def lead : CounterForm → List Char
  | .plainKey => "number".toList
  | _ => []

def mark : CounterForm → Char
  | .plainKey => ':'
  | _ => '\x7b'

theorem isBlank_mark (form : CounterForm) : isBlank form.mark = false := by
  cases form <;> decide

theorem mark_ne_hyphen (form : CounterForm) : form.mark ≠ '-' := by
  cases form <;> decide

variable {form : CounterForm} {taken digits : List Char}

theorem Spells.exists_mark (h : form.Spells taken digits) :
    ∃ after, taken = form.lead ++ form.mark :: after := by
  cases h with
  | plainKey => exact ⟨_, rfl⟩
  | templated hform =>
      cases form with
      | plainKey => exact absurd rfl hform
      | _ => exact ⟨_, rfl⟩

-- The characters a declaration is put together from besides white space and digits: the one it
-- begins with, and the others.
def start : CounterForm → Char
  | .plainKey => 'n'
  | _ => '\x7b'

def body : CounterForm → List Char
  | .plainKey => "umber:".toList
  | form => '%' :: (form.setting ++ ['=', '"', '%', '\x7d'])

theorem start_of_templated (hform : form ≠ .plainKey) : form.start = '\x7b' := by
  cases form with
  | plainKey => exact absurd rfl hform
  | _ => rfl

theorem body_of_templated (hform : form ≠ .plainKey) :
    form.body = '%' :: (form.setting ++ ['=', '"', '%', '\x7d']) := by
  cases form with
  | plainKey => exact absurd rfl hform
  | _ => rfl

theorem Spells.exists_tail (h : form.Spells taken digits) :
    ∃ tail, taken = form.start :: tail ∧
      ∀ c ∈ tail, c ∈ form.body ∨ isBlank c = true ∨ c.isDigit = true := by
  cases h with
  | @plainKey blanks digits hblanks hdigits =>
      refine ⟨"umber:".toList ++ (blanks ++ digits), rfl, fun c hc => ?_⟩
      simp only [List.mem_append] at hc
      obtain hword | hblank | hdigit := hc
      · exact .inl hword
      · exact .inr (.inl (hblanks c hblank))
      · exact .inr (.inr (hdigits.2 c hdigit))
  | @templated _ first second third fourth opening closing _ hform hfirst hsecond hthird
      hfourth hopening hclosing hdigits =>
      have hquote : ∀ {quote : List Char}, IsOptionalQuote quote → ∀ c ∈ quote, c = '"' := by
        rintro quote (rfl | rfl) c hc
        · cases hc
        · exact List.mem_singleton.mp hc
      rw [start_of_templated hform, body_of_templated hform]
      refine ⟨'%' :: (first ++ (form.setting ++ (second ++ (['='] ++ (third ++ (opening ++
        (digits ++ (closing ++ (fourth ++ ['%', '\x7d']))))))))), rfl, fun c hc => ?_⟩
      simp only [List.mem_append, List.mem_cons, List.not_mem_nil, or_false] at hc ⊢
      rcases hc with rfl | hc | hc | hc | rfl | hc | hc | hc | hc | hc | hc
      · simp
      · simp [hfirst c hc]
      · simp [hc]
      · simp [hsecond c hc]
      · simp
      · simp [hthird c hc]
      · simp [hquote hopening c hc]
      · simp [hdigits.2 c hc]
      · simp [hquote hclosing c hc]
      · simp [hfourth c hc]
      · obtain rfl | rfl := hc <;> simp

theorem Spells.not_mem {c : Char} (h : form.Spells taken digits) (hstart : c ≠ form.start)
    (hbody : c ∉ form.body) (hclass : ¬ (isBlank c = true ∨ c.isDigit = true)) : c ∉ taken := by
  obtain ⟨tail, rfl, htail⟩ := h.exists_tail
  exact List.not_mem_cons_of_ne_of_not_mem hstart fun hm => (htail c hm).elim hbody hclass

theorem Spells.hyphen_not_mem (h : form.Spells taken digits) : '-' ∉ taken := by
  have hletters : '-' ≠ form.start ∧ '-' ∉ form.body := by cases form <;> decide
  exact h.not_mem hletters.1 hletters.2 (by decide)

theorem Spells.last_not_blank (h : form.Spells taken digits) :
    ∀ c ∈ taken.getLast?, isBlank c = false := by
  cases h with
  | plainKey hblanks hdigits =>
      simp only [List.getLast?_append, List.getLast?_eq_some_getLast hdigits.1, Option.some_or]
      rintro c ⟨⟩
      exact isBlank_eq_false_of_isDigit _ (hdigits.2 _ (List.getLast_mem hdigits.1))
  | templated =>
      simp only [List.getLast?_append]
      rintro c ⟨⟩
      decide

-- A number is written as a declaration, and on one line.
theorem spells_render (form : CounterForm) (value : UInt64) :
    form.Spells (form.render value) (Nat.toDigits 10 value.toNat) := by
  have hblank : ∀ c ∈ [' '], isBlank c = true := List.forall_mem_singleton.mpr isBlank_space
  have hdigits := isNumeral_toDigits value.toNat
  have htemplated : ∀ form : CounterForm, form ≠ .plainKey →
      form.Spells (['\x7b', '%'] ++ ([' '] ++ (form.setting ++ ([' '] ++ (['='] ++ ([' '] ++ ([] ++
        (Nat.toDigits 10 value.toNat ++ ([] ++ ([' '] ++ ['%', '\x7d']))))))))))
        (Nat.toDigits 10 value.toNat) := fun form hform =>
    .templated hform hblank hblank hblank hblank (.inl rfl) (.inl rfl) hdigits
  cases form with
  | plainKey => exact .plainKey hblank hdigits
  | buildNumberVariable => exact htemplated .buildNumberVariable (by decide)
  | buildVariable => exact htemplated .buildVariable (by decide)

theorem newline_not_mem_render (form : CounterForm) (value : UInt64) :
    '\n' ∉ form.render value := by
  have hdigits : '\n' ∉ Nat.toDigits 10 value.toNat := fun hm =>
    Bool.noConfusion (((isNumeral_toDigits value.toNat).2 _ hm).symm.trans
      (by decide : '\n'.isDigit = false))
  have htemplated : ∀ name : List Char, '\n' ∉ name →
      '\n' ∉ '\x7b' :: '%' :: ' ' :: name ++ " = ".toList ++ Nat.toDigits 10 value.toNat ++
        [' ', '%', '\x7d'] := by
    intro name hname
    simp [hname, hdigits]
  cases form with
  | plainKey =>
      exact List.not_mem_append (by decide : '\n' ∉ "number: ".toList) hdigits
  | buildNumberVariable => exact htemplated _ (by decide)
  | buildVariable => exact htemplated _ (by decide)

-- Two texts that differ in the declarations of one form only.
inductive Renumbers (form : CounterForm) : List Char → List Char → Prop where
  | done : Renumbers form [] []
  | keep (c : Char) {text out : List Char} (h : Renumbers form text out) :
      Renumbers form (c :: text) (c :: out)
  | rewrite {taken digits other number text out : List Char} (htaken : form.Spells taken digits)
      (hother : form.Spells other number) (h : Renumbers form text out) :
      Renumbers form (taken ++ text) (other ++ out)

theorem Renumbers.symm {text out : List Char} (h : form.Renumbers text out) :
    form.Renumbers out text := by
  induction h with
  | done => exact .done
  | keep c h ih => exact .keep c ih
  | rewrite htaken hother h ih => exact .rewrite hother htaken ih

theorem renumbers_renumber (form : CounterForm) (change : BuildNumber) (text : List Char) :
    form.Renumbers text (form.renumber change text) := by
  fun_induction CounterForm.renumber form change text with
  | case1 text digits rest hdeclared value written ih =>
      obtain ⟨taken, hspells, rfl⟩ := spells_of_declared? hdeclared
      simp only [written]
      split
      · exact .rewrite hspells (form.spells_render _) ih
      · simpa using Renumbers.rewrite hspells hspells ih
  | case2 => exact .done
  | case3 c rest hdeclared ih => exact .keep c ih

-- The texts before and after are the same up to the first mark.
theorem Renumbers.eq_or_exists_mark {text out : List Char} (h : form.Renumbers text out) :
    out = text ∨ ∃ front before after, text = front ++ form.mark :: before ∧
      out = front ++ form.mark :: after := by
  induction h with
  | done => exact .inl rfl
  | keep c h ih =>
      obtain rfl | ⟨front, before, after, rfl, rfl⟩ := ih
      · exact .inl rfl
      · exact .inr ⟨c :: front, before, after, rfl, rfl⟩
  | @rewrite taken digits other number text out htaken hother h ih =>
      obtain ⟨before, rfl⟩ := htaken.exists_mark
      obtain ⟨after, rfl⟩ := hother.exists_mark
      exact .inr ⟨form.lead, before ++ text, after ++ out, by simp, by simp⟩

theorem mark_not_mem_item {indent blanks name : List Char}
    (hindent : ∀ c ∈ indent, isBlank c = true ∧ c ≠ '\n')
    (hblanks : ∀ c ∈ blanks, isBlank c = true ∧ c ≠ '\n') (hname : form.mark ∉ name) :
    form.mark ∉ indent ++ '-' :: (blanks ++ name) := by
  have hblank : ∀ {run : List Char}, (∀ c ∈ run, isBlank c = true ∧ c ≠ '\n') →
      form.mark ∉ run := fun hrun hm =>
    Bool.noConfusion ((hrun _ hm).1.symm.trans form.isBlank_mark)
  simp only [List.mem_append, List.mem_cons, not_or]
  exact ⟨hblank hindent, form.mark_ne_hyphen, hblank hblanks, hname⟩

-- A declared dependency lies in front of the first mark, where nothing has changed.
theorem Renumbers.declaresFirst {package text out : List Char} (hmark : form.mark ∉ package)
    (h : form.Renumbers text out) (hout : DeclaresFirst package out) :
    DeclaresFirst package text := by
  obtain rfl | ⟨front, before, after, rfl, rfl⟩ := h.eq_or_exists_mark
  · exact hout
  · obtain ⟨indent, blanks, rest, hsplit, hindent, hblanks, hrest⟩ := hout
    have hitem := mark_not_mem_item hindent hblanks hmark
    have hparts : front ++ form.mark :: after =
        (indent ++ '-' :: (blanks ++ package)) ++ rest := by
      rw [hsplit]
      simp
    obtain ⟨middle, hcut, hsame⟩ | ⟨middle, rfl, rfl⟩ := List.append_eq_append_iff.mp hparts
    · cases middle with
      | nil =>
          have hfirst : form.mark ∈ rest.head? := by rw [← List.nil_append rest, ← hsame]; rfl
          exact Bool.noConfusion ((hrest _ hfirst).symm.trans form.isBlank_mark)
      | cons c middle =>
          obtain ⟨hc, -⟩ := List.cons.inj hsame
          exact absurd (hcut ▸ List.mem_append_right _ (hc ▸ List.mem_cons_self)) hitem
    · refine ⟨indent, blanks, middle ++ form.mark :: before, by simp, hindent, hblanks, ?_⟩
      cases middle with
      | nil => exact Bool.noConfusion ((hrest _ rfl).symm.trans form.isBlank_mark)
      | cons c middle => exact hrest

end CounterForm

theorem DeclaresLater.append_left {package text : List Char} (front : List Char)
    (h : DeclaresLater package text) : DeclaresLater package (front ++ text) := by
  obtain ⟨before, rest, rfl, hrest⟩ := h
  exact ⟨front ++ before, rest, by simp, hrest⟩

-- No line that begins inside a declaration of a counter declares a dependency: white space
-- cannot end it and it has no hyphen.
theorem CounterForm.Spells.not_declaresFirst {form : CounterForm} {digits before inside : List Char}
    (h : form.Spells (before ++ '\n' :: inside) digits) (package out : List Char) :
    ¬ DeclaresFirst package (inside ++ out) := by
  rintro ⟨indent, blanks, rest, hsplit, hindent, -, -⟩
  have hhyphen : '-' ∉ inside := fun hm =>
    h.hyphen_not_mem (List.mem_append_right _ (List.mem_cons_of_mem _ hm))
  have hinside : ∀ c ∈ inside, isBlank c = true := by
    obtain ⟨middle, rfl, -⟩ | ⟨middle, hcut, hsame⟩ := List.append_eq_append_iff.mp hsplit
    · exact fun c hc => (hindent c (List.mem_append_left _ hc)).1
    · cases middle with
      | nil => exact fun c hc => (hindent c (by simpa [hcut] using hc)).1
      | cons c middle =>
          obtain ⟨rfl, -⟩ := List.cons.inj hsame
          exact absurd (hcut ▸ List.mem_append_right _ List.mem_cons_self) hhyphen
  have hlast := h.last_not_blank (('\n' :: inside).getLast (List.cons_ne_nil _ _)) (by
    rw [List.getLast?_append, List.getLast?_eq_some_getLast (List.cons_ne_nil _ _)]
    rfl)
  have hmem := List.getLast_mem (List.cons_ne_nil '\n' inside)
  obtain hnewline | hm := List.mem_cons.mp hmem
  · rw [hnewline] at hlast
    cases hlast
  · cases hlast.symm.trans (hinside _ hm)

theorem DeclaresLater.append_cases {package front out : List Char}
    (h : DeclaresLater package (front ++ out)) :
    (∃ before inside, front = before ++ '\n' :: inside ∧ DeclaresFirst package (inside ++ out)) ∨
      DeclaresLater package out := by
  obtain ⟨before, rest, hsplit, hrest⟩ := h
  obtain ⟨middle, -, rfl⟩ | ⟨middle, hcut, hsame⟩ := List.append_eq_append_iff.mp hsplit
  · exact .inr ⟨middle, rest, rfl, hrest⟩
  · cases middle with
    | nil => exact .inr ⟨[], rest, hsame.symm, hrest⟩
    | cons c middle =>
        obtain ⟨rfl, rfl⟩ := List.cons.inj hsame
        exact .inl ⟨before, middle, hcut, hrest⟩

-- A later line of the renumbered text that declares a dependency does so in the text before.
theorem CounterForm.Renumbers.declaresLater {form : CounterForm} {package text out : List Char}
    (hmark : form.mark ∉ package) (h : form.Renumbers text out)
    (hout : DeclaresLater package out) : DeclaresLater package text := by
  induction h with
  | done => exact hout
  | @keep c text out h ih =>
      have happended : DeclaresLater package ([c] ++ out) := hout
      obtain ⟨before, inside, hnewline, hfirst⟩ | hlater := happended.append_cases
      · obtain ⟨rfl, hinside⟩ | ⟨-, hnil⟩ := List.singleton_eq_append_iff.mp hnewline
        · obtain ⟨rfl, rfl⟩ := List.cons.inj hinside
          exact ⟨[], text, rfl, h.declaresFirst hmark hfirst⟩
        · cases hnil
      · exact (ih hlater).append_left [c]
  | @rewrite taken digits other number text out htaken hother h ih =>
      obtain ⟨before, inside, rfl, hfirst⟩ | hlater := hout.append_cases
      · exact absurd hfirst (hother.not_declaresFirst package out)
      · exact (ih hlater).append_left taken

theorem updateCounter_cases (recipe : String) (change : BuildNumber) :
    updateCounter recipe change = recipe ∨
      ∃ form : CounterForm,
        (updateCounter recipe change).toList = form.renumber change recipe.toList := by
  cases hform : counterForm? recipe.toList with
  | none => exact .inl (by rw [updateCounter, patchCounter?, hform]; rfl)
  | some form =>
      refine .inr ⟨form, ?_⟩
      rw [updateCounter, patchCounter?, hform]
      exact String.toList_ofList

-- Changing the counter makes no line declare a dependency and takes none away. A name with a colon
-- or a brace could be put together from two lines.
theorem exists_declares_updateCounter_iff {package : List Char} (hpackage : IsWord package)
    (hcolon : ':' ∉ package) (hbrace : '\x7b' ∉ package) (recipe : String) (change : BuildNumber) :
    (∃ line ∈ lines (updateCounter recipe change).toList, Declares package line) ↔
      ∃ line ∈ lines recipe.toList, Declares package line := by
  obtain hsame | ⟨form, hform⟩ := updateCounter_cases recipe change
  · rw [hsame]
  · have hmark : form.mark ∉ package := by cases form <;> assumption
    have hrenumbers := form.renumbers_renumber change recipe.toList
    rw [hform, exists_declares_iff hpackage, exists_declares_iff hpackage]
    exact ⟨Or.imp (hrenumbers.declaresFirst hmark) (hrenumbers.declaresLater hmark),
      Or.imp (hrenumbers.symm.declaresFirst hmark) (hrenumbers.symm.declaresLater hmark)⟩

theorem not_declares_updateCounter {package : List Char} (hpackage : IsWord package)
    (hcolon : ':' ∉ package) (hbrace : '\x7b' ∉ package) (recipe : String) (change : BuildNumber)
    (h : ∀ line ∈ lines recipe.toList, ¬ Declares package line) :
    ∀ line ∈ lines (updateCounter recipe change).toList, ¬ Declares package line := by
  intro line hm hdeclares
  obtain ⟨before, hbefore, hdeclared⟩ :=
    (exists_declares_updateCounter_iff hpackage hcolon hbrace recipe change).mp ⟨line, hm, hdeclares⟩
  exact h before hbefore hdeclared

end Rollout
