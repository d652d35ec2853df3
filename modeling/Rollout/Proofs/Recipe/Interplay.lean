import Rollout.Proofs.Recipe.Composition
import Rollout.Proofs.Recipe.Onwards

namespace Rollout

-- A name that has no part in a declaration of the build counter.
def IsPlainName (name : List Char) : Prop := IsWord name ∧ ':' ∉ name ∧ '\x7b' ∉ name

instance (name : List Char) : Decidable (IsPlainName name) :=
  inferInstanceAs (Decidable (_ ∧ _ ∧ _))

theorem IsPlainName.mark_not_mem {name : List Char} (h : IsPlainName name) (form : CounterForm) :
    form.mark ∉ name := by
  cases form with
  | plainKey => exact h.2.1
  | _ => exact h.2.2

-- The characters at which renaming may have changed a text.
def renameStops : List Char := ['-', '\n', '\r']

variable {package new text : List Char} {form : CounterForm} {change : BuildNumber}

theorem skipBlanks_item {indent blanks name rest : List Char}
    (hindent : ∀ c ∈ indent, isBlank c = true ∧ c ≠ '\n') :
    Halts renameStops (skipBlanks (item indent blanks name ++ rest)) := by
  have hhyphen : ∀ c ∈ ('-' :: (blanks ++ (name ++ rest))).head?, isBlank c = false := by
    rintro c ⟨⟩
    decide
  rw [item_append, skipBlanks_append (fun c hc => (hindent c hc).1) hhyphen]
  rintro c ⟨⟩
  decide

-- White space may lead to the next line. If that is an item, its hyphen comes next.
theorem skipBlanks_renameOnwards (hpackage : IsWord package) (text : List Char) :
    skipBlanks (renameOnwards package new text) =
        renameOnwards package new (skipBlanks text) ∨
      (Halts renameStops (skipBlanks text) ∧
        Halts renameStops (skipBlanks (renameOnwards package new text))) := by
  have hends : Halts renameStops [] := by simp [Halts]
  induction text with
  | nil => exact .inr ⟨hends, hends⟩
  | cons c rest ih =>
      by_cases hnewline : c = '\n'
      · subst hnewline
        rw [renameOnwards, skipBlanks_cons isBlank_newline, skipBlanks_cons isBlank_newline]
        by_cases hfirst : DeclaresFirst package rest
        · obtain ⟨indent, blanks, tail, rfl, hindent, hblanks, htail⟩ := hfirst
          rw [← item_append, renameLines_item hpackage hindent hblanks htail]
          exact .inr ⟨skipBlanks_item hindent, skipBlanks_item hindent⟩
        · by_cases hnil : rest = []
          · subst hnil
            exact .inr ⟨hends, hends⟩
          · rwa [renameLines_of_not_declaresFirst hpackage hnil hfirst]
      · by_cases hreturn : c = '\r' ∧ rest.head? = some '\n'
        · obtain ⟨rfl, hhead⟩ := hreturn
          obtain ⟨more, rfl⟩ := List.head?_eq_some_iff.mp hhead
          rwa [skipBlanks_cons isBlank_return, renameOnwards]
        · rw [renameOnwards_cons hnewline fun hc hhead => hreturn ⟨hc, hhead⟩]
          cases hc : isBlank c with
          | true => rwa [skipBlanks_cons hc, skipBlanks_cons hc]
          | false =>
              rw [skipBlanks_cons_of_not_blank hc, skipBlanks_cons_of_not_blank hc,
                renameOnwards_cons hnewline fun hc hhead => hreturn ⟨hc, hhead⟩]
              exact .inl rfl

theorem head?_renameOnwards {c : Char} (hc : c ∉ renameStops)
    (h : c ∈ (renameOnwards package new text).head?) : c ∈ text.head? := by
  have hnewline : c ≠ '\n' := fun hnewline => hc (by simp [renameStops, hnewline])
  unfold renameOnwards at h
  split at h
  · exact absurd (Option.some.inj h).symm hnewline
  · exact absurd (Option.some.inj h).symm hnewline
  · exact absurd (Option.some.inj h).symm hnewline
  · exact h

theorem transparent_renameOnwards (hpackage : IsWord package) (new : List Char) :
    Transparent renameStops (renameOnwards package new) := by
  refine ⟨fun text hc => ?_, head?_renameOnwards, skipBlanks_renameOnwards hpackage⟩
  simp only [renameStops, List.mem_cons, List.not_mem_nil, or_false, not_or] at hc
  exact renameOnwards_cons hc.2.1 fun hreturn => absurd hreturn hc.2.2

theorem declared?_cons_renameOnwards (hpackage : IsWord package) (form : CounterForm) (c : Char)
    (text : List Char) :
    form.declared? (c :: renameOnwards package new text) =
      (form.declared? (c :: text)).map (Prod.map id (renameOnwards package new)) := by
  have hbody : '-' ∉ form.body ∧ '\n' ∉ form.body ∧ '\r' ∉ form.body := by cases form <;> decide
  have hdigits : ∀ c ∈ renameStops, c.isDigit = false := by
    simp only [renameStops, List.forall_mem_cons, List.not_mem_nil, false_imp_iff, implies_true]
    decide
  refine (transparent_renameOnwards hpackage new).declared?_cons (fun d hd hstop => ?_) hdigits c text
  simp only [renameStops, List.mem_cons, List.not_mem_nil, or_false] at hstop
  obtain rfl | rfl | rfl := hstop
  · exact hbody.1 hd
  · exact hbody.2.1 hd
  · exact hbody.2.2 hd

theorem blankFirst_renameOnwards (h : BlankFirst text) :
    BlankFirst (renameOnwards package new text) := by
  unfold renameOnwards
  split
  · exact fun c hc => Option.some.inj hc ▸ isBlank_newline
  · exact fun c hc => Option.some.inj hc ▸ isBlank_newline
  · exact fun c hc => Option.some.inj hc ▸ isBlank_newline
  · exact h

namespace CounterForm

-- A declaration begins with its lead and its mark, so none begins in a text without the mark that
-- white space follows.
theorem inert_of_mark_not_mem {front rest : List Char} (hmark : form.mark ∉ front)
    (hrest : BlankFirst rest) : form.Inert front rest := by
  rintro before inside rfl -
  have hlead : form.lead.any isBlank = false := by cases form <;> decide
  cases hdeclared : form.declared? (inside ++ rest) with
  | none => rfl
  | some found =>
      obtain ⟨taken, htext, hstands⟩ := declared?_eq_some_iff.mp hdeclared
      obtain ⟨value, rfl⟩ := hstands.spells.exists_mark
      rw [List.append_assoc] at htext
      obtain ⟨middle, hcut, rfl⟩ | ⟨middle, rfl, hsame⟩ := List.append_eq_append_iff.mp htext
      · have hfirst : ∀ c ∈ (middle ++ (form.mark :: value ++ found.2)).head?,
            isBlank c = false := by
          refine forall_head?_append (fun c hc => ?_) ?_
          · exact Bool.eq_false_iff.mpr (List.any_eq_false.mp hlead c (hcut ▸ List.mem_append_right _ hc))
          · rintro c ⟨⟩
            exact form.isBlank_mark
        obtain ⟨c, hc⟩ : ∃ c, c ∈ (middle ++ (form.mark :: value ++ found.2)).head? := by
          cases middle <;> exact ⟨_, rfl⟩
        cases (hrest c hc).symm.trans (hfirst c hc)
      · cases middle with
        | nil =>
            have hfirst := hrest form.mark (by rw [← List.nil_append rest, ← hsame]; rfl)
            cases hfirst.symm.trans form.isBlank_mark
        | cons c middle =>
            obtain ⟨rfl, -⟩ := List.cons.inj hsame
            exact absurd (by simp) hmark

theorem inert_item {indent blanks name rest : List Char}
    (hindent : ∀ c ∈ indent, isBlank c = true ∧ c ≠ '\n')
    (hblanks : ∀ c ∈ blanks, isBlank c = true ∧ c ≠ '\n') (hname : IsPlainName name)
    (hrest : BlankFirst rest) : form.Inert (item indent blanks name) rest := by
  have hmark : form.mark ∉ item indent blanks name :=
    mark_not_mem_item hindent hblanks (hname.mark_not_mem form)
  exact inert_of_mark_not_mem hmark hrest

-- Inside a declaration renaming changes ends of lines only, whatever follows the declaration.
theorem Spells.exists_renameOnwards {taken digits : List Char} (h : form.Spells taken digits)
    (hpackage : IsWord package) (new : List Char) :
    ∃ other, ∀ rest, renameOnwards package new (taken ++ rest) =
      other ++ renameOnwards package new rest := by
  suffices hinside : ∀ before inside, taken = before ++ inside →
      ∃ other, ∀ rest, renameOnwards package new (inside ++ rest) =
        other ++ renameOnwards package new rest from hinside [] taken rfl
  intro before inside htaken
  induction inside generalizing before with
  | nil => exact ⟨[], fun _ => rfl⟩
  | cons c inside ih =>
      obtain ⟨other, hother⟩ := ih (before ++ [c]) (by simp [htaken])
      have hlast : isBlank c = true → inside ≠ [] := by
        rintro hc rfl
        have hend := h.last_not_blank c (by simp [htaken])
        cases hc.symm.trans hend
      by_cases hnewline : c = '\n'
      · subst hnewline
        refine ⟨'\n' :: other, fun rest => ?_⟩
        have hne : inside ++ rest ≠ [] := by simp [hlast isBlank_newline]
        have hfirst := (htaken ▸ h).not_declaresFirst package rest
        rw [List.cons_append, renameOnwards,
          renameLines_of_not_declaresFirst hpackage hne hfirst, hother]
        rfl
      · by_cases hreturn : c = '\r' ∧ inside.head? = some '\n'
        · obtain ⟨rfl, hhead⟩ := hreturn
          obtain ⟨more, rfl⟩ := List.head?_eq_some_iff.mp hhead
          exact ⟨other, fun rest => by rw [← hother rest]; rfl⟩
        · refine ⟨c :: other, fun rest => ?_⟩
          rw [List.cons_append, renameOnwards_cons hnewline, hother]
          · rfl
          · rintro rfl hhead
            obtain ⟨d, more, rfl⟩ := List.exists_cons_of_ne_nil (hlast isBlank_return)
            exact hreturn ⟨rfl, hhead⟩

-- An edit that leaves the declarations of a form where they are: it finds the same ones, and it
-- makes no difference whether they are renumbered before or after it.
structure Unmoved (form : CounterForm) (change : BuildNumber) (edit : List Char → List Char)
    (text : List Char) : Prop where
  occursIn : form.occursIn (edit text) = form.occursIn text
  renumber : form.renumber change (edit text) = edit (form.renumber change text)

theorem Unmoved.of_append {front : List Char}
    (hedit : ∀ tail, renameOnwards package new (front ++ tail) =
      front ++ renameOnwards package new tail)
    (hfront : form.Inert front text) (hafter : form.Inert front (renameOnwards package new text))
    (h : form.Unmoved change (renameOnwards package new) (front ++ text)) :
    form.Unmoved change (renameOnwards package new) text := by
  obtain ⟨hoccursIn, hrenumber⟩ := h
  rw [hedit, hafter.occursIn_append, hfront.occursIn_append] at hoccursIn
  rw [hedit, hafter.renumber_append, hfront.renumber_append, hedit] at hrenumber
  exact ⟨hoccursIn, List.append_cancel_left hrenumber⟩

theorem Unmoved.renameLines_item {indent blanks rest : List Char} (hpackage : IsPlainName package)
    (hnew : IsPlainName new) (hindent : ∀ c ∈ indent, isBlank c = true ∧ c ≠ '\n')
    (hblanks : ∀ c ∈ blanks, isBlank c = true ∧ c ≠ '\n') (hrest : BlankFirst rest)
    (h : form.Unmoved change (renameOnwards package new) (item indent blanks package ++ rest)) :
    form.Unmoved change (renameLines package new) (item indent blanks package ++ rest) := by
  have honwards : ∀ tail, renameOnwards package new (item indent blanks package ++ tail) =
      item indent blanks package ++ renameOnwards package new tail := fun tail =>
    renameOnwards_append (newline_not_mem_item hindent hblanks hpackage.1.newline_not_mem)
      fun hreturn => absurd hreturn (hpackage.1.getLast?_item indent blanks)
  have hafter : BlankFirst (renameOnwards package new rest) := blankFirst_renameOnwards hrest
  have hrenumbered : BlankFirst (form.renumber change rest) := by
    rwa [BlankFirst, head?_renumber]
  have hfront : form.Inert (item indent blanks package) rest :=
    inert_item hindent hblanks hpackage hrest
  have hedited : form.Inert (item indent blanks new) (renameOnwards package new rest) :=
    inert_item hindent hblanks hnew hafter
  obtain ⟨hoccursIn, hrenumber⟩ :=
    h.of_append honwards hfront (inert_item hindent hblanks hpackage hafter)
  constructor
  · rw [Rollout.renameLines_item hpackage.1 hindent hblanks hrest, hedited.occursIn_append,
      hfront.occursIn_append, hoccursIn]
  · rw [Rollout.renameLines_item hpackage.1 hindent hblanks hrest, hedited.renumber_append,
      hrenumber, hfront.renumber_append,
      Rollout.renameLines_item hpackage.1 hindent hblanks hrenumbered]

-- From the middle of a line on or from its start on, it is the same.
theorem Unmoved.renameLines (hpackage : IsPlainName package) (hnew : IsPlainName new)
    (h : form.Unmoved change (renameOnwards package new) text) :
    form.Unmoved change (Rollout.renameLines package new) text := by
  by_cases hnil : text = []
  · subst hnil
    exact ⟨rfl, by rw [renumber_nil]; exact renumber_nil⟩
  by_cases hfirst : DeclaresFirst package text
  · obtain ⟨indent, blanks, rest, rfl, hindent, hblanks, hrest⟩ := hfirst
    rw [← item_append] at h ⊢
    exact h.renameLines_item hpackage hnew hindent hblanks hrest
  · have hrenumbers := form.renumbers_renumber change text
    have hne : form.renumber change text ≠ [] := by
      intro hempty
      have hhead : (form.renumber change text).head? = text.head? := form.head?_renumber text
      rw [hempty] at hhead
      exact hnil (List.head?_eq_none_iff.mp hhead.symm)
    have hafter : ¬ DeclaresFirst package (form.renumber change text) :=
      mt (hrenumbers.declaresFirst (hpackage.mark_not_mem form)) hfirst
    constructor
    · rw [renameLines_of_not_declaresFirst hpackage.1 hnil hfirst, h.occursIn]
    · rw [renameLines_of_not_declaresFirst hpackage.1 hnil hfirst, h.renumber,
        renameLines_of_not_declaresFirst hpackage.1 hne hafter]

-- Renaming finds what a declaration declares, in the declaration it makes of it.
theorem StandsBefore.renameOnwards {taken digits after other : List Char}
    (h : form.StandsBefore taken digits after) (hpackage : IsWord package)
    (hother : Rollout.renameOnwards package new (taken ++ after) =
      other ++ Rollout.renameOnwards package new after) :
    form.StandsBefore other digits (Rollout.renameOnwards package new after) := by
  have hdeclared : form.declared? (other ++ Rollout.renameOnwards package new after) =
      some (digits, Rollout.renameOnwards package new after) := by
    obtain ⟨tail, rfl, -⟩ := h.spells.exists_tail
    have hstart : form.start ≠ '\n' ∧ form.start ≠ '\r' := by cases form <;> decide
    have hafter := h.declared?
    rw [List.cons_append] at hafter hother
    rw [← hother, renameOnwards_cons hstart.1 fun hreturn => absurd hreturn hstart.2,
      declared?_cons_renameOnwards hpackage, hafter]
    rfl
  obtain ⟨same, htext, hstands⟩ := declared?_eq_some_iff.mp hdeclared
  rwa [List.append_cancel_right htext]

theorem renameOnwards_render (form : CounterForm) (value : UInt64) (rest : List Char) :
    renameOnwards package new (form.render value ++ rest) =
      form.render value ++ renameOnwards package new rest := by
  refine renameOnwards_append (form.newline_not_mem_render value) fun hreturn => ?_
  have hlast := (form.spells_render value).last_not_blank '\r' hreturn
  cases hlast.symm.trans isBlank_return

theorem declared?_newline (form : CounterForm) (rest : List Char) :
    form.declared? ('\n' :: rest) = none :=
  declared?_cons_eq_none (form.ne_start_of_isBlank isBlank_newline)

theorem Unmoved.newline (h : form.Unmoved change (Rollout.renameLines package new) text) :
    form.Unmoved change (renameOnwards package new) ('\n' :: text) := by
  constructor
  · rw [renameOnwards, occursIn_cons (form.declared?_newline _), h.occursIn,
      occursIn_cons (form.declared?_newline _)]
  · rw [renameOnwards, renumber_cons (form.declared?_newline _), h.renumber,
      renumber_cons (form.declared?_newline _), renameOnwards]

-- A carriage return goes where it ends a line, and any other character stays.
theorem Unmoved.keep {c : Char} (hpackage : IsWord package) (hc : c ≠ '\n')
    (hnone : form.declared? (c :: text) = none)
    (h : form.Unmoved change (renameOnwards package new) text) :
    form.Unmoved change (renameOnwards package new) (c :: text) := by
  by_cases hreturn : c = '\r' ∧ text.head? = some '\n'
  · obtain ⟨rfl, hhead⟩ := hreturn
    obtain ⟨more, rfl⟩ := List.head?_eq_some_iff.mp hhead
    have hsame : ∀ tail, renameOnwards package new ('\r' :: '\n' :: tail) =
        renameOnwards package new ('\n' :: tail) := fun _ => rfl
    constructor
    · rw [hsame, h.occursIn, occursIn_cons hnone]
    · rw [hsame, h.renumber, renumber_cons hnone, renumber_cons (form.declared?_newline more),
        hsame]
  · have hkept : ∀ {tail : List Char}, tail.head? = text.head? →
        renameOnwards package new (c :: tail) = c :: renameOnwards package new tail := by
      intro tail hhead
      exact renameOnwards_cons hc fun hcr hline => hreturn ⟨hcr, hhead ▸ hline⟩
    have hedited : form.declared? (c :: renameOnwards package new text) = none := by
      rw [declared?_cons_renameOnwards hpackage, hnone]
      rfl
    constructor
    · rw [hkept rfl, occursIn_cons hedited, h.occursIn, occursIn_cons hnone]
    · rw [hkept rfl, renumber_cons hedited, h.renumber, renumber_cons hnone,
        hkept (form.head?_renumber text)]

theorem Unmoved.found {taken digits after : List Char} (hpackage : IsWord package)
    (hstands : form.StandsBefore taken digits after)
    (h : form.Unmoved change (renameOnwards package new) after) :
    form.Unmoved change (renameOnwards package new) (taken ++ after) := by
  obtain ⟨other, hother⟩ := hstands.spells.exists_renameOnwards hpackage new
  have hedited := hstands.renameOnwards hpackage (hother after)
  constructor
  · rw [hother, hedited.occursIn, hstands.occursIn]
  · rw [hother, renumber_append hedited, h.renumber, renumber_append hstands, rewrite, rewrite]
    split
    · rw [renameOnwards_render]
    · rw [hother]

theorem unmoved_renameOnwards (hpackage : IsPlainName package) (hnew : IsPlainName new)
    (form : CounterForm) (change : BuildNumber) (text : List Char) :
    form.Unmoved change (renameOnwards package new) text := by
  induction text using form.scan_induction with
  | nil =>
      constructor
      · rw [renameOnwards, occursIn_cons (form.declared?_newline [])]
      · rw [renameOnwards, renumber_cons (form.declared?_newline []), renumber_nil, renameOnwards]
  | keep c rest hnone ih =>
      by_cases hc : c = '\n'
      · subst hc
        exact (ih.renameLines hpackage hnew).newline
      · exact ih.keep hpackage.1 hc hnone
  | found taken digits after hstands ih => exact ih.found hpackage.1 hstands

end CounterForm

end Rollout
