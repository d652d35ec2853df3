import Rollout.Proofs.Recipe.Occurrence

namespace Rollout

-- Nothing is left, or one of `stops` comes next.
def Halts (stops text : List Char) : Prop := ∀ c ∈ text.head?, c ∈ stops

-- An edit of texts that a scanner does not notice before it comes to one of `stops`. Behind white
-- space it may have put one of them, where there was another before.
structure Transparent (stops : List Char) (edit : List Char → List Char) : Prop where
  cons : ∀ {c : Char} (text : List Char), c ∉ stops → edit (c :: text) = c :: edit text
  head : ∀ {c : Char} {text : List Char}, c ∉ stops → c ∈ (edit text).head? → c ∈ text.head?
  blanks : ∀ text, skipBlanks (edit text) = edit (skipBlanks text) ∨
    (Halts stops (skipBlanks text) ∧ Halts stops (skipBlanks (edit text)))

theorem afterWord?_cons_eq_none {w : Char} {word text : List Char} (h : w ∉ text.head?) :
    afterWord? (w :: word) text = none := by
  cases text with
  | nil => rfl
  | cons c text =>
      refine if_neg fun hw => h ?_
      rw [hw]
      rfl

theorem Halts.afterWord?_eq_none {stops word text : List Char} (h : Halts stops text)
    (hword : ∀ c ∈ word, c ∉ stops) (hne : word ≠ []) : afterWord? word text = none := by
  obtain ⟨w, word, rfl⟩ := List.exists_cons_of_ne_nil hne
  exact afterWord?_cons_eq_none fun hw => hword w List.mem_cons_self (h w hw)

theorem Halts.skipQuote_eq {stops text : List Char} (h : Halts stops text)
    (hquote : '"' ∉ stops) : skipQuote text = text := by
  refine skipQuote_eq_self fun c hc => ?_
  rintro rfl
  exact hquote (h _ hc)

theorem Halts.digitRun?_eq_none {stops text : List Char} (h : Halts stops text)
    (hstops : ∀ c ∈ stops, c.isDigit = false) : digitRun? text = none := by
  cases text with
  | nil => rfl
  | cons c text => simp [digitRun?, hstops c (h c rfl)]

namespace Transparent

variable {stops : List Char} {edit : List Char → List Char} (h : Transparent stops edit)
include h

theorem afterWord?_edit {word : List Char} (hword : ∀ c ∈ word, c ∉ stops) (text : List Char) :
    afterWord? word (edit text) = (afterWord? word text).map edit := by
  induction word generalizing text with
  | nil => rfl
  | cons w word ih =>
      obtain ⟨hw, hrest⟩ := List.forall_mem_cons.mp hword
      cases text with
      | nil =>
          exact afterWord?_cons_eq_none fun hhead => nomatch h.head hw hhead
      | cons c text =>
          by_cases hc : w = c
          · subst hc
            rw [h.cons text hw, afterWord?, afterWord?, if_pos rfl, if_pos rfl, ih hrest]
          · have hhead : w ∉ (c :: text).head? := fun hhead => hc (Option.some.inj hhead).symm
            rw [afterWord?_cons_eq_none hhead,
              afterWord?_cons_eq_none fun hedit => hhead (h.head hw hedit)]
            rfl

theorem span_edit {p : Char → Bool} (hp : ∀ c ∈ stops, p c = false) (text : List Char) :
    (edit text).takeWhile p = text.takeWhile p ∧
      (edit text).dropWhile p = edit (text.dropWhile p) := by
  have hstart : ∀ text, (∀ c ∈ text.head?, p c = false) → ∀ c ∈ (edit text).head?, p c = false := by
    intro text htext c hc
    by_cases hstop : c ∈ stops
    · exact hp c hstop
    · exact htext c (h.head hstop hc)
  have hstuck : ∀ {text : List Char}, (∀ c ∈ text.head?, p c = false) →
      text.takeWhile p = [] ∧ text.dropWhile p = text := by
    intro text htext
    cases text with
    | nil => exact ⟨rfl, rfl⟩
    | cons c text => simp [htext c rfl]
  induction text with
  | nil =>
      have hnil : ∀ c ∈ ([] : List Char).head?, p c = false := by simp
      exact hstuck (hstart [] hnil)
  | cons c text ih =>
      cases hc : p c with
      | true =>
          have hstop : c ∉ stops := fun hm => Bool.noConfusion (hc.symm.trans (hp c hm))
          rw [h.cons text hstop, List.takeWhile_cons_of_pos hc, List.takeWhile_cons_of_pos hc,
            List.dropWhile_cons_of_pos hc, List.dropWhile_cons_of_pos hc, ih.1, ih.2]
          exact ⟨rfl, rfl⟩
      | false =>
          have hhead : ∀ d ∈ (c :: text).head?, p d = false := by
            rintro d ⟨⟩
            exact hc
          obtain ⟨htake, hdrop⟩ := hstuck hhead
          rw [htake, hdrop]
          exact hstuck (hstart _ hhead)

theorem digitRun?_edit (hstops : ∀ c ∈ stops, c.isDigit = false) (text : List Char) :
    digitRun? (edit text) = (digitRun? text).map (Prod.map id edit) := by
  obtain ⟨htake, hdrop⟩ := h.span_edit hstops text
  rw [digitRun?, digitRun?, htake, hdrop]
  cases text.takeWhile Char.isDigit <;> rfl

theorem skipQuote_edit (hquote : '"' ∉ stops) (text : List Char) :
    skipQuote (edit text) = edit (skipQuote text) := by
  by_cases hhead : '"' ∈ text.head?
  · obtain ⟨rest, rfl⟩ := List.head?_eq_some_iff.mp hhead
    rw [h.cons rest hquote]
    rfl
  · rw [skipQuote_eq_self, skipQuote_eq_self]
    · rintro c hc rfl
      exact hhead hc
    · rintro c hc rfl
      exact hhead (h.head hquote hc)

theorem afterWord?_skipBlanks {word : List Char} (hword : ∀ c ∈ word, c ∉ stops)
    (hne : word ≠ []) (text : List Char) :
    afterWord? word (skipBlanks (edit text)) = (afterWord? word (skipBlanks text)).map edit := by
  obtain hsame | ⟨htext, hedit⟩ := h.blanks text
  · rw [hsame, h.afterWord?_edit hword]
  · rw [htext.afterWord?_eq_none hword hne, hedit.afterWord?_eq_none hword hne]
    rfl

theorem digitRun?_skipBlanks (hstops : ∀ c ∈ stops, c.isDigit = false) (text : List Char) :
    digitRun? (skipBlanks (edit text)) =
      (digitRun? (skipBlanks text)).map (Prod.map id edit) := by
  obtain hsame | ⟨htext, hedit⟩ := h.blanks text
  · rw [hsame, h.digitRun?_edit hstops]
  · rw [htext.digitRun?_eq_none hstops, hedit.digitRun?_eq_none hstops]
    rfl

theorem digitRun?_skipQuote (hquote : '"' ∉ stops) (hstops : ∀ c ∈ stops, c.isDigit = false)
    (text : List Char) :
    digitRun? (skipQuote (skipBlanks (edit text))) =
      (digitRun? (skipQuote (skipBlanks text))).map (Prod.map id edit) := by
  obtain hsame | ⟨htext, hedit⟩ := h.blanks text
  · rw [hsame, h.skipQuote_edit hquote, h.digitRun?_edit hstops]
  · rw [htext.skipQuote_eq hquote, hedit.skipQuote_eq hquote, htext.digitRun?_eq_none hstops,
      hedit.digitRun?_eq_none hstops]
    rfl

-- The scanner reads the same declaration behind its first character.
theorem declared?_start {form : CounterForm} (hbody : ∀ c ∈ form.body, c ∉ stops)
    (hstops : ∀ c ∈ stops, c.isDigit = false) (text : List Char) :
    form.declared? (form.start :: edit text) =
      (form.declared? (form.start :: text)).map (Prod.map id edit) := by
  by_cases hform : form = .plainKey
  · subst hform
    have hword : afterWord? "umber:".toList (edit text) =
        (afterWord? "umber:".toList text).map edit := h.afterWord?_edit hbody text
    have hopen : ∀ rest, afterWord? "number:".toList ('n' :: rest) =
        afterWord? "umber:".toList rest := fun rest => if_pos rfl
    simp only [CounterForm.declared?, CounterForm.start, bind, hopen, hword, Option.bind_map,
      Function.comp_def, h.digitRun?_skipBlanks hstops, Option.map_bind]
  · rw [CounterForm.body_of_templated hform] at hbody
    simp only [List.forall_mem_cons, List.forall_mem_append, List.not_mem_nil, false_imp_iff,
      implies_true, and_true] at hbody
    obtain ⟨hpercent, hsetting, hsign, hquote, -, hclose⟩ := hbody
    have hend : ∀ c ∈ ['%', '\x7d'], c ∉ stops :=
      List.forall_mem_cons.mpr ⟨hpercent, List.forall_mem_singleton.mpr hclose⟩
    have hname : form.setting ≠ [] := by
      cases form with
      | plainKey => exact absurd rfl hform
      | _ => decide
    have hopen : ∀ rest, afterWord? ['\x7b', '%'] ('\x7b' :: rest) = afterWord? ['%'] rest :=
      fun rest => if_pos rfl
    rw [CounterForm.start_of_templated hform, CounterForm.declared?.eq_2 form _ hform,
      CounterForm.declared?.eq_2 form _ hform]
    simp only [bind, pure, hopen, h.afterWord?_edit (List.forall_mem_singleton.mpr hpercent),
      h.afterWord?_skipBlanks hsetting hname,
      h.afterWord?_skipBlanks (List.forall_mem_singleton.mpr hsign) (List.cons_ne_nil _ _),
      h.digitRun?_skipQuote hquote hstops, h.skipQuote_edit hquote,
      h.afterWord?_skipBlanks hend (List.cons_ne_nil _ _), Option.bind_map, Option.map_bind, Function.comp_def,
      Option.map_some, Prod.map, id]

theorem declared?_cons {form : CounterForm} (hbody : ∀ c ∈ form.body, c ∉ stops)
    (hstops : ∀ c ∈ stops, c.isDigit = false) (c : Char) (text : List Char) :
    form.declared? (c :: edit text) = (form.declared? (c :: text)).map (Prod.map id edit) := by
  by_cases hc : c = form.start
  · rw [hc]
    exact h.declared?_start hbody hstops text
  · rw [CounterForm.declared?_cons_eq_none hc, CounterForm.declared?_cons_eq_none hc]
    rfl

end Transparent

end Rollout
