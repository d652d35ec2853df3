import Rollout.Proofs.Recipe.Transparent
import Rollout.Proofs.Text.Digits

namespace Rollout

namespace BuildNumber

-- The sum of two numbers, or the largest build number if that is less.
def saturatingAdd (a b : UInt64) : UInt64 := UInt64.ofNat (min (a.toNat + b.toNat) (UInt64.size - 1))

-- One change that does what `first` and then `second` do.
def after : (second first : BuildNumber) → BuildNumber
  | .exact value, _ => .exact value
  | .bump increment, .exact value => .exact (saturatingAdd value increment)
  | .bump increment, .bump before => .bump (saturatingAdd before increment)

theorem toNat_saturatingAdd (a b : UInt64) :
    (saturatingAdd a b).toNat = min (a.toNat + b.toNat) (UInt64.size - 1) := by
  rw [saturatingAdd, UInt64.toNat_ofNat_of_lt']
  have : 0 < UInt64.size := by decide
  omega

theorem apply_bump (increment old : UInt64) :
    (bump increment).apply old = saturatingAdd old increment := by
  apply UInt64.toNat_inj.mp
  rw [toNat_apply_bump, toNat_saturatingAdd]

theorem saturatingAdd_assoc (a b c : UInt64) :
    saturatingAdd (saturatingAdd a b) c = saturatingAdd a (saturatingAdd b c) := by
  apply UInt64.toNat_inj.mp
  simp only [toNat_saturatingAdd]
  omega

theorem saturatingAdd_comm (a b : UInt64) : saturatingAdd a b = saturatingAdd b a := by
  rw [saturatingAdd, saturatingAdd, Nat.add_comm]

theorem apply_after (second first : BuildNumber) (old : UInt64) :
    (second.after first).apply old = second.apply (first.apply old) := by
  cases second with
  | exact value => rfl
  | bump increment =>
      cases first with
      | exact value => exact (apply_bump increment value).symm
      | bump before => simp only [after, apply_bump, saturatingAdd_assoc]

-- Bumps can change places.
theorem after_bump_comm (a b : UInt64) : (bump a).after (bump b) = (bump b).after (bump a) := by
  rw [after, after, saturatingAdd_comm]

theorem after_exact (value : UInt64) (first : BuildNumber) :
    (exact value).after first = exact value := rfl

theorem after_bump_zero : (bump 0).after (bump 0) = bump 0 := by decide

end BuildNumber

namespace CounterForm

variable {form other : CounterForm} {change : BuildNumber} {taken digits after : List Char}

-- The digits of a declaration after a change.
def recount (change : BuildNumber) (digits : List Char) : List Char :=
  if readDecimal digits < UInt64.size then
    Nat.toDigits 10 (change.apply (UInt64.ofNat (readDecimal digits))).toNat
  else digits

theorem Spells.rewrite (h : form.Spells taken digits) (change : BuildNumber) :
    form.Spells (form.rewrite change taken digits) (recount change digits) := by
  rw [CounterForm.rewrite, recount]
  split
  · exact form.spells_render (change.apply (UInt64.ofNat (readDecimal digits)))
  · exact h

theorem Spells.exists_rewrite (h : form.Spells taken digits) (change : BuildNumber) :
    ∃ tail, form.rewrite change taken digits = form.start :: tail := by
  obtain ⟨tail, htail, -⟩ := (h.rewrite change).exists_tail
  exact ⟨tail, htail⟩

theorem head?_renumber (text : List Char) : (form.renumber change text).head? = text.head? := by
  induction text using form.scan_induction with
  | nil => rw [renumber_nil]
  | keep c rest hnone ih => rw [renumber_cons hnone, List.head?_cons, List.head?_cons]
  | found taken digits after hstands ih =>
      obtain ⟨tail, rfl, -⟩ := hstands.spells.exists_tail
      obtain ⟨written, hwritten⟩ := hstands.spells.exists_rewrite change
      rw [renumber_append hstands, hwritten]
      rfl

theorem StandsBefore.rewrite (h : form.StandsBefore taken digits after) (change : BuildNumber) :
    form.StandsBefore (form.rewrite change taken digits) (recount change digits)
      (form.renumber change after) := by
  refine ⟨h.spells.rewrite change, ?_⟩
  rw [head?_renumber]
  exact h.ends

theorem rewrite_rewrite (form : CounterForm) (second first : BuildNumber)
    (taken digits : List Char) :
    form.rewrite second (form.rewrite first taken digits) (recount first digits) =
      form.rewrite (second.after first) taken digits := by
  by_cases hrange : readDecimal digits < UInt64.size
  · have hvalue := (first.apply (UInt64.ofNat (readDecimal digits))).toNat_lt
    simp only [rewrite, recount, if_pos hrange, readDecimal_toDigits, BuildNumber.apply_after]
    rw [if_pos hvalue, UInt64.ofNat_toNat]
  · simp only [rewrite, recount, if_neg hrange]

theorem isBlank_start (form : CounterForm) : isBlank form.start = false := by
  cases form <;> decide

theorem ne_start_of_isBlank (form : CounterForm) {c : Char} (hc : isBlank c = true) :
    c ≠ form.start := by
  rintro rfl
  cases hc.symm.trans form.isBlank_start

theorem isDigit_start (form : CounterForm) : form.start.isDigit = false := by
  cases form <;> decide

-- Until a declaration begins a scanner reads the same.
theorem transparent_renumber (form : CounterForm) (change : BuildNumber) :
    Transparent [form.start] (form.renumber change) := by
  have hcons : ∀ {c : Char} (text : List Char), c ≠ form.start →
      form.renumber change (c :: text) = c :: form.renumber change text :=
    fun text hc => renumber_cons (declared?_cons_eq_none hc)
  refine ⟨fun text hc => hcons text (by simpa using hc), fun _ hhead => ?_, fun text => .inl ?_⟩
  · rwa [head?_renumber] at hhead
  · induction text with
    | nil => rw [renumber_nil]; exact renumber_nil.symm
    | cons c text ih =>
        cases hc : isBlank c with
        | true =>
            rw [hcons text (form.ne_start_of_isBlank hc), skipBlanks_cons hc, skipBlanks_cons hc, ih]
        | false =>
            obtain ⟨rest, hrest⟩ := List.head?_eq_some_iff.mp (form.head?_renumber (c :: text))
            rw [skipBlanks_cons_of_not_blank hc, hrest, skipBlanks_cons_of_not_blank hc]

-- Renumbering one form shows another neither more nor less behind a character that it keeps.
theorem declared?_cons_renumber (hbody : form.start ∉ other.body) (c : Char) (text : List Char) :
    other.declared? (c :: form.renumber change text) =
      (other.declared? (c :: text)).map (Prod.map id (form.renumber change)) := by
  refine (form.transparent_renumber change).declared?_cons (fun d hm hstop => ?_)
    (List.forall_mem_singleton.mpr form.isDigit_start) c text
  exact hbody (List.mem_singleton.mp hstop ▸ hm)

theorem start_not_mem_body (form : CounterForm) : form.start ∉ form.body := by
  cases form <;> decide

-- Two changes of the counter after another are one change.
theorem renumber_renumber (form : CounterForm) (second first : BuildNumber) (text : List Char) :
    form.renumber second (form.renumber first text) = form.renumber (second.after first) text := by
  induction text using form.scan_induction with
  | nil => simp only [renumber_nil]
  | keep c rest hnone ih =>
      have hagain : form.declared? (c :: form.renumber first rest) = none := by
        rw [declared?_cons_renumber form.start_not_mem_body, hnone]
        rfl
      rw [renumber_cons hnone, renumber_cons hagain, renumber_cons hnone, ih]
  | found taken digits after hstands ih =>
      rw [renumber_append hstands, renumber_append (hstands.rewrite first),
        renumber_append hstands, rewrite_rewrite, ih]

-- No declaration of the form begins in the front of a text.
def Inert (form : CounterForm) (front rest : List Char) : Prop :=
  ∀ before inside, front = before ++ inside → inside ≠ [] → form.declared? (inside ++ rest) = none

theorem Inert.of_cons {c : Char} {front rest : List Char} (h : form.Inert (c :: front) rest) :
    form.declared? (c :: (front ++ rest)) = none ∧ form.Inert front rest :=
  ⟨h [] (c :: front) rfl (List.cons_ne_nil _ _), fun before inside hfront hne =>
    h (c :: before) inside (congrArg (c :: ·) hfront) hne⟩

theorem Inert.occursIn_append {front rest : List Char} (h : form.Inert front rest) :
    form.occursIn (front ++ rest) = form.occursIn rest := by
  induction front with
  | nil => rfl
  | cons c front ih =>
      obtain ⟨hnone, hfront⟩ := h.of_cons
      rw [List.cons_append, occursIn_cons hnone, ih hfront]

theorem Inert.renumber_append {front rest : List Char} (h : form.Inert front rest) :
    form.renumber change (front ++ rest) = front ++ form.renumber change rest := by
  induction front with
  | nil => rfl
  | cons c front ih =>
      obtain ⟨hnone, hfront⟩ := h.of_cons
      rw [List.cons_append, renumber_cons hnone, ih hfront, List.cons_append]

theorem StandsBefore.occursIn (h : form.StandsBefore taken digits after) :
    form.occursIn (taken ++ after) = true :=
  (form.occursIn_iff _).mpr ⟨[], taken, digits, after, rfl, h⟩

theorem Spells.colon_not_mem (h : form.Spells taken digits) (hform : form ≠ .plainKey) :
    ':' ∉ taken := by
  have hletters : ':' ≠ form.start ∧ ':' ∉ form.body := by
    cases form with
    | plainKey => exact absurd rfl hform
    | _ => decide
  exact h.not_mem hletters.1 hletters.2 (by decide)

theorem Spells.getLast?_templated (h : form.Spells taken digits) (hform : form ≠ .plainKey) :
    taken.getLast? = some '\x7d' := by
  cases h with
  | plainKey => exact absurd rfl hform
  | templated => simp only [List.getLast?_append]; rfl

-- No key begins inside a template, which has no colon and does not end like the front of a key.
theorem Spells.inert_plainKey (h : form.Spells taken digits) (hform : form ≠ .plainKey)
    (rest : List Char) : CounterForm.plainKey.Inert taken rest := by
  rintro before inside rfl hne
  cases hdeclared : CounterForm.plainKey.declared? (inside ++ rest) with
  | none => rfl
  | some found =>
      obtain ⟨key, htext, hstands⟩ := declared?_eq_some_iff.mp hdeclared
      obtain ⟨value, rfl⟩ := hstands.spells.exists_mark
      have hbrace : '\x7d' ∈ inside := by
        have hlast := h.getLast?_templated hform
        rw [List.getLast?_append, List.getLast?_eq_some_getLast hne, Option.some_or,
          Option.some.injEq] at hlast
        exact hlast ▸ List.getLast_mem hne
      have hlead : '\x7d' ∉ CounterForm.plainKey.lead := by decide
      rw [List.append_assoc] at htext
      obtain ⟨middle, hkey, -⟩ | ⟨middle, rfl, hmark⟩ := List.append_eq_append_iff.mp htext
      · exact absurd (hkey ▸ List.mem_append_left _ hbrace) hlead
      · cases middle with
        | nil => exact absurd (by simpa using hbrace) hlead
        | cons c middle =>
            obtain ⟨rfl, -⟩ := List.cons.inj hmark
            exact absurd (by simp [mark]) (h.colon_not_mem hform)

-- Behind the shorter name comes white space or the sign, and never the rest of the longer one.
theorem afterWord?_longerName {blanks : List Char} (hblanks : ∀ c ∈ blanks, isBlank c = true)
    (rest : List Char) :
    afterWord? buildNumberVariable.setting (buildVariable.setting ++ (blanks ++ (['='] ++ rest))) =
      none := by
  cases hafter : afterWord? buildNumberVariable.setting
      (buildVariable.setting ++ (blanks ++ (['='] ++ rest))) with
  | none => rfl
  | some found =>
      have hword := afterWord?_eq_some_iff.mp hafter
      have hnumber : blanks ++ (['='] ++ rest) = "_number".toList ++ found :=
        List.append_cancel_left hword
      cases blanks with
      | nil => exact absurd (List.cons.inj hnumber).1 (by decide)
      | cons c blanks =>
          have hc := hblanks c List.mem_cons_self
          rw [(List.cons.inj hnumber).1] at hc
          exact absurd hc (by decide)

theorem Spells.inert_buildNumberVariable (h : CounterForm.buildVariable.Spells taken digits)
    (rest : List Char) : CounterForm.buildNumberVariable.Inert taken rest := by
  have hfront : CounterForm.buildNumberVariable.declared? (taken ++ rest) = none := by
    cases h with
    | @templated _ first second third fourth opening closing _ hform hfirst hsecond hthird hfourth
        hopening hclosing hdigits =>
        rw [declared?.eq_2 _ _ (by decide)]
        simp only [bind, List.append_assoc, afterWord?_append, Option.bind_some,
          skipBlanks_append hfirst (setting_head?_not_blank hform _),
          afterWord?_longerName hsecond, Option.bind_none]
  rintro before inside rfl hne
  obtain ⟨c, inside, rfl⟩ := List.exists_cons_of_ne_nil hne
  by_cases hc : c = CounterForm.buildVariable.start
  · cases before with
    | nil => exact hfront
    | cons d before =>
        exact absurd (List.mem_append_right _ (hc ▸ List.mem_cons_self))
          h.start_not_mem_tail.2
  · exact declared?_cons_eq_none hc

theorem earlier_cases {earlier later : List CounterForm}
    (hall : all = earlier ++ form :: later) (hother : other ∈ earlier) :
    form ≠ .plainKey ∧ (other = .plainKey ∨
      form = .buildVariable ∧ other = .buildNumberVariable) := by
  match earlier with
  | [] => cases hother
  | [first] =>
      obtain ⟨rfl, rfl, -⟩ : plainKey = first ∧ buildNumberVariable = form ∧
        [buildVariable] = later := by simpa [all] using hall
      exact ⟨by decide, .inl (List.mem_singleton.mp hother)⟩
  | [first, second] =>
      obtain ⟨rfl, rfl, rfl, -⟩ : plainKey = first ∧ buildNumberVariable = second ∧
        buildVariable = form ∧ [] = later := by simpa [all] using hall
      refine ⟨by decide, ?_⟩
      obtain rfl | hsecond := List.mem_cons.mp hother
      · exact .inl rfl
      · exact .inr ⟨rfl, List.mem_singleton.mp hsecond⟩
  | first :: second :: third :: more => simp [all] at hall

-- A form that is looked for before another is not declared inside it.
theorem Spells.inert_earlier {earlier later : List CounterForm}
    (hall : CounterForm.all = earlier ++ form :: later) (hother : other ∈ earlier)
    (h : form.Spells taken digits) (rest : List Char) : other.Inert taken rest := by
  obtain ⟨hform, rfl | ⟨rfl, rfl⟩⟩ := earlier_cases hall hother
  · exact h.inert_plainKey hform rest
  · exact h.inert_buildNumberVariable rest

theorem occursIn_renumber_self (form : CounterForm) (change : BuildNumber) (text : List Char) :
    form.occursIn (form.renumber change text) = form.occursIn text := by
  induction text using form.scan_induction with
  | nil => rw [renumber_nil]
  | keep c rest hnone ih =>
      rw [renumber_cons hnone, occursIn, occursIn, ih,
        declared?_cons_renumber form.start_not_mem_body, Option.isSome_map]
  | found taken digits after hstands ih =>
      rw [renumber_append hstands, (hstands.rewrite change).occursIn, hstands.occursIn]

theorem occursIn_renumber_earlier {earlier later : List CounterForm}
    (hall : all = earlier ++ form :: later) (hother : other ∈ earlier) (change : BuildNumber)
    (text : List Char) : other.occursIn (form.renumber change text) = other.occursIn text := by
  have hbody : form.start ∉ other.body := by
    obtain ⟨hform, -⟩ := earlier_cases hall hother
    rw [start_of_templated hform]
    cases other <;> decide
  induction text using form.scan_induction with
  | nil => rw [renumber_nil]
  | keep c rest hnone ih =>
      rw [renumber_cons hnone, occursIn, occursIn, ih, declared?_cons_renumber hbody,
        Option.isSome_map]
  | found taken digits after hstands ih =>
      have hbefore := hstands.spells.inert_earlier hall hother after
      have hafter := (hstands.rewrite change).spells.inert_earlier hall hother
        (form.renumber change after)
      rw [renumber_append hstands, hafter.occursIn_append, hbefore.occursIn_append, ih]

-- The form that is renumbered is still the first.
theorem IsFirst.renumber {text : List Char} (h : form.IsFirst text) (change : BuildNumber) :
    form.IsFirst (form.renumber change text) := by
  obtain ⟨hoccurs, earlier, later, hall, hearlier⟩ := h
  simp only [← occursIn_iff] at hoccurs hearlier
  refine ⟨?_, earlier, later, hall, fun other hother => ?_⟩
  · rwa [← occursIn_iff, occursIn_renumber_self]
  · rw [← occursIn_iff, occursIn_renumber_earlier hall hother]
    exact hearlier other hother

end CounterForm

theorem counterForm?_renumber {text : List Char} {form : CounterForm}
    (h : counterForm? text = some form) (change : BuildNumber) :
    counterForm? (form.renumber change text) = some form :=
  (counterForm?_eq_some_iff _ _).mpr (((counterForm?_eq_some_iff _ _).mp h).renumber change)

theorem patchCounter?_eq_some_iff {recipe patched : String} {change : BuildNumber} :
    patchCounter? recipe change = some patched ↔
      ∃ form : CounterForm, counterForm? recipe.toList = some form ∧
        patched.toList = form.renumber change recipe.toList := by
  rw [patchCounter?, Option.map_eq_some_iff]
  constructor
  · rintro ⟨form, hform, rfl⟩
    exact ⟨form, hform, String.toList_ofList⟩
  · rintro ⟨form, hform, hpatched⟩
    exact ⟨form, hform, by rw [← hpatched, String.ofList_toList]⟩

theorem patchCounter?_patched {recipe patched : String} {first : BuildNumber}
    (h : patchCounter? recipe first = some patched) (second : BuildNumber) :
    patchCounter? patched second = patchCounter? recipe (second.after first) ∧
      counterForm? patched.toList = counterForm? recipe.toList := by
  obtain ⟨form, hform, hpatched⟩ := patchCounter?_eq_some_iff.mp h
  have hagain : counterForm? patched.toList = some form :=
    hpatched ▸ counterForm?_renumber hform first
  refine ⟨?_, hagain.trans hform.symm⟩
  rw [patchCounter?, patchCounter?, hagain, hform, Option.map_some, Option.map_some, hpatched,
    CounterForm.renumber_renumber]

-- Changing the counter twice is changing it once, in the form that was changed first. So bumping
-- it by nothing and setting it need not be done again.
theorem patchCounter?_compose (recipe : String) (first second : BuildNumber) :
    (patchCounter? recipe first = none ↔ patchCounter? recipe second = none) ∧
    (∀ patched, patchCounter? recipe first = some patched →
      patchCounter? patched second = patchCounter? recipe (second.after first) ∧
      counterForm? patched.toList = counterForm? recipe.toList) ∧
    (∀ patched, patchCounter? recipe (.bump 0) = some patched →
      patchCounter? patched (.bump 0) = some patched) ∧
    ∀ value patched, patchCounter? recipe (.exact value) = some patched →
      patchCounter? patched (.exact value) = some patched := by
  refine ⟨?_, fun patched h => patchCounter?_patched h second, fun patched h => ?_,
    fun value patched h => ?_⟩
  · rw [patchCounter?, patchCounter?, Option.map_eq_none_iff, Option.map_eq_none_iff]
  · rw [(patchCounter?_patched h (.bump 0)).1, BuildNumber.after_bump_zero, h]
  · rw [(patchCounter?_patched h (.exact value)).1, BuildNumber.after_exact, h]

-- A bump that the largest number stops, after another.
theorem patchCounter?_compose_overlong :
    patchCounter? overlong (.bump 1) = some
        "\x7b% set build = 2 %\x7d\nbuild:\n  number: 5\n  number: 18446744073709551616\n" ∧
      patchCounter?
        "\x7b% set build = 2 %\x7d\nbuild:\n  number: 5\n  number: 18446744073709551616\n"
        (.bump BuildNumber.largest) = patchCounter? overlong (.bump BuildNumber.largest) := by
  have hfirst : patchCounter? overlong (.bump 1) = some
      "\x7b% set build = 2 %\x7d\nbuild:\n  number: 5\n  number: 18446744073709551616\n" := by
    decide +kernel
  have hafter : (BuildNumber.bump BuildNumber.largest).after (.bump 1) =
      .bump BuildNumber.largest := by decide
  have hsecond := ((patchCounter?_compose overlong (.bump 1) (.bump BuildNumber.largest)).2.1 _
    hfirst).1
  rw [hafter] at hsecond
  exact ⟨hfirst, hsecond⟩

end Rollout
