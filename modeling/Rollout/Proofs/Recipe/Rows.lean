import Mathlib.Data.List.Forall2
import Rollout.Proofs.Recipe.Interplay
import Rollout.Proofs.Text.Row

namespace Rollout

namespace CounterForm

variable {form : CounterForm} {change : BuildNumber}
  {text front row back before taken digits after : List Char}

-- A declaration in a text that a change of the counter writes anew: its number is in range.
def RewritesAt (form : CounterForm) (text before taken : List Char) : Prop :=
  ∃ digits after, text = before ++ (taken ++ after) ∧ form.StandsBefore taken digits after ∧
    readDecimal digits < UInt64.size

-- No such declaration reaches across the end of `front`, or into a row behind it.
def WholeAt (form : CounterForm) (front back : List Char) : Prop :=
  ∀ before taken, form.RewritesAt (front ++ back) before taken →
    before ++ taken <+: front ∨ front <+: before

def Spares (form : CounterForm) (front row back : List Char) : Prop :=
  ∀ before taken, form.RewritesAt (front ++ (row ++ back)) before taken →
    before ++ taken <+: front ∨ front ++ row <+: before

-- Every declaration that is written anew stands on one line.
def OneLine (form : CounterForm) (text : List Char) : Prop :=
  ∀ before taken, form.RewritesAt text before taken → '\n' ∉ taken

theorem Spells.ne_nil (h : form.Spells taken digits) : taken ≠ [] := by
  obtain ⟨tail, rfl, -⟩ := h.exists_tail
  exact List.cons_ne_nil _ _

theorem Spells.not_ended (h : form.Spells taken digits) : ¬ Ended taken := by
  intro hended
  have hlast := List.getLast?_eq_some_getLast h.ne_nil
  have hblank := h.last_not_blank _ hlast
  rw [hended _ hlast] at hblank
  cases hblank.symm.trans isBlank_newline

-- Behind a line that has ended, a text can go on in any way.
theorem StandsBefore.append (h : form.StandsBefore taken digits after)
    (hended : Ended (taken ++ after)) (back : List Char) :
    form.StandsBefore taken digits (after ++ back) := by
  refine ⟨h.spells, fun hform => ?_⟩
  cases after with
  | nil => exact absurd (List.append_nil taken ▸ hended) h.spells.not_ended
  | cons c after => exact h.ends hform

theorem StandsBefore.of_append (h : form.StandsBefore taken digits (after ++ back)) :
    form.StandsBefore taken digits after := by
  refine ⟨h.spells, fun hform => ?_⟩
  cases after with
  | nil => simp
  | cons c after => exact h.ends hform

theorem RewritesAt.append_left (h : form.RewritesAt text before taken) (front : List Char) :
    form.RewritesAt (front ++ text) (front ++ before) taken := by
  obtain ⟨digits, after, rfl, hstands, hrange⟩ := h
  exact ⟨digits, after, (List.append_assoc _ _ _).symm, hstands, hrange⟩

theorem RewritesAt.append_right (h : form.RewritesAt text before taken) (hended : Ended text)
    (back : List Char) : form.RewritesAt (text ++ back) before taken := by
  obtain ⟨digits, after, rfl, hstands, hrange⟩ := h
  refine ⟨digits, after ++ back, by simp, ?_, hrange⟩
  exact hstands.append (ended_append_iff.mp hended).1 back

theorem RewritesAt.ne_nil (h : form.RewritesAt text before taken) : taken ≠ [] := by
  obtain ⟨digits, after, -, hstands, -⟩ := h
  exact hstands.spells.ne_nil

theorem WholeAt.of_append (skipped : List Char) (h : form.WholeAt (skipped ++ front) back) :
    form.WholeAt front back := by
  intro before taken hrewrites
  have hlonger := hrewrites.append_left skipped
  rw [← List.append_assoc] at hlonger
  have hcases := h _ _ hlonger
  rwa [List.append_assoc, List.prefix_append_right_inj, List.prefix_append_right_inj] at hcases

theorem inert_of_start_not_mem (h : form.start ∉ front) (rest : List Char) :
    form.Inert front rest := by
  rintro before inside rfl hne
  obtain ⟨c, inside, rfl⟩ := List.exists_cons_of_ne_nil hne
  refine declared?_cons_eq_none ?_
  rintro rfl
  exact h (List.mem_append_right _ List.mem_cons_self)

theorem declared?_append {found : List Char × List Char} (hfront : Ended front)
    (h : form.declared? front = some found) (back : List Char) :
    form.declared? (front ++ back) = some (found.1, found.2 ++ back) := by
  obtain ⟨taken, rfl, hstands⟩ := declared?_eq_some_iff.mp h
  rw [List.append_assoc]
  exact (hstands.append hfront back).declared?

theorem declared?_eq_none_of_append (hfront : Ended front)
    (h : form.declared? (front ++ back) = none) : form.declared? front = none := by
  cases hdeclared : form.declared? front with
  | none => rfl
  | some found => cases h.symm.trans (declared?_append hfront hdeclared back)

-- Cut at the end of a line, a declaration is none any more, and none begins in its parts.
theorem StandsBefore.declared?_part (h : form.StandsBefore (front ++ back) digits after)
    (hfront : Ended front) : form.declared? front = none := by
  cases hdeclared : form.declared? front with
  | none => rfl
  | some found =>
      have hwhole := h.declared?
      rw [List.append_assoc, declared?_append hfront hdeclared, Option.some.injEq, Prod.mk.injEq,
        ← List.append_assoc, List.append_left_eq_self, List.append_eq_nil_iff] at hwhole
      obtain ⟨-, -, rfl⟩ := hwhole
      rw [List.append_nil] at h
      exact absurd hfront h.spells.not_ended

theorem StandsBefore.inert_parts (h : form.StandsBefore (front ++ back) digits after)
    (hne : front ≠ []) (hfront : Ended front) : form.Inert front [] ∧ form.Inert back after := by
  have hwhole := h.declared?_part hfront
  obtain ⟨c, tail, rfl⟩ := List.exists_cons_of_ne_nil hne
  obtain ⟨-, hstart⟩ := Spells.start_not_mem_tail h.spells
  obtain ⟨htail, hback⟩ := not_or.mp (mt List.mem_append.mpr hstart)
  refine ⟨fun before inside hsplit hinside => ?_, inert_of_start_not_mem hback after⟩
  cases before with
  | nil => rwa [List.append_nil, ← List.nil_append inside, ← hsplit]
  | cons d before =>
      obtain ⟨-, hrest⟩ := List.cons.inj hsplit
      exact inert_of_start_not_mem htail [] before inside hrest hinside

theorem rewrite_of_not_lt (h : ¬ readDecimal digits < UInt64.size) :
    form.rewrite change taken digits = taken :=
  if_neg h

-- A declaration across the end of a line that is not written anew.
theorem renumber_append_of_out_of_range (h : form.StandsBefore (front ++ back) digits after)
    (hrange : ¬ readDecimal digits < UInt64.size) (hne : front ≠ []) (hfront : Ended front) :
    form.renumber change (front ++ back ++ after) =
      form.renumber change front ++ form.renumber change (back ++ after) := by
  obtain ⟨hinertFront, hinertBack⟩ := h.inert_parts hne hfront
  have hfrontSame : form.renumber change front = front := by
    have hsame : form.renumber change (front ++ []) = front ++ form.renumber change [] :=
      hinertFront.renumber_append
    rwa [List.append_nil, renumber_nil, List.append_nil] at hsame
  rw [renumber_append h, rewrite_of_not_lt hrange, hfrontSame, hinertBack.renumber_append,
    List.append_assoc]

theorem WholeAt.not_lt_of_straddles (h : form.WholeAt front (back ++ after))
    (hstands : form.StandsBefore (front ++ back) digits after) (hne : front ≠ [])
    (hfront : Ended front) : ¬ readDecimal digits < UInt64.size := by
  intro hrange
  obtain hends | hbegins := h [] (front ++ back) ⟨digits, after, by simp, hstands, hrange⟩
  · have hlength := hends.length_le
    rw [List.nil_append, List.length_append] at hlength
    obtain rfl : back = [] := List.length_eq_zero_iff.mp (by omega)
    rw [List.append_nil] at hstands
    exact hstands.spells.not_ended hfront
  · exact hne (List.prefix_nil.mp hbegins)

-- The two sides of the end of a line are renumbered each on its own, unless a declaration that is
-- written anew stands on both.
theorem renumber_append_of_wholeAt (hfront : Ended front) (h : form.WholeAt front back) :
    form.renumber change (front ++ back) =
      form.renumber change front ++ form.renumber change back := by
  generalize htext : front ++ back = text
  induction text using form.scan_induction generalizing front with
  | nil =>
      obtain ⟨rfl, rfl⟩ := List.append_eq_nil_iff.mp htext
      rw [renumber_nil]
      rfl
  | keep c rest hnone ih =>
      cases front with
      | nil => rw [renumber_nil, ← htext]; rfl
      | cons d front =>
          rw [List.cons_append] at htext
          obtain ⟨rfl, rfl⟩ := List.cons.inj htext
          rw [renumber_cons hnone, renumber_cons (declared?_eq_none_of_append hfront hnone),
            ih (ended_cons_iff.mp hfront).1 (h.of_append [d]) rfl, List.cons_append]
  | found taken digits after hstands ih =>
      by_cases hnil : front = []
      · rw [hnil, renumber_nil, ← htext, hnil]
        rfl
      obtain ⟨inside, htaken, hback⟩ | ⟨inside, hfrontSplit, hafter⟩ :=
        List.append_eq_append_iff.mp htext
      · subst htaken hback
        have hrange := h.not_lt_of_straddles hstands hnil hfront
        exact renumber_append_of_out_of_range hstands hrange hnil hfront
      · subst hfrontSplit hafter
        rw [renumber_append hstands, renumber_append hstands.of_append, List.append_assoc,
          ih (ended_append_iff.mp hfront).1 (h.of_append taken) rfl]

theorem Pieces.forall_rewritesAt_iff {pieces : List Piece} {p : List Char → Prop}
    (h : form.Pieces text pieces) :
    (∀ before taken, form.RewritesAt text before taken → p taken) ↔
      ∀ taken digits, .declared taken digits ∈ pieces → readDecimal digits < UInt64.size →
        p taken := by
  constructor
  · intro hall taken digits hm hrange
    obtain ⟨front, back, hsplit⟩ := List.append_of_mem hm
    obtain ⟨htext, hstands⟩ := (h.declared_iff _ _ _ _).mpr ⟨front, back, hsplit, rfl, rfl⟩
    exact hall _ taken ⟨digits, _, htext, hstands, hrange⟩
  · rintro hall before taken ⟨digits, after, htext, hstands, hrange⟩
    obtain ⟨front, back, rfl, -, -⟩ := (h.declared_iff _ _ _ _).mp ⟨htext, hstands⟩
    exact hall taken digits (by simp) hrange

theorem renumber_eq_self (h : ∀ before taken, ¬ form.RewritesAt text before taken) :
    form.renumber change text = text := by
  obtain ⟨pieces, hpieces, hrenumber⟩ := form.exists_pieces text
  have hkept : ∀ piece ∈ pieces, piece.changed form change = piece.text := by
    intro piece hm
    cases piece with
    | kept c => rfl
    | declared taken digits =>
        rw [Piece.changed_declared]
        exact rewrite_of_not_lt (hpieces.forall_rewritesAt_iff.mp h taken digits hm)
  rw [hrenumber change, List.flatMap_def, List.map_congr_left hkept, ← List.flatMap_def,
    ← hpieces.text_eq]

theorem Spares.not_rewritesAt (h : form.Spares front row back) (hrow : back = [] ∨ Ended row)
    (before taken : List Char) : ¬ form.RewritesAt row before taken := by
  intro hrewrites
  have hpos := List.length_pos_iff.mpr hrewrites.ne_nil
  have hlonger : form.RewritesAt (row ++ back) before taken := by
    obtain rfl | hended := hrow
    · rwa [List.append_nil]
    · exact hrewrites.append_right hended back
  obtain ⟨digits, after, rfl, -, -⟩ := hrewrites
  obtain hends | hbegins := h _ _ (hlonger.append_left front)
  · have hlength := hends.length_le
    simp only [List.length_append] at hlength
    omega
  · have hlength := hbegins.length_le
    simp only [List.length_append] at hlength
    omega

theorem Spares.wholeAt_front (h : form.Spares front row back) :
    form.WholeAt front (row ++ back) := fun before taken hrewrites =>
  (h before taken hrewrites).imp_right fun hbegins => (List.prefix_append front row).trans hbegins

theorem Spares.wholeAt_back (h : form.Spares front row back) : form.WholeAt row back := by
  intro before taken hrewrites
  have hcases := h _ _ (hrewrites.append_left front)
  rw [List.append_assoc, List.prefix_append_right_inj] at hcases
  refine hcases.imp_left fun hends => ?_
  have hnil : before ++ taken = [] :=
    List.prefix_nil.mp ((List.prefix_append_right_inj front).mp (by rwa [List.append_nil]))
  rw [hnil]
  exact List.nil_prefix

theorem renumber_eq_nil_iff : form.renumber change text = [] ↔ text = [] := by
  rw [← List.head?_eq_none_iff, head?_renumber, List.head?_eq_none_iff]

-- A declaration does not end in a newline, whatever its number.
theorem ended_renumber_iff (text : List Char) : Ended (form.renumber change text) ↔ Ended text := by
  induction text using form.scan_induction with
  | nil => rw [renumber_nil]
  | keep c rest hnone ih =>
      rw [renumber_cons hnone, ended_cons_iff, ended_cons_iff, ih, renumber_eq_nil_iff]
  | found taken digits after hstands ih =>
      have hbefore := hstands.spells.not_ended
      have hwritten := (hstands.spells.rewrite change).not_ended
      rw [renumber_append hstands, ended_append_iff, ended_append_iff, ih, renumber_eq_nil_iff]
      simp only [hbefore, hwritten]

-- A row that no declaration reaches into stays as it is, between what becomes of the rows before
-- it and behind it.
theorem rows_renumber_of_spares (hbetween : RowBetween text front row back)
    (h : form.Spares front row back) :
    rows (form.renumber change text) =
      rows (form.renumber change front) ++ row :: rows (form.renumber change back) := by
  have hrow : form.renumber change row = row :=
    renumber_eq_self (h.not_rewritesAt hbetween.row_ended)
  have hback : form.renumber change (row ++ back) = row ++ form.renumber change back := by
    obtain rfl | hended := hbetween.row_ended
    · rw [renumber_nil, List.append_nil, hrow]
    · rw [renumber_append_of_wholeAt hended h.wholeAt_back, hrow]
  refine RowBetween.rows_eq ⟨?_, (ended_renumber_iff front).mpr hbetween.front_ended, ?_,
    hbetween.rows_row⟩
  · rw [hbetween.text_eq, renumber_append_of_wholeAt hbetween.front_ended h.wholeAt_front, hback]
  · refine hbetween.row_ended.imp_left fun hnil => ?_
    rw [hnil, renumber_nil]

theorem count_newline_rewrite (form : CounterForm) (change : BuildNumber)
    (taken digits : List Char) :
    (form.rewrite change taken digits).count '\n' =
      if readDecimal digits < UInt64.size then 0 else taken.count '\n' := by
  rw [rewrite, apply_ite (List.count '\n'), List.count_eq_zero.mpr (form.newline_not_mem_render _)]

-- Newlines go with the declarations that hold them, and nowhere else.
theorem count_newline_changed (form : CounterForm) (change : BuildNumber) (pieces : List Piece) :
    (pieces.flatMap (Piece.changed form change)).count '\n' ≤
        (pieces.flatMap Piece.text).count '\n' ∧
      ((pieces.flatMap (Piece.changed form change)).count '\n' =
          (pieces.flatMap Piece.text).count '\n' ↔
        ∀ taken digits, .declared taken digits ∈ pieces → readDecimal digits < UInt64.size →
          '\n' ∉ taken) := by
  induction pieces with
  | nil => simp
  | cons piece pieces ih =>
      obtain ⟨hle, hiff⟩ := ih
      simp only [List.flatMap_cons, List.count_append]
      cases piece with
      | kept c =>
          simp only [Piece.changed, Piece.text, List.mem_cons, reduceCtorEq, false_or, ← hiff]
          omega
      | declared taken digits =>
          simp only [Piece.changed_declared, count_newline_rewrite, Piece.text, List.mem_cons,
            Piece.declared.injEq, or_imp, forall_and, ← hiff, and_imp, forall_eq_apply_imp_iff,
            forall_eq]
          by_cases hrange : readDecimal digits < UInt64.size
          · simp only [hrange, if_true, true_imp_iff, ← List.count_eq_zero]
            omega
          · simp only [hrange, if_false, false_imp_iff, true_and]
            omega

theorem length_rows_renumber (form : CounterForm) (change : BuildNumber) (text : List Char) :
    (rows (form.renumber change text)).length ≤ (rows text).length ∧
      ((rows (form.renumber change text)).length = (rows text).length ↔ form.OneLine text) := by
  obtain ⟨pieces, hpieces, hrenumber⟩ := form.exists_pieces text
  obtain ⟨hle, hiff⟩ := count_newline_changed form change pieces
  rw [← hrenumber change, ← hpieces.text_eq] at hle hiff
  simp only [OneLine, hpieces.forall_rewritesAt_iff, ← hiff, length_rows, ended_renumber_iff]
  omega

theorem OneLine.of_append (skipped : List Char) (h : form.OneLine (skipped ++ text)) :
    form.OneLine text := fun before taken hrewrites =>
  h (skipped ++ before) taken (hrewrites.append_left skipped)

-- What such a declaration has on this side of the end of a line would have the newline in it.
theorem OneLine.wholeAt (h : form.OneLine (front ++ back)) (hfront : Ended front) :
    form.WholeAt front back := by
  intro before taken hrewrites
  have htaken := h before taken hrewrites
  obtain ⟨digits, after, hsplit, -, -⟩ := hrewrites
  obtain ⟨between, rfl, -⟩ | ⟨inside, rfl, hrest⟩ := List.append_eq_append_iff.mp hsplit
  · exact .inr (List.prefix_append _ _)
  obtain ⟨between, rfl, -⟩ | ⟨across, rfl, -⟩ := List.append_eq_append_iff.mp hrest
  · exact .inl ⟨between, List.append_assoc _ _ _⟩
  · have hinside : '\n' ∉ inside := fun hm => htaken (List.mem_append_left _ hm)
    rw [(ended_append_iff.mp hfront).1.eq_nil hinside, List.append_nil]
    exact .inr (List.prefix_refl _)

theorem rows_renumber_row (h : rows row = [row]) :
    rows (form.renumber change row) = [form.renumber change row] := by
  have hlength := (length_rows_renumber form change row).1
  have hflatten := flatten_rows (form.renumber change row)
  rw [h] at hlength
  match hrows : rows (form.renumber change row) with
  | [] =>
      rw [hrows, eq_comm, List.flatten_nil, renumber_eq_nil_iff] at hflatten
      rw [hflatten] at h
      cases h
  | [written] =>
      rw [hrows, List.flatten_singleton] at hflatten
      rw [hflatten]
  | first :: second :: more =>
      rw [hrows] at hlength
      simp at hlength

theorem rows_renumber_of_oneLine (h : form.OneLine text) :
    rows (form.renumber change text) = (rows text).map (form.renumber change) := by
  induction text using lines_induction with
  | last text htext =>
      cases text with
      | nil => rw [renumber_nil]; rfl
      | cons c text =>
          have hsingle := rows_of_newline_free htext (List.cons_ne_nil _ _)
          rw [rows_renumber_row hsingle, hsingle, List.map_singleton]
  | ended line rest hline ih =>
      have hrow : rows (line ++ ['\n']) = [line ++ ['\n']] := rows_append_newline hline []
      have hended : Ended (form.renumber change (line ++ ['\n'])) :=
        (ended_renumber_iff _).mpr ended_append_newline
      rw [rows_append_newline hline, List.map_cons]
      rw [← List.singleton_append, ← List.append_assoc] at h ⊢
      rw [renumber_append_of_wholeAt ended_append_newline (h.wholeAt ended_append_newline),
        rows_append hended, rows_renumber_row hrow, ih (h.of_append _), List.singleton_append]

-- Looking at every place of a text for a declaration finds all that are written anew.
theorem forall_rewritesAt_iff {p : List Char → List Char → Prop} :
    (∀ before taken, form.RewritesAt text before taken → p before taken) ↔
      ∀ i ≤ text.length, ∀ found ∈ form.declared? (text.drop i),
        readDecimal found.1 < UInt64.size →
          p (text.take i) ((text.drop i).take ((text.drop i).length - found.2.length)) := by
  constructor
  · intro h i _ found hfound hrange
    obtain ⟨taken, htext, hstands⟩ := declared?_eq_some_iff.mp hfound
    have htaken : (text.drop i).take ((text.drop i).length - found.2.length) = taken := by
      rw [htext]
      simp
    rw [htaken]
    exact h _ _ ⟨found.1, found.2, by rw [← htext, List.take_append_drop], hstands, hrange⟩
  · rintro h before taken ⟨digits, after, rfl, hstands, hrange⟩
    have hdrop : (before ++ (taken ++ after)).drop before.length = taken ++ after := by simp
    have hfound := h before.length (by simp) (digits, after)
    rw [hdrop, hstands.declared?] at hfound
    simpa using hfound rfl hrange

instance (text : List Char) : Decidable (form.OneLine text) :=
  decidable_of_iff _ forall_rewritesAt_iff.symm

instance (front row back : List Char) : Decidable (form.Spares front row back) :=
  decidable_of_iff _ forall_rewritesAt_iff.symm

-- What becomes of the rows of a text when one form is renumbered. A row that no declaration
-- written anew reaches into stays, between what becomes of the rows before it and behind it.
structure KeepsRows (form : CounterForm) (change : BuildNumber) (text out : List Char) : Prop where
  length_le : (rows out).length ≤ (rows text).length
  length_eq_iff : (rows out).length = (rows text).length ↔ form.OneLine text
  kept : form.OneLine text →
    List.Forall₂ (fun row out => (∀ before taken, ¬ form.RewritesAt row before taken) → out = row)
      (rows text) (rows out)
  spared : ∀ front row back, rows text = front ++ row :: back →
    form.Spares front.flatten row back.flatten →
    rows out = rows (form.renumber change front.flatten) ++
      row :: rows (form.renumber change back.flatten)

theorem keepsRows_renumber (form : CounterForm) (change : BuildNumber) (text : List Char) :
    form.KeepsRows change text (form.renumber change text) := by
  obtain ⟨hle, hiff⟩ := form.length_rows_renumber change text
  refine ⟨hle, hiff, fun hone => ?_, fun front row back hrows hspares => ?_⟩
  · rw [rows_renumber_of_oneLine hone, List.forall₂_map_right_iff, List.forall₂_same]
    exact fun row _ => renumber_eq_self
  · exact rows_renumber_of_spares (rowBetween_of_rows_eq hrows) hspares

end CounterForm

-- A row that renaming leaves alone: as it is where a newline ends it, and with a newline where it
-- has none. A carriage return before the newline goes.
structure KeepsRow (row out : List Char) : Prop where
  plain : '\n' ∈ row → ¬ ['\r', '\n'] <:+ row → out = row
  unended : '\n' ∉ row → out = row ++ ['\n']
  returned : ∀ text, row = text ++ ['\r', '\n'] → out = text ++ ['\n']

theorem keepsRow_of_newline_free {row : List Char} (h : '\n' ∉ row) :
    KeepsRow row (content row ++ ['\n']) := by
  rw [content_of_newline_free h]
  refine ⟨fun hm => absurd hm h, fun _ => rfl, ?_⟩
  rintro text rfl
  exact absurd (by simp) h

theorem keepsRow_of_ended (line : List Char) :
    KeepsRow (line ++ ['\n']) (content (line ++ ['\n']) ++ ['\n']) := by
  rw [content_append_newline]
  refine ⟨fun _ hplain => ?_, fun hfree => absurd (by simp) hfree, fun text hsplit => ?_⟩
  · obtain hsame | hcut := dropReturn_cases line
    · rw [hsame]
    · refine absurd ⟨dropReturn line, ?_⟩ hplain
      rw [List.append_cons, ← hcut]
  · obtain rfl : line = text ++ ['\r'] :=
      List.append_cancel_right (hsplit.trans (List.append_cons text '\r' ['\n']))
    rw [dropReturn, List.getLast?_concat, if_pos rfl, List.dropLast_concat]

theorem keepsRow {text row : List Char} (h : row ∈ rows text) :
    KeepsRow row (content row ++ ['\n']) := by
  obtain hfree | ⟨line, rfl⟩ := row_cases h
  · exact keepsRow_of_newline_free hfree
  · exact keepsRow_of_ended line

theorem rows_renameDependency? {package new recipe renamed : String} (hnew : '\n' ∉ new.toList)
    (h : renameDependency? package new recipe = some renamed) :
    rows renamed.toList = (rows recipe.toList).map fun row =>
      renameLine package.toList new.toList (content row) ++ ['\n'] := by
  have hlines : ∀ line ∈ (lines recipe.toList).map (renameLine package.toList new.toList),
      '\n' ∉ line := by
    intro line hm
    obtain ⟨before, hbefore, rfl⟩ := List.mem_map.mp hm
    exact newline_not_mem_getD_renameLine? hnew (newline_not_mem_of_mem_lines hbefore)
  have hrenamed : renamed.toList =
      unlines ((lines recipe.toList).map (renameLine package.toList new.toList)) :=
    renameDependency?_eq_some h
  rw [hrenamed, rows_unlines hlines, lines_eq_map_content, List.map_map, List.map_map]
  rfl

-- Rewriting a recipe touches no row but those of the declarations. A change of the counter joins
-- rows where a declaration that it writes anew is spelled over several of them, and nowhere else.
-- Renaming a package keeps all rows apart.
theorem rewriting_keeps_other_rows (recipe : String) :
    (∀ change : BuildNumber,
      ((∀ form : CounterForm, ¬ form.Occurs recipe.toList) →
        updateCounter recipe change = recipe) ∧
      ∀ form : CounterForm, form.IsFirst recipe.toList →
        form.KeepsRows change recipe.toList (updateCounter recipe change).toList) ∧
    ∀ package new : String, '\n' ∉ new.toList →
      (renameDependency? package new recipe = none ↔
        ∀ row ∈ rows recipe.toList, ¬ Declares package.toList (content row)) ∧
      ∀ renamed, renameDependency? package new recipe = some renamed →
        List.Forall₂ (fun row out => ¬ Declares package.toList (content row) → KeepsRow row out)
          (rows recipe.toList) (rows renamed.toList) := by
  refine ⟨fun change => ⟨fun hnone => ?_, fun form hfirst => ?_⟩,
    fun package new hnew => ⟨?_, fun renamed hrenamed => ?_⟩⟩
  · rw [updateCounter, patchCounter?, (counterForm?_eq_none_iff _).mpr hnone]
    rfl
  · rw [updateCounter, patchCounter?, (counterForm?_eq_some_iff _ _).mpr hfirst, Option.map_some,
      Option.getD_some, String.toList_ofList]
    exact form.keepsRows_renumber change recipe.toList
  · rw [renameDependency?_eq_none_iff, lines_eq_map_content, List.forall_mem_map]
  · rw [rows_renameDependency? hnew hrenamed, List.forall₂_map_right_iff, List.forall₂_same]
    intro row hm hdeclares
    rw [renameLine_of_not_declares new.toList hdeclares]
    exact keepsRow hm

-- A recipe whose counter stands on the row behind its key and whose rows end in different ways, and
-- one with the counter on one row.
def scattered : String := "build:\n  number:\n    5\nhost:\r\n  - numpy >=1\n  - pip"

def compactRecipe : String := "build:\r\n  number:   5\r\nhost:\n  - pip"

theorem rewriting_keeps_scattered :
    rows (updateCounter scattered (.bump 1)).toList =
        ["build:\n", "  number: 6\n", "host:\r\n", "  - numpy >=1\n", "  - pip"].map
          String.toList ∧
      List.Forall₂ (fun row out => ¬ Declares "numpy".toList (content row) → KeepsRow row out)
        (rows scattered.toList)
        (rows "build:\n  number:\n    5\nhost:\n  - numpy-base >=1\n  - pip\n".toList) ∧
      List.Forall₂ (fun row out =>
          (∀ before taken, ¬ CounterForm.plainKey.RewritesAt row before taken) → out = row)
        (rows compactRecipe.toList)
        (rows "build:\r\n  number: 6\r\nhost:\n  - pip".toList) := by
  have hrows : rows scattered.toList =
      rows "build:\n  number:\n    5\n".toList ++ "host:\r\n".toList ::
        rows "  - numpy >=1\n  - pip".toList := by decide +kernel
  have hscattered := ((rewriting_keeps_other_rows scattered).1 (.bump 1)).2 .plainKey
    ((counterForm?_eq_some_iff _ _).mp (by decide +kernel))
  have hcompact := ((rewriting_keeps_other_rows compactRecipe).1 (.bump 1)).2 .plainKey
    ((counterForm?_eq_some_iff _ _).mp (by decide +kernel))
  have hupdated : updateCounter compactRecipe (.bump 1) =
      "build:\r\n  number: 6\r\nhost:\n  - pip" := by decide +kernel
  refine ⟨?_, ?_, ?_⟩
  · rw [hscattered.spared _ _ _ hrows (by decide +kernel)]
    decide +kernel
  · exact ((rewriting_keeps_other_rows scattered).2 "numpy" "numpy-base" (by decide)).2 _
      (by decide +kernel)
  · have hkept := hcompact.kept (by decide +kernel)
    rwa [hupdated] at hkept

-- The counter and its key come to stand on one row.
theorem updateCounter_joins_scattered :
    (rows (updateCounter scattered (.bump 1)).toList).length ≠ (rows scattered.toList).length := by
  decide +kernel

end Rollout
