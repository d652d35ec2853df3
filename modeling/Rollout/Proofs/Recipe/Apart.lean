import Rollout.Proofs.Recipe.Interplay

namespace Rollout

variable {package new other replacement : List Char}

theorem newline_not_mem_renameLine {line : List Char} (hnew : IsWord new) (hline : '\n' ∉ line) :
    '\n' ∉ renameLine package new line :=
  newline_not_mem_getD_renameLine? hnew.newline_not_mem hline

theorem renameLine_dropReturn (hpackage : IsWord package) (hnew : IsWord new) (line : List Char) :
    renameLine package new (dropReturn line) = dropReturn (renameLine package new line) := by
  by_cases hdeclares : Declares package line
  · obtain ⟨indent, blanks, rest, hreads⟩ := declares_iff.mp hdeclares
    have hline : line = item indent blanks package ++ rest :=
      hreads.line_eq.trans (item_append indent blanks package rest).symm
    have hcut : ReadsAs package (dropReturn line) indent blanks (dropReturn rest) := by
      refine ⟨?_, hreads.indent_blank, hreads.blanks_blank, hreads.rest_blank.dropReturn⟩
      rw [hline, dropReturn_append (hpackage.getLast?_item indent blanks), item_append]
    rw [renameLine_of_readsAs new hpackage hcut, renameLine_of_readsAs new hpackage hreads,
      ← item_append, ← item_append, dropReturn_append (hnew.getLast?_item indent blanks)]
  · rw [renameLine_of_not_declares new (mt Declares.of_dropReturn hdeclares),
      renameLine_of_not_declares new hdeclares]

theorem lines_renameLines (hnew : IsWord new) (text : List Char) :
    lines (renameLines package new text) =
      (lines text).map fun line => dropReturn (renameLine package new line) := by
  have hlines : ∀ line ∈ (lines text).map (renameLine package new), '\n' ∉ line := by
    intro line hm
    obtain ⟨before, hbefore, rfl⟩ := List.mem_map.mp hm
    exact newline_not_mem_renameLine hnew (newline_not_mem_of_mem_lines hbefore)
  rw [renameLines, lines_unlines hlines, List.map_map]
  rfl

theorem Declares.renameLine {line : List Char} (h : Declares package line)
    (hpackage : IsWord package) (new : List Char) :
    Declares new (Rollout.renameLine package new line) := by
  obtain ⟨indent, blanks, rest, hreads⟩ := declares_iff.mp h
  exact declares_iff.mpr ⟨indent, blanks, rest, renameLine_of_readsAs new hpackage hreads,
    hreads.indent_blank, hreads.blanks_blank, hreads.rest_blank⟩

-- An item is no item for another word, whatever its name is replaced by.
theorem declares_renameLine_iff (hpackage : IsWord package) (hother : IsWord other)
    (hreplacement : IsWord replacement) (hne : package ≠ other) (hnew : package ≠ replacement)
    (line : List Char) :
    Declares package (renameLine other replacement line) ↔ Declares package line := by
  by_cases hdeclares : Declares other line
  · have hbefore : ¬ Declares package line := fun h =>
      hne (h.eq_of_declares hpackage hother hdeclares)
    have hafter : ¬ Declares package (renameLine other replacement line) := fun h =>
      hnew (h.eq_of_declares hpackage hreplacement (hdeclares.renameLine hother replacement))
    exact iff_of_false hafter hbefore
  · rw [renameLine_of_not_declares replacement hdeclares]

theorem renameLine_comm_of_declares {line : List Char} (hpackage : IsWord package)
    (hnew : IsWord new) (hother : IsWord other) (hne : other ≠ package) (hnewNe : other ≠ new)
    (h : Declares package line) :
    renameLine package new (renameLine other replacement line) =
      renameLine other replacement (renameLine package new line) := by
  have hkept : ¬ Declares other line := fun hdeclares =>
    hne (hdeclares.eq_of_declares hother hpackage h)
  have hedited : ¬ Declares other (renameLine package new line) :=
    mt (declares_renameLine_iff hother hpackage hnew hne hnewNe line).mp hkept
  rw [renameLine_of_not_declares replacement hkept, renameLine_of_not_declares replacement hedited]

theorem renameLine_comm (hpackage : IsWord package) (hnew : IsWord new) (hother : IsWord other)
    (hreplacement : IsWord replacement) (hne : package ≠ other) (hnewNe : new ≠ other)
    (hreplacementNe : replacement ≠ package) (line : List Char) :
    renameLine package new (renameLine other replacement line) =
      renameLine other replacement (renameLine package new line) := by
  by_cases hdeclares : Declares package line
  · exact renameLine_comm_of_declares hpackage hnew hother hne.symm hnewNe.symm hdeclares
  by_cases hdeclaresOther : Declares other line
  · exact (renameLine_comm_of_declares hother hreplacement hpackage hne hreplacementNe.symm
      hdeclaresOther).symm
  · rw [renameLine_of_not_declares replacement hdeclaresOther,
      renameLine_of_not_declares new hdeclares, renameLine_of_not_declares replacement hdeclaresOther]

theorem renameLines_renameLines (hreplacement : IsWord replacement) (text : List Char) :
    renameLines package new (renameLines other replacement text) = unlines ((lines text).map
      fun line => renameLine package new (dropReturn (renameLine other replacement line))) := by
  rw [renameLines.eq_def package, lines_renameLines hreplacement, List.map_map]
  rfl

theorem renameLines_comm (hpackage : IsWord package) (hnew : IsWord new) (hother : IsWord other)
    (hreplacement : IsWord replacement) (hne : package ≠ other) (hnewNe : new ≠ other)
    (hreplacementNe : replacement ≠ package) (text : List Char) :
    renameLines package new (renameLines other replacement text) =
      renameLines other replacement (renameLines package new text) := by
  have hline : ∀ line, renameLine package new (dropReturn (renameLine other replacement line)) =
      renameLine other replacement (dropReturn (renameLine package new line)) := by
    intro line
    rw [renameLine_dropReturn hpackage hnew, renameLine_dropReturn hother hreplacement,
      renameLine_comm hpackage hnew hother hreplacement hne hnewNe hreplacementNe]
  simp only [renameLines_renameLines hreplacement, renameLines_renameLines hnew, hline]

theorem exists_declares_renameLines_iff (hpackage : IsWord package) (hother : IsWord other)
    (hreplacement : IsWord replacement) (hne : package ≠ other) (hnew : package ≠ replacement)
    (text : List Char) :
    (∃ line ∈ lines (renameLines other replacement text), Declares package line) ↔
      ∃ line ∈ lines text, Declares package line := by
  have hline : ∀ line, Declares package (dropReturn (renameLine other replacement line)) ↔
      Declares package line := fun line =>
    Iff.trans ⟨Declares.of_dropReturn, Declares.dropReturn hpackage⟩
      (declares_renameLine_iff hpackage hother hreplacement hne hnew line)
  simp [lines_renameLines hreplacement, hline]

-- A text with its counter changed in the first form that declares one.
def renumberFirst (change : BuildNumber) (text : List Char) : List Char :=
  match counterForm? text with
  | none => text
  | some form => form.renumber change text

theorem toList_updateCounter (recipe : String) (change : BuildNumber) :
    (updateCounter recipe change).toList = renumberFirst change recipe.toList := by
  rw [updateCounter, patchCounter?, renumberFirst]
  cases counterForm? recipe.toList with
  | none => rfl
  | some form => exact String.toList_ofList

theorem renumberFirst_renameLines (hpackage : IsPlainName package) (hnew : IsPlainName new)
    (change : BuildNumber) (text : List Char) :
    renumberFirst change (renameLines package new text) =
      renameLines package new (renumberFirst change text) := by
  have hunmoved : ∀ form : CounterForm, form.Unmoved change (renameLines package new) text :=
    fun form => (CounterForm.unmoved_renameOnwards hpackage hnew form change text).renameLines
      hpackage hnew
  have hform : counterForm? (renameLines package new text) = counterForm? text := by
    rw [counterForm?, counterForm?]
    exact congrArg (CounterForm.all.find? ·) (funext fun form => (hunmoved form).occursIn)
  rw [renumberFirst, renumberFirst, hform]
  cases counterForm? text with
  | none => rfl
  | some form => exact (hunmoved form).renumber

theorem renumberFirst_renumberFirst (second first : BuildNumber) (text : List Char) :
    renumberFirst second (renumberFirst first text) = renumberFirst (second.after first) text := by
  cases hform : counterForm? text with
  | none => simp only [renumberFirst, hform]
  | some form =>
      simp only [renumberFirst, hform, counterForm?_renumber hform first,
        CounterForm.renumber_renumber]

theorem renumberFirst_bump_comm (a b : UInt64) (text : List Char) :
    renumberFirst (.bump a) (renumberFirst (.bump b) text) =
      renumberFirst (.bump b) (renumberFirst (.bump a) text) := by
  rw [renumberFirst_renumberFirst, renumberFirst_renumberFirst, BuildNumber.after_bump_comm]

end Rollout
