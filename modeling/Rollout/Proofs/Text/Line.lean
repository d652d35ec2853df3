import Rollout.Text.Line

namespace Rollout

-- A line without the carriage return at its end.
def dropReturn (line : List Char) : List Char :=
  if line.getLast? = some '\r' then line.dropLast else line

theorem dropReturn_cases (line : List Char) :
    dropReturn line = line ∨ line = dropReturn line ++ ['\r'] := by
  rw [dropReturn]
  split
  · rename_i hlast
    obtain ⟨before, rfl⟩ := List.getLast?_eq_some_iff.mp hlast
    exact .inr (by simp)
  · exact .inl rfl

theorem dropReturn_cons {c : Char} {line : List Char} (h : c = '\r' → line ≠ []) :
    dropReturn (c :: line) = c :: dropReturn line := by
  cases line with
  | nil => simpa [dropReturn] using h
  | cons next rest =>
      simp only [dropReturn, List.getLast?_cons_cons, List.dropLast_cons_cons]
      split <;> rfl

theorem lines_cons {c : Char} {rest : List Char} (hnewline : c ≠ '\n')
    (hreturn : c = '\r' → rest.head? ≠ some '\n') :
    lines (c :: rest) =
      match lines rest with
      | [] => [[c]]
      | line :: more => (c :: line) :: more := by
  refine lines.eq_4 c rest ?_ hnewline
  rintro after rfl rfl
  exact hreturn rfl rfl

theorem lines_append_newline {line : List Char} (h : '\n' ∉ line) (rest : List Char) :
    lines (line ++ '\n' :: rest) = dropReturn line :: lines rest := by
  induction line with
  | nil => rfl
  | cons c line ih =>
      obtain ⟨hc, hline⟩ := not_or.mp (mt List.mem_cons.mpr h)
      by_cases hreturn : c = '\r' ∧ line = []
      · obtain ⟨rfl, rfl⟩ := hreturn
        rfl
      · have hnext : c = '\r' → line ≠ [] := fun hcr hnil => hreturn ⟨hcr, hnil⟩
        have hhead : c = '\r' → (line ++ '\n' :: rest).head? ≠ some '\n' := by
          intro hcr
          obtain ⟨next, others, rfl⟩ := List.exists_cons_of_ne_nil (hnext hcr)
          simp only [List.cons_append, List.head?_cons, ne_eq, Option.some.injEq]
          exact fun hnext => hline (hnext ▸ List.mem_cons_self)
        rw [List.cons_append, lines_cons (Ne.symm hc) hhead, ih hline, dropReturn_cons hnext]

theorem lines_of_newline_free {line : List Char} (h : '\n' ∉ line) (hne : line ≠ []) :
    lines line = [line] := by
  induction line with
  | nil => exact absurd rfl hne
  | cons c line ih =>
      obtain ⟨hc, hline⟩ := not_or.mp (mt List.mem_cons.mpr h)
      have hhead : c = '\r' → line.head? ≠ some '\n' :=
        fun _ hhead => hline (List.mem_of_mem_head? hhead)
      rw [lines_cons (Ne.symm hc) hhead]
      cases line with
      | nil => rfl
      | cons next rest => rw [ih hline (List.cons_ne_nil _ _)]

-- A text either has no newline, or begins with a line that one ends.
theorem exists_first_line {text : List Char} (h : '\n' ∈ text) :
    ∃ line rest, '\n' ∉ line ∧ text = line ++ '\n' :: rest := by
  obtain ⟨line, rest, rfl, hline⟩ := List.eq_append_cons_of_mem h
  exact ⟨line, rest, hline, rfl⟩

-- Induction along the lines of a text.
theorem lines_induction {motive : List Char → Prop}
    (last : ∀ line, '\n' ∉ line → motive line)
    (ended : ∀ line rest, '\n' ∉ line → motive rest → motive (line ++ '\n' :: rest))
    (text : List Char) : motive text := by
  by_cases h : '\n' ∈ text
  · obtain ⟨line, rest, hline, htext⟩ := exists_first_line h
    have hlength : rest.length < text.length := by
      rw [htext, List.length_append, List.length_cons]
      omega
    rw [htext]
    exact ended line rest hline (lines_induction last ended rest)
  · exact last text h
termination_by text.length

theorem newline_not_mem_of_mem_lines {text line : List Char} (h : line ∈ lines text) :
    '\n' ∉ line := by
  induction text using lines_induction with
  | last text htext =>
      cases text with
      | nil => cases h
      | cons c text =>
          rw [lines_of_newline_free htext (List.cons_ne_nil _ _), List.mem_singleton] at h
          exact h ▸ htext
  | ended first rest hfirst ih =>
      rw [lines_append_newline hfirst] at h
      obtain rfl | hrest := List.mem_cons.mp h
      · obtain hsame | hcut := dropReturn_cases first
        · rwa [hsame]
        · exact fun hm => hfirst (hcut ▸ List.mem_append_left _ hm)
      · exact ih hrest

theorem lines_unlines {all : List (List Char)} (h : ∀ line ∈ all, '\n' ∉ line) :
    lines (unlines all) = all.map dropReturn := by
  induction all with
  | nil => rfl
  | cons line rest ih =>
      obtain ⟨hline, hrest⟩ := List.forall_mem_cons.mp h
      rw [unlines, lines_append_newline hline, ih hrest, List.map_cons]

end Rollout
