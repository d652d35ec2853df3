import Rollout.Proofs.Text.Line

namespace Rollout

-- The rows of a text are its lines, each with the newline that ends it. The last one may have none.
def rows : List Char → List (List Char)
  | [] => []
  | '\n' :: rest => ['\n'] :: rows rest
  | c :: rest =>
    match rows rest with
    | [] => [[c]]
    | row :: more => (c :: row) :: more

-- What a row has in front of the end of its line.
def content (row : List Char) : List Char :=
  if row.getLast? = some '\n' then dropReturn row.dropLast else row

-- No line of the text is left open.
def Ended (text : List Char) : Prop := ∀ c ∈ text.getLast?, c = '\n'

theorem ended_iff_all (text : List Char) : text.getLast?.all (· == '\n') = true ↔ Ended text := by
  simp [Ended, Option.all_eq_true]

instance (text : List Char) : Decidable (Ended text) := decidable_of_iff _ (ended_iff_all text)

section Ended

variable {c : Char} {front line rest : List Char}

theorem ended_nil : Ended [] := by simp [Ended]

theorem ended_append_iff : Ended (front ++ rest) ↔ Ended rest ∧ (rest = [] → Ended front) := by
  cases rest with
  | nil => simp [Ended]
  | cons c rest => simp [Ended, List.getLast?_append, List.getLast?_cons]

theorem ended_cons_iff : Ended (c :: rest) ↔ Ended rest ∧ (rest = [] → c = '\n') := by
  have hsingle : Ended [c] ↔ c = '\n' := by simp [Ended]
  rw [← List.singleton_append, ended_append_iff, hsingle]

theorem ended_append_newline : Ended (line ++ ['\n']) :=
  ended_append_iff.mpr ⟨by simp [Ended], by simp⟩

theorem Ended.eq_nil (h : Ended line) (hline : '\n' ∉ line) : line = [] := by
  cases hlast : line.getLast? with
  | none => exact List.getLast?_eq_none_iff.mp hlast
  | some c =>
      obtain rfl := h c hlast
      exact absurd (List.mem_of_getLast? hlast) hline

end Ended

theorem rows_cons {c : Char} (hc : c ≠ '\n') (rest : List Char) :
    rows (c :: rest) =
      match rows rest with
      | [] => [[c]]
      | row :: more => (c :: row) :: more :=
  rows.eq_3 c rest hc

theorem rows_append_newline {line : List Char} (h : '\n' ∉ line) (rest : List Char) :
    rows (line ++ '\n' :: rest) = (line ++ ['\n']) :: rows rest := by
  induction line with
  | nil => rfl
  | cons c line ih =>
      obtain ⟨hc, hline⟩ := not_or.mp (mt List.mem_cons.mpr h)
      rw [List.cons_append, rows_cons (Ne.symm hc), ih hline, List.cons_append]

theorem rows_of_newline_free {line : List Char} (h : '\n' ∉ line) (hne : line ≠ []) :
    rows line = [line] := by
  induction line with
  | nil => exact absurd rfl hne
  | cons c line ih =>
      obtain ⟨hc, hline⟩ := not_or.mp (mt List.mem_cons.mpr h)
      rw [rows_cons (Ne.symm hc)]
      cases line with
      | nil => rfl
      | cons next rest => rw [ih hline (List.cons_ne_nil _ _)]

theorem content_append_newline (line : List Char) : content (line ++ ['\n']) = dropReturn line := by
  rw [content, List.getLast?_concat, if_pos rfl, List.dropLast_concat]

theorem content_of_newline_free {line : List Char} (h : '\n' ∉ line) : content line = line :=
  if_neg fun hlast => h (List.mem_of_getLast? hlast)

-- Rows and lines are the same in number, and a line is a row without its end.
theorem lines_eq_map_content (text : List Char) : lines text = (rows text).map content := by
  induction text using lines_induction with
  | last text htext =>
      cases text with
      | nil => rfl
      | cons c text =>
          rw [lines_of_newline_free htext (List.cons_ne_nil _ _),
            rows_of_newline_free htext (List.cons_ne_nil _ _), List.map_singleton,
            content_of_newline_free htext]
  | ended line rest hline ih =>
      rw [lines_append_newline hline, rows_append_newline hline, List.map_cons,
        content_append_newline, ih]

theorem flatten_rows (text : List Char) : (rows text).flatten = text := by
  induction text using lines_induction with
  | last text htext =>
      cases text with
      | nil => rfl
      | cons c text =>
          rw [rows_of_newline_free htext (List.cons_ne_nil _ _)]
          exact List.append_nil _
  | ended line rest hline ih =>
      rw [rows_append_newline hline, List.flatten_cons, ih, List.append_assoc]
      rfl

theorem row_cases {text row : List Char} (h : row ∈ rows text) :
    '\n' ∉ row ∨ ∃ line, row = line ++ ['\n'] := by
  induction text using lines_induction with
  | last text htext =>
      cases text with
      | nil => cases h
      | cons c text =>
          rw [rows_of_newline_free htext (List.cons_ne_nil _ _), List.mem_singleton] at h
          exact .inl (h ▸ htext)
  | ended line rest hline ih =>
      rw [rows_append_newline hline] at h
      obtain rfl | hrest := List.mem_cons.mp h
      · exact .inr ⟨line, rfl⟩
      · exact ih hrest

theorem rows_append {front : List Char} (h : Ended front) (rest : List Char) :
    rows (front ++ rest) = rows front ++ rows rest := by
  induction front using lines_induction with
  | last front hfront =>
      rw [h.eq_nil hfront]
      rfl
  | ended line front hline ih =>
      have hfront : Ended front := (ended_cons_iff.mp (ended_append_iff.mp h).1).1
      rw [List.append_assoc, List.cons_append, rows_append_newline hline,
        rows_append_newline hline, ih hfront, List.cons_append]

theorem length_rows (text : List Char) :
    (rows text).length = text.count '\n' + if Ended text then 0 else 1 := by
  induction text using lines_induction with
  | last text htext =>
      cases text with
      | nil => rfl
      | cons c text =>
          have hopen : ¬ Ended (c :: text) := fun h => List.cons_ne_nil _ _ (h.eq_nil htext)
          rw [rows_of_newline_free htext (List.cons_ne_nil _ _), List.count_eq_zero.mpr htext,
            if_neg hopen]
          rfl
  | ended line rest hline ih =>
      have hended : Ended (line ++ '\n' :: rest) ↔ Ended rest := by
        simp [ended_append_iff, ended_cons_iff]
      simp only [rows_append_newline hline, List.length_cons, ih, List.count_append,
        List.count_cons_self, List.count_eq_zero.mpr hline, hended]
      omega

-- One row of a text between the rows before and behind it.
structure RowBetween (text front row back : List Char) : Prop where
  text_eq : text = front ++ (row ++ back)
  front_ended : Ended front
  row_ended : back = [] ∨ Ended row
  rows_row : rows row = [row]

theorem RowBetween.rows_eq {text front row back : List Char} (h : RowBetween text front row back) :
    rows text = rows front ++ row :: rows back := by
  have hrow : rows (row ++ back) = row :: rows back := by
    obtain rfl | hended := h.row_ended
    · rw [List.append_nil, h.rows_row]
      rfl
    · rw [rows_append hended, h.rows_row]
      rfl
  rw [h.text_eq, rows_append h.front_ended, hrow]

theorem rowBetween_of_rows_eq {text row : List Char} {front back : List (List Char)}
    (h : rows text = front ++ row :: back) :
    RowBetween text front.flatten row back.flatten := by
  induction text using lines_induction generalizing front with
  | last text htext =>
      cases text with
      | nil => simp [rows] at h
      | cons c text =>
          have hsingle := rows_of_newline_free htext (List.cons_ne_nil _ _)
          obtain ⟨rfl, hrow⟩ | ⟨-, hnil⟩ := List.singleton_eq_append_iff.mp (hsingle.symm.trans h)
          · obtain ⟨rfl, rfl⟩ := List.cons.inj hrow
            exact ⟨(List.append_nil _).symm, ended_nil, .inl rfl, hsingle⟩
          · cases hnil
  | ended line rest hline ih =>
      rw [rows_append_newline hline] at h
      cases front with
      | nil =>
          obtain ⟨rfl, rfl⟩ := List.cons.inj h
          rw [flatten_rows]
          exact ⟨by simp, ended_nil, .inr ended_append_newline, rows_append_newline hline []⟩
      | cons first front =>
          obtain ⟨rfl, hrest⟩ := List.cons.inj h
          obtain ⟨htext, hfront, hback, hrow⟩ := ih hrest
          refine ⟨?_, ?_, hback, hrow⟩
          · rw [htext, List.flatten_cons]
            simp
          · rw [List.flatten_cons, ended_append_iff]
            exact ⟨hfront, fun _ => ended_append_newline⟩

theorem rows_unlines {all : List (List Char)} (h : ∀ line ∈ all, '\n' ∉ line) :
    rows (unlines all) = all.map (· ++ ['\n']) := by
  induction all with
  | nil => rfl
  | cons line rest ih =>
      obtain ⟨hline, hrest⟩ := List.forall_mem_cons.mp h
      rw [unlines, rows_append_newline hline, ih hrest, List.map_cons]

end Rollout
