import Rollout.Proofs.Recipe.Dependency

namespace Rollout

theorem dropReturn_append {front line : List Char} (h : front.getLast? ≠ some '\r') :
    dropReturn (front ++ line) = front ++ dropReturn line := by
  cases line with
  | nil => simp [dropReturn, h]
  | cons c line =>
      have hlast : (front ++ c :: line).getLast? = (c :: line).getLast? := by
        simp [List.getLast?_append, List.getLast?_cons]
      rw [dropReturn, dropReturn, hlast]
      split
      · rw [List.dropLast_append_of_ne_nil (List.cons_ne_nil _ _)]
      · rfl

theorem BlankFirst.dropReturn {line : List Char} (h : BlankFirst line) :
    BlankFirst (dropReturn line) := by
  obtain hsame | hcut := dropReturn_cases line
  · rwa [hsame]
  · exact (hcut ▸ h).of_append

-- A line as renaming leaves it.
def renameLine (package new line : List Char) : List Char :=
  (renameLine? package new line).getD line

-- All lines of a text as renaming leaves them, and what it leaves of a text that begins in the
-- middle of a line.
def renameLines (package new text : List Char) : List Char :=
  unlines ((lines text).map (renameLine package new))

def renameOnwards (package new : List Char) : List Char → List Char
  | [] => ['\n']
  | '\r' :: '\n' :: rest => '\n' :: renameLines package new rest
  | '\n' :: rest => '\n' :: renameLines package new rest
  | c :: rest => c :: renameOnwards package new rest

theorem renameLine_of_not_declares {package line : List Char} (new : List Char)
    (h : ¬ Declares package line) : renameLine package new line = line := by
  rw [renameLine, renameLine?, declaration?_eq_none_iff.mpr h]
  rfl

theorem renameLine_of_readsAs {package line indent blanks rest : List Char} (new : List Char)
    (hpackage : IsWord package) (h : ReadsAs package line indent blanks rest) :
    renameLine package new line = indent ++ '-' :: (blanks ++ (new ++ rest)) := by
  obtain ⟨⟨before, after⟩, hparts⟩ := Option.isSome_iff_exists.mp
    ((isSome_declaration?_iff package line).mpr (declares_iff.mpr ⟨indent, blanks, rest, h⟩))
  obtain ⟨indent', blanks', rfl, hline, hindent, hblanks, hafter⟩ := declaration?_eq_some hparts
  obtain ⟨-, rfl, rfl, rfl⟩ := h.unique hpackage hpackage
    ⟨by simpa using hline, hindent, hblanks, hafter⟩
  rw [renameLine, renameLine?, hparts]
  simp

-- An item up to the end of its name.
def item (indent blanks name : List Char) : List Char := indent ++ '-' :: (blanks ++ name)

theorem item_append (indent blanks name rest : List Char) :
    item indent blanks name ++ rest = indent ++ '-' :: (blanks ++ (name ++ rest)) := by
  simp [item]

theorem newline_not_mem_item {indent blanks name : List Char}
    (hindent : ∀ c ∈ indent, isBlank c = true ∧ c ≠ '\n')
    (hblanks : ∀ c ∈ blanks, isBlank c = true ∧ c ≠ '\n') (hname : '\n' ∉ name) :
    '\n' ∉ item indent blanks name := by
  simp only [item, List.mem_append, List.mem_cons, not_or]
  exact ⟨fun hm => (hindent _ hm).2 rfl, by decide, fun hm => (hblanks _ hm).2 rfl, hname⟩

theorem IsWord.getLast?_item {name : List Char} (h : IsWord name) (indent blanks : List Char) :
    (item indent blanks name).getLast? ≠ some '\r' := by
  intro hlast
  have hname : (item indent blanks name).getLast? = some (name.getLast h.1) := by
    rw [← List.append_nil (item indent blanks name), item_append, List.append_nil]
    simp [List.getLast?_append, List.getLast?_cons, List.getLast?_eq_some_getLast h.1]
  have hblank := h.2 _ (List.getLast_mem h.1)
  rw [Option.some.inj (hname.symm.trans hlast)] at hblank
  cases hblank.symm.trans isBlank_return

section Onwards

variable {package new line rest : List Char}

theorem renameLines_append_newline (h : '\n' ∉ line) :
    renameLines package new (line ++ '\n' :: rest) =
      renameLine package new (dropReturn line) ++ '\n' :: renameLines package new rest := by
  rw [renameLines, lines_append_newline h]
  rfl

theorem renameLines_of_newline_free (h : '\n' ∉ line) (hne : line ≠ []) :
    renameLines package new line = renameLine package new line ++ ['\n'] := by
  rw [renameLines, lines_of_newline_free h hne]
  rfl

theorem renameOnwards_cons {c : Char} (hnewline : c ≠ '\n')
    (hreturn : c = '\r' → rest.head? ≠ some '\n') :
    renameOnwards package new (c :: rest) = c :: renameOnwards package new rest := by
  refine renameOnwards.eq_4 package new c rest ?_ hnewline
  rintro after rfl rfl
  exact hreturn rfl rfl

theorem renameOnwards_append {front : List Char} (hnewline : '\n' ∉ front)
    (hreturn : front.getLast? = some '\r' → rest.head? ≠ some '\n') :
    renameOnwards package new (front ++ rest) = front ++ renameOnwards package new rest := by
  induction front with
  | nil => rfl
  | cons c front ih =>
      obtain ⟨hc, hfront⟩ := not_or.mp (mt List.mem_cons.mpr hnewline)
      cases front with
      | nil => exact renameOnwards_cons (Ne.symm hc) fun hcr => hreturn (congrArg some hcr)
      | cons d front =>
          have hd : d ≠ '\n' := fun hd => hfront (hd ▸ List.mem_cons_self)
          have hrest := ih hfront (by rwa [List.getLast?_cons_cons] at hreturn)
          rw [List.cons_append, renameOnwards_cons (Ne.symm hc), hrest]
          · rfl
          · exact fun _ hhead => hd (Option.some.inj hhead)

theorem renameOnwards_of_newline_free (h : '\n' ∉ line) :
    renameOnwards package new line = line ++ ['\n'] := by
  induction line with
  | nil => rfl
  | cons c line ih =>
      obtain ⟨hc, hline⟩ := not_or.mp (mt List.mem_cons.mpr h)
      rw [renameOnwards_cons (Ne.symm hc), ih hline]
      · rfl
      · exact fun _ hhead => hline (List.mem_of_mem_head? hhead)

theorem renameOnwards_append_newline (h : '\n' ∉ line) :
    renameOnwards package new (line ++ '\n' :: rest) =
      dropReturn line ++ '\n' :: renameLines package new rest := by
  by_cases hlast : line.getLast? = some '\r'
  · obtain ⟨before, rfl⟩ := List.getLast?_eq_some_iff.mp hlast
    have hbefore : '\n' ∉ before := fun hm => h (List.mem_append_left _ hm)
    have hsplit : before ++ ['\r'] ++ '\n' :: rest = before ++ '\r' :: '\n' :: rest := by simp
    rw [hsplit, renameOnwards_append hbefore fun _ => by simp, dropReturn, if_pos hlast,
      List.dropLast_concat]
    rfl
  · rw [renameOnwards_append h fun hreturn => absurd hreturn hlast, dropReturn, if_neg hlast]
    rfl

-- A text whose first line is no item is left as from the middle of a line on.
theorem renameLines_of_not_declaresFirst {text : List Char} (hpackage : IsWord package)
    (hne : text ≠ []) (h : ¬ DeclaresFirst package text) :
    renameLines package new text = renameOnwards package new text := by
  by_cases hnewline : '\n' ∈ text
  · obtain ⟨first, more, hfirst, rfl⟩ := exists_first_line hnewline
    rw [declaresFirst_append_newline_iff hpackage.newline_not_mem hfirst,
      declaresFirst_iff_of_newline_free hfirst] at h
    rw [renameLines_append_newline hfirst, renameOnwards_append_newline hfirst,
      renameLine_of_not_declares new (mt Declares.of_dropReturn h)]
  · rw [declaresFirst_iff_of_newline_free hnewline] at h
    rw [renameLines_of_newline_free hnewline hne, renameOnwards_of_newline_free hnewline,
      renameLine_of_not_declares new h]

-- In a first line that is an item the name is exchanged, and what follows is left as from there on.
theorem renameLines_item {indent blanks : List Char} (hpackage : IsWord package)
    (hindent : ∀ c ∈ indent, isBlank c = true ∧ c ≠ '\n')
    (hblanks : ∀ c ∈ blanks, isBlank c = true ∧ c ≠ '\n') (hrest : BlankFirst rest) :
    renameLines package new (item indent blanks package ++ rest) =
      item indent blanks new ++ renameOnwards package new rest := by
  have hline : ∀ {after : List Char}, BlankFirst after →
      renameLine package new (item indent blanks package ++ after) =
        item indent blanks new ++ after := by
    intro after hafter
    rw [item_append, item_append]
    exact renameLine_of_readsAs new hpackage
      ⟨rfl, fun c hc => (hindent c hc).1, fun c hc => (hblanks c hc).1, hafter⟩
  have hfront := newline_not_mem_item hindent hblanks hpackage.newline_not_mem
  by_cases hnewline : '\n' ∈ rest
  · obtain ⟨first, more, hfirst, rfl⟩ := exists_first_line hnewline
    rw [← List.append_assoc, renameLines_append_newline (List.not_mem_append hfront hfirst),
      dropReturn_append (hpackage.getLast?_item indent blanks), hline hrest.of_append.dropReturn,
      renameOnwards_append_newline hfirst, List.append_assoc]
  · have hne : item indent blanks package ++ rest ≠ [] := by simp [item]
    rw [renameLines_of_newline_free (List.not_mem_append hfront hnewline) hne, hline hrest,
      renameOnwards_of_newline_free hnewline, List.append_assoc]

end Onwards

end Rollout
