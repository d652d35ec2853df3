import Mathlib.Data.List.TakeWhile
import Rollout.Proofs.Text.Line
import Rollout.Recipe.Dependency

namespace Rollout

-- What may follow a whole name: nothing, or white space.
def BlankFirst (text : List Char) : Prop := ∀ c ∈ text.head?, isBlank c = true

theorem blankFirst_nil : BlankFirst [] := by simp [BlankFirst]

theorem blankFirst_append_cons {text rest : List Char} {c : Char} (h : BlankFirst text)
    (hc : text = [] → isBlank c = true) : BlankFirst (text ++ c :: rest) := by
  cases text with
  | nil => simpa [BlankFirst] using hc rfl
  | cons first more => exact h

theorem BlankFirst.of_append {text rest : List Char} (h : BlankFirst (text ++ rest)) :
    BlankFirst text := by
  cases text with
  | nil => exact blankFirst_nil
  | cons first more => exact h

-- A name as packages have them.
def IsWord (name : List Char) : Prop := name ≠ [] ∧ ∀ c ∈ name, isBlank c = false

theorem all_iff_isWord (name : List Char) :
    (!name.isEmpty && name.all fun c => !isBlank c) = true ↔ IsWord name := by
  simp [IsWord]

instance (name : List Char) : Decidable (IsWord name) := decidable_of_iff _ (all_iff_isWord name)

theorem IsWord.newline_not_mem {name : List Char} (h : IsWord name) : '\n' ∉ name := fun hm =>
  Bool.noConfusion ((h.2 '\n' hm).symm.trans isBlank_newline)

theorem takeWhile_append_of_head? {p : Char → Bool} {front rest : List Char}
    (hfront : ∀ c ∈ front, p c = true) (hrest : ∀ c ∈ rest.head?, p c = false) :
    (front ++ rest).takeWhile p = front := by
  rw [List.takeWhile_append_of_pos hfront]
  cases rest with
  | nil => simp
  | cons c rest => simp [hrest c rfl]

-- A text is cut in one way only into characters with a property and a rest that begins with one
-- without it.
theorem span_unique {p : Char → Bool} {front other rest tail : List Char}
    (hfront : ∀ c ∈ front, p c = true) (hother : ∀ c ∈ other, p c = true)
    (hrest : ∀ c ∈ rest.head?, p c = false) (htail : ∀ c ∈ tail.head?, p c = false)
    (h : front ++ rest = other ++ tail) : front = other ∧ rest = tail := by
  have hsame : front = other := by
    rw [← takeWhile_append_of_head? hfront hrest, h, takeWhile_append_of_head? hother htail]
  subst hsame
  exact ⟨rfl, List.append_cancel_left h⟩

theorem afterPackage?_eq_some_iff {package text rest : List Char} :
    afterPackage? package text = some rest ↔ text = package ++ rest ∧ BlankFirst rest := by
  induction package generalizing text with
  | nil =>
      cases text with
      | nil =>
          simp only [afterPackage?, Option.some.injEq, List.nil_append]
          exact ⟨fun h => h ▸ ⟨rfl, blankFirst_nil⟩, fun h => h.1⟩
      | cons c text =>
          simp only [afterPackage?, List.nil_append]
          split
          · rename_i hc
            simp only [Option.some.injEq]
            exact ⟨fun h => h ▸ ⟨rfl, by simpa [BlankFirst] using hc⟩, fun h => h.1⟩
          · rename_i hc
            simp only [reduceCtorEq, false_iff, not_and]
            rintro rfl hfirst
            exact hc (hfirst c rfl)
  | cons p package ih =>
      cases text with
      | nil => simp [afterPackage?]
      | cons c text =>
          simp only [afterPackage?, List.cons_append, List.cons.injEq]
          split
          · rename_i hpc
            simp [ih, hpc]
          · rename_i hpc
            simp [Ne.symm hpc]

theorem sound_of_afterPackage? {package text blanks rest : List Char}
    (h : ((afterPackage? package text).map fun rest => ([], rest)) = some (blanks, rest)) :
    text = blanks ++ (package ++ rest) ∧ (∀ c ∈ blanks, isBlank c = true) ∧ BlankFirst rest := by
  obtain ⟨found, hfound, hsame⟩ := Option.map_eq_some_iff.mp h
  cases hsame
  obtain ⟨htext, hrest⟩ := afterPackage?_eq_some_iff.mp hfound
  exact ⟨htext, by simp, hrest⟩

theorem locatePackage?_sound {package text blanks rest : List Char}
    (h : locatePackage? package text = some (blanks, rest)) :
    text = blanks ++ (package ++ rest) ∧ (∀ c ∈ blanks, isBlank c = true) ∧ BlankFirst rest := by
  induction text generalizing blanks with
  | nil => exact sound_of_afterPackage? h
  | cons c text ih =>
      simp only [locatePackage?] at h
      split at h
      · rename_i found hdeeper
        cases h
        split at hdeeper
        · rename_i hc
          obtain ⟨⟨taken, after⟩, hfound, hsame⟩ := Option.map_eq_some_iff.mp hdeeper
          cases hsame
          obtain ⟨rfl, hblank, hrest⟩ := ih hfound
          exact ⟨rfl, List.forall_mem_cons.mpr ⟨hc, hblank⟩, hrest⟩
        · cases hdeeper
      · exact sound_of_afterPackage? h

theorem locatePackage?_complete {package blanks rest : List Char}
    (hblanks : ∀ c ∈ blanks, isBlank c = true) (hrest : BlankFirst rest) :
    ∃ found, locatePackage? package (blanks ++ (package ++ rest)) = some found := by
  induction blanks with
  | nil =>
      have hhere : afterPackage? package (package ++ rest) = some rest :=
        afterPackage?_eq_some_iff.mpr ⟨rfl, hrest⟩
      rw [List.nil_append]
      generalize package ++ rest = text at hhere ⊢
      cases text with
      | nil => exact ⟨_, congrArg (Option.map _) hhere⟩
      | cons c text =>
          rw [locatePackage?, hhere]
          split
          · exact ⟨_, rfl⟩
          · exact ⟨_, rfl⟩
  | cons c blanks ih =>
      obtain ⟨hc, hblanks⟩ := List.forall_mem_cons.mp hblanks
      obtain ⟨found, hfound⟩ := ih hblanks
      rw [List.cons_append, locatePackage?, hfound, hc]
      exact ⟨_, rfl⟩

-- A line that is a list item for a package: white space may be around the hyphen, and has to be
-- behind the name unless the line ends there.
def Declares (package line : List Char) : Prop :=
  ∃ indent blanks rest, line = indent ++ '-' :: (blanks ++ (package ++ rest)) ∧
    (∀ c ∈ indent, isBlank c = true) ∧ (∀ c ∈ blanks, isBlank c = true) ∧ BlankFirst rest

-- The parts of a line that is taken as such an item.
structure ReadsAs (package line indent blanks rest : List Char) : Prop where
  line_eq : line = indent ++ '-' :: (blanks ++ (package ++ rest))
  indent_blank : ∀ c ∈ indent, isBlank c = true
  blanks_blank : ∀ c ∈ blanks, isBlank c = true
  rest_blank : BlankFirst rest

theorem declares_iff {package line : List Char} :
    Declares package line ↔ ∃ indent blanks rest, ReadsAs package line indent blanks rest := by
  constructor
  · rintro ⟨indent, blanks, rest, hline, hindent, hblanks, hrest⟩
    exact ⟨indent, blanks, rest, hline, hindent, hblanks, hrest⟩
  · rintro ⟨indent, blanks, rest, hline, hindent, hblanks, hrest⟩
    exact ⟨indent, blanks, rest, hline, hindent, hblanks, hrest⟩

-- The hyphen of an item is the first character that is not white space.
theorem ReadsAs.item_unique {package line indent blanks rest other item : List Char}
    (h : ReadsAs package line indent blanks rest) (hline : line = other ++ '-' :: item)
    (hother : ∀ c ∈ other, isBlank c = true) :
    indent = other ∧ blanks ++ (package ++ rest) = item := by
  have hhyphen : ∀ {item : List Char}, ∀ c ∈ ('-' :: item).head?, isBlank c = false := by
    rintro item c ⟨⟩
    decide
  obtain ⟨hindent, hitem⟩ := span_unique h.indent_blank hother hhyphen hhyphen
    (h.line_eq.symm.trans hline)
  exact ⟨hindent, (List.cons.inj hitem).2⟩

-- A line is an item for one word only, and in one way.
theorem ReadsAs.unique {package other line indent blanks rest indent' blanks' rest' : List Char}
    (hpackage : IsWord package) (hother : IsWord other)
    (h : ReadsAs package line indent blanks rest)
    (h' : ReadsAs other line indent' blanks' rest') :
    package = other ∧ indent = indent' ∧ blanks = blanks' ∧ rest = rest' := by
  have hword : ∀ {name after : List Char}, IsWord name →
      ∀ c ∈ (name ++ after).head?, isBlank c = false := by
    rintro name after ⟨hne, hname⟩ c hc
    obtain ⟨first, others, rfl⟩ := List.exists_cons_of_ne_nil hne
    exact hname c (List.mem_of_mem_head? hc)
  have hletters : ∀ {name : List Char}, IsWord name → ∀ c ∈ name, (!isBlank c) = true := by
    intro name hname c hc
    rw [hname.2 c hc]
    rfl
  have hends : ∀ {after : List Char}, BlankFirst after →
      ∀ c ∈ after.head?, (!isBlank c) = false := by
    intro after hafter c hc
    rw [hafter c hc]
    rfl
  obtain ⟨hindent, hitem⟩ := h.item_unique h'.line_eq h'.indent_blank
  obtain ⟨hblanks, hnames⟩ := span_unique h.blanks_blank h'.blanks_blank (hword hpackage)
    (hword hother) hitem
  obtain ⟨hname, hrest⟩ := span_unique (hletters hpackage) (hletters hother) (hends h.rest_blank)
    (hends h'.rest_blank) hnames
  exact ⟨hname, hindent, hblanks, hrest⟩

theorem declaration?_eq_some {package line before after : List Char}
    (h : declaration? package line = some (before, after)) :
    ∃ indent blanks, before = indent ++ '-' :: blanks ∧ line = before ++ (package ++ after) ∧
      (∀ c ∈ indent, isBlank c = true) ∧ (∀ c ∈ blanks, isBlank c = true) ∧ BlankFirst after := by
  have hline := List.takeWhile_append_dropWhile (p := isBlank) (l := line)
  simp only [declaration?] at h
  split at h
  · rename_i item hitem
    obtain ⟨⟨blanks, rest⟩, hfound, hsame⟩ := Option.map_eq_some_iff.mp h
    cases hsame
    obtain ⟨rfl, hblanks, hrest⟩ := locatePackage?_sound hfound
    refine ⟨line.takeWhile isBlank, blanks, rfl, ?_, fun c => List.mem_takeWhile_imp, hblanks, hrest⟩
    rw [List.append_assoc, List.cons_append, ← hitem, hline]
  · cases h

theorem isSome_declaration?_iff (package line : List Char) :
    (declaration? package line).isSome ↔ Declares package line := by
  constructor
  · intro h
    obtain ⟨⟨before, after⟩, hparts⟩ := Option.isSome_iff_exists.mp h
    obtain ⟨indent, blanks, rfl, hline, hindent, hblanks, hafter⟩ := declaration?_eq_some hparts
    exact ⟨indent, blanks, after, by simpa using hline, hindent, hblanks, hafter⟩
  · rintro ⟨indent, blanks, rest, rfl, hindent, hblanks, hrest⟩
    obtain ⟨found, hfound⟩ :
        ∃ found, locatePackage? package (blanks ++ (package ++ rest)) = some found :=
      locatePackage?_complete hblanks hrest
    have hitem : (indent ++ '-' :: (blanks ++ (package ++ rest))).dropWhile isBlank =
        '-' :: (blanks ++ (package ++ rest)) := by
      rw [List.dropWhile_append_of_pos hindent]
      rfl
    simp [declaration?, hitem, hfound]

theorem declaration?_eq_none_iff {package line : List Char} :
    declaration? package line = none ↔ ¬ Declares package line := by
  rw [← isSome_declaration?_iff, Option.not_isSome_iff_eq_none]

instance (package line : List Char) : Decidable (Declares package line) :=
  decidable_of_iff _ (isSome_declaration?_iff package line)

theorem Declares.of_dropReturn {package line : List Char}
    (h : Declares package (dropReturn line)) : Declares package line := by
  obtain hsame | hcut := dropReturn_cases line
  · rwa [hsame] at h
  · obtain ⟨indent, blanks, rest, hline, hindent, hblanks, hrest⟩ := h
    refine ⟨indent, blanks, rest ++ ['\r'], ?_, hindent, hblanks,
      blankFirst_append_cons hrest fun _ => isBlank_return⟩
    rw [hcut, hline]
    simp

-- A word does not end in a carriage return, so it is all there without it.
theorem Declares.dropReturn {package line : List Char} (hpackage : IsWord package)
    (h : Declares package line) : Declares package (dropReturn line) := by
  obtain hsame | hcut := dropReturn_cases line
  · rwa [hsame]
  · obtain ⟨indent, blanks, rest, hline, hindent, hblanks, hrest⟩ := h
    have hparts : Rollout.dropReturn line ++ ['\r'] =
        (indent ++ '-' :: blanks) ++ package ++ rest := by
      rw [← hcut, hline]
      simp
    obtain ⟨middle, hname, hreturn⟩ | ⟨middle, hkept, rfl⟩ := List.append_eq_append_iff.mp hparts
    · obtain ⟨rfl, -⟩ | ⟨rfl, -⟩ := List.singleton_eq_append_iff.mp hreturn
      · exact ⟨indent, blanks, [], by simpa using hname.symm, hindent, hblanks,
          blankFirst_nil⟩
      · have hlast := congrArg List.getLast? hname
        rw [List.getLast?_append, List.getLast?_eq_some_getLast hpackage.1, Option.some_or,
          List.getLast?_concat, Option.some.injEq] at hlast
        have hblank := hpackage.2 _ (List.getLast_mem hpackage.1)
        rw [hlast] at hblank
        cases hblank.symm.trans isBlank_return
    · exact ⟨indent, blanks, middle, by rw [hkept]; simp, hindent, hblanks, hrest.of_append⟩

-- An item for one word is not one for another.
theorem Declares.eq_of_declares {package other line : List Char} (h : Declares package line)
    (hpackage : IsWord package) (hother : IsWord other) (hline : Declares other line) :
    package = other := by
  obtain ⟨_, _, _, hreads⟩ := declares_iff.mp h
  obtain ⟨_, _, _, hsame⟩ := declares_iff.mp hline
  exact (hreads.unique hpackage hother hsame).1

theorem renameDependency?_eq_none_iff (package new recipe : String) :
    renameDependency? package new recipe = none ↔
      ∀ line ∈ lines recipe.toList, ¬ Declares package.toList line := by
  have hline : ∀ line, (renameLine? package.toList new.toList line).isSome ↔
      Declares package.toList line := by
    intro line
    rw [renameLine?, Option.isSome_map, isSome_declaration?_iff]
  rw [renameDependency?]
  split
  · rename_i hsome
    obtain ⟨found, hfound, hdeclared⟩ := List.any_eq_true.mp hsome
    obtain ⟨line, hm, rfl⟩ := List.mem_map.mp hfound
    simp only [reduceCtorEq, false_iff, not_forall, not_not]
    exact ⟨line, hm, (hline line).mp hdeclared⟩
  · rename_i hnone
    simp only [true_iff]
    exact fun line hm hdeclares => hnone
      (List.any_eq_true.mpr ⟨_, List.mem_map_of_mem hm, (hline line).mpr hdeclares⟩)

theorem renameDependency?_eq_some {package new recipe renamed : String}
    (h : renameDependency? package new recipe = some renamed) :
    renamed.toList = unlines ((lines recipe.toList).map fun line =>
      (renameLine? package.toList new.toList line).getD line) := by
  rw [renameDependency?] at h
  split at h
  · cases h
    rw [String.toList_ofList, List.zipWith_map_right, List.zipWith_self]
  · cases h

-- A line as renaming leaves it has no newline and does not declare the old package.
theorem not_declares_getD_renameLine? {package new line : List Char} (hpackage : IsWord package)
    (hnew : IsWord new) (hne : package ≠ new) :
    ¬ Declares package ((renameLine? package new line).getD line) := by
  cases hparts : declaration? package line with
  | none =>
      rw [renameLine?, hparts]
      exact declaration?_eq_none_iff.mp hparts
  | some parts =>
      obtain ⟨indent, blanks, hbefore, -, hindent, hblanks, hafter⟩ := declaration?_eq_some hparts
      rw [renameLine?, hparts]
      simp only [Option.map_some, Option.getD_some, hbefore, List.append_assoc, List.cons_append]
      have hitem : Declares new (indent ++ '-' :: (blanks ++ (new ++ parts.2))) :=
        declares_iff.mpr ⟨indent, blanks, parts.2, rfl, hindent, hblanks, hafter⟩
      exact fun hdeclares => hne (hdeclares.eq_of_declares hpackage hnew hitem)

theorem newline_not_mem_getD_renameLine? {package new line : List Char} (hnew : '\n' ∉ new)
    (hline : '\n' ∉ line) : '\n' ∉ (renameLine? package new line).getD line := by
  cases hparts : declaration? package line with
  | none => rwa [renameLine?, hparts]
  | some parts =>
      obtain ⟨-, -, -, hsplit, -⟩ := declaration?_eq_some hparts
      rw [hsplit] at hline
      rw [renameLine?, hparts]
      simp_all

-- Once a package is renamed, no line declares it any more.
theorem not_declares_of_renameDependency? {package new recipe renamed : String}
    (hpackage : IsWord package.toList) (hnew : IsWord new.toList) (hne : package ≠ new)
    (h : renameDependency? package new recipe = some renamed) :
    ∀ line ∈ lines renamed.toList, ¬ Declares package.toList line := by
  rw [renameDependency?_eq_some h, lines_unlines]
  · intro line hm hdeclares
    obtain ⟨kept, hkept, rfl⟩ := List.mem_map.mp hm
    obtain ⟨original, -, rfl⟩ := List.mem_map.mp hkept
    exact not_declares_getD_renameLine? hpackage hnew (mt String.toList_inj.mp hne)
      hdeclares.of_dropReturn
  · intro line hm
    obtain ⟨original, horiginal, rfl⟩ := List.mem_map.mp hm
    exact newline_not_mem_getD_renameLine? hnew.newline_not_mem
      (newline_not_mem_of_mem_lines horiginal)

-- The text begins with a line that declares the package.
def DeclaresFirst (package text : List Char) : Prop :=
  ∃ indent blanks rest, text = indent ++ '-' :: (blanks ++ (package ++ rest)) ∧
    (∀ c ∈ indent, isBlank c = true ∧ c ≠ '\n') ∧ (∀ c ∈ blanks, isBlank c = true ∧ c ≠ '\n') ∧
    BlankFirst rest

-- A later line of the text does.
def DeclaresLater (package text : List Char) : Prop :=
  ∃ before rest, text = before ++ '\n' :: rest ∧ DeclaresFirst package rest

theorem declaresFirst_iff_of_newline_free {package line : List Char} (h : '\n' ∉ line) :
    DeclaresFirst package line ↔ Declares package line := by
  constructor
  · rintro ⟨indent, blanks, rest, hline, hindent, hblanks, hrest⟩
    exact ⟨indent, blanks, rest, hline, fun c hc => (hindent c hc).1, fun c hc => (hblanks c hc).1,
      hrest⟩
  · rintro ⟨indent, blanks, rest, rfl, hindent, hblanks, hrest⟩
    simp only [List.mem_append, List.mem_cons, not_or] at h
    exact ⟨indent, blanks, rest, rfl, fun c hc => ⟨hindent c hc, fun hn => h.1 (hn ▸ hc)⟩,
      fun c hc => ⟨hblanks c hc, fun hn => h.2.2.1 (hn ▸ hc)⟩, hrest⟩

theorem declaresFirst_append_newline_iff {package line : List Char} (hpackage : '\n' ∉ package)
    (hline : '\n' ∉ line) (rest : List Char) :
    DeclaresFirst package (line ++ '\n' :: rest) ↔ DeclaresFirst package line := by
  constructor
  · rintro ⟨indent, blanks, after, htext, hindent, hblanks, hafter⟩
    have hitem : '\n' ∉ indent ++ '-' :: (blanks ++ package) := by
      simp only [List.mem_append, List.mem_cons, not_or]
      exact ⟨fun hm => (hindent _ hm).2 rfl, by decide, fun hm => (hblanks _ hm).2 rfl, hpackage⟩
    have hparts : line ++ '\n' :: rest = (indent ++ '-' :: (blanks ++ package)) ++ after := by
      rw [htext]
      simp
    obtain ⟨middle, hcut, hafterLine⟩ | ⟨middle, hcut, rfl⟩ := List.append_eq_append_iff.mp hparts
    · cases middle with
      | nil =>
          exact ⟨indent, blanks, [], by simpa using hcut.symm, hindent, hblanks,
            blankFirst_nil⟩
      | cons c middle =>
          obtain ⟨rfl, -⟩ := List.cons.inj hafterLine
          exact absurd (hcut ▸ List.mem_append_right _ List.mem_cons_self) hitem
    · exact ⟨indent, blanks, middle, by rw [hcut]; simp, hindent, hblanks, hafter.of_append⟩
  · rintro ⟨indent, blanks, after, rfl, hindent, hblanks, hafter⟩
    exact ⟨indent, blanks, after ++ '\n' :: rest, by simp, hindent, hblanks,
      blankFirst_append_cons hafter fun _ => isBlank_newline⟩

theorem declaresLater_append_newline_iff {package line : List Char} (hline : '\n' ∉ line)
    (rest : List Char) :
    DeclaresLater package (line ++ '\n' :: rest) ↔
      DeclaresFirst package rest ∨ DeclaresLater package rest := by
  constructor
  · rintro ⟨before, after, htext, hafter⟩
    obtain ⟨middle, hcut, hsame⟩ | ⟨middle, hcut, hsame⟩ := List.append_eq_append_iff.mp htext
    · cases middle with
      | nil => exact .inl ((List.cons.inj hsame).2 ▸ hafter)
      | cons c middle => exact .inr ⟨middle, after, (List.cons.inj hsame).2, hafter⟩
    · cases middle with
      | nil => exact .inl ((List.cons.inj hsame).2 ▸ hafter)
      | cons c middle =>
          obtain ⟨rfl, -⟩ := List.cons.inj hsame
          exact absurd (hcut ▸ List.mem_append_right _ List.mem_cons_self) hline
  · rintro (hfirst | ⟨before, after, rfl, hafter⟩)
    · exact ⟨line, rest, rfl, hfirst⟩
    · exact ⟨line ++ '\n' :: before, after, by simp, hafter⟩

-- Where a text declares a word can be seen without cutting it into lines.
theorem exists_declares_iff {package : List Char} (hpackage : IsWord package) (text : List Char) :
    (∃ line ∈ lines text, Declares package line) ↔
      DeclaresFirst package text ∨ DeclaresLater package text := by
  induction text using lines_induction with
  | last text htext =>
      have hlater : ¬ DeclaresLater package text := by
        rintro ⟨before, rest, rfl, -⟩
        simp at htext
      rw [declaresFirst_iff_of_newline_free htext]
      cases text with
      | nil => simp [lines, Declares, hlater]
      | cons c text => simp [lines_of_newline_free htext, hlater]
  | ended line rest hline ih =>
      have hcut : Declares package (dropReturn line) ↔ Declares package line :=
        ⟨Declares.of_dropReturn, Declares.dropReturn hpackage⟩
      rw [lines_append_newline hline, declaresLater_append_newline_iff hline, ← ih,
        declaresFirst_append_newline_iff hpackage.newline_not_mem hline,
        declaresFirst_iff_of_newline_free hline, ← hcut]
      simp

end Rollout
