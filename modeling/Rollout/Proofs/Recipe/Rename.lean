import Mathlib.Data.List.Forall2
import Rollout.Proofs.Recipe.Dependency

namespace Rollout

-- The lines of a text. A newline ends a line and takes one carriage return before it along.
inductive CutsInto : List Char → List (List Char) → Prop where
  | nil : CutsInto [] []
  | last {line : List Char} (hline : '\n' ∉ line) (hne : line ≠ []) : CutsInto line [line]
  | ended {line rest : List Char} {more : List (List Char)} (hline : '\n' ∉ line)
      (hrest : CutsInto rest more) : CutsInto (line ++ '\n' :: rest) (dropReturn line :: more)

theorem cutsInto_lines (text : List Char) : CutsInto text (lines text) := by
  induction text using lines_induction with
  | last text htext =>
      cases text with
      | nil => exact .nil
      | cons c text =>
          rw [lines_of_newline_free htext (List.cons_ne_nil _ _)]
          exact .last htext (List.cons_ne_nil _ _)
  | ended line rest hline ih =>
      rw [lines_append_newline hline]
      exact .ended hline ih

-- What becomes of a line. A name that begins or ends with white space can be read at several
-- places, and the last of them counts.
inductive RenamesTo (package new : List Char) : List Char → List Char → Prop where
  | item {line indent blanks rest : List Char} (h : ReadsAs package line indent blanks rest)
      (hlongest : ∀ indent' blanks' rest', ReadsAs package line indent' blanks' rest' →
        blanks'.length ≤ blanks.length) :
      RenamesTo package new line (indent ++ '-' :: (blanks ++ (new ++ rest)))
  | other {line : List Char} (h : ¬ Declares package line) : RenamesTo package new line line

theorem locatePackage?_longest {package text blanks rest other tail : List Char}
    (h : locatePackage? package text = some (blanks, rest))
    (htext : text = other ++ (package ++ tail)) (hother : ∀ c ∈ other, isBlank c = true)
    (htail : BlankFirst tail) : other.length ≤ blanks.length := by
  induction text generalizing blanks rest other with
  | nil =>
      have hnil := (List.append_eq_nil_iff.mp htext.symm).1
      simp [hnil]
  | cons c text ih =>
      cases other with
      | nil => exact Nat.zero_le _
      | cons d other =>
          obtain ⟨rfl, hrest⟩ := List.cons.inj htext
          obtain ⟨hc, hblank⟩ := List.forall_mem_cons.mp hother
          obtain ⟨⟨deeper, after⟩, hdeeper⟩ :
              ∃ found, locatePackage? package text = some found :=
            hrest ▸ locatePackage?_complete hblank htail
          have hlength := ih hdeeper hrest hblank
          rw [locatePackage?, hdeeper, if_pos hc] at h
          cases h
          simpa using hlength

theorem declaration?_longest {package line before after : List Char}
    (h : declaration? package line = some (before, after)) :
    ∃ indent blanks, before = indent ++ '-' :: blanks ∧ ReadsAs package line indent blanks after ∧
      ∀ indent' blanks' rest', ReadsAs package line indent' blanks' rest' →
        blanks'.length ≤ blanks.length := by
  have hline := List.takeWhile_append_dropWhile (p := isBlank) (l := line)
  simp only [declaration?] at h
  split at h
  · rename_i item hitem
    rw [hitem] at hline
    obtain ⟨⟨blanks, rest⟩, hfound, hsame⟩ := Option.map_eq_some_iff.mp h
    cases hsame
    obtain ⟨hsplit, hblanks, hrest⟩ := locatePackage?_sound hfound
    have hindent : ∀ c ∈ line.takeWhile isBlank, isBlank c = true :=
      fun c => List.mem_takeWhile_imp
    refine ⟨line.takeWhile isBlank, blanks, rfl, ⟨?_, hindent, hblanks, hrest⟩,
      fun indent' blanks' rest' hreads => ?_⟩
    · rw [← hsplit, hline]
    · obtain ⟨-, hsame⟩ := hreads.item_unique hline.symm hindent
      exact locatePackage?_longest hfound hsame.symm hreads.blanks_blank hreads.rest_blank
  · cases h

theorem renamesTo_renameLine? (package new line : List Char) :
    RenamesTo package new line ((renameLine? package new line).getD line) := by
  cases hparts : declaration? package line with
  | none =>
      rw [renameLine?, hparts]
      exact .other (declaration?_eq_none_iff.mp hparts)
  | some parts =>
      obtain ⟨before, after⟩ := parts
      obtain ⟨indent, blanks, rfl, hreads, hlongest⟩ := declaration?_longest hparts
      have hitem : (renameLine? package new line).getD line =
          indent ++ '-' :: (blanks ++ (new ++ after)) := by
        rw [renameLine?, hparts]
        simp
      rw [hitem]
      exact .item hreads hlongest

-- Renaming a package changes its name on every line that declares it, and nothing else but the
-- ends of lines.
theorem renameDependency?_exact (package new recipe : String) :
    CutsInto recipe.toList (lines recipe.toList) ∧
    ∃ renamed, List.Forall₂ (RenamesTo package.toList new.toList) (lines recipe.toList) renamed ∧
      renameDependency? package new recipe =
        if ∃ line ∈ lines recipe.toList, Declares package.toList line then
          some (String.ofList (unlines renamed))
        else none := by
  refine ⟨cutsInto_lines recipe.toList, (lines recipe.toList).map fun line =>
    (renameLine? package.toList new.toList line).getD line, ?_, ?_⟩
  · rw [List.forall₂_map_right_iff, List.forall₂_same]
    exact fun line _ => renamesTo_renameLine? package.toList new.toList line
  · split
    · rename_i hdeclares
      cases hrenamed : renameDependency? package new recipe with
      | none =>
          obtain ⟨line, hm, hline⟩ := hdeclares
          exact absurd hline ((renameDependency?_eq_none_iff _ _ _).mp hrenamed line hm)
      | some renamed => rw [← renameDependency?_eq_some hrenamed, String.ofList_toList]
    · rename_i hnone
      exact (renameDependency?_eq_none_iff _ _ _).mpr fun line hm hline => hnone ⟨line, hm, hline⟩

-- The empty name is read as far to the right as it can stand.
example : renameDependency? "" "b" "-  x\r\n--\n-" = some "- b x\n--\n-b\n" := by
  decide +kernel

end Rollout
