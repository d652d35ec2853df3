import Mathlib.Data.List.Basic
import Mathlib.Data.List.TakeWhile
import Mathlib.Data.Option.Basic
import Rollout.Json.Reader
import Rollout.Json.Writer

namespace Rollout.Json

-- The four digits of a control character's escape spell its code.
theorem readBase?_control : ∀ code < 32,
    readBase? 16 ['0', '0', hexDigit (code / 16), hexDigit code] = some code := by decide

theorem unicodeEscape?_control {c : Char} (h : c.toNat < 32) (rest : List Char) :
    unicodeEscape? ('0' :: '0' :: hexDigit (c.toNat / 16) :: hexDigit c.toNat :: rest) =
      some (some c, rest) := by
  have hquad : hexQuad? ('0' :: '0' :: hexDigit (c.toNat / 16) :: hexDigit c.toNat :: rest) =
      some (c.toNat, rest) := by
    rw [hexQuad?, readBase?_control c.toNat h, Option.map_some]
  have hhigh : isHighSurrogate c.toNat = false := by simp [isHighSurrogate]; omega
  have hlow : isLowSurrogate c.toNat = false := by simp [isLowSurrogate]; omega
  simp [unicodeEscape?, hquad, hhigh, hlow, Char.ofNat_toNat]

-- A character inside a string stands for itself or is written as an escape that denotes it.
theorem escapeChar_cases (c : Char) :
    (escapeChar c = [c] ∧ c ≠ '"' ∧ c ≠ '\\' ∧ 32 ≤ c.toNat) ∨
      ∃ more, escapeChar c = '\\' :: more ∧ ∀ rest, escape? (more ++ rest) = some (some c, rest) := by
  unfold escapeChar
  split_ifs with hquote hslash hback hfeed hnewline hreturn htab hcontrol
  any_goals
    subst c
    exact .inr ⟨_, rfl, fun rest => rfl⟩
  · exact .inr ⟨_, rfl, fun rest => unicodeEscape?_control hcontrol rest⟩
  · exact .inl ⟨rfl, hquote, hslash, by omega⟩

theorem stringBody?_escape {more rest : List Char} {c : Option Char}
    (h : escape? more = some (c, rest)) (read : List (Option Char)) :
    stringBody? read ('\\' :: more) = stringBody? (c :: read) rest := by
  rw [stringBody?]
  split
  · rename_i hnone
    cases h.symm.trans hnone
  · rename_i hsome
    cases h.symm.trans hsome
    rfl

theorem stringBody?_plain {c : Char} (hquote : c ≠ '"') (hslash : c ≠ '\\') (h : 32 ≤ c.toNat)
    (read : List (Option Char)) (rest : List Char) :
    stringBody? read (c :: rest) = stringBody? (some c :: read) rest := by
  rw [stringBody?, if_neg (by omega)]
  · exact hquote
  · exact hslash

-- What is written of a string reads back as the string.
theorem stringBody?_escaped (read : List (Option Char)) (text rest : List Char) :
    stringBody? read (text.flatMap escapeChar ++ '"' :: rest) =
      some (read.reverse ++ text.map some, rest) := by
  induction text generalizing read with
  | nil => simp [stringBody?]
  | cons c text ih =>
      have hc : stringBody? read (escapeChar c ++ (text.flatMap escapeChar ++ '"' :: rest)) =
          stringBody? (some c :: read) (text.flatMap escapeChar ++ '"' :: rest) := by
        rcases escapeChar_cases c with ⟨hself, hquote, hslash, hlarge⟩ | ⟨more, hmore, hescape⟩
        · rw [hself]
          exact stringBody?_plain hquote hslash hlarge _ _
        · rw [hmore]
          exact stringBody?_escape (hescape _) read
      rw [List.flatMap_cons, List.append_assoc, hc, ih]
      simp

theorem bodyText?_map_some (text : List Char) :
    bodyText? (text.map some) = some (String.ofList text) := by
  have hall : (text.map some).mapM id = some text := by
    induction text with
    | nil => rfl
    | cons c text ih => simp [ih]
  rw [bodyText?, hall, Option.map_some]

theorem tokens?_quoted (read : List Token) (text : String) (rest : List Char) :
    tokens? read (quoted text ++ rest) = tokens? (.string (some text) :: read) rest := by
  have hbody := stringBody?_escaped [] text.toList rest
  simp only [quoted, List.cons_append, List.append_assoc, List.nil_append]
  rw [tokens?]
  split
  · rename_i hnone
    cases hbody.symm.trans hnone
  · rename_i hsome
    cases hbody.symm.trans hsome
    rw [List.reverse_nil, List.nil_append, bodyText?_map_some, String.ofList_toList]

theorem le_ofDigitChars (digits : List Char) (start : Nat) :
    start ≤ Nat.ofDigitChars 10 digits start := by
  induction digits generalizing start with
  | nil => simp
  | cons c digits ih =>
      rw [Nat.ofDigitChars_cons]
      exact Nat.le_trans (by omega) (ih _)

-- Below the bound every digit is taken into the significand.
theorem wholeDigits_eq (digits : List Char) (start : Nat)
    (h : Nat.ofDigitChars 10 digits start ≤ maxWhole) :
    wholeDigits start digits = (Nat.ofDigitChars 10 digits start, 0) := by
  induction digits generalizing start with
  | nil => simp [wholeDigits]
  | cons c digits ih =>
      rw [Nat.ofDigitChars_cons, Nat.mul_comm 10] at h ⊢
      have hnext : start * 10 + digitValue c ≤ maxWhole := Nat.le_trans (le_ofDigitChars _ _) h
      rw [wholeDigits, if_pos hnext]
      exact ih _ h

-- Only zero is written with a zero in front.
theorem eq_zero_of_head?_toDigits (n : Nat) (h : (Nat.toDigits 10 n).head? = some '0') : n = 0 := by
  induction n using Nat.strongRecOn with
  | ind n ih =>
      rw [Nat.toDigits_eq_if (by decide)] at h
      split at h
      · rename_i hlt
        simpa using h
      · rename_i hlt
        rw [List.head?_append_of_ne_nil _ Nat.toDigits_ne_nil] at h
        have hzero := ih (n / 10) (by omega) h
        omega

theorem isDigits_toDigits (n : Nat) : isDigits (Nat.toDigits 10 n) = true := by
  have hdigit : (Nat.toDigits 10 n).all Char.isDigit = true :=
    List.all_eq_true.mpr fun c hc => Nat.isDigit_of_mem_toDigits (by decide) (by decide) hc
  have hne := Nat.toDigits_ne_nil (b := 10) (n := n)
  simp [isDigits, hdigit, hne]

theorem ne_of_isDigit {c d : Char} (hc : c.isDigit = true) (hd : d.isDigit = false) : c ≠ d := by
  rintro rfl
  cases hc.symm.trans hd

-- Digits without a leading zero, perhaps behind a minus sign, are a numeral.
theorem Numeral.ofText?_digits {digits : List Char} (hdigits : isDigits digits = true)
    (hzero : digits.head? = some '0' → digits.length = 1) (negative : Bool) :
    Numeral.ofText? ((if negative then ['-'] else []) ++ digits) =
      some ⟨negative, digits, none, none⟩ := by
  have hall : ∀ c ∈ digits, c.isDigit = true := by
    simpa [isDigits] using (Bool.and_eq_true_iff.mp hdigits).2
  have hsign : (digits.head? == some '-') = false := by
    cases hhead : digits.head? with
    | none => rfl
    | some c =>
        have hc := hall c (List.mem_of_head? hhead)
        simpa using ne_of_isDigit hc (by decide : '-'.isDigit = false)
  have hmark : ∀ c ∈ digits, (!(c == 'e' || c == 'E')) = true := by
    intro c hc
    have he := ne_of_isDigit (hall c hc) (by decide : 'e'.isDigit = false)
    have hE := ne_of_isDigit (hall c hc) (by decide : 'E'.isDigit = false)
    simp [he, hE]
  have hpoint : ∀ c ∈ digits, (c != '.') = true := by
    intro c hc
    simpa using ne_of_isDigit (hall c hc) (by decide : '.'.isDigit = false)
  have hdecimal := List.takeWhile_eq_self_iff.mpr hmark
  have hexponent := List.dropWhile_eq_nil_iff.mpr hmark
  have hwhole := List.takeWhile_eq_self_iff.mpr hpoint
  have hfraction := List.dropWhile_eq_nil_iff.mpr hpoint
  have hguard : (isDigits digits && (digits.head? != some '0' || digits.length == 1)) = true := by
    rw [hdigits, Bool.true_and, Bool.or_eq_true, bne_iff_ne, beq_iff_eq]
    exact Decidable.or_iff_not_imp_left.mpr fun h => hzero (Decidable.not_not.mp h)
  cases negative with
  | true =>
      simp only [Numeral.ofText?, ite_true, List.cons_append, List.nil_append, List.head?_cons,
        BEq.rfl, List.drop_succ_cons, List.drop_zero, hdecimal, hexponent, hwhole, hfraction,
        hguard]
      rfl
  | false =>
      simp only [Numeral.ofText?, Bool.false_eq_true, ite_false, List.nil_append, hsign, hdecimal,
        hexponent, hwhole, hfraction, hguard]
      rfl

theorem Numeral.value?_digits {digits : List Char} (h : Nat.ofDigitChars 10 digits 0 ≤ maxWhole) :
    (Numeral.mk false digits none none).value? = some (.int (Nat.ofDigitChars 10 digits 0)) := by
  simp [Numeral.value?, wholeDigits_eq digits 0 h]

theorem Numeral.value?_negative {digits : List Char} (hpos : 0 < Nat.ofDigitChars 10 digits 0)
    (h : Nat.ofDigitChars 10 digits 0 ≤ Word.half) :
    (Numeral.mk true digits none none).value? =
      some (.int (-(Nat.ofDigitChars 10 digits 0 : Int))) := by
  have hmax : Nat.ofDigitChars 10 digits 0 ≤ maxWhole := Nat.le_trans h (by decide)
  simp [Numeral.value?, wholeDigits_eq digits 0 hmax, hpos, h]

-- The whole numbers that keep their digits.
def IsWhole (value : Int) : Prop := -(Word.half : Int) ≤ value ∧ value ≤ maxWhole

-- A number is its digits, behind a minus sign if it is negative.
theorem intText_eq (value : Int) :
    intText value = (if value < 0 then ['-'] else []) ++ Nat.toDigits 10 value.natAbs := by
  unfold intText
  split <;> rfl

theorem intText_ne_nil (value : Int) : intText value ≠ [] := by
  rw [intText_eq]
  exact List.append_ne_nil_of_right_ne_nil _ Nat.toDigits_ne_nil

-- A whole number reads back as it was written.
theorem value?_intText {value : Int} (h : IsWhole value) :
    (Numeral.ofText? (intText value)).bind Numeral.value? = some (.int value) := by
  obtain ⟨hlow, hhigh⟩ := h
  have hzero : (Nat.toDigits 10 value.natAbs).head? = some '0' →
      (Nat.toDigits 10 value.natAbs).length = 1 := by
    intro hhead
    rw [eq_zero_of_head?_toDigits _ hhead]
    rfl
  have hdigits := Nat.ofDigitChars_toDigits (b := 10) (n := value.natAbs) (by decide) (by decide)
  by_cases hneg : value < 0
  · have hread := Numeral.ofText?_digits (isDigits_toDigits value.natAbs) hzero true
    rw [if_pos rfl] at hread
    rw [intText_eq, if_pos hneg, hread, Option.bind_some, Numeral.value?_negative, hdigits]
    · exact congrArg (some ∘ Number.int) (by omega)
    · omega
    · omega
  · have hread := Numeral.ofText?_digits (isDigits_toDigits value.natAbs) hzero false
    rw [if_neg Bool.false_ne_true] at hread
    rw [intText_eq, if_neg hneg, hread, Option.bind_some, Numeral.value?_digits, hdigits]
    · exact congrArg (some ∘ Number.int) (by omega)
    · omega

-- What follows a value is no character of a numeral, so that a number ends where it should.
def EndsNumeral (rest : List Char) : Prop := ∀ c ∈ rest.head?, isNumeralChar c = false

theorem EndsNumeral.cons {c : Char} (h : isNumeralChar c = false) (rest : List Char) :
    EndsNumeral (c :: rest) := by
  rintro d hd
  obtain rfl : c = d := by simpa using hd
  exact h

theorem isNumeralChar_of_mem_intText {value : Int} (c : Char) (hc : c ∈ intText value) :
    isNumeralChar c = true := by
  rw [intText_eq, List.mem_append] at hc
  rcases hc with hsign | hdigit
  · split at hsign
    · obtain rfl : c = '-' := by simpa using hsign
      rfl
    · cases hsign
  · have hc := Nat.isDigit_of_mem_toDigits (by decide) (by decide) hdigit
    simp [isNumeralChar, hc]

theorem span_numeral {numeral rest : List Char} (h : ∀ c ∈ numeral, isNumeralChar c = true)
    (hrest : EndsNumeral rest) :
    (numeral ++ rest).takeWhile isNumeralChar = numeral ∧
      (numeral ++ rest).dropWhile isNumeralChar = rest := by
  rw [List.takeWhile_append_of_pos h, List.dropWhile_append_of_pos h]
  cases rest with
  | nil => simp
  | cons c rest =>
      have hc : isNumeralChar c = false := hrest c rfl
      simp [hc]

-- A numeral goes as far as its characters do.
theorem tokens?_numeral {c : Char} (hc : isNumeralChar c = true) (read : List Token)
    (more : List Char) :
    tokens? read (c :: more) =
      (Numeral.ofText? (c :: more.takeWhile isNumeralChar)).bind fun numeral =>
        tokens? (.number numeral.value? :: read) (more.dropWhile isNumeralChar) := by
  have hother : ∀ d : Char, isNumeralChar d = false → c ≠ d := by
    rintro d hd rfl
    cases hc.symm.trans hd
  have hspace : isSpace c = false := by
    have hblank := hother ' ' rfl
    have hnewline := hother '\n' rfl
    have htab := hother '\t' rfl
    have hreturn := hother '\r' rfl
    simp [isSpace, hblank, hnewline, htab, hreturn]
  rw [tokens?, hspace, if_neg Bool.false_ne_true, if_pos hc]
  · cases Numeral.ofText? (c :: more.takeWhile isNumeralChar) <;> rfl
  -- No other token begins with a character of a numeral.
  all_goals
    intros
    subst c
    cases hc

theorem tokens?_intText {value : Int} (h : IsWhole value) {rest : List Char}
    (hrest : EndsNumeral rest) (read : List Token) :
    tokens? read (intText value ++ rest) = tokens? (.number (some (.int value)) :: read) rest := by
  obtain ⟨c, more, hsplit⟩ := List.exists_cons_of_ne_nil (intText_ne_nil value)
  have hmem : ∀ d ∈ c :: more, isNumeralChar d = true := hsplit ▸ isNumeralChar_of_mem_intText
  obtain ⟨hc, hmore⟩ := List.forall_mem_cons.mp hmem
  obtain ⟨htake, hdrop⟩ := span_numeral hmore hrest
  obtain ⟨numeral, hnumeral, hvalue⟩ := Option.bind_eq_some_iff.mp (value?_intText h)
  rw [hsplit, List.cons_append, tokens?_numeral hc, htake, hdrop, ← hsplit, hnumeral,
    Option.bind_some, hvalue]

end Rollout.Json
