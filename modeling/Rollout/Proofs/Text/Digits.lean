import Rollout.Text.Digits

namespace Rollout

theorem readDecimal_eq (digits : List Char) : readDecimal digits = Nat.ofDigitChars 10 digits 0 := by
  rw [readDecimal, Nat.ofDigitChars]
  simp only [Nat.mul_comm, digitValue]

theorem readDecimal_toDigits (n : Nat) : readDecimal (Nat.toDigits 10 n) = n := by
  rw [readDecimal_eq, Nat.ofDigitChars_toDigits (by decide) (by decide)]

theorem powerOfTen_succ (places : Nat) : powerOfTen (places + 1) = powerOfTen places * 10 := rfl

theorem powerOfTen_pos (places : Nat) : 0 < powerOfTen places := Nat.pow_pos (by decide)

theorem powerOfTen_add (places more : Nat) :
    powerOfTen (places + more) = powerOfTen places * powerOfTen more := Nat.pow_add 10 places more

theorem foldl_digits (digits : List Char) (start : Nat) :
    digits.foldl (fun value c => value * 10 + digitValue c) start =
      start * powerOfTen digits.length + readDecimal digits := by
  induction digits generalizing start with
  | nil => simp [powerOfTen, readDecimal]
  | cons c digits ih =>
      rw [readDecimal, List.foldl_cons, List.foldl_cons, ih, ih (0 * 10 + digitValue c),
        List.length_cons, powerOfTen_succ, Nat.add_mul, Nat.zero_mul, Nat.zero_add, Nat.mul_assoc,
        Nat.mul_comm 10, Nat.add_assoc]

-- The first digit counts for what its place is worth.
theorem readDecimal_cons (c : Char) (digits : List Char) :
    readDecimal (c :: digits) = digitValue c * powerOfTen digits.length + readDecimal digits := by
  rw [readDecimal, List.foldl_cons, foldl_digits, Nat.zero_mul, Nat.zero_add]

theorem digitValue_lt {c : Char} (h : c.isDigit = true) : digitValue c < 10 := by
  have hhi : c.toNat ≤ 57 := by
    simp only [Char.isDigit, Bool.and_eq_true, decide_eq_true_eq, ge_iff_le] at h
    exact UInt32.le_iff_toNat_le.mp h.2
  have hzero : '0'.toNat = 48 := rfl
  unfold digitValue
  omega

theorem readDecimal_lt {digits : List Char} (h : ∀ c ∈ digits, c.isDigit = true) :
    readDecimal digits < powerOfTen digits.length := by
  induction digits with
  | nil => decide
  | cons c digits ih =>
      have hrest := ih fun d hd => h d (List.mem_cons_of_mem _ hd)
      have hc : digitValue c + 1 ≤ 10 := digitValue_lt (h c List.mem_cons_self)
      have hfirst := Nat.mul_le_mul_right (powerOfTen digits.length) hc
      rw [readDecimal_cons, List.length_cons, powerOfTen_succ]
      rw [Nat.add_mul] at hfirst
      omega

-- Zeros in front of a number leave it as it is.
theorem readDecimal_padDecimal (width n : Nat) : readDecimal (padDecimal width n) = n := by
  have hzeros : ∀ count, readDecimal (List.replicate count '0' ++ Nat.toDigits 10 n) = n := by
    intro count
    induction count with
    | zero => exact readDecimal_toDigits n
    | succ count ih =>
        have hzero : digitValue '0' = 0 := rfl
        rw [List.replicate_succ, List.cons_append, readDecimal_cons, ih, hzero, Nat.zero_mul,
          Nat.zero_add]
  exact hzeros _

theorem isDigit_of_mem_padDecimal {width n : Nat} {c : Char} (h : c ∈ padDecimal width n) :
    c.isDigit = true := by
  rcases List.mem_append.mp h with hzero | hdigit
  · rw [List.eq_of_mem_replicate hzero]
    rfl
  · exact Nat.isDigit_of_mem_toDigits (by decide) (by decide) hdigit

theorem length_padDecimal {width n : Nat} (hwidth : 0 < width) (h : n < powerOfTen width) :
    (padDecimal width n).length = width := by
  have hdigits : (Nat.toDigits 10 n).length ≤ width :=
    (Nat.length_toDigits_le_iff (by decide) hwidth).mpr h
  simp only [padDecimal, List.length_append, List.length_replicate]
  omega

end Rollout
