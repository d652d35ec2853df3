namespace Rollout

-- The characters with the Unicode property White_Space, as inclusive ranges.
-- The zero-width space, the byte order mark and the ASCII separators 1C to 1F
-- are not among them.
def blankRanges : List (Nat × Nat) :=
  [(0x09, 0x0D), (0x20, 0x20), (0x85, 0x85), (0xA0, 0xA0), (0x1680, 0x1680),
   (0x2000, 0x200A), (0x2028, 0x2029), (0x202F, 0x202F), (0x205F, 0x205F), (0x3000, 0x3000)]

def isBlank (c : Char) : Bool :=
  blankRanges.any fun range => range.1 ≤ c.toNat && c.toNat ≤ range.2

-- A text is blank when it holds white space only, or nothing at all.
def isBlankText (text : String) : Bool :=
  text.toList.all isBlank

theorem isBlank_newline : isBlank '\n' = true := by decide

theorem isBlank_return : isBlank '\r' = true := by decide

theorem isBlank_space : isBlank ' ' = true := by decide

-- No digit is white space, so a run of white space ends where digits begin.
theorem isBlank_eq_false_of_isDigit (c : Char) (h : c.isDigit = true) : isBlank c = false := by
  have hlo : 48 ≤ c.toNat := by
    simp only [Char.isDigit, Bool.and_eq_true, decide_eq_true_eq, ge_iff_le] at h
    exact UInt32.le_iff_toNat_le.mp h.1
  have hhi : c.toNat ≤ 57 := by
    simp only [Char.isDigit, Bool.and_eq_true, decide_eq_true_eq, ge_iff_le] at h
    exact UInt32.le_iff_toNat_le.mp h.2
  simp [isBlank, blankRanges]
  omega

end Rollout
