import Distant.Lib.Lines

/-!
# Letters and numbers

Which characters are letters and numbers is said by the tables of Unicode, which are a parameter.
What is used of them is `Unicode.Documented`: they are what they are in ASCII, and no letter and no
number is whitespace or a control character.
-/

namespace Distant

structure Unicode where
  /-- `char::is_alphabetic` -/
  isAlphabetic : Char → Bool
  /-- `char::is_numeric` -/
  isNumeric : Char → Bool

/-- `char::is_alphanumeric` -/
def Unicode.isAlphanumeric (u : Unicode) (c : Char) : Bool := u.isAlphabetic c || u.isNumeric c

/-- `char::is_ascii` -/
def isAscii (c : Char) : Bool := c.toNat < 0x80

structure Unicode.Documented (u : Unicode) : Prop where
  alphabetic : ∀ c, isAscii c = true → u.isAlphabetic c = c.isAlpha
  numeric : ∀ c, isAscii c = true → u.isNumeric c = c.isDigit
  notWhitespace : ∀ c, u.isAlphanumeric c = true → isWhitespace c = false
  notControl : ∀ c, u.isAlphanumeric c = true → isControl c = false

theorem Unicode.Documented.alphanumeric {u : Unicode} (h : u.Documented) {c : Char}
    (hc : isAscii c = true) : u.isAlphanumeric c = c.isAlphanum := by
  rw [Unicode.isAlphanumeric, h.alphabetic c hc, h.numeric c hc, Char.isAlphanum]

theorem isAlphanum_iff {c : Char} :
    c.isAlphanum = true ↔
      (65 ≤ c.toNat ∧ c.toNat ≤ 90 ∨ 97 ≤ c.toNat ∧ c.toNat ≤ 122) ∨
        48 ≤ c.toNat ∧ c.toNat ≤ 57 := by
  delta Char.isAlphanum Char.isAlpha Char.isUpper Char.isLower Char.isDigit
  simp [UInt32.le_iff_toNat_le]

theorem isAscii_of_isAlphanum {c : Char} (h : c.isAlphanum = true) : isAscii c = true := by
  rw [isAlphanum_iff] at h
  rw [isAscii, decide_eq_true_eq]
  omega

/-- The tables for ASCII alone. -/
def asciiTables : Unicode := ⟨Char.isAlpha, Char.isDigit⟩

theorem documented_asciiTables : asciiTables.Documented where
  alphabetic _ _ := rfl
  numeric _ _ := rfl
  notWhitespace c hc := by
    have h := isAlphanum_iff.mp hc
    simp only [isWhitespace, Bool.or_eq_false_iff, Bool.and_eq_false_iff, decide_eq_false_iff_not,
      beq_eq_false_iff_ne]
    omega
  notControl c hc := by
    have h := isAlphanum_iff.mp hc
    simp only [isControl, Bool.or_eq_false_iff, Bool.and_eq_false_iff, decide_eq_false_iff_not]
    omega

end Distant
