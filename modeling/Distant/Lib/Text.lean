import Mathlib.Algebra.Group.Nat.Defs
import Mathlib.Data.List.TakeDrop
import Mathlib.Tactic.Common

/-!
# Numbers as text

The pieces of the string API by which a number is put into a text and found again:
`format!("{}", n)`, `str::parse` and `str::split_once`. The results are that a number put in front
with a separator behind it is found again (`splitOnce_append`, `parseU32_formatU32`), whatever
follows, and that the decimal digits of a number are parsed as the number (`parseUsize_toDigits`).
-/

namespace Distant

/-- `s.split_once(sep)`: what stands before the first separator, and what stands behind it. -/
def splitOnce (sep : Char) (s : String) : Option (String × String) :=
  match s.toList.span (· != sep) with
  | (_, []) => none
  | (before, _ :: after) => some (String.ofList before, String.ofList after)

/-- `s.splitn(n, sep)`: no more than `n` parts, of which the last one has all that is left. -/
def splitn (sep : Char) : Nat → List Char → List (List Char)
  | 0, _ => []
  | 1, s => [s]
  | n + 2, s =>
    match s.span (· != sep) with
    | (_, []) => [s]
    | (part, _ :: rest) => part :: splitn sep (n + 1) rest

/-- `s.parse::<u32>()`: an optional `+` and decimal digits, for a number that fits. -/
def parseU32 (s : String) : Option UInt32 :=
  let digits :=
    match s.toList with
    | '+' :: cs => cs
    | cs => cs
  if digits.isEmpty || !digits.all Char.isDigit then none
  else if h : Nat.ofDigitChars 10 digits 0 < 2 ^ 32 then
    some (UInt32.ofNatLT (Nat.ofDigitChars 10 digits 0) h)
  else none

/-- `format!("{n}")` -/
def formatU32 (n : UInt32) : String := Nat.repr n.toNat

/-! ## Runs -/

/-- A run ends where the text does, or at the first element that does not belong to it. -/
theorem takeWhile_dropWhile_append {α : Type} {p : α → Bool} {run rest : List α}
    (hrun : ∀ a ∈ run, p a = true) (hrest : ∀ a, rest.head? = some a → p a = false) :
    (run ++ rest).takeWhile p = run ∧ (run ++ rest).dropWhile p = rest := by
  rw [List.takeWhile_append_of_pos hrun, List.dropWhile_append_of_pos hrun]
  cases rest with
  | nil => simp
  | cons a rest => simp [hrest a rfl]

/-- What stands in front of the first `c`. -/
theorem span_ne_append {c : Char} {s : List Char} (h : c ∉ s) (rest : List Char) :
    (s ++ c :: rest).span (· != c) = (s, c :: rest) := by
  have hrun : ∀ d ∈ s, (d != c) = true := fun d hd => bne_iff_ne.mpr fun heq => h (heq ▸ hd)
  have hsplit := takeWhile_dropWhile_append hrun
    (show ∀ d, (c :: rest).head? = some d → (d != c) = false by simp)
  rw [List.span_eq_takeWhile_dropWhile, hsplit.1, hsplit.2]

theorem splitOnce_append {sep : Char} {s : String} (hs : sep ∉ s.toList) (t : String) :
    splitOnce sep (s ++ String.singleton sep ++ t) = some (s, t) := by
  have hlist : (s ++ String.singleton sep ++ t).toList = s.toList ++ sep :: t.toList := by simp
  simp only [splitOnce, hlist, span_ne_append hs, String.ofList_toList]

theorem splitn_append {sep : Char} {s : List Char} (h : sep ∉ s) (n : Nat) (rest : List Char) :
    splitn sep (n + 2) (s ++ sep :: rest) = s :: splitn sep (n + 1) rest := by
  rw [splitn, span_ne_append h]

/-- A part that is not the last one has no separator. -/
theorem not_mem_of_splitn {sep : Char} {n : Nat} {s part : List Char} {parts : List (List Char)}
    (h : splitn sep (n + 2) s = part :: parts) : sep ∉ part ∧ ∀ c ∈ part, c ∈ s := by
  have hrun : ∀ c ∈ s.takeWhile (· != sep), c ≠ sep := fun c hc =>
    bne_iff_ne.mp (List.all_eq_true.mp List.all_takeWhile c hc)
  have hsplit := @List.takeWhile_append_dropWhile _ (· != sep) s
  rw [splitn, List.span_eq_takeWhile_dropWhile] at h
  cases hrest : s.dropWhile (· != sep) with
  | nil =>
      rw [hrest, List.append_nil] at hsplit
      simp only [hrest, List.cons.injEq] at h
      rw [hsplit] at hrun
      rw [← h.1]
      exact ⟨fun hmem => hrun sep hmem rfl, fun _ hc => hc⟩
  | cons c rest =>
      simp only [hrest, List.cons.injEq] at h
      rw [← h.1]
      exact ⟨fun hmem => hrun sep hmem rfl, fun _ hc => (List.takeWhile_prefix _).subset hc⟩

theorem not_mem_formatU32 {c : Char} (hc : c.isDigit = false) (n : UInt32) :
    c ∉ (formatU32 n).toList := by
  intro hmem
  rw [formatU32, Nat.toList_repr] at hmem
  have hdigit := Nat.isDigit_of_mem_toDigits (by decide) (by decide) hmem
  rw [hc] at hdigit
  cases hdigit

theorem parseU32_formatU32 (n : UInt32) : parseU32 (formatU32 n) = some n := by
  have hplus := not_mem_formatU32 (c := '+') (by decide) n
  have hlist : (formatU32 n).toList = Nat.toDigits 10 n.toNat := Nat.toList_repr
  rw [hlist] at hplus
  have hdigits : ∀ c ∈ Nat.toDigits 10 n.toNat, c.isDigit = true := fun _ =>
    Nat.isDigit_of_mem_toDigits (by decide) (by decide)
  have hvalue : Nat.ofDigitChars 10 (Nat.toDigits 10 n.toNat) 0 = n.toNat :=
    Nat.ofDigitChars_ten_toDigits
  unfold parseU32
  rw [hlist]
  -- no digit is the sign that the parser skips
  have hskip : (match Nat.toDigits 10 n.toNat with
      | '+' :: cs => cs
      | cs => cs) = Nat.toDigits 10 n.toNat := by
    split
    · next cs heq =>
        rw [heq] at hplus
        exact absurd List.mem_cons_self hplus
    · rfl
  rw [hskip]
  have hok : ((Nat.toDigits 10 n.toNat).isEmpty || !(Nat.toDigits 10 n.toNat).all Char.isDigit) =
      false := by
    rw [Bool.or_eq_false_iff]
    exact ⟨by simp, by simpa using hdigits⟩
  simp only [hok, hvalue, Bool.false_eq_true, if_false]
  rw [dif_pos n.toNat_lt]
  exact congrArg some (UInt32.ofNatLT_toNat n)

/-! ## Ports -/

/-- `s.parse::<u16>()`: an optional `+` and decimal digits, for a number that fits. -/
def parseU16 (s : List Char) : Option UInt16 :=
  let digits :=
    match s with
    | '+' :: cs => cs
    | cs => cs
  if digits.isEmpty || !digits.all Char.isDigit then none
  else if h : Nat.ofDigitChars 10 digits 0 < 2 ^ 16 then
    some (UInt16.ofNatLT (Nat.ofDigitChars 10 digits 0) h)
  else none

/-- `format!("{n}")` -/
def formatU16 (n : UInt16) : List Char := Nat.toDigits 10 n.toNat

theorem isDigit_of_mem_formatU16 {n : UInt16} {c : Char} (hc : c ∈ formatU16 n) :
    c.isDigit = true :=
  Nat.isDigit_of_mem_toDigits (by decide) (by decide) hc

theorem parseU16_formatU16 (n : UInt16) : parseU16 (formatU16 n) = some n := by
  have hvalue : Nat.ofDigitChars 10 (formatU16 n) 0 = n.toNat := Nat.ofDigitChars_ten_toDigits
  have hplus : '+' ∉ formatU16 n := fun hc => absurd (isDigit_of_mem_formatU16 hc) (by decide)
  unfold parseU16
  split
  · next cs heq =>
      rw [heq] at hplus
      exact absurd List.mem_cons_self hplus
  · have hok : ((formatU16 n).isEmpty || !(formatU16 n).all Char.isDigit) = false := by
      rw [Bool.or_eq_false_iff]
      refine ⟨by simp [formatU16], ?_⟩
      rw [Bool.not_eq_false', List.all_eq_true]
      exact fun _ => isDigit_of_mem_formatU16
    simp only [hok, hvalue, Bool.false_eq_true, if_false]
    rw [dif_pos n.toNat_lt]
    exact congrArg some (UInt16.ofNatLT_toNat n)

/-! ## Sizes -/

inductive IntErrorKind where
  | empty
  | invalidDigit
  | posOverflow
  deriving DecidableEq, Repr

/-- The loop of `parse::<usize>` over the digits. -/
def parseDigits : List Char → Nat → Except IntErrorKind Nat
  | [], acc => .ok acc
  | c :: cs, acc =>
    if c.isDigit then
      let next := 10 * acc + (c.toNat - '0'.toNat)
      if next < 2 ^ 64 then parseDigits cs next else .error .posOverflow
    else .error .invalidDigit

/-- `s.parse::<usize>()`: an optional `+` and decimal digits. -/
def parseUsize : List Char → Except IntErrorKind Nat
  | [] => .error .empty
  | ['+'] => .error .invalidDigit
  | '+' :: cs => parseDigits cs 0
  | cs => parseDigits cs 0

theorem le_ofDigitChars (cs : List Char) (acc : Nat) : acc ≤ Nat.ofDigitChars 10 cs acc := by
  induction cs generalizing acc with
  | nil => simp
  | cons c cs ih =>
      rw [Nat.ofDigitChars_cons]
      have h := ih (10 * acc + (c.toNat - '0'.toNat))
      omega

theorem parseDigits_of_lt {cs : List Char} {acc : Nat} (hdigits : ∀ c ∈ cs, c.isDigit = true)
    (hlt : Nat.ofDigitChars 10 cs acc < 2 ^ 64) :
    parseDigits cs acc = .ok (Nat.ofDigitChars 10 cs acc) := by
  induction cs generalizing acc with
  | nil => simp [parseDigits]
  | cons c cs ih =>
      rw [Nat.ofDigitChars_cons] at hlt ⊢
      have hle := le_ofDigitChars cs (10 * acc + (c.toNat - '0'.toNat))
      rw [parseDigits, if_pos (hdigits c List.mem_cons_self)]
      simp only [if_pos (Nat.lt_of_le_of_lt hle hlt)]
      exact ih (fun d hd => hdigits d (List.mem_cons_of_mem _ hd)) hlt

theorem isDigit_of_mem_toDigits {n : Nat} {c : Char} (hc : c ∈ Nat.toDigits 10 n) :
    c.isDigit = true :=
  Nat.isDigit_of_mem_toDigits (by decide) (by decide) hc

theorem parseUsize_toDigits {n : Nat} (h : n < 2 ^ 64) :
    parseUsize (Nat.toDigits 10 n) = .ok n := by
  have hdigits : ∀ c ∈ Nat.toDigits 10 n, c.isDigit = true := fun _ => isDigit_of_mem_toDigits
  have hvalue : Nat.ofDigitChars 10 (Nat.toDigits 10 n) 0 = n := Nat.ofDigitChars_ten_toDigits
  have hparse := parseDigits_of_lt hdigits (hvalue.symm ▸ h)
  rw [hvalue] at hparse
  have hplus : '+' ∉ Nat.toDigits 10 n := fun hmem => absurd (hdigits _ hmem) (by decide)
  have hne : Nat.toDigits 10 n ≠ [] := by
    intro hnil
    rw [hnil, Nat.ofDigitChars_nil] at hvalue
    rw [← hvalue, Nat.toDigits_zero] at hnil
    cases hnil
  unfold parseUsize
  split
  · next hnil => exact absurd hnil hne
  · next heq => exact absurd (heq ▸ List.mem_singleton_self _) hplus
  · next heq => exact absurd (heq ▸ List.mem_cons_self) hplus
  · exact hparse

end Distant
