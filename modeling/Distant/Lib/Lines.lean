import Mathlib.Data.List.DropRight
import Distant.Lib.Utf8

/-!
# Text in lines

The pieces of the string API by which a text is read line by line and taken apart again:
`BufRead::read_line`, `str::split("\r\n")` and `str::trim`.
-/

namespace Distant

/-- `char::is_whitespace` -/
def isWhitespace (c : Char) : Bool :=
  (9 ≤ c.toNat && c.toNat ≤ 13) || c.toNat == 0x20 || c.toNat == 0x85 || c.toNat == 0xa0 ||
    c.toNat == 0x1680 || (0x2000 ≤ c.toNat && c.toNat ≤ 0x200a) || c.toNat == 0x2028 ||
    c.toNat == 0x2029 || c.toNat == 0x202f || c.toNat == 0x205f || c.toNat == 0x3000

/-- `char::is_control` -/
def isControl (c : Char) : Bool := c.toNat < 0x20 || (0x7f ≤ c.toNat && c.toNat ≤ 0x9f)

/-- `str::trim` -/
def trim (s : List Char) : List Char := (s.dropWhile isWhitespace).rdropWhile isWhitespace

/-- `s.split("\r\n")` -/
def splitCrlf : List Char → List (List Char)
  | [] => [[]]
  | '\r' :: '\n' :: cs => [] :: splitCrlf cs
  | c :: cs =>
    match splitCrlf cs with
    | [] => [[c]]
    | line :: lines => (c :: line) :: lines

/-- The bytes up to the first newline, which belongs to them, and those behind it. -/
def takeLine : Bytes → Bytes × Bytes
  | [] => ([], [])
  | b :: bs =>
    if b = 0x0a then ([b], bs)
    else
      let (line, rest) := takeLine bs
      (b :: line, rest)

/-- A line without the carriage return that may stand in front of its line feed. -/
def stripCr (line : List Char) : List Char :=
  if line.getLast? = some '\r' then line.dropLast else line

/-- The lines of a text of which `begun` was read already. -/
def linesFrom (begun : List Char) : List Char → List (List Char)
  | [] => if begun = [] then [] else [begun]
  | c :: cs => if c = '\n' then stripCr begun :: linesFrom [] cs else linesFrom (begun ++ [c]) cs

/-- `str::lines` -/
def strLines (s : List Char) : List (List Char) := linesFrom [] s

/-- A line as it ends. -/
def crlf (line : String) : String := line ++ "\r\n"

/-! ## Lines of bytes -/

theorem takeLine_of_not_mem {bs : Bytes} (h : 0x0a ∉ bs) : takeLine bs = (bs, []) := by
  induction bs with
  | nil => rfl
  | cons b bs ih =>
      rw [List.mem_cons, not_or] at h
      rw [takeLine, if_neg fun heq => h.1 heq.symm, ih h.2]

theorem takeLine_append {bs : Bytes} (h : 0x0a ∉ bs) (rest : Bytes) :
    takeLine (bs ++ 0x0a :: rest) = (bs ++ [0x0a], rest) := by
  induction bs with
  | nil => rfl
  | cons b bs ih =>
      rw [List.mem_cons, not_or] at h
      rw [List.cons_append, takeLine, if_neg fun heq => h.1 heq.symm, ih h.2]
      rfl

theorem newline_mem_utf8Bytes_iff {s : String} : 0x0a ∈ utf8Bytes s ↔ '\n' ∈ s.toList :=
  mem_utf8Bytes_iff (by decide) rfl

/-- The bytes of a line, without the newline, have none. -/
theorem not_mem_line {line : String} (h : '\n' ∉ line.toList) : 0x0a ∉ utf8Bytes line ++ [0x0d] := by
  rw [List.mem_append, not_or]
  exact ⟨fun hmem => h (newline_mem_utf8Bytes_iff.mp hmem), by decide⟩

theorem utf8Bytes_crlf (line : String) :
    utf8Bytes (crlf line) = utf8Bytes line ++ [0x0d] ++ [0x0a] := by
  rw [crlf, utf8Bytes_append, List.append_assoc]
  rfl

theorem takeLine_crlf {line : String} (h : '\n' ∉ line.toList) (rest : Bytes) :
    takeLine (utf8Bytes (crlf line) ++ rest) = (utf8Bytes (crlf line), rest) := by
  rw [utf8Bytes_crlf, List.append_assoc _ [0x0a], List.singleton_append]
  exact takeLine_append (not_mem_line h) rest

/-- What is cut off a line has no newline. -/
theorem not_mem_of_prefix_crlf {line : String} (h : '\n' ∉ line.toList) {p : Bytes}
    (hp : p <+: utf8Bytes (crlf line)) (hne : p ≠ utf8Bytes (crlf line)) : 0x0a ∉ p := by
  rw [utf8Bytes_crlf] at hp hne
  rcases List.prefix_concat_iff.mp hp with heq | hp
  · exact absurd heq hne
  · exact fun hmem => not_mem_line h (hp.subset hmem)

/-! ## Lines of text -/

theorem splitCrlf_cons {c : Char} {cs line : List Char} {lines : List (List Char)}
    (hc : c = '\r' → cs.head? ≠ some '\n') (h : splitCrlf cs = line :: lines) :
    splitCrlf (c :: cs) = (c :: line) :: lines := by
  rw [splitCrlf, h]
  rintro cs' rfl rfl
  exact hc rfl rfl

/-- A line and what follows it. -/
theorem splitCrlf_crlf {line : List Char} (h : '\n' ∉ line) (rest : List Char) :
    splitCrlf (line ++ '\r' :: '\n' :: rest) = line :: splitCrlf rest := by
  induction line with
  | nil => rfl
  | cons c line ih =>
      rw [List.mem_cons, not_or] at h
      rw [List.cons_append]
      refine splitCrlf_cons (fun _ => ?_) (ih h.2)
      cases line with
      | nil => simp
      | cons d line =>
          rw [List.mem_cons, not_or] at h
          simpa using fun heq => h.2.1 heq.symm

theorem isWhitespace_of_isDigit {c : Char} (h : c.isDigit = true) : isWhitespace c = false := by
  have hbounds : 48 ≤ c.toNat ∧ c.toNat ≤ 57 := by
    simpa [Char.isDigit, UInt32.le_iff_toNat_le] using h
  simp [isWhitespace]
  omega

theorem trim_of_space (s : List Char) : trim (' ' :: s) = trim s := rfl

theorem trim_of_forall {s : List Char} (h : ∀ c ∈ s, isWhitespace c = false) : trim s = s := by
  have hdrop : s.dropWhile isWhitespace = s := by
    rw [List.dropWhile_eq_self_iff]
    intro hpos
    rw [h _ (List.getElem_mem hpos)]
    exact Bool.false_ne_true
  rw [trim, hdrop, List.rdropWhile_eq_self_iff]
  intro hne
  rw [h _ (List.getLast_mem hne)]
  exact Bool.false_ne_true

/-- A text that begins with no whitespace, and ends as a trimmed one does. -/
theorem trim_append {c : Char} {s t : List Char} (hc : isWhitespace c = false) (hne : t ≠ [])
    (ht : trim t = t) : trim (c :: (s ++ t)) = c :: (s ++ t) := by
  have hdrop : (c :: (s ++ t)).dropWhile isWhitespace = c :: (s ++ t) := by
    rw [List.dropWhile_cons, hc]
    rfl
  have hlast : ¬ isWhitespace (t.getLast hne) = true := by
    have hne' : (t.dropWhile isWhitespace).rdropWhile isWhitespace ≠ [] := by
      rw [show (t.dropWhile isWhitespace).rdropWhile isWhitespace = t from ht]
      exact hne
    have h := List.rdropWhile_last_not isWhitespace (t.dropWhile isWhitespace) hne'
    simpa only [show (t.dropWhile isWhitespace).rdropWhile isWhitespace = t from ht] using h
  rw [trim, hdrop, ← List.cons_append, List.rdropWhile_eq_self_iff]
  intro _
  rwa [List.getLast_append_of_ne_nil _ hne]

/-! ## `str::lines` -/

theorem linesFrom_append {line : List Char} (h : '\n' ∉ line) (begun rest : List Char) :
    linesFrom begun (line ++ '\n' :: rest) = stripCr (begun ++ line) :: strLines rest := by
  induction line generalizing begun with
  | nil => simp [linesFrom, strLines]
  | cons c line ih =>
      rw [List.mem_cons, not_or] at h
      rw [List.cons_append, linesFrom, if_neg (Ne.symm h.1), ih h.2, List.append_assoc]
      rfl

/-- Lines that end in a line feed each. -/
theorem strLines_flatMap {α : Type} {f : α → List Char} {as : List α} (h : ∀ a ∈ as, '\n' ∉ f a) :
    strLines (as.flatMap fun a => f a ++ ['\n']) = as.map fun a => stripCr (f a) := by
  induction as with
  | nil => rfl
  | cons a as ih =>
      have ih := ih fun b hb => h b (List.mem_cons_of_mem _ hb)
      rw [List.flatMap_cons, List.append_assoc, List.singleton_append, strLines,
        linesFrom_append (h a List.mem_cons_self), ih]
      rfl

theorem stripCr_append {c : Char} (hc : c ≠ '\r') (s t : List Char) :
    stripCr (s ++ c :: t) = s ++ c :: stripCr t := by
  cases t with
  | nil => simp [stripCr, hc]
  | cons d t =>
      unfold stripCr
      rw [List.getLast?_append_cons, List.getLast?_cons_cons, List.dropLast_append_cons,
        List.dropLast_cons_cons]
      split <;> rfl

theorem stripCr_eq_iff (s : List Char) : stripCr s = s ↔ s.getLast? ≠ some '\r' := by
  unfold stripCr
  split
  · next hlast =>
      refine ⟨fun h => ?_, fun h => absurd hlast h⟩
      have hlen := congrArg List.length h
      rw [List.length_dropLast] at hlen
      have hnil : s = [] := List.eq_nil_of_length_eq_zero (by omega)
      rw [hnil] at hlast
      cases hlast
  · next hlast => exact ⟨fun _ => hlast, fun _ => rfl⟩

/-- No line has a line feed in it. -/
theorem not_mem_of_mem_linesFrom {begun s line : List Char} (hbegun : '\n' ∉ begun)
    (h : line ∈ linesFrom begun s) : '\n' ∉ line := by
  induction s generalizing begun with
  | nil =>
      rw [linesFrom] at h
      split at h
      · cases h
      · rwa [List.mem_singleton.mp h]
  | cons c s ih =>
      rw [linesFrom] at h
      split at h
      · rcases List.mem_cons.mp h with rfl | h
        · unfold stripCr
          split
          · exact fun hmem => hbegun (List.dropLast_subset _ hmem)
          · exact hbegun
        · exact ih (by simp) h
      · next hc =>
          refine ih ?_ h
          rw [List.mem_append, not_or, List.mem_singleton]
          exact ⟨hbegun, fun heq => hc heq.symm⟩

end Distant
