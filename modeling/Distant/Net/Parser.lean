import Mathlib.Data.List.TakeWhile
import Distant.Lib.Rust
import Distant.Lib.Text

/-!
# Parsers of a text

The combinators that the parser of a destination is made of. A parser takes a text and yields what
is left of it and a value, or the text of an error. Each combinator has an equivalence that says
when it yields what.
-/

namespace Distant

/-- `Fn(&'a str) -> PResult<'a, T>` -/
abbrev Parser (T : Type) := List Char → Except String (List Char × T)

section Combinators

variable {T T1 T2 T3 : Type}

/-- Executes parsers from left to right, and yields the result of the first that succeeds. -/
def either (left right : Parser T) : Parser T := fun s =>
  match left s with
  | .ok result => .ok result
  | .error _ => right s

/-- Executes three parsers in a row, and yields the result of the second. -/
def delimited (p1 : Parser T1) (p2 : Parser T2) (p3 : Parser T3) : Parser T2 := fun s => do
  let (s, _) ← p1 s
  let (s, value) ← p2 s
  let (s, _) ← p3 s
  return (s, value)

/-- Executes two parsers in a row, and yields the result of the second. -/
def prefixed (prefixParser : Parser T1) (parser : Parser T2) : Parser T2 := fun s => do
  let (s, _) ← prefixParser s
  let (s, value) ← parser s
  return (s, value)

/-- Yields a value if the parser succeeds, and none if it fails. -/
def maybe (parser : Parser T) : Parser (Option T) := fun s =>
  match parser s with
  | .ok (remaining, value) => .ok (remaining, some value)
  | .error _ => .ok (s, none)

/-- Feeds the result of `first` into `second`, which has to parse all of it. -/
def parseAndThen (first : Parser (List Char)) (second : Parser T) : Parser T := fun s => do
  let (s, firstS) ← first s
  let (firstS, value) ← second firstS
  if firstS = [] then .ok (s, value)
  else .error "Second parser did not fully consume results of first parser"

/-- Parses until the predicate is true, and fails if nothing is parsed. -/
def parseUntil (predicate : Char → Bool) : Parser (List Char) := fun s =>
  if s = [] then .error "Empty str"
  else
    let value := s.takeWhile fun c => !predicate c
    if value = [] then .error "Predicate immediately returned true"
    else .ok (s.dropWhile fun c => !predicate c, value)

/-- Parses a single character. All that it is used for are in ASCII, so that one byte is skipped. -/
def parseChar (c : Char) : Parser Char
  | [] => .error "Empty str"
  | d :: s => if d = c then .ok (s, c) else .error "Wrong char"

end Combinators

/-! ## When they succeed -/

section Succeeding

variable {T T1 T2 T3 : Type} {s rest : List Char} {c d : Char} {predicate : Char → Bool}
  {value : List Char} {x : T} {v : Option T} {p left right : Parser T} {first : Parser (List Char)}
  {p1 : Parser T1} {p2 : Parser T2} {p3 : Parser T3} {y : T2}

theorem parseChar_eq_ok_iff : parseChar c s = .ok (rest, d) ↔ s = c :: rest ∧ d = c := by
  cases s with
  | nil => exact iff_of_false (by simp [parseChar]) (by simp)
  | cons e s =>
      rw [parseChar]
      split_ifs with heq
      · subst heq
        grind
      · exact iff_of_false (by simp) fun h => heq (List.cons.inj h.1).1

theorem either_eq_ok_iff :
    either left right s = .ok (rest, x) ↔
      left s = .ok (rest, x) ∨ (∃ e, left s = .error e) ∧ right s = .ok (rest, x) := by
  unfold either
  cases left s with
  | ok result => simp
  | error e => simp

theorem maybe_eq_ok_iff :
    maybe p s = .ok (rest, v) ↔
      (∃ x, v = some x ∧ p s = .ok (rest, x)) ∨ v = none ∧ rest = s ∧ ∃ e, p s = .error e := by
  unfold maybe
  cases p s with
  | ok result => grind
  | error e => grind

theorem prefixed_eq_ok_iff :
    prefixed p1 p2 s = .ok (rest, y) ↔
      ∃ s₁ x, p1 s = .ok (s₁, x) ∧ p2 s₁ = .ok (rest, y) := by
  unfold prefixed
  rw [bind_eq_ok_iff]
  constructor
  · rintro ⟨⟨s₁, x⟩, hfirst, hrest⟩
    obtain ⟨⟨s₂, z⟩, hsecond, heq⟩ := bind_eq_ok_iff.mp hrest
    cases heq
    exact ⟨s₁, x, hfirst, hsecond⟩
  · rintro ⟨s₁, x, hfirst, hsecond⟩
    exact ⟨(s₁, x), hfirst, bind_eq_ok_iff.mpr ⟨(rest, y), hsecond, rfl⟩⟩

theorem delimited_eq_ok_iff :
    delimited p1 p2 p3 s = .ok (rest, y) ↔
      ∃ s₁ x s₂ z, p1 s = .ok (s₁, x) ∧ p2 s₁ = .ok (s₂, y) ∧ p3 s₂ = .ok (rest, z) := by
  unfold delimited
  rw [bind_eq_ok_iff]
  constructor
  · rintro ⟨⟨s₁, x⟩, hfirst, hrest⟩
    obtain ⟨⟨s₂, y'⟩, hsecond, hrest⟩ := bind_eq_ok_iff.mp hrest
    obtain ⟨⟨s₃, z⟩, hthird, heq⟩ := bind_eq_ok_iff.mp hrest
    cases heq
    exact ⟨s₁, x, s₂, z, hfirst, hsecond, hthird⟩
  · rintro ⟨s₁, x, s₂, z, hfirst, hsecond, hthird⟩
    refine ⟨(s₁, x), hfirst, bind_eq_ok_iff.mpr ⟨(s₂, y), hsecond, ?_⟩⟩
    exact bind_eq_ok_iff.mpr ⟨(rest, z), hthird, rfl⟩

theorem parseAndThen_eq_ok_iff :
    parseAndThen first p s = .ok (rest, x) ↔
      ∃ firstS, first s = .ok (rest, firstS) ∧ p firstS = .ok ([], x) := by
  unfold parseAndThen
  rw [bind_eq_ok_iff]
  constructor
  · rintro ⟨⟨s₁, firstS⟩, hfirst, hrest⟩
    obtain ⟨⟨s₂, y⟩, hsecond, heq⟩ := bind_eq_ok_iff.mp hrest
    simp only at heq
    split_ifs at heq with hnil
    cases heq
    subst hnil
    exact ⟨firstS, hfirst, hsecond⟩
  · rintro ⟨firstS, hfirst, hsecond⟩
    exact ⟨(rest, firstS), hfirst, bind_eq_ok_iff.mpr ⟨([], x), hsecond, rfl⟩⟩

/-- The value ends where the predicate is true first, or the text ends. -/
theorem parseUntil_eq_ok_iff :
    parseUntil predicate s = .ok (rest, value) ↔
      s = value ++ rest ∧ value ≠ [] ∧ (∀ c ∈ value, predicate c = false) ∧
        ∀ c, rest.head? = some c → predicate c = true := by
  unfold parseUntil
  constructor
  · intro h
    simp only at h
    split_ifs at h with hs hvalue
    cases h
    refine ⟨(List.takeWhile_append_dropWhile ..).symm, hvalue, ?_, ?_⟩
    · intro c hc
      simpa using List.mem_takeWhile_imp hc
    · intro c hc
      have hnot := List.head?_dropWhile_not (fun c => !predicate c) s
      rw [hc] at hnot
      simpa using hnot
  · rintro ⟨rfl, hne, hall, hrest⟩
    have htake : (value ++ rest).takeWhile (fun c => !predicate c) = value ∧
        (value ++ rest).dropWhile (fun c => !predicate c) = rest := by
      apply takeWhile_dropWhile_append
      · intro c hc
        rw [hall c hc]
        rfl
      · intro c hc
        rw [hrest c hc]
        rfl
    rw [if_neg (by simp [hne]), htake.1, htake.2]
    exact if_neg hne

end Succeeding

end Distant
