import Mathlib.Data.List.Basic

/-!
# Replacing in a text, and splitting it

`str::replace`, `str::split_once` and `str::match_indices` for a pattern that is not empty. What
replacing does at the front of a text is `replace_front` and `replace_cons`; a pattern of one
character is replaced character by character (`replace_singleton`). A text is split where the
pattern is first, which is behind a part that does not have the first character of the pattern
(`splitAtFirst_append`).
-/

namespace Distant

/-- The occurrences are looked for from the left. Behind one, the characters that belong to it are
skipped. -/
def replaceFrom (old new : List Char) : Nat → List Char → List Char
  | _, [] => []
  | skip + 1, _ :: cs => replaceFrom old new skip cs
  | 0, c :: cs =>
    if old.isPrefixOf (c :: cs) then new ++ replaceFrom old new (old.length - 1) cs
    else c :: replaceFrom old new 0 cs

/-- `str::replace`, for a pattern that is not empty. -/
def replace (old new s : List Char) : List Char := replaceFrom old new 0 s

section Replace

variable {old new s : List Char} {c : Char}

@[simp] theorem replace_nil : replace old new [] = [] := rfl

theorem replaceFrom_append (skipped s : List Char) :
    replaceFrom old new skipped.length (skipped ++ s) = replace old new s := by
  induction skipped with
  | nil => rfl
  | cons c skipped ih => exact ih

theorem replace_front (hold : old ≠ []) (s : List Char) :
    replace old new (old ++ s) = new ++ replace old new s := by
  cases old with
  | nil => exact absurd rfl hold
  | cons c old =>
      have hfront : (c :: old).isPrefixOf (c :: (old ++ s)) = true :=
        List.isPrefixOf_iff_prefix.mpr (List.prefix_append (c :: old) s)
      rw [List.cons_append, replace, replaceFrom, if_pos hfront]
      congr 1
      exact replaceFrom_append old s

theorem replace_cons (h : ¬ old <+: c :: s) :
    replace old new (c :: s) = c :: replace old new s := by
  rw [replace, replaceFrom, if_neg (by rwa [List.isPrefixOf_iff_prefix])]
  rfl

theorem replace_singleton (c : Char) (new s : List Char) :
    replace [c] new s = s.flatMap fun d => if d = c then new else [d] := by
  induction s with
  | nil => rfl
  | cons d s ih =>
      rw [List.flatMap_cons, ← ih]
      by_cases hd : d = c
      · subst hd
        rw [if_pos rfl]
        exact replace_front (List.cons_ne_nil _ _) s
      · rw [if_neg hd, List.singleton_append]
        apply replace_cons
        rw [List.cons_prefix_cons]
        exact fun hboth => hd hboth.1.symm

end Replace

/-- `str::split_once`, for a pattern that is not empty. -/
def splitAtFirst (sep : List Char) : List Char → Option (List Char × List Char)
  | [] => none
  | c :: cs =>
    if sep.isPrefixOf (c :: cs) then some ([], (c :: cs).drop sep.length)
    else (splitAtFirst sep cs).map fun (before, after) => (c :: before, after)

section Split

variable {sep s before after : List Char} {c : Char}

theorem splitAtFirst_cons (sep : List Char) (c : Char) (s : List Char) :
    splitAtFirst sep (c :: s) =
      if sep.isPrefixOf (c :: s) then some ([], (c :: s).drop sep.length)
      else (splitAtFirst sep s).map fun parts => (c :: parts.1, parts.2) := rfl

theorem splitAtFirst_append {cs : List Char} (h : c ∉ before) (after : List Char) :
    splitAtFirst (c :: cs) (before ++ (c :: (cs ++ after))) = some (before, after) := by
  induction before with
  | nil =>
      have hfront : (c :: cs).isPrefixOf (c :: (cs ++ after)) = true :=
        List.isPrefixOf_iff_prefix.mpr (List.prefix_append (c :: cs) after)
      rw [List.nil_append, splitAtFirst_cons, if_pos hfront, ← List.cons_append, List.drop_left' rfl]
  | cons d before ih =>
      rw [List.mem_cons, not_or] at h
      rw [List.cons_append, splitAtFirst_cons, if_neg, ih h.2]
      · rfl
      · rw [List.isPrefixOf_iff_prefix, List.cons_prefix_cons]
        exact fun hboth => h.1 hboth.1

theorem eq_append_of_splitAtFirst (h : splitAtFirst sep s = some (before, after)) :
    s = before ++ (sep ++ after) := by
  induction s generalizing before with
  | nil => cases h
  | cons d s ih =>
      rw [splitAtFirst_cons] at h
      split at h
      · next hfront =>
          obtain ⟨rest, hrest⟩ := List.isPrefixOf_iff_prefix.mp hfront
          cases h
          rw [← hrest, List.drop_left' rfl]
          rfl
      · obtain ⟨⟨before', after'⟩, hsplit, heq⟩ := Option.map_eq_some_iff.mp h
        cases heq
        rw [ih hsplit, List.cons_append]

theorem splitAtFirst_eq_none {cs : List Char} (h : c ∉ s) : splitAtFirst (c :: cs) s = none := by
  cases hsplit : splitAtFirst (c :: cs) s with
  | none => rfl
  | some x =>
      rw [eq_append_of_splitAtFirst hsplit] at h
      simp at h

/-- Nothing is split exactly where the separator occurs nowhere. -/
theorem splitAtFirst_eq_none_iff (hsep : sep ≠ []) : splitAtFirst sep s = none ↔ ¬ sep <:+: s := by
  induction s with
  | nil => simpa [splitAtFirst] using hsep
  | cons d s ih =>
      rw [splitAtFirst_cons, List.infix_cons_iff, not_or, ← ih, ← List.isPrefixOf_iff_prefix]
      split
      · next hfront => simp [hfront]
      · next hfront => simp [hfront]

theorem splitAtFirst_singleton_iff :
    splitAtFirst [c] s = some (before, after) ↔ s = before ++ c :: after ∧ c ∉ before := by
  constructor
  · intro h
    have hs := eq_append_of_splitAtFirst h
    refine ⟨hs, ?_⟩
    induction s generalizing before with
    | nil => cases h
    | cons d s ih =>
        rw [splitAtFirst_cons] at h
        split at h
        · cases h
          exact List.not_mem_nil
        · next hfront =>
            obtain ⟨⟨before', after'⟩, hsplit, heq⟩ := Option.map_eq_some_iff.mp h
            cases heq
            rw [List.mem_cons, not_or]
            refine ⟨?_, ih hsplit (eq_append_of_splitAtFirst hsplit)⟩
            rintro rfl
            exact hfront (by simp [List.isPrefixOf])
  · rintro ⟨rfl, hc⟩
    exact splitAtFirst_append hc after

end Split

/-! ## Where a pattern is -/

/-- The places of a pattern from the left, behind the characters of `before`: what stands in front
of each, and what begins with it. Characters that belong to a place are skipped. -/
def matchSplitsFrom (pat : List Char) : Nat → List Char → List Char → List (List Char × List Char)
  | _, _, [] => []
  | skip + 1, before, c :: s => matchSplitsFrom pat skip (before ++ [c]) s
  | 0, before, c :: s =>
    if pat.isPrefixOf (c :: s) then
      (before, c :: s) :: matchSplitsFrom pat (pat.length - 1) (before ++ [c]) s
    else matchSplitsFrom pat 0 (before ++ [c]) s

/-- `str::split_at` at each of `str::match_indices`, for a pattern that is not empty. -/
def matchSplits (pat s : List Char) : List (List Char × List Char) := matchSplitsFrom pat 0 [] s

section Matches

variable {pat pre : List Char}

theorem matchSplitsFrom_append (hpat : pat ≠ []) (hpre : ¬ pat <:+: pre)
    (hlast : ∀ c, pre.getLast? = some c → c ∉ pat) (before rest : List Char) :
    ∃ places, matchSplitsFrom pat 0 before (pre ++ (pat ++ rest)) =
      (before ++ pre, pat ++ rest) :: places := by
  induction pre generalizing before with
  | nil =>
      obtain ⟨c, cs, rfl⟩ := List.exists_cons_of_ne_nil hpat
      have hfront : (c :: cs).isPrefixOf (c :: (cs ++ rest)) = true :=
        List.isPrefixOf_iff_prefix.mpr (List.prefix_append (c :: cs) rest)
      rw [List.nil_append, List.cons_append, matchSplitsFrom, if_pos hfront, List.append_nil]
      exact ⟨_, rfl⟩
  | cons c pre ih =>
      have hnot : ¬ pat.isPrefixOf (c :: (pre ++ (pat ++ rest))) = true := by
        rw [List.isPrefixOf_iff_prefix, ← List.cons_append]
        intro hfront
        rcases List.prefix_or_prefix_of_prefix hfront (List.prefix_append (c :: pre) _) with
          hin | hover
        · exact hpre hin.isInfix
        · -- the place would reach over the last character in front
          apply hlast _ (List.getLast?_eq_some_getLast (List.cons_ne_nil c pre))
          exact hover.subset (List.getLast_mem (List.cons_ne_nil c pre))
      have hpre' : ¬ pat <:+: pre := fun hinside => hpre (hinside.trans (List.suffix_cons c pre).isInfix)
      have hlast' : ∀ d, pre.getLast? = some d → d ∉ pat := by
        intro d hd
        refine hlast d ?_
        rw [List.getLast?_cons, hd]
        rfl
      obtain ⟨places, hplaces⟩ := ih hpre' hlast' (before ++ [c])
      rw [List.cons_append, matchSplitsFrom, if_neg hnot, hplaces]
      exact ⟨places, by simp⟩

/-- A pattern behind a text that it is not in is its first place, if it cannot begin in this
text. -/
theorem matchSplits_append (hpat : pat ≠ []) (hpre : ¬ pat <:+: pre)
    (hlast : ∀ c, pre.getLast? = some c → c ∉ pat) (rest : List Char) :
    ∃ places, matchSplits pat (pre ++ (pat ++ rest)) = (pre, pat ++ rest) :: places :=
  matchSplitsFrom_append hpat hpre hlast [] rest

end Matches

end Distant
