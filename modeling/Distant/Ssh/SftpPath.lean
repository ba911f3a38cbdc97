import Mathlib.Data.List.Basic
import Distant.Lib.Replace

/-!
# Paths in the format of SFTP

`SftpPathBuf` joins with a slash. `file_name` and `strip_prefix` take a backslash for a slash as
well, whatever the family of the remote machine is, and `strip_prefix` decides on the separator of
the prefix after it has replaced the backslashes, where `join` decides before. What has been joined
is found again exactly where neither the name nor the end of the path has a backslash
(`strips_join_iff`).
-/

namespace Distant

inductive SshFamily where
  | unix
  | windows
  deriving DecidableEq, Repr

/-- A path in wire format, with the family of the remote platform. -/
structure SftpPathBuf where
  inner : List Char
  family : SshFamily
  deriving DecidableEq, Repr

namespace SftpPathBuf

def join (p : SftpPathBuf) (child : List Char) : SftpPathBuf :=
  { p with
    inner :=
      if p.inner = [] then child
      else if p.inner.getLast? = some '/' then p.inner ++ child
      else p.inner ++ '/' :: child }

def isSeparator (c : Char) : Bool := c == '/' || c == '\\'

def fileName (p : SftpPathBuf) : Option (List Char) :=
  (p.inner.splitOnP isSeparator).reverse.find? (· ≠ [])

/-- `replace('\\', "/")` -/
def normalized (text : List Char) : List Char := replace ['\\'] ['/'] text

def stripPrefix (p base : SftpPathBuf) : Option (List Char) :=
  let pathNormalized := normalized p.inner
  let prefixNormalized := normalized base.inner
  let prefixWithSep :=
    if prefixNormalized.getLast? = some '/' then prefixNormalized else prefixNormalized ++ ['/']
  pathNormalized.dropPrefix? prefixWithSep

end SftpPathBuf

/-- A name that a directory of the family can have. -/
def SshFamily.LegalName : SshFamily → List Char → Prop
  | .unix, name => name ≠ [] ∧ '/' ∉ name
  | .windows, name => name ≠ [] ∧ '/' ∉ name ∧ '\\' ∉ name

theorem SshFamily.LegalName.nonempty {family : SshFamily} {name : List Char}
    (h : family.LegalName name) : name ≠ [] := by
  cases family with
  | unix => exact h.1
  | windows => exact h.1

theorem SshFamily.LegalName.noSlash {family : SshFamily} {name : List Char}
    (h : family.LegalName name) : '/' ∉ name := by
  cases family with
  | unix => exact h.2
  | windows => exact h.2.1

namespace SftpPathBuf

section

variable {p base : SftpPathBuf} {c : List Char}

/-! ## Separators -/

/-- The text with a slash at its end, which is added if needed. -/
def withSep (text : List Char) : List Char :=
  if text.getLast? = some '/' then text else text ++ ['/']

theorem exists_withSep (text : List Char) : ∃ front, withSep text = front ++ ['/'] := by
  unfold withSep
  split
  · next hlast =>
      obtain ⟨front, hfront⟩ := List.getLast?_eq_some_iff.mp hlast
      exact ⟨front, hfront⟩
  · exact ⟨text, rfl⟩

theorem join_inner (hp : p.inner ≠ []) : (p.join c).inner = withSep p.inner ++ c := by
  simp only [join, if_neg hp, withSep]
  split
  · rfl
  · rw [List.append_assoc, List.singleton_append]

theorem stripPrefix_eq :
    p.stripPrefix base = (normalized p.inner).dropPrefix? (withSep (normalized base.inner)) := rfl

/-- A backslash is replaced by a slash, and the rest is kept. -/
def slashed (c : Char) : Char := if c = '\\' then '/' else c

theorem normalized_eq_map (text : List Char) : normalized text = text.map slashed := by
  rw [normalized, replace_singleton, List.map_eq_flatMap]
  congr 1
  funext c
  unfold slashed
  split
  · rfl
  · rfl

theorem normalized_append (a b : List Char) :
    normalized (a ++ b) = normalized a ++ normalized b := by
  simp only [normalized_eq_map, List.map_append]

/-- What has no backslash is normalized already, and nothing else is. -/
theorem normalized_eq_self_iff {text : List Char} : normalized text = text ↔ '\\' ∉ text := by
  rw [normalized_eq_map]
  constructor
  · intro h hmem
    rw [← h] at hmem
    obtain ⟨c, -, hc⟩ := List.mem_map.mp hmem
    unfold slashed at hc
    split at hc
    · exact absurd hc (by decide)
    · next hne => exact hne hc
  · intro h
    rw [List.map_congr_left (g := id), List.map_id]
    intro c hc
    unfold slashed
    rw [if_neg, id_eq]
    rintro rfl
    exact h hc

theorem getLast?_normalized (text : List Char) :
    (normalized text).getLast? = some '/' ↔
      text.getLast? = some '/' ∨ text.getLast? = some '\\' := by
  rw [normalized_eq_map, List.getLast?_map]
  cases text.getLast? with
  | none => simp
  | some c =>
      simp only [Option.map_some, Option.some.injEq, slashed]
      by_cases hc : c = '\\'
      · simp [hc]
      · simp [hc]

/-- The separators agree unless the text has a backslash at its end. -/
theorem withSep_normalized {text : List Char} (h : text.getLast? ≠ some '\\') :
    withSep (normalized text) = normalized (withSep text) := by
  unfold withSep
  by_cases hslash : text.getLast? = some '/'
  · rw [if_pos ((getLast?_normalized text).mpr (Or.inl hslash)), if_pos hslash]
  · have hneither : ¬ (normalized text).getLast? = some '/' := by
      rw [getLast?_normalized]
      exact not_or.mpr ⟨hslash, h⟩
    rw [if_neg hneither, if_neg hslash, normalized_append]
    rfl

/-- Behind a backslash `join` adds a slash, and `strip_prefix` does not. -/
theorem normalized_withSep_of_backslash {text : List Char} (h : text.getLast? = some '\\') :
    normalized (withSep text) = withSep (normalized text) ++ ['/'] := by
  have hslash : text.getLast? ≠ some '/' := by
    rw [h]
    decide
  unfold withSep
  rw [if_neg hslash, if_pos ((getLast?_normalized text).mpr (Or.inr h)), normalized_append]
  rfl

/-! ## What has been joined -/

theorem stripPrefix_join (hp : p.inner ≠ []) (hlast : p.inner.getLast? ≠ some '\\') :
    (p.join c).stripPrefix p = some (normalized c) := by
  rw [stripPrefix_eq, join_inner hp, normalized_append, withSep_normalized hlast]
  exact List.dropPrefix?_append_of_beq _ (beq_self_eq_true _)

theorem stripPrefix_join_of_backslash (hp : p.inner ≠ []) (hlast : p.inner.getLast? = some '\\') :
    (p.join c).stripPrefix p = some ('/' :: normalized c) := by
  rw [stripPrefix_eq, join_inner hp, normalized_append, normalized_withSep_of_backslash hlast,
    List.append_assoc]
  exact List.dropPrefix?_append_of_beq _ (beq_self_eq_true _)

theorem stripPrefix_join_iff (hp : p.inner ≠ []) (hslash : '/' ∉ c) :
    (p.join c).stripPrefix p = some c ↔ '\\' ∉ c ∧ p.inner.getLast? ≠ some '\\' := by
  by_cases hlast : p.inner.getLast? = some '\\'
  · rw [stripPrefix_join_of_backslash hp hlast]
    constructor
    · intro h
      rw [← Option.some.inj h] at hslash
      exact absurd List.mem_cons_self hslash
    · rintro ⟨-, hne⟩
      exact absurd hlast hne
  · rw [stripPrefix_join hp hlast, Option.some.injEq, normalized_eq_self_iff]
    exact (and_iff_left hlast).symm

/-- No piece has a separator. -/
theorem not_isSeparator_of_mem {text piece : List Char} (h : piece ∈ text.splitOnP isSeparator) :
    ∀ c ∈ piece, isSeparator c = false := by
  induction text generalizing piece with
  | nil =>
      rw [List.splitOnP_nil, List.mem_singleton] at h
      subst h
      exact fun c hc => absurd hc List.not_mem_nil
  | cons d text ih =>
      rw [List.splitOnP_cons_eq_if_modifyHead] at h
      split at h
      · rcases List.mem_cons.mp h with rfl | hmem
        · exact fun c hc => absurd hc List.not_mem_nil
        · exact ih hmem
      · next hd =>
          obtain ⟨first, rest, hsplit⟩ :=
            List.exists_cons_of_ne_nil (List.splitOnP_ne_nil isSeparator text)
          rw [hsplit] at h ih
          rcases List.mem_cons.mp h with rfl | hmem
          · intro c hc
            rcases List.mem_cons.mp hc with rfl | hc
            · simpa using hd
            · exact ih List.mem_cons_self c hc
          · exact ih (List.mem_cons_of_mem _ hmem)

theorem fileName_join_iff (hp : p.inner ≠ []) (hne : c ≠ []) (hslash : '/' ∉ c) :
    (p.join c).fileName = some c ↔ '\\' ∉ c := by
  unfold fileName
  constructor
  · intro h hmem
    have hpiece := List.mem_of_find?_eq_some h
    rw [List.mem_reverse] at hpiece
    exact absurd (not_isSeparator_of_mem hpiece '\\' hmem) (by decide)
  · intro hback
    have hnone : ∀ d ∈ c, isSeparator d = false := by
      intro d hd
      rw [isSeparator, Bool.or_eq_false_iff, beq_eq_false_iff_ne, beq_eq_false_iff_ne]
      refine ⟨?_, ?_⟩
      · rintro rfl
        exact hslash hd
      · rintro rfl
        exact hback hd
    obtain ⟨front, hfront⟩ := exists_withSep p.inner
    -- the name is the last piece, and it is not empty
    rw [join_inner hp, hfront, List.append_assoc, List.singleton_append,
      List.splitOnP_append_cons front c (by rfl), List.splitOnP_eq_singleton hnone,
      List.reverse_append, List.reverse_singleton, List.singleton_append]
    exact List.find?_cons_of_pos (by simpa using hne)

end

/-- The name that has been joined is what is left without the path, and the name of the file. -/
structure StripsJoin (p : SftpPathBuf) (c : List Char) : Prop where
  stripPrefix : (p.join c).stripPrefix p = some c
  fileName : (p.join c).fileName = some c

theorem strips_join_iff {p : SftpPathBuf} {c : List Char} (hp : p.inner ≠ [])
    (hc : p.family.LegalName c) :
    StripsJoin p c ↔ '\\' ∉ c ∧ p.inner.getLast? ≠ some '\\' := by
  have hslash := hc.noSlash
  constructor
  · intro h
    exact (stripPrefix_join_iff hp hslash).mp h.stripPrefix
  · intro h
    exact ⟨(stripPrefix_join_iff hp hslash).mpr h,
      (fileName_join_iff hp hc.nonempty hslash).mpr h.1⟩

theorem strips_join_home : StripsJoin ⟨"/home/me/".toList, .unix⟩ "notes".toList := by
  have hlegal : SshFamily.unix.LegalName "notes".toList := ⟨by decide, by decide⟩
  exact (strips_join_iff (by decide) hlegal).mpr ⟨by decide, by decide⟩

/-- A name with a backslash, which is a name like any other on Unix. -/
theorem not_strips_join_backslash :
    SshFamily.unix.LegalName "a\\b".toList ∧
      ¬ StripsJoin ⟨"/home/me".toList, .unix⟩ "a\\b".toList ∧
      (join ⟨"/home/me".toList, .unix⟩ "a\\b".toList).stripPrefix ⟨"/home/me".toList, .unix⟩ =
        some "a/b".toList ∧
      (join ⟨"/home/me".toList, .unix⟩ "a\\b".toList).fileName = some "b".toList := by
  refine ⟨⟨by decide, by decide⟩, ?_, by decide, by decide⟩
  intro h
  exact absurd h.fileName (by decide)

end SftpPathBuf

end Distant
