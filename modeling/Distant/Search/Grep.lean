import Distant.Lib.Text
import Distant.Search.Commands
import Distant.Search.Matches

/-!
# The output of grep

With `-b -n`, `grep` prints for each line that matches the path of the file, the number of the line,
its offset in bytes and the line itself, with colons between them. The backends that run it take each
line of the output apart again. They expect the offset before the number of the line: `grep_iff` has
the matches that come back as they were printed.
-/

namespace Distant

/-- The crate by which patterns are found in a text. -/
structure RegexCrate where
  Regex : Type
  /-- `Regex::new(pattern).ok()` -/
  new : Text → Option Regex
  isMatch : Regex → Text → Bool
  /-- each match with where it starts and ends -/
  findIter : Regex → Text → List (Text × Nat × Nat)

/-- `s.len()` -/
def textBytes (s : Text) : Nat := (String.ofList s).utf8ByteSize

/-- Reads a line of the form `filepath:byte_offset:linenum:content`, if its path is to be kept. -/
def parseGrepLine (keep : Text → Bool) (submatches : Text → List SearchQuerySubmatch)
    (line : Text) : Option SearchQueryMatch :=
  if line = [] then none
  else
    match splitn ':' 4 line with
    | [filepath, byteOffsetStr, lineNumStr, content] =>
      if keep filepath then
        match parseUsize lineNumStr with
        | .ok lineNum =>
          some (.contents
            { path := filepath
              lines := .text content
              lineNumber := lineNum
              absoluteOffset := (parseUsize byteOffsetStr).toOption.getD 0
              submatches := submatches content })
        | .error _ => none
      else none
    | _ => none

namespace Ssh

variable (crate : RegexCrate)

/-- The matches in a line, or the whole line if there are none. -/
def computeSubmatchesForLine (lineText : Text) (re : Option crate.Regex) :
    List SearchQuerySubmatch :=
  let subs := re.elim [] fun re =>
    (crate.findIter re lineText).map fun (found, start, stop) => ⟨.text found, start, stop⟩
  if subs = [] then [⟨.text lineText, 0, textBytes lineText⟩] else subs

def parseGrepContentsMatches (output pattern : Text) : List SearchQueryMatch :=
  let re := crate.new pattern
  (strLines output).filterMap
    (parseGrepLine (fun _ => true) fun content => computeSubmatchesForLine crate content re)

end Ssh

namespace Docker

variable (crate : RegexCrate)

def computeTextSubmatches (content : Text) : List SearchQuerySubmatch :=
  [⟨.text content, 0, textBytes content⟩]

def parseGrepContents (output : Text) (inc exc : Option Text) : List SearchQueryMatch :=
  let includeRe := inc.bind crate.new
  let excludeRe := exc.bind crate.new
  let keep filepath :=
    includeRe.all (crate.isMatch · filepath) && !excludeRe.any (crate.isMatch · filepath)
  (strLines output).filterMap (parseGrepLine keep computeTextSubmatches)

end Docker

/-! ## What is printed -/

/-- What `grep` finds, with the line as it is without its line feed. -/
structure GrepMatch where
  path : Text
  lineNumber : UInt64
  absoluteOffset : UInt64
  text : Text
  deriving DecidableEq, Repr

namespace GrepMatch

/-- `path:line:offset:text` -/
def print (m : GrepMatch) : Text :=
  m.path ++ ':' :: (decimal m.lineNumber.toNat ++ ':' :: (decimal m.absoluteOffset.toNat ++ ':' :: m.text))

/-- The output of `grep -b -n`. -/
def output (ms : List GrepMatch) : Text := ms.flatMap fun m => m.print ++ ['\n']

/-- The same match, with whatever submatches. -/
def Is (m : GrepMatch) (found : SearchQueryMatch) : Prop :=
  ∃ submatches, found = .contents
    { path := m.path
      lines := .text m.text
      lineNumber := m.lineNumber.toNat
      absoluteOffset := m.absoluteOffset.toNat
      submatches := submatches }

/-- The matches come back out of the output, in their order. -/
def ComeBack (parse : Text → List SearchQueryMatch) (ms : List GrepMatch) : Prop :=
  List.Forall₂ Is ms (parse (output ms))

/-- The number of the line is its offset; no colon and no line feed is in the path, and no carriage
return at the end of the line. -/
structure Plain (m : GrepMatch) : Prop where
  sameNumber : m.lineNumber = m.absoluteOffset
  noColon : ':' ∉ m.path
  noNewline : '\n' ∉ m.path
  noReturn : m.text.getLast? ≠ some '\r'

/-- What is made of the line of a match whose path is of one piece: the two numbers have changed
places. -/
def misread (submatches : Text → List SearchQuerySubmatch) (m : GrepMatch) : SearchQueryMatch :=
  .contents
    { path := m.path
      lines := .text (stripCr m.text)
      lineNumber := m.absoluteOffset.toNat
      absoluteOffset := m.lineNumber.toNat
      submatches := submatches (stripCr m.text) }

variable {submatches : Text → List SearchQuerySubmatch} {m : GrepMatch} {ms : List GrepMatch}

theorem not_mem_decimal {c : Char} (hc : c.isDigit = false) (n : Nat) : c ∉ decimal n := by
  intro hmem
  rw [isDigit_of_mem_toDigits hmem] at hc
  cases hc

theorem stripCr_print (m : GrepMatch) : stripCr m.print = print { m with text := stripCr m.text } := by
  have hcons : ∀ s t u v : Text, s ++ ':' :: (t ++ ':' :: (u ++ ':' :: v)) =
      (s ++ ':' :: (t ++ ':' :: u)) ++ ':' :: v := by simp
  unfold print
  rw [hcons, stripCr_append (by decide), hcons]

theorem parseGrepLine_print (hcolon : ':' ∉ m.path) :
    parseGrepLine (fun _ => true) submatches (stripCr m.print) = some (m.misread submatches) := by
  have hparts : splitn ':' 4 (stripCr m.print) =
      [m.path, decimal m.lineNumber.toNat, decimal m.absoluteOffset.toNat, stripCr m.text] := by
    rw [stripCr_print]
    unfold print
    rw [splitn_append hcolon, splitn_append (not_mem_decimal (by decide) _),
      splitn_append (not_mem_decimal (by decide) _)]
    rfl
  have hne : stripCr m.print ≠ [] := by
    rw [stripCr_print]
    simp [print]
  have hline : parseUsize (decimal m.lineNumber.toNat) = .ok m.lineNumber.toNat :=
    parseUsize_toDigits m.lineNumber.toNat_lt
  have hoffset : parseUsize (decimal m.absoluteOffset.toNat) = .ok m.absoluteOffset.toNat :=
    parseUsize_toDigits m.absoluteOffset.toNat_lt
  rw [parseGrepLine, if_neg hne, hparts]
  simp only [if_true, hline, hoffset]
  rfl

/-- With paths of one piece, every line is read, and read as it is. -/
theorem filterMap_output (hcolon : ∀ m ∈ ms, ':' ∉ m.path) (hpath : ∀ m ∈ ms, '\n' ∉ m.path)
    (htext : ∀ m ∈ ms, '\n' ∉ m.text) :
    (strLines (output ms)).filterMap (parseGrepLine (fun _ => true) submatches) =
      ms.map (misread submatches) := by
  have hprint : ∀ m ∈ ms, '\n' ∉ m.print := by
    intro m hm
    simp [print, hpath m hm, htext m hm, not_mem_decimal (show ('\n' : Char).isDigit = false from rfl)]
  rw [output, strLines_flatMap hprint, List.filterMap_map]
  have hparse : ∀ m ∈ ms, (parseGrepLine (fun _ => true) submatches ∘ fun m => stripCr m.print) m =
      some (m.misread submatches) := fun m hm => parseGrepLine_print (hcolon m hm)
  rw [List.filterMap_congr hparse]
  exact congrFun List.filterMap_eq_map ms

/-- Whatever the text, no path that is read has a colon or a line feed. -/
theorem path_of_mem {keep : Text → Bool} {text : Text} {found : SearchQueryMatch}
    (h : found ∈ (strLines text).filterMap (parseGrepLine keep submatches)) (his : m.Is found) :
    ':' ∉ m.path ∧ '\n' ∉ m.path := by
  obtain ⟨line, hline, hparse⟩ := List.mem_filterMap.mp h
  have hnewline := not_mem_of_mem_linesFrom (by simp) hline
  obtain ⟨subs, rfl⟩ := his
  unfold parseGrepLine at hparse
  split at hparse
  · cases hparse
  · split at hparse
    · next filepath _ _ _ hparts =>
        obtain ⟨hcolon, hsub⟩ := not_mem_of_splitn hparts
        split at hparse
        · split at hparse
          · simp only [Option.some.injEq, SearchQueryMatch.contents.injEq,
              SearchQueryContentsMatch.mk.injEq] at hparse
            obtain ⟨rfl, -⟩ := hparse
            exact ⟨hcolon, fun hmem => hnewline (hsub _ hmem)⟩
          · cases hparse
        · cases hparse
    · cases hparse

theorem is_misread_iff (m : GrepMatch) : m.Is (m.misread submatches) ↔
    m.lineNumber = m.absoluteOffset ∧ m.text.getLast? ≠ some '\r' := by
  rw [← stripCr_eq_iff]
  constructor
  · rintro ⟨subs, heq⟩
    simp only [misread, SearchQueryMatch.contents.injEq, SearchQueryContentsMatch.mk.injEq,
      SearchQueryMatchData.text.injEq, true_and] at heq
    exact ⟨UInt64.toNat_inj.mp heq.2.2.1, heq.1⟩
  · rintro ⟨hnumber, htext⟩
    refine ⟨submatches (stripCr m.text), ?_⟩
    rw [misread, htext, hnumber]

theorem comeBack_iff (htext : ∀ m ∈ ms, '\n' ∉ m.text) :
    ComeBack (fun text => (strLines text).filterMap (parseGrepLine (fun _ => true) submatches)) ms ↔
      ∀ m ∈ ms, m.Plain := by
  have hsame (hcolon : ∀ m ∈ ms, ':' ∉ m.path) (hpath : ∀ m ∈ ms, '\n' ∉ m.path) :
      ComeBack (fun text => (strLines text).filterMap (parseGrepLine (fun _ => true) submatches)) ms ↔
        ∀ m ∈ ms, m.lineNumber = m.absoluteOffset ∧ m.text.getLast? ≠ some '\r' := by
    rw [ComeBack, filterMap_output hcolon hpath htext, List.forall₂_map_right_iff, List.forall₂_same]
    exact forall₂_congr fun m _ => is_misread_iff m
  constructor
  · intro h
    have hpaths : ∀ m ∈ ms, ':' ∉ m.path ∧ '\n' ∉ m.path := by
      intro m hm
      obtain ⟨i, hi, rfl⟩ := List.mem_iff_getElem.mp hm
      have hi' := h.length_eq ▸ hi
      exact path_of_mem (List.getElem_mem hi') (h.get hi hi')
    have hplain := (hsame (fun m hm => (hpaths m hm).1) fun m hm => (hpaths m hm).2).mp h
    exact fun m hm => ⟨(hplain m hm).1, (hpaths m hm).1, (hpaths m hm).2, (hplain m hm).2⟩
  · intro h
    exact (hsame (fun m hm => (h m hm).noColon) fun m hm => (h m hm).noNewline).mpr
      fun m hm => ⟨(h m hm).sameNumber, (h m hm).noReturn⟩

/-- The matches come back from either parser exactly if they are plain. -/
theorem grep_iff (crate : RegexCrate) (pattern : Text) {ms : List GrepMatch}
    (htext : ∀ m ∈ ms, '\n' ∉ m.text) :
    (ComeBack (Ssh.parseGrepContentsMatches crate · pattern) ms ↔ ∀ m ∈ ms, m.Plain) ∧
    (ComeBack (Docker.parseGrepContents crate · none none) ms ↔ ∀ m ∈ ms, m.Plain) :=
  ⟨comeBack_iff htext, comeBack_iff htext⟩

/-! ## One line -/

/-- Patterns of one letter, found in a text of ASCII. -/
def letters : RegexCrate where
  Regex := Char
  new
    | [c] => some c
    | _ => none
  isMatch c s := s.contains c
  findIter c s := (s.zipIdx.filter (·.1 = c)).map fun (c, i) => ([c], i, i + 1)

/-- The second line begins behind one letter and the line feed. -/
def second : GrepMatch := ⟨['a'], 2, 2, ['b']⟩

theorem grep_second :
    (∀ m ∈ [second], '\n' ∉ m.text) ∧
    ComeBack (Ssh.parseGrepContentsMatches letters · ['b']) [second] ∧
    ComeBack (Docker.parseGrepContents letters · none none) [second] := by
  have htext : ∀ m ∈ [second], '\n' ∉ m.text := by decide
  have hplain : ∀ m ∈ [second], m.Plain :=
    List.forall_mem_singleton.mpr ⟨rfl, by decide, by decide, by decide⟩
  have h := grep_iff letters ['b'] htext
  exact ⟨htext, h.1.mpr hplain, h.2.mpr hplain⟩

/-- A file's first line. -/
def first : GrepMatch := ⟨['a'], 1, 0, ['b']⟩

theorem not_grep_first :
    ¬ ComeBack (Ssh.parseGrepContentsMatches letters · ['b']) [first] ∧
    ¬ ComeBack (Docker.parseGrepContents letters · none none) [first] := by
  have hnot : ¬ ∀ m ∈ [first], m.Plain := by
    intro h
    cases (h first List.mem_cons_self).sameNumber
  have htext : ∀ m ∈ [first], '\n' ∉ m.text := by decide
  exact ⟨mt (comeBack_iff htext).mp hnot, mt (comeBack_iff htext).mp hnot⟩

end GrepMatch

end Distant
