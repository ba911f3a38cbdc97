import Mathlib.Data.List.TakeDrop
import Distant.Lib.Lines
import Distant.Lib.Replace
import Distant.Lib.Text

/-!
# Maps as text

A map is displayed as `key="value",key2="value2"`, in whatever order its entries are iterated, and
parsed again by a scanner that looks for the equals sign, the closing quote and the comma. In a
value, a backslash and a quote have a backslash in front of them. The result is `parsed_display`:
a map whose keys the parser accepts comes back, whatever its values are.
-/

namespace Distant

/-- `map.rs`: information for connections and other use cases. -/
abbrev Map := HashMap String String

inductive MapParseError where
  | missingEqualsAfterKey (key : String)
  | keyMustStartWithAlphabeticCharacter (key : String)
  | missingClosingQuoteForValue
  deriving DecidableEq, Repr

namespace Map

/-! ## Displaying -/

/-- Escapes double quotes of a value, and backslashes. -/
def encodeValue (value : List Char) : List Char :=
  replace ['"'] ['\\', '"'] (replace ['\\'] ['\\', '\\'] value)

/-- Translates escaped double quotes back into quotes, and backslashes. -/
def decodeValue (value : List Char) : List Char :=
  replace ['\\', '"'] ['"'] (replace ['\\', '\\'] ['\\'] value)

/-- A pair as it is written. -/
def displayPair (key value : String) : List Char :=
  key.toList ++ '=' :: '"' :: (encodeValue value.toList ++ ['"'])

/-- The pairs in the order in which they are iterated, with a comma after each but the last. -/
def displayPairs : List (String × String) → List Char
  | [] => []
  | [(key, value)] => displayPair key value
  | (key, value) :: pairs => displayPair key value ++ ',' :: displayPairs pairs

/-- `Display for Map`, for one order of iteration. -/
def display (order : List (String × String)) : String := String.ofList (displayPairs order)

/-! ## Parsing -/

/-- The loop that looks for a closing quote, which has an even number of backslashes in front of it:
how many characters stand before it. -/
def closingQuote : List Char → Nat → Option Nat
  | [], _ => none
  | c :: cs, backslashCnt =>
    if c = '\\' then (closingQuote cs (backslashCnt + 1)).map (· + 1)
    else if c = '"' ∧ backslashCnt % 2 = 0 then some 0
    else (closingQuote cs 0).map (· + 1)

/-- `str::trim_start` -/
def trimStart (s : List Char) : List Char := s.dropWhile isWhitespace

/-- A trailing comma is removed if there is one, and whitespace around it. -/
def afterQuoted (tail : List Char) : List Char :=
  match trimStart tail with
  | ',' :: tail => trimStart tail
  | tail => trimStart tail

/-- The value that the tail begins with, in quotes or up to the next comma, and what follows it. -/
def splitValue (tail : List Char) : Except MapParseError (List Char × List Char) :=
  match trimStart tail with
  | '"' :: tail =>
    match closingQuote tail 0 with
    | some i => .ok (tail.take i, afterQuoted (tail.drop (i + 1)))
    | none => .error .missingClosingQuoteForValue
  | tail =>
    match tail.span (· != ',') with
    | (value, _ :: tail) => .ok (trim value, tail)
    | (value, []) => .ok (trim value, [])

/-- The loop of `from_str` over what is left of the text, which is trimmed. Each turn takes a
character at least, so that the bound is not reached. -/
def parsePairs (isAlphabetic : Char → Bool) : Nat → List Char → Map → Except MapParseError Map
  | _, [], map => .ok map
  | 0, _, map => .ok map
  | bound + 1, s, map =>
    match s.span (· != '=') with
    | (_, []) => .error (.missingEqualsAfterKey (String.ofList s))
    | (key, _ :: tail) =>
      let key := trim key
      if !key.head?.any isAlphabetic then
        .error (.keyMustStartWithAlphabeticCharacter (String.ofList key))
      else
        match splitValue tail with
        | .error e => .error e
        | .ok (value, tail) =>
          parsePairs isAlphabetic bound (trim tail)
            (map.insert (String.ofList key) (String.ofList (decodeValue value)))

/-- `FromStr for Map`. What letters there are is said by `char::is_alphabetic`. -/
def fromStr (isAlphabetic : Char → Bool) (s : String) : Except MapParseError Map :=
  let s := trim s.toList
  parsePairs isAlphabetic s.length s ∅

/-! ## Escapes -/

/-- What stands for a character in a value. -/
def escapeChar (c : Char) : List Char :=
  if c = '\\' then ['\\', '\\'] else if c = '"' then ['\\', '"'] else [c]

/-- The same when the backslashes have been read. -/
def escapeQuote (c : Char) : List Char := if c = '"' then ['\\', '"'] else [c]

theorem escapeChar_of_ne {c : Char} (h : c ≠ '\\') (h' : c ≠ '"') : escapeChar c = [c] := by
  rw [escapeChar, if_neg h, if_neg h']

theorem encodeValue_eq (value : List Char) : encodeValue value = value.flatMap escapeChar := by
  rw [encodeValue, replace_singleton, replace_singleton, List.flatMap_assoc]
  apply List.flatMap_congr
  intro c _
  by_cases hslash : c = '\\'
  · subst hslash
    rfl
  · rw [if_neg hslash, List.flatMap_singleton]
    by_cases hquote : c = '"'
    · subst hquote
      rfl
    · rw [if_neg hquote, escapeChar_of_ne hslash hquote]

/-- Two backslashes are one. Those in front of a quote stay, as they come in pairs before the one
that belongs to it. -/
theorem replace_backslashes (value : List Char) :
    replace ['\\', '\\'] ['\\'] (value.flatMap escapeChar) = value.flatMap escapeQuote := by
  induction value with
  | nil => rfl
  | cons c value ih =>
      rw [List.flatMap_cons, List.flatMap_cons, ← ih]
      by_cases hslash : c = '\\'
      · subst hslash
        exact replace_front (List.cons_ne_nil _ _) _
      · by_cases hquote : c = '"'
        · subst hquote
          show replace _ _ ('\\' :: '"' :: value.flatMap escapeChar) = _
          rw [replace_cons (by simp), replace_cons (by simp)]
          rfl
        · rw [escapeChar_of_ne hslash hquote, escapeQuote, if_neg hquote, List.singleton_append,
            List.singleton_append]
          apply replace_cons
          rw [List.cons_prefix_cons]
          exact fun hboth => hslash hboth.1.symm

/-- No quote is without the backslash that belongs to it. -/
theorem not_quote_first (value : List Char) : ¬ ['"'] <+: value.flatMap escapeQuote := by
  cases value with
  | nil => simp
  | cons c value =>
      rw [List.flatMap_cons, escapeQuote]
      split
      · simp
      · next hquote =>
          rw [List.singleton_append, List.cons_prefix_cons]
          exact fun hboth => hquote hboth.1.symm

theorem replace_quotes (value : List Char) :
    replace ['\\', '"'] ['"'] (value.flatMap escapeQuote) = value := by
  induction value with
  | nil => rfl
  | cons c value ih =>
      rw [List.flatMap_cons]
      by_cases hquote : c = '"'
      · subst hquote
        show replace _ _ (['\\', '"'] ++ value.flatMap escapeQuote) = _
        rw [replace_front (List.cons_ne_nil _ _), ih]
        rfl
      · rw [escapeQuote, if_neg hquote, List.singleton_append, replace_cons, ih]
        rw [List.cons_prefix_cons]
        exact fun hboth => not_quote_first value hboth.2

theorem decodeValue_encodeValue (value : List Char) : decodeValue (encodeValue value) = value := by
  rw [encodeValue_eq, decodeValue, replace_backslashes, replace_quotes]

/-! ## Scanning -/

/-- An even number of backslashes goes by with each character. -/
theorem closingQuote_flatMap (value rest : List Char) {backslashCnt : Nat}
    (heven : backslashCnt % 2 = 0) :
    closingQuote (value.flatMap escapeChar ++ '"' :: rest) backslashCnt =
      some (value.flatMap escapeChar).length := by
  induction value generalizing backslashCnt with
  | nil =>
      rw [List.flatMap_nil, List.nil_append, closingQuote, if_neg (by decide), if_pos ⟨rfl, heven⟩]
      rfl
  | cons c value ih =>
      rw [List.flatMap_cons, List.append_assoc]
      by_cases hslash : c = '\\'
      · subst hslash
        show closingQuote ('\\' :: '\\' :: (value.flatMap escapeChar ++ '"' :: rest)) _ = _
        rw [closingQuote, if_pos rfl, closingQuote, if_pos rfl, ih (by omega)]
        rfl
      · by_cases hquote : c = '"'
        · subst hquote
          show closingQuote ('\\' :: '"' :: (value.flatMap escapeChar ++ '"' :: rest)) _ = _
          rw [closingQuote, if_pos rfl, closingQuote, if_neg (by decide), if_neg (by omega), ih rfl]
          rfl
        · rw [escapeChar_of_ne hslash hquote, List.singleton_append, List.singleton_append,
            closingQuote, if_neg hslash, if_neg fun hboth => hquote hboth.1, ih rfl]
          rfl

theorem splitValue_quoted (value rest : List Char) :
    splitValue ('"' :: (encodeValue value ++ '"' :: rest)) =
      .ok (encodeValue value, afterQuoted rest) := by
  have hclosing := closingQuote_flatMap value rest (show 0 % 2 = 0 from rfl)
  rw [← encodeValue_eq] at hclosing
  have htrim : trimStart ('"' :: (encodeValue value ++ '"' :: rest)) =
      '"' :: (encodeValue value ++ '"' :: rest) := rfl
  rw [splitValue, htrim]
  simp only [hclosing, List.take_left']
  rw [← List.drop_drop, List.drop_left' rfl]
  rfl

/-! ## Round trip -/

/-- A key that the parser accepts. -/
structure IsKey (isAlphabetic : Char → Bool) (key : String) : Prop where
  letter : key.toList.head?.any isAlphabetic = true
  noEquals : '=' ∉ key.toList
  trimmed : trim key.toList = key.toList

section RoundTrip

variable {isAlphabetic : Char → Bool} {key value : String} {pairs order : List (String × String)}
  {map : Map}

/-- A key that is trimmed does not begin with whitespace. -/
theorem IsKey.exists_cons (h : IsKey isAlphabetic key) :
    ∃ c cs, key.toList = c :: cs ∧ isWhitespace c = false := by
  cases hkey : key.toList with
  | nil =>
      have hletter := h.letter
      rw [hkey] at hletter
      cases hletter
  | cons c cs =>
      refine ⟨c, cs, rfl, ?_⟩
      have htrimmed := h.trimmed
      rw [hkey] at htrimmed
      cases hc : isWhitespace c with
      | false => rfl
      | true =>
          -- trimming would take it away
          have hdrop : (c :: cs).dropWhile isWhitespace = cs.dropWhile isWhitespace := by
            rw [List.dropWhile_cons, if_pos hc]
          have hlen := congrArg List.length htrimmed
          rw [trim, hdrop] at hlen
          have hshort : ((cs.dropWhile isWhitespace).rdropWhile isWhitespace).length ≤ cs.length :=
            ((List.rdropWhile_prefix _ _).length_le).trans (List.dropWhile_suffix _).length_le
          rw [List.length_cons] at hlen
          omega

/-- The text of some pairs is trimmed. -/
theorem displayPairs_eq_cons (hne : pairs ≠ []) (hkeys : ∀ p ∈ pairs, IsKey isAlphabetic p.1) :
    ∃ c cs, displayPairs pairs = c :: (cs ++ ['"']) ∧ isWhitespace c = false := by
  induction pairs with
  | nil => exact absurd rfl hne
  | cons p pairs ih =>
      obtain ⟨key, value⟩ := p
      obtain ⟨c, cs, hkey, hc⟩ := (hkeys _ List.mem_cons_self).exists_cons
      cases pairs with
      | nil =>
          refine ⟨c, cs ++ '=' :: '"' :: encodeValue value.toList, ?_, hc⟩
          rw [displayPairs, displayPair, hkey]
          simp
      | cons p' pairs =>
          obtain ⟨c', cs', hrest, -⟩ :=
            ih (List.cons_ne_nil _ _) fun q hq => hkeys q (List.mem_cons_of_mem _ hq)
          refine ⟨c, cs ++ '=' :: '"' :: (encodeValue value.toList ++ '"' :: ',' :: c' :: cs'),
            ?_, hc⟩
          rw [displayPairs, displayPair, hkey, hrest]
          simp
          simp

theorem trim_displayPairs (hkeys : ∀ p ∈ pairs, IsKey isAlphabetic p.1) :
    trim (displayPairs pairs) = displayPairs pairs := by
  cases pairs with
  | nil => rfl
  | cons p pairs =>
      obtain ⟨c, cs, heq, hc⟩ := displayPairs_eq_cons (List.cons_ne_nil _ _) hkeys
      rw [heq]
      exact trim_append hc (List.cons_ne_nil _ _) (by decide)

/-- What follows a value, up to the next pair. -/
theorem afterQuoted_comma {c : Char} (hc : isWhitespace c = false) (cs : List Char) :
    afterQuoted (',' :: c :: cs) = c :: cs := by
  show trimStart (c :: cs) = _
  rw [trimStart, List.dropWhile_cons, hc]
  rfl

/-- The first pair is taken off the text. -/
theorem parsePairs_pair (hkey : IsKey isAlphabetic key) (bound : Nat) (rest : List Char) :
    parsePairs isAlphabetic (bound + 1) (displayPair key value ++ rest) map =
      parsePairs isAlphabetic bound (trim (afterQuoted rest)) (map.insert key value) := by
  obtain ⟨c, cs, hcons, -⟩ := hkey.exists_cons
  have htext : displayPair key value ++ rest =
      key.toList ++ '=' :: '"' :: (encodeValue value.toList ++ '"' :: rest) := by
    rw [displayPair]
    simp
  have hne : key.toList ++ '=' :: '"' :: (encodeValue value.toList ++ '"' :: rest) =
      c :: (cs ++ '=' :: '"' :: (encodeValue value.toList ++ '"' :: rest)) := by
    rw [hcons, List.cons_append]
  rw [htext, hne, parsePairs, ← hne, span_ne_append hkey.noEquals]
  simp only [hkey.trimmed, hkey.letter, Bool.not_true, Bool.false_eq_true, if_false,
    splitValue_quoted, decodeValue_encodeValue, String.ofList_toList]
  intro hnil
  cases hnil

/-- The pairs are put into the map one after the other. -/
theorem parsePairs_displayPairs (hkeys : ∀ p ∈ pairs, IsKey isAlphabetic p.1) {bound : Nat}
    (hbound : (displayPairs pairs).length ≤ bound) :
    parsePairs isAlphabetic bound (displayPairs pairs) map =
      .ok (pairs.foldl (fun map p => map.insert p.1 p.2) map) := by
  induction pairs generalizing bound map with
  | nil =>
      rw [displayPairs]
      unfold parsePairs
      rfl
  | cons p pairs ih =>
      obtain ⟨key, value⟩ := p
      have hkey : IsKey isAlphabetic key := hkeys _ List.mem_cons_self
      have hrest : ∀ q ∈ pairs, IsKey isAlphabetic q.1 := fun q hq =>
        hkeys q (List.mem_cons_of_mem _ hq)
      cases pairs with
      | nil =>
          -- the last pair, behind which there is nothing
          rw [displayPairs] at hbound ⊢
          rw [displayPair, List.length_append, List.length_cons] at hbound
          obtain ⟨bound, rfl⟩ := Nat.exists_eq_add_one_of_ne_zero (show bound ≠ 0 by omega)
          have hpair : parsePairs isAlphabetic (bound + 1) (displayPair key value ++ []) map =
              parsePairs isAlphabetic bound (trim (afterQuoted [])) (map.insert key value) :=
            parsePairs_pair hkey bound []
          rw [List.append_nil] at hpair
          rw [hpair]
          unfold parsePairs
          rfl
      | cons p' pairs =>
          -- the comma is dropped with what stands in front of the next key
          have htext : displayPairs ((key, value) :: p' :: pairs) =
              displayPair key value ++ ',' :: displayPairs (p' :: pairs) := rfl
          rw [htext] at hbound ⊢
          rw [List.length_append, List.length_cons] at hbound
          obtain ⟨bound, rfl⟩ := Nat.exists_eq_add_one_of_ne_zero (show bound ≠ 0 by omega)
          obtain ⟨c, cs, heq, hc⟩ := displayPairs_eq_cons (List.cons_ne_nil _ _) hrest
          rw [parsePairs_pair hkey, heq, afterQuoted_comma hc, ← heq, trim_displayPairs hrest,
            ih hrest (by omega)]
          rfl

/-- Entries whose keys are different are all in the map that they are put into. -/
theorem foldl_insert_perm (hnodup : (order.map Prod.fst).Nodup)
    (hnew : ∀ p ∈ order, p.1 ∉ map) :
    ((order.foldl (fun map p => map.insert p.1 p.2) map).entries).Perm
      (order.map (fun p => ⟨p.1, p.2⟩) ++ map.entries) := by
  induction order generalizing map with
  | nil => exact List.Perm.refl _
  | cons p order ih =>
      rw [List.map_cons, List.nodup_cons] at hnodup
      have hp : p.1 ∉ map := hnew p List.mem_cons_self
      rw [List.foldl_cons]
      apply (ih hnodup.2 _).trans
      · rw [AList.entries_insert_of_notMem hp, List.map_cons, List.cons_append]
        exact List.perm_middle
      · intro q hq hin
        rcases AList.mem_insert map |>.mp hin with heq | hin
        · exact hnodup.1 (heq ▸ List.mem_map_of_mem hq)
        · exact hnew q (List.mem_cons_of_mem _ hq) hin

/-- A map whose keys the parser accepts is displayed, in whatever order, as a text that is parsed as
the same map. -/
theorem parsed_display (hkeys : ∀ key ∈ map.keys, IsKey isAlphabetic key)
    (horder : order.Perm (map.entries.map fun e => (e.1, e.2))) :
    ∃ map', fromStr isAlphabetic (display order) = .ok map' ∧ map'.entries.Perm map.entries := by
  have hfst : (order.map Prod.fst).Perm map.keys := by
    have h := horder.map Prod.fst
    rwa [List.map_map] at h
  have horderKeys : ∀ p ∈ order, IsKey isAlphabetic p.1 := fun p hp =>
    hkeys p.1 (hfst.subset (List.mem_map_of_mem hp))
  refine ⟨order.foldl (fun map p => map.insert p.1 p.2) ∅, ?_, ?_⟩
  · unfold fromStr
    rw [display, String.toList_ofList, trim_displayPairs horderKeys]
    exact parsePairs_displayPairs horderKeys (Nat.le_refl _)
  · have hnodup : (order.map Prod.fst).Nodup := hfst.nodup_iff.mpr map.keys_nodup
    apply (foldl_insert_perm hnodup fun p _ => AList.notMem_empty p.1).trans
    rw [AList.empty_entries, List.append_nil]
    apply (horder.map _).trans
    rw [List.map_map]
    exact List.Perm.of_eq (List.map_id _)

end RoundTrip

/-- A key with a comma and a quote in it, and a value with all that has to be escaped. -/
def odd : Map := AList.insert "a,\"" "\\\", b=\\" (AList.singleton "key" "")

theorem parsed_odd :
    ∃ map', fromStr Char.isAlpha (display [("key", ""), ("a,\"", "\\\", b=\\")]) = .ok map' ∧
      map'.entries.Perm odd.entries := by
  have hkeys : odd.keys = ["a,\"", "key"] := rfl
  apply parsed_display
  · intro key hkey
    rw [hkeys, List.mem_pair] at hkey
    rcases hkey with rfl | rfl
    · exact ⟨by decide, by decide, by decide⟩
    · exact ⟨by decide, by decide, by decide⟩
  · exact List.Perm.swap _ _ _

end Map

end Distant
