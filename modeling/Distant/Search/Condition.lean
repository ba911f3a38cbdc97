import Distant.Lib.Regex

/-!
# The condition of a search and its patterns

A condition is turned into a regular expression in three places: by the host, for its own engine,
and by the backends that run a tool through a shell, for whichever tool they find. `Satisfies` is
what a condition means, on one line of a file or on one path.
-/

namespace Distant

abbrev Text := List Char

inductive SearchQueryCondition where
  | contains (value : Text)
  | endsWith (value : Text)
  | equals (value : Text)
  | or (value : List SearchQueryCondition)
  | regex (value : Text)
  | startsWith (value : Text)

/-- Texts with `|` between them. -/
def joinBars : List Text → Text
  | [] => []
  | [p] => p
  | p :: ps => p ++ '|' :: joinBars ps

/-- Puts a backslash in front of some of the characters. -/
def escapeWith (escaped : Char → Bool) (s : Text) : Text :=
  s.flatMap fun c => if escaped c then ['\\', c] else [c]

/-- `regex::escape` -/
def regexEscape (s : Text) : Text := escapeWith isMeta s

namespace SearchQueryCondition

/-! ## The host -/

mutual

def toRegexString : SearchQueryCondition → Text
  | contains value => regexEscape value
  | endsWith value => regexEscape value ++ ['$']
  | equals value => '^' :: regexEscape value ++ ['$']
  | regex value => value
  | startsWith value => '^' :: regexEscape value
  | or value => joinBars (toRegexStrings value)

def toRegexStrings : List SearchQueryCondition → List Text
  | [] => []
  | c :: cs => toRegexString c :: toRegexStrings cs

end

/-! ## The backends with a shell -/

/-- The pattern of a condition that stands alone, or as a member of an `Or`; an `Or` in an `Or` is
flattened to simple alternation. -/
def memberPattern (escape : Text → Text) : SearchQueryCondition → Text
  | regex value => value
  | contains value => escape value
  | endsWith value => escape value ++ ['$']
  | startsWith value => '^' :: escape value
  | equals value => '^' :: escape value ++ ['$']
  | or _ => ['.', '*']

def unixPattern (escape : Text → Text) : SearchQueryCondition → Text
  | or value => joinBars (value.map (memberPattern escape))
  | c => memberPattern escape c

/-- The characters that `shell_escape_pattern` escapes. -/
def isShellEscaped (c : Char) : Bool :=
  ['\\', '.', '+', '*', '?', '(', ')', '|', '[', ']', '{', '}', '^', '$'].contains c

end SearchQueryCondition

namespace Ssh

def shellEscapePattern (s : Text) : Text := escapeWith SearchQueryCondition.isShellEscaped s

/-- Build a Unix grep/rg-compatible regex pattern from a search condition. -/
def buildUnixPattern (condition : SearchQueryCondition) : Text :=
  condition.unixPattern shellEscapePattern

end Ssh

namespace Docker

def shellEscapePattern (s : Text) : Text := escapeWith SearchQueryCondition.isShellEscaped s

/-- Build a Unix grep/rg-compatible regex pattern from a search condition. -/
def buildUnixPattern (condition : SearchQueryCondition) : Text :=
  condition.unixPattern shellEscapePattern

end Docker

namespace SearchQueryCondition

/-! ## What a condition means -/

mutual

def Satisfies : SearchQueryCondition → Text → Prop
  | contains value, line => value <:+: line
  | endsWith value, line => value <:+ line
  | equals value, line => value = line
  | or value, line => AnySatisfied value line
  | regex value, line => ∃ alts, parse .extended value = some alts ∧ Search alts line
  | startsWith value, line => value <+: line

def AnySatisfied : List SearchQueryCondition → Text → Prop
  | [], _ => False
  | c :: cs, line => Satisfies c line ∨ AnySatisfied cs line

end

mutual

/-- `P` holds of the condition and of all conditions within it. -/
def Everywhere (P : SearchQueryCondition → Prop) : SearchQueryCondition → Prop
  | or value => P (or value) ∧ EverywhereIn P value
  | c => P c

def EverywhereIn (P : SearchQueryCondition → Prop) : List SearchQueryCondition → Prop
  | [] => True
  | c :: cs => Everywhere P c ∧ EverywhereIn P cs

end

/-- A pattern, read in a dialect, is found on exactly the lines that satisfy the condition. -/
def Means (d : Dialect) (pattern : Text) (c : SearchQueryCondition) : Prop :=
  ∃ alts, parse d pattern = some alts ∧ ∀ line, '\n' ∉ line → (Search alts line ↔ c.Satisfies line)

theorem anySatisfied_iff (cs : List SearchQueryCondition) (line : Text) :
    AnySatisfied cs line ↔ ∃ c ∈ cs, c.Satisfies line := by
  induction cs with
  | nil => simp [AnySatisfied]
  | cons c cs ih => simp [AnySatisfied, ih]

theorem everywhereIn_iff (P : SearchQueryCondition → Prop) (cs : List SearchQueryCondition) :
    EverywhereIn P cs ↔ ∀ c ∈ cs, c.Everywhere P := by
  induction cs with
  | nil => simp [EverywhereIn]
  | cons c cs ih => simp [EverywhereIn, ih]

theorem toRegexStrings_eq (cs : List SearchQueryCondition) :
    toRegexStrings cs = cs.map toRegexString := by
  induction cs with
  | nil => rfl
  | cons c cs ih => simp [toRegexStrings, ih]

end SearchQueryCondition

end Distant
