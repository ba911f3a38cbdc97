import Distant.Search.Condition

/-!
# What the patterns of a condition match

The three translations agree with the condition where they have to deal with a single text or
pattern. The host's takes an empty `Or` for one that is always met, and those of the backends an
`Or` within an `Or`. `sameEverywhere` says that nothing else goes wrong as long as the tool reads
extended syntax; plain `grep` does not.
-/

namespace Distant

namespace SearchQueryCondition

/-! ## Under which condition -/

/-- The text of a condition has no line break. -/
def NoBreak : SearchQueryCondition → Prop
  | contains value => '\n' ∉ value
  | endsWith value => '\n' ∉ value
  | equals value => '\n' ∉ value
  | startsWith value => '\n' ∉ value
  | regex _ => True
  | or _ => True

/-- A pattern that is a condition of its own is understood. -/
def Understood : SearchQueryCondition → Prop
  | regex value => ∃ alts, parse .extended value = some alts
  | _ => True

def NotEmptyOr : SearchQueryCondition → Prop
  | or [] => False
  | _ => True

def IsOr : SearchQueryCondition → Prop
  | or _ => True
  | _ => False

/-- No `Or` is right in an `Or`. -/
def Flat : SearchQueryCondition → Prop
  | or value => ∀ c ∈ value, ¬ c.IsOr
  | _ => True

/-- The patterns of the host and of the backends, in extended syntax, mean what the condition
does. -/
def Agrees (c : SearchQueryCondition) : Prop :=
  c.Everywhere NoBreak ∧
    ((c.Everywhere NotEmptyOr ∧ c.Flat) ∨ ∀ line, '\n' ∉ line → c.Satisfies line)

/-- The pattern of a condition that is no `Or` means the same in basic syntax. -/
def MemberBasic : SearchQueryCondition → Prop
  | contains value => ∀ ch ∈ value, isSwitched ch = false
  | endsWith value => ∀ ch ∈ value, isSwitched ch = false
  | equals value => ∀ ch ∈ value, isSwitched ch = false
  | startsWith value => ∀ ch ∈ value, isSwitched ch = false
  | regex value => parse .basic value = parse .extended value
  | or _ => False

/-- The pattern means the same in basic syntax. -/
def Basic : SearchQueryCondition → Prop
  | or value => ∃ c, value = [c] ∧ c.MemberBasic
  | c => c.MemberBasic

/-! ## Texts -/

theorem hasText_contains (v line : Text) : HasText false false v line ↔ v <:+: line := by
  constructor
  · rintro ⟨pre, post, rfl, -, -⟩
    exact ⟨pre, post, rfl⟩
  · rintro ⟨pre, post, rfl⟩
    exact ⟨pre, post, rfl, nofun, nofun⟩

theorem hasText_startsWith (v line : Text) : HasText true false v line ↔ v <+: line := by
  constructor
  · rintro ⟨pre, post, rfl, hpre, -⟩
    obtain rfl := hpre rfl
    exact ⟨post, rfl⟩
  · rintro ⟨post, rfl⟩
    exact ⟨[], post, rfl, fun _ => rfl, nofun⟩

theorem hasText_endsWith (v line : Text) : HasText false true v line ↔ v <:+ line := by
  constructor
  · rintro ⟨pre, post, rfl, -, hpost⟩
    obtain rfl := hpost rfl
    exact ⟨pre, by simp⟩
  · rintro ⟨pre, rfl⟩
    exact ⟨pre, [], by simp, nofun, fun _ => rfl⟩

theorem hasText_equals (v line : Text) : HasText true true v line ↔ v = line := by
  constructor
  · rintro ⟨pre, post, rfl, hpre, hpost⟩
    obtain rfl := hpre rfl
    obtain rfl := hpost rfl
    simp
  · rintro rfl
    exact ⟨[], [], by simp, fun _ => rfl, fun _ => rfl⟩

/-- An escaping that escapes every character that means something. -/
structure Escaping (d : Dialect) (escaped : Char → Bool) (v : Text) : Prop where
  noBreak : '\n' ∉ v
  isMeta : ∀ c, escaped c = true → isMeta c = true
  switched : ∀ c ∈ v, escaped c = true → (isSwitched c && d == .basic) = false
  plain : ∀ c, escaped c = false → c ≠ '\\' ∧ c ≠ '.' ∧ c ≠ '[' ∧ c ≠ '*' ∧ c ≠ '^' ∧ c ≠ '$' ∧
    isSwitched c = false

theorem lex_escapeWith {d : Dialect} {escaped : Char → Bool} {v : Text}
    (h : Escaping d escaped v) : lex d (escapeWith escaped v) = some (v.map .lit) := by
  induction v with
  | nil => rfl
  | cons c v ih =>
      have hrest : lex d (escapeWith escaped v) = some (v.map .lit) :=
        ih ⟨fun hmem => h.noBreak (by simp [hmem]), h.isMeta,
          fun c' hmem => h.switched c' (by simp [hmem]), h.plain⟩
      have hfirst : lex d (if escaped c = true then ['\\', c] else [c]) = some [.lit c] := by
        by_cases hc : escaped c = true
        · rw [if_pos hc]
          have hstep : lexStep d .escaped c = some ([.lit c], .normal) := by
            simp only [lexStep]
            rw [h.switched c (by simp) hc, h.isMeta c hc]
            rfl
          have hslash : lexStep d .normal '\\' = some ([], .escaped) := rfl
          simp [lex, lexFrom, hslash, hstep]
        · rw [if_neg hc]
          obtain ⟨h₁, h₂, h₃, h₄, h₅, h₆, h₇⟩ := h.plain c (by simpa using hc)
          have hbreak : c ≠ '\n' := fun heq => h.noBreak (by simp [heq])
          have hstep : lexStep d .normal c = some ([.lit c], .normal) := by
            simp [lexStep, hbreak, h₁, h₂, h₃, h₄, h₅, h₆, h₇]
          simp [lex, lexFrom, hstep]
      exact lex_append hfirst hrest

theorem escaping_regex {v : Text} (h : '\n' ∉ v) : Escaping .extended isMeta v where
  noBreak := h
  isMeta := fun _ hc => hc
  switched := fun c _ _ => by simp
  plain := by
    intro c hc
    simp only [Distant.isMeta, isSwitched, List.contains_eq_mem, List.mem_cons,
      decide_eq_false_iff_not,
      not_or, List.not_mem_nil, not_false_eq_true, and_true] at hc ⊢
    grind

theorem escaping_shell {d : Dialect} {v : Text} (h : '\n' ∉ v)
    (hbasic : d = .basic → ∀ c ∈ v, isSwitched c = false) : Escaping d isShellEscaped v where
  noBreak := h
  isMeta := by
    intro c hc
    simp only [isShellEscaped, Distant.isMeta, List.contains_eq_mem, List.mem_cons, decide_eq_true_eq,
      List.not_mem_nil, or_false] at hc ⊢
    grind
  switched := by
    intro c hmem _
    cases d with
    | extended => simp
    | basic => simp [hbasic rfl c hmem]
  plain := by
    intro c hc
    simp only [isShellEscaped, isSwitched, List.contains_eq_mem, List.mem_cons,
      decide_eq_false_iff_not, not_or, List.not_mem_nil, not_false_eq_true, and_true] at hc ⊢
    grind

theorem parse_text {d : Dialect} {escaped : Char → Bool} {v : Text} (h : Escaping d escaped v)
    (first last : Bool) :
    parse d ((if first then ['^'] else []) ++ escapeWith escaped v ++ if last then ['$'] else [])
      = some [literal first last v] := by
  have hfirst : lex d (if first then ['^'] else []) = some (if first then [.caret] else []) := by
    cases first <;> cases d <;> rfl
  have hlast : lex d (if last then ['$'] else []) = some (if last then [.dollar] else []) := by
    cases last <;> cases d <;> rfl
  exact parse_literal (lex_append (lex_append hfirst (lex_escapeWith h)) hlast)

/-! ## Conditions that are no `Or` -/

/-- The text that a condition is about. -/
def text : SearchQueryCondition → Option Text
  | contains value => some value
  | endsWith value => some value
  | equals value => some value
  | startsWith value => some value
  | regex _ => none
  | or _ => none

theorem noBreak_iff (c : SearchQueryCondition) : c.NoBreak ↔ ∀ v, c.text = some v → '\n' ∉ v := by
  cases c <;> simp [NoBreak, text]

/-- What a pattern matches is what the condition says on every line. -/
def Reads (d : Dialect) (pattern : Text) (P : Text → Prop) : Prop :=
  ∃ alts, parse d pattern = some alts ∧ ∀ line, Search alts line ↔ P line

theorem reads_text {d : Dialect} {escaped : Char → Bool} {v : Text} (h : Escaping d escaped v)
    (first last : Bool) : Reads d
      ((if first then ['^'] else []) ++ escapeWith escaped v ++ if last then ['$'] else [])
      (HasText first last v) :=
  ⟨_, parse_text h first last, fun line => (search_single _ line).trans (found_literal ..)⟩

theorem Reads.congr {d : Dialect} {p : Text} {P Q : Text → Prop} (h : Reads d p P)
    (hPQ : ∀ line, P line ↔ Q line) : Reads d p Q := by
  obtain ⟨alts, hparse, hsearch⟩ := h
  exact ⟨alts, hparse, fun line => (hsearch line).trans (hPQ line)⟩

theorem reads_member {d : Dialect} {escaped : Char → Bool} {c : SearchQueryCondition}
    (htext : ∀ v, c.text = some v → Escaping d escaped v)
    (hregex : ∀ p, c = regex p → parse d p = parse .extended p) (hunderstood : c.Understood)
    (hor : ¬ c.IsOr) : Reads d (memberPattern (escapeWith escaped) c) c.Satisfies := by
  cases c with
  | contains v =>
      have h : Reads d _ (contains v).Satisfies :=
          (reads_text (htext v rfl) false false).congr fun line => by
        rw [hasText_contains, Satisfies]
      simpa [memberPattern] using h
  | endsWith v =>
      have h : Reads d _ (endsWith v).Satisfies :=
          (reads_text (htext v rfl) false true).congr fun line => by
        rw [hasText_endsWith, Satisfies]
      simpa [memberPattern] using h
  | equals v =>
      have h : Reads d _ (equals v).Satisfies :=
          (reads_text (htext v rfl) true true).congr fun line => by
        rw [hasText_equals, Satisfies]
      simpa [memberPattern] using h
  | startsWith v =>
      have h : Reads d _ (startsWith v).Satisfies :=
          (reads_text (htext v rfl) true false).congr fun line => by
        rw [hasText_startsWith, Satisfies]
      simpa [memberPattern] using h
  | regex p =>
      obtain ⟨alts, hparse⟩ := hunderstood
      refine ⟨alts, (hregex p rfl).trans hparse, fun line => ⟨fun h => ⟨alts, hparse, h⟩, ?_⟩⟩
      rintro ⟨alts', hparse', h⟩
      rw [hparse] at hparse'
      cases hparse'
      exact h
  | or cs => exact absurd trivial hor

/-! ## Alternatives -/

theorem reads_joinBars {α : Type} (pattern : α → Text) (P : α → Text → Prop) (l : List α)
    (h : ∀ a ∈ l, Reads .extended (pattern a) (P a)) :
    Reads .extended (joinBars (l.map pattern)) fun line => l = [] ∨ ∃ a ∈ l, P a line := by
  induction l with
  | nil => exact ⟨[[]], rfl, fun line => by simp [search_single, found_nil]⟩
  | cons a l ih =>
      obtain ⟨as, hparse, hsearch⟩ := h a (by simp)
      cases l with
      | nil => exact ⟨as, hparse, fun line => by simp [hsearch]⟩
      | cons b l =>
          obtain ⟨bs, hparse', hsearch'⟩ := ih fun b hb => h b (by simp [hb])
          refine ⟨as ++ bs, parse_bar hparse hparse', fun line => ?_⟩
          rw [search_append, hsearch, hsearch']
          simp

/-! ### The host -/

theorem toRegexString_of_not_or {c : SearchQueryCondition} (h : ¬ c.IsOr) :
    c.toRegexString = memberPattern regexEscape c := by
  cases c with
  | or cs => exact absurd trivial h
  | _ => simp [toRegexString, memberPattern]

theorem everywhere_of_not_or {P : SearchQueryCondition → Prop} {c : SearchQueryCondition}
    (h : ¬ c.IsOr) : c.Everywhere P ↔ P c := by
  cases c with
  | or cs => exact absurd trivial h
  | _ => simp [Everywhere]

/-- What the host's pattern matches. -/
def HostSatisfies (c : SearchQueryCondition) (line : Text) : Prop :=
  c.Satisfies line ∨ ¬ c.Everywhere NotEmptyOr

theorem hostSatisfies_or (cs : List SearchQueryCondition) (line : Text) :
    (or cs).HostSatisfies line ↔ cs = [] ∨ ∃ c ∈ cs, c.HostSatisfies line := by
  unfold HostSatisfies
  rw [Satisfies, anySatisfied_iff, Everywhere, everywhereIn_iff]
  cases cs with
  | nil => simp [NotEmptyOr]
  | cons c cs =>
      simp only [NotEmptyOr, true_and, not_forall, reduceCtorEq, false_or]
      constructor
      · rintro (⟨c', hmem, h⟩ | ⟨c', hmem, h⟩)
        · exact ⟨c', hmem, .inl h⟩
        · exact ⟨c', hmem, .inr h⟩
      · rintro ⟨c', hmem, h | h⟩
        · exact .inl ⟨c', hmem, h⟩
        · exact .inr ⟨c', hmem, h⟩

theorem reads_host_of_not_or {c : SearchQueryCondition} (hor : ¬ c.IsOr)
    (hbreak : c.Everywhere NoBreak)
    (hunderstood : c.Everywhere Understood) :
    Reads .extended c.toRegexString c.HostSatisfies := by
  rw [toRegexString_of_not_or hor]
  have hbreak := (noBreak_iff c).mp ((everywhere_of_not_or hor).mp hbreak)
  have hreads : Reads .extended (memberPattern regexEscape c) c.Satisfies :=
    reads_member (fun v hv => escaping_regex (hbreak v hv)) (fun _ _ => rfl)
      ((everywhere_of_not_or hor).mp hunderstood) hor
  refine hreads.congr fun line => ⟨.inl, ?_⟩
  rintro (h | h)
  · exact h
  · rw [everywhere_of_not_or hor] at h
    cases c with
    | or cs => exact absurd trivial hor
    | _ => exact absurd trivial h

mutual

theorem reads_host : ∀ c : SearchQueryCondition, c.Everywhere NoBreak → c.Everywhere Understood →
    Reads .extended c.toRegexString c.HostSatisfies
  | or cs, hbreak, hunderstood => by
      rw [Everywhere] at hbreak hunderstood
      have hall := reads_hosts cs hbreak.2 hunderstood.2
      rw [toRegexString, toRegexStrings_eq]
      exact (reads_joinBars toRegexString HostSatisfies cs hall).congr
        fun line => (hostSatisfies_or cs line).symm
  | contains _, hbreak, hunderstood => reads_host_of_not_or nofun hbreak hunderstood
  | endsWith _, hbreak, hunderstood => reads_host_of_not_or nofun hbreak hunderstood
  | equals _, hbreak, hunderstood => reads_host_of_not_or nofun hbreak hunderstood
  | startsWith _, hbreak, hunderstood => reads_host_of_not_or nofun hbreak hunderstood
  | regex _, hbreak, hunderstood => reads_host_of_not_or nofun hbreak hunderstood

theorem reads_hosts : ∀ cs : List SearchQueryCondition, EverywhereIn NoBreak cs →
    EverywhereIn Understood cs → ∀ c ∈ cs, Reads .extended c.toRegexString c.HostSatisfies
  | [], _, _, _, hmem => by cases hmem
  | c :: cs, hbreak, hunderstood, c', hmem => by
      rw [EverywhereIn] at hbreak hunderstood
      rcases List.mem_cons.mp hmem with heq | hmem
      · rw [heq]
        exact reads_host c hbreak.1 hunderstood.1
      · exact reads_hosts cs hbreak.2 hunderstood.2 c' hmem

end

/-! ### The backends -/

/-- What the pattern of a backend matches in extended syntax. -/
def UnixSatisfies (c : SearchQueryCondition) (line : Text) : Prop :=
  match c with
  | or cs => cs = [] ∨ ∃ c ∈ cs, c.IsOr ∨ c.Satisfies line
  | c => c.Satisfies line

theorem everywhere_self {P : SearchQueryCondition → Prop} {c : SearchQueryCondition}
    (h : c.Everywhere P) : P c := by
  cases c with
  | or cs =>
      rw [Everywhere] at h
      exact h.1
  | _ => simpa [Everywhere] using h

/-- Any line has a match of the pattern that a nested `Or` gets. -/
theorem reads_nested (cs : List SearchQueryCondition) (escape : Text → Text) :
    Reads .extended (memberPattern escape (or cs)) fun _ => True :=
  ⟨[[.rep ⟨0, none⟩ .any]], rfl, fun line => by simp [search_single, found_star_any]⟩

theorem reads_unix_member {c : SearchQueryCondition} (hbreak : c.NoBreak)
    (hunderstood : c.Understood) :
    Reads .extended (memberPattern (escapeWith isShellEscaped) c)
      fun line => c.IsOr ∨ c.Satisfies line := by
  by_cases hor : c.IsOr
  · cases c with
    | or cs => exact (reads_nested cs _).congr fun line => by simp [IsOr]
    | _ => cases hor
  · have hreads : Reads .extended (memberPattern (escapeWith isShellEscaped) c) c.Satisfies :=
      reads_member (fun v hv => escaping_shell ((noBreak_iff c).mp hbreak v hv) (fun h => by cases h))
        (fun _ _ => rfl) hunderstood hor
    exact hreads.congr fun line => by simp [hor]

theorem reads_unix {c : SearchQueryCondition} (hbreak : c.Everywhere NoBreak)
    (hunderstood : c.Everywhere Understood) :
    Reads .extended (c.unixPattern (escapeWith isShellEscaped)) c.UnixSatisfies := by
  cases c with
  | or cs =>
      rw [Everywhere, everywhereIn_iff] at hbreak hunderstood
      exact reads_joinBars _ (fun c line => c.IsOr ∨ c.Satisfies line) cs fun c hmem =>
        reads_unix_member (everywhere_self (hbreak.2 c hmem)) (everywhere_self (hunderstood.2 c hmem))
  | _ =>
      exact (reads_unix_member (everywhere_self hbreak) (everywhere_self hunderstood)).congr
        fun line => by simp [IsOr, UnixSatisfies]

theorem unixSatisfies_of_flat {c : SearchQueryCondition} (hempty : c.Everywhere NotEmptyOr)
    (hflat : c.Flat) (line : Text) : c.UnixSatisfies line ↔ c.Satisfies line := by
  cases c with
  | or cs =>
      have hne : cs ≠ [] := by
        rintro rfl
        exact everywhere_self hempty
      rw [Satisfies, anySatisfied_iff]
      constructor
      · rintro (heq | ⟨c, hmem, h | h⟩)
        · exact absurd heq hne
        · exact absurd h (hflat c hmem)
        · exact ⟨c, hmem, h⟩
      · rintro ⟨c, hmem, h⟩
        exact .inr ⟨c, hmem, .inr h⟩
  | _ => exact Iff.rfl

theorem unixSatisfies_of_satisfies {c : SearchQueryCondition} {line : Text} (h : c.Satisfies line) :
    c.UnixSatisfies line := by
  cases c with
  | or cs =>
      rw [Satisfies, anySatisfied_iff] at h
      obtain ⟨c, hmem, h⟩ := h
      exact .inr ⟨c, hmem, .inr h⟩
  | _ => exact h

/-- An `Or` that is not flat has a member for which the pattern matches every line. -/
theorem unixSatisfies_of_not_flat {c : SearchQueryCondition} (h : ¬ c.Flat) (line : Text) :
    c.UnixSatisfies line := by
  cases c with
  | or cs =>
      simp only [Flat, not_forall] at h
      obtain ⟨c, hmem, h⟩ := h
      exact .inr ⟨c, hmem, .inl (by simpa using h)⟩
  | _ => exact absurd trivial h

/-! ## Line breaks -/

theorem lexFrom_newline (d : Dialect) {p : Text} (h : '\n' ∈ p) (m : LexMode) :
    lexFrom d m p = none := by
  have hstep : ∀ m, lexStep d m '\n' = none := by
    intro m
    cases m with
    | normal => rfl
    | escaped => cases d <;> rfl
    | bracket b => simp [lexStep, Bracket.step]
    | braces least comma most =>
        cases least <;> simp [lexStep, bracesStep, digit?]
    | bracesEscaped q => rfl
  induction p generalizing m with
  | nil => cases h
  | cons c p ih =>
      rcases List.mem_cons.mp h with rfl | h
      · simp [lexFrom, hstep]
      · simp only [lexFrom]
        cases lexStep d m c with
        | none => rfl
        | some step => simp [ih h]

theorem parse_newline (d : Dialect) {p : Text} (h : '\n' ∈ p) : parse d p = none := by
  have hlex : lex d p = none := by
    unfold lex
    rw [lexFrom_newline d h]
  unfold parse
  rw [hlex]

theorem mem_escapeWith (escaped : Char → Bool) {v : Text} {c : Char} (h : c ∈ v) :
    c ∈ escapeWith escaped v := by
  refine List.mem_flatMap.mpr ⟨c, h, ?_⟩
  split <;> simp

theorem mem_joinBars {p : Text} {ps : List Text} {c : Char} (hp : p ∈ ps) (hc : c ∈ p) :
    c ∈ joinBars ps := by
  induction ps with
  | nil => cases hp
  | cons q ps ih =>
      cases ps with
      | nil =>
          obtain rfl : p = q := by simpa using hp
          exact hc
      | cons r ps =>
          rcases List.mem_cons.mp hp with rfl | hp
          · exact List.mem_append_left _ hc
          · exact List.mem_append_right _ (List.mem_cons_of_mem _ (ih hp))

theorem mem_toRegexString_of_not_noBreak {c : SearchQueryCondition} (h : ¬ c.NoBreak) :
    '\n' ∈ c.toRegexString := by
  have hmem : ∀ v, ¬ '\n' ∉ v → '\n' ∈ regexEscape v :=
    fun v hv => mem_escapeWith isMeta (Decidable.not_not.mp hv)
  cases c with
  | contains v => simpa [toRegexString] using hmem v h
  | endsWith v => simpa [toRegexString] using hmem v h
  | equals v => simpa [toRegexString] using hmem v h
  | startsWith v => simpa [toRegexString] using hmem v h
  | regex v => exact absurd trivial h
  | or cs => exact absurd trivial h

mutual

theorem mem_toRegexString : ∀ c : SearchQueryCondition, ¬ c.Everywhere NoBreak →
    '\n' ∈ c.toRegexString
  | or cs, h => by
      rw [Everywhere] at h
      obtain ⟨p, hp, hbreak⟩ := mem_toRegexStrings cs fun hall => h ⟨trivial, hall⟩
      rw [toRegexString]
      exact mem_joinBars hp hbreak
  | contains _, h => mem_toRegexString_of_not_noBreak fun hno => h ((everywhere_of_not_or id).mpr hno)
  | endsWith _, h => mem_toRegexString_of_not_noBreak fun hno => h ((everywhere_of_not_or id).mpr hno)
  | equals _, h => mem_toRegexString_of_not_noBreak fun hno => h ((everywhere_of_not_or id).mpr hno)
  | startsWith _, h =>
      mem_toRegexString_of_not_noBreak fun hno => h ((everywhere_of_not_or id).mpr hno)
  | regex _, h => mem_toRegexString_of_not_noBreak fun hno => h ((everywhere_of_not_or id).mpr hno)

theorem mem_toRegexStrings : ∀ cs : List SearchQueryCondition, ¬ EverywhereIn NoBreak cs →
    ∃ p ∈ toRegexStrings cs, '\n' ∈ p
  | [], h => absurd (by rw [EverywhereIn]; trivial) h
  | c :: cs, h => by
      rw [EverywhereIn] at h
      by_cases hc : c.Everywhere NoBreak
      · obtain ⟨p, hp, hbreak⟩ := mem_toRegexStrings cs fun hall => h ⟨hc, hall⟩
        exact ⟨p, List.mem_cons_of_mem _ hp, hbreak⟩
      · exact ⟨c.toRegexString, List.mem_cons_self, mem_toRegexString c hc⟩

end

/-! ## The backends agree -/

/-- The three patterns, in the syntax that the host, `rg` and `grep -E` read. -/
structure SameExtended (c : SearchQueryCondition) : Prop where
  host : Means .extended c.toRegexString c
  ssh : Means .extended (Ssh.buildUnixPattern c) c
  docker : Means .extended (Docker.buildUnixPattern c) c

/-- The patterns that are handed to plain `grep`. -/
structure SameBasic (c : SearchQueryCondition) : Prop where
  ssh : Means .basic (Ssh.buildUnixPattern c) c
  docker : Means .basic (Docker.buildUnixPattern c) c

theorem Reads.means {d : Dialect} {p : Text} {c : SearchQueryCondition} {P : Text → Prop}
    (h : Reads d p P) : Means d p c ↔ ∀ line, '\n' ∉ line → (P line ↔ c.Satisfies line) := by
  obtain ⟨alts, hparse, hsearch⟩ := h
  constructor
  · rintro ⟨alts', hparse', hmeans⟩ line hline
    rw [hparse] at hparse'
    cases hparse'
    exact (hsearch line).symm.trans (hmeans line hline)
  · intro h
    exact ⟨alts, hparse, fun line hline => (hsearch line).trans (h line hline)⟩

theorem sameExtended_iff {c : SearchQueryCondition} (hunderstood : c.Everywhere Understood) :
    c.SameExtended ↔ c.Agrees := by
  by_cases hbreak : c.Everywhere NoBreak
  · have hhost := (reads_host c hbreak hunderstood).means (c := c)
    have hunix := (reads_unix hbreak hunderstood).means (c := c)
    constructor
    · rintro ⟨h, hssh, -⟩
      refine ⟨hbreak, ?_⟩
      by_cases hempty : c.Everywhere NotEmptyOr
      · by_cases hflat : c.Flat
        · exact .inl ⟨hempty, hflat⟩
        · exact .inr fun line hline =>
            (hunix.mp hssh line hline).mp (unixSatisfies_of_not_flat hflat line)
      · exact .inr fun line hline => (hhost.mp h line hline).mp (.inr hempty)
    · rintro ⟨-, hagrees⟩
      have hhost' : Means .extended c.toRegexString c := by
        refine hhost.mpr fun line hline => ⟨fun h => ?_, .inl⟩
        rcases hagrees with ⟨hempty, -⟩ | hall
        · exact h.resolve_right fun hne => hne hempty
        · exact hall line hline
      have hunix' : Means .extended (c.unixPattern (escapeWith isShellEscaped)) c := by
        refine hunix.mpr fun line hline => ⟨fun h => ?_, unixSatisfies_of_satisfies⟩
        rcases hagrees with ⟨hempty, hflat⟩ | hall
        · exact (unixSatisfies_of_flat hempty hflat line).mp h
        · exact hall line hline
      exact ⟨hhost', hunix', hunix'⟩
  · constructor
    · rintro ⟨⟨alts, hparse, -⟩, -, -⟩
      rw [parse_newline .extended (mem_toRegexString c hbreak)] at hparse
      cases hparse
    · exact fun h => absurd h.1 hbreak

theorem reads_basic_member {c : SearchQueryCondition} (hbreak : c.NoBreak)
    (hunderstood : c.Understood) (hbasic : c.MemberBasic) :
    Reads .basic (memberPattern (escapeWith isShellEscaped) c) c.Satisfies := by
  have hor : ¬ c.IsOr := by
    intro hor
    cases c with
    | or cs => exact hbasic
    | _ => cases hor
  refine reads_member (fun v hv => escaping_shell ((noBreak_iff c).mp hbreak v hv) fun _ => ?_)
    (fun p hp => ?_) hunderstood hor
  · cases c <;> cases hv <;> exact hbasic
  · subst hp
    exact hbasic

theorem sameBasic_of_basic {c : SearchQueryCondition} (hunderstood : c.Everywhere Understood)
    (hbreak : c.Everywhere NoBreak) (hbasic : c.Basic) : c.SameBasic := by
  have hmeans : Means .basic (c.unixPattern (escapeWith isShellEscaped)) c := by
    cases c with
    | or cs =>
        obtain ⟨c, rfl, hmember⟩ := hbasic
        rw [Everywhere, EverywhereIn] at hbreak hunderstood
        have hreads := reads_basic_member (everywhere_self hbreak.2.1)
          (everywhere_self hunderstood.2.1) hmember
        refine (hreads.congr fun line => ?_).means.mpr fun line _ => Iff.rfl
        simp [Satisfies, AnySatisfied]
    | _ =>
        exact (reads_basic_member (everywhere_self hbreak) (everywhere_self hunderstood)
          hbasic).means.mpr fun line _ => Iff.rfl
  exact ⟨hmeans, hmeans⟩

/-- `"a" or "b."` -/
def eitherText : SearchQueryCondition := or [contains ['a'], startsWith ['b', '.']]

theorem not_means_single {d : Dialect} {p : Text} {c : SearchQueryCondition} (rs : List Regex)
    (line : Text) (hparse : parse d p = some [rs]) (hline : '\n' ∉ line)
    (hne : ¬ (Found rs line ↔ c.Satisfies line)) : ¬ Means d p c := by
  rintro ⟨alts, hparse', hmeans⟩
  rw [hparse] at hparse'
  cases hparse'
  exact hne ((search_single rs line).symm.trans (hmeans line hline))

end SearchQueryCondition

end Distant
