import Distant.Lib.Replace
import Distant.Lib.Text
import Distant.Net.Host
import Distant.Net.Parser

/-!
# Destinations

A destination is parsed from `[scheme://][[username][:password]@]host[:port]` and displayed in this
form again. `Valid` says of the parts what makes the displayed text parse to them
(`parse_display_of_valid`), and what is parsed is valid (`valid_of_parse`). The two are the round
trip, `parse_display`.
-/

namespace Distant

/-! ## Hosts -/

/-- What is documented of the addresses of `std::net`: what is displayed is parsed to the same
address. An IPv4 address is four decimal numbers with dots. An IPv6 address has at least two colons,
between hexadecimal numbers, and may have an IPv4 address at its end. -/
structure StdNet.Documented (net : StdNet) : Prop where
  displayIpv4 : ∀ x, net.parseIpv4 (net.displayIpv4 x) = some x
  displayIpv6 : ∀ x, net.parseIpv6 (net.displayIpv6 x) = some x
  ipv4 : ∀ s x, net.parseIpv4 s = some x →
    s.toList ≠ [] ∧ ∀ c ∈ s.toList, c.isDigit = true ∨ c = '.'
  ipv6 : ∀ s x, net.parseIpv6 s = some x →
    2 ≤ s.toList.count ':' ∧ ∀ c ∈ s.toList, c.isAlphanum = true ∨ c = ':' ∨ c = '.'

namespace Host

/-- `s.parse::<Host>()`, which does not panic. -/
def parse (net : StdNet) (u : Unicode) (s : String) : Except HostParseError (Host net) :=
  match fromStr net u s, exists_fromStr net u s with
  | .ok r, _ => r
  | .error _, h => absurd h (by simp)

section Parsing

variable {net : StdNet} {u : Unicode} {s : String} {host : Host net} {c : Char}

theorem parse_eq_ok_iff : parse net u s = .ok host ↔ fromStr net u s = .ok (.ok host) := by
  obtain ⟨r, hr⟩ := exists_fromStr net u s
  unfold parse
  split
  · next r' _ h _ => rw [h, Except.ok.injEq]
  · next h _ =>
      rw [hr] at h
      cases h

/-- The three kinds of a host, in the order in which they are tried. -/
theorem parse_cases (hu : u.Documented) (h : parse net u s = .ok host) :
    (∃ x, host = .ipv4 x ∧ net.parseIpv4 s = some x) ∨
    (∃ x, host = .ipv6 x ∧ net.parseIpv4 s = none ∧ net.parseIpv6 s = some x) ∨
    (host = .name s ∧ net.parseIpv4 s = none ∧ net.parseIpv6 s = none ∧
      IsAccepted u s.toList) := by
  rw [parse_eq_ok_iff] at h
  cases h4 : net.parseIpv4 s with
  | some x =>
      rw [fromStr, h4] at h
      cases h
      exact Or.inl ⟨x, rfl, rfl⟩
  | none =>
      cases h6 : net.parseIpv6 s with
      | some x =>
          rw [fromStr, h4, h6] at h
          cases h
          exact Or.inr (Or.inl ⟨x, rfl, rfl, rfl⟩)
      | none =>
          -- what is no address is kept as it is, or not at all
          have hname : host = .name s := by
            rw [fromStr, h4, h6] at h
            simp only at h
            split_ifs at h
            · cases h
            · split at h
              · cases h
              · cases h
              · split_ifs at h
                · cases h
                · cases h
                · cases h
                  rfl
          subst hname
          exact Or.inr (Or.inr ⟨rfl, rfl, rfl, (fromStr_eq_name_iff hu h4 h6).mp h⟩)

/-- The characters of a host as it is displayed. -/
def IsHostChar (u : Unicode) (c : Char) : Prop :=
  u.isAlphanumeric c = true ∨ c = '-' ∨ c = '.' ∨ c = ':'

/-- What is used of a host as it is displayed. -/
structure Displays (u : Unicode) (host : Host net) (text : List Char) : Prop where
  parse : parse net u (String.ofList text) = .ok host
  nonempty : text ≠ []
  chars : ∀ c ∈ text, IsHostChar u c
  ipv6 : host.isIpv6 = true → 2 ≤ text.count ':'
  other : host.isIpv6 = false → ':' ∉ text

theorem isAlphanumeric_of_isAlphanum (hu : u.Documented) (h : c.isAlphanum = true) :
    u.isAlphanumeric c = true := by
  rw [hu.alphanumeric (isAscii_of_isAlphanum h)]
  exact h

theorem isAlphanum_of_isDigit (h : c.isDigit = true) : c.isAlphanum = true := by
  rw [Char.isAlphanum, h, Bool.or_true]

theorem IsAccepted.chars {cs : List Char} (h : IsAccepted u cs) (hc : c ∈ cs) :
    u.isAlphanumeric c = true ∨ c = '-' ∨ c = '.' := by
  rcases mem_label hc with rfl | ⟨label, hlabel, hmem⟩
  · exact Or.inr (Or.inr rfl)
  · exact ((h.labels label hlabel).1 c hmem).imp_right Or.inl

/-- Displaying a host that has been parsed. -/
theorem displays_of_parse (hnet : net.Documented) (hu : u.Documented)
    (h : parse net u s = .ok host) : Displays u host host.display.toList := by
  have hcolon : u.isAlphanumeric ':' = false := hu.alphanumeric rfl
  rcases parse_cases hu h with ⟨x, rfl, -⟩ | ⟨x, rfl, -, -⟩ | ⟨rfl, h4, h6, haccepted⟩
  · obtain ⟨hne, hchars⟩ := hnet.ipv4 _ _ (hnet.displayIpv4 x)
    refine ⟨?_, hne, ?_, by simp [isIpv6], ?_⟩
    · rw [parse_eq_ok_iff, String.ofList_toList, display, fromStr, hnet.displayIpv4 x]
    · intro c hc
      rcases hchars c hc with hdigit | rfl
      · exact Or.inl (isAlphanumeric_of_isAlphanum hu (isAlphanum_of_isDigit hdigit))
      · exact Or.inr (Or.inr (Or.inl rfl))
    · intro _ hc
      rcases hchars ':' hc with hdigit | heq
      · exact absurd hdigit (by decide)
      · exact absurd heq (by decide)
  · obtain ⟨hcount, hchars⟩ := hnet.ipv6 _ _ (hnet.displayIpv6 x)
    have hmem : ':' ∈ (net.displayIpv6 x).toList :=
      List.count_pos_iff.mp (Nat.lt_of_lt_of_le Nat.zero_lt_two hcount)
    refine ⟨?_, List.ne_nil_of_mem hmem, ?_, fun _ => hcount, by simp [isIpv6]⟩
    · -- with its colons, it is no IPv4 address
      have h4 : net.parseIpv4 (net.displayIpv6 x) = none := by
        cases hsome : net.parseIpv4 (net.displayIpv6 x) with
        | none => rfl
        | some y =>
            rcases (hnet.ipv4 _ _ hsome).2 ':' hmem with hdigit | heq
            · exact absurd hdigit (by decide)
            · exact absurd heq (by decide)
      rw [parse_eq_ok_iff, String.ofList_toList, display, fromStr, h4, hnet.displayIpv6 x]
    · intro c hc
      rcases hchars c hc with halnum | rfl | rfl
      · exact Or.inl (isAlphanumeric_of_isAlphanum hu halnum)
      · exact Or.inr (Or.inr (Or.inr rfl))
      · exact Or.inr (Or.inr (Or.inl rfl))
  · refine ⟨by rw [display, String.ofList_toList, h], ?_, ?_, by simp [isIpv6], ?_⟩
    · obtain ⟨c, rest, heq, -⟩ := haccepted.exists_cons
      rw [display, heq]
      exact List.cons_ne_nil _ _
    · intro c hc
      rcases haccepted.chars hc with halnum | rfl | rfl
      · exact Or.inl halnum
      · exact Or.inr (Or.inl rfl)
      · exact Or.inr (Or.inr (Or.inl rfl))
    · intro _ hc
      rcases haccepted.chars hc with halnum | heq | heq
      · rw [hcolon] at halnum
        cases halnum
      · exact absurd heq (by decide)
      · exact absurd heq (by decide)

end Parsing

end Host

/-! ## Destinations -/

structure Destination (net : StdNet) where
  scheme : Option (List Char)
  username : Option (List Char)
  password : Option (List Char)
  host : Host net
  port : Option UInt16

namespace Destination

/-- A character that a scheme can have. -/
def isSchemeChar (u : Unicode) (c : Char) : Bool :=
  u.isAlphanumeric c || c == '+' || c == '.' || c == '-'

def parseScheme (u : Unicode) : Parser (List Char) := fun s =>
  match splitAtFirst [':', '/', '/'] s with
  | none => .error "Scheme missing ://"
  | some (scheme, remaining) =>
    if scheme.all (isSchemeChar u) then .ok (remaining, scheme) else .error "Invalid scheme"

def parseUsernamePassword : Parser (Option (List Char) × Option (List Char)) := fun s =>
  match splitAtFirst ['@'] s with
  | none => .error "Auth missing @"
  | some (auth, remaining) => do
    let (auth, username) ← maybe (parseUntil (· == ':')) auth
    let (auth, password) ← maybe (prefixed (parseChar ':') fun s => .ok ([], s)) auth
    if auth = [] then .ok (remaining, username, password)
    else .error "Dangling characters after username/password"

def parseHost (net : StdNet) (u : Unicode) : Parser (Host net) := fun s => do
  let host ← (Host.parse net u (String.ofList s)).mapError HostParseError.intoStaticStr
  return ([], host)

def parsePort : Parser UInt16 := fun s =>
  match parseU16 s with
  | some port => .ok ([], port)
  | none => .error "Not an unsigned 16-bit integer"

/-- The host, which takes the colons into account: with more than one, it is `[{}]` with a port
following, or everything. -/
def parseAddress (net : StdNet) (u : Unicode) : Parser (Host net) := fun s =>
  if 1 < s.count ':' then
    either
      (delimited (parseChar '[') (parseAndThen (parseUntil (· == ']')) (parseHost net u))
        (parseChar ']'))
      (parseHost net u) s
  else parseAndThen (parseUntil (· == ':')) (parseHost net u) s

/-- `parser::parse` -/
def parse (net : StdNet) (u : Unicode) (s : List Char) : Except String (Destination net) := do
  let (s, scheme) ← maybe (parseScheme u) s
  let (s, usernamePassword) ← maybe parseUsernamePassword s
  let (s, host) ← parseAddress net u s
  let (s, port) ← maybe (prefixed (parseChar ':') parsePort) s
  if s = [] then
    .ok ⟨scheme, usernamePassword.bind (·.1), usernamePassword.bind (·.2), host, port⟩
  else .error "Str has more characters after destination"

/-- A scheme with what separates it. -/
def schemeText : Option (List Char) → List Char
  | none => []
  | some scheme => scheme ++ [':', '/', '/']

def passwordText : Option (List Char) → List Char
  | none => []
  | some password => ':' :: password

/-- A username, and a password behind a colon. -/
def authText (username password : Option (List Char)) : List Char :=
  username.getD [] ++ passwordText password

/-- What separates a username or a password from the host. -/
def atText (username password : Option (List Char)) : List Char :=
  if username.isSome || password.isSome then ['@'] else []

/-- With a port, an IPv6 address is wrapped in brackets. -/
def hostText {net : StdNet} (host : Host net) (port : Option UInt16) : List Char :=
  if host.isIpv6 && port.isSome then '[' :: (host.display.toList ++ [']'])
  else host.display.toList

def portText : Option UInt16 → List Char
  | none => []
  | some port => ':' :: formatU16 port

/-- `Display for Destination` -/
def display {net : StdNet} (d : Destination net) : List Char :=
  schemeText d.scheme ++ (authText d.username d.password ++ (atText d.username d.password ++
    (hostText d.host d.port ++ portText d.port)))

/-! ## The pieces -/

section Pieces

variable {net : StdNet} {u : Unicode} {s rest scheme : List Char} {host : Host net}
  {username password : Option (List Char)} {port : Option UInt16} {c : Char}

/-- Characters of ASCII that are neither letters nor numbers. -/
theorem not_isSchemeChar (hu : u.Documented) (hascii : isAscii c = true)
    (hc : c.isAlphanum = false) (hother : c ≠ '+' ∧ c ≠ '.' ∧ c ≠ '-') :
    isSchemeChar u c = false := by
  rw [isSchemeChar, hu.alphanumeric hascii, hc]
  simp [hother]

/-- A scheme is what stands in front of the first separator. -/
theorem parseScheme_eq_ok_iff (hu : u.Documented) :
    parseScheme u s = .ok (rest, scheme) ↔
      s = scheme ++ ([':', '/', '/'] ++ rest) ∧ ∀ c ∈ scheme, isSchemeChar u c = true := by
  have hcolon : isSchemeChar u ':' = false := not_isSchemeChar hu rfl rfl (by decide)
  unfold parseScheme
  constructor
  · intro h
    split at h
    · cases h
    · next hsplit =>
        split_ifs at h with hall
        cases h
        exact ⟨eq_append_of_splitAtFirst hsplit, List.all_eq_true.mp hall⟩
  · rintro ⟨rfl, hall⟩
    have hnot : ':' ∉ scheme := by
      intro hmem
      rw [hall ':' hmem] at hcolon
      cases hcolon
    have hsplit : splitAtFirst [':', '/', '/'] (scheme ++ ':' :: (['/', '/'] ++ rest)) =
        some (scheme, rest) := splitAtFirst_append hnot rest
    simp only [List.cons_append, List.nil_append] at hsplit ⊢
    rw [hsplit]
    exact if_pos (List.all_eq_true.mpr hall)

theorem maybe_parseUntil (h : ∀ x, username = some x → x ≠ [] ∧ ':' ∉ x) :
    maybe (parseUntil (· == ':')) (authText username password) =
      .ok (passwordText password, username) := by
  cases username with
  | none =>
      cases password with
      | none => rfl
      | some password => rfl
  | some x =>
      obtain ⟨hne, hcolon⟩ := h x rfl
      rw [maybe_eq_ok_iff]
      refine Or.inl ⟨x, rfl, parseUntil_eq_ok_iff.mpr ⟨rfl, hne, ?_, ?_⟩⟩
      · intro c hc
        rw [beq_eq_false_iff_ne]
        rintro rfl
        exact hcolon hc
      · intro c hc
        cases password with
        | none => cases hc
        | some password =>
            cases hc
            rfl

theorem maybe_passwordText (password : Option (List Char)) :
    maybe (prefixed (parseChar ':') fun s => .ok ([], s)) (passwordText password) =
      .ok ([], password) := by
  cases password with
  | none => rfl
  | some password => rfl

/-- What stands in front of the first `@` is read as a username, if it does not begin with a colon,
and what stands behind the first colon as a password. -/
theorem parseUsernamePassword_eq_ok_iff :
    parseUsernamePassword s = .ok (rest, username, password) ↔
      s = authText username password ++ '@' :: rest ∧ '@' ∉ authText username password ∧
        ∀ x, username = some x → x ≠ [] ∧ ':' ∉ x := by
  unfold parseUsernamePassword
  constructor
  · intro h
    split at h
    · cases h
    · next auth remaining hsplit =>
        -- nothing of what stands in front of the first `@` may be left
        obtain ⟨rfl, hat⟩ := splitAtFirst_singleton_iff.mp hsplit
        obtain ⟨⟨auth₁, username'⟩, husername, h⟩ := bind_eq_ok_iff.mp h
        obtain ⟨⟨auth₂, password'⟩, hpassword, h⟩ := bind_eq_ok_iff.mp h
        simp only at hpassword h
        split_ifs at h with hnil
        cases h
        subst hnil
        have htext : auth₁ = passwordText password := by
          rcases maybe_eq_ok_iff.mp hpassword with ⟨x, rfl, hx⟩ | ⟨rfl, rfl, -⟩
          · obtain ⟨s₁, colon, hchar, heq⟩ := prefixed_eq_ok_iff.mp hx
            cases heq
            exact (parseChar_eq_ok_iff.mp hchar).1
          · rfl
        have hboth : auth = authText username password ∧
            ∀ x, username = some x → x ≠ [] ∧ ':' ∉ x := by
          rcases maybe_eq_ok_iff.mp husername with ⟨x, rfl, hx⟩ | ⟨rfl, rfl, -⟩
          · obtain ⟨rfl, hne, hall, -⟩ := parseUntil_eq_ok_iff.mp hx
            refine ⟨by rw [htext]; rfl, ?_⟩
            intro y hy
            cases hy
            refine ⟨hne, fun hmem => ?_⟩
            exact absurd (hall ':' hmem) (by decide)
          · exact ⟨htext, fun x hx => by cases hx⟩
        obtain ⟨rfl, hvalid⟩ := hboth
        exact ⟨rfl, hat, hvalid⟩
  · rintro ⟨rfl, hat, hvalid⟩
    rw [splitAtFirst_singleton_iff.mpr ⟨rfl, hat⟩]
    simp only
    rw [bind_eq_ok_iff]
    refine ⟨_, maybe_parseUntil hvalid, ?_⟩
    rw [bind_eq_ok_iff]
    exact ⟨_, maybe_passwordText password, rfl⟩

theorem parseHost_eq_ok_iff :
    parseHost net u s = .ok (rest, host) ↔
      rest = [] ∧ Host.parse net u (String.ofList s) = .ok host := by
  unfold parseHost
  rw [bind_eq_ok_iff]
  constructor
  · rintro ⟨host', hparse, heq⟩
    cases heq
    exact ⟨rfl, mapError_eq_ok_iff.mp hparse⟩
  · rintro ⟨rfl, hparse⟩
    exact ⟨host, mapError_eq_ok_iff.mpr hparse, rfl⟩

theorem maybe_portText (port : Option UInt16) :
    maybe (prefixed (parseChar ':') parsePort) (portText port) = .ok ([], port) := by
  rw [maybe_eq_ok_iff]
  cases port with
  | none => exact Or.inr ⟨rfl, rfl, _, rfl⟩
  | some port =>
      refine Or.inl ⟨port, rfl, prefixed_eq_ok_iff.mpr ⟨formatU16 port, ':', ?_, ?_⟩⟩
      · exact parseChar_eq_ok_iff.mpr ⟨rfl, rfl⟩
      · rw [parsePort, parseU16_formatU16]

/-- A host in a destination is one that is parsed by itself. -/
theorem exists_of_parseAddress (h : parseAddress net u s = .ok (rest, host)) :
    ∃ s, Host.parse net u s = .ok host := by
  unfold parseAddress at h
  split_ifs at h
  · rcases either_eq_ok_iff.mp h with h | ⟨-, h⟩
    · obtain ⟨s₁, x, s₂, z, -, h, -⟩ := delimited_eq_ok_iff.mp h
      obtain ⟨firstS, -, h⟩ := parseAndThen_eq_ok_iff.mp h
      exact ⟨_, (parseHost_eq_ok_iff.mp h).2⟩
    · exact ⟨_, (parseHost_eq_ok_iff.mp h).2⟩
  · obtain ⟨firstS, -, h⟩ := parseAndThen_eq_ok_iff.mp h
    exact ⟨_, (parseHost_eq_ok_iff.mp h).2⟩

/-- What no host and no port has. -/
theorem not_isHostChar (hu : u.Documented) (hascii : isAscii c = true) (hc : c.isAlphanum = false)
    (hother : c ≠ '-' ∧ c ≠ '.' ∧ c ≠ ':') : ¬ Host.IsHostChar u c := by
  rw [Host.IsHostChar, hu.alphanumeric hascii, hc]
  simp [hother]

theorem count_portText (port : Option UInt16) : (portText port).count ':' ≤ 1 := by
  cases port with
  | none => exact Nat.zero_le _
  | some port =>
      have hnot : ':' ∉ formatU16 port := fun hc =>
        absurd (isDigit_of_mem_formatU16 hc) (by decide)
      rw [portText, List.count_cons_self, List.count_eq_zero_of_not_mem hnot]

theorem head_portText (h : (portText port).head? = some c) : c = ':' := by
  cases port with
  | none => cases h
  | some port =>
      cases h
      rfl

/-- The characters of a host and a port are those of a host, and brackets. -/
theorem chars_hostText (hu : u.Documented) (h : Host.Displays u host host.display.toList)
    (hc : c ∈ hostText host port ++ portText port) :
    Host.IsHostChar u c ∨ c = '[' ∨ c = ']' := by
  rcases List.mem_append.mp hc with hc | hc
  · unfold hostText at hc
    split_ifs at hc
    · rcases List.mem_cons.mp hc with rfl | hc
      · exact Or.inr (Or.inl rfl)
      · rcases List.mem_append.mp hc with hc | hc
        · exact Or.inl (h.chars c hc)
        · exact Or.inr (Or.inr (List.mem_singleton.mp hc))
    · exact Or.inl (h.chars c hc)
  · cases port with
    | none => cases hc
    | some port =>
        rcases List.mem_cons.mp hc with rfl | hc
        · exact Or.inl (Or.inr (Or.inr (Or.inr rfl)))
        · have halnum := Host.isAlphanum_of_isDigit (isDigit_of_mem_formatU16 hc)
          exact Or.inl (Or.inl (Host.isAlphanumeric_of_isAlphanum hu halnum))

/-- The host is found again, and the port is left. -/
theorem parseAddress_hostText (hu : u.Documented) (h : Host.Displays u host host.display.toList)
    (port : Option UInt16) :
    parseAddress net u (hostText host port ++ portText port) = .ok (portText port, host) := by
  have hbracket : ∀ c, (c = '[' ∨ c = ']') → c ∉ host.display.toList := by
    intro c hc hmem
    rcases hc with rfl | rfl
    · exact not_isHostChar hu rfl rfl (by decide) (h.chars _ hmem)
    · exact not_isHostChar hu rfl rfl (by decide) (h.chars _ hmem)
  have hparse : parseHost net u host.display.toList = .ok ([], host) :=
    parseHost_eq_ok_iff.mpr ⟨rfl, h.parse⟩
  unfold parseAddress hostText
  cases hipv6 : host.isIpv6 with
  | true =>
      have hcount := h.ipv6 hipv6
      cases port with
      | some port =>
          simp only [Option.isSome_some, Bool.and_true, if_true, List.cons_append,
            List.append_assoc, List.nil_append]
          -- two colons at least: the brackets are looked for, and they are there
          rw [if_pos (by simp only [List.count_cons, List.count_append]; omega), either_eq_ok_iff]
          refine Or.inl (delimited_eq_ok_iff.mpr
            ⟨host.display.toList ++ ']' :: portText (some port), '[', ']' :: portText (some port),
              ']', ?_, ?_, ?_⟩)
          · exact parseChar_eq_ok_iff.mpr ⟨rfl, rfl⟩
          · refine parseAndThen_eq_ok_iff.mpr ⟨_, ?_, hparse⟩
            refine parseUntil_eq_ok_iff.mpr ⟨rfl, h.nonempty, ?_, ?_⟩
            · intro c hc
              rw [beq_eq_false_iff_ne]
              rintro rfl
              exact hbracket _ (Or.inr rfl) hc
            · intro c hc
              cases hc
              rfl
          · exact parseChar_eq_ok_iff.mpr ⟨rfl, rfl⟩
      | none =>
          simp only [Option.isSome_none, Bool.and_false, Bool.false_eq_true, if_false, portText,
            List.append_nil]
          rw [if_pos (by omega), either_eq_ok_iff]
          refine Or.inr ⟨?_, hparse⟩
          -- it does not begin with a bracket
          cases hleft : delimited (parseChar '[')
              (parseAndThen (parseUntil (· == ']')) (parseHost net u)) (parseChar ']')
              host.display.toList with
          | error e => exact ⟨e, rfl⟩
          | ok result =>
              obtain ⟨s₁, x, s₂, z, hchar, -⟩ := delimited_eq_ok_iff.mp hleft
              refine absurd ?_ (hbracket '[' (Or.inl rfl))
              rw [(parseChar_eq_ok_iff.mp hchar).1]
              exact List.mem_cons_self
  | false =>
      -- one colon at most, which is that of the port
      have hcolon := h.other hipv6
      have hcount := count_portText port
      simp only [Bool.false_and, Bool.false_eq_true, if_false]
      rw [if_neg (by rw [List.count_append, List.count_eq_zero_of_not_mem hcolon]; omega)]
      refine parseAndThen_eq_ok_iff.mpr ⟨_, ?_, hparse⟩
      refine parseUntil_eq_ok_iff.mpr ⟨rfl, h.nonempty, ?_, ?_⟩
      · intro c hc
        rw [beq_eq_false_iff_ne]
        rintro rfl
        exact hcolon hc
      · intro c hc
        rw [head_portText hc]
        rfl

end Pieces

/-! ## The round trip -/

/-- What the parts of a destination have to be for its text to be parsed to them. -/
structure Valid {net : StdNet} (u : Unicode) (d : Destination net) : Prop where
  scheme : ∀ scheme, d.scheme = some scheme → ∀ c ∈ scheme, isSchemeChar u c = true
  /-- Without a scheme, a username and a password do not look like one. -/
  noScheme : d.scheme = none → ∀ scheme rest,
    authText d.username d.password = scheme ++ ([':', '/', '/'] ++ rest) →
      ¬ ∀ c ∈ scheme, isSchemeChar u c = true
  username : ∀ username, d.username = some username → username ≠ [] ∧ ':' ∉ username
  auth : '@' ∉ authText d.username d.password
  host : ∃ s, Host.parse net u s = .ok d.host

section RoundTrip

variable {net : StdNet} {u : Unicode} {s rest : List Char} {d : Destination net}

/-- The steps of the parser one after the other. -/
theorem parse_eq_ok_iff :
    parse net u s = .ok d ↔
      ∃ s₁ s₂ s₃ usernamePassword, maybe (parseScheme u) s = .ok (s₁, d.scheme) ∧
        maybe parseUsernamePassword s₁ = .ok (s₂, usernamePassword) ∧
        d.username = usernamePassword.bind (·.1) ∧ d.password = usernamePassword.bind (·.2) ∧
        parseAddress net u s₂ = .ok (s₃, d.host) ∧
        maybe (prefixed (parseChar ':') parsePort) s₃ = .ok ([], d.port) := by
  unfold parse
  constructor
  · intro h
    obtain ⟨⟨s₁, scheme⟩, hscheme, h⟩ := bind_eq_ok_iff.mp h
    obtain ⟨⟨s₂, usernamePassword⟩, hauth, h⟩ := bind_eq_ok_iff.mp h
    obtain ⟨⟨s₃, host⟩, haddress, h⟩ := bind_eq_ok_iff.mp h
    obtain ⟨⟨s₄, port⟩, hport, h⟩ := bind_eq_ok_iff.mp h
    simp only at hauth haddress hport h
    split_ifs at h with hnil
    cases h
    subst hnil
    exact ⟨s₁, s₂, s₃, usernamePassword, hscheme, hauth, rfl, rfl, haddress, hport⟩
  · rintro ⟨s₁, s₂, s₃, usernamePassword, hscheme, hauth, husername, hpassword, haddress, hport⟩
    obtain ⟨scheme, username, password, host, port⟩ := d
    subst husername hpassword
    rw [bind_eq_ok_iff]
    refine ⟨_, hscheme, bind_eq_ok_iff.mpr ⟨_, hauth, ?_⟩⟩
    exact bind_eq_ok_iff.mpr ⟨_, haddress, bind_eq_ok_iff.mpr ⟨_, hport, rfl⟩⟩

theorem valid_of_parse (hu : u.Documented) (h : parse net u s = .ok d) : Valid u d := by
  obtain ⟨s₁, s₂, s₃, usernamePassword, hscheme, hauth, husername, hpassword, haddress, -⟩ :=
    parse_eq_ok_iff.mp h
  -- a username and a password that were not there are displayed as nothing
  have hparts : (d.username = none ∧ d.password = none) ∨
      (s₁ = authText d.username d.password ++ '@' :: s₂ ∧
        '@' ∉ authText d.username d.password ∧
        ∀ x, d.username = some x → x ≠ [] ∧ ':' ∉ x) := by
    rcases maybe_eq_ok_iff.mp hauth with ⟨⟨username, password⟩, rfl, hx⟩ | ⟨rfl, -, -⟩
    · rw [husername, hpassword]
      exact Or.inr (parseUsernamePassword_eq_ok_iff.mp hx)
    · exact Or.inl ⟨husername, hpassword⟩
  refine ⟨?_, ?_, ?_, ?_, exists_of_parseAddress haddress⟩
  · intro scheme hsome
    rcases maybe_eq_ok_iff.mp hscheme with ⟨x, heq, hx⟩ | ⟨heq, -, -⟩
    · rw [hsome] at heq
      cases heq
      exact ((parseScheme_eq_ok_iff hu).mp hx).2
    · rw [hsome] at heq
      cases heq
  · intro hnone scheme rest htext hall
    rcases maybe_eq_ok_iff.mp hscheme with ⟨x, heq, -⟩ | ⟨-, rfl, e, herror⟩
    · rw [hnone] at heq
      cases heq
    · rcases hparts with ⟨hu', hp'⟩ | ⟨htext', -, -⟩
      · rw [hu', hp'] at htext
        simp [authText, passwordText] at htext
      · -- the whole text would have had the scheme
        have hok : parseScheme u s₁ = .ok (rest ++ '@' :: s₂, scheme) :=
          (parseScheme_eq_ok_iff hu).mpr ⟨by rw [htext', htext]; simp, hall⟩
        rw [herror] at hok
        cases hok
  · rcases hparts with ⟨hnone, -⟩ | ⟨-, -, hall⟩
    · intro x hx
      rw [hnone] at hx
      cases hx
    · exact hall
  · rcases hparts with ⟨hu', hp'⟩ | ⟨-, hat, -⟩
    · rw [hu', hp']
      exact List.not_mem_nil
    · exact hat

/-- A username is a part of the text. -/
theorem mem_of_mem_username (hu : u.Documented) (h : parse net u s = .ok d) {username : List Char}
    (hsome : d.username = some username) {c : Char} (hc : c ∈ username) : c ∈ s := by
  obtain ⟨s₁, s₂, s₃, usernamePassword, hscheme, hauth, husername, -⟩ := parse_eq_ok_iff.mp h
  have hmem : c ∈ s₁ := by
    rcases maybe_eq_ok_iff.mp hauth with ⟨⟨username', password⟩, rfl, hx⟩ | ⟨rfl, -, -⟩
    · have hfirst : username' = some username := husername.symm.trans hsome
      subst hfirst
      rw [(parseUsernamePassword_eq_ok_iff.mp hx).1, authText]
      simp [hc]
    · rw [hsome] at husername
      cases husername
  rcases maybe_eq_ok_iff.mp hscheme with ⟨scheme, -, hx⟩ | ⟨-, rfl, -⟩
  · rw [((parseScheme_eq_ok_iff hu).mp hx).1]
    simp [hmem]
  · exact hmem

/-- The scheme is found again, and none is found where there is none. -/
theorem maybe_schemeText (hu : u.Documented) (h : Valid u d) (hat : '@' ∉ rest)
    (hslash : '/' ∉ rest) :
    maybe (parseScheme u) (schemeText d.scheme ++ (authText d.username d.password ++
        (atText d.username d.password ++ rest))) =
      .ok (authText d.username d.password ++ (atText d.username d.password ++ rest), d.scheme) := by
  rw [maybe_eq_ok_iff]
  cases hscheme : d.scheme with
  | some scheme =>
      refine Or.inl ⟨scheme, rfl, (parseScheme_eq_ok_iff hu).mpr ⟨?_, h.scheme scheme hscheme⟩⟩
      rw [schemeText, List.append_assoc]
  | none =>
      refine Or.inr ⟨rfl, rfl, ?_⟩
      rw [schemeText, List.nil_append]
      cases hparse : parseScheme u (authText d.username d.password ++
          (atText d.username d.password ++ rest)) with
      | error e => exact ⟨e, rfl⟩
      | ok result =>
          obtain ⟨after, scheme⟩ := result
          obtain ⟨htext, hall⟩ := (parseScheme_eq_ok_iff hu).mp hparse
          exfalso
          by_cases hsome : (d.username.isSome || d.password.isSome) = true
          · have hnoAt : '@' ∉ scheme ++ [':', '/', '/'] := by
              intro hmem
              rcases List.mem_append.mp hmem with hmem | hmem
              · have hfalse := not_isSchemeChar hu (c := '@') rfl rfl (by decide)
                rw [hall _ hmem] at hfalse
                cases hfalse
              · exact absurd hmem (by decide)
            rw [atText, if_pos hsome, ← List.append_assoc scheme, List.singleton_append] at htext
            -- the scheme ends before the `@`
            rcases List.append_eq_append_iff.mp htext with ⟨more, hmore, hrest⟩ | ⟨more, hmore, -⟩
            · cases more with
              | nil =>
                  rw [List.append_nil] at hmore
                  exact h.noScheme hscheme scheme [] (by rw [← hmore, List.append_nil]) hall
              | cons c more =>
                  cases hrest
                  exact hnoAt (by rw [hmore]; simp)
            · exact h.noScheme hscheme scheme more (by rw [hmore, List.append_assoc]) hall
          · -- nothing stands in front of the host, which has no slash
            obtain ⟨hu', hp'⟩ : d.username = none ∧ d.password = none := by
              simpa using hsome
            rw [hu', hp'] at htext
            apply hslash
            have hmem : '/' ∈ scheme ++ ([':', '/', '/'] ++ after) := by simp
            rwa [← htext] at hmem

theorem maybe_authText (h : Valid u d) (hat : '@' ∉ rest) :
    ∃ usernamePassword,
      maybe parseUsernamePassword (authText d.username d.password ++
          (atText d.username d.password ++ rest)) = .ok (rest, usernamePassword) ∧
        d.username = usernamePassword.bind (·.1) ∧ d.password = usernamePassword.bind (·.2) := by
  by_cases hsome : (d.username.isSome || d.password.isSome) = true
  · refine ⟨some (d.username, d.password), ?_, rfl, rfl⟩
    rw [maybe_eq_ok_iff, atText, if_pos hsome]
    exact Or.inl ⟨_, rfl, parseUsernamePassword_eq_ok_iff.mpr ⟨rfl, h.auth, h.username⟩⟩
  · obtain ⟨hu', hp'⟩ : d.username = none ∧ d.password = none := by
      simpa using hsome
    refine ⟨none, ?_, hu', hp'⟩
    rw [hu', hp', maybe_eq_ok_iff]
    refine Or.inr ⟨rfl, rfl, "Auth missing @", ?_⟩
    have hnone : splitAtFirst ['@'] rest = none := splitAtFirst_eq_none hat
    simp only [authText, atText, passwordText, Option.getD_none, Option.isSome_none, Bool.or_self,
      Bool.false_eq_true, if_false, List.nil_append, parseUsernamePassword]
    rw [hnone]

/-- A valid destination is parsed from its text. -/
theorem parse_display_of_valid (hnet : net.Documented) (hu : u.Documented) (h : Valid u d) :
    parse net u d.display = .ok d := by
  obtain ⟨t, ht⟩ := h.host
  have hdisplays := Host.displays_of_parse hnet hu ht
  have hchars (c : Char) (hc : c ∈ hostText d.host d.port ++ portText d.port) :
      Host.IsHostChar u c ∨ c = '[' ∨ c = ']' := chars_hostText hu hdisplays hc
  have hat : '@' ∉ hostText d.host d.port ++ portText d.port := by
    intro hmem
    rcases hchars _ hmem with hc | hc
    · exact not_isHostChar hu rfl rfl (by decide) hc
    · exact absurd hc (by decide)
  have hslash : '/' ∉ hostText d.host d.port ++ portText d.port := by
    intro hmem
    rcases hchars _ hmem with hc | hc
    · exact not_isHostChar hu rfl rfl (by decide) hc
    · exact absurd hc (by decide)
  obtain ⟨usernamePassword, hauth, husername, hpassword⟩ := maybe_authText h hat
  exact parse_eq_ok_iff.mpr ⟨_, _, _, usernamePassword, maybe_schemeText hu h hat hslash, hauth,
    husername, hpassword, parseAddress_hostText hu hdisplays d.port, maybe_portText d.port⟩

/-- A destination that has been parsed from any text is parsed from the text that it is displayed
as. -/
theorem parse_display (hnet : net.Documented) (hu : u.Documented) :
    ∀ s d, parse net u s = .ok d → parse net u d.display = .ok d :=
  fun _ _ h => parse_display_of_valid hnet hu (valid_of_parse hu h)

end RoundTrip

/-! ### A destination with all parts -/

theorem documented_loopback : Host.loopback.Documented where
  displayIpv4 _ := rfl
  displayIpv6 _ := rfl
  ipv4 s x h := by
    have hs : s = "127.0.0.1" := by
      by_contra hne
      simp [Host.loopback, hne] at h
    subst hs
    have hall : ∀ c ∈ "127.0.0.1".toList, (c.isDigit || c == '.') = true :=
      List.all_eq_true.mp rfl
    exact ⟨by decide, fun c hc => by simpa using hall c hc⟩
  ipv6 s x h := by
    have hs : s = "::1" := by
      by_contra hne
      simp [Host.loopback, hne] at h
    subst hs
    have hall : ∀ c ∈ "::1".toList, (c.isAlphanum || (c == ':' || c == '.')) = true :=
      List.all_eq_true.mp rfl
    exact ⟨by decide, fun c hc => by simpa using hall c hc⟩

def everyPart : Destination Host.loopback :=
  ⟨some "ssh".toList, some "me".toList, some ":://".toList, .ipv6 (), some 22⟩

theorem parse_display_everyPart :
    parse Host.loopback asciiTables "ssh://me::://@[::1]:+0022".toList = .ok everyPart ∧
      parse Host.loopback asciiTables everyPart.display = .ok everyPart := by
  have h : parse Host.loopback asciiTables "ssh://me::://@[::1]:+0022".toList = .ok everyPart := rfl
  exact ⟨h, parse_display documented_loopback documented_asciiTables _ _ h⟩

end Destination

end Distant
