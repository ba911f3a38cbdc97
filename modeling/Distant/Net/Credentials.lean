import Distant.Lib.Hex
import Distant.Net.Destination

/-!
# Credentials

Credentials are printed as `distant://[username]:{key}@{host}:{port}`, parsed from this form, and
looked for in a text that they stand in. They are displayed as a destination is, so that they are
parsed again (`fromStr_display`). The search cuts a place of the scheme at the next whitespace or
control character, and a username may have such characters: `find_display_iff` says that credentials
are found exactly if it does not.
-/

namespace Distant

/-- `SecretKey<32>` -/
structure SecretKey32 where
  bytes : Bytes
  length : bytes.length = 32

namespace SecretKey32

def fromSlice (slice : Bytes) : Option SecretKey32 :=
  if h : slice.length = 32 then some ⟨slice, h⟩ else none

/-- `FromStr for SecretKey` -/
def fromStr (hex : Hex) (s : List Char) : Option SecretKey32 := (hex.decode s).bind fromSlice

/-- `Display for SecretKey` -/
def display (hex : Hex) (key : SecretKey32) : List Char := hex.encode key.bytes

theorem fromStr_display {hex : Hex} (hhex : hex.Documented) (key : SecretKey32) :
    fromStr hex (key.display hex) = some key := by
  rw [fromStr, display, hhex.decode_encode]
  exact dif_pos key.length

end SecretKey32

/-- Credentials used for a distant server that is maintaining a single key across all
connections. -/
structure Credentials (net : StdNet) where
  host : Host net
  port : UInt16
  key : SecretKey32
  username : Option (List Char)

namespace Credentials

/-- `SCHEME` -/
def scheme : List Char := ['d', 'i', 's', 't', 'a', 'n', 't']

/-- `SCHEME_WITH_SEP` -/
def schemeWithSep : List Char := scheme ++ [':', '/', '/']

/-- `Display for Credentials` -/
def display {net : StdNet} (hex : Hex) (c : Credentials net) : List Char :=
  scheme ++ ([':', '/', '/'] ++ (c.username.getD [] ++ (':' :: (c.key.display hex ++ ['@']) ++
    ((if c.host.isIpv6 then '[' :: (c.host.display.toList ++ [']']) else c.host.display.toList) ++
      ':' :: formatU16 c.port))))

/-- `Option::ok_or_else`, for an error of the kind that the parser has. -/
def okOr {α : Type} (text : String) : Option α → Except IoError α
  | some a => .ok a
  | none => .error (IoError.new .invalidData text)

/-- Without a scheme, or explicitly distant. -/
def checkScheme : Option (List Char) → Except IoError Unit
  | none => .ok ()
  | some other =>
    if other = scheme then .ok ()
    else .error (IoError.new .invalidData ("Unexpected scheme: " ++ String.ofList other))

/-- `FromStr for Credentials` -/
def fromStr (net : StdNet) (u : Unicode) (hex : Hex) (s : List Char) :
    Except IoError (Credentials net) := do
  let destination ← (Destination.parse net u s).mapError (IoError.new .invalidData)
  checkScheme destination.scheme
  let port ← okOr "Missing port" destination.port
  let password ← okOr "Missing key" destination.password
  let key ← okOr "SecretKeyError" (SecretKey32.fromStr hex password)
  return ⟨destination.host, port, key, destination.username⟩

def isBoundary (c : Char) : Bool := isWhitespace c || isControl c

/-- A turn of the loop of `find` at a place of the scheme. -/
def findAt (net : StdNet) (u : Unicode) (hex : Hex) (strict : Bool) (before s : List Char) :
    Option (Credentials net) :=
  -- only whitespace or control characters preceding are okay
  if strict && !before.isEmpty && !before.getLast?.any isBoundary then none
  else (fromStr net u hex (s.takeWhile fun c => !isBoundary c)).toOption

/-- Searches a text for credentials, and yields the first that match. -/
def find (net : StdNet) (u : Unicode) (hex : Hex) (s : List Char) (strict : Bool) :
    Option (Credentials net) :=
  (matchSplits schemeWithSep s).findSome? fun (before, s) => findAt net u hex strict before s

/-- `TryFrom<Credentials> for Destination` -/
def toDestination {net : StdNet} (hex : Hex) (c : Credentials net) : Destination net :=
  ⟨some scheme, c.username, some (c.key.display hex), c.host, some c.port⟩

section Parsing

variable {net : StdNet} {u : Unicode} {hex : Hex} {s : List Char} {c : Credentials net}

/-- They are displayed as the destination that they are. -/
theorem display_eq (hex : Hex) (c : Credentials net) : c.display hex = (c.toDestination hex).display := by
  simp [display, Destination.display, toDestination, Destination.schemeText, Destination.authText,
    Destination.passwordText, Destination.atText, Destination.hostText, Destination.portText]

theorem okOr_eq_ok_iff {α : Type} {text : String} {o : Option α} {a : α} :
    okOr text o = .ok a ↔ o = some a := by
  cases o with
  | none => simp [okOr]
  | some b => simp [okOr]

theorem checkScheme_eq_ok_iff {o : Option (List Char)} :
    checkScheme o = .ok () ↔ o = none ∨ o = some scheme := by
  cases o with
  | none => simp [checkScheme]
  | some other => simp [checkScheme]

theorem exists_display_eq (hex : Hex) (c : Credentials net) :
    ∃ rest, c.display hex = schemeWithSep ++ rest :=
  ⟨_, (List.append_assoc scheme [':', '/', '/'] _).symm⟩

/-- The steps of the parser. -/
theorem fromStr_eq_ok_iff :
    fromStr net u hex s = .ok c ↔
      ∃ d password, Destination.parse net u s = .ok d ∧
        (d.scheme = none ∨ d.scheme = some scheme) ∧ d.port = some c.port ∧
        d.password = some password ∧ SecretKey32.fromStr hex password = some c.key ∧
        d.host = c.host ∧ d.username = c.username := by
  unfold fromStr
  constructor
  · intro h
    obtain ⟨d, hparse, h⟩ := bind_eq_ok_iff.mp h
    obtain ⟨⟨⟩, hscheme, h⟩ := bind_eq_ok_iff.mp h
    obtain ⟨port, hport, h⟩ := bind_eq_ok_iff.mp h
    obtain ⟨password, hpassword, h⟩ := bind_eq_ok_iff.mp h
    obtain ⟨key, hkey, h⟩ := bind_eq_ok_iff.mp h
    cases h
    exact ⟨d, password, mapError_eq_ok_iff.mp hparse, checkScheme_eq_ok_iff.mp hscheme,
      okOr_eq_ok_iff.mp hport, okOr_eq_ok_iff.mp hpassword, okOr_eq_ok_iff.mp hkey, rfl, rfl⟩
  · rintro ⟨d, password, hparse, hscheme, hport, hpassword, hkey, hhost, husername⟩
    refine bind_eq_ok_iff.mpr ⟨d, mapError_eq_ok_iff.mpr hparse, ?_⟩
    refine bind_eq_ok_iff.mpr ⟨(), checkScheme_eq_ok_iff.mpr hscheme, ?_⟩
    refine bind_eq_ok_iff.mpr ⟨c.port, okOr_eq_ok_iff.mpr hport, ?_⟩
    refine bind_eq_ok_iff.mpr ⟨password, okOr_eq_ok_iff.mpr hpassword, ?_⟩
    refine bind_eq_ok_iff.mpr ⟨c.key, okOr_eq_ok_iff.mpr hkey, ?_⟩
    rw [hhost, husername]
    rfl

theorem valid_toDestination (hu : u.Documented) (hhex : hex.Documented)
    (h : fromStr net u hex s = .ok c) : (c.toDestination hex).Valid u := by
  obtain ⟨d, password, hparse, -, -, hpassword, -, hhost, husername⟩ := fromStr_eq_ok_iff.mp h
  have hvalid := Destination.valid_of_parse hu hparse
  have hat := hvalid.auth
  rw [husername, Destination.authText, List.mem_append, not_or] at hat
  constructor
  · intro other hother
    cases hother
    intro ch hch
    have hall : ∀ ch ∈ scheme, (isAscii ch && ch.isAlphanum) = true := List.all_eq_true.mp rfl
    obtain ⟨hascii, hletter⟩ := Bool.and_eq_true_iff.mp (hall ch hch)
    rw [Destination.isSchemeChar, hu.alphanumeric hascii, hletter]
    rfl
  · intro hnone
    cases hnone
  · intro username hsome
    exact hvalid.username username (husername.trans hsome)
  · rw [Destination.authText, List.mem_append, not_or]
    refine ⟨hat.1, fun hmem => ?_⟩
    rcases List.mem_cons.mp hmem with heq | hmem
    · exact absurd heq (by decide)
    · exact absurd (hhex.digits _ _ hmem) (by decide)
  · rw [toDestination, ← hhost]
    exact hvalid.host

/-- Credentials that have been parsed are parsed from their text. -/
theorem fromStr_display (hnet : net.Documented) (hu : u.Documented) (hhex : hex.Documented)
    (h : fromStr net u hex s = .ok c) : fromStr net u hex (c.display hex) = .ok c := by
  rw [display_eq, fromStr_eq_ok_iff]
  have hparse := Destination.parse_display_of_valid hnet hu (valid_toDestination hu hhex h)
  exact ⟨c.toDestination hex, c.key.display hex, hparse, Or.inr rfl, rfl, rfl,
    SecretKey32.fromStr_display hhex c.key, rfl, rfl⟩

end Parsing

/-! ## Finding -/

section Finding

variable {net : StdNet} {u : Unicode} {hex : Hex} {s pre post : List Char} {c : Credentials net}
  {strict : Bool} {ch : Char}

theorem isBoundary_of_isAlphanumeric (hu : u.Documented) (h : u.isAlphanumeric ch = true) :
    isBoundary ch = false := by
  rw [isBoundary, hu.notWhitespace ch h, hu.notControl ch h, Bool.or_false]

theorem isBoundary_of_isAlphanum (hu : u.Documented) (h : ch.isAlphanum = true) :
    isBoundary ch = false :=
  isBoundary_of_isAlphanumeric hu (Host.isAlphanumeric_of_isAlphanum hu h)

/-- Whatever is found has a username without boundaries, as it stands in a text without them. -/
theorem isBoundary_of_find (hu : u.Documented) (h : find net u hex s strict = some c)
    {username : List Char} (hsome : c.username = some username) (hch : ch ∈ username) :
    isBoundary ch = false := by
  obtain ⟨⟨before, rest⟩, -, hat⟩ := List.exists_of_findSome?_eq_some h
  have hparse : fromStr net u hex (rest.takeWhile fun c => !isBoundary c) = .ok c := by
    unfold findAt at hat
    simp only at hat
    split_ifs at hat
    cases hresult : fromStr net u hex (rest.takeWhile fun c => !isBoundary c) with
    | error e =>
        rw [hresult] at hat
        cases hat
    | ok c' =>
        rw [hresult] at hat
        cases hat
        rfl
  obtain ⟨d, -, hd, -, -, -, -, -, husername⟩ := fromStr_eq_ok_iff.mp hparse
  have hmem := Destination.mem_of_mem_username hu hd (husername.trans hsome) hch
  simpa using List.mem_takeWhile_imp hmem

/-- The text of credentials has boundaries in the username only. -/
theorem isBoundary_of_mem_scheme (h : ch ∈ schemeWithSep) : isBoundary ch = false := by
  have hall : ∀ ch ∈ schemeWithSep, (!isBoundary ch) = true := List.all_eq_true.mp rfl
  simpa using hall ch h

theorem isBoundary_of_mem_display (hnet : net.Documented) (hu : u.Documented)
    (hhex : hex.Documented) (h : fromStr net u hex s = .ok c)
    (husername : ∀ username, c.username = some username → ∀ ch ∈ username, isBoundary ch = false)
    (hch : ch ∈ c.display hex) : isBoundary ch = false := by
  have hvalid := valid_toDestination hu hhex h
  obtain ⟨t, ht⟩ := hvalid.host
  have hdisplays := Host.displays_of_parse hnet hu ht
  rw [display_eq, Destination.display] at hch
  rcases List.mem_append.mp hch with hch | hch
  · -- the scheme
    exact isBoundary_of_mem_scheme hch
  rcases List.mem_append.mp hch with hch | hch
  · rcases List.mem_append.mp hch with hch | hch
    · -- the username
      cases hsome : c.username with
      | none =>
          rw [toDestination, hsome] at hch
          cases hch
      | some username =>
          rw [toDestination, hsome] at hch
          exact husername username hsome ch hch
    · -- the key
      rcases List.mem_cons.mp hch with rfl | hch
      · decide
      · exact isBoundary_of_isAlphanum hu (hhex.digits _ _ hch)
  rcases List.mem_append.mp hch with hch | hch
  · rw [Destination.atText, if_pos (by simp [toDestination]), List.mem_singleton] at hch
    subst hch
    decide
  · -- the host and the port
    rcases Destination.chars_hostText hu hdisplays hch with hhost | rfl | rfl
    · rcases hhost with halnum | rfl | rfl | rfl
      · exact isBoundary_of_isAlphanumeric hu halnum
      · decide
      · decide
      · decide
    · decide
    · decide

theorem takeWhile_display (hdisplay : ∀ ch ∈ c.display hex, isBoundary ch = false)
    (hpost : ∀ b, post.head? = some b → isBoundary b = true) :
    (c.display hex ++ post).takeWhile (fun ch => !isBoundary ch) = c.display hex := by
  refine (takeWhile_dropWhile_append ?_ ?_).1
  · intro ch hch
    rw [hdisplay ch hch]
    rfl
  · intro b hb
    rw [hpost b hb]
    rfl

/-- Credentials that have been parsed are found in front of and behind boundaries, if they are the
first of the text, exactly if their username has no boundary. -/
theorem find_display_iff (hnet : net.Documented) (hu : u.Documented) (hhex : hex.Documented)
    (hc : ∃ s, fromStr net u hex s = .ok c) (hscheme : ¬ schemeWithSep <:+: pre)
    (hpre : ∀ b, pre.getLast? = some b → isBoundary b = true)
    (hpost : ∀ b, post.head? = some b → isBoundary b = true) :
    find net u hex (pre ++ (c.display hex ++ post)) true = some c ↔
      ∀ username, c.username = some username → ∀ ch ∈ username, isBoundary ch = false := by
  obtain ⟨s, hs⟩ := hc
  constructor
  · intro h username hsome ch hch
    exact isBoundary_of_find hu h hsome hch
  · intro husername
    have hdisplay (ch : Char) (hch : ch ∈ c.display hex) : isBoundary ch = false :=
      isBoundary_of_mem_display hnet hu hhex hs husername hch
    -- the first place of the scheme is that of the credentials
    have hlast : ∀ b, pre.getLast? = some b → b ∉ schemeWithSep := by
      intro b hb hmem
      cases (hpre b hb).symm.trans (isBoundary_of_mem_scheme hmem)
    obtain ⟨rest, hrest⟩ : ∃ rest, c.display hex ++ post = schemeWithSep ++ rest := by
      obtain ⟨rest, hrest⟩ := exists_display_eq hex c
      exact ⟨rest ++ post, by rw [hrest, List.append_assoc]⟩
    obtain ⟨places, hplaces⟩ := matchSplits_append (by decide) hscheme hlast rest
    -- there the text is cut at the boundary behind them
    have hat : findAt net u hex true pre (c.display hex ++ post) = some c := by
      rw [findAt, takeWhile_display hdisplay hpost, fromStr_display hnet hu hhex hs, if_neg]
      · rfl
      · cases hlast' : pre.getLast? with
        | none =>
            rw [List.getLast?_eq_none_iff.mp hlast']
            decide
        | some b => simp [hpre b hlast']
    rw [hrest] at hat ⊢
    rw [find, hplaces, List.findSome?_cons]
    simp only [hat]

end Finding

/-! ### A username in two words -/

/-- A key of zeros. -/
def zeros : SecretKey32 := ⟨List.replicate 32 0, List.length_replicate⟩

def twoWords : Credentials Host.loopback := ⟨.ipv6 (), 8080, zeros, some "my user".toList⟩

def oneWord : Credentials Host.loopback := ⟨.ipv6 (), 8080, zeros, some "me".toList⟩

theorem fromStr_oneWord :
    fromStr Host.loopback asciiTables lowerHex (oneWord.display lowerHex) = .ok oneWord := rfl

theorem fromStr_twoWords :
    fromStr Host.loopback asciiTables lowerHex (twoWords.display lowerHex) = .ok twoWords := rfl

/-- They are parsed from their text, but not found in it. -/
theorem not_found_twoWords :
    fromStr Host.loopback asciiTables lowerHex (twoWords.display lowerHex) = .ok twoWords ∧
      find Host.loopback asciiTables lowerHex (twoWords.display lowerHex) true ≠ some twoWords := by
  refine ⟨fromStr_twoWords, fun h => ?_⟩
  have hfalse : isBoundary ' ' = false :=
    isBoundary_of_find documented_asciiTables h rfl (by decide)
  exact absurd hfalse (by decide)

theorem find_oneWord :
    find Host.loopback asciiTables lowerHex
        ("key:\n".toList ++ (oneWord.display lowerHex ++ " ok".toList)) true = some oneWord ↔
      ∀ username, oneWord.username = some username → ∀ ch ∈ username, isBoundary ch = false := by
  apply find_display_iff Destination.documented_loopback documented_asciiTables documented_lowerHex
  · exact ⟨_, fromStr_oneWord⟩
  · -- it does not have the first letter of the scheme
    intro hinside
    have hmem : 'd' ∈ "key:\n".toList := hinside.subset (by decide)
    exact absurd hmem (by decide)
  · intro b hb
    cases hb
    decide
  · intro b hb
    cases hb
    decide

end Credentials

end Distant
