import Distant.Net.Destination

/-!
# The plugin of a destination

The manager hands a raw destination to the plugin of its scheme, which it reads off the raw text by
itself: it is everything in front of the first `://`, and the fallback where there is none. The
plugin then parses the destination. A text of which no scheme is parsed, because something else than
a scheme stands in front of `://`, is still given away by what stands there, so that the two agree
exactly where it is a scheme or there is no `://` (`agrees_iff`).
-/

namespace Distant

/-- `plugin::extract_scheme` -/
def extractScheme (raw : List Char) : Option (List Char) :=
  (splitAtFirst [':', '/', '/'] raw).map fun (scheme, _) => scheme

namespace ManagerServer

/-- What `launch` and `connect` read of the manager's `Config`, with `str::to_lowercase`. -/
structure Routes (Plugin : Type*) where
  launchFallbackScheme : List Char
  connectFallbackScheme : List Char
  plugins : List Char → Option Plugin
  toLowercase : List Char → List Char

section Routes

variable {Plugin : Type*}

/-- The plugin that is registered for a scheme. -/
def Routes.plugin (config : Routes Plugin) (scheme : List Char) : Except (List Char) Plugin :=
  match config.plugins (config.toLowercase scheme) with
  | some plugin => .ok plugin
  | none =>
      .error ("No plugin registered for scheme '".toList ++ (config.toLowercase scheme ++ ['\'']))

/-- The choice of `ManagerServer::launch`. -/
def Routes.launch (config : Routes Plugin) (raw : List Char) : Except (List Char) Plugin :=
  match extractScheme raw with
  | some scheme => config.plugin scheme
  | none => config.plugin config.launchFallbackScheme

/-- The choice of `ManagerServer::connect`. -/
def Routes.connect (config : Routes Plugin) (raw : List Char) : Except (List Char) Plugin :=
  match extractScheme raw with
  | some scheme => config.plugin scheme
  | none => config.plugin config.connectFallbackScheme

end Routes

/-- The manager reads a raw text as a plugin does that reads `d`: the plugin is the one for the
scheme of `d`, or the fallback if it has none, whatever else of the text holds a `://`. -/
structure Agrees {Plugin : Type*} {net : StdNet} (config : Routes Plugin) (raw : List Char)
    (d : Destination net) : Prop where
  scheme : extractScheme raw = d.scheme
  launch : config.launch raw = config.plugin (d.scheme.getD config.launchFallbackScheme)
  connect : config.connect raw = config.plugin (d.scheme.getD config.connectFallbackScheme)

/-- Where there is a `://`, a scheme is in front of it. -/
def SchemeInFront (u : Unicode) (raw : List Char) : Prop :=
  ¬ [':', '/', '/'] <:+: raw ∨
    ∃ scheme rest, raw = scheme ++ ([':', '/', '/'] ++ rest) ∧
      ∀ c ∈ scheme, Destination.isSchemeChar u c = true

section Agreement

variable {Plugin : Type*} {net : StdNet} {u : Unicode} {config : Routes Plugin}
  {raw rest scheme : List Char} {d : Destination net}

theorem extractScheme_eq_none_iff : extractScheme raw = none ↔ ¬ [':', '/', '/'] <:+: raw := by
  rw [extractScheme, Option.map_eq_none_iff, splitAtFirst_eq_none_iff (List.cons_ne_nil _ _)]

/-- A scheme that is parsed is what the manager reads. -/
theorem extractScheme_of_parseScheme (h : Destination.parseScheme u raw = .ok (rest, scheme)) :
    extractScheme raw = some scheme := by
  unfold Destination.parseScheme at h
  split at h
  · cases h
  · next hsplit =>
      split_ifs at h
      cases h
      rw [extractScheme, hsplit, Option.map_some]

/-- Where no scheme is parsed, there is no `://`, or no scheme in front of it. -/
theorem not_schemeInFront_of_error {e : String} (hu : u.Documented)
    (h : Destination.parseScheme u raw = .error e) (hcolon : [':', '/', '/'] <:+: raw) :
    ¬ SchemeInFront u raw := by
  rintro (hnone | ⟨scheme, rest, hraw, hall⟩)
  · exact hnone hcolon
  · have hok := (Destination.parseScheme_eq_ok_iff hu).mpr ⟨hraw, hall⟩
    rw [h] at hok
    cases hok

theorem agrees_of_extractScheme (h : extractScheme raw = d.scheme) : Agrees config raw d := by
  refine ⟨h, ?_, ?_⟩
  · rw [Routes.launch, h]
    cases d.scheme with
    | none => rfl
    | some scheme => rfl
  · rw [Routes.connect, h]
    cases d.scheme with
    | none => rfl
    | some scheme => rfl

/-- The manager agrees with the plugin exactly where a scheme is in front of a `://`. -/
theorem agrees_iff (hu : u.Documented) (h : Destination.parse net u raw = .ok d) :
    Agrees config raw d ↔ SchemeInFront u raw := by
  obtain ⟨s₁, s₂, s₃, usernamePassword, hscheme, -⟩ := Destination.parse_eq_ok_iff.mp h
  rcases maybe_eq_ok_iff.mp hscheme with ⟨scheme, hsome, hparse⟩ | ⟨hnone, -, e, herror⟩
  · -- a scheme is parsed
    constructor
    · intro _
      obtain ⟨hraw, hall⟩ := (Destination.parseScheme_eq_ok_iff hu).mp hparse
      exact Or.inr ⟨scheme, s₁, hraw, hall⟩
    · intro _
      apply agrees_of_extractScheme
      rw [extractScheme_of_parseScheme hparse, hsome]
  · constructor
    · intro hagrees
      exact Or.inl (extractScheme_eq_none_iff.mp (hagrees.scheme.trans hnone))
    · intro hfront
      apply agrees_of_extractScheme
      rw [hnone, extractScheme_eq_none_iff]
      exact fun hcolon => not_schemeInFront_of_error hu herror hcolon hfront

end Agreement

/-! ### A password with a separator -/

/-- The manager's own fallbacks, with a plugin for each. -/
def defaultRoutes : Routes String where
  launchFallbackScheme := "ssh".toList
  connectFallbackScheme := "distant".toList
  plugins scheme := if scheme = "ssh".toList ∨ scheme = "distant".toList then
    some (String.ofList scheme) else none
  toLowercase := List.map Char.toLower

theorem agrees_ssh :
    ∃ d : Destination Host.loopback,
      Destination.parse Host.loopback asciiTables "SSH://me:://@host".toList = .ok d ∧
        Agrees defaultRoutes "SSH://me:://@host".toList d := by
  have h : Destination.parse Host.loopback asciiTables "SSH://me:://@host".toList =
      .ok ⟨some "SSH".toList, some "me".toList, some "://".toList, .name "host", none⟩ := rfl
  refine ⟨_, h, (agrees_iff documented_asciiTables h).mpr (Or.inr ?_)⟩
  refine ⟨"SSH".toList, "me:://@host".toList, rfl, ?_⟩
  exact List.all_eq_true.mp rfl

/-- Nothing but the password has a `://`, and what stands in front of it is taken for the scheme. -/
theorem not_agrees_password :
    ∃ d : Destination Host.loopback,
      Destination.parse Host.loopback asciiTables "me:p://w@host".toList = .ok d ∧
        d.scheme = none ∧ d.password = some "p://w".toList ∧
        ¬ Agrees defaultRoutes "me:p://w@host".toList d ∧
        defaultRoutes.connect "me:p://w@host".toList =
          .error "No plugin registered for scheme 'me:p'".toList := by
  refine ⟨⟨none, some "me".toList, some "p://w".toList, .name "host", none⟩, rfl, rfl, rfl, ?_, rfl⟩
  intro hagrees
  have hscheme := hagrees.scheme
  cases hscheme

end ManagerServer

end Distant
