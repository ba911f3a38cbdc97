import Distant.Cli.Sanitizer

/-!
# The sanitizer on a stream

What the sanitizer should do is said about whole streams: `cut` cuts a stream into the escape
sequences and the other bytes, up to the first sequence that is not finished, and `reference` drops
the sequences that are to be stripped. `filterAll_eq_reference` says that the sanitizer does the
same however the stream arrives in chunks, as long as it does not run into its cap.

`Cuts` is the graph of `cut`, and the proofs are by induction on it.
-/

namespace Distant

/-- An escape sequence with the bytes that it is made of, or a byte that belongs to none. -/
inductive Token where
  | sequence (seq : EscapeSeq) (bytes : Bytes)
  | byte (b : UInt8)
  deriving DecidableEq, Repr

def Token.bytes : Token → Bytes
  | .sequence _ bytes => bytes
  | .byte b => [b]

/-- Cuts a stream from left to right, up to the first unfinished sequence. The first `skip` bytes
belong to a sequence that has been cut off. -/
def cut : Bytes → Nat → List Token × Bytes
  | [], _ => ([], [])
  | _ :: bs, skip + 1 => cut bs skip
  | b :: bs, 0 =>
    if b = ESC then
      match parseEscape (b :: bs) with
      | some (seq, len) =>
        (.sequence seq ((b :: bs).take len) :: (cut bs (len - 1)).1, (cut bs (len - 1)).2)
      | none =>
        if TerminalSanitizer.genuinelyIncomplete (b :: bs) then ([], b :: bs)
        else (.byte b :: (cut bs 0).1, (cut bs 0).2)
    else (.byte b :: (cut bs 0).1, (cut bs 0).2)

namespace TerminalSanitizer

/-- Everything is kept but the sequences that are classified as such. -/
def keeps (s : TerminalSanitizer) : Token → Bool
  | .sequence seq _ => s.classify seq == .passThrough
  | .byte _ => true

/-- The bytes of the tokens that are kept, in order. -/
def kept (s : TerminalSanitizer) (tokens : List Token) : Bytes :=
  (tokens.filter s.keeps).flatMap Token.bytes

/-- What the sanitizer should let through of a whole stream, and the unfinished rest of it. -/
def reference (s : TerminalSanitizer) (stream : Bytes) : Bytes × Bytes :=
  (s.kept (cut stream 0).1, (cut stream 0).2)

end TerminalSanitizer

/-! ## Cutting a stream -/

/-- `Cuts bs tokens rest`: the stream `bs` is cut into `tokens`, and `rest` is not finished. -/
inductive Cuts : Bytes → List Token → Bytes → Prop
  | done : Cuts [] [] []
  | unfinished {bs : Bytes} : parseEscape (ESC :: bs) = none →
      TerminalSanitizer.genuinelyIncomplete (ESC :: bs) = true → Cuts (ESC :: bs) [] (ESC :: bs)
  | sequence {seq : EscapeSeq} {w bs : Bytes} {tokens : List Token} {rest : Bytes} :
      Spells seq w → Cuts bs tokens rest → Cuts (w ++ bs) (.sequence seq w :: tokens) rest
  /-- an escape that is not recognized -/
  | escape {b : UInt8} {bs : Bytes} {tokens : List Token} {rest : Bytes} :
      (isAsciiGraphic b || b == ascii ' ') = false → Cuts (b :: bs) tokens rest →
      Cuts (ESC :: b :: bs) (.byte ESC :: tokens) rest
  | byte {b : UInt8} {bs : Bytes} {tokens : List Token} {rest : Bytes} :
      b ≠ ESC → Cuts bs tokens rest → Cuts (b :: bs) (.byte b :: tokens) rest

theorem cut_skip (bs : Bytes) (skip : Nat) : cut bs skip = cut (bs.drop skip) 0 := by
  induction skip generalizing bs with
  | zero => rfl
  | succ skip ih =>
      cases bs with
      | nil => simp [cut]
      | cons b bs => exact ih bs

/-- An escape that is neither recognized nor incomplete stands before a byte that cannot follow
it. -/
theorem not_graphic_of_lone {bs : Bytes} (hparse : parseEscape (ESC :: bs) = none)
    (hdone : ¬TerminalSanitizer.genuinelyIncomplete (ESC :: bs) = true) :
    ∃ b bs', bs = b :: bs' ∧ (isAsciiGraphic b || b == ascii ' ') = false := by
  cases bs with
  | nil => exact absurd rfl hdone
  | cons b bs =>
      refine ⟨b, bs, rfl, ?_⟩
      simp only [TerminalSanitizer.genuinelyIncomplete, Bool.or_eq_true, Bool.and_eq_true,
        beq_iff_eq, not_or] at hdone
      obtain ⟨⟨⟨h₁, h₂⟩, h₃⟩, h₄⟩ := hdone
      rw [parseEscape, if_neg (by simp), if_neg h₁, if_neg h₂, if_neg h₃] at hparse
      split at hparse
      · next h => simp [h, List.isEmpty_iff] at h₄ hparse
                  exact absurd hparse h₄
      · split at hparse
        · cases hparse
        · next h => simpa using h

theorem lone_of_not_graphic {b : UInt8} (hb : (isAsciiGraphic b || b == ascii ' ') = false)
    (bs : Bytes) : parseEscape (ESC :: b :: bs) = none ∧
      TerminalSanitizer.genuinelyIncomplete (ESC :: b :: bs) = false := by
  have hne (c : UInt8) (hc : (isAsciiGraphic c || c == ascii ' ') = true) : b ≠ c := by
    rintro rfl
    rw [hb] at hc
    cases hc
  have h₁ := hne (ascii '[') (by decide)
  have h₂ := hne (ascii ']') (by decide)
  have h₃ := hne (ascii 'P') (by decide)
  have h₄ := hne (ascii 'O') (by decide)
  constructor
  · rw [parseEscape, if_neg (by simp), if_neg h₁, if_neg h₂, if_neg h₃, if_neg h₄, hb]
    rfl
  · simp [TerminalSanitizer.genuinelyIncomplete, h₁, h₂, h₃, h₄]

/-- `cut` cuts a stream. -/
theorem cuts_cut (bs : Bytes) : Cuts bs (cut bs 0).1 (cut bs 0).2 := by
  induction hlen : bs.length using Nat.strongRecOn generalizing bs with
  | _ n ih =>
    subst hlen
    cases bs with
    | nil => exact .done
    | cons b bs =>
        rw [cut]
        split
        · next hesc =>
            subst hesc
            split
            · next seq len hparse =>
                obtain ⟨w, behind, hbs, rfl, hspells⟩ := parseEscape_eq_some_iff.mp hparse
                obtain ⟨c, w', rfl, -⟩ := hspells.eq_cons
                obtain rfl : bs = c :: w' ++ behind := (List.cons.inj hbs).2
                have hrest : cut (c :: w' ++ behind) ((ESC :: c :: w').length - 1) =
                    cut behind 0 := by
                  rw [cut_skip]
                  congr 1
                  exact List.drop_left' rfl
                rw [hrest, hbs, List.take_left' rfl]
                exact .sequence hspells (ih _ (by simp; omega) behind rfl)
            · next hparse =>
                split
                · next hinc => exact .unfinished hparse hinc
                · next hdone =>
                    obtain ⟨c, bs', rfl, hc⟩ := not_graphic_of_lone hparse hdone
                    exact .escape hc (ih _ (by simp) _ rfl)
        · next hesc => exact .byte hesc (ih _ (by simp) _ rfl)

/-- There is only one way to cut a stream. -/
theorem cut_of_cuts {bs rest : Bytes} {tokens : List Token} (h : Cuts bs tokens rest) :
    cut bs 0 = (tokens, rest) := by
  induction h with
  | done => rfl
  | unfinished hparse hinc => simp [cut, hparse, hinc]
  | @sequence seq w bs tokens rest hspells _ ih =>
      have hparse := parseEscape_append hspells bs
      obtain ⟨c, w', rfl, -⟩ := hspells.eq_cons
      have hrest : cut (c :: w' ++ bs) ((ESC :: c :: w').length - 1) = cut bs 0 := by
        rw [cut_skip]
        congr 1
        exact List.drop_left' rfl
      simp only [List.cons_append] at hparse hrest ⊢
      rw [cut, if_pos rfl, hparse]
      simp only [hrest, ih]
      simp
  | @escape b bs tokens rest hb _ ih =>
      obtain ⟨hparse, hdone⟩ := lone_of_not_graphic hb bs
      rw [cut, if_pos rfl, hparse]
      simp [hdone, ih]
  | byte hesc _ ih => simp [cut, hesc, ih]

/-- The tokens and the rest are the whole stream: nothing is lost, doubled or moved. -/
theorem Cuts.bytes {bs rest : Bytes} {tokens : List Token} (h : Cuts bs tokens rest) :
    tokens.flatMap Token.bytes ++ rest = bs := by
  induction h with
  | done => rfl
  | unfinished => rfl
  | sequence _ _ ih => simp [Token.bytes, ← ih]
  | escape _ _ ih => simp [Token.bytes, ← ih]
  | byte _ _ ih => simp [Token.bytes, ← ih]

theorem Cuts.bytes_ne_nil {bs rest : Bytes} {tokens : List Token} (h : Cuts bs tokens rest) :
    ∀ t ∈ tokens, t.bytes ≠ [] := by
  induction h with
  | done => exact nofun
  | unfinished => exact nofun
  | sequence hspells _ ih =>
      obtain ⟨c, w', rfl, -⟩ := hspells.eq_cons
      simpa [Token.bytes] using ih
  | escape _ _ ih => simpa [Token.bytes] using ih
  | byte _ _ ih => simpa [Token.bytes] using ih

/-- When more arrives, only the unfinished rest is cut again. -/
theorem Cuts.append {x y rest rest' : Bytes} {tokens tokens' : List Token}
    (h : Cuts x tokens rest) (h' : Cuts (rest ++ y) tokens' rest') :
    Cuts (x ++ y) (tokens ++ tokens') rest' := by
  induction h with
  | done => exact h'
  | unfinished => exact h'
  | sequence hspells _ ih =>
      rw [List.append_assoc]
      exact .sequence hspells (ih h')
  | escape hb _ ih => exact .escape hb (ih h')
  | byte hb _ ih => exact .byte hb (ih h')

/-! ## The sanitizer and the reference -/

namespace TerminalSanitizer

variable (s : TerminalSanitizer)

theorem scan_skip (bs : Bytes) (skip : Nat) : s.scan bs skip = s.scan (bs.drop skip) 0 := by
  induction skip generalizing bs with
  | zero => rfl
  | succ skip ih =>
      cases bs with
      | nil => simp [scan]
      | cons b bs => exact ih bs

theorem kept_cons_sequence (seq : EscapeSeq) (w : Bytes) (tokens : List Token) :
    s.kept (.sequence seq w :: tokens) =
      match s.classify seq with
      | .strip => s.kept tokens
      | .passThrough => w ++ s.kept tokens := by
  cases hseq : s.classify seq <;> simp [kept, keeps, hseq, Token.bytes]

@[simp] theorem kept_cons_byte (b : UInt8) (tokens : List Token) :
    s.kept (.byte b :: tokens) = b :: s.kept tokens := rfl

theorem kept_append (tokens tokens' : List Token) :
    s.kept (tokens ++ tokens') = s.kept tokens ++ s.kept tokens' := by
  simp [kept]

/-- The loop of the sanitizer lets through what the reference does. -/
theorem scan_of_cuts {bs rest : Bytes} {tokens : List Token} (h : Cuts bs tokens rest) :
    s.scan bs 0 = (s.kept tokens, rest) := by
  induction h with
  | done => rfl
  | unfinished hparse hinc => simp [scan, hparse, hinc, kept]
  | @sequence seq w bs tokens rest hspells _ ih =>
      have hparse := parseEscape_append hspells bs
      obtain ⟨c, w', rfl, -⟩ := hspells.eq_cons
      have hrest : s.scan (c :: w' ++ bs) ((ESC :: c :: w').length - 1) = s.scan bs 0 := by
        rw [scan_skip]
        congr 1
        exact List.drop_left' rfl
      simp only [List.cons_append] at hparse hrest ⊢
      rw [scan, if_pos rfl, hparse]
      simp only [hrest, ih]
      rw [kept_cons_sequence]
      cases s.classify seq <;> simp
  | @escape b bs tokens rest hb _ ih =>
      obtain ⟨hparse, hdone⟩ := lone_of_not_graphic hb bs
      rw [scan, if_pos rfl, hparse]
      simp [hdone, ih]
  | byte hesc _ ih => simp [scan, hesc, ih]

theorem scan_eq_reference (bs : Bytes) : s.scan bs 0 = s.reference bs :=
  s.scan_of_cuts (cuts_cut bs)

/-- When more arrives, the reference goes on from its unfinished rest. -/
theorem reference_append (x y : Bytes) :
    s.reference (x ++ y) =
      ((s.reference x).1 ++ (s.reference ((s.reference x).2 ++ y)).1,
        (s.reference ((s.reference x).2 ++ y)).2) := by
  have h := cut_of_cuts ((cuts_cut x).append (cuts_cut ((cut x 0).2 ++ y)))
  simp only [reference, h, kept_append]

/-- No unfinished sequence ever exceeds the cap. -/
def Capped (chunks : List Bytes) : Prop :=
  ∀ n, (s.reference (chunks.take n).flatten).2.length ≤ PENDING_CAP

variable {s}

/-- One call, when what has come before left `pending` unfinished. -/
theorem filter_eq {input : Bytes} (h : (s.reference (s.pending ++ input)).2.length ≤ PENDING_CAP) :
    s.filter input = ((s.reference (s.pending ++ input)).1,
      { s with pending := (s.reference (s.pending ++ input)).2 }) := by
  unfold filter
  have hscan : { s with pending := [] }.scan (s.pending ++ input) 0 =
      s.reference (s.pending ++ input) := by
    rw [scan_eq_reference]
    rfl
  simp only [hscan, List.length_nil, Nat.zero_add, List.nil_append]
  rw [if_neg (Nat.not_lt.mpr h)]

/-- However a stream arrives in chunks, the sanitizer lets through what the reference lets through
of the whole, and keeps back its unfinished rest. -/
theorem filterAll_spec (s : TerminalSanitizer) (hs : s.pending = []) (chunks : List Bytes)
    (hcap : s.Capped chunks) :
    (s.filterAll chunks).1 = (s.reference chunks.flatten).1 ∧
      (s.filterAll chunks).2.pending = (s.reference chunks.flatten).2 := by
  -- the chunks so far are `past`, of which the reference leaves what is pending
  suffices h : ∀ (past chunks : List Bytes) (t : TerminalSanitizer),
      t = { s with pending := (s.reference past.flatten).2 } → s.Capped (past ++ chunks) →
      (s.reference past.flatten).1 ++ (t.filterAll chunks).1 =
          (s.reference (past ++ chunks).flatten).1 ∧
        (t.filterAll chunks).2.pending = (s.reference (past ++ chunks).flatten).2 by
    refine h [] chunks s ?_ hcap
    obtain ⟨modes, xtwinops, queries, pending⟩ := s
    obtain rfl : pending = [] := hs
    rfl
  intro past chunks
  induction chunks generalizing past with
  | nil =>
      rintro t rfl -
      simp [filterAll]
  | cons chunk chunks ih =>
      rintro t rfl hcap
      have happend := s.reference_append past.flatten chunk
      have hflat : (past ++ [chunk]).flatten = past.flatten ++ chunk := by simp
      have hlen : (s.reference ((s.reference past.flatten).2 ++ chunk)).2.length ≤ PENDING_CAP := by
        have hn := hcap (past.length + 1)
        have htake : (past ++ chunk :: chunks).take (past.length + 1) = past ++ [chunk] := by
          simp [List.take_append]
        rw [htake, hflat, happend] at hn
        exact hn
      have hfilter : ({ s with pending := (s.reference past.flatten).2 } :
          TerminalSanitizer).filter chunk =
            ((s.reference ((s.reference past.flatten).2 ++ chunk)).1,
              { s with pending := (s.reference ((s.reference past.flatten).2 ++ chunk)).2 }) :=
        filter_eq hlen
      have hnext := ih (past ++ [chunk])
        { s with pending := (s.reference ((s.reference past.flatten).2 ++ chunk)).2 }
        (by rw [hflat, happend]) (by simpa using hcap)
      rw [hflat, happend, List.append_assoc, List.append_assoc] at hnext
      unfold filterAll
      rw [hfilter]
      exact hnext

/-- The sanitizer is the reference, and the reference loses, doubles or moves no byte but those of
the sequences that it strips. -/
theorem filterAll_eq_reference (s : TerminalSanitizer) (hs : s.pending = []) (chunks : List Bytes)
    (hcap : s.Capped chunks) :
    (s.filterAll chunks).1 = (s.reference chunks.flatten).1 ∧
      (s.filterAll chunks).2.pending = (s.reference chunks.flatten).2 ∧
      (cut chunks.flatten 0).1.flatMap Token.bytes ++ (cut chunks.flatten 0).2 = chunks.flatten := by
  obtain ⟨hout, hpending⟩ := filterAll_spec s hs chunks hcap
  exact ⟨hout, hpending, (cuts_cut chunks.flatten).bytes⟩

/-- A query that is cut in two, with text around it. -/
def brokenQuery : List Bytes :=
  [[ascii 'a', ESC, ascii '['], [ascii '6', ascii 'n', ascii 'b'], [ESC]]

theorem filterAll_brokenQuery : (conpty.filterAll brokenQuery).1 = [ascii 'a', ascii 'b'] ∧
    (conpty.filterAll brokenQuery).2.pending = [ESC] ∧
    (cut brokenQuery.flatten 0).1.flatMap Token.bytes ++ (cut brokenQuery.flatten 0).2 =
      brokenQuery.flatten := by
  refine filterAll_eq_reference conpty rfl brokenQuery fun n => ?_
  match n with
  | 0 => decide
  | 1 => decide
  | 2 => decide
  | n + 3 =>
      rw [List.take_of_length_le (by simp [brokenQuery])]
      decide

end TerminalSanitizer

end Distant
