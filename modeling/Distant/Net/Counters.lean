import Distant.Net.Link

/-!
# Sent and received counters

Over a link that loses nothing, the receiver's count of received frames should follow the sender's
count of sent frames. The sender decides whether a frame counts by its raw item, the receiver by
the item as it came, still encoded. `countersAgree_of_run` says what that means: with a codec made
of plain codecs, or as long as no empty frame is written, the counters agree in every state of
every run; and with any other codec they have drifted apart once an empty frame has been received.
-/

namespace Distant

open FramedTransport

/-- The receiver's count never exceeds the sender's, and equals it once all frames written have
been returned by reads. -/
def CountersAgree (n : Net) (x : Side) : Prop :=
  (n.ends x.other).transport.backup.receivedCnt ≤ (n.ends x).transport.backup.sentCnt ∧
    ((n.ends x.other).got = (n.ends x).sent →
      (n.ends x.other).transport.backup.receivedCnt = (n.ends x).transport.backup.sentCnt)

/-- The calls of the two sides, as opposed to a loss and what follows it. -/
def Event.isCall : Event → Bool
  | .write _ _ _ => true
  | .flush _ _ => true
  | .read _ _ => true
  | .lose => false
  | .tick _ _ _ => false

/-- How many of some frames the sender counts. -/
def sentCount (fs : List Frame) : Nat := (fs.filter Frame.isNonempty).length

/-- How many of some frames the receiver counts. -/
def receivedCount (c : BoxedCodec) (fs : List Frame) : Nat :=
  if c.isPlain then sentCount fs else fs.length

theorem sentCount_append (fs gs : List Frame) :
    sentCount (fs ++ gs) = sentCount fs + sentCount gs := by
  simp [sentCount]

theorem sentCount_eq_length_iff {fs : List Frame} :
    sentCount fs = fs.length ↔ ∀ f ∈ fs, f.item ≠ [] := by
  simp [sentCount, List.length_filter_eq_length_iff]

theorem sentCount_single (f : Frame) : sentCount [f] = if f.isNonempty then 1 else 0 := by
  unfold sentCount
  cases h : f.isNonempty <;> simp [h]

theorem receivedCount_append (c : BoxedCodec) (fs gs : List Frame) :
    receivedCount c (fs ++ gs) = receivedCount c fs + receivedCount c gs := by
  unfold receivedCount
  split
  · exact sentCount_append fs gs
  · exact List.length_append

section Invariant

variable (crates : Crates) (c : BoxedCodec) (nonces : Side → Nat → Nonce)

/-- The codecs of two processes that have agreed on `c`. -/
def codecs (x : Side) : Codec := c.codec crates (nonces x)

/-- What holds of both directions in every state of a run without losses. -/
structure Counted (n : Net) : Prop where
  idle : ∀ x, (n.ends x).task = none
  codec : ∀ x, (n.ends x).transport.codec = codecs crates c nonces x
  frozen : ∀ x, (n.ends x).transport.backup.frozen = false
  stream : ∀ x, ∃ pend, Carries (codecs crates c nonces) (n.channel x) pend ∧
    (n.ends x).sent = (n.ends x.other).got ++ pend
  sent : ∀ x, (n.ends x).transport.backup.sentCnt = sentCount (n.ends x).sent
  received : ∀ x, (n.ends x).transport.backup.receivedCnt = receivedCount c (n.ends x).got

variable {crates c nonces}

theorem counted_fresh : Counted crates c nonces (Net.fresh (codecs crates c nonces)) where
  idle := fun _ => rfl
  codec := fun _ => rfl
  frozen := fun _ => rfl
  stream := fun _ => ⟨[], .nil, rfl⟩
  sent := fun _ => rfl
  received := fun _ => by simp [Net.fresh, receivedCount, sentCount, FramedTransport.new, Backup.new]

/-- To keep the invariant when side `x` moves is to keep its parts for `x` and for the direction
towards `x`. -/
theorem Counted.of_moves {n n' : Net} {x : Side} (h : Counted crates c nonces n)
    (hm : n.Moves n' x)
    (hfrozen : (n'.ends x).transport.backup.frozen = false)
    (hout : ∃ pend, Carries (codecs crates c nonces) (n'.channel x) pend ∧
      (n'.ends x).sent = (n.ends x.other).got ++ pend)
    (hin : ∃ pend, Carries (codecs crates c nonces) (n'.channel x.other) pend ∧
      (n.ends x.other).sent = (n'.ends x).got ++ pend)
    (hsent : (n'.ends x).transport.backup.sentCnt = sentCount (n'.ends x).sent)
    (hreceived : (n'.ends x).transport.backup.receivedCnt = receivedCount c (n'.ends x).got) :
    Counted crates c nonces n' where
  idle := by
    intro y
    rcases x.eq_or_eq_other y with rfl | rfl
    · exact hm.task
    · rw [hm.other]
      exact h.idle _
  codec := by
    intro y
    rcases x.eq_or_eq_other y with rfl | rfl
    · rw [hm.codec]
      exact h.codec _
    · rw [hm.other]
      exact h.codec _
  frozen := by
    intro y
    rcases x.eq_or_eq_other y with rfl | rfl
    · exact hfrozen
    · rw [hm.other]
      exact h.frozen _
  stream := by
    intro y
    rcases x.eq_or_eq_other y with rfl | rfl
    · rw [hm.other]
      exact hout
    · rw [hm.other, Side.other_other]
      exact hin
  sent := by
    intro y
    rcases x.eq_or_eq_other y with rfl | rfl
    · exact hsent
    · rw [hm.other]
      exact h.sent _
  received := by
    intro y
    rcases x.eq_or_eq_other y with rfl | rfl
    · exact hreceived
    · rw [hm.other]
      exact h.received _

variable (hc : crates.Documented)
include hc

/-- A frame that comes in encoded is counted as the receiver counts its decoded form. -/
theorem receivedCount_of_coded {f g : Frame} (h : Coded (codecs crates c nonces) f g) :
    receivedCount c [f] = if g.isNonempty then 1 else 0 := by
  obtain ⟨x, n, henc⟩ := h
  cases hp : c.isPlain with
  | true =>
      rw [codecs, BoxedCodec.encode_of_isPlain hp] at henc
      cases henc
      simp [receivedCount, hp, sentCount_single]
  | false =>
      have hne := BoxedCodec.encode_ne_nil_of_not_isPlain hc hp henc
      simp [receivedCount, hp, hne]

/-- Every call keeps the invariant. -/
theorem Counted.step {p : Profile} {stats : Serde Stats} {n n' : Net} {e : Event}
    (h : Counted crates c nonces n) (he : e.isCall = true)
    (hstep : n.step p stats e = some n') : Counted crates c nonces n' := by
  have hdecode {f g : Frame} (hf : Coded (codecs crates c nonces) f g) (x : Side) :
      (n.ends x).transport.codec.decode g = .ok f := by
    obtain ⟨y, k, henc⟩ := hf
    rw [h.codec x]
    exact BoxedCodec.undoes hc c (nonces y) (nonces x) k f g henc
  cases e with
  | lose => cases he
  | tick x ps writes => cases he
  | flush x writes =>
      obtain ⟨hm, hother, hself, hincoming, hgot, hsent, hbackup⟩ := Net.step_flush hstep
      have hin := h.stream x.other
      rw [Net.channel, Side.other_other, ← hother, ← hincoming, ← hgot] at hin
      refine h.of_moves hm ?_ ?_ ?_ ?_ ?_
      · rw [hbackup]
        exact h.frozen x
      · rw [Net.channel, hm.other, hself, hsent]
        exact h.stream x
      · rw [Net.channel, Side.other_other]
        exact hin
      · rw [hbackup, hsent]
        exact h.sent x
      · rw [hbackup, hgot]
        exact h.received x
  | write x f writes =>
      obtain ⟨hm, hother, hincoming, hgot, heffect⟩ := Net.step_write hstep
      have hin := h.stream x.other
      rw [Net.channel, Side.other_other, ← hother, ← hincoming, ← hgot] at hin
      obtain ⟨pend, hpend, heq⟩ := h.stream x
      rcases heffect with ⟨g, henc, hself, hsent, hbackup⟩ | ⟨hself, hsent, hbackup⟩
      · have hcoded : Coded (codecs crates c nonces) f g :=
          ⟨x, _, by rw [← h.codec x]; exact henc⟩
        refine h.of_moves hm ?_ ?_ ?_ ?_ ?_
        · rw [hbackup, frozen_trackSent]
          exact h.frozen x
        · refine ⟨pend ++ [f], ?_, ?_⟩
          · rw [Net.channel, hm.other, hself, ← List.append_assoc]
            exact hpend.append (.single hcoded)
          · rw [hsent, heq, List.append_assoc]
        · rw [Net.channel, Side.other_other]
          exact hin
        · rw [hbackup, hsent, sentCnt_trackSent (h.frozen x), h.sent x, sentCount_append,
            sentCount_single]
        · rw [hbackup, hgot, receivedCnt_trackSent]
          exact h.received x
      · refine h.of_moves hm ?_ ?_ ?_ ?_ ?_
        · rw [hbackup]
          exact h.frozen x
        · rw [Net.channel, hm.other, hself, hsent]
          exact ⟨pend, hpend, heq⟩
        · rw [Net.channel, Side.other_other]
          exact hin
        · rw [hbackup, hsent]
          exact h.sent x
        · rw [hbackup, hgot]
          exact h.received x
  | read x ps =>
      obtain ⟨hm, hself, hother, hsent, r, hread, hgot⟩ := Net.step_read hstep
      obtain ⟨pend, hpend, heq⟩ := h.stream x.other
      rw [Net.channel, Side.other_other, hother, ← List.append_assoc] at hpend
      rw [Side.other_other] at heq
      have hout : ∃ pend, Carries (codecs crates c nonces) (n'.channel x) pend ∧
          (n'.ends x).sent = (n.ends x.other).got ++ pend := by
        rw [Net.channel, hm.other, hself, hsent]
        exact h.stream x
      cases hread with
      | frame g _ hfront _ _ hbackup =>
          rw [hfront, List.append_assoc] at hpend
          obtain ⟨f, pend', rfl, hcoded, hrest⟩ := hpend.front
          rw [hdecode hcoded x] at hgot
          refine h.of_moves hm ?_ hout ?_ ?_ ?_
          · rw [hbackup, frozen_trackReceived]
            exact h.frozen x
          · refine ⟨pend', ?_, by rw [heq, hgot]; simp [Net.returned, Except.map]⟩
            rw [Net.channel, Side.other_other]
            exact hrest
          · rw [hbackup, hsent, sentCnt_trackReceived]
            exact h.sent x
          · rw [hbackup, hgot, receivedCnt_trackReceived (h.frozen x), h.received x]
            show _ = receivedCount c (_ ++ [f])
            rw [receivedCount_append, receivedCount_of_coded hc hcoded]
      | short _ hincoming _ hbackup =>
          replace hgot : (n'.ends x).got = (n.ends x).got := by simpa [Net.returned] using hgot
          refine h.of_moves hm ?_ hout ?_ ?_ ?_
          · rw [hbackup]
            exact h.frozen x
          · rw [Net.channel, Side.other_other, hincoming, hgot]
            exact ⟨pend, hpend, heq⟩
          · rw [hbackup, hsent]
            exact h.sent x
          · rw [hbackup, hgot]
            exact h.received x
      | panic e _ herr => exact absurd herr (hpend.read_ne_error e)

theorem counted_of_run {p : Profile} {stats : Serde Stats} {es : List Event} {n : Net}
    (hcalls : ∀ e ∈ es, e.isCall = true)
    (hrun : Machine.run (Net.step p stats) es (Net.fresh (codecs crates c nonces)) = some n) :
    Counted crates c nonces n := by
  refine Machine.invariant ?_ counted_fresh (Machine.meeting_of_mem hcalls _) hrun
  intro m e m' hm he hstep
  exact hm.step hc he hstep

end Invariant

/-- The counters agree in every state of a run without losses if the codec is made of plain codecs
or no empty frame was written; and where all frames have been returned, they agree only then. -/
theorem countersAgree_of_run {crates : Crates} (hc : crates.Documented) (c : BoxedCodec)
    (nonces : Side → Nat → Nonce) (p : Profile) (stats : Serde Stats) (es : List Event) (n : Net)
    (hcalls : ∀ e ∈ es, e.isCall = true)
    (hrun : Machine.run (Net.step p stats) es (Net.fresh (codecs crates c nonces)) = some n)
    (x : Side) :
    ((c.isPlain = true ∨ ∀ f ∈ (n.ends x).sent, f.item ≠ []) → CountersAgree n x) ∧
      ((n.ends x.other).got = (n.ends x).sent → CountersAgree n x →
        c.isPlain = true ∨ ∀ f ∈ (n.ends x).sent, f.item ≠ []) := by
  have h := counted_of_run hc hcalls hrun
  obtain ⟨pend, -, hsent⟩ := h.stream x
  unfold CountersAgree
  rw [h.sent x, h.received x.other]
  constructor
  · intro hcond
    have hcount : receivedCount c (n.ends x.other).got = sentCount (n.ends x.other).got := by
      unfold receivedCount
      split
      · rfl
      · next hp =>
          refine (sentCount_eq_length_iff.mpr fun f hf => ?_).symm
          exact hcond.resolve_left hp f (by rw [hsent]; simp [hf])
    rw [hcount]
    refine ⟨?_, fun hall => by rw [hall]⟩
    rw [hsent, sentCount_append]
    exact Nat.le_add_right _ _
  · intro hall hagree
    have heq := hagree.2 hall
    rw [hall] at heq
    unfold receivedCount at heq
    cases hp : c.isPlain with
    | true => exact .inl rfl
    | false =>
        rw [hp, if_neg (by simp)] at heq
        exact .inr (sentCount_eq_length_iff.mp heq.symm)

/-! ## A heartbeat over a compressed link -/

namespace Drift

/-- Crates that compress nothing but the empty message, which becomes the empty deflate stream. -/
def crates : Crates where
  encrypt := fun _ _ m => some (m ++ List.replicate 16 0)
  decrypt := fun _ _ c => some (c.take (c.length - 16))
  compress := fun _ _ m => .ok (if m = [] then [3, 0] else 0 :: m)
  decompress := fun _ c => .ok (if c = [3, 0] then [] else c.tail)

theorem documented : crates.Documented where
  encrypt_length := by
    intro key nonce m c h
    cases h
    simp
  decrypt_encrypt := by
    intro key nonce m c h
    cases h
    simp [crates]
  compress_ne_nil := by
    intro ty level m c h
    cases h
    split <;> simp
  decompress_compress := by
    intro ty level m c h
    cases h
    by_cases hm : m = [] <;> simp [crates, hm]
  compress_blocks := nofun

/-- No counters are exchanged without a loss. -/
def stats : Serde Stats where
  ser := fun _ => .error "unused"
  de := fun _ => .error "unused"
  ser_ne_nil := by
    intro a bs h
    cases h
  de_ser := by
    intro a bs h
    cases h

def nonces (_ : Side) (_ : Nat) : Nonce := ⟨List.replicate 24 0, rfl⟩

def compressed : BoxedCodec := .compression .deflate .default

/-- The empty frame as deflate leaves it, in one piece. -/
def piece : Piece := ⟨⟨[0, 0, 0, 0, 0, 0, 0, 2, 3, 0], by decide⟩, by decide⟩

/-- One side writes a heartbeat, and the other reads it. -/
def events : List Event := [.write .a Frame.empty [10], .read .b [piece]]

/-- After a single heartbeat, the receiver counts a frame that the sender did not count. -/
theorem not_countersAgree_compressed :
    ∃ n, Machine.run (Net.step .dev stats) events (Net.fresh (codecs crates compressed nonces)) =
        some n ∧
      (n.ends .b).got = (n.ends .a).sent ∧ ¬ CountersAgree n .a := by
  refine ⟨_, rfl, rfl, ?_⟩
  intro h
  have hle : 1 ≤ 0 := h.1
  exact absurd hle (by decide)

/-- The same heartbeat over a plain link, and a frame with something in it behind it. -/
def plainEvents : List Event :=
  [.write .a Frame.empty [8], .write .a ⟨[7], by decide⟩ [9],
    .read .b [⟨⟨[0, 0, 0, 0, 0, 0, 0, 0, 0], by decide⟩, by decide⟩],
    .read .b [⟨⟨[0, 0, 0, 0, 0, 0, 1, 7], by decide⟩, by decide⟩]]

theorem countersAgree_plain :
    ∃ n, Machine.run (Net.step .dev stats) plainEvents (Net.fresh (codecs crates .plain nonces)) =
        some n ∧
      (n.ends .b).got = (n.ends .a).sent ∧ CountersAgree n .a := by
  refine ⟨_, rfl, rfl, ?_⟩
  exact (countersAgree_of_run documented .plain nonces .dev stats plainEvents _ (by decide) rfl
    .a).1 (.inl rfl)

end Drift

end Distant
