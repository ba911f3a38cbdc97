import Mathlib.Data.List.Rotate
import Distant.Net.Link

/-!
# One direction of a net

What is known of a net is said for each direction on its own, by where the two synchronizations
stand. `Standing` is what is known of one side, `Content` describes the bytes on the way, and `Way`
says how these, the frames that were written and the frames that were read belong together. Each
thing that a step can do to a direction has its lemma here.
-/

namespace Distant

open FramedTransport

/-! ## Where a synchronization stands -/

namespace FramedTransport.SyncPhase

/-- The stats have not been sent. -/
def isUnsent : SyncPhase → Bool
  | start => true
  | write _ _ => true
  | _ => false

/-- The stats of the other side have not been read, and so nothing has been sent again. -/
def isEarly : SyncPhase → Bool
  | start => true
  | write _ _ => true
  | writing _ => true
  | .stats _ => true
  | _ => false

/-- How many frames the receive loop expects. -/
def expected : SyncPhase → Nat
  | receive own other _ _ => expectedCnt own other
  | _ => 0

/-- How many frames the receive loop has taken. -/
def taken : SyncPhase → Nat
  | receive own other _ left => expectedCnt own other - (left + 1)
  | _ => 0

/-- What the variables of a phase say about the stats of the two sides. -/
def Known (stats : Serde Stats) (t : FramedTransport) (own other : Stats) : SyncPhase → Prop
  | start => t.incoming = [] ∧ own = statsOf t.backup
  | write backup frame => own = statsOf backup ∧ stats.serializeToFrame own = .ok frame
  | writing backup => own = statsOf backup
  | .stats backup => own = statsOf backup
  | flush o o' _ => o = own ∧ o' = other
  | receive o o' _ left => o = own ∧ o' = other ∧ left < expectedCnt own other
  | done => True

end FramedTransport.SyncPhase

open FramedTransport.SyncPhase

/-- What is known of one side, whose stats in the current synchronization are `own`. -/
structure Standing (codec : Codec) (stats : Serde Stats) (e : Endpoint) (ph : SyncPhase)
    (own other : Stats) : Prop where
  codec : e.transport.codec = codec
  task : e.task = ph.pending stats
  frozen : (ph.real e.transport).frozen = false
  stores : 0 < (ph.real e.transport).maxBackupSize
  sentCnt : (ph.real e.transport).sentCnt = e.sent.length
  frames : (ph.real e.transport).frames <:+ e.sent
  received : e.got.length ≤ (ph.real e.transport).receivedCnt
  nonempty : ∀ f ∈ e.sent, f.item ≠ []
  known : ph.Known stats e.transport own other

/-! ## One direction -/

/-- The bytes on the way to `rd`: what it has taken in, and then what is in flight. `pend` are the
frames among them that it has yet to read. -/
inductive Content (codec : Side → Codec) (stats : Serde Stats) (rd : Endpoint)
    (pw pr : SyncPhase) (own : Stats) (flight : Bytes) : List Frame → Prop
  /-- nothing at all, before the stats are sent -/
  | silent : pw.isUnsent = true → pr.isEarly = true → rd.transport.incoming ++ flight = [] →
      Content codec stats rd pw pr own flight []
  /-- the stats, and the frames after them -/
  | stats (f g : Frame) (bs : Bytes) (pend : List Frame) : pw.isUnsent = false →
      pr.isEarly = true → stats.serializeToFrame own = .ok f → Coded codec f g →
      rd.transport.incoming ++ flight = g.toBytes ++ bs → Carries codec bs pend →
      Content codec stats rd pw pr own flight pend
  /-- the frames -/
  | flowing (pend : List Frame) : pw.isUnsent = false → pr.isEarly = false → pr.taken = 0 →
      Carries codec (rd.transport.incoming ++ flight) pend →
      Content codec stats rd pw pr own flight pend
  /-- the frames, those in the incoming buffer part of the way round -/
  | turning (hs tl : List Frame) : pw.isUnsent = false → pr.isEarly = false → pr.taken ≠ 0 →
      hs ≠ [] → hs.rotate pr.expected = hs → Carries codec rd.transport.incoming (hs.rotate pr.taken) →
      Carries codec flight tl → Content codec stats rd pw pr own flight (hs ++ tl)

/-- What is known of the way from `wr`, whose stats are `own`, to `rd`, whose stats are `other`. -/
structure Way (codec : Side → Codec) (stats : Serde Stats) (wr rd : Endpoint) (pw pr : SyncPhase)
    (own other : Stats) (flight : Bytes) : Prop where
  stream : ∃ pend, Content codec stats rd pw pr own flight pend ∧
    if pw.isEarly then pend = [] ∧ rd.got <+: wr.sent else wr.sent = rd.got ++ pend
  /-- what has not been read is stored -/
  kept : wr.sent.drop rd.got.length <:+ (pw.real wr.transport).frames
  agreed : pw.isEarly = true → other.received = rd.got.length ∨ rd.got = wr.sent
  counted : pw.isEarly = true → rd.got.length ≤ other.received
  bounded : pr ≠ .done → rd.got.length ≤ own.sent

/-- What is known of the net: where the two synchronizations stand, and which stats they have
exchanged. -/
structure Delivering (codec : Side → Codec) (stats : Serde Stats) (n : Net)
    (ph : Side → SyncPhase) (rep : Side → Stats) : Prop where
  standing : ∀ x, Standing (codec x) stats (n.ends x) (ph x) (rep x) (rep x.other)
  way : ∀ x, Way codec stats (n.ends x) (n.ends x.other) (ph x) (ph x.other) (rep x)
    (rep x.other) (n.flight x)

/-! ## Steps of one direction -/

section Way

variable {codec : Side → Codec} {stats : Serde Stats} {wr wr' rd rd' : Endpoint}
  {pw pw' pr pr' : SyncPhase} {own other : Stats} {flight flight' : Bytes}

theorem isEarly_of_isUnsent {ph : SyncPhase} (h : ph.isUnsent = true) : ph.isEarly = true := by
  cases ph <;> first | rfl | cases h

/-- What has been read is a beginning of what has been written. -/
theorem Way.got_begins (h : Way codec stats wr rd pw pr own other flight) :
    rd.got <+: wr.sent := by
  obtain ⟨pend, -, hpend⟩ := h.stream
  split at hpend
  · exact hpend.2
  · exact ⟨pend, hpend.symm⟩

/-- The bytes on the way are those of some encoded frames. -/
theorem Way.carries (h : Way codec stats wr rd pw pr own other flight) :
    ∃ fs, Carries codec (rd.transport.incoming ++ flight) fs := by
  obtain ⟨pend, hcontent, -⟩ := h.stream
  cases hcontent with
  | silent _ _ hbytes =>
      rw [hbytes]
      exact ⟨[], .nil⟩
  | stats f g bs pend _ _ _ hcoded hbytes hcarries =>
      rw [hbytes]
      exact ⟨[f] ++ pend, (Carries.single hcoded).append hcarries⟩
  | flowing pend _ _ _ hcarries => exact ⟨pend, hcarries⟩
  | turning hs tl _ _ _ _ _ hin htl => exact ⟨_, hin.append htl⟩

/-- What is still to be read has been written. -/
theorem mem_sent_of_pend {pend : List Frame}
    (hpend : if pw.isEarly then pend = [] ∧ rd.got <+: wr.sent else wr.sent = rd.got ++ pend)
    {f : Frame} (hf : f ∈ pend) : f ∈ wr.sent := by
  split at hpend
  · rw [hpend.1] at hf
    cases hf
  · rw [hpend]
    exact List.mem_append_right _ hf

/-- A step that moves no byte and no frame, and leaves the phases of one kind. -/
theorem Way.of_same (h : Way codec stats wr rd pw pr own other flight)
    (hsent : wr'.sent = wr.sent) (hgot : rd'.got = rd.got)
    (hincoming : rd'.transport.incoming = rd.transport.incoming)
    (hframes : (pw'.real wr'.transport).frames = (pw.real wr.transport).frames)
    (hunsent : pw'.isUnsent = pw.isUnsent) (hearly : pw'.isEarly = pw.isEarly)
    (hearly' : pr'.isEarly = pr.isEarly) (htaken : pr'.taken = pr.taken)
    (hexpected : pr.taken ≠ 0 → pr'.expected = pr.expected) (hdone : pr' ≠ .done → pr ≠ .done) :
    Way codec stats wr' rd' pw' pr' own other flight where
  stream := by
    obtain ⟨pend, hcontent, hpend⟩ := h.stream
    refine ⟨pend, ?_, by rwa [hearly, hsent, hgot]⟩
    cases hcontent with
    | silent h₁ h₂ h₃ =>
        exact .silent (hunsent.trans h₁) (hearly'.trans h₂) (by rw [hincoming, h₃])
    | stats f g bs pend h₁ h₂ hser hcoded hbytes hcarries =>
        exact .stats f g bs pend (hunsent.trans h₁) (hearly'.trans h₂) hser hcoded
          (by rw [hincoming, hbytes]) hcarries
    | flowing pend h₁ h₂ h₃ hcarries =>
        exact .flowing pend (hunsent.trans h₁) (hearly'.trans h₂) (htaken.trans h₃)
          (by rwa [hincoming])
    | turning hs tl h₁ h₂ h₃ hne hround hin htl =>
        exact .turning hs tl (hunsent.trans h₁) (hearly'.trans h₂) (by rwa [htaken]) hne
          (by rwa [hexpected h₃]) (by rwa [hincoming, htaken]) htl
  kept := by
    rw [hsent, hgot, hframes]
    exact h.kept
  agreed := by
    rw [hearly, hsent, hgot]
    exact h.agreed
  counted := by
    rw [hearly, hgot]
    exact h.counted
  bounded := by
    rw [hgot]
    exact fun hpr => h.bounded (hdone hpr)

/-- A frame is written while the writer is in no synchronization. -/
theorem Way.write (h : Way codec stats wr rd .done pr own other flight) {f g : Frame}
    (hcoded : Coded codec f g) (hsent : wr'.sent = wr.sent ++ [f])
    (hkept : wr'.sent.drop rd.got.length <:+ (SyncPhase.done.real wr'.transport).frames) :
    Way codec stats wr' rd .done pr own other (flight ++ g.toBytes) where
  stream := by
    obtain ⟨pend, hcontent, hpend⟩ := h.stream
    have hone : Carries codec g.toBytes [f] := .single hcoded
    refine ⟨pend ++ [f], ?_, ?_⟩
    · cases hcontent with
      | silent h₁ => cases h₁
      | stats f' g' bs pend h₁ h₂ hser hcoded' hbytes hcarries =>
          refine .stats f' g' (bs ++ g.toBytes) _ h₁ h₂ hser hcoded' ?_ (hcarries.append hone)
          rw [← List.append_assoc, hbytes, List.append_assoc]
      | flowing pend h₁ h₂ h₃ hcarries =>
          refine .flowing _ h₁ h₂ h₃ ?_
          rw [← List.append_assoc]
          exact hcarries.append hone
      | turning hs tl h₁ h₂ h₃ hne hround hin htl =>
          rw [List.append_assoc]
          exact .turning hs (tl ++ [f]) h₁ h₂ h₃ hne hround hin (htl.append hone)
    · rw [if_neg (by simp [isEarly])] at hpend ⊢
      rw [hsent, hpend, List.append_assoc]
  kept := hkept
  agreed := by
    intro hearly
    cases hearly
  counted := by
    intro hearly
    cases hearly
  bounded := h.bounded

/-- The writer queues its stats. -/
theorem Way.queueStats (h : Way codec stats wr rd pw pr own other flight) {f g : Frame}
    (hpw : pw.isUnsent = true) (hser : stats.serializeToFrame own = .ok f)
    (hcoded : Coded codec f g) (hsent : wr'.sent = wr.sent)
    (hframes : (pw'.real wr'.transport).frames = (pw.real wr.transport).frames)
    (hunsent : pw'.isUnsent = false) (hearly : pw'.isEarly = true) :
    Way codec stats wr' rd pw' pr own other (flight ++ g.toBytes) where
  stream := by
    obtain ⟨pend, hcontent, hpend⟩ := h.stream
    rw [if_pos (isEarly_of_isUnsent hpw)] at hpend
    refine ⟨[], ?_, ?_⟩
    · cases hcontent with
      | silent h₁ h₂ h₃ =>
          refine .stats f g [] [] hunsent h₂ hser hcoded ?_ .nil
          rw [← List.append_assoc, h₃, List.nil_append, List.append_nil]
      | stats _ _ _ _ h₁ => rw [hpw] at h₁; cases h₁
      | flowing _ h₁ => rw [hpw] at h₁; cases h₁
      | turning _ _ h₁ => rw [hpw] at h₁; cases h₁
    · rw [if_pos hearly, hsent]
      exact ⟨rfl, hpend.2⟩
  kept := by
    rw [hsent, hframes]
    exact h.kept
  agreed := by
    rw [hsent]
    exact fun _ => h.agreed (isEarly_of_isUnsent hpw)
  counted := fun _ => h.counted (isEarly_of_isUnsent hpw)
  bounded := h.bounded

/-- The writer sends again what has not been read. -/
theorem Way.replay (h : Way codec stats wr rd pw pr own other flight) {gs : List Frame}
    (hpw : pw.isEarly = true) (hpw' : pw.isUnsent = false) (hsent : wr'.sent = wr.sent)
    (hframes : (pw'.real wr'.transport).frames = wr.sent.drop rd.got.length)
    (hgs : List.Forall₂ (Coded codec) (wr.sent.drop rd.got.length) gs)
    (hunsent : pw'.isUnsent = false) (hearly : pw'.isEarly = false) :
    Way codec stats wr' rd pw' pr own other (flight ++ Frame.encodings gs) where
  stream := by
    obtain ⟨pend, hcontent, hpend⟩ := h.stream
    rw [if_pos hpw] at hpend
    obtain ⟨hnil, hprefix⟩ := hpend
    have hmore : Carries codec (Frame.encodings gs) (wr.sent.drop rd.got.length) := ⟨gs, rfl, hgs⟩
    refine ⟨wr.sent.drop rd.got.length, ?_, ?_⟩
    · cases hcontent with
      | silent h₁ => rw [hpw'] at h₁; cases h₁
      | stats f g bs pend h₁ h₂ hser hcoded hbytes hcarries =>
          subst hnil
          refine .stats f g (bs ++ Frame.encodings gs) _ hunsent h₂ hser hcoded ?_
            (hcarries.append hmore)
          rw [← List.append_assoc, hbytes, List.append_assoc]
      | flowing pend h₁ h₂ h₃ hcarries =>
          subst hnil
          refine .flowing _ hunsent h₂ h₃ ?_
          rw [← List.append_assoc]
          exact hcarries.append hmore
      | turning hs tl h₁ h₂ h₃ hne => exact absurd (List.append_eq_nil_iff.mp hnil).1 hne
    · rw [if_neg (by simp [hearly]), hsent]
      obtain ⟨tl, htl⟩ := hprefix
      rw [← htl, List.drop_left' rfl]
  kept := by
    rw [hsent, hframes]
  agreed := by
    rw [hearly]
    intro hfalse
    cases hfalse
  counted := by
    rw [hearly]
    intro hfalse
    cases hfalse
  bounded := h.bounded

/-- The content of a buffer that is part of the way round starts with a whole frame. -/
theorem not_noneIn_of_turning {bs : Bytes} {fs : List Frame}
    (hkeeps : ∀ x, (codec x).KeepsNonempty) (hnonempty : ∀ f ∈ fs, f.item ≠ []) (hne : fs ≠ [])
    (hcarries : Carries codec bs fs) (more : Bytes) : ¬ Frame.NoneIn (bs ++ more) := by
  intro hnone
  cases fs with
  | nil => exact hne rfl
  | cons f fs =>
      obtain ⟨g, bs', rfl, hcoded, -⟩ := hcarries.uncons
      have hnil := hnone g (bs' ++ more) (List.append_assoc _ _ _)
      exact hcoded.item_ne_nil hkeeps (hnonempty f (by simp)) (List.append_eq_nil_iff.mp hnil).1

/-- The reader takes in bytes that complete no frame. -/
theorem Way.short (h : Way codec stats wr rd pw pr own other flight)
    (hkeeps : ∀ x, (codec x).KeepsNonempty) (hnonempty : ∀ f ∈ wr.sent, f.item ≠ []) {bs : Bytes}
    (hnone : Frame.NoneIn (rd.transport.incoming ++ bs)) (hgot : rd'.got = rd.got)
    (hincoming : rd'.transport.incoming = rd.transport.incoming ++ bs)
    (hflight : flight = bs ++ flight') : Way codec stats wr rd' pw pr own other flight' where
  stream := by
    obtain ⟨pend, hcontent, hpend⟩ := h.stream
    have hbytes : rd'.transport.incoming ++ flight' = rd.transport.incoming ++ flight := by
      rw [hincoming, hflight, List.append_assoc]
    refine ⟨pend, ?_, by rwa [hgot]⟩
    cases hcontent with
    | silent h₁ h₂ h₃ => exact .silent h₁ h₂ (hbytes.trans h₃)
    | stats f g bs' pend h₁ h₂ hser hcoded hb hcarries =>
        exact .stats f g bs' pend h₁ h₂ hser hcoded (hbytes.trans hb) hcarries
    | flowing pend h₁ h₂ h₃ hcarries => exact .flowing pend h₁ h₂ h₃ (by rwa [hbytes])
    | turning hs tl h₁ h₂ h₃ hne hround hin htl =>
        refine absurd hnone (not_noneIn_of_turning hkeeps ?_ ?_ hin bs)
        · intro f hf
          exact hnonempty f (mem_sent_of_pend hpend (by simp [List.mem_rotate.mp hf]))
        · exact fun hnil => hne (List.rotate_eq_nil_iff.mp hnil)
  kept := by
    rw [hgot]
    exact h.kept
  agreed := by
    rw [hgot]
    exact h.agreed
  counted := by
    rw [hgot]
    exact h.counted
  bounded := by
    rw [hgot]
    exact h.bounded

/-- The reader reads the stats. -/
theorem Way.readStats (h : Way codec stats wr rd pw pr own other flight)
    (hpr : pr.isEarly = true) {g : Frame} {bs : Bytes} (hgot : rd'.got = rd.got)
    (hfront : rd.transport.incoming ++ bs = g.toBytes ++ rd'.transport.incoming)
    (hflight : flight = bs ++ flight') (hearly : pr'.isEarly = false) (htaken : pr'.taken = 0) :
    (∃ f, stats.serializeToFrame own = .ok f ∧ Coded codec f g) ∧
      Way codec stats wr rd' pw pr' own other flight' := by
  have hbytes : rd.transport.incoming ++ flight =
      g.toBytes ++ (rd'.transport.incoming ++ flight') := by
    rw [hflight, ← List.append_assoc, hfront, List.append_assoc]
  obtain ⟨pend, hcontent, hpend⟩ := h.stream
  cases hcontent with
  | silent h₁ h₂ h₃ =>
      rw [hbytes] at h₃
      exact absurd (List.append_eq_nil_iff.mp h₃).1 g.toBytes_ne_nil
  | flowing _ h₁ h₂ => rw [hpr] at h₂; cases h₂
  | turning _ _ h₁ h₂ => rw [hpr] at h₂; cases h₂
  | stats f g' bs' pend h₁ h₂ hser hcoded hb hcarries =>
      rw [hbytes] at hb
      obtain ⟨rfl, hrest⟩ := Frame.toBytes_append_inj hb
      refine ⟨⟨f, hser, hcoded⟩, ⟨pend, ?_, by rwa [hgot]⟩, ?_, ?_, ?_, ?_⟩
      · exact .flowing pend h₁ hearly htaken (by rwa [hrest])
      · rw [hgot]
        exact h.kept
      · rw [hgot]
        exact h.agreed
      · rw [hgot]
        exact h.counted
      · rw [hgot]
        refine fun _ => h.bounded ?_
        intro hdone
        rw [hdone] at hpr
        cases hpr

/-- The reader, in no synchronization, reads a frame. -/
theorem Way.read (h : Way codec stats wr rd pw .done own other flight) {g : Frame} {bs : Bytes}
    (hfront : rd.transport.incoming ++ bs = g.toBytes ++ rd'.transport.incoming)
    (hflight : flight = bs ++ flight') :
    ∃ f, Coded codec f g ∧ f ∈ wr.sent ∧ (rd'.got = rd.got ++ [f] →
      Way codec stats wr rd' pw .done own other flight') := by
  have hbytes : rd.transport.incoming ++ flight =
      g.toBytes ++ (rd'.transport.incoming ++ flight') := by
    rw [hflight, ← List.append_assoc, hfront, List.append_assoc]
  obtain ⟨pend, hcontent, hpend⟩ := h.stream
  cases hcontent with
  | silent h₁ h₂ => cases h₂
  | stats f g' bs' pend h₁ h₂ => cases h₂
  | turning hs tl h₁ h₂ h₃ => exact absurd rfl h₃
  | flowing pend h₁ h₂ h₃ hcarries =>
      rw [hbytes] at hcarries
      obtain ⟨f, pend', rfl, hcoded, hrest⟩ := hcarries.front
      have hearly : pw.isEarly = false := by
        cases hearly : pw.isEarly with
        | false => rfl
        | true =>
            rw [if_pos hearly] at hpend
            cases hpend.1
      refine ⟨f, hcoded, mem_sent_of_pend hpend (by simp), fun hgot => ?_⟩
      rw [if_neg (by simp [hearly])] at hpend
      refine ⟨⟨pend', .flowing pend' h₁ rfl rfl hrest, ?_⟩, ?_, ?_, ?_, ?_⟩
      · rw [if_neg (by simp [hearly]), hgot, hpend, List.append_assoc]
        rfl
      · rw [hgot, List.length_append, ← List.drop_drop]
        exact (List.drop_suffix _ _).trans h.kept
      · rw [hearly]
        intro hfalse
        cases hfalse
      · rw [hearly]
        intro hfalse
        cases hfalse
      · intro hdone
        exact absurd rfl hdone

/-- Decoding the encoded frames gives back the frames. -/
theorem map_decode_of_coded (hc : Shared codec) {fs gs : List Frame}
    (h : List.Forall₂ (Coded codec) fs gs) (x : Side) :
    gs.map (codec x).decode = fs.map .ok := by
  induction h with
  | nil => rfl
  | cons hcoded _ ih => rw [List.map_cons, List.map_cons, hcoded.decode hc x, ih]

/-- Before a frame is taken, the buffer with the bytes that have come in for it is some way round,
or just about to start. -/
theorem Way.turning_of_take (h : Way codec stats wr rd pw pr own other flight) (hc : Shared codec)
    (hnonempty : ∀ f ∈ wr.sent, f.item ≠ []) {g : Frame} {bs rest : Bytes} (x : Side)
    (hpr : pr.isEarly = false)
    (hfront : rd.transport.incoming ++ bs = g.toBytes ++ rest)
    (hfirst : bs ≠ [] → Frame.NoneIn rd.transport.incoming)
    (hround : pr.taken = 0 → ∃ gs, rd.transport.incoming ++ bs = Frame.encodings gs ∧
      (gs.map (codec x).decode).rotate pr.expected = gs.map (codec x).decode)
    (hflight : flight = bs ++ flight') :
    ∃ hs tl, pw.isUnsent = false ∧ hs ≠ [] ∧ hs.rotate pr.expected = hs ∧
      Carries codec (rd.transport.incoming ++ bs) (hs.rotate pr.taken) ∧
      Carries codec flight' tl ∧
      if pw.isEarly then hs ++ tl = [] ∧ rd.got <+: wr.sent
      else wr.sent = rd.got ++ (hs ++ tl) := by
  obtain ⟨pend, hcontent, hpend⟩ := h.stream
  cases hcontent with
  | silent h₁ h₂ => rw [hpr] at h₂; cases h₂
  | stats f g' bs' pend h₁ h₂ => rw [hpr] at h₂; cases h₂
  | flowing pend h₁ h₂ h₃ hcarries =>
      obtain ⟨gs, hgs, hturn⟩ := hround h₃
      rw [hflight, ← List.append_assoc, hgs] at hcarries
      obtain ⟨hs, tl, rfl, hcoded, htl⟩ := hcarries.split
      rw [map_decode_of_coded hc hcoded, ← List.map_rotate] at hturn
      have hinj : Function.Injective (Except.ok (ε := Fault) : Frame → _) :=
        fun _ _ heq => Except.ok.inj heq
      refine ⟨hs, tl, h₁, ?_, hinj.list_map hturn, ?_, htl, hpend⟩
      · intro hnil
        subst hnil
        cases hcoded
        rw [hgs] at hfront
        exact g.toBytes_ne_nil (List.append_eq_nil_iff.mp hfront.symm).1
      · rw [h₃, List.rotate_zero, hgs]
        exact ⟨gs, rfl, hcoded⟩
  | turning hs tl h₁ h₂ h₃ hne hturn hin htl =>
      -- nothing comes in as long as the buffer holds a whole frame
      have hbs : bs = [] := by
        by_contra hbs
        refine not_noneIn_of_turning hc.keepsNonempty ?_ ?_ hin [] (by simpa using hfirst hbs)
        · intro f hf
          exact hnonempty f (mem_sent_of_pend hpend (by simp [List.mem_rotate.mp hf]))
        · exact fun hnil => hne (List.rotate_eq_nil_iff.mp hnil)
      subst hbs
      rw [List.nil_append] at hflight
      exact ⟨hs, tl, h₁, hne, hturn, by rwa [List.append_nil], by rwa [← hflight], hpend⟩

/-- A tick of the receive loop takes the first frame of the buffer and puts it back at its end.
After as many ticks as frames were expected, each is back in its place. -/
theorem Way.take (h : Way codec stats wr rd pw pr own other flight) (hc : Shared codec)
    (hnonempty : ∀ f ∈ wr.sent, f.item ≠ []) {g : Frame} {bs rest : Bytes} (x : Side)
    (hpr : pr.isEarly = false) (hdone : pr ≠ .done)
    (hfront : rd.transport.incoming ++ bs = g.toBytes ++ rest)
    (hfirst : bs ≠ [] → Frame.NoneIn rd.transport.incoming)
    (hround : pr.taken = 0 → ∃ gs, rd.transport.incoming ++ bs = Frame.encodings gs ∧
      (gs.map (codec x).decode).rotate pr.expected = gs.map (codec x).decode)
    (hflight : flight = bs ++ flight') :
    ∃ f, Coded codec f g ∧ ∀ (g' : Frame) (rd' : Endpoint) (pr' : SyncPhase), Coded codec f g' →
      rd'.got = rd.got → rd'.transport.incoming = rest ++ g'.toBytes → pr'.isEarly = false →
      (pr'.taken = pr.taken + 1 ∧ pr'.expected = pr.expected ∨
        pr'.taken = 0 ∧ pr.taken + 1 = pr.expected) →
      Way codec stats wr rd' pw pr' own other flight' := by
  obtain ⟨hs, tl, h₁, hne, hturn, hin, htl, hpend⟩ :=
    h.turning_of_take hc hnonempty x hpr hfront hfirst hround hflight
  rw [hfront] at hin
  obtain ⟨f, ks, hrot, hcoded, hks⟩ := hin.front
  refine ⟨f, hcoded, fun g' rd' pr' hcoded' hgot hincoming hpr' hphase => ?_⟩
  have hnext : Carries codec rd'.transport.incoming (hs.rotate (pr.taken + 1)) := by
    rw [← List.rotate_rotate, hrot, List.rotate_cons_succ, List.rotate_zero, hincoming]
    exact hks.append (.single hcoded')
  refine ⟨⟨hs ++ tl, ?_, by rwa [hgot]⟩, ?_, ?_, ?_, ?_⟩
  · rcases hphase with ⟨htaken, hexpected⟩ | ⟨htaken, hlast⟩
    · exact .turning hs tl h₁ hpr' (by omega) hne (by rwa [hexpected]) (by rwa [htaken]) htl
    · rw [hlast, hturn] at hnext
      exact .flowing _ h₁ hpr' htaken (hnext.append htl)
  · rw [hgot]
    exact h.kept
  · rw [hgot]
    exact h.agreed
  · rw [hgot]
    exact h.counted
  · rw [hgot]
    exact fun _ => h.bounded hdone

end Way

end Distant
