import Mathlib.Data.List.Basic
import Mathlib.Data.List.Infix

/-!
# Messages out of a growing buffer

What comes in is kept in a buffer, and each time that something has come in, messages are read off
its front until none can be read. `Delimits` says what this takes of the reader: it reads each whole
message, whatever follows it, and nothing that is only the beginning of one. `feedAll_spec` is the
result: however the stream is cut, the messages that are there come out once and in order, and the
buffer holds the beginning of the next.
-/

namespace Distant.Drain

variable {α : Type u} {β : Type v} {ε : Type w}

/-- Reads messages off the front as long as there are any, at most `bound` of them. -/
def drain (read : List α → Except ε (Option (β × List α))) :
    Nat → List α → Except ε (List β × List α)
  | 0, buf => .ok ([], buf)
  | bound + 1, buf =>
    match read buf with
    | .error e => .error e
    | .ok none => .ok ([], buf)
    | .ok (some (b, rest)) =>
      match drain read bound rest with
      | .error e => .error e
      | .ok (out, left) => .ok (b :: out, left)

/-- Something comes in. There are no more messages than elements. -/
def feed (read : List α → Except ε (Option (β × List α))) (buf chunk : List α) :
    Except ε (List β × List α) :=
  drain read ((buf ++ chunk).length + 1) (buf ++ chunk)

/-- All messages that are read while the chunks come in, and what is left in the buffer. -/
def feedAll (read : List α → Except ε (Option (β × List α))) :
    List α → List (List α) → Except ε (List β × List α)
  | buf, [] => .ok ([], buf)
  | buf, chunk :: chunks =>
    match feed read buf chunk with
    | .error e => .error e
    | .ok (out, left) =>
      match feedAll read left chunks with
      | .error e => .error e
      | .ok (outs, left) => .ok (out ++ outs, left)

/-- `read` reads the messages that `Msg` says, and does not read the beginning of one. -/
structure Delimits (read : List α → Except ε (Option (β × List α))) (Msg : List α → β → Prop) :
    Prop where
  whole : ∀ m b rest, Msg m b → read (m ++ rest) = .ok (some (b, rest))
  cut : ∀ m b p, Msg m b → p <+: m → p ≠ m → read p = .ok none
  nonempty : ∀ m b, Msg m b → m ≠ []
  nothing : read [] = .ok none

/-- What a buffer holds when the messages `ms` are still to come. -/
def Begun : List (List α × β) → List α → Prop
  | [], p => p = []
  | m :: _, p => p <+: m.1 ∧ p ≠ m.1

/-- Messages one after the other. -/
def stream (ms : List (List α × β)) : List α := ms.flatMap Prod.fst

@[simp] theorem stream_cons (m : List α × β) (ms : List (List α × β)) :
    stream (m :: ms) = m.1 ++ stream ms := rfl

@[simp] theorem stream_append (ms ms' : List (List α × β)) :
    stream (ms ++ ms') = stream ms ++ stream ms' := List.flatMap_append

section Spec

variable {read : List α → Except ε (Option (β × List α))} {Msg : List α → β → Prop}
  {ms done rest : List (List α × β)} {p bs : List α}

theorem Begun.read_eq (hread : Delimits read Msg) (hms : ∀ m ∈ ms, Msg m.1 m.2)
    (h : Begun ms p) : read p = .ok none := by
  cases ms with
  | nil =>
      cases h
      exact hread.nothing
  | cons m ms => exact hread.cut m.1 m.2 p (hms m List.mem_cons_self) h.1 h.2

/-- The whole messages are read, and then what follows them. -/
theorem exists_drain_stream (hread : Delimits read Msg) (hdone : ∀ m ∈ done, Msg m.1 m.2)
    {bound : Nat} (hbound : (stream done ++ p).length < bound) :
    ∃ bound', p.length < bound' ∧ drain read bound (stream done ++ p) =
      (drain read bound' p).map fun r => (done.map Prod.snd ++ r.1, r.2) := by
  induction done generalizing bound with
  | nil =>
      refine ⟨bound, hbound, ?_⟩
      show drain read bound p = _
      cases drain read bound p with
      | error e => rfl
      | ok r => rfl
  | cons m done ih =>
      have hm : Msg m.1 m.2 := hdone m List.mem_cons_self
      have hpos : 0 < m.1.length := List.length_pos_of_ne_nil (hread.nonempty _ _ hm)
      rw [stream_cons, List.append_assoc, List.length_append] at hbound
      obtain ⟨bound, rfl⟩ := Nat.exists_eq_add_one_of_ne_zero (show bound ≠ 0 by omega)
      obtain ⟨bound', hbound', hrest⟩ := ih (fun m' hm' => hdone m' (List.mem_cons_of_mem _ hm'))
        (show (stream done ++ p).length < bound by omega)
      refine ⟨bound', hbound', ?_⟩
      rw [stream_cons, List.append_assoc, drain, hread.whole m.1 m.2 _ hm]
      simp only [hrest]
      cases drain read bound' p with
      | error e => rfl
      | ok r => rfl

/-- The whole messages are read, and what is left is the beginning of the next. -/
theorem drain_stream (hread : Delimits read Msg) (hdone : ∀ m ∈ done, Msg m.1 m.2)
    (hp : read p = .ok none) {bound : Nat} (hbound : (stream done ++ p).length < bound) :
    drain read bound (stream done ++ p) = .ok (done.map Prod.snd, p) := by
  obtain ⟨bound', hbound', hdrain⟩ := exists_drain_stream hread hdone hbound
  obtain ⟨bound', rfl⟩ := Nat.exists_eq_add_one_of_ne_zero (show bound' ≠ 0 by omega)
  rw [hdrain, drain, hp]
  simp [Except.map]

/-- A beginning of a stream is some whole messages and the beginning of the next. -/
theorem exists_begun (hnonempty : ∀ m ∈ ms, m.1 ≠ []) (h : bs <+: stream ms) :
    ∃ done rest p, ms = done ++ rest ∧ bs = stream done ++ p ∧ Begun rest p := by
  induction ms generalizing bs with
  | nil => exact ⟨[], [], [], rfl, List.prefix_nil.mp h, rfl⟩
  | cons m ms ih =>
      obtain ⟨tail, htail⟩ := h
      rw [stream_cons] at htail
      -- the bytes end within the first message, or behind it
      rcases List.append_eq_append_iff.mp htail with ⟨left, hleft, -⟩ | ⟨more, rfl, hmore⟩
      · have hshort : bs <+: m.1 := ⟨left, hleft.symm⟩
        by_cases heq : bs = m.1
        · subst heq
          refine ⟨[m], ms, [], rfl, by simp [stream], ?_⟩
          cases ms with
          | nil => rfl
          | cons m' ms =>
              have hne := hnonempty m' (by simp)
              exact ⟨List.nil_prefix, fun hnil => hne hnil.symm⟩
        · exact ⟨[], m :: ms, bs, rfl, rfl, hshort, heq⟩
      · obtain ⟨done, rest, p, rfl, rfl, hp⟩ :=
          ih (fun m' hm' => hnonempty m' (List.mem_cons_of_mem _ hm')) ⟨tail, hmore.symm⟩
        exact ⟨m :: done, rest, p, rfl, by simp, hp⟩

theorem feed_spec (hread : Delimits read Msg) (hms : ∀ m ∈ ms, Msg m.1 m.2) {chunk : List α}
    (h : p ++ chunk <+: stream ms) :
    ∃ done rest p', ms = done ++ rest ∧ p ++ chunk = stream done ++ p' ∧ Begun rest p' ∧
      feed read p chunk = .ok (done.map Prod.snd, p') := by
  obtain ⟨done, rest, p', rfl, hbytes, hp'⟩ :=
    exists_begun (fun m hm => hread.nonempty _ _ (hms m hm)) h
  refine ⟨done, rest, p', rfl, hbytes, hp', ?_⟩
  unfold feed
  rw [hbytes]
  refine drain_stream hread (fun m hm => hms m (List.mem_append_left _ hm)) ?_ (Nat.lt_succ_self _)
  exact hp'.read_eq hread fun m hm => hms m (List.mem_append_right _ hm)

/-- However a beginning of the stream is cut, the messages that are there come out in their order,
and the buffer is left with the beginning of the next. -/
theorem feedAll_spec (hread : Delimits read Msg) (hms : ∀ m ∈ ms, Msg m.1 m.2) (hp : Begun ms p)
    {chunks : List (List α)} (h : p ++ chunks.flatten <+: stream ms) :
    ∃ done rest p', ms = done ++ rest ∧ p ++ chunks.flatten = stream done ++ p' ∧ Begun rest p' ∧
      feedAll read p chunks = .ok (done.map Prod.snd, p') := by
  induction chunks generalizing p ms with
  | nil => exact ⟨[], ms, p, rfl, by simp [stream], hp, rfl⟩
  | cons chunk chunks ih =>
      rw [List.flatten_cons, ← List.append_assoc] at h
      obtain ⟨done, rest, p', rfl, hbytes, hp', hfeed⟩ :=
        feed_spec hread hms ((List.prefix_append _ _).trans h)
      rw [hbytes, stream_append, List.append_assoc, List.prefix_append_right_inj] at h
      obtain ⟨done', rest', p'', rfl, hbytes', hp'', hfeeds⟩ :=
        ih (fun m hm => hms m (List.mem_append_right _ hm)) hp' h
      refine ⟨done ++ done', rest', p'', (List.append_assoc _ _ _).symm, ?_, hp'', ?_⟩
      · rw [List.flatten_cons, ← List.append_assoc, hbytes, List.append_assoc, hbytes',
          stream_append, List.append_assoc]
      · rw [feedAll, hfeed]
        simp only [hfeeds, List.map_append]

theorem feedAll_cons {chunk : List α} {chunks : List (List α)} {out : List β} {left : List α}
    (h : feedAll read p (chunk :: chunks) = .ok (out, left)) :
    ∃ first mid later, out = first ++ later ∧ feed read p chunk = .ok (first, mid) ∧
      feedAll read mid chunks = .ok (later, left) := by
  rw [feedAll] at h
  split at h
  · cases h
  · next first mid hfeed =>
      split at h
      · cases h
      · next later left' hfeeds =>
          cases h
          exact ⟨first, mid, later, rfl, hfeed, hfeeds⟩

/-! ### What stops the reading -/

/-- An error behind whole messages. -/
theorem drain_stream_error (hread : Delimits read Msg) (hdone : ∀ m ∈ done, Msg m.1 m.2) {e : ε}
    (hp : read p = .error e) {bound : Nat} (hbound : (stream done ++ p).length < bound) :
    drain read bound (stream done ++ p) = .error e := by
  obtain ⟨bound', hbound', hdrain⟩ := exists_drain_stream hread hdone hbound
  obtain ⟨bound', rfl⟩ := Nat.exists_eq_add_one_of_ne_zero (show bound' ≠ 0 by omega)
  rw [hdrain, drain, hp]
  rfl

/-- An error is the reader's own, behind whole messages. -/
theorem drain_eq_error (hsound : ∀ buf b left, read buf = .ok (some (b, left)) →
      ∃ m, Msg m b ∧ buf = m ++ left)
    {bound : Nat} {e : ε} (h : drain read bound bs = .error e) :
    ∃ done p, (∀ m ∈ done, Msg m.1 m.2) ∧ bs = stream done ++ p ∧ read p = .error e := by
  induction bound generalizing bs with
  | zero => cases h
  | succ bound ih =>
      rw [drain] at h
      split at h
      · next e' hfront =>
          cases h
          exact ⟨[], bs, by simp, rfl, hfront⟩
      · cases h
      · next b left hfront =>
          split at h
          · next e' hlater =>
              cases h
              obtain ⟨m, hm, rfl⟩ := hsound bs b left hfront
              obtain ⟨done, p, hdone, rfl, hp⟩ := ih hlater
              refine ⟨(m, b) :: done, p, ?_, by simp, hp⟩
              exact List.forall_mem_cons.mpr ⟨hm, hdone⟩
          · cases h

/-- What is there of whole messages that are followed by `bs`, of which nothing can be read. -/
theorem exists_stuck (hread : Delimits read Msg) (hms : ∀ m ∈ ms, Msg m.1 m.2)
    (hstuck : ∀ q, q <+: bs → read q = .ok none) {buf : List α} (h : buf <+: stream ms ++ bs) :
    ∃ done rest p, ms = done ++ rest ∧ buf = stream done ++ p ∧ read p = .ok none := by
  obtain ⟨tail, htail⟩ := h
  rcases List.append_eq_append_iff.mp htail with ⟨left, hleft, -⟩ | ⟨q, rfl, hq⟩
  · obtain ⟨done, rest, p, rfl, rfl, hp⟩ :=
      exists_begun (fun m hm => hread.nonempty _ _ (hms m hm)) ⟨left, hleft.symm⟩
    refine ⟨done, rest, p, rfl, rfl, hp.read_eq hread fun m hm => ?_⟩
    exact hms m (List.mem_append_right _ hm)
  · exact ⟨ms, [], q, (List.append_nil ms).symm, rfl, hstuck q ⟨tail, hq.symm⟩⟩

/-- However the stream is cut, nothing comes out of what cannot be read, nor of what follows it. -/
theorem feedAll_stuck (hread : Delimits read Msg) (hms : ∀ m ∈ ms, Msg m.1 m.2)
    (hstuck : ∀ q, q <+: bs → read q = .ok none) (hp : read p = .ok none) {chunks : List (List α)}
    (h : p ++ chunks.flatten = stream ms ++ bs) :
    feedAll read p chunks = .ok (ms.map Prod.snd, bs) := by
  -- before each chunk nothing can be read of what the buffer holds
  induction chunks generalizing p ms with
  | nil =>
      rw [List.flatten_nil, List.append_nil] at h
      subst h
      cases ms with
      | nil => rfl
      | cons m ms =>
          -- a whole message could be read
          rw [stream_cons, List.append_assoc, hread.whole _ _ _ (hms m List.mem_cons_self)] at hp
          cases hp
  | cons chunk chunks ih =>
      rw [List.flatten_cons, ← List.append_assoc] at h
      obtain ⟨done, rest, p', rfl, hbytes, hp'⟩ := exists_stuck hread hms hstuck ⟨_, h⟩
      rw [hbytes, stream_append, List.append_assoc, List.append_assoc,
        List.append_cancel_left_eq] at h
      have hfeed : feed read p chunk = .ok (done.map Prod.snd, p') := by
        unfold feed
        rw [hbytes]
        apply drain_stream hread (fun m hm => hms m (List.mem_append_left _ hm)) hp'
        exact Nat.lt_succ_self _
      rw [feedAll, hfeed]
      simp only [ih (fun m hm => hms m (List.mem_append_right _ hm)) hp' h, List.map_append]

/-- At the end of the stream everything has come out. -/
theorem eq_nil_of_begun (hnonempty : ∀ m ∈ ms, m.1 ≠ []) (hms : ms = done ++ rest)
    (hbytes : stream ms = stream done ++ p) (hp : Begun rest p) : rest = [] ∧ p = [] := by
  subst hms
  rw [stream_append, List.append_cancel_left_eq] at hbytes
  cases rest with
  | nil => exact ⟨rfl, hp⟩
  | cons m rest =>
      obtain ⟨hbegins, hne⟩ := hp
      rw [← hbytes, stream_cons] at hbegins
      have hlen := hbegins.length_le
      rw [List.length_append] at hlen
      have hnil : stream rest = [] := List.eq_nil_of_length_eq_zero (by omega)
      rw [← hbytes, stream_cons, hnil, List.append_nil] at hne
      exact absurd rfl hne

end Spec

end Distant.Drain
