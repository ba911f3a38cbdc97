import Distant.Lib.Rust
import Distant.Lib.BigEndian

/-!
# Frames

`Frame` wraps the bytes that are shipped over the network as `{len}{item}`, where `len` is the
length of the item as a big-endian `u64`. `Frame.write` appends a frame to a buffer, `Frame.read`
takes one off the front, and `Frame.available` says whether it could.

`Frame.read_cases` says all that a read can do; every later fact about reading comes from it.
The main result, `Frame.readsSoundly_iff`, says on exactly which buffers reading keeps its
contract: the two kinds it leaves out are a header whose length overflows `usize` once the header
size is added, and the eight zero bytes of an empty frame with nothing behind them.
-/

namespace Distant

/-- Some data wrapped in order to ship it. The item and its header are addressable together,
since they stand in one buffer. -/
structure Frame where
  item : Bytes
  fits : item.length + 8 < 2 ^ 64
  deriving DecidableEq

namespace Frame

/-- Total bytes of the header field denoting a frame's size. -/
def HEADER_SIZE : Nat := 8

/-- A frame with no item. -/
def empty : Frame := ⟨[], by decide⟩

/-- The frame around an owned vector, which cannot outgrow the address space. -/
def ofVec (item : Bytes) : Except Fault Frame :=
  if h : item.length + 8 < 2 ^ 64 then .ok ⟨item, h⟩ else .error (.panic .capacity)

def len (f : Frame) : Nat := f.item.length

def isEmpty (f : Frame) : Bool := f.item.isEmpty

def isNonempty (f : Frame) : Bool := !f.isEmpty

/-- Writes the frame to the end of `dst`: first the header, then the item. -/
def write (f : Frame) (dst : Bytes) : Bytes := dst ++ beBytes HEADER_SIZE f.len ++ f.item

def toBytes (f : Frame) : Bytes := f.write []

/-- Attempts to read a frame from `src`: the frame found, if any, and what is left of `src`. -/
def read (p : Profile) (src : Bytes) : Except Panic (Option Frame × Bytes) := do
  -- more data than just the message length?
  if src.length ≤ HEADER_SIZE then
    return (none, src)
  let itemLen := beNat (src.take HEADER_SIZE)
  -- all the data of the frame?
  if src.length < (← addUsize p itemLen HEADER_SIZE).val then
    return (none, src)
  let stop ← addUsize p HEADER_SIZE itemLen
  let item ← slice src HEADER_SIZE stop
  let rest ← advance src stop.val
  have hfits : item.val.length + 8 < 2 ^ 64 := by
    have h := item.property
    have hstop := stop.property
    simp only [HEADER_SIZE] at h
    omega
  return (some ⟨item.val, hfits⟩, rest)

/-- Whether a full frame is available from `src`, which is not consumed. -/
def available (p : Profile) (src : Bytes) : Except Panic Bool := do
  let found ← read p src
  return found.1.isSome

/-! ## Small facts -/

theorem ext_item {f g : Frame} (h : f.item = g.item) : f = g := by
  cases f; cases g; simp_all

@[simp] theorem isEmpty_iff (f : Frame) : f.isEmpty = true ↔ f.item = [] := by
  simp [isEmpty]

@[simp] theorem isNonempty_iff (f : Frame) : f.isNonempty = true ↔ f.item ≠ [] := by
  simp [isNonempty, isEmpty]

@[simp] theorem item_empty : empty.item = [] := rfl

theorem item_of_ofVec {bs : Bytes} {f : Frame} (h : ofVec bs = .ok f) : f.item = bs := by
  unfold ofVec at h
  split at h
  · cases h; rfl
  · cases h

@[simp] theorem ofVec_item (f : Frame) : ofVec f.item = .ok f := by
  simp only [ofVec, f.fits, dite_true]

theorem toBytes_eq (f : Frame) : f.toBytes = lenPrefixed 8 f.item := by
  simp [toBytes, write, lenPrefixed, len, HEADER_SIZE]

theorem write_eq (f : Frame) (dst : Bytes) : f.write dst = dst ++ f.toBytes := by
  simp [write, toBytes]

@[simp] theorem length_toBytes (f : Frame) : f.toBytes.length = 8 + f.item.length := by
  simp [toBytes_eq]

theorem toBytes_ne_nil (f : Frame) : f.toBytes ≠ [] := by
  intro h
  have := congrArg List.length h
  simp at this

theorem toBytes_append_inj {f g : Frame} {r s : Bytes} (h : f.toBytes ++ r = g.toBytes ++ s) :
    f = g ∧ r = s := by
  rw [toBytes_eq, toBytes_eq] at h
  have hf := f.fits
  have hg := g.fits
  obtain ⟨hitem, hrest⟩ := lenPrefixed_append_inj (by omega) (by omega) h
  exact ⟨ext_item hitem, hrest⟩

/-! ## What a read does -/

/-- The length that the first eight bytes of a buffer announce. -/
def announced (src : Bytes) : Nat := beNat (src.take 8)

theorem announced_toBytes_append (f : Frame) (rest : Bytes) :
    announced (f.toBytes ++ rest) = f.item.length := by
  have hf := f.fits
  rw [announced, toBytes_eq, beNat_take_lenPrefixed_append (by omega)]

theorem read_of_length_le (p : Profile) {src : Bytes} (h : src.length ≤ 8) :
    read p src = .ok (none, src) := by
  simp [read, HEADER_SIZE, h, pure, Except.pure]

theorem read_of_short (p : Profile) {src : Bytes} (hn : announced src + 8 < 2 ^ 64)
    (hs : src.length < announced src + 8) : read p src = .ok (none, src) := by
  by_cases h8 : src.length ≤ 8
  · exact read_of_length_le p h8
  · have hadd := addUsize_of_lt p hn
    simp only [announced] at hadd hs
    simp only [read, HEADER_SIZE, h8, if_false, hadd, bind, Except.bind, hs, if_true]
    rfl

/-- A frame with at least one byte behind its header is read off, whatever follows it. -/
theorem read_toBytes_append (p : Profile) (f : Frame) (rest : Bytes)
    (h : f.item ++ rest ≠ []) : read p (f.toBytes ++ rest) = .ok (some f, rest) := by
  have hann := announced_toBytes_append f rest
  have hf := f.fits
  have hlen : (f.toBytes ++ rest).length = 8 + f.item.length + rest.length := by simp
  have hpos : 0 < (f.item ++ rest).length := List.length_pos_iff.mpr h
  simp only [List.length_append] at hpos
  have h8 : ¬ (f.toBytes ++ rest).length ≤ 8 := by omega
  have hadd : addUsize p f.item.length 8 = .ok ⟨f.item.length + 8, hf⟩ := addUsize_of_lt p hf
  have hadd' : addUsize p 8 f.item.length = .ok ⟨8 + f.item.length, by omega⟩ :=
    addUsize_of_lt p (by omega)
  have hshort : ¬ (f.toBytes ++ rest).length < f.item.length + 8 := by omega
  have htake : (f.toBytes ++ rest).take (8 + f.item.length) = f.toBytes :=
    List.take_left' (by simp)
  have hdrop : (f.toBytes ++ rest).drop (8 + f.item.length) = rest := List.drop_left' (by simp)
  have hitem : f.toBytes.drop 8 = f.item := by
    rw [toBytes_eq, lenPrefixed]; exact List.drop_left' (by simp)
  have hbound : 8 ≤ 8 + f.item.length ∧ 8 + f.item.length ≤ (f.toBytes ++ rest).length := by omega
  simp only [announced] at hann
  simp only [read, HEADER_SIZE, h8, if_false, hann, hadd, hadd', bind, Except.bind, hshort, slice,
    advance, hbound, and_self, dite_true, if_true, htake, hdrop, hitem, pure, Except.pure]

/-- A length that overflows once the header size is added makes the read panic: at the addition
when overflow is checked, and at the slice, whose end wraps to before its start, when not. -/
theorem read_of_overflow (p : Profile) {src : Bytes} (h8 : 8 < src.length)
    (hn : 2 ^ 64 ≤ announced src + 8) :
    read p src = .error (match p with | .dev => .overflow | .release => .slice) := by
  have hlt : announced src < 2 ^ 64 := by
    have h := beNat_lt (src.take 8)
    rw [List.length_take, Nat.min_eq_left (by omega)] at h
    simpa [announced] using h
  have hle : ¬ src.length ≤ 8 := by omega
  simp only [announced] at hlt hn
  cases p with
  | dev => simp only [read, HEADER_SIZE, hle, if_false, addUsize_dev_of_le hn, bind, Except.bind]
  | release =>
      have hlong : ¬ src.length < (beNat (src.take 8) + 8) % 2 ^ 64 := by omega
      have hn' : 2 ^ 64 ≤ 8 + beNat (src.take 8) := by omega
      simp only [read, HEADER_SIZE, hle, if_false, addUsize_release_of_le hn, bind, Except.bind,
        hlong, addUsize_release_of_le hn']
      rw [slice_of_lt (by simp only; omega)]

/-- A buffer longer than its announced frame starts with that frame. -/
theorem exists_eq_toBytes_append {src : Bytes} (hn : announced src + 8 < 2 ^ 64)
    (hs : announced src + 8 ≤ src.length) : ∃ (f : Frame) (rest : Bytes),
      src = f.toBytes ++ rest := by
  have hlen : ((src.take (8 + announced src)).drop 8).length = announced src := by simp; omega
  refine ⟨⟨(src.take (8 + announced src)).drop 8, by omega⟩, src.drop (8 + announced src), ?_⟩
  rw [toBytes_eq]
  exact eq_lenPrefixed_append rfl (by omega)

/-- All that a read can do: find the frame at the front, find none, or panic. -/
theorem read_cases (p : Profile) (src : Bytes) :
    (∃ f rest, src = f.toBytes ++ rest ∧ f.item ++ rest ≠ [] ∧
      read p src = .ok (some f, rest)) ∨
    (read p src = .ok (none, src) ∧
      (src.length ≤ 8 ∨ (announced src + 8 < 2 ^ 64 ∧ src.length < announced src + 8))) ∨
    (8 < src.length ∧ 2 ^ 64 ≤ announced src + 8 ∧ ∃ e, read p src = .error e) := by
  by_cases h8 : src.length ≤ 8
  · exact .inr (.inl ⟨read_of_length_le p h8, .inl h8⟩)
  by_cases hn : announced src + 8 < 2 ^ 64
  · by_cases hs : src.length < announced src + 8
    · exact .inr (.inl ⟨read_of_short p hn hs, .inr ⟨hn, hs⟩⟩)
    · obtain ⟨f, rest, rfl⟩ := exists_eq_toBytes_append hn (by omega)
      have hne : f.item ++ rest ≠ [] := by
        intro h
        have hlen := congrArg List.length h
        simp only [List.length_append, List.length_nil, length_toBytes] at hlen h8
        omega
      exact .inl ⟨f, rest, rfl, hne, read_toBytes_append p f rest hne⟩
  · exact .inr (.inr ⟨by omega, by omega, _, read_of_overflow p (by omega) (by omega)⟩)

/-- Nothing in `src` that `read` would return: at most a lone empty frame. -/
def NoneIn (src : Bytes) : Prop :=
  ∀ (f : Frame) (rest : Bytes), src = f.toBytes ++ rest → f.item ++ rest = []

theorem noneIn_nil : NoneIn [] := by
  intro f rest h
  exact absurd (List.append_eq_nil_iff.mp h.symm).1 (toBytes_ne_nil f)

theorem noneIn_of_read_none {p : Profile} {src rest : Bytes}
    (h : read p src = .ok (none, rest)) : NoneIn src := by
  intro f r hsrc
  by_contra hne
  rw [hsrc, read_toBytes_append p f r hne] at h
  cases h

/-- Reading never makes up a frame: what it returns stood at the front of the buffer. -/
theorem eq_of_read_some {p : Profile} {src rest : Bytes} {f : Frame}
    (h : read p src = .ok (some f, rest)) : src = f.toBytes ++ rest := by
  rcases read_cases p src with ⟨g, r, hsrc, -, hr⟩ | ⟨hr, -⟩ | ⟨-, -, e, hr⟩ <;> rw [h] at hr
  · simp only [Except.ok.injEq, Prod.mk.injEq, Option.some.injEq] at hr
    obtain ⟨rfl, rfl⟩ := hr
    exact hsrc
  · simp at hr
  · simp at hr

/-! ## Frames one after the other -/

/-- The bytes of a list of frames, one after the other. -/
def encodings (frames : List Frame) : Bytes := (frames.map toBytes).flatten

@[simp] theorem encodings_nil : encodings [] = [] := rfl

@[simp] theorem encodings_cons (f : Frame) (fs : List Frame) :
    encodings (f :: fs) = f.toBytes ++ encodings fs := rfl

@[simp] theorem encodings_append (fs gs : List Frame) :
    encodings (fs ++ gs) = encodings fs ++ encodings gs := by
  simp [encodings]

theorem encodings_eq_nil_iff {fs : List Frame} : encodings fs = [] ↔ fs = [] := by
  cases fs with
  | nil => simp
  | cons f fs => simp [toBytes_ne_nil]

/-- A list of frames is determined by its bytes, frame by frame. -/
theorem eq_cons_of_encodings {fs : List Frame} {g : Frame} {rest : Bytes}
    (h : encodings fs = g.toBytes ++ rest) : ∃ gs, fs = g :: gs ∧ encodings gs = rest := by
  cases fs with
  | nil => exact absurd (List.append_eq_nil_iff.mp h.symm).1 (toBytes_ne_nil g)
  | cons f fs =>
      obtain ⟨rfl, hrest⟩ := toBytes_append_inj h
      exact ⟨fs, rfl, hrest⟩

/-- The first bytes of some frames never make a read panic. -/
theorem read_ne_error_of_begins {p : Profile} {src : Bytes} {fs : List Frame}
    (h : src <+: encodings fs) (e : Panic) : read p src ≠ .error e := by
  intro herr
  rcases read_cases p src with ⟨f, rest, -, -, hr⟩ | ⟨hr, -⟩ | ⟨hlen, hover, -⟩
  · rw [hr] at herr
    cases herr
  · rw [hr] at herr
    cases herr
  · obtain ⟨more, hmore⟩ := h
    cases fs with
    | nil =>
        have hnil := (List.append_eq_nil_iff.mp hmore).1
        simp [hnil] at hlen
    | cons f fs =>
        have hann := announced_toBytes_append f (encodings fs)
        rw [← encodings_cons, ← hmore, announced, List.take_append_of_le_length (by omega),
          ← announced] at hann
        have hf := f.fits
        omega

/-! ## The contract of reading -/

/-- The buffer starts with a whole frame. -/
def Holds (src : Bytes) : Prop := ∃ (f : Frame) (rest : Bytes), src = f.toBytes ++ rest

/-- The contract of `read` and `available` on `src`: neither panics; `read` returns no frame, and
leaves the buffer unchanged, exactly when there is no whole frame, and otherwise takes off the
frame at the front; `available` says whether `read` would return a frame. -/
def ReadsSoundly (p : Profile) (src : Bytes) : Prop :=
  ∃ found rest, read p src = .ok (found, rest) ∧ available p src = .ok found.isSome ∧
    match found with
    | none => rest = src ∧ ¬ Holds src
    | some f => src = beBytes 8 f.len ++ f.item ++ rest

theorem available_of_read {p : Profile} {src rest : Bytes} {found : Option Frame}
    (h : read p src = .ok (found, rest)) : available p src = .ok found.isSome := by
  simp [available, h, bind, Except.bind, pure, Except.pure]

theorem announced_of_holds {src : Bytes} (h : Holds src) :
    announced src + 8 < 2 ^ 64 ∧ announced src + 8 ≤ src.length := by
  obtain ⟨f, rest, rfl⟩ := h
  have hf := f.fits
  rw [announced_toBytes_append]
  simp only [List.length_append, length_toBytes]
  omega

/-- In a buffer of at most eight bytes only the empty frame fits. -/
theorem holds_of_length_le {src : Bytes} (h8 : src.length ≤ 8) :
    Holds src ↔ src = List.replicate 8 0 := by
  constructor
  · rintro ⟨f, rest, rfl⟩
    simp only [List.length_append, length_toBytes] at h8
    have hitem : f.item = [] := List.length_eq_zero_iff.mp (by omega)
    have hrest : rest = [] := List.length_eq_zero_iff.mp (by omega)
    rw [hrest, List.append_nil, toBytes_eq, hitem]
    decide
  · rintro rfl
    exact ⟨empty, [], by decide⟩

/-- Reading keeps its contract exactly on the buffers that are not a lone empty frame and whose
announced length leaves room for the header. -/
theorem readsSoundly_iff (p : Profile) (src : Bytes) :
    ReadsSoundly p src ↔
      src ≠ List.replicate 8 0 ∧ (8 < src.length → beNat (src.take 8) + 8 < 2 ^ 64) := by
  rcases read_cases p src with ⟨f, rest, hsrc, hne, hr⟩ | ⟨hr, hnone⟩ | ⟨h8, hn, e, hr⟩
  · have hholds := announced_of_holds ⟨f, rest, hsrc⟩
    have hlong : src ≠ List.replicate 8 0 := by
      intro h
      have hlen := congrArg List.length (hsrc.symm.trans h)
      have hpos := List.length_pos_iff.mpr hne
      simp at hlen hpos
      omega
    refine ⟨fun _ => ⟨hlong, fun _ => hholds.1⟩, fun _ => ?_⟩
    refine ⟨some f, rest, hr, available_of_read hr, ?_⟩
    simp [hsrc, toBytes, write, HEADER_SIZE]
  · have hiff : Holds src ↔ src = List.replicate 8 0 := by
      rcases hnone with h8 | ⟨hn, hs⟩
      · exact holds_of_length_le h8
      · refine ⟨fun h => absurd (announced_of_holds h).2 (by omega), ?_⟩
        rintro rfl
        exact ⟨empty, [], by decide⟩
    constructor
    · rintro ⟨found, rest, hr', -, hspec⟩
      rw [hr] at hr'
      simp only [Except.ok.injEq, Prod.mk.injEq] at hr'
      obtain ⟨rfl, rfl⟩ := hr'
      refine ⟨fun h => hspec.2 (hiff.mpr h), fun h8 => ?_⟩
      rcases hnone with h8' | ⟨hn, -⟩
      · omega
      · exact hn
    · rintro ⟨hz, -⟩
      exact ⟨none, src, hr, available_of_read hr, rfl, fun h => hz (hiff.mp h)⟩
  · constructor
    · rintro ⟨found, rest, hr', -⟩
      rw [hr] at hr'
      simp at hr'
    · rintro ⟨-, h⟩
      have := h h8
      simp only [announced] at hn
      omega

/-- A header of eight `0xff` bytes and one byte behind it: what any peer can send. -/
def hostileHeader : Bytes := [255, 255, 255, 255, 255, 255, 255, 255, 0]

/-- On the hostile header both build profiles panic, and the lone empty frame is not found. -/
theorem not_readsSoundly_hostileHeader :
    ¬ ReadsSoundly .dev hostileHeader ∧ ¬ ReadsSoundly .release hostileHeader ∧
      ¬ ReadsSoundly .release empty.toBytes := by
  have hlong : 8 < hostileHeader.length := by decide
  have hover : 2 ^ 64 ≤ announced hostileHeader + 8 := by decide
  have hdev : read .dev hostileHeader = .error .overflow := read_of_overflow .dev hlong hover
  have hrel : read .release hostileHeader = .error .slice := read_of_overflow .release hlong hover
  have hzero : read .release empty.toBytes = .ok (none, empty.toBytes) :=
    read_of_length_le .release (by simp)
  refine ⟨?_, ?_, ?_⟩
  · rintro ⟨found, rest, h, -⟩
    simp [hdev] at h
  · rintro ⟨found, rest, h, -⟩
    simp [hrel] at h
  · rintro ⟨found, rest, h, -, hspec⟩
    rw [hzero] at h
    simp only [Except.ok.injEq, Prod.mk.injEq] at h
    obtain ⟨rfl, rfl⟩ := h
    exact hspec.2 ⟨empty, [], by simp⟩

end Frame

end Distant
