import Distant.Net.Frame

/-!
# Codecs

A `Codec` transforms the item of a frame on its way out (`encode`) and back (`decode`). The number
given to `encode` says how many encodings came before it: an encryption codec draws a fresh nonce
from the system's random source for each, so `nonces n` is the one it draws for the `n`-th.

The ciphers and the compression algorithms are third-party crates. `Crates` has their functions and
`Crates.Documented` what their documentation promises of them, which is all the development uses.

`BoxedCodec` lists the codecs that the code builds, and `BoxedCodec.codec` is their meaning. The
two facts about them are `BoxedCodec.undoes` (decoding undoes encoding), on which the transports
rest, and `BoxedCodec.encode_isEmpty_iff` (which of them keep an empty frame empty).
-/

namespace Distant

structure Codec where
  encode : Nat → Frame → Except Fault Frame
  decode : Frame → Except Fault Frame

namespace Codec

/-- Decoding with `d` undoes encoding with `c`. -/
def Undoes (c d : Codec) : Prop :=
  ∀ n f g, c.encode n f = .ok g → d.decode g = .ok f

/-- A nonempty frame is never encoded as an empty one. -/
def KeepsNonempty (c : Codec) : Prop :=
  ∀ n f g, c.encode n f = .ok g → f.item ≠ [] → g.item ≠ []

end Codec

/-! ## Plain and chained codecs -/

def PlainCodec : Codec where
  encode := fun _ frame => .ok frame
  decode := fun frame => .ok frame

/-- Encodes from left to right and decodes from right to left. -/
def ChainCodec (left right : Codec) : Codec where
  encode := fun n frame => left.encode n frame >>= right.encode n
  decode := fun frame => right.decode frame >>= left.decode

theorem PlainCodec.undoes : PlainCodec.Undoes PlainCodec := by
  intro n f g h
  cases h
  rfl

theorem PlainCodec.keepsNonempty : PlainCodec.KeepsNonempty := by
  intro n f g h hf
  cases h
  exact hf

/-- A chain undoes a chain link by link. -/
theorem ChainCodec.undoes {l r l' r' : Codec} (hl : l.Undoes l') (hr : r.Undoes r') :
    (ChainCodec l r).Undoes (ChainCodec l' r') := by
  intro n f g h
  obtain ⟨m, hm, hg⟩ := bind_eq_ok_iff.mp h
  show r'.decode g >>= l'.decode = .ok f
  rw [hr n m g hg]
  exact hl n f m hm

theorem ChainCodec.keepsNonempty {l r : Codec} (hl : l.KeepsNonempty) (hr : r.KeepsNonempty) :
    (ChainCodec l r).KeepsNonempty := by
  intro n f g h hf
  obtain ⟨m, hm, hg⟩ := bind_eq_ok_iff.mp h
  exact hr n m g hg (hl n f m hm hf)

/-! ## Encryption and compression -/

inductive EncryptionType where
  | xChaCha20Poly1305
  /-- an unknown encryption type for use in handshakes -/
  | unknown
  deriving DecidableEq, Repr

inductive CompressionType where
  | deflate
  | gzip
  | zlib
  /-- an unknown compression type for use in handshakes -/
  | unknown
  deriving DecidableEq, Repr

/-- The level of compression, from `zero` (none) to `nine` (optimized for size). -/
inductive CompressionLevel where
  | zero | one | two | three | four | five | six | seven | eight | nine
  deriving DecidableEq, Repr

/-- Standard compression level used in the zlib library. -/
def CompressionLevel.default : CompressionLevel := .six

def EncryptionType.isUnknown (ty : EncryptionType) : Bool := ty == .unknown

/-- The third-party functions behind the codecs: XChaCha20Poly1305, and the three
encoder/decoder pairs of flate2. -/
structure Crates where
  encrypt : (key nonce message : Bytes) → Option Bytes
  decrypt : (key nonce ciphertext : Bytes) → Option Bytes
  compress : CompressionType → CompressionLevel → Bytes → Except IoError Bytes
  decompress : CompressionType → Bytes → Except IoError Bytes

/-- What the crates document: an AEAD ciphertext carries a 16-byte tag and decrypts to its message
under its key and nonce; a compressed stream is never empty, as it ends with a final block, and
decompresses to what went in; a compressor that reads from memory never blocks. -/
structure Crates.Documented (crates : Crates) : Prop where
  encrypt_length : ∀ key nonce m c, crates.encrypt key nonce m = some c → c.length = m.length + 16
  decrypt_encrypt : ∀ key nonce m c, crates.encrypt key nonce m = some c →
    crates.decrypt key nonce c = some m
  compress_ne_nil : ∀ ty level m c, crates.compress ty level m = .ok c → c ≠ []
  decompress_compress : ∀ ty level m c, crates.compress ty level m = .ok c →
    crates.decompress ty c = .ok m
  compress_blocks : ∀ ty level m e, crates.compress ty level m = .error e → e.kind ≠ .wouldBlock

/-- A nonce: 192 bits for XChaCha20Poly1305. -/
abbrev Nonce := { bs : Bytes // bs.length = 24 }

/-- Size of the nonce (in bytes) of the encryption algorithm. -/
def NONCE_SIZE : Nat := 24

/-- The codec that encrypts with `key`, drawing its nonces from `nonces`. -/
def EncryptionCodec (crates : Crates) (key : Bytes) (nonces : Nat → Nonce) : Codec where
  encode := fun n frame =>
    match crates.encrypt key (nonces n).val frame.item with
    | none => .error (.io (.new .invalidData "Encryption failed"))
    -- the nonce stands at the beginning of the frame
    | some ciphertext => Frame.ofVec ((nonces n).val ++ ciphertext)
  decode := fun frame =>
    if frame.len ≤ NONCE_SIZE then
      .error (.io (.new .invalidData s!"Frame cannot have length less than {NONCE_SIZE + 1}"))
    else
      match crates.decrypt key (frame.item.take NONCE_SIZE) (frame.item.drop NONCE_SIZE) with
      | none => .error (.io (.new .invalidData "Decryption failed"))
      | some item => Frame.ofVec item

/-- The codec that compresses with algorithm `ty`. -/
def CompressionCodec (crates : Crates) (ty : CompressionType) (level : CompressionLevel) :
    Codec where
  encode := fun _ frame =>
    match crates.compress ty level frame.item with
    | .error e => .error (.io e)
    | .ok buf => Frame.ofVec buf
  decode := fun frame =>
    match crates.decompress ty frame.item with
    | .error e => .error (.io e)
    | .ok buf => Frame.ofVec buf

/-- What an encryption puts in the frame. -/
theorem EncryptionCodec.encode_eq_ok {crates : Crates} {key : Bytes} {nonces : Nat → Nonce}
    {n : Nat} {f g : Frame} (h : (EncryptionCodec crates key nonces).encode n f = .ok g) :
    ∃ c, crates.encrypt key (nonces n).val f.item = some c ∧ g.item = (nonces n).val ++ c := by
  simp only [EncryptionCodec] at h
  split at h
  · cases h
  · next c hc => exact ⟨c, hc, Frame.item_of_ofVec h⟩

theorem CompressionCodec.encode_eq_ok {crates : Crates} {ty : CompressionType}
    {level : CompressionLevel} {n : Nat} {f g : Frame}
    (h : (CompressionCodec crates ty level).encode n f = .ok g) :
    crates.compress ty level f.item = .ok g.item := by
  simp only [CompressionCodec] at h
  split at h
  · cases h
  · next c hc => rw [hc, Frame.item_of_ofVec h]

section Documented

variable {crates : Crates} (hc : crates.Documented)
include hc

/-- Encryption with a key is undone by decryption with the same key, whatever nonces the two
sides draw. -/
theorem EncryptionCodec.undoes (key : Bytes) (nonces nonces' : Nat → Nonce) :
    (EncryptionCodec crates key nonces).Undoes (EncryptionCodec crates key nonces') := by
  intro n f g h
  obtain ⟨c, henc, hitem⟩ := encode_eq_ok h
  have hlen := hc.encrypt_length _ _ _ _ henc
  have hnonce := (nonces n).property
  have hlong : ¬ g.len ≤ NONCE_SIZE := by
    simp only [Frame.len, hitem, List.length_append, NONCE_SIZE]; omega
  have htake : g.item.take NONCE_SIZE = (nonces n).val := by
    rw [hitem]; exact List.take_left' hnonce
  have hdrop : g.item.drop NONCE_SIZE = c := by
    rw [hitem]; exact List.drop_left' hnonce
  simp only [EncryptionCodec, hlong, if_false, htake, hdrop, hc.decrypt_encrypt _ _ _ _ henc]
  exact Frame.ofVec_item f

/-- An encrypted frame is never empty. -/
theorem EncryptionCodec.encode_ne_nil {key : Bytes} {nonces : Nat → Nonce} {n : Nat} {f g : Frame}
    (h : (EncryptionCodec crates key nonces).encode n f = .ok g) : g.item ≠ [] := by
  obtain ⟨c, henc, hitem⟩ := encode_eq_ok h
  have hlen := hc.encrypt_length _ _ _ _ henc
  intro hnil
  rw [hnil] at hitem
  have := congrArg List.length hitem
  simp at this
  omega

theorem CompressionCodec.undoes (ty : CompressionType) (level level' : CompressionLevel) :
    (CompressionCodec crates ty level).Undoes (CompressionCodec crates ty level') := by
  intro n f g h
  have hcomp := CompressionCodec.encode_eq_ok h
  simp only [CompressionCodec, hc.decompress_compress _ _ _ _ hcomp]
  exact Frame.ofVec_item f

/-- A compressed frame is never empty. -/
theorem CompressionCodec.encode_ne_nil {ty : CompressionType} {level : CompressionLevel} {n : Nat}
    {f g : Frame} (h : (CompressionCodec crates ty level).encode n f = .ok g) : g.item ≠ [] :=
  hc.compress_ne_nil _ _ _ _ (CompressionCodec.encode_eq_ok h)

end Documented

/-! ## The codecs that the code builds -/

inductive BoxedCodec where
  | plain
  | encryption (key : Bytes)
  | compression (ty : CompressionType) (level : CompressionLevel)
  | chain (left right : BoxedCodec)
  deriving DecidableEq

namespace BoxedCodec

/-- The codec itself, for a process whose random source yields `nonces`. -/
def codec (crates : Crates) (nonces : Nat → Nonce) : BoxedCodec → Codec
  | .plain => PlainCodec
  | .encryption key => EncryptionCodec crates key nonces
  | .compression ty level => CompressionCodec crates ty level
  | .chain left right => ChainCodec (left.codec crates nonces) (right.codec crates nonces)

/-- Made of plain codecs only, so that it changes nothing. -/
def isPlain : BoxedCodec → Bool
  | .plain => true
  | .encryption _ => false
  | .compression _ _ => false
  | .chain left right => left.isPlain && right.isPlain

variable {crates : Crates}

/-- The codec of one process undoes that of another, whatever nonces they draw. -/
theorem undoes (hc : crates.Documented) (c : BoxedCodec) (nonces nonces' : Nat → Nonce) :
    (c.codec crates nonces).Undoes (c.codec crates nonces') := by
  induction c with
  | plain => exact PlainCodec.undoes
  | encryption key => exact EncryptionCodec.undoes hc key nonces nonces'
  | compression ty level => exact CompressionCodec.undoes hc ty level level
  | chain left right ihl ihr => exact ChainCodec.undoes ihl ihr

theorem keepsNonempty (hc : crates.Documented) (c : BoxedCodec) (nonces : Nat → Nonce) :
    (c.codec crates nonces).KeepsNonempty := by
  induction c with
  | plain => exact PlainCodec.keepsNonempty
  | encryption key => exact fun n f g h _ => EncryptionCodec.encode_ne_nil hc h
  | compression ty level => exact fun n f g h _ => CompressionCodec.encode_ne_nil hc h
  | chain left right ihl ihr => exact ChainCodec.keepsNonempty ihl ihr

theorem ofVec_neverBlocks {bs : Bytes} {e : Fault} (h : Frame.ofVec bs = .error e) :
    e.isWouldBlock = false := by
  unfold Frame.ofVec at h
  split at h
  · cases h
  · cases h
    rfl

/-- No codec says that encoding would block. -/
theorem neverBlocks (hc : crates.Documented) {c : BoxedCodec} {nonces : Nat → Nonce} {n : Nat}
    {f : Frame} {e : Fault} (h : (c.codec crates nonces).encode n f = .error e) :
    e.isWouldBlock = false := by
  induction c generalizing f with
  | plain => cases h
  | encryption key =>
      simp only [codec, EncryptionCodec] at h
      split at h
      · cases h
        rfl
      · exact ofVec_neverBlocks h
  | compression ty level =>
      simp only [codec, CompressionCodec] at h
      split at h
      · next e' he' =>
          cases h
          exact beq_eq_false_iff_ne.mpr (hc.compress_blocks _ _ _ _ he')
      · exact ofVec_neverBlocks h
  | chain left right ihl ihr =>
      have hbind : (left.codec crates nonces).encode n f >>= (right.codec crates nonces).encode n =
        .error e := h
      cases hleft : (left.codec crates nonces).encode n f with
      | error e' =>
          rw [hleft] at hbind
          cases hbind
          exact ihl hleft
      | ok m =>
          rw [hleft] at hbind
          exact ihr hbind

/-- Plain codecs leave every frame as it is. -/
theorem encode_of_isPlain {c : BoxedCodec} (h : c.isPlain = true) (nonces : Nat → Nonce) (n : Nat)
    (f : Frame) : (c.codec crates nonces).encode n f = .ok f := by
  induction c with
  | plain => rfl
  | encryption key => cases h
  | compression ty level => cases h
  | chain left right ihl ihr =>
      simp only [isPlain, Bool.and_eq_true] at h
      show (left.codec crates nonces).encode n f >>= (right.codec crates nonces).encode n = .ok f
      rw [ihl h.1]
      exact ihr h.2

/-- Every other codec encodes every frame, the empty one included, as a nonempty one. -/
theorem encode_ne_nil_of_not_isPlain (hc : crates.Documented) {c : BoxedCodec}
    (hp : c.isPlain = false) {nonces : Nat → Nonce} {n : Nat} {f g : Frame}
    (h : (c.codec crates nonces).encode n f = .ok g) : g.item ≠ [] := by
  induction c generalizing f g with
  | plain => cases hp
  | encryption key => exact EncryptionCodec.encode_ne_nil hc h
  | compression ty level => exact CompressionCodec.encode_ne_nil hc h
  | chain left right ihl ihr =>
      obtain ⟨m, hm, hg⟩ := bind_eq_ok_iff.mp h
      cases hr : right.isPlain with
      | false => exact ihr hr hg
      | true =>
          rw [encode_of_isPlain hr] at hg
          cases hg
          exact ihl (by simpa [isPlain, hr] using hp) hm

/-- Which codecs keep an empty frame empty. -/
theorem encode_isEmpty_iff (hc : crates.Documented) {c : BoxedCodec} {nonces : Nat → Nonce}
    {n : Nat} {f g : Frame} (h : (c.codec crates nonces).encode n f = .ok g) :
    g.item = [] ↔ f.item = [] ∧ c.isPlain = true := by
  cases hp : c.isPlain with
  | false =>
      have := encode_ne_nil_of_not_isPlain hc hp h
      simp [this]
  | true =>
      rw [encode_of_isPlain hp] at h
      cases h
      simp

end BoxedCodec

end Distant
