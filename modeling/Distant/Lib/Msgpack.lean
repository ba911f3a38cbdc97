import Distant.Lib.BigEndian

/-!
# MessagePack

The grammar of MessagePack, as far as it says where an object ends. The first byte of an object is
its marker, which determines how the rest is laid out: in a fixed number of bytes, in as many as a
length says that follows, or in further objects, counted by the marker or by a number that follows.
`Objects k bs` says that `bs` are `k` objects, one after the other; a map is laid out as twice as
many objects as it has entries. `StringMap` are the maps whose keys are strings.
-/

namespace Distant.Msgpack

/-- What the first byte of an object says. -/
inductive Marker where
  | fixPos (value : Fin 128)
  | fixNeg (value : Fin 32)
  | fixMap (entries : Fin 16)
  | fixArray (items : Fin 16)
  | fixStr (len : Fin 32)
  | null
  /-- never used -/
  | reserved
  | false
  | true
  | bin8
  | bin16
  | bin32
  | ext8
  | ext16
  | ext32
  | f32
  | f64
  | u8
  | u16
  | u32
  | u64
  | i8
  | i16
  | i32
  | i64
  | fixExt1
  | fixExt2
  | fixExt4
  | fixExt8
  | fixExt16
  | str8
  | str16
  | str32
  | array16
  | array32
  | map16
  | map32
  deriving DecidableEq, Repr

namespace Marker

def toU8 : Marker → UInt8
  | fixPos value => .ofNat value
  | fixNeg value => .ofNat (0xe0 + value)
  | fixMap entries => .ofNat (0x80 + entries)
  | fixArray items => .ofNat (0x90 + items)
  | fixStr len => .ofNat (0xa0 + len)
  | null => 0xc0
  | reserved => 0xc1
  | false => 0xc2
  | true => 0xc3
  | bin8 => 0xc4
  | bin16 => 0xc5
  | bin32 => 0xc6
  | ext8 => 0xc7
  | ext16 => 0xc8
  | ext32 => 0xc9
  | f32 => 0xca
  | f64 => 0xcb
  | u8 => 0xcc
  | u16 => 0xcd
  | u32 => 0xce
  | u64 => 0xcf
  | i8 => 0xd0
  | i16 => 0xd1
  | i32 => 0xd2
  | i64 => 0xd3
  | fixExt1 => 0xd4
  | fixExt2 => 0xd5
  | fixExt4 => 0xd6
  | fixExt8 => 0xd7
  | fixExt16 => 0xd8
  | str8 => 0xd9
  | str16 => 0xda
  | str32 => 0xdb
  | array16 => 0xdc
  | array32 => 0xdd
  | map16 => 0xde
  | map32 => 0xdf

end Marker

/-- How an object goes on after its marker. -/
inductive Layout where
  /-- with that many bytes -/
  | fixed (n : Nat)
  /-- with a length of that width, and then as many bytes and `extra` more -/
  | sized (width extra : Nat)
  /-- with that many objects -/
  | items (n : Nat)
  /-- with a count of that width, and then `each` objects for each one counted -/
  | counted (width each : Nat)

def Marker.layout : Marker → Option Layout
  | fixPos _ => some (.fixed 0)
  | fixNeg _ => some (.fixed 0)
  | fixMap entries => some (.items (2 * entries))
  | fixArray items => some (.items items)
  | fixStr len => some (.fixed len)
  | null => some (.fixed 0)
  | reserved => none
  | false => some (.fixed 0)
  | true => some (.fixed 0)
  | bin8 => some (.sized 1 0)
  | bin16 => some (.sized 2 0)
  | bin32 => some (.sized 4 0)
  -- the type of an extension is one more byte
  | ext8 => some (.sized 1 1)
  | ext16 => some (.sized 2 1)
  | ext32 => some (.sized 4 1)
  | f32 => some (.fixed 4)
  | f64 => some (.fixed 8)
  | u8 => some (.fixed 1)
  | u16 => some (.fixed 2)
  | u32 => some (.fixed 4)
  | u64 => some (.fixed 8)
  | i8 => some (.fixed 1)
  | i16 => some (.fixed 2)
  | i32 => some (.fixed 4)
  | i64 => some (.fixed 8)
  | fixExt1 => some (.fixed 2)
  | fixExt2 => some (.fixed 3)
  | fixExt4 => some (.fixed 5)
  | fixExt8 => some (.fixed 9)
  | fixExt16 => some (.fixed 17)
  | str8 => some (.sized 1 0)
  | str16 => some (.sized 2 0)
  | str32 => some (.sized 4 0)
  | array16 => some (.counted 2 1)
  | array32 => some (.counted 4 1)
  | map16 => some (.counted 2 2)
  | map32 => some (.counted 4 2)

/-- The bytes are that many objects, one after the other. -/
inductive Objects : Nat → List UInt8 → Prop
  | nil : Objects 0 []
  | fixed {m : Marker} {k : Nat} {data rest : List UInt8} : m.layout = some (.fixed data.length) →
      Objects k rest → Objects (k + 1) (m.toU8 :: (data ++ rest))
  | sized {m : Marker} {k width extra len : Nat} {data rest : List UInt8} :
      m.layout = some (.sized width extra) → len < 256 ^ width → data.length = len + extra →
      Objects k rest → Objects (k + 1) (m.toU8 :: (beBytes width len ++ (data ++ rest)))
  | items {m : Marker} {k n : Nat} {inner rest : List UInt8} : m.layout = some (.items n) →
      Objects n inner → Objects k rest → Objects (k + 1) (m.toU8 :: (inner ++ rest))
  | counted {m : Marker} {k width each cnt : Nat} {inner rest : List UInt8} :
      m.layout = some (.counted width each) → cnt < 256 ^ width → Objects (each * cnt) inner →
      Objects k rest → Objects (k + 1) (m.toU8 :: (beBytes width cnt ++ (inner ++ rest)))

theorem Objects.append {k k' : Nat} {bs bs' : List UInt8} (h : Objects k bs)
    (h' : Objects k' bs') : Objects (k + k') (bs ++ bs') := by
  induction h with
  | nil =>
      rw [Nat.zero_add]
      exact h'
  | fixed hlayout _ ih =>
      rw [Nat.add_right_comm, List.cons_append, List.append_assoc]
      exact .fixed hlayout ih
  | sized hlayout hlen hdata _ ih =>
      rw [Nat.add_right_comm, List.cons_append, List.append_assoc, List.append_assoc]
      exact .sized hlayout hlen hdata ih
  | items hlayout hinner _ _ ih =>
      rw [Nat.add_right_comm, List.cons_append, List.append_assoc]
      exact .items hlayout hinner ih
  | counted hlayout hcnt hinner _ _ ih =>
      rw [Nat.add_right_comm, List.cons_append, List.append_assoc, List.append_assoc]
      exact .counted hlayout hcnt hinner ih

/-! ## Strings and maps -/

/-- The length of a string that its marker has. -/
def Marker.strFix : Marker → Option Nat
  | fixStr len => some len
  | _ => none

/-- The width of the length of a string that follows its marker. -/
def Marker.strWidth : Marker → Option Nat
  | str8 => some 1
  | str16 => some 2
  | str32 => some 4
  | _ => none

/-- The number of entries of a map that its marker has. -/
def Marker.mapFix : Marker → Option Nat
  | fixMap entries => some entries
  | _ => none

/-- The width of the number of entries of a map that follows its marker. -/
def Marker.mapWidth : Marker → Option Nat
  | map16 => some 2
  | map32 => some 4
  | _ => none

/-- The bytes that an object of a kind begins with, which say the number: a marker that has it, or
one that it follows. -/
inductive Head (fix width : Marker → Option Nat) : Nat → List UInt8 → Prop
  | fix {m : Marker} {n : Nat} : fix m = some n → Head fix width n [m.toU8]
  | sized {m : Marker} {w n : Nat} : width m = some w → n < 256 ^ w →
      Head fix width n (m.toU8 :: beBytes w n)

/-- The bytes in front of a string of that length. -/
abbrev StrHead : Nat → List UInt8 → Prop := Head Marker.strFix Marker.strWidth

/-- The bytes in front of a map with that many entries. -/
abbrev MapHead : Nat → List UInt8 → Prop := Head Marker.mapFix Marker.mapWidth

/-- The bytes are that many pairs of a string and an object. -/
inductive Pairs : Nat → List UInt8 → Prop
  | nil : Pairs 0 []
  | cons {n : Nat} {head key value rest : List UInt8} : StrHead key.length head →
      Objects 1 value → Pairs n rest → Pairs (n + 1) (head ++ (key ++ (value ++ rest)))

/-- The bytes are a map whose keys are strings. -/
def StringMap (bs : List UInt8) : Prop :=
  ∃ n head pairs, MapHead n head ∧ Pairs n pairs ∧ bs = head ++ pairs

theorem StrHead.lt {len : Nat} {head : List UInt8} (h : StrHead len head) : len < 2 ^ 32 := by
  cases h with
  | fix hfix =>
      unfold Marker.strFix at hfix
      split at hfix <;> cases hfix
      omega
  | sized hwidth hlen =>
      unfold Marker.strWidth at hwidth
      split at hwidth <;> cases hwidth <;> omega

theorem StrHead.object {len : Nat} {head data : List UInt8} (h : StrHead len head)
    (hdata : data.length = len) : Objects 1 (head ++ data) := by
  cases h with
  | @fix m _ hfix =>
      have hlayout : m.layout = some (.fixed len) := by
        unfold Marker.strFix at hfix
        split at hfix <;> cases hfix
        rfl
      have hobject : Objects 1 (m.toU8 :: (data ++ [])) := .fixed (by rw [hdata, hlayout]) .nil
      rwa [List.append_nil] at hobject
  | @sized m width _ hwidth hlen =>
      have hlayout : m.layout = some (.sized width 0) := by
        unfold Marker.strWidth at hwidth
        split at hwidth <;> cases hwidth <;> rfl
      have hobject : Objects 1 (m.toU8 :: (beBytes width len ++ (data ++ []))) :=
        .sized hlayout hlen hdata .nil
      rwa [List.append_nil] at hobject

theorem Pairs.objects {n : Nat} {bs : List UInt8} (h : Pairs n bs) : Objects (2 * n) bs := by
  induction h with
  | nil => exact .nil
  | @cons n head key value rest hhead hvalue _ ih =>
      have hkey : Objects 1 (head ++ key) := hhead.object rfl
      have hpairs := (hkey.append hvalue).append ih
      rw [List.append_assoc, List.append_assoc] at hpairs
      rwa [Nat.mul_succ, Nat.add_comm]

/-- A map with strings as keys is one object. -/
theorem StringMap.object {bs : List UInt8} (h : StringMap bs) : Objects 1 bs := by
  obtain ⟨n, head, pairs, hhead, hpairs, rfl⟩ := h
  cases hhead with
  | @fix m _ hfix =>
      have hlayout : m.layout = some (.items (2 * n)) := by
        unfold Marker.mapFix at hfix
        split at hfix <;> cases hfix
        rfl
      have hobject : Objects 1 (m.toU8 :: (pairs ++ [])) := .items hlayout hpairs.objects .nil
      rwa [List.append_nil] at hobject
  | @sized m width _ hwidth hentries =>
      have hlayout : m.layout = some (.counted width 2) := by
        unfold Marker.mapWidth at hwidth
        split at hwidth <;> cases hwidth <;> rfl
      have hobject : Objects 1 (m.toU8 :: (beBytes width n ++ (pairs ++ []))) :=
        .counted hlayout hentries hpairs.objects .nil
      rwa [List.append_nil] at hobject

end Distant.Msgpack
