import Mathlib.Tactic.Ring
import Distant.Lib.Msgpack
import Distant.Lib.Utf8

/-!
# MessagePack as packets are read

`findMsgpackByteLen` says how long an object is from its first bytes, and `readHeaderBytes` where a
map with strings as keys ends. What they use of the crate `rmp` is a parameter; that it reads and
writes MessagePack is `Rmp.Documented`. The results are that each object is found to be as long as it
is (`findMsgpackByteLen_object`), that a length that is there belongs to an object
(`hasObject_of_findMsgpackByteLen`), and that a header is read exactly if it is such a map
(`readHeaderBytes_eq_ok_iff`).
-/

namespace Distant

open Msgpack

/-- What packets use of the crate `rmp`. A length that is read comes with the number of bytes that it
took. -/
structure Rmp where
  /-- `Marker::from_u8` -/
  fromU8 : UInt8 → Marker
  /-- `encode::write_map_len` -/
  writeMapLen : Nat → Bytes
  /-- `encode::write_str` -/
  writeStr : String → Bytes
  /-- `decode::read_map_len` -/
  readMapLen : Bytes → Option (Nat × Nat)
  /-- `decode::read_str_len` -/
  readStrLen : Bytes → Option (Nat × Nat)
  /-- `decode::read_str_from_slice` -/
  readStrFromSlice : Bytes → Option (String × Bytes)

/-- The bytes encode a string. -/
def Str (s : String) (bs : Bytes) : Prop :=
  ∃ head, StrHead (utf8Bytes s).length head ∧ bs = head ++ utf8Bytes s

/-- The crate reads and writes MessagePack. -/
structure Rmp.Documented (rmp : Rmp) : Prop where
  fromU8 : ∀ b m, rmp.fromU8 b = m ↔ m.toU8 = b
  writeMapLen : ∀ entries : Fin 16, rmp.writeMapLen entries = [(Marker.fixMap entries).toU8]
  writeStr : ∀ s, (utf8Bytes s).length < 2 ^ 32 → Str s (rmp.writeStr s)
  readMapLen : ∀ bs n took, rmp.readMapLen bs = some (n, took) ↔
    ∃ head rest, MapHead n head ∧ head.length = took ∧ bs = head ++ rest
  readStrLen : ∀ bs n took, rmp.readStrLen bs = some (n, took) ↔
    ∃ head rest, StrHead n head ∧ head.length = took ∧ bs = head ++ rest
  readStrFromSlice : ∀ bs s rest, rmp.readStrFromSlice bs = some (s, rest) ↔
    ∃ str, Str s str ∧ bs = str ++ rest

/-- The encoding of the string is read as that string again. -/
def Rmp.Inverse (rmp : Rmp) (s : String) : Prop :=
  ∀ rest, rmp.readStrFromSlice (rmp.writeStr s ++ rest) = some (s, rest)

/-! ## How long an object is -/

/-- The macro `read_len!` for a number of that width. -/
def readLen (width start : Nat) (input : Bytes) : Option Nat :=
  if input.length < start then none
  else if (input.drop start).length < width then none
  else some (beNat ((input.drop start).take width))

/-- The loop of the macro `read_len!` over objects, which adds up their lengths. -/
def objectsLen (find : Bytes → Option Nat) (input : Bytes) : Nat → Nat → Option Nat
  | 0, len => some len
  | cnt + 1, len =>
    if input.length < len then none
    else
      match find (input.drop len) with
      | some x => objectsLen find input cnt (len + x)
      | none => none

/-- The macro `read_len!` for that many objects. -/
def readObjectsLen (find : Bytes → Option Nat) (cnt start : Nat) (input : Bytes) : Option Nat :=
  if input.length < start then none else objectsLen find (input.drop start) cnt 0

/-- `find_msgpack_byte_len`, with a bound on the depth of its recursion. -/
def byteLen (rmp : Rmp) : Nat → Bytes → Option Nat
  | _, [] => none
  | 0, _ => none
  | depth + 1, b :: bs =>
    let input := b :: bs
    let find := byteLen rmp depth
    match rmp.fromU8 b with
    | .null => some 1
    | .true => some 1
    | .false => some 1
    | .fixPos _ => some 1
    | .fixNeg _ => some 1
    | .u8 => some 2
    | .u16 => some 3
    | .u32 => some 5
    | .u64 => some 9
    | .i8 => some 2
    | .i16 => some 3
    | .i32 => some 5
    | .i64 => some 9
    | .f32 => some 5
    | .f64 => some 9
    | .fixStr len => some (1 + len)
    | .str8 => (readLen 1 1 input).map (2 + ·)
    | .str16 => (readLen 2 1 input).map (3 + ·)
    | .str32 => (readLen 4 1 input).map (5 + ·)
    | .bin8 => (readLen 1 1 input).map (2 + ·)
    | .bin16 => (readLen 2 1 input).map (3 + ·)
    | .bin32 => (readLen 4 1 input).map (5 + ·)
    | .fixArray cnt => (readObjectsLen find cnt 1 input).map (1 + ·)
    | .array16 => do
      let cnt ← readLen 2 1 input
      (readObjectsLen find cnt 3 input).map (3 + ·)
    | .array32 => do
      let cnt ← readLen 4 1 input
      (readObjectsLen find cnt 5 input).map (5 + ·)
    | .fixMap cnt => (readObjectsLen find (2 * cnt) 1 input).map (1 + ·)
    | .map16 => do
      let cnt ← readLen 2 1 input
      (readObjectsLen find (2 * cnt) 3 input).map (3 + ·)
    | .map32 => do
      let cnt ← readLen 4 1 input
      (readObjectsLen find (2 * cnt) 5 input).map (5 + ·)
    | .fixExt1 => some 3
    | .fixExt2 => some 4
    | .fixExt4 => some 6
    | .fixExt8 => some 10
    | .fixExt16 => some 18
    | .ext8 => (readLen 1 1 input).map (3 + ·)
    | .ext16 => (readLen 2 1 input).map (4 + ·)
    | .ext32 => (readLen 4 1 input).map (6 + ·)
    | .reserved => none

/-- The length of the next object. Each call of the recursion has less input, by a byte at least. -/
def findMsgpackByteLen (rmp : Rmp) (input : Bytes) : Option Nat := byteLen rmp input.length input

/-! ## Reading the parts of a packet -/

/-- The loop of `read_header_bytes` over the entries that are left, with the cursor at `pos`. -/
def skipEntries (rmp : Rmp) (input : Bytes) : Nat → Nat → Except Bytes Nat
  | 0, pos => .ok pos
  | left + 1, pos =>
    match rmp.readStrLen (input.drop pos) with
    | none => .error input
    | some (keyLen, took) =>
      let pos := pos + took + keyLen
      if input.length < pos then .error input
      else
        match findMsgpackByteLen rmp (input.drop pos) with
        -- the name `input` stands for what follows the key here
        | none => .error (input.drop pos)
        | some len =>
          let pos := pos + len
          if input.length < pos then .error input else skipEntries rmp input left pos

/-- Reads the header bytes, including the marker and the length. -/
def readHeaderBytes (rmp : Rmp) (input : Bytes) : Except Bytes (Bytes × Bytes) :=
  match rmp.readMapLen input with
  | none => .error input
  | some (len, took) =>
    match skipEntries rmp input len took with
    | .error rest => .error rest
    | .ok pos =>
      if input.length < pos then .error input else .ok (input.take pos, input.drop pos)

def readStrBytes (rmp : Rmp) (input : Bytes) : Except Bytes (String × Bytes) :=
  match rmp.readStrFromSlice input with
  | some x => .ok x
  | none => .error input

/-- Reads a key and checks that it is the one that is expected. -/
def readKeyEq (rmp : Rmp) (input : Bytes) (key : String) : Except Bytes (Unit × Bytes) :=
  match readStrBytes rmp input with
  | .ok (s, rest) => if s = key then .ok ((), rest) else .error input
  | .error _ => .error input

/-! ## The lengths that are found -/

section Lengths

variable {rmp : Rmp} {depth k len : Nat} {input pre bs rest obj : Bytes} {find : Bytes → Option Nat}

theorem readLen_eq_some_iff {width start n : Nat} :
    readLen width start input = some n ↔
      start + width ≤ input.length ∧ n = beNat ((input.drop start).take width) := by
  unfold readLen
  split
  · next h => exact ⟨by rintro ⟨⟩, fun hn => absurd hn.1 (by omega)⟩
  · split
    · next h =>
        rw [List.length_drop] at h
        exact ⟨by rintro ⟨⟩, fun hn => absurd hn.1 (by omega)⟩
    · next h =>
        rw [List.length_drop] at h
        constructor
        · intro hn
          cases hn
          exact ⟨by omega, rfl⟩
        · rintro ⟨-, rfl⟩
          rfl

/-- The number that stands behind a marker. -/
theorem readLen_append {b : UInt8} {width n : Nat} (hn : n < 256 ^ width) :
    readLen width 1 (b :: (beBytes width n ++ rest)) = some n := by
  rw [readLen_eq_some_iff]
  refine ⟨by simp; omega, ?_⟩
  rw [List.drop_one, List.tail_cons, List.take_left' (length_beBytes _ _), beNat_beBytes hn]

theorem eq_append_of_readLen {b : UInt8} {width n : Nat}
    (h : readLen width 1 (b :: bs) = some n) :
    ∃ rest, bs = beBytes width n ++ rest ∧ n < 256 ^ width := by
  obtain ⟨hle, rfl⟩ := readLen_eq_some_iff.mp h
  rw [List.drop_one, List.tail_cons]
  rw [List.length_cons] at hle
  have hlen : (bs.take width).length = width := List.length_take_of_le (by omega)
  have hbytes := beBytes_beNat (bs.take width)
  have hlt := beNat_lt (bs.take width)
  rw [hlen] at hbytes hlt
  exact ⟨bs.drop width, by rw [hbytes, List.take_append_drop], hlt⟩

/-- Every branch says how the object is laid out. -/
theorem byteLen_cons (b : UInt8) :
    byteLen rmp (depth + 1) (b :: bs) =
      match (rmp.fromU8 b).layout with
      | none => none
      | some (.fixed n) => some (1 + n)
      | some (.sized width extra) => (readLen width 1 (b :: bs)).map (1 + width + extra + ·)
      | some (.items n) => (readObjectsLen (byteLen rmp depth) n 1 (b :: bs)).map (1 + ·)
      | some (.counted width each) =>
        (readLen width 1 (b :: bs)).bind fun cnt =>
          (readObjectsLen (byteLen rmp depth) (each * cnt) (1 + width) (b :: bs)).map
            (1 + width + ·) := by
  rw [byteLen]
  cases rmp.fromU8 b <;> simp [Marker.layout]


theorem objectsLen_congr {find' : Bytes → Option Nat}
    (h : ∀ bs, bs.length ≤ input.length → find bs = find' bs) :
    objectsLen find input k len = objectsLen find' input k len := by
  induction k generalizing len with
  | zero => rfl
  | succ k ih =>
      have hnext : find (input.drop len) = find' (input.drop len) := h _ (by simp)
      rw [objectsLen, objectsLen, hnext]
      split
      · rfl
      · cases find' (input.drop len) with
        | none => rfl
        | some x => exact ih

/-- The recursion is never as deep as its bound. -/
theorem byteLen_of_le {depth' : Nat} (h : input.length ≤ depth) (h' : input.length ≤ depth') :
    byteLen rmp depth input = byteLen rmp depth' input := by
  induction depth generalizing depth' input with
  | zero =>
      rw [List.length_eq_zero_iff.mp (Nat.le_zero.mp h)]
      cases depth' <;> rfl
  | succ depth ih =>
      cases input with
      | nil => cases depth' <;> rfl
      | cons b bs =>
          rw [List.length_cons] at h h'
          obtain ⟨depth', rfl⟩ := Nat.exists_eq_add_one_of_ne_zero (show depth' ≠ 0 by omega)
          have hobjects (cnt start : Nat) (hstart : 1 ≤ start) :
              readObjectsLen (byteLen rmp depth) cnt start (b :: bs) =
                readObjectsLen (byteLen rmp depth') cnt start (b :: bs) := by
            unfold readObjectsLen
            rw [objectsLen_congr]
            intro bs' hbs'
            rw [List.length_drop, List.length_cons] at hbs'
            exact ih (by omega) (by omega)
          rw [byteLen_cons, byteLen_cons]
          split
          · rfl
          · rfl
          · rfl
          · rw [hobjects _ _ (Nat.le_refl 1)]
          · simp only [hobjects _ _ (Nat.le_add_right 1 _)]

/-- One object in front of others adds its length. -/
theorem objectsLen_cons {one more : Bytes} (hone : find (one ++ (more ++ rest)) = some one.length)
    (hmore : objectsLen find ((pre ++ one) ++ (more ++ rest)) k (pre ++ one).length =
      some ((pre ++ one).length + more.length)) :
    objectsLen find (pre ++ ((one ++ more) ++ rest)) (k + 1) pre.length =
      some (pre.length + (one ++ more).length) := by
  rw [objectsLen, if_neg (by simp), List.drop_left' rfl, List.append_assoc, hone]
  simp only [List.append_assoc, List.length_append] at hmore ⊢
  rw [hmore, Nat.add_assoc]

theorem byteLen_fixed (hr : rmp.Documented) {m : Marker} {data : Bytes}
    (hlayout : m.layout = some (.fixed data.length)) :
    byteLen rmp (depth + 1) (m.toU8 :: (data ++ rest)) = some (m.toU8 :: data).length := by
  rw [byteLen_cons, (hr.fromU8 _ m).mpr rfl, hlayout, List.length_cons, Nat.add_comm]

theorem byteLen_sized (hr : rmp.Documented) {m : Marker} {width extra n : Nat} {data : Bytes}
    (hlayout : m.layout = some (.sized width extra)) (hn : n < 256 ^ width)
    (hdata : data.length = n + extra) :
    byteLen rmp (depth + 1) (m.toU8 :: (beBytes width n ++ (data ++ rest))) =
      some (m.toU8 :: (beBytes width n ++ data)).length := by
  rw [byteLen_cons, (hr.fromU8 _ m).mpr rfl, hlayout]
  simp only [readLen_append hn, Option.map_some, List.length_cons, List.length_append,
    length_beBytes, hdata]
  congr 1
  omega

theorem byteLen_items (hr : rmp.Documented) {m : Marker} {n : Nat} {inner : Bytes}
    (hlayout : m.layout = some (.items n))
    (hinner : objectsLen (byteLen rmp depth) (inner ++ rest) n 0 = some inner.length) :
    byteLen rmp (depth + 1) (m.toU8 :: (inner ++ rest)) = some (m.toU8 :: inner).length := by
  rw [byteLen_cons, (hr.fromU8 _ m).mpr rfl, hlayout]
  simp only [readObjectsLen, List.length_cons, List.drop_one, List.tail_cons, hinner]
  rw [if_neg (by omega), Option.map_some, Nat.add_comm]

theorem byteLen_counted (hr : rmp.Documented) {m : Marker} {width each cnt : Nat} {inner : Bytes}
    (hlayout : m.layout = some (.counted width each)) (hcnt : cnt < 256 ^ width)
    (hinner : objectsLen (byteLen rmp depth) (inner ++ rest) (each * cnt) 0 =
      some inner.length) :
    byteLen rmp (depth + 1) (m.toU8 :: (beBytes width cnt ++ (inner ++ rest))) =
      some (m.toU8 :: (beBytes width cnt ++ inner)).length := by
  have hdrop : (m.toU8 :: (beBytes width cnt ++ (inner ++ rest))).drop (1 + width) =
      inner ++ rest := by
    rw [Nat.add_comm, List.drop_succ_cons, List.drop_left' (length_beBytes _ _)]
  rw [byteLen_cons, (hr.fromU8 _ m).mpr rfl, hlayout]
  simp only [readLen_append hcnt, Option.bind_some, readObjectsLen, hdrop, hinner]
  rw [if_neg (by simp; omega), Option.map_some]
  simp only [List.length_cons, List.length_append, length_beBytes]
  congr 1
  omega

/-- The loop over some objects adds up to their length, whatever follows. -/
theorem objectsLen_objects (hr : rmp.Documented) (h : Objects k obj) :
    ∀ (depth : Nat) (pre rest : Bytes), obj.length ≤ depth →
      objectsLen (byteLen rmp depth) (pre ++ (obj ++ rest)) k pre.length =
        some (pre.length + obj.length) := by
  induction h with
  | nil =>
      intro depth pre rest _
      rfl
  | @fixed m k data more hlayout _ ih =>
      intro depth pre rest hdepth
      simp only [List.length_cons, List.length_append] at hdepth
      obtain ⟨depth, rfl⟩ := Nat.exists_eq_add_one_of_ne_zero (show depth ≠ 0 by omega)
      rw [← List.cons_append]
      apply objectsLen_cons
      · exact byteLen_fixed hr hlayout
      · exact ih _ _ _ (by omega)
  | @sized m k width extra n data more hlayout hn hdata _ ih =>
      intro depth pre rest hdepth
      simp only [List.length_cons, List.length_append] at hdepth
      obtain ⟨depth, rfl⟩ := Nat.exists_eq_add_one_of_ne_zero (show depth ≠ 0 by omega)
      have hobject : m.toU8 :: (beBytes width n ++ (data ++ more)) =
          (m.toU8 :: (beBytes width n ++ data)) ++ more := by simp
      rw [hobject]
      apply objectsLen_cons
      · rw [List.cons_append, List.append_assoc]
        exact byteLen_sized hr hlayout hn hdata
      · exact ih _ _ _ (by omega)
  | @items m k n inner more hlayout _ _ ihinner ih =>
      intro depth pre rest hdepth
      simp only [List.length_cons, List.length_append] at hdepth
      obtain ⟨depth, rfl⟩ := Nat.exists_eq_add_one_of_ne_zero (show depth ≠ 0 by omega)
      have hinner := ihinner depth [] (more ++ rest) (by omega)
      rw [List.nil_append, List.length_nil, Nat.zero_add] at hinner
      rw [← List.cons_append]
      apply objectsLen_cons
      · exact byteLen_items hr hlayout hinner
      · exact ih _ _ _ (by omega)
  | @counted m k width each cnt inner more hlayout hcnt _ _ ihinner ih =>
      intro depth pre rest hdepth
      simp only [List.length_cons, List.length_append] at hdepth
      obtain ⟨depth, rfl⟩ := Nat.exists_eq_add_one_of_ne_zero (show depth ≠ 0 by omega)
      have hinner := ihinner depth [] (more ++ rest) (by omega)
      rw [List.nil_append, List.length_nil, Nat.zero_add] at hinner
      have hobject : m.toU8 :: (beBytes width cnt ++ (inner ++ more)) =
          (m.toU8 :: (beBytes width cnt ++ inner)) ++ more := by simp
      rw [hobject]
      apply objectsLen_cons
      · rw [List.cons_append, List.append_assoc]
        exact byteLen_counted hr hlayout hcnt hinner
      · exact ih _ _ _ (by omega)

/-- An object in front of other bytes is found to be as long as it is. -/
theorem findMsgpackByteLen_object (hr : rmp.Documented) (h : Objects 1 obj) (rest : Bytes) :
    findMsgpackByteLen rmp (obj ++ rest) = some obj.length := by
  have hlen := objectsLen_objects hr h (obj ++ rest).length [] rest (by simp)
  simp only [List.nil_append, List.length_nil, Nat.zero_add, objectsLen, List.drop_zero,
    Nat.not_lt_zero, if_false] at hlen
  unfold findMsgpackByteLen
  revert hlen
  cases byteLen rmp (obj ++ rest).length (obj ++ rest) with
  | none => rintro ⟨⟩
  | some x => exact fun hx => hx

theorem le_of_objectsLen {len' : Nat} (h : objectsLen find input k len = some len') :
    len ≤ len' := by
  induction k generalizing len with
  | zero =>
      cases h
      exact Nat.le_refl _
  | succ k ih =>
      unfold objectsLen at h
      split at h
      · cases h
      · split at h
        · exact Nat.le_trans (Nat.le_add_right _ _) (ih h)
        · cases h

/-- The bytes begin with that many objects, which are that long together. -/
def HasObjects (k : Nat) (bs : Bytes) (len : Nat) : Prop :=
  ∃ obj rest, bs = obj ++ rest ∧ Objects k obj ∧ obj.length = len

/-- What the loop has added up belongs to objects, if it is there. -/
theorem hasObjects_of_objectsLen
    (hone : ∀ bs x, find bs = some x → x ≤ bs.length → HasObjects 1 bs x) {n : Nat}
    (h : objectsLen find input k len = some n) (hn : n ≤ input.length) :
    ∃ x, n = len + x ∧ HasObjects k (input.drop len) x := by
  induction k generalizing len with
  | zero =>
      cases h
      exact ⟨0, rfl, [], _, rfl, .nil, rfl⟩
  | succ k ih =>
      unfold objectsLen at h
      split at h
      · cases h
      · split at h
        · next x hx =>
            have hle := le_of_objectsLen h
            have hfits : x ≤ (input.drop len).length := by
              rw [List.length_drop]
              omega
            obtain ⟨obj, rest, hobj, hobject, rfl⟩ := hone _ x hx hfits
            obtain ⟨y, rfl, more, rest', hmore, hobjects, rfl⟩ := ih h
            rw [← List.drop_drop, hobj, List.drop_left' rfl] at hmore
            refine ⟨obj.length + more.length, Nat.add_assoc _ _ _, obj ++ more, rest', ?_, ?_, ?_⟩
            · rw [hobj, hmore, List.append_assoc]
            · rw [Nat.add_comm]
              exact hobject.append hobjects
            · exact List.length_append
        · cases h

/-- If the length that is found is there, it is that of an object. -/
theorem hasObject_of_byteLen (hr : rmp.Documented)
    (hone : ∀ bs x, byteLen rmp depth bs = some x → x ≤ bs.length → HasObjects 1 bs x)
    {b : UInt8} {x : Nat} (h : byteLen rmp (depth + 1) (b :: bs) = some x)
    (hx : x ≤ (b :: bs).length) : HasObjects 1 (b :: bs) x := by
  have hb : (rmp.fromU8 b).toU8 = b := (hr.fromU8 b _).mp rfl
  rw [byteLen_cons] at h
  rw [← hb]
  generalize rmp.fromU8 b = m at h
  rw [List.length_cons] at hx
  split at h
  · cases h
  · next n hlayout =>
      cases h
      have hdata : (bs.take n).length = n := List.length_take_of_le (by omega)
      refine ⟨m.toU8 :: (bs.take n ++ []), bs.drop n, ?_, .fixed (by rw [hdata, hlayout]) .nil, ?_⟩
      · simp
      · simp only [List.append_nil, List.length_cons, hdata, Nat.add_comm]
  · next width extra hlayout =>
      obtain ⟨n, hn, rfl⟩ := Option.map_eq_some_iff.mp h
      obtain ⟨rest, rfl, hlt⟩ := eq_append_of_readLen hn
      rw [List.length_append, length_beBytes] at hx
      have hdata : (rest.take (n + extra)).length = n + extra :=
        List.length_take_of_le (by omega)
      refine ⟨m.toU8 :: (beBytes width n ++ (rest.take (n + extra) ++ [])), rest.drop (n + extra),
        ?_, .sized hlayout hlt hdata .nil, ?_⟩
      · simp
      · simp only [List.append_nil, List.length_cons, List.length_append, length_beBytes, hdata]
        omega
  · next n hlayout =>
      obtain ⟨y, hy, rfl⟩ := Option.map_eq_some_iff.mp h
      unfold readObjectsLen at hy
      rw [if_neg (by simp), List.drop_one, List.tail_cons] at hy
      obtain ⟨_, hxy, hinner⟩ := hasObjects_of_objectsLen hone hy (by omega)
      rw [Nat.zero_add] at hxy
      subst hxy
      obtain ⟨inner, rest, rfl, hinner, rfl⟩ := hinner
      refine ⟨m.toU8 :: (inner ++ []), rest, by simp, .items hlayout hinner .nil, ?_⟩
      simp only [List.append_nil, List.length_cons, Nat.add_comm]
  · next width each hlayout =>
      obtain ⟨cnt, hcnt, h⟩ := Option.bind_eq_some_iff.mp h
      obtain ⟨y, hy, rfl⟩ := Option.map_eq_some_iff.mp h
      obtain ⟨rest, rfl, hlt⟩ := eq_append_of_readLen hcnt
      unfold readObjectsLen at hy
      rw [if_neg (by simp; omega), Nat.add_comm, List.drop_succ_cons,
        List.drop_left' (length_beBytes _ _)] at hy
      rw [List.length_append, length_beBytes] at hx
      obtain ⟨_, hxy, hinner⟩ := hasObjects_of_objectsLen hone hy (by omega)
      rw [Nat.zero_add] at hxy
      subst hxy
      obtain ⟨inner, rest, rfl, hinner, rfl⟩ := hinner
      refine ⟨m.toU8 :: (beBytes width cnt ++ (inner ++ [])), rest, by simp,
        .counted hlayout hlt hinner .nil, ?_⟩
      simp only [List.append_nil, List.length_cons, List.length_append, length_beBytes]
      omega

theorem hasObject_of_findMsgpackByteLen (hr : rmp.Documented) {x : Nat}
    (h : findMsgpackByteLen rmp input = some x) (hx : x ≤ input.length) :
    HasObjects 1 input x := by
  have hone : ∀ depth bs x, byteLen rmp depth bs = some x → x ≤ bs.length →
      HasObjects 1 bs x := by
    intro depth
    induction depth with
    | zero =>
        rintro (_ | ⟨b, bs⟩) x ⟨⟩
    | succ depth ih =>
        rintro (_ | ⟨b, bs⟩) x h hx
        · cases h
        · exact hasObject_of_byteLen hr ih h hx
  exact hone _ _ _ h hx

end Lengths
/-! ## What is read -/

section Parts

variable {rmp : Rmp} {n pos : Nat} {input pairs header rest : Bytes} {s key : String}

/-- The cursor moves past an entry. -/
theorem skipEntries_entry (hr : rmp.Documented) {head key value : Bytes}
    (hhead : StrHead key.length head) (hvalue : Objects 1 value)
    (hinput : input.drop pos = head ++ (key ++ (value ++ rest))) (hpos : pos ≤ input.length) :
    skipEntries rmp input (n + 1) pos =
      skipEntries rmp input n (pos + head.length + key.length + value.length) := by
  have hlen := congrArg List.length hinput
  simp only [List.length_drop, List.length_append] at hlen
  have hkey : rmp.readStrLen (input.drop pos) = some (key.length, head.length) :=
    (hr.readStrLen _ _ _).mpr ⟨head, _, hhead, rfl, hinput⟩
  have hafter : input.drop (pos + head.length + key.length) = value ++ rest := by
    rw [← List.drop_drop, ← List.drop_drop, hinput, List.drop_left' rfl, List.drop_left' rfl]
  rw [skipEntries, hkey]
  simp only [hafter, findMsgpackByteLen_object hr hvalue]
  rw [if_neg (by omega), if_neg (by omega)]

theorem skipEntries_pairs (hr : rmp.Documented) (h : Pairs n pairs)
    (hinput : input.drop pos = pairs ++ rest) (hpos : pos ≤ input.length) :
    skipEntries rmp input n pos = .ok (pos + pairs.length) := by
  induction h generalizing pos with
  | nil => rfl
  | @cons n head key value more hhead hvalue _ ih =>
      simp only [List.append_assoc] at hinput
      have hlen := congrArg List.length hinput
      simp only [List.length_drop, List.length_append] at hlen
      rw [skipEntries_entry hr hhead hvalue hinput hpos, ih ?_ (by omega)]
      · simp only [List.length_append]
        congr 1
        omega
      · rw [← List.drop_drop, ← List.drop_drop, ← List.drop_drop, hinput, List.drop_left' rfl,
          List.drop_left' rfl, List.drop_left' rfl]

/-- Where the loop gets past an entry, there is one. -/
theorem entry_of_skipEntries (hr : rmp.Documented) {pos' : Nat}
    (h : skipEntries rmp input (n + 1) pos = .ok pos') :
    ∃ head key value rest, StrHead key.length head ∧ Objects 1 value ∧
      input.drop pos = head ++ (key ++ (value ++ rest)) := by
  unfold skipEntries at h
  split at h
  · cases h
  · next keyLen took hkey =>
      obtain ⟨head, after, hhead, rfl, hdrop⟩ := (hr.readStrLen _ _ _).mp hkey
      simp only at h
      split at h
      · cases h
      · next hfits =>
          split at h
          · cases h
          · next len hlen =>
              split at h
              · cases h
              · next hfits' =>
                  have hafter : after = input.drop (pos + head.length) := by
                    rw [← List.drop_drop, hdrop, List.drop_left' rfl]
                  have hlen' : len ≤ (input.drop (pos + head.length + keyLen)).length := by
                    rw [List.length_drop]
                    omega
                  obtain ⟨value, rest, hvalue, hobject, -⟩ :=
                    hasObject_of_findMsgpackByteLen hr hlen hlen'
                  have htake : (after.take keyLen).length = keyLen := by
                    rw [hafter, List.length_take_of_le]
                    rw [List.length_drop]
                    omega
                  refine ⟨head, after.take keyLen, value, rest, by rwa [htake], hobject, ?_⟩
                  rw [hdrop, ← hvalue, ← List.drop_drop, ← hafter, List.take_append_drop]

theorem pairs_of_skipEntries (hr : rmp.Documented) {pos' : Nat}
    (h : skipEntries rmp input n pos = .ok pos') (hpos : pos ≤ input.length) :
    ∃ pairs rest, Pairs n pairs ∧ pos' = pos + pairs.length ∧ input.drop pos = pairs ++ rest := by
  induction n generalizing pos with
  | zero =>
      cases h
      exact ⟨[], _, .nil, rfl, rfl⟩
  | succ n ih =>
      obtain ⟨head, key, value, rest, hhead, hvalue, hinput⟩ := entry_of_skipEntries hr h
      have hlen := congrArg List.length hinput
      simp only [List.length_drop, List.length_append] at hlen
      rw [skipEntries_entry hr hhead hvalue hinput hpos] at h
      obtain ⟨pairs, rest', hpairs, rfl, hdrop⟩ := ih h (by omega)
      rw [← List.drop_drop, ← List.drop_drop, ← List.drop_drop, hinput, List.drop_left' rfl,
        List.drop_left' rfl, List.drop_left' rfl] at hdrop
      refine ⟨head ++ (key ++ (value ++ pairs)), rest', .cons hhead hvalue hpairs, ?_, ?_⟩
      · simp only [List.length_append]
        omega
      · rw [hinput, hdrop]
        simp only [List.append_assoc]

/-- The header ends where its map ends. -/
theorem readHeaderBytes_eq_ok_iff (hr : rmp.Documented) :
    readHeaderBytes rmp input = .ok (header, rest) ↔ StringMap header ∧ input = header ++ rest := by
  constructor
  · intro h
    unfold readHeaderBytes at h
    split at h
    · cases h
    · next n took hlen =>
        obtain ⟨head, after, hhead, rfl, rfl⟩ := (hr.readMapLen _ _ _).mp hlen
        split at h
        · cases h
        · next pos hpos =>
            obtain ⟨pairs, rest', hpairs, rfl, hdrop⟩ := pairs_of_skipEntries hr hpos (by simp)
            rw [List.drop_left' rfl] at hdrop
            subst hdrop
            split at h
            · cases h
            · cases h
              have hsplit : (head ++ pairs).length = head.length + pairs.length :=
                List.length_append
              rw [← List.append_assoc, ← hsplit, List.take_left' rfl, List.drop_left' rfl]
              exact ⟨⟨n, head, pairs, hhead, hpairs, rfl⟩, rfl⟩
  · rintro ⟨⟨n, head, pairs, hhead, hpairs, rfl⟩, rfl⟩
    have hlen : rmp.readMapLen (head ++ pairs ++ rest) = some (n, head.length) :=
      (hr.readMapLen _ _ _).mpr ⟨head, pairs ++ rest, hhead, rfl, List.append_assoc _ _ _⟩
    have hskip : skipEntries rmp (head ++ pairs ++ rest) n head.length =
        .ok (head.length + pairs.length) := by
      have hdrop : (head ++ pairs ++ rest).drop head.length = pairs ++ rest := by
        rw [List.append_assoc, List.drop_left' rfl]
      exact skipEntries_pairs hr hpairs hdrop (by simp)
    have hsplit : head.length + pairs.length = (head ++ pairs).length :=
      List.length_append.symm
    rw [readHeaderBytes, hlen]
    simp only [hskip, hsplit]
    rw [if_neg (by simp), List.take_left' rfl, List.drop_left' rfl]

theorem readStrBytes_eq_ok_iff (hr : rmp.Documented) :
    readStrBytes rmp input = .ok (s, rest) ↔ ∃ str, Str s str ∧ input = str ++ rest := by
  rw [← hr.readStrFromSlice, readStrBytes]
  cases rmp.readStrFromSlice input with
  | none => exact ⟨by rintro ⟨⟩, by rintro ⟨⟩⟩
  | some x => exact ⟨fun h => by cases h; rfl, fun h => by cases h; rfl⟩

theorem readKeyEq_eq_ok_iff (hr : rmp.Documented) :
    readKeyEq rmp input key = .ok ((), rest) ↔ ∃ str, Str key str ∧ input = str ++ rest := by
  rw [← readStrBytes_eq_ok_iff hr, readKeyEq]
  cases readStrBytes rmp input with
  | error e => exact ⟨by rintro ⟨⟩, by rintro ⟨⟩⟩
  | ok x =>
      obtain ⟨s, rest'⟩ := x
      show (if s = key then _ else _) = _ ↔ _
      split
      · next heq =>
          subst heq
          exact ⟨fun h => by cases h; rfl, fun h => by cases h; rfl⟩
      · next hne =>
          refine ⟨by rintro ⟨⟩, fun h => ?_⟩
          cases h
          exact absurd rfl hne

end Parts

end Distant
