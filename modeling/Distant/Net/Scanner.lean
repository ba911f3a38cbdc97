import Distant.Net.Untyped

/-!
# The scanner of packets in machine numbers

`findMsgpackByteLen`, `readHeaderBytes` and `readStrBytes` again, with the slices that can be out of
range and the 64-bit numbers that can overflow. For an input that fits into memory neither happens:
the functions are those on natural numbers (`findMsgpackByteLen_eq`, `readHeaderBytes_eq`). What
bounds the numbers is `le_of_byteLen`: the length that is found exceeds the input by what one last
object announces, at most.
-/

namespace Distant.Scanner

open Msgpack

/-! ## Slices and numbers -/

/-- `[input[0], .., input[width - 1]]` -/
def bytesAt (input : Bytes) (width : Nat) : Except Panic Bytes :=
  if width ≤ input.length then .ok (input.take width) else .error .slice

/-- `2 * cnt`, in a number of that many bits. -/
def twice (p : Profile) (bits cnt : Nat) : Except Panic Nat :=
  if 2 * cnt < 2 ^ bits then .ok (2 * cnt)
  else match p with
    | .dev => .error .overflow
    | .release => .ok (2 * cnt % 2 ^ bits)

/-- The marker and what stands between it and the data, and the data. -/
def plus (p : Profile) (n : Nat) : Option Nat → Except Panic (Option Nat)
  | none => .ok none
  | some x => do
    let len ← addUsize p n x
    return some len.val

/-- The macro `read_len!` for a number of that width. -/
def readLen (width start : Nat) (input : Bytes) : Except Panic (Option Nat) :=
  if input.length < start then .ok none
  else do
    let input ← advance input start
    if input.length < width then return none
    else
      let bytes ← bytesAt input width
      return some (beNat bytes)

/-- The loop of the macro `read_len!` over objects. -/
def objectsLen (p : Profile) (find : Bytes → Except Panic (Option Nat)) (input : Bytes) :
    Nat → Nat → Except Panic (Option Nat)
  | 0, len => .ok (some len)
  | cnt + 1, len =>
    if input.length < len then .ok none
    else do
      let rest ← advance input len
      match ← find rest with
      | some x =>
        let len ← addUsize p len x
        objectsLen p find input cnt len.val
      | none => return none

/-- The macro `read_len!` for that many objects. -/
def readObjectsLen (p : Profile) (find : Bytes → Except Panic (Option Nat)) (cnt start : Nat)
    (input : Bytes) : Except Panic (Option Nat) :=
  if input.length < start then .ok none
  else do
    let input ← advance input start
    objectsLen p find input cnt 0

/-! ## How long an object is -/

/-- `find_msgpack_byte_len`, with a bound on the depth of its recursion. -/
def byteLen (p : Profile) (rmp : Rmp) : Nat → Bytes → Except Panic (Option Nat)
  | _, [] => .ok none
  | 0, _ => .ok none
  | depth + 1, b :: bs => do
    let input := b :: bs
    let find := byteLen p rmp depth
    match rmp.fromU8 b with
    | .null => return some 1
    | .true => return some 1
    | .false => return some 1
    | .fixPos _ => return some 1
    | .fixNeg _ => return some 1
    | .u8 => return some 2
    | .u16 => return some 3
    | .u32 => return some 5
    | .u64 => return some 9
    | .i8 => return some 2
    | .i16 => return some 3
    | .i32 => return some 5
    | .i64 => return some 9
    | .f32 => return some 5
    | .f64 => return some 9
    | .fixStr len => plus p 1 (some len)
    | .str8 => plus p 2 (← readLen 1 1 input)
    | .str16 => plus p 3 (← readLen 2 1 input)
    | .str32 => plus p 5 (← readLen 4 1 input)
    | .bin8 => plus p 2 (← readLen 1 1 input)
    | .bin16 => plus p 3 (← readLen 2 1 input)
    | .bin32 => plus p 5 (← readLen 4 1 input)
    | .fixArray cnt => plus p 1 (← readObjectsLen p find cnt 1 input)
    | .array16 =>
      match ← readLen 2 1 input with
      | none => return none
      | some cnt => plus p 3 (← readObjectsLen p find cnt 3 input)
    | .array32 =>
      match ← readLen 4 1 input with
      | none => return none
      | some cnt => plus p 5 (← readObjectsLen p find cnt 5 input)
    | .fixMap cnt => plus p 1 (← readObjectsLen p find (← twice p 8 cnt) 1 input)
    | .map16 =>
      match ← readLen 2 1 input with
      | none => return none
      | some cnt => plus p 3 (← readObjectsLen p find (← twice p 64 cnt) 3 input)
    | .map32 =>
      match ← readLen 4 1 input with
      | none => return none
      | some cnt => plus p 5 (← readObjectsLen p find (← twice p 64 cnt) 5 input)
    | .fixExt1 => return some 3
    | .fixExt2 => return some 4
    | .fixExt4 => return some 6
    | .fixExt8 => return some 10
    | .fixExt16 => return some 18
    | .ext8 => plus p 3 (← readLen 1 1 input)
    | .ext16 => plus p 4 (← readLen 2 1 input)
    | .ext32 => plus p 6 (← readLen 4 1 input)
    | .reserved => return none

/-- The length of the next object. -/
def findMsgpackByteLen (p : Profile) (rmp : Rmp) (input : Bytes) : Except Panic (Option Nat) :=
  byteLen p rmp input.length input

/-! ## Reading the parts of a packet -/

/-- The loop of `read_header_bytes` over the entries that are left, with the cursor at `pos`. -/
def skipEntries (p : Profile) (rmp : Rmp) (input : Bytes) :
    Nat → Nat → Except Panic (Except Bytes Nat)
  | 0, pos => .ok (.ok pos)
  | left + 1, pos =>
    match rmp.readStrLen (input.drop pos) with
    | none => .ok (.error input)
    | some (keyLen, took) => do
      -- the cursor is behind what has been read, which is there
      let pos ← addUsize p (pos + took) keyLen
      if input.length < pos.val then return .error input
      else
        let rest ← advance input pos.val
        match ← findMsgpackByteLen p rmp rest with
        | none => return .error rest
        | some len =>
          let pos ← addUsize p pos.val len
          if input.length < pos.val then return .error input
          else skipEntries p rmp input left pos.val

/-- Reads the header bytes, including the marker and the length. -/
def readHeaderBytes (p : Profile) (rmp : Rmp) (input : Bytes) :
    Except Panic (Except Bytes (Bytes × Bytes)) :=
  match rmp.readMapLen input with
  | none => .ok (.error input)
  | some (len, took) => do
    match ← skipEntries p rmp input len took with
    | .error rest => return .error rest
    | .ok pos =>
      if input.length < pos then return .error input
      else
        let header ← bytesAt input pos
        let rest ← advance input pos
        return .ok (header, rest)

/-! ## The bound -/

/-- More than any object announces of itself. -/
def SLACK : Nat := 2 ^ 32 + 6

theorem layout_le {m : Marker} {layout : Layout} (h : m.layout = some layout) :
    match layout with
    | .fixed n => n < 32
    | .sized width extra => width ≤ 4 ∧ extra ≤ 1
    | .items n => n < 32
    | .counted width each => width ≤ 4 ∧ each ≤ 2 := by
  cases m <;> simp only [Marker.layout, Option.some.injEq, reduceCtorEq] at h <;> subst h <;>
    simp only <;> omega

section Bound

variable {rmp : Rmp} {depth k len n : Nat} {input : Bytes} {find : Bytes → Option Nat}

theorem le_of_readLen {width start : Nat} (h : Distant.readLen width start input = some n)
    (hwidth : width ≤ 4) : n < 2 ^ 32 := by
  obtain ⟨hle, rfl⟩ := readLen_eq_some_iff.mp h
  have hlt := beNat_lt ((input.drop start).take width)
  rw [List.length_take_of_le (by rw [List.length_drop]; omega)] at hlt
  calc beNat ((input.drop start).take width) < 256 ^ width := hlt
    _ ≤ 256 ^ 4 := Nat.pow_le_pow_right (by decide) hwidth
    _ = 2 ^ 32 := by decide

/-- Only the last object can reach behind the input. -/
theorem le_of_objectsLen (hfind : ∀ bs x, find bs = some x → x ≤ bs.length + SLACK)
    (h : Distant.objectsLen find input k len = some n) (hlen : len ≤ input.length + SLACK) :
    n ≤ input.length + SLACK := by
  induction k generalizing len with
  | zero =>
      cases h
      exact hlen
  | succ k ih =>
      unfold Distant.objectsLen at h
      split_ifs at h with hin
      split at h
      · next x hx =>
          have hle := hfind _ _ hx
          rw [List.length_drop] at hle
          exact ih h (by omega)
      · cases h

theorem le_of_readObjectsLen (hfind : ∀ bs x, find bs = some x → x ≤ bs.length + SLACK)
    {start : Nat} (h : Distant.readObjectsLen find k start input = some n) :
    start + n ≤ input.length + SLACK := by
  unfold Distant.readObjectsLen at h
  split_ifs at h with hstart
  have hle := le_of_objectsLen hfind h (Nat.zero_le _)
  rw [List.length_drop] at hle
  omega

theorem le_of_byteLen (h : Distant.byteLen rmp depth input = some n) :
    n ≤ input.length + SLACK := by
  induction depth generalizing input n with
  | zero =>
      cases input with
      | nil => cases h
      | cons b bs => cases h
  | succ depth ih =>
      have hfind : ∀ bs x, Distant.byteLen rmp depth bs = some x → x ≤ bs.length + SLACK :=
        fun bs x => ih
      cases input with
      | nil => cases h
      | cons b bs =>
          rw [byteLen_cons] at h
          split at h
          · cases h
          · -- the length is fixed by the marker
            next m hlayout =>
              cases h
              have hle := layout_le hlayout
              simp only [SLACK, List.length_cons] at hle ⊢
              omega
          · -- it is read, in at most four bytes
            next width extra hlayout =>
              obtain ⟨m, hm, rfl⟩ := Option.map_eq_some_iff.mp h
              obtain ⟨hwidth, hextra⟩ := layout_le hlayout
              have hlt := le_of_readLen hm hwidth
              have hthere := (readLen_eq_some_iff.mp hm).1
              simp only [SLACK]
              omega
          · -- it is that of the objects, whose number the marker has or is read
            next m hlayout =>
              obtain ⟨x, hx, rfl⟩ := Option.map_eq_some_iff.mp h
              exact le_of_readObjectsLen hfind hx
          · next width each hlayout =>
              obtain ⟨cnt, -, h⟩ := Option.bind_eq_some_iff.mp h
              obtain ⟨x, hx, rfl⟩ := Option.map_eq_some_iff.mp h
              exact le_of_readObjectsLen hfind hx

theorem le_of_findMsgpackByteLen (h : Distant.findMsgpackByteLen rmp input = some n) :
    n ≤ input.length + SLACK := le_of_byteLen h

end Bound

/-! ## No panic and no overflow -/

section Machine

variable {p : Profile} {rmp : Rmp} {depth k len n cnt start width pos : Nat} {input : Bytes}
  {find : Bytes → Except Panic (Option Nat)} {find' : Bytes → Option Nat}

theorem advance_of_le (h : n ≤ input.length) : advance input n = .ok (input.drop n) := if_pos h

theorem plus_eq {o : Option Nat} (h : ∀ x, o = some x → n + x < 2 ^ 64) :
    plus p n o = .ok (o.map (n + ·)) := by
  cases o with
  | none => rfl
  | some x =>
      rw [plus, addUsize_of_lt p (h x rfl)]
      rfl

theorem twice_eq (p : Profile) {bits cnt : Nat} (h : 2 * cnt < 2 ^ bits) :
    twice p bits cnt = .ok (2 * cnt) := if_pos h

theorem readLen_eq (width start : Nat) (input : Bytes) :
    readLen width start input = .ok (Distant.readLen width start input) := by
  unfold readLen Distant.readLen
  split_ifs with hstart hwidth
  · rfl
  · rw [advance_of_le (by omega)]
    exact if_pos hwidth
  · have hbytes : bytesAt (input.drop start) width = .ok ((input.drop start).take width) :=
      if_pos (by omega)
    rw [advance_of_le (by omega)]
    refine (if_neg hwidth).trans ?_
    rw [hbytes]
    rfl

/-- As long as a length is in the input, the next one can be added to it. -/
theorem objectsLen_eq (hfind : ∀ bs, bs.length ≤ input.length → find bs = .ok (find' bs))
    (hbound : ∀ bs x, find' bs = some x → x ≤ bs.length + SLACK) (hinput : input.length < 2 ^ 63) :
    objectsLen p find input k len = .ok (Distant.objectsLen find' input k len) := by
  induction k generalizing len with
  | zero => rfl
  | succ k ih =>
      rw [objectsLen, Distant.objectsLen]
      split_ifs with hin
      · rfl
      · rw [advance_of_le (by omega)]
        have hnext := hfind (input.drop len) (by rw [List.length_drop]; omega)
        cases hx : find' (input.drop len) with
        | none =>
            rw [hx] at hnext
            simp only [hnext, bind, Except.bind, pure, Except.pure]
        | some x =>
            rw [hx] at hnext
            have hle := hbound _ _ hx
            rw [List.length_drop] at hle
            have hsum : len + x < 2 ^ 64 := by
              simp only [SLACK] at hle
              omega
            simp only [hnext, bind, Except.bind, addUsize_of_lt p hsum]
            exact ih

theorem readObjectsLen_eq (hfind : ∀ bs, bs.length < input.length → find bs = .ok (find' bs))
    (hbound : ∀ bs x, find' bs = some x → x ≤ bs.length + SLACK) (hinput : input.length < 2 ^ 63)
    (hstart : 0 < start) :
    readObjectsLen p find k start input = .ok (Distant.readObjectsLen find' k start input) := by
  unfold readObjectsLen Distant.readObjectsLen
  split_ifs with hlen
  · rfl
  · rw [advance_of_le (by omega)]
    refine objectsLen_eq (fun bs hbs => hfind bs ?_) hbound ?_
    · rw [List.length_drop] at hbs
      omega
    · rw [List.length_drop]
      omega

/-- The branches with a length. -/
theorem sized_eq (hwidth : width ≤ 4) (hn : n < 2 ^ 32) :
    (do plus p n (← readLen width 1 input)) =
      .ok ((Distant.readLen width 1 input).map (n + ·)) := by
  rw [readLen_eq]
  apply plus_eq
  intro x hx
  have hlt := le_of_readLen hx hwidth
  omega

/-- The branches with a number of objects. -/
theorem items_eq (hfind : ∀ bs, bs.length < input.length → find bs = .ok (find' bs))
    (hbound : ∀ bs x, find' bs = some x → x ≤ bs.length + SLACK) (hinput : input.length < 2 ^ 63)
    (hstart : 0 < start) :
    (do plus p start (← readObjectsLen p find cnt start input)) =
      .ok ((Distant.readObjectsLen find' cnt start input).map (start + ·)) := by
  rw [readObjectsLen_eq hfind hbound hinput hstart]
  apply plus_eq
  intro x hx
  have hle := le_of_readObjectsLen hbound hx
  simp only [SLACK] at hle
  omega

/-- The branches that read the number of objects first. -/
theorem counted_eq {f : Nat → Except Panic (Option Nat)} {g : Nat → Option Nat}
    (hfg : ∀ cnt, Distant.readLen width 1 input = some cnt → f cnt = .ok (g cnt)) :
    (do
      match ← readLen width 1 input with
      | none => return none
      | some cnt => f cnt) = .ok ((Distant.readLen width 1 input).bind g) := by
  rw [readLen_eq]
  cases hcnt : Distant.readLen width 1 input with
  | none => rfl
  | some cnt => exact hfg cnt hcnt

/-- The scanner is the one on natural numbers. -/
theorem byteLen_eq (hinput : input.length < 2 ^ 63) :
    byteLen p rmp depth input = .ok (Distant.byteLen rmp depth input) := by
  induction depth generalizing input with
  | zero =>
      cases input with
      | nil => rfl
      | cons b bs => rfl
  | succ depth ih =>
      cases input with
      | nil => rfl
      | cons b bs =>
          have hfind : ∀ bs' : Bytes, bs'.length < (b :: bs).length →
              byteLen p rmp depth bs' = .ok (Distant.byteLen rmp depth bs') :=
            fun bs' hbs' => ih (by omega)
          have hbound : ∀ bs x, Distant.byteLen rmp depth bs = some x → x ≤ bs.length + SLACK :=
            fun bs x => le_of_byteLen
          have hitems (cnt start : Nat) (hstart : 0 < start) :
              (do plus p start (← readObjectsLen p (byteLen p rmp depth) cnt start (b :: bs))) =
                .ok _ := items_eq hfind hbound hinput hstart
          rw [byteLen, Distant.byteLen]
          cases rmp.fromU8 b with
          | str8 => exact sized_eq (by decide) (by decide)
          | str16 => exact sized_eq (by decide) (by decide)
          | str32 => exact sized_eq (by decide) (by decide)
          | bin8 => exact sized_eq (by decide) (by decide)
          | bin16 => exact sized_eq (by decide) (by decide)
          | bin32 => exact sized_eq (by decide) (by decide)
          | ext8 => exact sized_eq (by decide) (by decide)
          | ext16 => exact sized_eq (by decide) (by decide)
          | ext32 => exact sized_eq (by decide) (by decide)
          | fixArray cnt => exact hitems cnt 1 Nat.one_pos
          | fixStr len => exact plus_eq (o := some len.val) (by rintro x ⟨⟩; omega)
          | fixMap cnt =>
              simp only [twice_eq p (show 2 * cnt.val < 2 ^ 8 by omega)]
              exact hitems (2 * cnt) 1 Nat.one_pos
          | array16 => exact counted_eq fun cnt _ => hitems cnt 3 (by decide)
          | array32 => exact counted_eq fun cnt _ => hitems cnt 5 (by decide)
          | map16 =>
              -- twice the number fits, since it was read from few bytes
              refine counted_eq fun cnt hcnt => ?_
              have hlt := le_of_readLen hcnt (by decide)
              simp only [twice_eq p (show 2 * cnt < 2 ^ 64 by omega)]
              exact hitems (2 * cnt) 3 (by decide)
          | map32 =>
              refine counted_eq fun cnt hcnt => ?_
              have hlt := le_of_readLen hcnt (by decide)
              simp only [twice_eq p (show 2 * cnt < 2 ^ 64 by omega)]
              exact hitems (2 * cnt) 5 (by decide)
          | _ => rfl

theorem findMsgpackByteLen_eq (hinput : input.length < 2 ^ 63) :
    findMsgpackByteLen p rmp input = .ok (Distant.findMsgpackByteLen rmp input) :=
  byteLen_eq hinput

/-- So is the cursor, which is never further than an entry behind the input. -/
theorem skipEntries_eq (hr : rmp.Documented) (hinput : input.length < 2 ^ 63)
    (hpos : pos ≤ input.length) :
    skipEntries p rmp input n pos = .ok (Distant.skipEntries rmp input n pos) := by
  induction n generalizing pos with
  | zero => rfl
  | succ n ih =>
      rw [skipEntries, Distant.skipEntries]
      cases hkey : rmp.readStrLen (input.drop pos) with
      | none => rfl
      | some key =>
          obtain ⟨keyLen, took⟩ := key
          -- the header of the key is there, and what it announces is below `2 ^ 32`
          obtain ⟨head, rest, hhead, rfl, hdrop⟩ := (hr.readStrLen _ _ _).mp hkey
          have hkeyLen := hhead.lt
          have hthere : pos + head.length ≤ input.length := by
            have hlen := congrArg List.length hdrop
            rw [List.length_drop, List.length_append] at hlen
            omega
          have hsum : pos + head.length + keyLen < 2 ^ 64 := by omega
          simp only [addUsize_of_lt p hsum, bind, Except.bind]
          split_ifs with hin
          · rfl
          · rw [advance_of_le (by omega)]
            simp only
            rw [findMsgpackByteLen_eq (by rw [List.length_drop]; omega)]
            cases hlen : Distant.findMsgpackByteLen rmp (input.drop (pos + head.length + keyLen)) with
            | none => rfl
            | some len =>
                have hle := le_of_findMsgpackByteLen hlen
                rw [List.length_drop] at hle
                have hsum' : pos + head.length + keyLen + len < 2 ^ 64 := by
                  simp only [SLACK] at hle
                  omega
                simp only [addUsize_of_lt p hsum']
                split_ifs with hin'
                · rfl
                · exact ih (by omega)

theorem readHeaderBytes_eq (hr : rmp.Documented) (hinput : input.length < 2 ^ 63) :
    readHeaderBytes p rmp input = .ok (Distant.readHeaderBytes rmp input) := by
  unfold readHeaderBytes Distant.readHeaderBytes
  cases hmap : rmp.readMapLen input with
  | none => rfl
  | some map =>
      obtain ⟨len, took⟩ := map
      obtain ⟨head, rest, -, rfl, rfl⟩ := (hr.readMapLen _ _ _).mp hmap
      simp only
      rw [skipEntries_eq hr hinput (by simp)]
      simp only [bind, Except.bind]
      cases Distant.skipEntries rmp (head ++ rest) len head.length with
      | error e => rfl
      | ok pos =>
          simp only
          split_ifs with hpos
          · rfl
          · rw [advance_of_le (by omega)]
            have hheader : bytesAt (head ++ rest) pos = .ok ((head ++ rest).take pos) :=
              if_pos (by omega)
            rw [hheader]
            rfl

/-- What is returned when there is no header is what is left of the input. -/
theorem suffix_of_skipEntries {e : Bytes} (h : Distant.skipEntries rmp input n pos = .error e) :
    e <:+ input := by
  induction n generalizing pos with
  | zero => cases h
  | succ n ih =>
      unfold Distant.skipEntries at h
      split at h
      · cases h
        exact List.suffix_rfl
      · simp only at h
        split_ifs at h
        · cases h
          exact List.suffix_rfl
        · split at h
          · cases h
            exact List.drop_suffix _ _
          · split_ifs at h
            · cases h
              exact List.suffix_rfl
            · exact ih h

theorem suffix_of_readHeaderBytes {e : Bytes} (h : Distant.readHeaderBytes rmp input = .error e) :
    e <:+ input := by
  unfold Distant.readHeaderBytes at h
  split at h
  · cases h
    exact List.suffix_rfl
  · split at h
    · next hskip =>
        cases h
        exact suffix_of_skipEntries hskip
    · split_ifs at h
      cases h
      exact List.suffix_rfl

end Machine

/-! ## How deep the recursion is -/

/-- Arrays of one item in each other, with nothing in the innermost one. -/
def nested (n : Nat) : Bytes :=
  List.replicate n (Marker.fixArray ⟨1, by decide⟩).toU8 ++ [Marker.null.toU8]

theorem objects_nested (n : Nat) : Objects 1 (nested n) := by
  induction n with
  | zero => exact @Objects.fixed .null 0 [] [] rfl .nil
  | succ n ih =>
      have h : Objects 1 ((Marker.fixArray 1).toU8 :: (nested n ++ [])) := .items rfl ih .nil
      rwa [List.append_nil] at h

/-- The recursion is as deep as the arrays are: with less depth, the length is not found. -/
theorem depth_nested {rmp : Rmp} (hr : rmp.Documented) (n : Nat) :
    Distant.findMsgpackByteLen rmp (nested n) = some (n + 1) ∧
      ∀ depth, depth ≤ n → Distant.byteLen rmp depth (nested n) = none := by
  constructor
  · have h := findMsgpackByteLen_object hr (objects_nested n) []
    rw [List.append_nil] at h
    rw [h, nested, List.length_append, List.length_replicate, List.length_singleton]
  · induction n with
    | zero =>
        intro depth hdepth
        rw [Nat.le_zero.mp hdepth]
        rfl
    | succ n ih =>
        intro depth hdepth
        cases depth with
        | zero => rfl
        | succ depth =>
            have hnone := ih depth (by omega)
            have hmarker : rmp.fromU8 (Marker.fixArray 1).toU8 = .fixArray 1 :=
              (hr.fromU8 _ _).mpr rfl
            have hcons : nested (n + 1) = (Marker.fixArray 1).toU8 :: nested n := rfl
            rw [hcons, byteLen_cons, hmarker]
            simp only [Marker.layout, Distant.readObjectsLen]
            rw [if_neg (by simp), List.drop_one, List.tail_cons]
            simp [Distant.objectsLen, hnone]

/-! ## What is scanned -/

end Distant.Scanner
