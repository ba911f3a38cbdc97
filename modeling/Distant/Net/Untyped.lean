import Distant.Net.Packet
import Distant.Protocol

/-!
# Untyped packets

A packet is a MessagePack map of strings, with a header in front of them and the payload at the end.
An untyped packet is written field by field, and read without copying: the header and the payload
stay the bytes that they were. `fromSlice_eq_ok_iff` says for requests and for responses which bytes
are read as which packet, and `packets_relayed` that reading undoes writing, also after one of the
ids has been replaced.
-/

namespace Distant

open Msgpack

def headerIsEmpty (header : Bytes) : Bool := header.isEmpty

/-- The header of a packet that has one, and nothing otherwise. -/
def readHeader {E : Type} (rmp : Rmp) (invalidKey invalid : E) (hasHeader : Bool) (input : Bytes) :
    Except E (Bytes × Bytes) :=
  if hasHeader then do
    let (_, input) ← (readKeyEq rmp input "header").mapError fun _ => invalidKey
    (readHeaderBytes rmp input).mapError fun _ => invalid
  else .ok ([], input)

/-- A field that is a string. -/
def readField {E : Type} (rmp : Rmp) (key : String) (invalidKey invalid : E) (input : Bytes) :
    Except E (String × Bytes) := do
  let (_, input) ← (readKeyEq rmp input key).mapError fun _ => invalidKey
  (readStrBytes rmp input).mapError fun _ => invalid

/-! ## Requests -/

inductive UntypedRequestParseError where
  | wrongType
  | invalidHeaderKey
  | invalidHeader
  | invalidIdKey
  | invalidId
  | invalidPayloadKey
  deriving DecidableEq, Repr

namespace UntypedRequest

def toBytes (rmp : Rmp) (x : UntypedRequest) : Bytes :=
  let hasHeader := !headerIsEmpty x.header
  (if hasHeader then rmp.writeMapLen 3 else rmp.writeMapLen 2) ++
    ((if hasHeader then rmp.writeStr "header" ++ x.header else []) ++
      (rmp.writeStr "id" ++ (rmp.writeStr x.id ++ (rmp.writeStr "payload" ++ x.payload))))

/-- Whether the map has an entry for a header. -/
def hasHeader (rmp : Rmp) (b : UInt8) : Except UntypedRequestParseError Bool :=
  match rmp.fromU8 b with
  | .fixMap 2 => .ok false
  | .fixMap 3 => .ok true
  | _ => .error .wrongType

def fromSlice (rmp : Rmp) : Bytes → Except UntypedRequestParseError UntypedRequest
  | [] => .error .wrongType
  | b :: input => do
    let hasHeader ← hasHeader rmp b
    let (header, input) ← readHeader rmp .invalidHeaderKey .invalidHeader hasHeader input
    let (id, input) ← readField rmp "id" .invalidIdKey .invalidId input
    let (_, input) ← (readKeyEq rmp input "payload").mapError fun _ => .invalidPayloadKey
    return ⟨header, id, input⟩

end UntypedRequest

/-! ## Responses -/

inductive UntypedResponseParseError where
  | wrongType
  | invalidHeaderKey
  | invalidHeader
  | invalidIdKey
  | invalidId
  | invalidOriginIdKey
  | invalidOriginId
  | invalidPayloadKey
  deriving DecidableEq, Repr

namespace UntypedResponse

def setId (x : UntypedResponse) (id : String) : UntypedResponse := { x with id := id }

def toBytes (rmp : Rmp) (x : UntypedResponse) : Bytes :=
  let hasHeader := !headerIsEmpty x.header
  (if hasHeader then rmp.writeMapLen 4 else rmp.writeMapLen 3) ++
    ((if hasHeader then rmp.writeStr "header" ++ x.header else []) ++
      (rmp.writeStr "id" ++ (rmp.writeStr x.id ++
        (rmp.writeStr "origin_id" ++ (rmp.writeStr x.originId ++
          (rmp.writeStr "payload" ++ x.payload))))))

/-- Whether the map has an entry for a header. -/
def hasHeader (rmp : Rmp) (b : UInt8) : Except UntypedResponseParseError Bool :=
  match rmp.fromU8 b with
  | .fixMap 3 => .ok false
  | .fixMap 4 => .ok true
  | _ => .error .wrongType

def fromSlice (rmp : Rmp) : Bytes → Except UntypedResponseParseError UntypedResponse
  | [] => .error .wrongType
  | b :: input => do
    let hasHeader ← hasHeader rmp b
    let (header, input) ← readHeader rmp .invalidHeaderKey .invalidHeader hasHeader input
    let (id, input) ← readField rmp "id" .invalidIdKey .invalidId input
    let (originId, input) ← readField rmp "origin_id" .invalidOriginIdKey .invalidOriginId input
    let (_, input) ← (readKeyEq rmp input "payload").mapError fun _ => .invalidPayloadKey
    return ⟨header, id, originId, input⟩

end UntypedResponse

/-! ## What is read -/

section Parts

variable {rmp : Rmp} {input header rest : Bytes} {s key : String}

/-- A key and then a string. -/
def Field (key s : String) (bs : Bytes) : Prop := ∃ k v, Str key k ∧ Str s v ∧ bs = k ++ v

theorem readField_eq_ok_iff {E : Type} {invalidKey invalid : E} (hr : rmp.Documented) :
    readField rmp key invalidKey invalid input = .ok (s, rest) ↔
      ∃ field, Field key s field ∧ input = field ++ rest := by
  constructor
  · intro h
    obtain ⟨⟨_, after⟩, hkey, hvalue⟩ := bind_eq_ok_iff.mp h
    obtain ⟨k, hk, rfl⟩ := (readKeyEq_eq_ok_iff hr).mp (mapError_eq_ok_iff.mp hkey)
    obtain ⟨v, hv, rfl⟩ := (readStrBytes_eq_ok_iff hr).mp (mapError_eq_ok_iff.mp hvalue)
    exact ⟨k ++ v, ⟨k, v, hk, hv, rfl⟩, (List.append_assoc _ _ _).symm⟩
  · rintro ⟨_, ⟨k, v, hk, hv, rfl⟩, rfl⟩
    have hkey := (readKeyEq_eq_ok_iff hr).mpr ⟨k, hk, List.append_assoc k v rest⟩
    have hvalue : readStrBytes rmp (v ++ rest) = .ok (s, rest) :=
      (readStrBytes_eq_ok_iff hr).mpr ⟨v, hv, rfl⟩
    exact bind_eq_ok_iff.mpr ⟨((), v ++ rest), mapError_eq_ok_iff.mpr hkey,
      mapError_eq_ok_iff.mpr hvalue⟩

/-- The field of the header, if there is one. -/
inductive HeaderField : Bool → Bytes → Bytes → Prop
  | absent : HeaderField false [] []
  | present {k header : Bytes} : Str "header" k → StringMap header →
      HeaderField true header (k ++ header)

theorem readHeader_eq_ok_iff {E : Type} {invalidKey invalid : E} {hasHeader : Bool}
    (hr : rmp.Documented) :
    readHeader rmp invalidKey invalid hasHeader input = .ok (header, rest) ↔
      ∃ field, HeaderField hasHeader header field ∧ input = field ++ rest := by
  cases hasHeader with
  | false =>
      constructor
      · rintro ⟨⟩
        exact ⟨[], .absent, rfl⟩
      · rintro ⟨_, ⟨⟩, rfl⟩
        rfl
  | true =>
      constructor
      · intro h
        obtain ⟨⟨_, after⟩, hkey, hheader⟩ := bind_eq_ok_iff.mp h
        obtain ⟨k, hk, rfl⟩ := (readKeyEq_eq_ok_iff hr).mp (mapError_eq_ok_iff.mp hkey)
        obtain ⟨hmap, rfl⟩ :=
          (readHeaderBytes_eq_ok_iff hr).mp (mapError_eq_ok_iff.mp hheader)
        exact ⟨k ++ header, .present hk hmap, (List.append_assoc _ _ _).symm⟩
      · rintro ⟨_, hfield, rfl⟩
        cases hfield with
        | present hk hmap =>
            have hkey := (readKeyEq_eq_ok_iff hr).mpr ⟨_, hk, List.append_assoc _ header rest⟩
            have hheader : readHeaderBytes rmp (header ++ rest) = .ok (header, rest) :=
              (readHeaderBytes_eq_ok_iff hr).mpr ⟨hmap, rfl⟩
            exact bind_eq_ok_iff.mpr ⟨((), header ++ rest), mapError_eq_ok_iff.mpr hkey,
              mapError_eq_ok_iff.mpr hheader⟩

end Parts

/-! ## Which bytes are which packet -/

/-- A header that a packet can have. -/
def IsHeader (header : Bytes) : Prop := header = [] ∨ StringMap header

/-- The bytes are those of the request: a map of three or of two entries, its fields in their order
and nothing behind the payload. -/
def UntypedRequest.Spells (x : UntypedRequest) (bs : Bytes) : Prop :=
  ∃ hasHeader header id payload, HeaderField hasHeader x.header header ∧ Field "id" x.id id ∧
    Str "payload" payload ∧
    bs = (Marker.fixMap (if hasHeader then 3 else 2)).toU8 ::
      (header ++ (id ++ (payload ++ x.payload)))

def UntypedResponse.Spells (x : UntypedResponse) (bs : Bytes) : Prop :=
  ∃ hasHeader header id originId payload, HeaderField hasHeader x.header header ∧
    Field "id" x.id id ∧ Field "origin_id" x.originId originId ∧ Str "payload" payload ∧
    bs = (Marker.fixMap (if hasHeader then 4 else 3)).toU8 ::
      (header ++ (id ++ (originId ++ (payload ++ x.payload))))

section Packets

variable {rmp : Rmp}

theorem UntypedRequest.fromSlice_eq_ok_iff (hr : rmp.Documented) {bs : Bytes} {x : UntypedRequest} :
    fromSlice rmp bs = .ok x ↔ x.Spells bs := by
  constructor
  · intro h
    cases bs with
    | nil => cases h
    | cons b input =>
        obtain ⟨withHeader, hmarker, h⟩ := bind_eq_ok_iff.mp h
        obtain ⟨⟨header, _⟩, hheader, h⟩ := bind_eq_ok_iff.mp h
        obtain ⟨⟨id, _⟩, hid, h⟩ := bind_eq_ok_iff.mp h
        obtain ⟨⟨_, payload⟩, hpayload, h⟩ := bind_eq_ok_iff.mp h
        cases h
        obtain ⟨k, hk, rfl⟩ := (readHeader_eq_ok_iff hr).mp hheader
        obtain ⟨field, hfield, rfl⟩ := (readField_eq_ok_iff hr).mp hid
        obtain ⟨key, hkey, rfl⟩ := (readKeyEq_eq_ok_iff hr).mp (mapError_eq_ok_iff.mp hpayload)
        refine ⟨withHeader, k, field, key, hk, hfield, hkey, ?_⟩
        congr 1
        refine ((hr.fromU8 _ _).mp ?_).symm
        unfold hasHeader at hmarker
        split at hmarker <;> cases hmarker <;> assumption
  · rintro ⟨withHeader, k, field, key, hk, hfield, hkey, rfl⟩
    have hmarker := (hr.fromU8 _ (.fixMap (if withHeader then 3 else 2))).mpr rfl
    refine bind_eq_ok_iff.mpr ⟨withHeader, ?_, ?_⟩
    · unfold hasHeader
      rw [hmarker]
      cases withHeader <;> rfl
    refine bind_eq_ok_iff.mpr ⟨(x.header, _), (readHeader_eq_ok_iff hr).mpr ⟨k, hk, rfl⟩, ?_⟩
    refine bind_eq_ok_iff.mpr ⟨(x.id, _), (readField_eq_ok_iff hr).mpr ⟨field, hfield, rfl⟩, ?_⟩
    exact bind_eq_ok_iff.mpr ⟨((), x.payload),
      mapError_eq_ok_iff.mpr ((readKeyEq_eq_ok_iff hr).mpr ⟨key, hkey, rfl⟩), rfl⟩

theorem UntypedResponse.fromSlice_eq_ok_iff (hr : rmp.Documented) {bs : Bytes}
    {x : UntypedResponse} : fromSlice rmp bs = .ok x ↔ x.Spells bs := by
  constructor
  · intro h
    cases bs with
    | nil => cases h
    | cons b input =>
        obtain ⟨withHeader, hmarker, h⟩ := bind_eq_ok_iff.mp h
        obtain ⟨⟨header, _⟩, hheader, h⟩ := bind_eq_ok_iff.mp h
        obtain ⟨⟨id, _⟩, hid, h⟩ := bind_eq_ok_iff.mp h
        obtain ⟨⟨originId, _⟩, horigin, h⟩ := bind_eq_ok_iff.mp h
        obtain ⟨⟨_, payload⟩, hpayload, h⟩ := bind_eq_ok_iff.mp h
        cases h
        obtain ⟨k, hk, rfl⟩ := (readHeader_eq_ok_iff hr).mp hheader
        obtain ⟨field, hfield, rfl⟩ := (readField_eq_ok_iff hr).mp hid
        obtain ⟨field', hfield', rfl⟩ := (readField_eq_ok_iff hr).mp horigin
        obtain ⟨key, hkey, rfl⟩ := (readKeyEq_eq_ok_iff hr).mp (mapError_eq_ok_iff.mp hpayload)
        refine ⟨withHeader, k, field, field', key, hk, hfield, hfield', hkey, ?_⟩
        congr 1
        refine ((hr.fromU8 _ _).mp ?_).symm
        unfold hasHeader at hmarker
        split at hmarker <;> cases hmarker <;> assumption
  · rintro ⟨withHeader, k, field, field', key, hk, hfield, hfield', hkey, rfl⟩
    have hmarker := (hr.fromU8 _ (.fixMap (if withHeader then 4 else 3))).mpr rfl
    refine bind_eq_ok_iff.mpr ⟨withHeader, ?_, ?_⟩
    · unfold hasHeader
      rw [hmarker]
      cases withHeader <;> rfl
    refine bind_eq_ok_iff.mpr ⟨(x.header, _), (readHeader_eq_ok_iff hr).mpr ⟨k, hk, rfl⟩, ?_⟩
    refine bind_eq_ok_iff.mpr ⟨(x.id, _), (readField_eq_ok_iff hr).mpr ⟨field, hfield, rfl⟩, ?_⟩
    refine bind_eq_ok_iff.mpr
      ⟨(x.originId, _), (readField_eq_ok_iff hr).mpr ⟨field', hfield', rfl⟩, ?_⟩
    exact bind_eq_ok_iff.mpr ⟨((), x.payload),
      mapError_eq_ok_iff.mpr ((readKeyEq_eq_ok_iff hr).mpr ⟨key, hkey, rfl⟩), rfl⟩

/-! ## What is written -/

theorem Rmp.Inverse.str (hr : rmp.Documented) {s : String} (h : rmp.Inverse s) :
    Str s (rmp.writeStr s) := by
  obtain ⟨str, hstr, heq⟩ := (hr.readStrFromSlice _ _ _).mp (h [])
  rw [List.append_nil, List.append_nil] at heq
  rwa [heq]

theorem Rmp.Documented.inverse (hr : rmp.Documented) {s : String}
    (hs : (utf8Bytes s).length < 2 ^ 32) : rmp.Inverse s :=
  fun _ => (hr.readStrFromSlice _ _ _).mpr ⟨_, hr.writeStr s hs, rfl⟩

/-- A string that was read is written in such a way that it is read again. -/
theorem Str.inverse (hr : rmp.Documented) {s : String} {str : Bytes} (h : Str s str) :
    rmp.Inverse s := by
  obtain ⟨head, hhead, -⟩ := h
  exact hr.inverse hhead.lt

theorem headerField_written (hr : rmp.Documented) {header : Bytes} (h : IsHeader header) :
    HeaderField (!headerIsEmpty header) header
      (if !headerIsEmpty header then rmp.writeStr "header" ++ header else []) := by
  by_cases hempty : header = []
  · subst hempty
    exact .absent
  · have hfalse : headerIsEmpty header = false := by
      cases header with
      | nil => exact absurd rfl hempty
      | cons b bs => rfl
    rw [hfalse]
    exact .present (hr.writeStr _ (by decide)) (h.resolve_left hempty)

/-- The marker in front of a packet that is written. -/
theorem marker_written (hr : rmp.Documented) {hasHeader : Bool} {m n : Fin 16} :
    (if hasHeader then rmp.writeMapLen m else rmp.writeMapLen n) =
      [(Marker.fixMap (if hasHeader then m else n)).toU8] := by
  cases hasHeader with
  | true => exact hr.writeMapLen m
  | false => exact hr.writeMapLen n

theorem Rmp.Inverse.field (hr : rmp.Documented) {key s : String} (hkey : rmp.Inverse key)
    (h : rmp.Inverse s) : Field key s (rmp.writeStr key ++ rmp.writeStr s) :=
  ⟨_, _, hkey.str hr, h.str hr, rfl⟩

theorem UntypedRequest.spells_toBytes (hr : rmp.Documented) {x : UntypedRequest}
    (hheader : IsHeader x.header) (hid : rmp.Inverse x.id) : x.Spells (x.toBytes rmp) := by
  have hkey : rmp.Inverse "id" := hr.inverse (by decide)
  have hpayload : rmp.Inverse "payload" := hr.inverse (by decide)
  refine ⟨_, _, _, _, headerField_written hr hheader, hkey.field hr hid, hpayload.str hr, ?_⟩
  have hmarker : (if !headerIsEmpty x.header then rmp.writeMapLen 3 else rmp.writeMapLen 2) =
      [(Marker.fixMap (if !headerIsEmpty x.header then 3 else 2)).toU8] :=
    marker_written (m := 3) (n := 2) hr
  simp only [toBytes, hmarker, List.append_assoc, List.singleton_append]

theorem UntypedResponse.spells_toBytes (hr : rmp.Documented) {x : UntypedResponse}
    (hheader : IsHeader x.header) (hid : rmp.Inverse x.id) (horigin : rmp.Inverse x.originId) :
    x.Spells (x.toBytes rmp) := by
  have hkey : rmp.Inverse "id" := hr.inverse (by decide)
  have hkey' : rmp.Inverse "origin_id" := hr.inverse (by decide)
  have hpayload : rmp.Inverse "payload" := hr.inverse (by decide)
  refine ⟨_, _, _, _, _, headerField_written hr hheader, hkey.field hr hid, hkey'.field hr horigin,
    hpayload.str hr, ?_⟩
  have hmarker : (if !headerIsEmpty x.header then rmp.writeMapLen 4 else rmp.writeMapLen 3) =
      [(Marker.fixMap (if !headerIsEmpty x.header then 4 else 3)).toU8] :=
    marker_written (m := 4) (n := 3) hr
  simp only [toBytes, hmarker, List.append_assoc, List.singleton_append]

theorem HeaderField.isHeader {hasHeader : Bool} {header field : Bytes}
    (h : HeaderField hasHeader header field) : IsHeader header := by
  cases h with
  | absent => exact .inl rfl
  | present _ hmap => exact .inr hmap

theorem Field.inverse (hr : rmp.Documented) {key s : String} {bs : Bytes} (h : Field key s bs) :
    rmp.Inverse s := by
  obtain ⟨_, _, -, hv, -⟩ := h
  exact hv.inverse hr

/-- The header and the id of a request that was read are such that it is read again. -/
theorem UntypedRequest.valid_of_fromSlice (hr : rmp.Documented) {bs : Bytes} {x : UntypedRequest}
    (h : fromSlice rmp bs = .ok x) : IsHeader x.header ∧ rmp.Inverse x.id := by
  obtain ⟨_, _, _, _, hheader, hid, -, -⟩ := (fromSlice_eq_ok_iff hr).mp h
  exact ⟨hheader.isHeader, hid.inverse hr⟩

theorem UntypedResponse.valid_of_fromSlice (hr : rmp.Documented) {bs : Bytes} {x : UntypedResponse}
    (h : fromSlice rmp bs = .ok x) :
    IsHeader x.header ∧ rmp.Inverse x.id ∧ rmp.Inverse x.originId := by
  obtain ⟨_, _, _, _, _, hheader, hid, horigin, -, -⟩ := (fromSlice_eq_ok_iff hr).mp h
  exact ⟨hheader.isHeader, hid.inverse hr, horigin.inverse hr⟩

/-! ## Relaying -/

/-- A packet can be relayed under another id: what is written then differs from what it was in that
string only, is read as the packet with that id, and with its own id put back as the packet
itself. -/
structure Relays {P E : Type} (rmp : Rmp) (toBytes : P → Bytes) (fromSlice : Bytes → Except E P)
    (get : P → String) (set : P → String → P) (x : P) : Prop where
  bytes : ∃ before after, toBytes x = before ++ rmp.writeStr (get x) ++ after ∧
    ∀ id, toBytes (set x id) = before ++ rmp.writeStr id ++ after
  replaced : ∀ id, rmp.Inverse id → fromSlice (toBytes (set x id)) = .ok (set x id)
  restored : ∀ id y, rmp.Inverse id → fromSlice (toBytes (set x id)) = .ok y →
    fromSlice (toBytes (set y (get x))) = .ok x

/-- Setting the id back is enough where setting it keeps the packet readable. -/
theorem Relays.of_set {P E : Type} {toBytes : P → Bytes} {fromSlice : Bytes → Except E P}
    {get : P → String} {set : P → String → P} {x : P}
    (hbytes : ∃ before after, ∀ id, toBytes (set x id) = before ++ rmp.writeStr id ++ after)
    (hget : ∀ id, set (set x id) (get x) = x) (hself : set x (get x) = x)
    (hset : ∀ id, rmp.Inverse id → fromSlice (toBytes (set x id)) = .ok (set x id))
    (hx : fromSlice (toBytes x) = .ok x) : Relays rmp toBytes fromSlice get set x where
  bytes := by
    obtain ⟨before, after, h⟩ := hbytes
    have hown := h (get x)
    rw [hself] at hown
    exact ⟨before, after, hown, h⟩
  replaced := hset
  restored := by
    intro id y hid hy
    rw [hset id hid] at hy
    cases hy
    rw [hget]
    exact hx

theorem UntypedRequest.relays_id (hr : rmp.Documented) {x : UntypedRequest}
    (hheader : IsHeader x.header) (hid : rmp.Inverse x.id) :
    Relays rmp (toBytes rmp) (fromSlice rmp) UntypedRequest.id setId x := by
  refine .of_set ?_ (fun _ => rfl) rfl
    (fun id h => (fromSlice_eq_ok_iff hr).mpr (spells_toBytes hr hheader h))
    ((fromSlice_eq_ok_iff hr).mpr (spells_toBytes hr hheader hid))
  refine ⟨(if !headerIsEmpty x.header then rmp.writeMapLen 3 else rmp.writeMapLen 2) ++
    (if !headerIsEmpty x.header then rmp.writeStr "header" ++ x.header else []) ++
    rmp.writeStr "id", rmp.writeStr "payload" ++ x.payload, fun id => ?_⟩
  simp only [toBytes, setId, List.append_assoc]
  rfl

theorem UntypedResponse.relays_id (hr : rmp.Documented) {x : UntypedResponse}
    (hheader : IsHeader x.header) (hid : rmp.Inverse x.id) (horigin : rmp.Inverse x.originId) :
    Relays rmp (toBytes rmp) (fromSlice rmp) UntypedResponse.id setId x := by
  refine .of_set ?_ (fun _ => rfl) rfl
    (fun id h => (fromSlice_eq_ok_iff hr).mpr (spells_toBytes hr hheader h horigin))
    ((fromSlice_eq_ok_iff hr).mpr (spells_toBytes hr hheader hid horigin))
  refine ⟨(if !headerIsEmpty x.header then rmp.writeMapLen 4 else rmp.writeMapLen 3) ++
    (if !headerIsEmpty x.header then rmp.writeStr "header" ++ x.header else []) ++
    rmp.writeStr "id", rmp.writeStr "origin_id" ++ rmp.writeStr x.originId ++
    rmp.writeStr "payload" ++ x.payload, fun id => ?_⟩
  simp only [toBytes, setId, List.append_assoc]
  rfl

theorem UntypedResponse.relays_originId (hr : rmp.Documented) {x : UntypedResponse}
    (hheader : IsHeader x.header) (hid : rmp.Inverse x.id) (horigin : rmp.Inverse x.originId) :
    Relays rmp (toBytes rmp) (fromSlice rmp) originId setOriginId x := by
  refine .of_set ?_ (fun _ => rfl) rfl
    (fun id h => (fromSlice_eq_ok_iff hr).mpr (spells_toBytes hr hheader hid h))
    ((fromSlice_eq_ok_iff hr).mpr (spells_toBytes hr hheader hid horigin))
  refine ⟨(if !headerIsEmpty x.header then rmp.writeMapLen 4 else rmp.writeMapLen 3) ++
    (if !headerIsEmpty x.header then rmp.writeStr "header" ++ x.header else []) ++
    rmp.writeStr "id" ++ rmp.writeStr x.id ++ rmp.writeStr "origin_id",
    rmp.writeStr "payload" ++ x.payload, fun id => ?_⟩
  simp only [toBytes, setOriginId, List.append_assoc]
  rfl

/-- A packet with any header, ids and payload is read as it was written, and one that was read can
be relayed under other ids. -/
theorem packets_relayed (rmp : Rmp) (hr : rmp.Documented) :
    (∀ x : UntypedRequest, IsHeader x.header → rmp.Inverse x.id →
      UntypedRequest.fromSlice rmp (x.toBytes rmp) = .ok x) ∧
    (∀ x : UntypedResponse, IsHeader x.header → rmp.Inverse x.id → rmp.Inverse x.originId →
      UntypedResponse.fromSlice rmp (x.toBytes rmp) = .ok x) ∧
    (∀ bs x, UntypedRequest.fromSlice rmp bs = .ok x →
      Relays rmp (UntypedRequest.toBytes rmp) (UntypedRequest.fromSlice rmp) UntypedRequest.id
        UntypedRequest.setId x) ∧
    (∀ bs x, UntypedResponse.fromSlice rmp bs = .ok x →
      Relays rmp (UntypedResponse.toBytes rmp) (UntypedResponse.fromSlice rmp) UntypedResponse.id
        UntypedResponse.setId x ∧
      Relays rmp (UntypedResponse.toBytes rmp) (UntypedResponse.fromSlice rmp)
        UntypedResponse.originId UntypedResponse.setOriginId x) := by
  refine ⟨fun x hheader hid => ?_, fun x hheader hid horigin => ?_, fun bs x hx => ?_,
    fun bs x hx => ?_⟩
  · have hspells := UntypedRequest.spells_toBytes hr hheader hid
    exact (UntypedRequest.fromSlice_eq_ok_iff hr).mpr hspells
  · have hspells := UntypedResponse.spells_toBytes hr hheader hid horigin
    exact (UntypedResponse.fromSlice_eq_ok_iff hr).mpr hspells
  · obtain ⟨hheader, hid⟩ := UntypedRequest.valid_of_fromSlice hr hx
    exact UntypedRequest.relays_id hr hheader hid
  · obtain ⟨hheader, hid, horigin⟩ := UntypedResponse.valid_of_fromSlice hr hx
    exact ⟨UntypedResponse.relays_id hr hheader hid horigin,
      UntypedResponse.relays_originId hr hheader hid horigin⟩

end Packets

/-! ## An implementation -/

namespace Relaying

/-- The markers from `0xc0` to `0xdf`. -/
def named : List Marker :=
  [.null, .reserved, .false, .true, .bin8, .bin16, .bin32, .ext8, .ext16, .ext32, .f32, .f64, .u8,
    .u16, .u32, .u64, .i8, .i16, .i32, .i64, .fixExt1, .fixExt2, .fixExt4, .fixExt8, .fixExt16,
    .str8, .str16, .str32, .array16, .array32, .map16, .map32]

def fromU8 (b : UInt8) : Marker :=
  let n := b.toNat
  if n < 0x80 then .fixPos (.ofNat 128 n)
  else if n < 0x90 then .fixMap (.ofNat 16 n)
  else if n < 0xa0 then .fixArray (.ofNat 16 n)
  else if n < 0xc0 then .fixStr (.ofNat 32 n)
  else if n < 0xe0 then named.getD (n - 0xc0) .reserved
  else .fixNeg (.ofNat 32 n)

theorem fromU8_eq_iff (b : UInt8) (m : Marker) : fromU8 b = m ↔ m.toU8 = b := by
  constructor
  · rintro rfl
    have hall : ∀ n : Fin 256, (fromU8 (.ofNat n)).toU8 = .ofNat n := by decide +kernel
    have hb := hall ⟨b.toNat, b.toNat_lt⟩
    rwa [UInt8.ofNat_toNat] at hb
  · rintro rfl
    cases m with
    | fixPos value => revert value; decide +kernel
    | fixNeg value => revert value; decide +kernel
    | fixMap entries => revert entries; decide +kernel
    | fixArray items => revert items; decide +kernel
    | fixStr len => revert len; decide +kernel
    | _ => decide +kernel

def readHead (fix width : Marker → Option Nat) : Bytes → Option (Nat × Nat)
  | [] => none
  | b :: rest =>
    match fix (fromU8 b) with
    | some n => some (n, 1)
    | none =>
      match width (fromU8 b) with
      | some w => if rest.length < w then none else some (beNat (rest.take w), 1 + w)
      | none => none

theorem readHead_eq_some_iff {fix width : Marker → Option Nat}
    (hone : ∀ m w, width m = some w → fix m = none) (bs : Bytes) (n took : Nat) :
    readHead fix width bs = some (n, took) ↔
      ∃ head rest, Head fix width n head ∧ head.length = took ∧ bs = head ++ rest := by
  constructor
  · intro h
    cases bs with
    | nil => cases h
    | cons b rest =>
        have hb : (fromU8 b).toU8 = b := (fromU8_eq_iff b _).mp rfl
        rw [readHead] at h
        cases hfix : fix (fromU8 b) with
        | some m =>
            rw [hfix] at h
            cases h
            exact ⟨[(fromU8 b).toU8], rest, .fix hfix, rfl, by rw [hb]; rfl⟩
        | none =>
            cases hwidth : width (fromU8 b) with
            | none =>
                rw [hfix, hwidth] at h
                cases h
            | some w =>
                simp only [hfix, hwidth] at h
                split at h
                · cases h
                · next hle =>
                    cases h
                    have hlen : (rest.take w).length = w := List.length_take_of_le (by omega)
                    have hbytes := beBytes_beNat (rest.take w)
                    have hlt := beNat_lt (rest.take w)
                    rw [hlen] at hbytes hlt
                    refine ⟨_, rest.drop w, .sized hwidth hlt, ?_, ?_⟩
                    · simp [Nat.add_comm]
                    · rw [hbytes, hb, List.cons_append, List.take_append_drop]
  · rintro ⟨head, rest, hhead, rfl, rfl⟩
    cases hhead with
    | @fix m n hfix =>
        have hm : fromU8 m.toU8 = m := (fromU8_eq_iff _ m).mpr rfl
        rw [List.singleton_append, readHead, hm, hfix]
        rfl
    | @sized m w n hwidth hn =>
        have hm : fromU8 m.toU8 = m := (fromU8_eq_iff _ m).mpr rfl
        rw [List.cons_append, readHead, hm, hone m w hwidth, hwidth]
        simp only [List.length_cons, length_beBytes]
        rw [if_neg (by simp), List.take_left' (length_beBytes _ _), beNat_beBytes hn, Nat.add_comm]

def strHead (len : Nat) : Bytes :=
  if len < 32 then [(Marker.fixStr (.ofNat 32 len)).toU8]
  else if len < 256 then Marker.str8.toU8 :: beBytes 1 len
  else if len < 65536 then Marker.str16.toU8 :: beBytes 2 len
  else Marker.str32.toU8 :: beBytes 4 len

theorem strHead_spec {len : Nat} (h : len < 2 ^ 32) : StrHead len (strHead len) := by
  unfold strHead
  split
  · next hlt =>
      refine .fix ?_
      show some (len % 32) = some len
      rw [Nat.mod_eq_of_lt hlt]
  · split
    · next hlt => exact .sized rfl hlt
    · split
      · next hlt => exact .sized rfl hlt
      · exact .sized rfl h

def rmp : Rmp where
  fromU8 := fromU8
  writeMapLen := fun n => [(Marker.fixMap (.ofNat 16 n)).toU8]
  writeStr := fun s => strHead (utf8Bytes s).length ++ utf8Bytes s
  readMapLen := readHead Marker.mapFix Marker.mapWidth
  readStrLen := readHead Marker.strFix Marker.strWidth
  readStrFromSlice := fun bs => do
    let (len, took) ← readHead Marker.strFix Marker.strWidth bs
    if (bs.drop took).length < len then none
    else (fromUtf8 ((bs.drop took).take len)).map (·, (bs.drop took).drop len)

theorem documented : rmp.Documented where
  fromU8 := fromU8_eq_iff
  writeMapLen := by decide
  writeStr := fun s hs => ⟨_, strHead_spec hs, rfl⟩
  readMapLen := readHead_eq_some_iff (by
    intro m w hw
    cases m <;> first | rfl | cases hw)
  readStrLen := readHead_eq_some_iff (by
    intro m w hw
    cases m <;> first | rfl | cases hw)
  readStrFromSlice := by
    have hone : ∀ m w, Marker.strWidth m = some w → Marker.strFix m = none := by
      intro m w hw
      cases m <;> first | rfl | cases hw
    intro bs s rest
    show ((readHead Marker.strFix Marker.strWidth bs).bind fun x =>
      if (bs.drop x.2).length < x.1 then none
      else (fromUtf8 ((bs.drop x.2).take x.1)).map (·, (bs.drop x.2).drop x.1)) = _ ↔ _
    rw [Option.bind_eq_some_iff]
    constructor
    · rintro ⟨⟨len, took⟩, hhead, h⟩
      obtain ⟨head, after, hhead, rfl, rfl⟩ := (readHead_eq_some_iff hone _ _ _).mp hhead
      simp only [List.drop_left' rfl] at h
      split at h
      · cases h
      · next hle =>
          obtain ⟨s', hs', h⟩ := Option.map_eq_some_iff.mp h
          cases h
          have hbytes := fromUtf8_eq_some_iff.mp hs'
          have hlen : (utf8Bytes s).length = len := by
            rw [hbytes]
            exact List.length_take_of_le (by omega)
          refine ⟨head ++ utf8Bytes s, ⟨head, by rwa [hlen], rfl⟩, ?_⟩
          rw [hbytes, List.append_assoc, List.take_append_drop]
    · rintro ⟨_, ⟨head, hhead, rfl⟩, rfl⟩
      refine ⟨(_, _), (readHead_eq_some_iff hone _ _ _).mpr
        ⟨head, utf8Bytes s ++ rest, hhead, rfl, List.append_assoc _ _ _⟩, ?_⟩
      rw [List.append_assoc]
      simp only [List.drop_left' rfl, List.take_left' rfl, fromUtf8_utf8Bytes, Option.map_some]
      rw [if_neg (by simp)]

/-- A map with one entry as the header. -/
def request : UntypedRequest := ⟨[0x81, 0xa3, 107, 101, 121, 0x7b], "id", [0xc3]⟩

theorem isHeader_request : IsHeader request.header := by
  refine .inr ⟨1, [0x81], [0xa3, 107, 101, 121, 0x7b], .fix (m := .fixMap 1) rfl, ?_, rfl⟩
  have hkey : StrHead ([107, 101, 121] : Bytes).length [0xa3] := .fix (m := .fixStr 3) rfl
  have hvalue : Objects 1 (Marker.toU8 (.fixPos 123) :: ([] ++ [])) := .fixed rfl .nil
  exact .cons hkey hvalue .nil

theorem relayed_request :
    UntypedRequest.fromSlice rmp (request.toBytes rmp) = .ok request ∧
      Relays rmp (UntypedRequest.toBytes rmp) (UntypedRequest.fromSlice rmp) UntypedRequest.id
        UntypedRequest.setId request := by
  have h := packets_relayed rmp documented
  have hread := h.1 request isHeader_request (documented.inverse (by decide))
  exact ⟨hread, h.2.2.1 _ request hread⟩

end Relaying

end Distant
