import Distant.Lib.Rust

/-!
# Strings as bytes

A string is kept as its UTF-8 bytes. `fromUtf8` takes bytes for a string if they are one, and
`fromUtf8_eq_some_iff` says that the two are inverse.
-/

namespace Distant

/-- The bytes of a string. -/
def utf8Bytes (s : String) : Bytes := s.toByteArray.data.toList

/-- `str::from_utf8` -/
def fromUtf8 (bs : Bytes) : Option String := String.fromUTF8? ⟨bs.toArray⟩

theorem fromUtf8_eq_some_iff {bs : Bytes} {s : String} :
    fromUtf8 bs = some s ↔ utf8Bytes s = bs := by
  unfold fromUtf8 String.fromUTF8? utf8Bytes
  constructor
  · intro h
    split at h
    · cases h
      rfl
    · cases h
  · rintro rfl
    have hvalid : ByteArray.IsValidUTF8 ⟨s.toByteArray.data.toList.toArray⟩ := by
      simpa using s.isValidUTF8
    rw [dif_pos hvalid]
    congr 1

@[simp] theorem fromUtf8_utf8Bytes (s : String) : fromUtf8 (utf8Bytes s) = some s :=
  fromUtf8_eq_some_iff.mpr rfl

theorem utf8Bytes_append (s t : String) : utf8Bytes (s ++ t) = utf8Bytes s ++ utf8Bytes t := by
  simp [utf8Bytes, String.toByteArray_append]

theorem utf8Bytes_injective : Function.Injective utf8Bytes := by
  intro s t h
  have hs := fromUtf8_utf8Bytes s
  rw [h, fromUtf8_utf8Bytes] at hs
  exact (Option.some.inj hs).symm

/-- The bytes of a string are those of its characters. -/
theorem utf8Bytes_eq (s : String) : utf8Bytes s = s.toList.flatMap String.utf8EncodeChar := by
  unfold utf8Bytes
  rw [← String.utf8Encode_toList, List.utf8Encode]
  simp

/-- A character of one byte is where its byte is. -/
theorem mem_utf8EncodeChar_iff {c : Char} {b : UInt8} (hb : b.toNat < 0x80) :
    b ∈ String.utf8EncodeChar c ↔ c.toNat = b.toNat := by
  have hmax : c.toNat < 0x110000 := by
    rcases c.valid with hvalid | hvalid
    · exact Nat.lt_trans hvalid (by decide)
    · exact hvalid.2
  have heq : ∀ n < 256, b = UInt8.ofNat n ↔ b.toNat = n := by
    intro n hn
    rw [← UInt8.toNat_inj, UInt8.toNat_ofNat_of_lt' hn]
  simp only [String.utf8EncodeChar, show c.val.toNat = c.toNat from rfl]
  split
  · rw [List.mem_singleton, heq _ (by omega)]
    omega
  · split
    · simp only [List.mem_cons, List.not_mem_nil, or_false]
      rw [heq _ (by omega), heq _ (by omega)]
      omega
    · split
      · simp only [List.mem_cons, List.not_mem_nil, or_false]
        rw [heq _ (by omega), heq _ (by omega), heq _ (by omega)]
        omega
      · simp only [List.mem_cons, List.not_mem_nil, or_false]
        rw [heq _ (by omega), heq _ (by omega), heq _ (by omega), heq _ (by omega)]
        omega

theorem mem_utf8Bytes_iff {s : String} {c : Char} {b : UInt8} (hb : b.toNat < 0x80)
    (hc : c.toNat = b.toNat) : b ∈ utf8Bytes s ↔ c ∈ s.toList := by
  rw [utf8Bytes_eq, List.mem_flatMap]
  constructor
  · rintro ⟨d, hd, hmem⟩
    have hdc := (mem_utf8EncodeChar_iff hb).mp hmem
    rwa [Char.ext (UInt32.toNat_inj.mp (hc.trans hdc.symm))]
  · intro hmem
    exact ⟨c, hmem, (mem_utf8EncodeChar_iff hb).mpr hc⟩

end Distant
