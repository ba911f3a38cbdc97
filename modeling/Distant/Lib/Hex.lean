import Distant.Lib.Rust

/-!
# Bytes in hexadecimal

What encodes bytes as hexadecimal digits and decodes them is a parameter. What is used of it is
`Hex.Documented`, which `lowerHex` has.
-/

namespace Distant

/-- What is used of the crate `hex`. -/
structure Hex where
  /-- `hex::encode` -/
  encode : Bytes → List Char
  /-- `hex::decode` -/
  decode : List Char → Option Bytes

structure Hex.Documented (hex : Hex) : Prop where
  decode_encode : ∀ bytes, hex.decode (hex.encode bytes) = some bytes
  digits : ∀ bytes, ∀ c ∈ hex.encode bytes, c.isAlphanum = true

/-! ## Digits -/

/-- The value of a digit, whose letters may be of either case. -/
def hexValue (c : Char) : Option Nat :=
  if c.isDigit then some (c.toNat - '0'.toNat)
  else if 'a' ≤ c ∧ c ≤ 'f' then some (c.toNat - 'a'.toNat + 10)
  else if 'A' ≤ c ∧ c ≤ 'F' then some (c.toNat - 'A'.toNat + 10)
  else none

/-- The two digits of a byte. -/
def hexDigits (b : UInt8) : List Char := [Nat.digitChar (b.toNat / 16), Nat.digitChar (b.toNat % 16)]

/-- Two digits make a byte. -/
def decodeHex : List Char → Option Bytes
  | [] => some []
  | [_] => none
  | high :: low :: cs => do
    let high ← hexValue high
    let low ← hexValue low
    let bytes ← decodeHex cs
    return UInt8.ofNat (16 * high + low) :: bytes

/-- The digits of each byte, in lower case. -/
def lowerHex : Hex where
  encode bytes := bytes.flatMap hexDigits
  decode := decodeHex

theorem hexValue_digitChar {n : Nat} (h : n < 16) : hexValue (Nat.digitChar n) = some n := by
  have hall : ∀ n : Fin 16, hexValue (Nat.digitChar n) = some n.val := by decide
  exact hall ⟨n, h⟩

theorem isAlphanum_digitChar {n : Nat} (h : n < 16) : (Nat.digitChar n).isAlphanum = true := by
  have hall : ∀ n : Fin 16, (Nat.digitChar n).isAlphanum = true := by decide
  exact hall ⟨n, h⟩

theorem decodeHex_append (b : UInt8) (cs : List Char) :
    decodeHex (hexDigits b ++ cs) = (decodeHex cs).map (b :: ·) := by
  have hb := b.toNat_lt
  have hhigh := hexValue_digitChar (n := b.toNat / 16) (by omega)
  have hlow := hexValue_digitChar (n := b.toNat % 16) (by omega)
  have hvalue : UInt8.ofNat (16 * (b.toNat / 16) + b.toNat % 16) = b := by
    rw [Nat.div_add_mod, UInt8.ofNat_toNat]
  rw [hexDigits, List.cons_append, List.cons_append, List.nil_append, decodeHex, hhigh, hlow]
  cases decodeHex cs with
  | none => rfl
  | some bytes =>
      simp only [Option.bind_eq_bind, Option.bind_some, Option.map_some, hvalue]
      rfl

theorem documented_lowerHex : lowerHex.Documented where
  decode_encode bytes := by
    induction bytes with
    | nil => rfl
    | cons b bytes ih =>
        have h := decodeHex_append b (bytes.flatMap hexDigits)
        rw [show decodeHex (bytes.flatMap hexDigits) = some bytes from ih] at h
        exact h
  digits bytes c hc := by
    obtain ⟨b, -, hb⟩ := List.mem_flatMap.mp hc
    have hlt := b.toNat_lt
    rw [hexDigits, List.mem_cons, List.mem_singleton] at hb
    rcases hb with rfl | rfl
    · exact isAlphanum_digitChar (by omega)
    · exact isAlphanum_digitChar (by omega)

end Distant
