import Mathlib.Data.List.Induction
import Mathlib.Tactic.Ring

/-!
# Big-endian numbers and length-prefixed items

`beBytes k n` is the `k`-byte big-endian numeral of `n` (its low `8 * k` bits) and `beNat` reads a
numeral of any width. They are inverse below `256 ^ k` and on lists of length `k`.

`lenPrefixed k item` puts the length of `item` in front of it, as a `k`-byte numeral. Reading a
concatenation of such items from the left can only be done in one way, which is
`lenPrefixed_append_inj`.
-/

namespace Distant

/-! ## Numerals -/

/-- The `k`-byte big-endian numeral of `n`. -/
def beBytes : Nat → Nat → List UInt8
  | 0, _ => []
  | k + 1, n => beBytes k (n / 256) ++ [UInt8.ofNat n]

/-- The number that a big-endian numeral denotes. -/
def beNat (bs : List UInt8) : Nat := bs.foldl (fun acc b => acc * 256 + b.toNat) 0

@[simp] theorem length_beBytes (k n : Nat) : (beBytes k n).length = k := by
  induction k generalizing n with
  | zero => rfl
  | succ k ih => simp [beBytes, ih]

@[simp] theorem beNat_nil : beNat [] = 0 := rfl

@[simp] theorem beNat_append_singleton (bs : List UInt8) (b : UInt8) :
    beNat (bs ++ [b]) = beNat bs * 256 + b.toNat := by
  simp [beNat]

theorem beNat_lt (bs : List UInt8) : beNat bs < 256 ^ bs.length := by
  induction bs using List.reverseRecOn with
  | nil => simp
  | append_singleton bs b ih =>
      have hb : b.toNat < 256 := b.toNat_lt
      simp only [beNat_append_singleton, List.length_append, List.length_singleton, pow_succ]
      omega

theorem beNat_beBytes {k n : Nat} (h : n < 256 ^ k) : beNat (beBytes k n) = n := by
  induction k generalizing n with
  | zero => simp only [pow_zero] at h; simp [beBytes]; omega
  | succ k ih =>
      have hq : n / 256 < 256 ^ k := by rw [pow_succ] at h; omega
      simp only [beBytes, beNat_append_singleton, ih hq, UInt8.toNat_ofNat']
      omega

theorem beBytes_beNat (bs : List UInt8) : beBytes bs.length (beNat bs) = bs := by
  induction bs using List.reverseRecOn with
  | nil => rfl
  | append_singleton bs b ih =>
      have hb : b.toNat < 256 := b.toNat_lt
      have hq : (beNat bs * 256 + b.toNat) / 256 = beNat bs := by omega
      have hr : UInt8.ofNat (beNat bs * 256 + b.toNat) = b := by
        apply UInt8.toNat_inj.mp
        simp only [UInt8.toNat_ofNat']
        omega
      simp only [List.length_append, List.length_singleton, beNat_append_singleton, beBytes, hq,
        ih, hr]

/-! ## Length-prefixed items -/

/-- `item` behind its own length. -/
def lenPrefixed (k : Nat) (item : List UInt8) : List UInt8 := beBytes k item.length ++ item

@[simp] theorem length_lenPrefixed (k : Nat) (item : List UInt8) :
    (lenPrefixed k item).length = k + item.length := by
  simp [lenPrefixed]

theorem take_lenPrefixed_append (k : Nat) (item rest : List UInt8) :
    (lenPrefixed k item ++ rest).take k = beBytes k item.length := by
  rw [lenPrefixed, List.append_assoc]
  exact List.take_left' (length_beBytes k _)

/-- The length that the first `k` bytes announce is that of the item behind them. -/
theorem beNat_take_lenPrefixed_append {k : Nat} {item : List UInt8} (h : item.length < 256 ^ k)
    (rest : List UInt8) : beNat ((lenPrefixed k item ++ rest).take k) = item.length := by
  rw [take_lenPrefixed_append, beNat_beBytes h]

/-- A buffer that holds `k` bytes announcing a length, and that many bytes behind them, starts
with the item of that length. -/
theorem eq_lenPrefixed_append {k n : Nat} {src : List UInt8} (hn : beNat (src.take k) = n)
    (hk : k + n ≤ src.length) :
    src = lenPrefixed k ((src.take (k + n)).drop k) ++ src.drop (k + n) := by
  have hlen : ((src.take (k + n)).drop k).length = n := by simp; omega
  have hhead : beBytes k n = src.take k := by
    have h := beBytes_beNat (src.take k)
    rwa [hn, List.length_take, Nat.min_eq_left (by omega)] at h
  have hsplit : src.take k ++ (src.take (k + n)).drop k = src.take (k + n) := by
    have h := List.take_append_drop k (src.take (k + n))
    rwa [List.take_take, Nat.min_eq_left (by omega)] at h
  rw [lenPrefixed, hlen, hhead, hsplit, List.take_append_drop]

/-- Only one item can stand at the front of a buffer. -/
theorem lenPrefixed_append_inj {k : Nat} {a b r s : List UInt8} (ha : a.length < 256 ^ k)
    (hb : b.length < 256 ^ k) (h : lenPrefixed k a ++ r = lenPrefixed k b ++ s) :
    a = b ∧ r = s := by
  have hlen : a.length = b.length := by
    rw [← beNat_take_lenPrefixed_append ha r, ← beNat_take_lenPrefixed_append hb s, h]
  have hparts := List.append_inj h (by simp [hlen])
  refine ⟨?_, hparts.2⟩
  have := (List.append_inj hparts.1 (by simp)).2
  exact this

end Distant
