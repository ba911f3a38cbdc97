import Mathlib.Algebra.Group.Nat.Defs
import Mathlib.Data.List.AList
import Mathlib.Data.List.Basic

/-!
# The pieces of Rust that the code leans on

Byte strings, `usize` arithmetic on a 64-bit target, slicing, and `io::Error`. A Rust function
that can panic returns `Except Panic`, one that returns an `io::Result` returns
`Except Fault`, whose two constructors tell an error value from a panic.

Whether an overflowing `+` panics or wraps depends on how the crate was built: `Profile.dev` has
the overflow checks, `Profile.release` does not.
-/

namespace Distant

abbrev Bytes := List UInt8

/-- A `HashMap`, whose order of iteration means nothing. -/
abbrev HashMap (K V : Type) := AList fun _ : K => V

/-- The build profile, which decides what an overflowing `+` does. -/
inductive Profile where
  | dev
  | release
  deriving DecidableEq, Repr

/-- The panics of the modelled code. -/
inductive Panic where
  /-- attempt to add with overflow -/
  | overflow
  /-- slice index out of range -/
  | slice
  /-- capacity overflow -/
  | capacity
  deriving DecidableEq, Repr

/-- The kinds of `io::Error` that the modelled code makes or looks at. -/
inductive ErrorKind where
  | wouldBlock
  | writeZero
  | unexpectedEof
  | invalidData
  | invalidInput
  | permissionDenied
  | notConnected
  | notFound
  | brokenPipe
  | connectionReset
  | connectionAborted
  | timedOut
  | unsupported
  | other
  deriving DecidableEq, Repr

/-- An `io::Error`: its kind and the text it was made with (none for `Error::from(kind)`). -/
structure IoError where
  kind : ErrorKind
  text : Option String
  deriving DecidableEq, Repr

def IoError.new (kind : ErrorKind) (text : String) : IoError := ⟨kind, some text⟩

/-- `io::Error::from(kind)`. -/
def IoError.ofKind (kind : ErrorKind) : IoError := ⟨kind, none⟩

/-- How a fallible call ends when it does not return `Ok`. -/
inductive Fault where
  | io (e : IoError)
  | panic (p : Panic)
  deriving DecidableEq, Repr

/-- Is this the error that the retry loops wait out? -/
def Fault.isWouldBlock : Fault → Bool
  | .io e => e.kind == .wouldBlock
  | .panic _ => false

/-- A fallible call that can panic but returns no error of its own. -/
def Fault.lift {α : Type} : Except Panic α → Except Fault α
  | .ok a => .ok a
  | .error p => .error (.panic p)

/-! ## `usize` -/

/-- A `usize` on a 64-bit target. -/
abbrev Usize := { n : Nat // n < 2 ^ 64 }

/-- `a + b` on `usize`. -/
def addUsize (p : Profile) (a b : Nat) : Except Panic Usize :=
  if h : a + b < 2 ^ 64 then .ok ⟨a + b, h⟩
  else match p with
    | .dev => .error .overflow
    | .release => .ok ⟨(a + b) % 2 ^ 64, Nat.mod_lt _ (by decide)⟩

theorem addUsize_of_lt (p : Profile) {a b : Nat} (h : a + b < 2 ^ 64) :
    addUsize p a b = .ok ⟨a + b, h⟩ := by
  simp only [addUsize, h, dite_true]

theorem addUsize_dev_of_le {a b : Nat} (h : 2 ^ 64 ≤ a + b) :
    addUsize .dev a b = .error .overflow := by
  simp only [addUsize, Nat.not_lt.mpr h, dite_false]

theorem addUsize_release_of_le {a b : Nat} (h : 2 ^ 64 ≤ a + b) :
    addUsize .release a b = .ok ⟨(a + b) % 2 ^ 64, Nat.mod_lt _ (by decide)⟩ := by
  simp only [addUsize, Nat.not_lt.mpr h, dite_false]

/-! ## Results -/

theorem bind_eq_ok_iff {ε α β : Type} {x : Except ε α} {f : α → Except ε β} {b : β} :
    x >>= f = .ok b ↔ ∃ a, x = .ok a ∧ f a = .ok b := by
  cases x with
  | error e => exact ⟨by rintro ⟨⟩, by rintro ⟨a, ⟨⟩, _⟩⟩
  | ok a => exact ⟨fun h => ⟨a, rfl, h⟩, by rintro ⟨_, ⟨⟩, h⟩; exact h⟩

theorem mapError_eq_ok_iff {ε ε' α : Type} {f : ε → ε'} {x : Except ε α} {a : α} :
    x.mapError f = .ok a ↔ x = .ok a := by
  cases x <;> simp [Except.mapError]

/-! ## Slices -/

/-- `src[start..stop]`, as an owned copy. -/
def slice (src : Bytes) (start : Nat) (stop : Usize) :
    Except Panic { bs : Bytes // bs.length + start = stop.val } :=
  if h : start ≤ stop.val ∧ stop.val ≤ src.length then
    .ok ⟨(src.take stop.val).drop start, by simp; omega⟩
  else .error .slice

theorem slice_of_lt {src : Bytes} {start : Nat} {stop : Usize} (h : stop.val < start) :
    slice src start stop = .error .slice := by
  have hle : ¬ (start ≤ stop.val ∧ stop.val ≤ src.length) := by omega
  simp only [slice, hle, dite_false]

/-- `src.advance(n)`: drop the first `n` bytes. -/
def advance (src : Bytes) (n : Nat) : Except Panic Bytes :=
  if n ≤ src.length then .ok (src.drop n) else .error .slice

end Distant
