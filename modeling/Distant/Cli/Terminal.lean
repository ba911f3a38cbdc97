import Distant.Cli.Framebuffer
import Mathlib.Data.List.TakeWhile

/-!
# A terminal

What the predictions are shown on: cells, a cursor that wraps at the right margin, and one place
where the cursor is saved. `TermParser.ops` reads bytes as what they ask for, and a `Terminal` does
it. Both terminals of an argument, and the screen of the framebuffer, are of this kind.
-/

namespace Distant

/-- What a terminal is asked to do. -/
inductive TermOp where
  | print (c : Char)
  | carriageReturn
  | lineFeed
  | backspace
  | tab
  | up (n : Nat)
  | down (n : Nat)
  | forward (n : Nat)
  | back (n : Nat)
  | column (n : Nat)
  | line (n : Nat)
  | position (row col : Nat)
  | eraseLine (n : Nat)
  | eraseDisplay (n : Nat)
  | save
  | restore
  deriving DecidableEq, Repr

inductive TermParser where
  | ground
  /-- within a character, with what its bytes have given so far -/
  | continued (needed acc : Nat)
  | escape
  | csi (params : Bytes)
  /-- a string that a terminal without titles and the like does not read -/
  | string
  | stringEscape
  deriving DecidableEq, Repr

namespace TermParser

/-! ## Reading bytes -/

/-- The number that digits stand for, in bytes. -/
def number (digits : Bytes) : Nat := digits.foldl (fun n b => 10 * n + (b.toNat - 48)) 0

def isDigitByte (b : UInt8) : Bool := 48 ≤ b.toNat && b.toNat ≤ 57

/-- Parameters up to the next `;`. -/
def firstParam (params : Bytes) : Bytes := params.takeWhile (· != ascii ';')

def otherParams (params : Bytes) : Bytes := (params.dropWhile (· != ascii ';')).drop 1

/-- A count: at least one. -/
def count (digits : Bytes) : Nat := max 1 (number digits)

def csiOps (params : Bytes) (final : UInt8) : List TermOp :=
  let first := firstParam params
  let n := count first
  if ¬ params.all (fun b => isDigitByte b || b == ascii ';') then []
  else if final = ascii 'A' then [.up n]
  else if final = ascii 'B' then [.down n]
  else if final = ascii 'C' then [.forward n]
  else if final = ascii 'D' then [.back n]
  else if final = ascii 'G' then [.column (n - 1)]
  else if final = ascii 'd' then [.line (n - 1)]
  else if final = ascii 'H' ∨ final = ascii 'f' then
    [.position (n - 1) (count (firstParam (otherParams params)) - 1)]
  else if final = ascii 'J' then [.eraseDisplay (number first)]
  else if final = ascii 'K' then [.eraseLine (number first)]
  else if final = ascii 's' then [.save]
  else if final = ascii 'u' then [.restore]
  else []

def controlOps (b : Nat) : List TermOp :=
  if b = 0x08 then [.backspace]
  else if b = 0x09 then [.tab]
  else if b = 0x0a ∨ b = 0x0b ∨ b = 0x0c then [.lineFeed]
  else if b = 0x0d then [.carriageReturn]
  else []

def stepGround (b : UInt8) : List TermOp × TermParser :=
  let n := b.toNat
  if n = 0x1b then ([], .escape)
  else if n < 0x20 then (controlOps n, .ground)
  else if n < 0x7f then ([.print (Char.ofNat n)], .ground)
  else if n < 0xc0 then ([], .ground)
  else if n < 0xe0 then ([], .continued 1 (n - 0xc0))
  else if n < 0xf0 then ([], .continued 2 (n - 0xe0))
  else ([], .continued 3 (n - 0xf0))

def step : TermParser → UInt8 → List TermOp × TermParser
  | ground, b => stepGround b
  | continued needed acc, b =>
    if 0x80 ≤ b.toNat ∧ b.toNat < 0xc0 then
      let acc := acc * 64 + (b.toNat - 0x80)
      if needed = 1 then
        -- nothing for what is no character, or could have been written with fewer bytes
        (if 0x80 ≤ (Char.ofNat acc).toNat then [.print (Char.ofNat acc)] else [], .ground)
      else ([], .continued (needed - 1) acc)
    else stepGround b
  | escape, b =>
    if b = ascii '[' then ([], .csi [])
    else if b = ascii '7' then ([.save], .ground)
    else if b = ascii '8' then ([.restore], .ground)
    else if b = ascii ']' ∨ b = ascii 'P' ∨ b = ascii '^' ∨ b = ascii '_' then ([], .string)
    else if b = ESC then ([], .escape)
    else ([], .ground)
  | csi params, b =>
    if b = ESC then ([], .escape)
    else if 0x20 ≤ b.toNat ∧ b.toNat < 0x40 then ([], .csi (params ++ [b]))
    else if 0x40 ≤ b.toNat ∧ b.toNat < 0x7f then (csiOps params b, .ground)
    else ([], .csi params)
  | string, b =>
    if b = BEL then ([], .ground) else if b = ESC then ([], .stringEscape) else ([], .string)
  | stringEscape, b => if b = ascii '\\' then ([], .ground) else ([], .string)

/-- What the bytes ask for. -/
def ops : TermParser → Bytes → List TermOp × TermParser
  | p, [] => ([], p)
  | p, b :: bs =>
    let (now, p) := p.step b
    let (later, p) := ops p bs
    (now ++ later, p)

theorem ops_append (p : TermParser) (bs bs' : Bytes) :
    p.ops (bs ++ bs')
      = ((p.ops bs).1 ++ ((p.ops bs).2.ops bs').1, ((p.ops bs).2.ops bs').2) := by
  induction bs generalizing p with
  | nil => rfl
  | cons b bs ih =>
      simp only [List.cons_append, ops, ih]
      simp

/-! ## What is written -/

/-- A character that a terminal puts in a cell. -/
def Printable (c : Char) : Prop := 0x20 ≤ c.toNat ∧ c.toNat ≠ 0x7f

theorem stepGround_plain {b : UInt8} (h : 0x20 ≤ b.toNat ∧ b.toNat < 0x7f) :
    stepGround b = ([.print (Char.ofNat b.toNat)], .ground) := by
  unfold stepGround
  dsimp only
  rw [if_neg (by omega), if_neg (by omega), if_pos h.2]

theorem stepGround_two {b : UInt8} (h : 0xc0 ≤ b.toNat ∧ b.toNat < 0xe0) :
    stepGround b = ([], .continued 1 (b.toNat - 0xc0)) := by
  unfold stepGround
  dsimp only
  rw [if_neg (by omega), if_neg (by omega), if_neg (by omega), if_neg (by omega), if_pos h.2]

theorem stepGround_three {b : UInt8} (h : 0xe0 ≤ b.toNat ∧ b.toNat < 0xf0) :
    stepGround b = ([], .continued 2 (b.toNat - 0xe0)) := by
  unfold stepGround
  dsimp only
  rw [if_neg (by omega), if_neg (by omega), if_neg (by omega), if_neg (by omega),
    if_neg (by omega), if_pos h.2]

theorem stepGround_four {b : UInt8} (h : 0xf0 ≤ b.toNat) :
    stepGround b = ([], .continued 3 (b.toNat - 0xf0)) := by
  unfold stepGround
  dsimp only
  rw [if_neg (by omega), if_neg (by omega), if_neg (by omega), if_neg (by omega),
    if_neg (by omega), if_neg (by omega)]

theorem step_continued {b : UInt8} (needed acc : Nat) (h : 0x80 ≤ b.toNat ∧ b.toNat < 0xc0)
    (hneeded : needed ≠ 1) :
    step (.continued needed acc) b
      = ([], .continued (needed - 1) (acc * 64 + (b.toNat - 0x80))) := by
  unfold step
  dsimp only
  rw [if_pos h, if_neg hneeded]

theorem step_last {b : UInt8} (acc : Nat) (h : 0x80 ≤ b.toNat ∧ b.toNat < 0xc0) {c : Char}
    (hc : acc * 64 + (b.toNat - 0x80) = c.toNat) (hlarge : 0x80 ≤ c.toNat) :
    step (.continued 1 acc) b = ([.print c], .ground) := by
  have hofNat : Char.ofNat c.toNat = c := Char.ofNat_toNat c
  unfold step
  dsimp only
  rw [if_pos h, if_pos rfl, hc, hofNat, if_pos hlarge]

/-- The bytes of a character are read as the character. -/
theorem ops_utf8EncodeChar {c : Char} (h : Printable c) :
    ground.ops (String.utf8EncodeChar c) = ([.print c], ground) := by
  obtain ⟨hlow, hdel⟩ := h
  have hmax : c.toNat < 0x110000 := by
    rcases c.valid with hvalid | hvalid
    · exact Nat.lt_trans hvalid (by decide)
    · exact hvalid.2
  have hbyte : ∀ n, n < 256 → (UInt8.ofNat n).toNat = n := fun n hn => UInt8.toNat_ofNat_of_lt' hn
  have hval : c.val.toNat = c.toNat := rfl
  have hstep : ∀ b, ground.step b = stepGround b := fun _ => rfl
  unfold String.utf8EncodeChar
  rw [hval]
  by_cases h₁ : c.toNat ≤ 0x7f
  · have hb := hbyte c.toNat (by omega)
    simp only [h₁, if_true, ops, hstep, stepGround_plain (b := .ofNat c.toNat) (by omega), hb,
      Char.ofNat_toNat]
    rfl
  · by_cases h₂ : c.toNat ≤ 0x7ff
    · have hb₁ := hbyte (c.toNat / 64 % 0x20 + 0xc0) (by omega)
      have hb₂ := hbyte (c.toNat % 0x40 + 0x80) (by omega)
      have hlead := stepGround_two (b := .ofNat (c.toNat / 64 % 0x20 + 0xc0)) (by omega)
      have hlast := step_last (b := .ofNat (c.toNat % 0x40 + 0x80)) (c := c)
        (c.toNat / 64 % 0x20 + 0xc0 - 0xc0) (by omega) (by omega) (by omega)
      rw [hb₁] at hlead
      simp only [h₁, h₂, if_true, if_false, ops, hstep, hlead, hlast]
      rfl
    · by_cases h₃ : c.toNat ≤ 0xffff
      · have hb₁ := hbyte (c.toNat / 4096 % 0x10 + 0xe0) (by omega)
        have hb₂ := hbyte (c.toNat / 64 % 0x40 + 0x80) (by omega)
        have hb₃ := hbyte (c.toNat % 0x40 + 0x80) (by omega)
        have hlead := stepGround_three (b := .ofNat (c.toNat / 4096 % 0x10 + 0xe0)) (by omega)
        have hnext := step_continued (b := .ofNat (c.toNat / 64 % 0x40 + 0x80)) 2
          (c.toNat / 4096 % 0x10 + 0xe0 - 0xe0) (by omega) (by omega)
        have hlast := step_last (b := .ofNat (c.toNat % 0x40 + 0x80)) (c := c)
          ((c.toNat / 4096 % 0x10 + 0xe0 - 0xe0) * 64 + (c.toNat / 64 % 0x40 + 0x80 - 0x80))
          (by omega) (by omega) (by omega)
        rw [hb₁] at hlead
        rw [hb₂] at hnext
        simp only [h₁, h₂, h₃, if_true, if_false, ops, hstep, hlead, hnext, hlast]
        rfl
      · have hb₁ := hbyte (c.toNat / 262144 % 0x08 + 0xf0) (by omega)
        have hb₂ := hbyte (c.toNat / 4096 % 0x40 + 0x80) (by omega)
        have hb₃ := hbyte (c.toNat / 64 % 0x40 + 0x80) (by omega)
        have hb₄ := hbyte (c.toNat % 0x40 + 0x80) (by omega)
        have hlead := stepGround_four (b := .ofNat (c.toNat / 262144 % 0x08 + 0xf0)) (by omega)
        have hnext := step_continued (b := .ofNat (c.toNat / 4096 % 0x40 + 0x80)) 3
          (c.toNat / 262144 % 0x08 + 0xf0 - 0xf0) (by omega) (by omega)
        have hthird := step_continued (b := .ofNat (c.toNat / 64 % 0x40 + 0x80)) 2
          ((c.toNat / 262144 % 0x08 + 0xf0 - 0xf0) * 64 + (c.toNat / 4096 % 0x40 + 0x80 - 0x80))
          (by omega) (by omega)
        have hlast := step_last (b := .ofNat (c.toNat % 0x40 + 0x80)) (c := c)
          (((c.toNat / 262144 % 0x08 + 0xf0 - 0xf0) * 64 + (c.toNat / 4096 % 0x40 + 0x80 - 0x80)) * 64
            + (c.toNat / 64 % 0x40 + 0x80 - 0x80)) (by omega) (by omega) (by omega)
        rw [hb₁] at hlead
        rw [hb₂] at hnext
        rw [hb₃] at hthird
        simp only [h₁, h₂, h₃, if_false, ops, hstep, hlead, hnext, hthird, hlast]
        rfl

/-- The bytes of a text are read as the text. -/
theorem ops_utf8 {s : List Char} (h : ∀ c ∈ s, Printable c) :
    ground.ops (utf8 s) = (s.map .print, ground) := by
  induction s with
  | nil => rfl
  | cons c s ih =>
      have hcons : utf8 (c :: s) = String.utf8EncodeChar c ++ utf8 s := rfl
      have hrest := ih fun d hd => h d (List.mem_cons_of_mem c hd)
      rw [hcons, ops_append, ops_utf8EncodeChar (h c List.mem_cons_self), hrest]
      rfl

theorem utf8_append (s s' : List Char) : utf8 (s ++ s') = utf8 s ++ utf8 s' := List.flatMap_append

theorem utf8_blanks (n : Nat) : utf8 (List.replicate n ' ') = blanks n := by
  induction n with
  | zero => rfl
  | succ n ih =>
      have hcons : utf8 (List.replicate (n + 1) ' ')
          = String.utf8EncodeChar ' ' ++ utf8 (List.replicate n ' ') := rfl
      rw [hcons, ih]
      rfl

theorem toNat_ascii_digit {c : Char} (h : c.isDigit = true) :
    (ascii c).toNat = c.toNat ∧ 48 ≤ c.toNat ∧ c.toNat ≤ 57 := by
  obtain ⟨hlow, hhigh⟩ := Char.isDigit_iff_toNat.mp h
  have hlow : 48 ≤ c.toNat := hlow
  have hhigh : c.toNat ≤ 57 := hhigh
  exact ⟨UInt8.toNat_ofNat_of_lt' (Nat.lt_of_le_of_lt hhigh (by decide)), hlow, hhigh⟩

theorem number_digits (ds : List Char) (h : ∀ c ∈ ds, c.isDigit = true) (n : Nat) :
    (ds.map ascii).foldl (fun n b => 10 * n + (b.toNat - 48)) n = Nat.ofDigitChars 10 ds n := by
  induction ds generalizing n with
  | nil => rfl
  | cons c ds ih =>
      have hc := (toNat_ascii_digit (h c List.mem_cons_self)).1
      rw [List.map_cons, List.foldl_cons, ih fun d hd => h d (List.mem_cons_of_mem c hd),
        Nat.ofDigitChars_cons, hc]
      rfl

theorem ops_digits (ds : List Char) (h : ∀ c ∈ ds, c.isDigit = true) (params rest : Bytes) :
    ops (.csi params) (ds.map ascii ++ rest) = ops (.csi (params ++ ds.map ascii)) rest := by
  induction ds generalizing params with
  | nil => simp
  | cons c ds ih =>
      obtain ⟨hc, hlow, hhigh⟩ := toNat_ascii_digit (h c List.mem_cons_self)
      have hesc : ascii c ≠ ESC := by
        intro heq
        have hnat : (ascii c).toNat = 0x1b := by rw [heq]; rfl
        omega
      have hstep : step (.csi params) (ascii c) = ([], .csi (params ++ [ascii c])) := by
        unfold step
        dsimp only
        rw [if_neg hesc, if_pos (by omega)]
      have hrest := ih (fun d hd => h d (List.mem_cons_of_mem c hd)) (params ++ [ascii c])
      rw [List.append_assoc, List.singleton_append] at hrest
      rw [List.map_cons, List.cons_append, ← hrest]
      simp only [ops, hstep]
      rfl

theorem ops_cursorBack {n : Nat} (h : 1 ≤ n) : ground.ops (cursorBack n) = ([.back n], ground) := by
  have hdigits : ∀ c ∈ Nat.toDigits 10 n, c.isDigit = true := fun c hc =>
    Nat.isDigit_of_mem_toDigits (by decide) (by decide) hc
  have hbytes : ∀ b ∈ (Nat.toDigits 10 n).map ascii, 48 ≤ b.toNat ∧ b.toNat ≤ 57 := by
    intro b hb
    obtain ⟨c, hc, rfl⟩ := List.mem_map.mp hb
    obtain ⟨heq, hlow, hhigh⟩ := toNat_ascii_digit (hdigits c hc)
    omega
  have hfirst : firstParam ((Nat.toDigits 10 n).map ascii) = (Nat.toDigits 10 n).map ascii := by
    refine List.takeWhile_eq_self_iff.mpr fun b hb => ?_
    have hsemi : b ≠ ascii ';' := by
      rintro rfl
      exact absurd (hbytes _ hb).2 (by decide)
    simpa using hsemi
  have hall :
      ((Nat.toDigits 10 n).map ascii).all (fun b => isDigitByte b || b == ascii ';') = true := by
    refine List.all_eq_true.mpr fun b hb => ?_
    have hdigit := hbytes b hb
    simp [isDigitByte, hdigit.1, hdigit.2]
  have hnumber : number ((Nat.toDigits 10 n).map ascii) = n :=
    (number_digits _ hdigits 0).trans Nat.ofDigitChars_ten_toDigits
  have hfinal : step (.csi ((Nat.toDigits 10 n).map ascii)) (ascii 'D') = ([.back n], ground) := by
    have hops : csiOps ((Nat.toDigits 10 n).map ascii) (ascii 'D') = [.back n] := by
      unfold csiOps count
      simp only [hall, hfirst, hnumber, Nat.max_eq_right h]
      rfl
    unfold step
    dsimp only
    rw [hops]
    rfl
  have hopen : ground.ops (cursorBack n)
      = ops (.csi []) ((Nat.toDigits 10 n).map ascii ++ [ascii 'D']) := rfl
  rw [hopen, ops_digits _ hdigits, List.nil_append]
  simp only [ops, hfinal]
  rfl

end TermParser

/-! ## The screen -/

/-- What a terminal shows. A column that is as large as there are columns is behind the right margin:
the next character wraps. -/
structure TermScreen where
  rows : Nat
  cols : Nat
  cells : Nat → Nat → Char
  cursor : Nat × Nat

namespace TermScreen

section

variable {α : Type} (rows cols : Nat) (cursor : Nat × Nat) (blank : α)

def scroll (g : Nat → Nat → α) : Nat → Nat → α :=
  fun r c => if r + 1 < rows then g (r + 1) c else blank

/-- A line down, with the lines going up at the bottom. -/
def feedCells (row : Nat) (g : Nat → Nat → α) : Nat → Nat → α :=
  if row + 1 < rows then g else scroll rows blank g

def put (g : Nat → Nat → α) (row col : Nat) (a : α) : Nat → Nat → α :=
  fun r c => if r = row ∧ c = col then a else g r c

def feedRow (row : Nat) : Nat := if row + 1 < rows then row + 1 else row

/-- What becomes of what the cells have in them, with `mark` for what is printed. -/
def edit (op : TermOp) (mark : Char → α) (g : Nat → Nat → α) : Nat → Nat → α :=
  match op with
  | .print ch =>
    if cursor.2 < cols then put g cursor.1 cursor.2 (mark ch)
    else put (feedCells rows blank cursor.1 g) (feedRow rows cursor.1) 0 (mark ch)
  | .lineFeed => feedCells rows blank cursor.1 g
  | .eraseLine n => fun r c =>
    if r = cursor.1 ∧ ((n = 0 ∧ cursor.2 ≤ c) ∨ (n = 1 ∧ c ≤ cursor.2) ∨ n = 2) then blank else g r c
  | .eraseDisplay n => fun r c =>
    if (n = 0 ∧ (cursor.1 < r ∨ (r = cursor.1 ∧ cursor.2 ≤ c))) ∨
        (n = 1 ∧ (r < cursor.1 ∨ (r = cursor.1 ∧ c ≤ cursor.2))) ∨ n = 2 then blank
    else g r c
  | _ => g

end

theorem edit_print_of_lt {α : Type} (rows : Nat) (blank : α) (mark : Char → α) {cols : Nat}
    {cursor : Nat × Nat} (h : cursor.2 < cols) (c : Char) (g : Nat → Nat → α) :
    edit rows cols cursor blank (.print c) mark g = put g cursor.1 cursor.2 (mark c) := if_pos h

/-- Where the cursor goes. -/
def move (s : TermScreen) : TermOp → Nat × Nat
  | .print _ =>
    if s.cursor.2 < s.cols then (s.cursor.1, s.cursor.2 + 1) else (feedRow s.rows s.cursor.1, 1)
  | .carriageReturn => (s.cursor.1, 0)
  | .lineFeed => (feedRow s.rows s.cursor.1, s.cursor.2)
  | .backspace => (s.cursor.1, s.cursor.2 - 1)
  | .tab => (s.cursor.1, min (s.cols - 1) (s.cursor.2 / 8 * 8 + 8))
  | .up n => (s.cursor.1 - n, s.cursor.2)
  | .down n => (min (s.rows - 1) (s.cursor.1 + n), s.cursor.2)
  | .forward n => (s.cursor.1, min (s.cols - 1) (s.cursor.2 + n))
  | .back n => (s.cursor.1, s.cursor.2 - n)
  | .column n => (s.cursor.1, min (s.cols - 1) n)
  | .line n => (min (s.rows - 1) n, s.cursor.2)
  | .position r c => (min (s.rows - 1) r, min (s.cols - 1) c)
  | _ => s.cursor

theorem move_print_of_lt {s : TermScreen} (h : s.cursor.2 < s.cols) (c : Char) :
    s.move (.print c) = (s.cursor.1, s.cursor.2 + 1) := if_pos h

def apply (s : TermScreen) (op : TermOp) : TermScreen :=
  { s with
    cells := edit s.rows s.cols s.cursor ' ' op id s.cells
    cursor := s.move op }

end TermScreen

structure Terminal where
  screen : TermScreen
  saved : Nat × Nat
  /-- the cells that something was printed in -/
  written : Nat → Nat → Bool
  parser : TermParser

namespace Terminal

def new (rows cols : Nat) : Terminal where
  screen := ⟨rows, cols, fun _ _ => ' ', (0, 0)⟩
  saved := (0, 0)
  written _ _ := false
  parser := .ground

def apply (t : Terminal) : TermOp → Terminal
  | .save => { t with saved := t.screen.cursor }
  | .restore => { t with screen := { t.screen with cursor := t.saved } }
  | op =>
    { t with
      screen := t.screen.apply op
      written := TermScreen.edit t.screen.rows t.screen.cols t.screen.cursor false op (fun _ => true)
        t.written }

def applyAll (t : Terminal) (ops : List TermOp) : Terminal := ops.foldl apply t

def process (t : Terminal) (bs : Bytes) : Terminal :=
  { t.applyAll (t.parser.ops bs).1 with parser := (t.parser.ops bs).2 }

theorem apply_reading (t : Terminal) (p : TermParser) (op : TermOp) :
    ({ t with parser := p }).apply op = { t.apply op with parser := p } := by
  cases op <;> rfl

theorem applyAll_reading (t : Terminal) (p : TermParser) (ops : List TermOp) :
    ({ t with parser := p }).applyAll ops = { t.applyAll ops with parser := p } := by
  induction ops generalizing t with
  | nil => rfl
  | cons op ops ih =>
      show (({ t with parser := p }).apply op).applyAll ops
          = { (t.apply op).applyAll ops with parser := p }
      rw [apply_reading, ih]

theorem applyAll_append (t : Terminal) (ops ops' : List TermOp) :
    t.applyAll (ops ++ ops') = (t.applyAll ops).applyAll ops' := List.foldl_append

theorem process_append (t : Terminal) (bs bs' : Bytes) :
    t.process (bs ++ bs') = (t.process bs).process bs' := by
  unfold process
  rw [applyAll_reading (t.applyAll (t.parser.ops bs).1) (t.parser.ops bs).2, TermParser.ops_append,
    applyAll_append]

/-- Bytes that are read from one character to the beginning of another. -/
theorem process_eq {t : Terminal} (hparser : t.parser = .ground) {bs : Bytes} {ops : List TermOp}
    (h : TermParser.ground.ops bs = (ops, .ground)) :
    (t.process bs).screen = (t.applyAll ops).screen ∧ (t.process bs).saved = (t.applyAll ops).saved ∧
      (t.process bs).parser = .ground := by
  unfold process
  rw [hparser, h]
  exact ⟨rfl, rfl, rfl⟩

/-! ## Writing in a row -/

/-- A text over what is in a row. -/
def overwrite (g : Nat → Nat → Char) (row col : Nat) (text : List Char) : Nat → Nat → Char :=
  fun r c => if r = row ∧ col ≤ c then (text[c - col]?).getD (g r c) else g r c

theorem overwrite_cons (g : Nat → Nat → Char) (row col : Nat) (a : Char) (text : List Char) :
    overwrite (TermScreen.put g row col a) row (col + 1) text = overwrite g row col (a :: text) := by
  funext r c
  unfold overwrite TermScreen.put
  by_cases hrow : r = row
  · rcases Nat.lt_trichotomy c col with hlt | rfl | hgt
    · have h₁ : ¬ col + 1 ≤ c := by omega
      have h₂ : ¬ col ≤ c := by omega
      have h₃ : c ≠ col := by omega
      simp [hrow, h₁, h₂, h₃]
    · have h₁ : ¬ c + 1 ≤ c := by omega
      simp [hrow, h₁]
    · obtain ⟨k, rfl⟩ : ∃ k, c = col + 1 + k := ⟨c - (col + 1), by omega⟩
      have h₁ : col + 1 ≤ col + 1 + k := by omega
      have h₂ : col ≤ col + 1 + k := by omega
      have h₃ : col + 1 + k ≠ col := by omega
      have h₄ : col + 1 + k - (col + 1) = k := by omega
      have h₅ : col + 1 + k - col = k + 1 := by omega
      simp [hrow, h₁, h₂, h₃, h₄, h₅]
  · simp [hrow]

/-- A text that stays within the right margin. -/
theorem applyAll_print (t : Terminal) (text : List Char)
    (h : t.screen.cursor.2 + text.length ≤ t.screen.cols) :
    (t.applyAll (text.map .print)).screen = { t.screen with
        cells := overwrite t.screen.cells t.screen.cursor.1 t.screen.cursor.2 text
        cursor := (t.screen.cursor.1, t.screen.cursor.2 + text.length) } ∧
      (t.applyAll (text.map .print)).saved = t.saved := by
  induction text generalizing t with
  | nil =>
      refine ⟨?_, rfl⟩
      have hsame :
          overwrite t.screen.cells t.screen.cursor.1 t.screen.cursor.2 [] = t.screen.cells := by
        funext r c
        simp [overwrite]
      rw [hsame]
      rfl
  | cons a text ih =>
      rw [List.length_cons] at h
      have hcol : t.screen.cursor.2 < t.screen.cols := by omega
      have hscreen : (t.apply (.print a)).screen = { t.screen with
          cells := TermScreen.put t.screen.cells t.screen.cursor.1 t.screen.cursor.2 a
          cursor := (t.screen.cursor.1, t.screen.cursor.2 + 1) } := by
        show TermScreen.mk t.screen.rows t.screen.cols _ (TermScreen.move t.screen (.print a)) = _
        rw [TermScreen.edit_print_of_lt _ _ _ hcol, TermScreen.move_print_of_lt hcol]
        rfl
      have hstep : t.applyAll ((a :: text).map .print)
          = (t.apply (.print a)).applyAll (text.map .print) :=
        rfl
      have hrest := ih (t.apply (.print a)) (by rw [hscreen]; dsimp only; omega)
      rw [hscreen] at hrest
      rw [hstep, hrest.1, hrest.2]
      refine ⟨?_, rfl⟩
      dsimp only
      rw [overwrite_cons, List.length_cons, Nat.add_assoc, Nat.add_comm 1]

theorem applyAll_back (t : Terminal) (n : Nat) :
    (t.applyAll (if n > 0 then [.back n] else [])).screen
        = { t.screen with cursor := (t.screen.cursor.1, t.screen.cursor.2 - n) } ∧
      (t.applyAll (if n > 0 then [.back n] else [])).saved = t.saved := by
  by_cases h : n > 0
  · rw [if_pos h]
    exact ⟨rfl, rfl⟩
  · have hn : n = 0 := by omega
    subst hn
    exact ⟨rfl, rfl⟩

/-- The contents of a cell, which are nothing if nothing was printed in it. -/
def cell (t : Terminal) (row col : Nat) : Option (List Char) :=
  if row < t.screen.rows ∧ col < t.screen.cols then
    some (if t.written row col then [t.screen.cells row col] else [])
  else none

/-- The terminal as the framebuffer's screen. -/
def vt100 : Vt100 Terminal where
  process := process
  cursorPosition t := t.screen.cursor
  cell := cell
  width t := t.screen.cols
  applicationCursor _ := false
  alternateScreen _ := false

end Terminal

end Distant
