import Mathlib.Data.List.Nodup
import Mathlib.Data.List.Range

/-!
# A terminal that wraps by itself

Where a terminal of some width puts the characters of a text, each of so many columns: `put` is one
character, with the wrap that waits until the character behind the last column arrives, and
`cells` is a text. Cells are counted through the rows (`cellAt`), so that a cursor is one number, and
`columns_eq_iff` says of which texts the cells are those that follow one another.
-/

namespace Distant.AutoWrap

/-- The cell of the row and column, and the cursor behind it. A character that has no column or
does not fit a row is put in no cell. -/
def put (width : Nat) (cursor : Nat × Nat) (d : Nat) : Option (Nat × Nat) × (Nat × Nat) :=
  if d = 0 ∨ width < d then (none, cursor)
  else if cursor.2 + d ≤ width then (some cursor, (cursor.1, cursor.2 + d))
  else (some (cursor.1 + 1, 0), (cursor.1 + 1, d))

/-- The cells of a text, given by the columns of its characters. -/
def cells (width : Nat) : Nat × Nat → List Nat → List (Option (Nat × Nat))
  | _, [] => []
  | cursor, d :: ds => (put width cursor d).1 :: cells width (put width cursor d).2 ds

/-- The cell with this number. -/
def cellAt (width n : Nat) : Nat × Nat := (n / width, n % width)

/-- The number of the cell that a cursor is at, which behind a full row is that of the next row. -/
def number (width : Nat) (cursor : Nat × Nat) : Nat := cursor.1 * width + cursor.2

theorem cellAt_injective {width : Nat} : Function.Injective (cellAt width) := by
  intro n m h
  obtain ⟨hrow, hcol⟩ := Prod.ext_iff.mp h
  have hn := Nat.div_add_mod n width
  have hm := Nat.div_add_mod m width
  simp only [cellAt] at hrow hcol
  rw [hrow, hcol] at hn
  exact hn.symm.trans hm

theorem cellAt_number {width : Nat} {cursor : Nat × Nat} (h : cursor.2 < width) :
    cellAt width (number width cursor) = cursor := by
  have hw : 0 < width := by omega
  simp only [cellAt, number, Nat.mul_comm cursor.1]
  rw [Nat.mul_add_div hw, Nat.mul_add_mod, Nat.div_eq_of_lt h, Nat.mod_eq_of_lt h, Nat.add_zero]

theorem number_mod {width : Nat} (cursor : Nat × Nat) :
    number width cursor % width = cursor.2 % width := by
  simp [number, Nat.mul_comm]

/-! ## With numbers for cursors -/

/-- `put` with the cursor as the number of its cell. -/
def putAt (width n d : Nat) : Option (Nat × Nat) × Nat :=
  if d = 0 ∨ width < d then (none, n)
  else if n % width + d ≤ width then (some (cellAt width n), n + d)
  else (some (cellAt width (n + (width - n % width))), n + (width - n % width) + d)

def columns (width : Nat) : Nat → List Nat → List (Option (Nat × Nat))
  | _, [] => []
  | n, d :: ds => (putAt width n d).1 :: columns width (putAt width n d).2 ds

/-- A character is put alike by both, from a cursor in its row or behind it. -/
theorem put_eq_putAt {width : Nat} {cursor : Nat × Nat} (hw : 0 < width) (h : cursor.2 ≤ width)
    (d : Nat) :
    (put width cursor d).1 = (putAt width (number width cursor) d).1 ∧
      number width (put width cursor d).2 = (putAt width (number width cursor) d).2 ∧
      (put width cursor d).2.2 ≤ width := by
  obtain ⟨row, col⟩ := cursor
  simp only at h
  by_cases hnone : d = 0 ∨ width < d
  · simp [put, putAt, hnone, h]
  have hbegin : cellAt width (number width (row + 1, 0)) = (row + 1, 0) := cellAt_number hw
  obtain hcol | hcol : col < width ∨ col = width := by omega
  · have hcell : cellAt width (number width (row, col)) = (row, col) := cellAt_number hcol
    have hmod : number width (row, col) % width = col := by
      rw [number_mod]
      exact Nat.mod_eq_of_lt hcol
    by_cases hfit : col + d ≤ width
    · simp only [put, putAt, hnone, hmod, hcell, hfit, if_true, if_false, and_true, true_and]
      simp [number, Nat.add_assoc]
    · have hnext : number width (row, col) + (width - col) = number width (row + 1, 0) := by
        simp only [number, Nat.succ_mul]
        omega
      simp only [put, putAt, hnone, hmod, hfit, if_false, hnext, hbegin]
      simp [number]
      omega
  · -- the wrap that was waiting
    subst hcol
    have hnext : number col (row, col) = number col (row + 1, 0) := by simp [number, Nat.succ_mul]
    have hmod : number col (row + 1, 0) % col = 0 := by simp [number_mod]
    have hfit : ¬ col + d ≤ col := by omega
    have hrow : 0 + d ≤ col := by omega
    simp only [put, putAt, hnone, hnext, hmod, hfit, hrow, if_true, if_false, hbegin]
    simp [number]
    omega

theorem cells_eq_columns {width : Nat} (hw : 0 < width) (ds : List Nat) {cursor : Nat × Nat}
    (h : cursor.2 ≤ width) : cells width cursor ds = columns width (number width cursor) ds := by
  induction ds generalizing cursor with
  | nil => rfl
  | cons d ds ih =>
    obtain ⟨hcell, hnumber, hcol⟩ := put_eq_putAt hw h d
    simp only [cells, columns, hcell, ih hcol, hnumber]

/-! ## Texts without gaps -/

/-- Each character but the last has one column, and the last fits the row that it begins in. -/
def OneColumn (width : Nat) : Nat → List Nat → Prop
  | _, [] => True
  | n, [d] => 1 ≤ d ∧ n % width + d ≤ width
  | n, d :: d' :: ds => d = 1 ∧ OneColumn width (n + 1) (d' :: ds)

instance (width : Nat) : (n : Nat) → (ds : List Nat) → Decidable (OneColumn width n ds)
  | _, [] => inferInstanceAs (Decidable True)
  | n, [d] => inferInstanceAs (Decidable (1 ≤ d ∧ n % width + d ≤ width))
  | n, d :: d' :: ds =>
    have := instDecidableOneColumn width (n + 1) (d' :: ds)
    inferInstanceAs (Decidable (d = 1 ∧ OneColumn width (n + 1) (d' :: ds)))

/-- The cells from this number on. -/
def following (width n len : Nat) : List (Nat × Nat) := (List.range' n len).map (cellAt width)

theorem following_succ (width n len : Nat) :
    following width n (len + 1) = cellAt width n :: following width (n + 1) len := by
  simp [following, List.range'_succ]

theorem following_nodup (width n len : Nat) : (following width n len).Nodup := by
  have hnumbers : (List.range' n len).Nodup := List.nodup_range'
  exact hnumbers.map cellAt_injective

/-- A character is put in the cell after the cursor's number, or in one behind it. -/
theorem putAt_fst_ne {width n m d : Nat} (h : m < n) :
    (putAt width n d).1 ≠ some (cellAt width m) := by
  simp only [putAt]
  split_ifs with hnone hfit
  · simp
  · intro heq
    have := cellAt_injective (Option.some.inj heq)
    omega
  · intro heq
    have := cellAt_injective (Option.some.inj heq)
    omega

theorem putAt_one {width n : Nat} (hw : 0 < width) :
    putAt width n 1 = (some (cellAt width n), n + 1) := by
  have hmod := Nat.mod_lt n hw
  have hwidth : width ≠ 0 := by omega
  have hfit : n % width + 1 ≤ width := by omega
  simp [putAt, hwidth, hfit]

/-- A character is put where the cursor is if it has a column and fits the row. -/
theorem putAt_fst_eq_iff {width n d : Nat} (hw : 0 < width) :
    (putAt width n d).1 = some (cellAt width n) ↔ 1 ≤ d ∧ n % width + d ≤ width := by
  have hmod := Nat.mod_lt n hw
  simp only [putAt]
  split_ifs with hnone hfit
  · simp only [false_iff]
    omega
  · simp only [true_iff]
    omega
  · simp only [Option.some.injEq]
    constructor
    · intro heq
      have := cellAt_injective heq
      omega
    · omega

theorem putAt_snd {width n d : Nat} (h : 1 ≤ d ∧ n % width + d ≤ width) :
    (putAt width n d).2 = n + d := by
  have hnone : ¬ (d = 0 ∨ width < d) := by omega
  simp [putAt, hnone, h.2]

/-- The cells of a text are those that follow one another if all but the last of its characters
have one column, and the last fits. -/
theorem columns_eq_iff {width : Nat} (hw : 0 < width) (n : Nat) (ds : List Nat) :
    columns width n ds = (following width n ds.length).map some ↔ OneColumn width n ds := by
  induction ds generalizing n with
  | nil => simp [columns, following, OneColumn]
  | cons d ds ih =>
    rw [List.length_cons, following_succ, List.map_cons, columns, List.cons.injEq,
      putAt_fst_eq_iff hw]
    cases ds with
    | nil => simp [columns, following, OneColumn]
    | cons d' ds =>
      constructor
      · rintro ⟨hd, hrest⟩
        rw [putAt_snd hd] at hrest
        obtain rfl | hwide : d = 1 ∨ 2 ≤ d := by omega
        · exact ⟨rfl, (ih (n + 1)).mp hrest⟩
        · rw [List.length_cons, following_succ, List.map_cons, columns, List.cons.injEq] at hrest
          exact absurd hrest.1 (putAt_fst_ne (by omega))
      · rintro ⟨rfl, hrest⟩
        have hmod := Nat.mod_lt n hw
        refine ⟨by omega, ?_⟩
        rw [putAt_one hw]
        exact (ih (n + 1)).mpr hrest

end Distant.AutoWrap
