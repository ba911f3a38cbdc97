import Mathlib.Algebra.GroupWithZero.Nat
import Distant.Lib.Unicode

/-!
# Hosts

A host is an address or a name. What parses and displays addresses is that of the standard library,
`StdNet`. A name is read by one pass over its characters, which counts the letters and numbers of the
label that it is in.

`IsAccepted` says which texts the pass lets through (`fromStr_eq_name_iff`), and `IsHostname` what a
name should be. `hostname_iff` compares the two.
-/

namespace Distant

/-! ## Addresses -/

/-- What is used of `std::net`. -/
structure StdNet where
  Ipv4Addr : Type
  Ipv6Addr : Type
  /-- `parse::<Ipv4Addr>` -/
  parseIpv4 : String → Option Ipv4Addr
  /-- `parse::<Ipv6Addr>` -/
  parseIpv6 : String → Option Ipv6Addr
  displayIpv4 : Ipv4Addr → String
  displayIpv6 : Ipv6Addr → String

/-- Represents the host of a destination. -/
inductive Host (net : StdNet) where
  | ipv4 (x : net.Ipv4Addr)
  | ipv6 (x : net.Ipv6Addr)
  | name (s : String)

namespace Host

def isIpv6 {net : StdNet} : Host net → Bool
  | ipv6 _ => true
  | _ => false

def display {net : StdNet} : Host net → String
  | ipv4 x => net.displayIpv4 x
  | ipv6 x => net.displayIpv6 x
  | name s => s

end Host

inductive HostParseError where
  | emptyLabel
  | endsWithHyphen
  | endsWithPeriod
  | invalidLabel
  | largeLabel
  | largeName
  | startsWithHyphen
  | startsWithPeriod
  deriving DecidableEq, Repr

def HostParseError.intoStaticStr : HostParseError → String
  | emptyLabel => "Hostname cannot have an empty label"
  | endsWithHyphen => "Hostname cannot end with hyphen ('-')"
  | endsWithPeriod => "Hostname cannot end with period ('.')"
  | invalidLabel => "Hostname label can only be a-zA-Z0-9 or hyphen ('-')"
  | largeLabel => "Hostname label larger cannot be larger than 63 characters"
  | largeName => "Hostname cannot be larger than 253 characters"
  | startsWithHyphen => "Hostname cannot start with hyphen ('-')"
  | startsWithPeriod => "Hostname cannot start with period ('.')"

/-! ## Parsing -/

/-- `n + 1` on `i32` -/
def incrementI32 (n : Nat) : Except Panic Nat :=
  if n + 1 < 2 ^ 31 then .ok (n + 1) else .error .overflow

namespace Host

/-- The loop of `from_str` over the characters, the first of which has `i` bytes in front of it:
the last character, if all of them are ones that a name can have. -/
def checkName (u : Unicode) :
    List Char → Nat → Nat → Option Char → Except Panic (Except HostParseError (Option Char))
  | [], _, _, lastChar => .ok (.ok lastChar)
  | c :: cs, i, labelSizeCnt, _ =>
    if 253 ≤ i then .ok (.error .largeName)
    else if i = 0 ∧ c = '.' then .ok (.error .startsWithPeriod)
    else if i = 0 ∧ c = '-' then .ok (.error .startsWithHyphen)
    else if u.isAlphanumeric c then
      match incrementI32 labelSizeCnt with
      | .error p => .error p
      | .ok labelSizeCnt =>
        if 63 < labelSizeCnt then .ok (.error .largeLabel)
        else checkName u cs (i + c.utf8Size) labelSizeCnt (some c)
    else if c = '.' then
      -- back-to-back dots would be an empty label
      if labelSizeCnt = 0 then .ok (.error .emptyLabel)
      else checkName u cs (i + c.utf8Size) 0 (some c)
    else if c ≠ '-' then .ok (.error .invalidLabel)
    else checkName u cs (i + c.utf8Size) labelSizeCnt (some c)

/-- `FromStr for Host` -/
def fromStr (net : StdNet) (u : Unicode) (s : String) :
    Except Panic (Except HostParseError (Host net)) :=
  match net.parseIpv4 s with
  | some x => .ok (.ok (.ipv4 x))
  | none =>
    match net.parseIpv6 s with
    | some x => .ok (.ok (.ipv6 x))
    | none =>
      if s.isEmpty then .ok (.error .invalidLabel)
      else
        match checkName u s.toList 0 0 none with
        | .error p => .error p
        | .ok (.error e) => .ok (.error e)
        | .ok (.ok lastChar) =>
          if lastChar = some '.' then .ok (.error .endsWithPeriod)
          else if lastChar = some '-' then .ok (.error .endsWithHyphen)
          else .ok (.ok (.name s))

/-! ## What is let through -/

/-- How many letters and numbers there are. -/
def countAlphanumeric (u : Unicode) (label : List Char) : Nat := label.countP u.isAlphanumeric

/-- Each character begins among the first 253 bytes, when `i` bytes stand in front of the first. -/
def FitsFrom : Nat → List Char → Prop
  | _, [] => True
  | i, c :: cs => i < 253 ∧ FitsFrom (i + c.utf8Size) cs

/-- The labels have letters, numbers and hyphens, and not too many of the first two, `cnt` of which
have been counted. Only the last label may have none. -/
def LabelsFrom (u : Unicode) : Nat → List (List Char) → Prop
  | _, [] => True
  | cnt, label :: labels =>
    (∀ c ∈ label, u.isAlphanumeric c = true ∨ c = '-') ∧
      cnt + countAlphanumeric u label ≤ 63 ∧
      (labels ≠ [] → cnt + countAlphanumeric u label ≠ 0) ∧ LabelsFrom u 0 labels

section Labels

variable {net : StdNet} {u : Unicode} {c : Char} {cs : List Char} {i cnt : Nat}
  {lastChar last : Option Char} {label : List Char} {labels : List (List Char)}

theorem splitOn_dot (cs : List Char) : ('.' :: cs).splitOn '.' = [] :: cs.splitOn '.' := by
  rw [List.splitOn_eq_splitOnP, List.splitOnP_cons_eq_if_modifyHead, if_pos (by rfl),
    List.splitOn_eq_splitOnP]

theorem splitOn_cons (hc : c ≠ '.') (cs : List Char) :
    ∃ label labels, cs.splitOn '.' = label :: labels ∧
      (c :: cs).splitOn '.' = (c :: label) :: labels := by
  cases hcs : cs.splitOn '.' with
  | nil => exact absurd hcs (List.splitOn_ne_nil _ _)
  | cons label labels =>
      refine ⟨label, labels, rfl, ?_⟩
      rw [List.splitOn_eq_splitOnP] at hcs ⊢
      rw [List.splitOnP_cons_eq_if_modifyHead, if_neg (by simpa using hc), hcs, List.modifyHead_cons]

theorem labelsFrom_cons (u : Unicode) (cnt : Nat) (label : List Char) (labels : List (List Char)) :
    LabelsFrom u cnt (label :: labels) ↔
      (∀ c ∈ label, u.isAlphanumeric c = true ∨ c = '-') ∧
        cnt + countAlphanumeric u label ≤ 63 ∧
        (labels ≠ [] → cnt + countAlphanumeric u label ≠ 0) ∧ LabelsFrom u 0 labels := Iff.rfl

theorem labelsFrom_dot :
    LabelsFrom u cnt (('.' :: cs).splitOn '.') ↔
      cnt ≠ 0 ∧ cnt ≤ 63 ∧ LabelsFrom u 0 (cs.splitOn '.') := by
  rw [splitOn_dot, labelsFrom_cons]
  have hne : cs.splitOn '.' ≠ [] := List.splitOn_ne_nil _ _
  simp only [countAlphanumeric, List.countP_nil, Nat.add_zero]
  constructor
  · rintro ⟨-, hle, hpos, hrest⟩
    exact ⟨hpos hne, hle, hrest⟩
  · rintro ⟨hpos, hle, hrest⟩
    exact ⟨by simp, hle, fun _ => hpos, hrest⟩

theorem labelsFrom_alphanumeric (hc : u.isAlphanumeric c = true) (hdot : c ≠ '.') :
    LabelsFrom u cnt ((c :: cs).splitOn '.') ↔ LabelsFrom u (cnt + 1) (cs.splitOn '.') := by
  obtain ⟨label, labels, hcs, hccs⟩ := splitOn_cons hdot cs
  have hcount : cnt + countAlphanumeric u (c :: label) = cnt + 1 + countAlphanumeric u label := by
    rw [countAlphanumeric, List.countP_cons_of_pos hc, countAlphanumeric]
    omega
  rw [hcs, hccs, labelsFrom_cons, labelsFrom_cons, hcount, List.forall_mem_cons]
  exact and_congr_left fun _ => and_iff_right (Or.inl hc)

theorem labelsFrom_hyphen (hc : u.isAlphanumeric '-' = false) :
    LabelsFrom u cnt (('-' :: cs).splitOn '.') ↔ LabelsFrom u cnt (cs.splitOn '.') := by
  obtain ⟨label, labels, hcs, hccs⟩ := splitOn_cons (c := '-') (by decide) cs
  have hcount : countAlphanumeric u ('-' :: label) = countAlphanumeric u label := by
    rw [countAlphanumeric, List.countP_cons_of_neg (by rw [hc]; decide), countAlphanumeric]
  rw [hcs, hccs, labelsFrom_cons, labelsFrom_cons, hcount, List.forall_mem_cons]
  exact and_congr_left fun _ => and_iff_right (Or.inr rfl)

theorem labelsFrom_le (h : LabelsFrom u cnt (cs.splitOn '.')) : cnt ≤ 63 := by
  cases hcs : cs.splitOn '.' with
  | nil => exact absurd hcs (List.splitOn_ne_nil _ _)
  | cons label labels =>
      rw [hcs] at h
      exact (Nat.le_add_right _ _).trans h.2.1

/-- Other characters are in no label. -/
theorem not_labelsFrom (hc : u.isAlphanumeric c = false) (hdot : c ≠ '.') (hhyphen : c ≠ '-') :
    ¬ LabelsFrom u cnt ((c :: cs).splitOn '.') := by
  obtain ⟨label, labels, -, hccs⟩ := splitOn_cons hdot cs
  rw [hccs, labelsFrom_cons, List.forall_mem_cons, hc]
  rintro ⟨⟨hmem, -⟩, -⟩
  rcases hmem with hmem | hmem
  · cases hmem
  · exact hhyphen hmem

/-- The counter stays far below what an `i32` can hold. -/
theorem exists_checkName (u : Unicode) (cs : List Char) (i : Nat) (hcnt : cnt ≤ 63)
    (lastChar : Option Char) : ∃ r, checkName u cs i cnt lastChar = .ok r := by
  induction cs generalizing i cnt lastChar with
  | nil => exact ⟨_, rfl⟩
  | cons c cs ih =>
      have hincrement : incrementI32 cnt = .ok (cnt + 1) := if_pos (by omega)
      rw [checkName, hincrement]
      simp only
      split_ifs
      · exact ⟨_, rfl⟩
      · exact ⟨_, rfl⟩
      · exact ⟨_, rfl⟩
      · exact ⟨_, rfl⟩
      · exact ih _ (by omega) _
      · exact ⟨_, rfl⟩
      · exact ih _ (Nat.zero_le _) _
      · exact ⟨_, rfl⟩
      · exact ih _ hcnt _

theorem exists_fromStr (net : StdNet) (u : Unicode) (s : String) :
    ∃ r, fromStr net u s = .ok r := by
  obtain ⟨r, hr⟩ := exists_checkName u s.toList 0 (Nat.zero_le 63) none
  unfold fromStr
  rw [hr]
  cases net.parseIpv4 s with
  | some x => exact ⟨_, rfl⟩
  | none =>
      cases net.parseIpv6 s with
      | some x => exact ⟨_, rfl⟩
      | none =>
          cases r with
          | error e =>
              simp only
              split_ifs
              · exact ⟨_, rfl⟩
              · exact ⟨_, rfl⟩
          | ok last =>
              simp only
              split_ifs
              · exact ⟨_, rfl⟩
              · exact ⟨_, rfl⟩
              · exact ⟨_, rfl⟩
              · exact ⟨_, rfl⟩

theorem getLast_or (c : Char) (cs : List Char) (lastChar : Option Char) :
    (c :: cs).getLast?.or lastChar = cs.getLast?.or (some c) := by
  cases cs with
  | nil => rfl
  | cons d cs => simp [List.getLast?_cons]

/-- What the pass lets through, and which character is the last one. -/
theorem checkName_eq_ok_iff (hu : u.Documented) (hcnt : cnt ≤ 63) :
    checkName u cs i cnt lastChar = .ok (.ok last) ↔
      (i = 0 → cs.head? ≠ some '.' ∧ cs.head? ≠ some '-') ∧ FitsFrom i cs ∧
        LabelsFrom u cnt (cs.splitOn '.') ∧ last = cs.getLast?.or lastChar := by
  -- over the characters that are left; the counter is that of the label that is open
  induction cs generalizing i cnt lastChar with
  | nil =>
      rw [checkName, Except.ok.injEq, Except.ok.injEq]
      constructor
      · rintro rfl
        refine ⟨fun _ => by simp, trivial, ?_, rfl⟩
        exact ⟨by simp, hcnt, fun h => absurd rfl h, trivial⟩
      · rintro ⟨-, -, -, hlast⟩
        exact hlast.symm
  | cons c cs ih =>
      have hdot : u.isAlphanumeric '.' = false := hu.alphanumeric rfl
      have hhyphen : u.isAlphanumeric '-' = false := hu.alphanumeric rfl
      have hincrement : incrementI32 cnt = .ok (cnt + 1) := if_pos (by omega)
      have hnext : ¬ i + c.utf8Size = 0 := by
        have := c.utf8Size_pos
        omega
      rw [checkName, hincrement, FitsFrom, getLast_or, List.head?_cons]
      -- the checks come in the order of the source: the size, the first character, the letters
      by_cases hi : 253 ≤ i
      · rw [if_pos hi]
        exact iff_of_false (by simp) fun h => absurd h.2.1.1 (by omega)
      rw [if_neg hi]
      by_cases hperiod : i = 0 ∧ c = '.'
      · rw [if_pos hperiod]
        exact iff_of_false (by simp) fun h => (h.1 hperiod.1).1 (congrArg some hperiod.2)
      rw [if_neg hperiod]
      by_cases hfirst : i = 0 ∧ c = '-'
      · rw [if_pos hfirst]
        exact iff_of_false (by simp) fun h => (h.1 hfirst.1).2 (congrArg some hfirst.2)
      rw [if_neg hfirst]
      have hstart : i = 0 → some c ≠ some '.' ∧ some c ≠ some '-' := fun h =>
        ⟨fun heq => hperiod ⟨h, Option.some.inj heq⟩, fun heq => hfirst ⟨h, Option.some.inj heq⟩⟩
      by_cases hc : u.isAlphanumeric c = true
      · have hne : c ≠ '.' := by
          rintro rfl
          rw [hdot] at hc
          cases hc
        -- it is counted, and the label may be full
        rw [if_pos hc, labelsFrom_alphanumeric hc hne]
        simp only
        split_ifs with hlarge
        · refine iff_of_false (by simp) fun h => ?_
          have hle := labelsFrom_le h.2.2.1
          omega
        · rw [ih (by omega)]
          grind
      · rw [if_neg hc]
        rw [Bool.not_eq_true] at hc
        by_cases hc' : c = '.'
        · subst hc'
          -- a dot closes the label, which must not be empty
          rw [if_pos rfl, labelsFrom_dot]
          split_ifs with hcount
          · exact iff_of_false (by simp) fun h => h.2.2.1.1 hcount
          · rw [ih (Nat.zero_le _)]
            grind
        · rw [if_neg hc']
          by_cases hc'' : c = '-'
          · subst hc''
            -- a hyphen is not counted
            rw [if_neg (by simp), labelsFrom_hyphen hhyphen, ih hcnt]
            grind
          · rw [if_pos hc'']
            exact iff_of_false (by simp) fun h => not_labelsFrom hc hc' hc'' h.2.2.1

theorem fitsFrom_iff :
    FitsFrom i cs ↔
      ∀ pre c post, cs = pre ++ c :: post → i + (pre.map Char.utf8Size).sum < 253 := by
  induction cs generalizing i with
  | nil => simp [FitsFrom]
  | cons d cs ih =>
      rw [FitsFrom, ih]
      constructor
      · rintro ⟨hi, hrest⟩ pre c post heq
        cases pre with
        | nil => exact hi
        | cons e pre =>
            rw [List.cons_append, List.cons.injEq] at heq
            obtain ⟨rfl, heq⟩ := heq
            have := hrest pre c post heq
            rw [List.map_cons, List.sum_cons]
            omega
      · intro hall
        refine ⟨hall [] d cs rfl, fun pre c post heq => ?_⟩
        have := hall (d :: pre) c post (by rw [heq, List.cons_append])
        rw [List.map_cons, List.sum_cons] at this
        omega

/-- The last label is all of the text, or stands behind the last dot. -/
theorem splitOn_last (cs : List Char) :
    ∃ labels label, cs.splitOn '.' = labels ++ [label] ∧
      (label = cs ∨ ∃ pre, cs = pre ++ '.' :: label) := by
  by_cases hdot : '.' ∈ cs
  · obtain ⟨post, pre, hsplit, hpost⟩ := List.eq_append_cons_of_mem (List.mem_reverse.mpr hdot)
    have hcs : cs = pre.reverse ++ '.' :: post.reverse := by
      rw [← List.reverse_reverse cs, hsplit]
      simp
    refine ⟨pre.reverse.splitOn '.', post.reverse, ?_, Or.inr ⟨pre.reverse, hcs⟩⟩
    have hlabel : post.reverse.splitOn '.' = [post.reverse] :=
      List.splitOn_eq_singleton fun h => hpost (List.mem_reverse.mp h)
    rw [List.splitOn_eq_splitOnP] at hlabel ⊢
    rw [hcs, List.splitOnP_append_cons _ _ (by rfl), hlabel, List.splitOn_eq_splitOnP]
  · exact ⟨[], cs, List.splitOn_eq_singleton hdot, Or.inl rfl⟩

theorem labelsFrom_append :
    LabelsFrom u 0 (labels ++ [label]) ↔
      (∀ l ∈ labels ++ [label], (∀ c ∈ l, u.isAlphanumeric c = true ∨ c = '-') ∧
        countAlphanumeric u l ≤ 63) ∧ ∀ l ∈ labels, countAlphanumeric u l ≠ 0 := by
  induction labels with
  | nil => simp [LabelsFrom]
  | cons l labels ih =>
      have hne : labels ++ [label] ≠ [] := by simp
      rw [List.cons_append, labelsFrom_cons, ih, List.forall_mem_cons, List.forall_mem_cons]
      simp only [Nat.zero_add, ne_eq, hne, not_false_eq_true, forall_const]
      tauto

/-! ## Names -/

/-- The texts that are let through: labels with one to 63 letters and numbers, of any script, and
hyphens that are not counted and not at either end of the whole text. -/
structure IsAccepted (u : Unicode) (s : List Char) : Prop where
  size : ∀ pre c post, s = pre ++ c :: post → (pre.map Char.utf8Size).sum < 253
  labels : ∀ label ∈ s.splitOn '.', (∀ c ∈ label, u.isAlphanumeric c = true ∨ c = '-') ∧
    1 ≤ countAlphanumeric u label ∧ countAlphanumeric u label ≤ 63
  first : s.head? ≠ some '-'
  last : s.getLast? ≠ some '-'

/-- One to 63 letters and digits of ASCII and hyphens, which are at neither end. -/
structure IsLabel (label : List Char) : Prop where
  nonempty : label ≠ []
  length : label.length ≤ 63
  chars : ∀ c ∈ label, c.isAlphanum = true ∨ c = '-'
  first : label.head? ≠ some '-'
  last : label.getLast? ≠ some '-'

/-- What is documented of a name. -/
structure IsHostname (s : List Char) : Prop where
  length : s.length ≤ 253
  labels : ∀ label ∈ s.splitOn '.', IsLabel label

/-- What the pass does not look for in a label: a character that is not ASCII, more than 63
characters with the hyphens, a hyphen at an end. -/
def Exceeds (label : List Char) : Prop :=
  (∃ c ∈ label, isAscii c = false) ∨ 63 < label.length ∨ label.head? = some '-' ∨
    label.getLast? = some '-'

/-- A label with a letter or number ends the text in a character that is not a dot. -/
theorem getLast_of_label (h : label = cs ∨ ∃ pre, cs = pre ++ '.' :: label) (hne : label ≠ []) :
    cs.getLast? = label.getLast? := by
  rcases h with rfl | ⟨pre, rfl⟩
  · rfl
  · rw [List.getLast?_append_cons]
    cases label with
    | nil => exact absurd rfl hne
    | cons c label => rw [List.getLast?_cons_cons]

theorem IsAccepted.last_ne_dot (hu : u.Documented) (h : IsAccepted u cs) :
    cs.getLast? ≠ some '.' := by
  obtain ⟨labels, label, hsplit, hlabel⟩ := splitOn_last cs
  obtain ⟨hchars, hpos, -⟩ := h.labels label (by simp [hsplit])
  have hne : label ≠ [] := by
    rintro rfl
    cases hpos
  rw [getLast_of_label hlabel hne]
  intro hlast
  have hdot : u.isAlphanumeric '.' = false := hu.alphanumeric rfl
  rcases hchars '.' (List.mem_of_getLast? hlast) with halnum | heq
  · rw [hdot] at halnum
    cases halnum
  · exact absurd heq (by decide)

theorem IsAccepted.exists_cons (h : IsAccepted u cs) : ∃ c rest, cs = c :: rest ∧ c ≠ '.' := by
  cases cs with
  | nil =>
      have hpos := (h.labels [] (by simp)).2.1
      cases hpos
  | cons c rest =>
      refine ⟨c, rest, rfl, ?_⟩
      rintro rfl
      have hpos := (h.labels [] (by simp [splitOn_dot])).2.1
      cases hpos

/-- The pass, with the checks of the last character after it, is `IsAccepted`. -/
theorem isAccepted_iff (hu : u.Documented) :
    IsAccepted u cs ↔
      cs ≠ [] ∧ ((cs.head? ≠ some '.' ∧ cs.head? ≠ some '-') ∧ FitsFrom 0 cs ∧
        LabelsFrom u 0 (cs.splitOn '.')) ∧ cs.getLast? ≠ some '.' ∧ cs.getLast? ≠ some '-' := by
  rw [fitsFrom_iff]
  simp only [Nat.zero_add]
  obtain ⟨labels, label, hsplit, hlabel⟩ := splitOn_last cs
  constructor
  · intro h
    obtain ⟨c, rest, rfl, hc⟩ := h.exists_cons
    refine ⟨List.cons_ne_nil _ _, ⟨⟨?_, h.first⟩, h.size, ?_⟩, h.last_ne_dot hu, h.last⟩
    · exact fun heq => hc (Option.some.inj heq)
    · rw [hsplit, labelsFrom_append, ← hsplit]
      refine ⟨fun l hl => ⟨(h.labels l hl).1, (h.labels l hl).2.2⟩, fun l hl => ?_⟩
      have hpos := (h.labels l (by simp [hsplit, hl])).2.1
      omega
  · rintro ⟨hne, ⟨hhead, hsize, hlabels⟩, hdot, hhyphen⟩
    rw [hsplit, labelsFrom_append, ← hsplit] at hlabels
    obtain ⟨hall, hfull⟩ := hlabels
    refine ⟨hsize, fun l hl => ⟨(hall l hl).1, ?_, (hall l hl).2⟩, hhead.2, hhyphen⟩
    rw [hsplit, List.mem_append, List.mem_singleton] at hl
    rcases hl with hl | rfl
    · have hpos := hfull l hl
      omega
    · -- the last label has the last character, which is no dot and no hyphen
      have hlne : l ≠ [] := by
        rintro rfl
        rcases hlabel with heq | ⟨pre, heq⟩
        · exact hne heq.symm
        · exact hdot (by rw [heq, List.getLast?_append_cons]; rfl)
      have hlast := getLast_of_label hlabel hlne
      rw [List.getLast?_eq_some_getLast hlne] at hlast
      have hmem := List.getLast_mem hlne
      rcases (hall l (by simp [hsplit])).1 _ hmem with halnum | heq
      · exact List.countP_pos_iff.mpr ⟨_, hmem, halnum⟩
      · exact absurd (hlast.trans (congrArg some heq)) hhyphen

theorem fromStr_eq_name_iff (hu : u.Documented) {s : String} (h4 : net.parseIpv4 s = none)
    (h6 : net.parseIpv6 s = none) :
    fromStr net u s = .ok (.ok (.name s)) ↔ IsAccepted u s.toList := by
  have hempty : s.isEmpty = true ↔ s.toList = [] := by
    rw [String.isEmpty_iff, String.toList_eq_nil_iff]
  rw [isAccepted_iff hu, fromStr, h4, h6]
  simp only
  split_ifs with hnil
  · exact iff_of_false (by simp) fun h => h.1 (hempty.mp hnil)
  · rw [hempty] at hnil
    obtain ⟨r, hr⟩ := exists_checkName u s.toList 0 (Nat.zero_le 63) none
    have hiff (last : Option Char) : checkName u s.toList 0 0 none = .ok (.ok last) ↔ _ :=
      checkName_eq_ok_iff hu (Nat.zero_le 63)
    rw [hr] at hiff ⊢
    cases r with
    | error e =>
        refine iff_of_false (by simp) fun h => ?_
        have hok := (hiff (s.toList.getLast?.or none)).mpr
          ⟨fun _ => h.2.1.1, h.2.1.2.1, h.2.1.2.2, rfl⟩
        cases hok
    | ok last =>
        -- the last character is looked at when the pass is over
        obtain ⟨hhead, hfits, hlabels, rfl⟩ := (hiff last).mp rfl
        rw [Option.or_none]
        simp only
        split_ifs with hdot hhyphen
        · exact iff_of_false (by simp) fun h => h.2.2.1 hdot
        · exact iff_of_false (by simp) fun h => h.2.2.2 hhyphen
        · exact iff_of_true rfl ⟨hnil, ⟨hhead rfl, hfits, hlabels⟩, hdot, hhyphen⟩

/-! ## Names as documented -/

/-- In ASCII, a byte is a character. -/
theorem sum_utf8Size {pre : List Char} (h : ∀ c ∈ pre, isAscii c = true) :
    (pre.map Char.utf8Size).sum = pre.length := by
  induction pre with
  | nil => rfl
  | cons c pre ih =>
      have hc : c.utf8Size = 1 := by
        have hlt := h c List.mem_cons_self
        rw [isAscii, decide_eq_true_eq] at hlt
        rw [Char.utf8Size_eq_one_iff, UInt32.le_iff_toNat_le]
        exact Nat.le_of_lt_succ hlt
      rw [List.map_cons, List.sum_cons, hc, ih fun d hd => h d (List.mem_cons_of_mem _ hd),
        List.length_cons, Nat.add_comm]

/-- A character is a dot, or it belongs to a label. -/
theorem mem_label {s : List Char} (hc : c ∈ s) : c = '.' ∨ ∃ label ∈ s.splitOn '.', c ∈ label := by
  induction s with
  | nil => cases hc
  | cons d s ih =>
      by_cases hd : d = '.'
      · subst hd
        rw [splitOn_dot]
        rcases List.mem_cons.mp hc with rfl | hc
        · exact Or.inl rfl
        · apply (ih hc).imp_right
          rintro ⟨label, hlabel, hmem⟩
          exact ⟨label, List.mem_cons_of_mem _ hlabel, hmem⟩
      · obtain ⟨label, labels, hs, hds⟩ := splitOn_cons hd s
        rw [hs] at ih
        rw [hds]
        rcases List.mem_cons.mp hc with rfl | hc
        · exact Or.inr ⟨_, List.mem_cons_self, List.mem_cons_self⟩
        · apply (ih hc).imp_right
          rintro ⟨l, hl, hmem⟩
          rcases List.mem_cons.mp hl with rfl | hl
          · exact ⟨_, List.mem_cons_self, List.mem_cons_of_mem _ hmem⟩
          · exact ⟨l, List.mem_cons_of_mem _ hl, hmem⟩

theorem isAscii_of_labels {s : List Char}
    (h : ∀ label ∈ s.splitOn '.', ∀ c ∈ label, isAscii c = true) : ∀ c ∈ s, isAscii c = true := by
  intro c hc
  rcases mem_label hc with rfl | ⟨label, hlabel, hmem⟩
  · rfl
  · exact h label hlabel c hmem

/-- The first character belongs to the first label. -/
theorem head_label {s : List Char} (hs : s.head? = some c) (hc : c ≠ '.') :
    ∃ label ∈ s.splitOn '.', label.head? = some c := by
  cases s with
  | nil => cases hs
  | cons d s =>
      cases hs
      obtain ⟨label, labels, -, hds⟩ := splitOn_cons hc s
      exact ⟨_, by rw [hds]; exact List.mem_cons_self, rfl⟩

theorem isAscii_of_label (h : IsLabel label) : ∀ c ∈ label, isAscii c = true := by
  intro c hc
  rcases h.chars c hc with halnum | rfl
  · exact isAscii_of_isAlphanum halnum
  · rfl

/-- A name as documented is let through. -/
theorem IsHostname.isAccepted (hu : u.Documented) (h : IsHostname cs) : IsAccepted u cs := by
  have hascii := isAscii_of_labels fun label hlabel => isAscii_of_label (h.labels label hlabel)
  refine ⟨?_, ?_, ?_, ?_⟩
  · intro pre c post heq
    have hlen := congrArg List.length heq
    rw [List.length_append, List.length_cons] at hlen
    have hle := h.length
    rw [sum_utf8Size fun d hd => hascii d (by simp [heq, hd])]
    omega
  · intro label hlabel
    have hl := h.labels label hlabel
    refine ⟨?_, ?_, ?_⟩
    · intro c hc
      apply (hl.chars c hc).imp_left
      intro halnum
      rw [hu.alphanumeric (isAscii_of_label hl c hc)]
      exact halnum
    · -- it begins with a letter or digit
      obtain ⟨c, rest, rfl⟩ := List.exists_cons_of_ne_nil hl.nonempty
      have hc : c.isAlphanum = true := (hl.chars c List.mem_cons_self).resolve_right
        fun heq => hl.first (by rw [heq]; rfl)
      refine List.countP_pos_iff.mpr ⟨c, List.mem_cons_self, ?_⟩
      rw [hu.alphanumeric (isAscii_of_isAlphanum hc)]
      exact hc
    · exact List.countP_le_length.trans hl.length
  · intro hfirst
    obtain ⟨label, hlabel, hhead⟩ := head_label hfirst (by decide)
    exact (h.labels label hlabel).first hhead
  · intro hlast
    obtain ⟨labels, label, hsplit, hlabel⟩ := splitOn_last cs
    have hl := h.labels label (by simp [hsplit])
    rw [getLast_of_label hlabel hl.nonempty] at hlast
    exact hl.last hlast

/-- What is let through is a name as documented, unless a label has what the pass does not look
for. -/
theorem isHostname_iff (hu : u.Documented) :
    IsHostname cs ↔ IsAccepted u cs ∧ ∀ label ∈ cs.splitOn '.', ¬ Exceeds label := by
  constructor
  · intro h
    refine ⟨h.isAccepted hu, ?_⟩
    intro label hlabel hexceeds
    have hl := h.labels label hlabel
    rcases hexceeds with ⟨c, hc, hascii⟩ | hlong | hfirst | hlast
    · rw [isAscii_of_label hl c hc] at hascii
      cases hascii
    · exact absurd hl.length (by omega)
    · exact hl.first hfirst
    · exact hl.last hlast
  · rintro ⟨h, hexceeds⟩
    simp only [Exceeds, not_or, not_exists, not_and, Bool.not_eq_false] at hexceeds
    have hascii := isAscii_of_labels fun label hlabel => (hexceeds label hlabel).1
    constructor
    · -- the size is taken in front of the last character
      rcases cs.eq_nil_or_concat with rfl | ⟨pre, c, rfl⟩
      · exact Nat.zero_le _
      · rw [List.concat_eq_append] at hascii ⊢
        have hsize := h.size pre c [] (List.concat_eq_append ..)
        rw [sum_utf8Size fun d hd => hascii d (by simp [hd])] at hsize
        simp only [List.length_append, List.length_singleton]
        omega
    · intro label hlabel
      obtain ⟨hchars, hpos, -⟩ := h.labels label hlabel
      obtain ⟨hasciiLabel, hlong, hfirst, hlast⟩ := hexceeds label hlabel
      refine ⟨?_, by omega, ?_, hfirst, hlast⟩
      · rintro rfl
        cases hpos
      · intro c hc
        apply (hchars c hc).imp_left
        intro halnum
        rwa [hu.alphanumeric (hasciiLabel c hc)] at halnum

/-- No text makes the parser panic. For one that is no address, it yields a name exactly if the text
is a name as documented, unless the text is let through and has a label with a character that is not
ASCII, with more than 63 characters or with a hyphen at an end. -/
theorem hostname_iff (net : StdNet) (hu : u.Documented) :
    (∀ s, ∃ r, fromStr net u s = .ok r) ∧
    ∀ s, net.parseIpv4 s = none → net.parseIpv6 s = none →
      ((fromStr net u s = .ok (.ok (.name s)) ↔ IsHostname s.toList) ↔
        ¬ (IsAccepted u s.toList ∧ ∃ label ∈ s.toList.splitOn '.', Exceeds label)) := by
  refine ⟨exists_fromStr net u, fun s h4 h6 => ?_⟩
  rw [fromStr_eq_name_iff hu h4 h6, isHostname_iff hu]
  constructor
  · rintro hiff ⟨haccepted, label, hlabel, hexceeds⟩
    exact (hiff.mp haccepted).2 label hlabel hexceeds
  · intro hnot
    refine ⟨fun haccepted => ⟨haccepted, fun label hlabel hexceeds => ?_⟩, fun h => h.1⟩
    exact hnot ⟨haccepted, label, hlabel, hexceeds⟩

end Labels

/-! ### Texts that are let through -/

/-- Addresses of which there is one of each kind. -/
def loopback : StdNet where
  Ipv4Addr := Unit
  Ipv6Addr := Unit
  parseIpv4 s := if s = "127.0.0.1" then some () else none
  parseIpv6 s := if s = "::1" then some () else none
  displayIpv4 _ := "127.0.0.1"
  displayIpv6 _ := "::1"

/-- A label of 65 characters, most of which are hyphens. -/
def hyphens : String := String.ofList ('a' :: (List.replicate 63 '-' ++ ['a']))

/-- A label may end in a hyphen, and be longer than it should. -/
theorem hostname_else :
    ¬ (fromStr loopback asciiTables "a-.b" = .ok (.ok (.name "a-.b")) ↔
      IsHostname "a-.b".toList) ∧
    ¬ (fromStr loopback asciiTables hyphens = .ok (.ok (.name hyphens)) ↔
      IsHostname hyphens.toList) := by
  constructor
  · intro hiff
    have h : IsHostname "a-.b".toList := hiff.mp rfl
    exact (h.labels ['a', '-'] (by decide)).last rfl
  · intro hiff
    have h : IsHostname hyphens.toList := hiff.mp rfl
    have hlabel := h.labels hyphens.toList (by decide)
    exact absurd hlabel.length (by decide)

theorem hostname_ascii :
    (∀ s, ∃ r, fromStr loopback asciiTables s = .ok r) ∧
    ∀ s, loopback.parseIpv4 s = none → loopback.parseIpv6 s = none →
      ((fromStr loopback asciiTables s = .ok (.ok (.name s)) ↔ IsHostname s.toList) ↔
        ¬ (IsAccepted asciiTables s.toList ∧
          ∃ label ∈ s.toList.splitOn '.', Exceeds label)) :=
  hostname_iff loopback documented_asciiTables

end Host

end Distant
