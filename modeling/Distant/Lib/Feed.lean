import Mathlib.Algebra.Order.Group.Nat

/-!
# A bounded channel in front of a pipe

A task takes chunks from a channel, one after the other, and writes each into a pipe, which takes
what it has room for until somebody reads from it. Some chunks may still be waiting for room in the
channel.

A chunk gets into a channel of `capacity` chunks without anybody reading from the pipe if all chunks
before it, but for the last `capacity + 1` of the whole line, fit into the pipe (`Fits`): the last
of these stay in the channel, and the first one with the task.
-/

namespace Distant

variable {α : Type u}

/-- The length of all chunks but for the last `spare` ones. -/
def excess (spare : Nat) (line : List (List α)) : Nat :=
  (line.take (line.length - spare)).flatten.length

theorem excess_of_le {spare : Nat} {line : List (List α)} (h : line.length ≤ spare) :
    excess spare line = 0 := by
  rw [excess, Nat.sub_eq_zero_of_le h]
  rfl

theorem excess_cons {spare : Nat} {chunk : List α} {line : List (List α)} (h : spare ≤ line.length) :
    excess spare (chunk :: line) = chunk.length + excess spare line := by
  rw [excess, excess, List.length_cons, Nat.succ_sub h, List.take_succ_cons, List.flatten_cons,
    List.length_append]

theorem excess_le_cons (spare : Nat) (chunk : List α) (line : List (List α)) :
    excess spare line ≤ excess spare (chunk :: line) := by
  by_cases h : spare ≤ line.length
  · rw [excess_cons h]
    exact Nat.le_add_left _ _
  · rw [excess_of_le (Nat.le_of_not_le h)]
    exact Nat.zero_le _

theorem excess_sublist {spare : Nat} {line line' : List (List α)} (h : line'.Sublist line) :
    excess spare line' ≤ excess spare line := by
  induction h with
  | slnil => exact Nat.le_refl _
  | cons chunk _ ih => exact ih.trans (excess_le_cons spare chunk _)
  | cons_cons chunk hsub ih =>
      rename_i line' line
      by_cases hlength : spare ≤ line'.length
      · rw [excess_cons hlength, excess_cons (hlength.trans hsub.length_le)]
        exact Nat.add_le_add_left ih _
      · rw [excess_of_le (Nat.lt_of_not_le hlength)]
        exact Nat.zero_le _

/-- The more chunks are spared, the less there is. -/
theorem excess_anti {spare spare' : Nat} (h : spare ≤ spare') (line : List (List α)) :
    excess spare' line ≤ excess spare line := by
  induction line with
  | nil => simp [excess]
  | cons chunk line ih =>
      by_cases hlength : spare' ≤ line.length
      · rw [excess_cons hlength, excess_cons (h.trans hlength)]
        exact Nat.add_le_add_left ih _
      · rw [excess_of_le (Nat.lt_of_not_le hlength)]
        exact Nat.zero_le _

structure Feed (α : Type u) where
  channel : List (List α)
  /-- what is left of the chunk that is being written -/
  writing : Option (List α)
  /-- how much is in the pipe -/
  buffered : Nat

namespace Feed

def new : Feed α := ⟨[], none, 0⟩

/-- The task takes the next chunk. -/
def pull (feed : Feed α) : Option (Feed α) :=
  match feed.writing, feed.channel with
  | none, chunk :: channel => some { feed with channel := channel, writing := some chunk }
  | _, _ => none

/-- A pipe of the given size takes `n` of what is being written, and at least something. -/
def write (size : Nat) (feed : Feed α) (n : Nat) : Option (Feed α) :=
  match feed.writing with
  | some rest =>
    if n ≤ rest.length ∧ feed.buffered + n ≤ size ∧ (0 < n ∨ rest = []) then
      some { feed with
        writing := if n = rest.length then none else some (rest.drop n)
        buffered := feed.buffered + n }
    else none
  | none => none

def read (feed : Feed α) (n : Nat) : Feed α := { feed with buffered := feed.buffered - n }

def send (feed : Feed α) (chunk : List α) : Feed α := { feed with channel := feed.channel ++ [chunk] }

/-- All chunks that are not in the pipe, in order. -/
def line (feed : Feed α) (waiting : List (List α)) : List (List α) :=
  feed.writing.toList ++ feed.channel ++ waiting

/-- All chunks but for the last `spare` ones fit into the pipe. -/
def Fits (size spare : Nat) (feed : Feed α) (waiting : List (List α)) : Prop :=
  feed.buffered + excess spare (feed.line waiting) ≤ size

variable {size spare n : Nat} {feed feed' : Feed α} {waiting : List (List α)} {chunk : List α}

theorem length_pull (hpull : feed.pull = some feed') :
    feed'.channel.length ≤ feed.channel.length := by
  unfold pull at hpull
  split at hpull <;> cases hpull
  next hchannel =>
    rw [hchannel]
    exact Nat.le_succ _

theorem channel_write (hwrite : feed.write size n = some feed') : feed'.channel = feed.channel := by
  unfold write at hwrite
  split at hwrite
  · split at hwrite <;> cases hwrite
    rfl
  · cases hwrite

theorem line_send : (feed.send chunk).line waiting = feed.line (chunk :: waiting) := by
  simp [line, send]

theorem Fits.send (h : feed.Fits size spare (chunk :: waiting)) :
    (feed.send chunk).Fits size spare waiting := by
  rw [Fits, line_send]
  exact h

theorem Fits.pull (h : feed.Fits size spare waiting) (hpull : feed.pull = some feed') :
    feed'.Fits size spare waiting := by
  unfold Feed.pull at hpull
  split at hpull <;> cases hpull
  next hwriting hchannel =>
    unfold Fits line at h ⊢
    rw [hwriting, hchannel] at h
    exact h

theorem Fits.read (h : feed.Fits size spare waiting) (n : Nat) :
    (feed.read n).Fits size spare waiting :=
  (Nat.add_le_add_right (Nat.sub_le _ _) _).trans h

/-- What is written goes from the line into the pipe. -/
theorem Fits.write (h : feed.Fits size spare waiting) (hwrite : feed.write size n = some feed') :
    feed'.Fits size spare waiting := by
  unfold Feed.write at hwrite
  split at hwrite
  · next rest hwriting =>
      split at hwrite <;> cases hwrite
      next hn =>
        unfold Fits line at h ⊢
        rw [hwriting] at h
        simp only [Option.toList_some, List.cons_append, List.nil_append] at h
        by_cases hlength : spare ≤ (feed.channel ++ waiting).length
        · rw [excess_cons hlength] at h
          split
          · next hall =>
              show feed.buffered + n + excess spare (feed.channel ++ waiting) ≤ size
              omega
          · show feed.buffered + n + excess spare (rest.drop n :: (feed.channel ++ waiting)) ≤ size
            rw [excess_cons hlength, List.length_drop]
            omega
        · -- everything is spared
          have hle : (feed.channel ++ waiting).length + 1 ≤ spare := Nat.lt_of_not_le hlength
          split
          · show feed.buffered + n + excess spare (feed.channel ++ waiting) ≤ size
            rw [excess_of_le (Nat.le_of_succ_le hle)]
            exact hn.2.1
          · show feed.buffered + n + excess spare (rest.drop n :: (feed.channel ++ waiting)) ≤ size
            rw [excess_of_le hle]
            exact hn.2.1
  · cases hwrite

/-- There is room for what the channel and the task take. -/
theorem fits_new (h : waiting.length ≤ spare) : Feed.new.Fits size spare waiting := by
  unfold Fits
  show 0 + excess spare waiting ≤ size
  rw [excess_of_le h]
  exact Nat.zero_le _

/-- What is waiting fits into a new pipe. -/
theorem Fits.new (h : feed.Fits size spare waiting) : Feed.new.Fits size spare waiting := by
  unfold Fits
  show 0 + excess spare waiting ≤ size
  rw [Nat.zero_add]
  exact (excess_sublist (List.sublist_append_right _ _)).trans ((Nat.le_add_left _ _).trans h)

/-- Some chunks do not wait any more. -/
theorem Fits.sublist {waiting' : List (List α)} (h : feed.Fits size spare waiting)
    (hsub : waiting'.Sublist waiting) : feed.Fits size spare waiting' :=
  (Nat.add_le_add_left (excess_sublist (hsub.append_left _)) _).trans h

theorem Fits.anti {spare' : Nat} (h : feed.Fits size spare waiting) (hspare : spare ≤ spare') :
    feed.Fits size spare' waiting :=
  (Nat.add_le_add_left (excess_anti hspare _) _).trans h

/-- All that is being written can be written at once, if there is room for it. -/
theorem write_all {rest : List α} (hwriting : feed.writing = some rest)
    (hroom : feed.buffered + rest.length ≤ size) : feed.write size rest.length =
      some { feed with writing := none, buffered := feed.buffered + rest.length } := by
  have hsome : 0 < rest.length ∨ rest = [] := by
    rcases rest with - | ⟨a, rest⟩
    · exact .inr rfl
    · exact .inl (Nat.zero_lt_succ _)
  simp only [Feed.write, hwriting, if_pos (And.intro (le_refl _) (And.intro hroom hsome)), if_true]

/-- Of a line in which something is left to be spared, the task can write all that it has. -/
theorem Fits.writable {rest : List α} (h : feed.Fits size spare waiting)
    (hwriting : feed.writing = some rest) (hlength : spare ≤ (feed.channel ++ waiting).length) :
    feed.buffered + rest.length ≤ size := by
  unfold Fits line at h
  rw [hwriting] at h
  simp only [Option.toList_some, List.cons_append, List.nil_append] at h
  rw [excess_cons hlength] at h
  exact (Nat.add_le_add_left (Nat.le_add_right _ _) _).trans h

end Feed

end Distant
