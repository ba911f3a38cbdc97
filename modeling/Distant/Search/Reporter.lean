import Distant.Search.Matches

/-!
# The reporter of a search

The host sends what a search finds in pages, until the limit is reached or nothing more comes, then
the rest, and at last that the search is done. `reported_iff` says for which limits the pages hold
as many matches as they should.
-/

namespace Distant

/-- The options of a search that its reporter looks at. -/
structure ReporterOptions where
  limit : Option UInt64
  pagination : Option UInt64
  deriving DecidableEq, Repr

/-- The state of the loop, with what was sent so far. -/
structure Reporting where
  /-- held until reaching pagination -/
  held : List SearchQueryMatch
  /-- wraps around, as in a release build -/
  totalMatchesCnt : UInt64
  sent : List SearchResponse
  deriving DecidableEq, Repr

namespace SearchQueryReporter

variable (id : SearchId) (options : ReporterOptions)

/-- Queues a match, unless that reaches the limit sends a full page, and says whether to go on. -/
def onMatch (m : SearchQueryMatch) (r : Reporting) : Reporting × Bool :=
  let r := { r with held := r.held ++ [m], totalMatchesCnt := r.totalMatchesCnt + 1 }
  if options.limit.any (· ≤ r.totalMatchesCnt) then (r, false)
  else if options.pagination.any (·.toNat ≤ r.held.length) then
    ({ r with held := [], sent := r.sent ++ [.searchResults id r.held] }, true)
  else (r, true)

/-- The loop over the matches that come in. -/
def loop : List SearchQueryMatch → Reporting → Reporting
  | [], r => r
  | m :: ms, r =>
    match onMatch id options m r with
    | (r, true) => loop ms r
    | (r, false) => r

/-- All that is sent for a stream of matches. -/
def run (ms : List SearchQueryMatch) : List SearchResponse :=
  let r := loop id options ms ⟨[], 0, []⟩
  let remaining := if r.held = [] then [] else [.searchResults id r.held]
  r.sent ++ remaining ++ [.searchDone id]

/-! ## What is to be reported -/

/-- The first matches of the stream, as many as the limit allows. -/
def limited (limit : Option UInt64) (ms : List SearchQueryMatch) : List SearchQueryMatch :=
  match limit with
  | none => ms
  | some len => ms.take len.toNat

/-- The matches are sent in pages, none of them empty, and `SearchDone` comes last. With a page size,
no page is larger, and all but the last one are full; without one there is at most one page. -/
def Reports (ms : List SearchQueryMatch) (sent : List SearchResponse) : Prop :=
  ∃ pages : List (List SearchQueryMatch),
    sent = pages.map (.searchResults id) ++ [.searchDone id] ∧
    pages.flatten = limited options.limit ms ∧
    (∀ page ∈ pages, page ≠ []) ∧
    (∀ len, options.pagination = some len → 0 < len →
      (∀ page ∈ pages, page.length ≤ len.toNat) ∧ ∀ page ∈ pages.dropLast, page.length = len.toNat) ∧
    (options.pagination = none → pages.length ≤ 1)

/-- The matches that were seen are in full pages and in those that are held. -/
structure Paged (seen : List SearchQueryMatch) (r : Reporting)
    (pages : List (List SearchQueryMatch)) : Prop where
  sent : r.sent = pages.map (.searchResults id)
  all : pages.flatten ++ r.held = seen
  count : r.totalMatchesCnt = UInt64.ofNat seen.length
  nonempty : ∀ page ∈ pages, page ≠ []
  full : ∀ len, options.pagination = some len → 0 < len → ∀ page ∈ pages, page.length = len.toNat
  single : options.pagination = none → pages = []

/-- The loop goes on: neither the limit nor the page size has been reached. -/
structure Below (seen : List SearchQueryMatch) (r : Reporting) : Prop where
  limit : ∀ len, options.limit = some len → seen.length < len.toNat
  page : ∀ len, options.pagination = some len → 0 < len → r.held.length < len.toNat

variable {id options} {seen ms : List SearchQueryMatch} {r : Reporting}
  {pages : List (List SearchQueryMatch)} {m : SearchQueryMatch}

/-- The count has not wrapped around before the limit is reached. -/
theorem le_count_iff {len count : UInt64} (h : seen.length < len.toNat)
    (hcount : count = UInt64.ofNat seen.length) : len ≤ count + 1 ↔ seen.length + 1 = len.toNat := by
  have hlen := len.toNat_lt
  rw [UInt64.le_iff_toNat_le, hcount, UInt64.toNat_add, UInt64.toNat_ofNat', UInt64.toNat_one]
  rw [Nat.mod_eq_of_lt (by omega : seen.length < 2 ^ 64),
    Nat.mod_eq_of_lt (by omega : seen.length + 1 < 2 ^ 64)]
  omega

/-- One match is queued. -/
theorem Paged.queue (h : Paged id options seen r pages) (m : SearchQueryMatch) :
    Paged id options (seen ++ [m])
      { r with held := r.held ++ [m], totalMatchesCnt := r.totalMatchesCnt + 1 } pages where
  sent := h.sent
  all := by rw [← h.all, List.append_assoc]
  count := by
    show r.totalMatchesCnt + 1 = _
    rw [h.count, List.length_append, List.length_singleton, UInt64.ofNat_add]
    rfl
  nonempty := h.nonempty
  full := h.full
  single := h.single

/-- What is held is sent as a page. -/
theorem Paged.send (h : Paged id options seen r pages) (hheld : r.held ≠ [])
    {size : UInt64} (hpage : options.pagination = some size)
    (hsize : 0 < size → r.held.length = size.toNat) :
    Paged id options seen { r with held := [], sent := r.sent ++ [.searchResults id r.held] }
      (pages ++ [r.held]) where
  sent := by
    show r.sent ++ _ = _
    rw [h.sent, List.map_append]
    rfl
  all := by
    rw [List.append_nil, List.flatten_append, List.flatten_singleton]
    exact h.all
  count := h.count
  nonempty := by
    intro page hmem
    rcases List.mem_append.mp hmem with hmem | hmem
    · exact h.nonempty page hmem
    · rwa [List.mem_singleton.mp hmem]
  full := by
    intro len hlen hpos page hmem
    rcases List.mem_append.mp hmem with hmem | hmem
    · exact h.full len hlen hpos page hmem
    · rw [hpage] at hlen
      cases hlen
      rw [List.mem_singleton.mp hmem]
      exact hsize hpos
  single := fun hnone => by
    rw [hpage] at hnone
    cases hnone

/-- What one match does: the loop goes on below the limit, or ends exactly at it. -/
theorem onMatch_spec (h : Paged id options seen r pages) (hbelow : Below options seen r)
    (m : SearchQueryMatch) :
    ∃ pages', Paged id options (seen ++ [m]) (onMatch id options m r).1 pages' ∧
      (∀ len, options.pagination = some len → 0 < len →
        (onMatch id options m r).1.held.length ≤ len.toNat) ∧
      ((onMatch id options m r).2 = true → Below options (seen ++ [m]) (onMatch id options m r).1) ∧
      ((onMatch id options m r).2 = false →
        ∃ len, options.limit = some len ∧ (seen ++ [m]).length = len.toNat) := by
  have hqueue := h.queue m
  have hroom : ∀ len, options.pagination = some len → 0 < len →
      (r.held ++ [m]).length ≤ len.toNat := by
    intro len hlen hpos
    rw [List.length_append]
    exact hbelow.page len hlen hpos
  unfold onMatch
  by_cases hlimit : options.limit.any (· ≤ r.totalMatchesCnt + 1) = true
  · simp only [if_pos hlimit]
    refine ⟨pages, hqueue, hroom, nofun, fun _ => ?_⟩
    obtain ⟨len, hlen, hle⟩ := (Option.any_eq_true _ _).mp hlimit
    refine ⟨len, hlen, ?_⟩
    rw [List.length_append]
    exact (le_count_iff (hbelow.limit len hlen) h.count).mp (of_decide_eq_true hle)
  · have hnext : ∀ len, options.limit = some len → (seen ++ [m]).length < len.toNat := by
      intro len hlen
      have hlt := hbelow.limit len hlen
      have hnot := mt (le_count_iff hlt h.count).mpr fun hle => hlimit (by simpa [hlen] using hle)
      rw [List.length_append, List.length_singleton]
      omega
    simp only [if_neg hlimit]
    by_cases hpage : options.pagination.any (·.toNat ≤ (r.held ++ [m]).length) = true
    · simp only [if_pos hpage]
      obtain ⟨size, hsize, hle⟩ := (Option.any_eq_true _ _).mp hpage
      have hfull : 0 < size → (r.held ++ [m]).length = size.toNat := fun hpos =>
        Nat.le_antisymm (hroom size hsize hpos) (of_decide_eq_true hle)
      refine ⟨_, hqueue.send (by simp) hsize hfull, fun _ _ _ => Nat.zero_le _, fun _ => ?_, nofun⟩
      exact ⟨hnext, fun len _ hpos => UInt64.lt_iff_toNat_lt.mp hpos⟩
    · simp only [if_neg hpage]
      refine ⟨pages, hqueue, hroom, fun _ => ⟨hnext, fun len hlen _ => ?_⟩, nofun⟩
      by_contra hle
      exact hpage (by simpa [hlen] using hle)

theorem loop_spec (h : Paged id options seen r pages) (hbelow : Below options seen r)
    (ms : List SearchQueryMatch) :
    ∃ pages', Paged id options (limited options.limit (seen ++ ms)) (loop id options ms r) pages' ∧
      ∀ len, options.pagination = some len → 0 < len →
        (loop id options ms r).held.length ≤ len.toNat := by
  induction ms generalizing seen r pages with
  | nil =>
      have hall : limited options.limit seen = seen := by
        unfold limited
        cases hlimit : options.limit with
        | none => rfl
        | some len => exact List.take_of_length_le (Nat.le_of_lt (hbelow.limit len hlimit))
      rw [List.append_nil, hall]
      exact ⟨pages, h, fun len hlen hpos => Nat.le_of_lt (hbelow.page len hlen hpos)⟩
  | cons m ms ih =>
      obtain ⟨pages', hpaged, hheld, hnext, hlast⟩ := onMatch_spec h hbelow m
      rw [List.append_cons, loop]
      cases hon : onMatch id options m r with
      | mk r' goesOn =>
          rw [hon] at hpaged hheld hnext hlast
          cases goesOn with
          | true => exact ih hpaged (hnext rfl)
          | false =>
              obtain ⟨len, hlimit, hlen⟩ := hlast rfl
              have hall : limited options.limit (seen ++ [m] ++ ms) = seen ++ [m] := by
                rw [hlimit, limited, ← hlen, List.take_left]
              rw [hall]
              exact ⟨pages', hpaged, hheld⟩

theorem reports_of_paged (h : Paged id options (limited options.limit ms) r pages)
    (hheld : ∀ len, options.pagination = some len → 0 < len → r.held.length ≤ len.toNat) :
    Reports id options ms (r.sent ++ (if r.held = [] then [] else [.searchResults id r.held]) ++
      [.searchDone id]) := by
  by_cases hnil : r.held = []
  · have hall := h.all
    rw [hnil, List.append_nil] at hall
    refine ⟨pages, by rw [if_pos hnil, List.append_nil, h.sent], hall, h.nonempty, ?_, ?_⟩
    · intro len hlen hpos
      have hfull := h.full len hlen hpos
      exact ⟨fun page hmem => le_of_eq (hfull page hmem),
        fun page hmem => hfull page (List.dropLast_subset _ hmem)⟩
    · intro hnone
      rw [h.single hnone]
      exact Nat.zero_le _
  · refine ⟨pages ++ [r.held], ?_, ?_, ?_, ?_, ?_⟩
    · rw [if_neg hnil, h.sent, List.map_append]
      rfl
    · rw [List.flatten_append, List.flatten_singleton]
      exact h.all
    · intro page hmem
      rcases List.mem_append.mp hmem with hmem | hmem
      · exact h.nonempty page hmem
      · rwa [List.mem_singleton.mp hmem]
    · intro len hlen hpos
      have hfull := h.full len hlen hpos
      rw [List.dropLast_concat]
      refine ⟨fun page hmem => ?_, hfull⟩
      rcases List.mem_append.mp hmem with hmem | hmem
      · exact le_of_eq (hfull page hmem)
      · rw [List.mem_singleton.mp hmem]
        exact hheld len hlen hpos
    · intro hnone
      rw [h.single hnone]
      exact Nat.le_refl _

theorem reports_of_limit (h : options.limit ≠ some 0) (ms : List SearchQueryMatch) :
    Reports id options ms (run id options ms) := by
  have hstart : Paged id options [] ⟨[], 0, []⟩ [] := ⟨rfl, rfl, rfl, nofun, nofun, fun _ => rfl⟩
  have hbelow : Below options [] ⟨[], 0, []⟩ := by
    refine ⟨fun len hlen => Nat.pos_of_ne_zero fun hzero => ?_, fun len _ hpos => ?_⟩
    · exact h (by rw [hlen, UInt64.toNat_inj.mp (hzero.trans UInt64.toNat_zero.symm)])
    · exact UInt64.lt_iff_toNat_lt.mp hpos
  obtain ⟨pages, hpaged, hheld⟩ := loop_spec hstart hbelow ms
  exact reports_of_paged hpaged hheld

/-- The pages are what they should be unless the limit is zero: the first match is sent all the
same. -/
theorem reports_iff (id : SearchId) (options : ReporterOptions) (ms : List SearchQueryMatch) :
    Reports id options ms (run id options ms) ↔ options.limit ≠ some 0 ∨ ms = [] := by
  constructor
  · rintro ⟨pages, hsent, hall, -⟩
    by_contra hnot
    obtain ⟨hlimit, hne⟩ := not_or.mp hnot
    rw [not_not] at hlimit
    obtain ⟨m, ms, rfl⟩ := List.exists_cons_of_ne_nil hne
    have hrun : run id options (m :: ms) = [.searchResults id [m], .searchDone id] := by
      simp [run, loop, onMatch, hlimit]
    have hnil : pages.flatten = [] := by
      rw [hall, hlimit]
      rfl
    have hpages : [SearchResponse.searchResults id [m]] = pages.map (.searchResults id) :=
      (List.append_inj' (hrun.symm.trans hsent : [_] ++ [_] = _) rfl).1
    rw [List.flatten_eq_nil_iff] at hnil
    cases pages with
    | nil => cases hpages
    | cons page pages =>
        rw [hnil page List.mem_cons_self] at hpages
        cases hpages
  · rintro (hlimit | rfl)
    · exact reports_of_limit hlimit ms
    · exact ⟨[], rfl, by cases h : options.limit <;> simp [limited], nofun, fun _ _ _ => ⟨nofun, nofun⟩,
        fun _ => Nat.zero_le _⟩

/-- Nothing is to be sent but that the search is done. -/
def limitZero : ReporterOptions := ⟨some 0, none⟩

theorem not_reports : ¬ Reports 7 limitZero [.path ⟨['a'], []⟩]
    (run 7 limitZero [.path ⟨['a'], []⟩]) := by
  rw [reports_iff]
  rintro (h | h)
  · exact h rfl
  · cases h

end SearchQueryReporter

end Distant
