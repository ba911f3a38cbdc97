import Distant.Client.LspMsg
import Distant.Lib.JsonMap

/-!
# What converting a scheme changes

`exchanged` is a content in which each text and each key that begins with one scheme begins with the
other instead, and nothing else is different. The code changes the first place where a text has the
scheme, wherever that is, and it puts an entry under its new key in the place of one that is there.
So `swapPrefix` is `exchanged` exactly if a text that has the scheme begins with it and no two keys
become one (`converted_iff`).

Converting back undoes this where the other scheme does not occur, also in the middle of a text
(`converted_back`).
-/

namespace Distant

variable {ν : Type}

/-! ## The first occurrence -/

section Replace

variable {old new s a b : List Char}

theorem replaceFirst_cons_of_pos {c : Char} (h : old <+: c :: s) :
    replaceFirst old new (c :: s) = new ++ (c :: s).drop old.length :=
  if_pos (List.isPrefixOf_iff_prefix.mpr h)

theorem replaceFirst_cons_of_neg {c : Char} (h : ¬ old <+: c :: s) :
    replaceFirst old new (c :: s) = c :: replaceFirst old new s :=
  if_neg (by rwa [List.isPrefixOf_iff_prefix])

theorem replaceFirst_nil (hold : old ≠ []) : replaceFirst old new [] = [] :=
  if_neg (by rwa [List.isEmpty_iff])

theorem replaceFirst_prefix (hold : old ≠ []) (s : List Char) :
    replaceFirst old new (old ++ s) = new ++ s := by
  cases old with
  | nil => exact absurd rfl hold
  | cons c old =>
      have hprefix : c :: old <+: c :: (old ++ s) := List.prefix_append (c :: old) s
      rw [List.cons_append, replaceFirst_cons_of_pos hprefix, ← List.cons_append,
        List.drop_left' rfl]

theorem replaceFirst_of_absent (h : ¬ old <:+: s) : replaceFirst old new s = s := by
  induction s with
  | nil =>
      refine replaceFirst_nil ?_
      rintro rfl
      exact h List.nil_infix
  | cons c s ih =>
      rw [replaceFirst_cons_of_neg fun hprefix => h hprefix.isInfix,
        ih fun hinside => h (hinside.trans (List.suffix_cons c s).isInfix)]

/-- Something is exchanged where there is something to exchange. -/
theorem exists_of_inside (new : List Char) (hold : old ≠ []) (h : old <:+: s) :
    ∃ a b, s = a ++ (old ++ b) ∧ replaceFirst old new s = a ++ (new ++ b) := by
  induction s with
  | nil => exact absurd (List.infix_nil.mp h) hold
  | cons c s ih =>
      by_cases hprefix : old <+: c :: s
      · obtain ⟨b, hb⟩ := hprefix
        exact ⟨[], b, hb.symm, by rw [← hb, replaceFirst_prefix hold, List.nil_append]⟩
      · have hinside : old <:+: s := (List.infix_cons_iff.mp h).resolve_left hprefix
        obtain ⟨a, b, rfl, hreplace⟩ := ih hinside
        refine ⟨c :: a, b, rfl, ?_⟩
        rw [replaceFirst_cons_of_neg hprefix, hreplace, List.cons_append]

/-- The prefix that is put in is found again, as its first character is not in the rest of it. -/
theorem replaceFirst_back {c : Char} {cs : List Char} (hc : c ∉ cs) (hold : old ≠ [])
    (h : ¬ (c :: cs) <:+: s) :
    replaceFirst (c :: cs) old (replaceFirst old (c :: cs) s) = s := by
  induction s with
  | nil => rw [replaceFirst_nil hold, replaceFirst_nil (List.cons_ne_nil c cs)]
  | cons d s ih =>
      by_cases hprefix : old <+: d :: s
      · obtain ⟨b, hb⟩ := hprefix
        rw [← hb, replaceFirst_prefix hold, replaceFirst_prefix (List.cons_ne_nil _ _)]
      · have hs : ¬ (c :: cs) <:+: s := fun hinside =>
          h (hinside.trans (List.suffix_cons d s).isInfix)
        -- what is put in further behind does not make an occurrence here
        have hfirst : ¬ (c :: cs) <+: d :: replaceFirst old (c :: cs) s := by
          intro hbegins
          by_cases hinside : old <:+: s
          · obtain ⟨a, b, rfl, hreplace⟩ := exists_of_inside (c :: cs) hold hinside
            rw [hreplace] at hbegins
            obtain ⟨rfl, hcs⟩ := List.cons_prefix_cons.mp hbegins
            rcases List.prefix_or_prefix_of_prefix hcs (List.prefix_append a _) with hshort | hlong
            · apply h
              have hall : cs <+: a ++ (old ++ b) := hshort.trans (List.prefix_append _ _)
              exact (List.cons_prefix_cons.mpr ⟨rfl, hall⟩).isInfix
            · obtain ⟨t, rfl⟩ := hlong
              rw [List.prefix_append_right_inj] at hcs
              cases t with
              | nil => exact h (List.cons_prefix_cons.mpr ⟨rfl, by simp⟩).isInfix
              | cons e t =>
                  rw [List.cons_append, List.cons_prefix_cons] at hcs
                  exact hc (by simp [hcs.1])
          · rw [replaceFirst_of_absent hinside] at hbegins
            exact h hbegins.isInfix
        rw [replaceFirst_cons_of_neg hprefix, replaceFirst_cons_of_neg hfirst, ih hs]

end Replace

/-! ## Texts -/

/-- The text with the other prefix, if it begins with the first one. -/
def exchangePrefix (old new s : String) : String :=
  if old.toList.isPrefixOf s.toList then
    String.ofList (new.toList ++ s.toList.drop old.toList.length)
  else s

/-- The text begins with the scheme if it has it at all. -/
def LeadsWith (old s : String) : Prop := old.toList <:+: s.toList → old.toList <+: s.toList

/-- Neither of the prefixes begins with the other. -/
structure Apart (old new : String) : Prop where
  nonempty : old.toList ≠ []
  left : ¬ old.toList <+: new.toList
  right : ¬ new.toList <+: old.toList

section Texts

variable {old new s k k' : String} {t : List Char}

theorem exchangePrefix_append (t : List Char) :
    exchangePrefix old new (String.ofList (old.toList ++ t)) = String.ofList (new.toList ++ t) := by
  have hprefix : old.toList.isPrefixOf (String.ofList (old.toList ++ t)).toList = true := by
    rw [String.toList_ofList, List.isPrefixOf_iff_prefix]
    exact List.prefix_append _ _
  rw [exchangePrefix, if_pos hprefix, String.toList_ofList, List.drop_left' rfl]

theorem exchangePrefix_of_not_prefix (h : ¬ old.toList <+: s.toList) :
    exchangePrefix old new s = s := by
  rw [exchangePrefix, if_neg (by rwa [List.isPrefixOf_iff_prefix])]

/-- A text either begins with the prefix or is left alone. -/
theorem exchangePrefix_cases (old new s : String) :
    (∃ t, s = String.ofList (old.toList ++ t) ∧
      exchangePrefix old new s = String.ofList (new.toList ++ t)) ∨
    (¬ old.toList <+: s.toList ∧ exchangePrefix old new s = s) := by
  by_cases h : old.toList <+: s.toList
  · obtain ⟨t, ht⟩ := h
    have hs : s = String.ofList (old.toList ++ t) := by rw [ht, String.ofList_toList]
    left
    refine ⟨t, hs, ?_⟩
    rw [hs, exchangePrefix_append]
  · exact Or.inr ⟨h, exchangePrefix_of_not_prefix h⟩

theorem Apart.symm (h : Apart old new) : Apart new old :=
  ⟨fun hnil => h.right (hnil ▸ List.nil_prefix), h.right, h.left⟩

theorem Apart.not_prefix (h : Apart old new) (t : List Char) :
    ¬ old.toList <+: new.toList ++ t := by
  intro hprefix
  rcases List.prefix_or_prefix_of_prefix hprefix (List.prefix_append _ t) with hold | hnew
  · exact h.left hold
  · exact h.right hnew

theorem exchangePrefix_back (hs : ¬ new.toList <+: s.toList) :
    exchangePrefix new old (exchangePrefix old new s) = s := by
  rcases exchangePrefix_cases old new s with ⟨t, rfl, heq⟩ | ⟨-, heq⟩
  · rw [heq, exchangePrefix_append]
  · rw [heq, exchangePrefix_of_not_prefix hs]

theorem mutateString_append (hold : old.toList ≠ []) (t : List Char) :
    mutateString old new (String.ofList (old.toList ++ t)) = String.ofList (new.toList ++ t) := by
  rw [mutateString, String.toList_ofList, replaceFirst_prefix hold]

/-- The first occurrence is the prefix if there is one. -/
theorem mutateString_eq_iff (h : Apart old new) :
    mutateString old new s = exchangePrefix old new s ↔ LeadsWith old s := by
  rcases exchangePrefix_cases old new s with ⟨t, rfl, heq⟩ | ⟨hnot, heq⟩
  · rw [heq, mutateString_append h.nonempty]
    refine iff_of_true rfl fun _ => ?_
    rw [String.toList_ofList]
    exact List.prefix_append _ _
  · rw [heq]
    constructor
    · intro hsame hinside
      obtain ⟨a, b, hs, hreplace⟩ := exists_of_inside new.toList h.nonempty hinside
      have hlist := congrArg String.toList hsame
      rw [mutateString, String.toList_ofList, hreplace, hs, List.append_cancel_left_eq] at hlist
      -- the two schemes would stand in the same place
      exact absurd ⟨b, hlist.symm⟩ (h.not_prefix b)
    · intro hleads
      have hinside : ¬ old.toList <:+: s.toList := fun hinside => hnot (hleads hinside)
      rw [mutateString, replaceFirst_of_absent hinside, String.ofList_toList]

end Texts

/-! ## Keys -/

/-- An entry is put back under its changed key. -/
def rekey (mutate : String → String) (obj : JsonMap ν) (key : String) : JsonMap ν :=
  match JsonMap.removeEntry key obj with
  | some ((key, value), obj) => JsonMap.insert (mutate key) value obj
  | none => obj

theorem mutateKeys_eq (check : String → Bool) (mutate : String → String) (obj : JsonMap ν) :
    mutateKeys check mutate obj = ((obj.map Prod.fst).filter check).foldl (rekey mutate) obj :=
  rfl

/-- No key with the one scheme is also there with the other. -/
def NoClash (old new : String) (obj : JsonMap ν) : Prop :=
  ∀ t, String.ofList (old.toList ++ t) ∈ obj.map Prod.fst →
    String.ofList (new.toList ++ t) ∉ obj.map Prod.fst

section Keys

variable {mutate : String → String} {obj : JsonMap ν} {ks : List String} {old new key : String}

theorem sorted_rekey (h : obj.Sorted) : (rekey mutate obj key).Sorted := by
  unfold rekey
  by_cases hkey : key ∈ obj.map Prod.fst
  · obtain ⟨value, rest, hremove, -, hsub⟩ := JsonMap.removeEntry_perm hkey
    rw [hremove]
    exact (h.sublist hsub).insert
  · rw [JsonMap.removeEntry_of_not_mem hkey]
    exact h

theorem sorted_mutateKeys (check : String → Bool) (h : obj.Sorted) :
    (mutateKeys check mutate obj).Sorted := by
  rw [mutateKeys_eq]
  generalize (obj.map Prod.fst).filter check = ks
  induction ks generalizing obj with
  | nil => exact h
  | cons key ks ih => exact ih (sorted_rekey h)

/-- The keys are changed one after the other. None of the new ones is there before. -/
theorem foldl_rekey_perm (hobj : obj.Sorted) (hks : ks.Nodup)
    (hmem : ∀ k ∈ ks, k ∈ obj.map Prod.fst) (hnew : ∀ k ∈ ks, mutate k ∉ obj.map Prod.fst)
    (hinj : ∀ k ∈ ks, ∀ k' ∈ ks, mutate k = mutate k' → k = k') :
    (ks.foldl (rekey mutate) obj).Perm
      (obj.map fun e => (if e.1 ∈ ks then mutate e.1 else e.1, e.2)) := by
  -- over the keys that are still to be changed; the new keys of the others are not among them
  induction ks generalizing obj with
  | nil => simp
  | cons k ks ih =>
      obtain ⟨hk, hks⟩ := List.nodup_cons.mp hks
      obtain ⟨value, rest, hremove, hperm, hsub⟩ :=
        JsonMap.removeEntry_perm (hmem k List.mem_cons_self)
      have hkeys : (obj.map Prod.fst).Perm (k :: rest.map Prod.fst) := hperm.map Prod.fst
      have hkrest : k ∉ rest.map Prod.fst :=
        (List.nodup_cons.mp (hkeys.nodup_iff.mp hobj.nodup)).1
      have hfresh : mutate k ∉ rest.map Prod.fst := fun hin =>
        hnew k List.mem_cons_self (hkeys.symm.subset (List.mem_cons_of_mem _ hin))
      have hstep : rekey mutate obj k = JsonMap.insert (mutate k) value rest := by
        rw [rekey, hremove]
      have hinsert : (JsonMap.insert (mutate k) value rest).Perm ((mutate k, value) :: rest) :=
        JsonMap.insert_perm hfresh
      have hrest : ∀ k' ∈ ks, k' ∈ rest.map Prod.fst := by
        intro k' hk'
        have hin := hkeys.subset (hmem k' (List.mem_cons_of_mem _ hk'))
        apply (List.mem_cons.mp hin).resolve_left
        rintro rfl
        exact hk hk'
      rw [List.foldl_cons, hstep]
      have hsorted : (JsonMap.insert (mutate k) value rest).Sorted := (hobj.sublist hsub).insert
      have hrun := ih hsorted hks ?_ ?_ fun k' hk' k'' hk'' =>
        hinj k' (List.mem_cons_of_mem _ hk') k'' (List.mem_cons_of_mem _ hk'')
      · apply hrun.trans
        -- the entry at the head is the changed one, the others are as they were
        apply (hinsert.map _).trans
        apply List.Perm.trans _ (hperm.map _).symm
        have hnot : mutate k ∉ ks := fun hin => hfresh (hrest _ hin)
        rw [List.map_cons, List.map_cons, if_neg hnot, if_pos List.mem_cons_self]
        apply List.Perm.cons
        apply List.Perm.of_eq
        apply List.map_congr_left
        intro e he
        have hne : e.1 ≠ k := fun heq => hkrest (heq ▸ List.mem_map_of_mem he)
        simp [hne]
      · exact fun k' hk' => JsonMap.mem_keys_insert.mpr (Or.inr (hrest k' hk'))
      · intro k' hk' hin
        rcases JsonMap.mem_keys_insert.mp hin with heq | hin
        · have hsame := hinj k' (List.mem_cons_of_mem _ hk') k List.mem_cons_self heq
          exact hk (hsame ▸ hk')
        · apply hnew k' (List.mem_cons_of_mem _ hk')
          exact hkeys.symm.subset (List.mem_cons_of_mem _ hin)

theorem eq_of_ofList_append {cs t t' : List Char}
    (h : String.ofList (cs ++ t) = String.ofList (cs ++ t')) : t = t' := by
  have hlist := congrArg String.toList h
  rwa [String.toList_ofList, String.toList_ofList, List.append_cancel_left_eq] at hlist

theorem noClash_iff (h : Apart old new) (hobj : obj.Sorted) :
    NoClash old new obj ↔ ((obj.map Prod.fst).map (exchangePrefix old new)).Nodup := by
  have hnew (t : List Char) : exchangePrefix old new (String.ofList (new.toList ++ t)) =
      String.ofList (new.toList ++ t) := by
    apply exchangePrefix_of_not_prefix
    rw [String.toList_ofList]
    exact h.not_prefix t
  constructor
  · intro hclash
    apply List.Nodup.map_on _ hobj.nodup
    intro k hk k' hk' heq
    rcases exchangePrefix_cases old new k with ⟨t, rfl, hkt⟩ | ⟨-, hkt⟩ <;>
      rcases exchangePrefix_cases old new k' with ⟨t', rfl, hkt'⟩ | ⟨-, hkt'⟩ <;>
      rw [hkt, hkt'] at heq
    -- of two keys that become one, only one would have had the scheme
    · rw [eq_of_ofList_append heq]
    · exact absurd (heq ▸ hk') (hclash t hk)
    · exact absurd (heq ▸ hk) (hclash t' hk')
    · exact heq
  · intro hnodup t hold hin
    have heq := List.inj_on_of_nodup_map hnodup hold hin
      ((exchangePrefix_append t).trans (hnew t).symm)
    have hlist := congrArg String.toList heq
    rw [String.toList_ofList, String.toList_ofList] at hlist
    exact h.not_prefix t ⟨t, hlist⟩

/-- Each key that begins with the scheme is changed, if no two become one. -/
theorem mutateKeys_perm (h : Apart old new) (hobj : obj.Sorted) (hclash : NoClash old new obj) :
    (mutateKeys (fun s => old.toList.isPrefixOf s.toList) (mutateString old new) obj).Perm
      (obj.map fun e => (exchangePrefix old new e.1, e.2)) := by
  have hkey (k : String) (hk : old.toList.isPrefixOf k.toList = true) :
      ∃ t, k = String.ofList (old.toList ++ t) := by
    obtain ⟨t, ht⟩ := List.isPrefixOf_iff_prefix.mp hk
    exact ⟨t, by rw [ht, String.ofList_toList]⟩
  rw [mutateKeys_eq]
  apply (foldl_rekey_perm hobj (hobj.nodup.filter _) (fun k hk => (List.mem_filter.mp hk).1)
    ?_ ?_).trans
  · apply List.Perm.of_eq
    apply List.map_congr_left
    intro e he
    have hin : e.1 ∈ obj.map Prod.fst := List.mem_map_of_mem he
    by_cases hold : old.toList.isPrefixOf e.1.toList = true
    · obtain ⟨t, ht⟩ := hkey _ hold
      rw [if_pos (List.mem_filter.mpr ⟨hin, hold⟩), ht, mutateString_append h.nonempty,
        exchangePrefix_append]
    · have hnot : e.1 ∉ (obj.map Prod.fst).filter fun s => old.toList.isPrefixOf s.toList :=
        fun hmem => hold (List.mem_filter.mp hmem).2
      rw [if_neg hnot, exchangePrefix, if_neg hold]
  · intro k hk hin
    obtain ⟨hk, hold⟩ := List.mem_filter.mp hk
    obtain ⟨t, rfl⟩ := hkey _ hold
    rw [mutateString_append h.nonempty] at hin
    exact hclash t hk hin
  · intro k hk k' hk' heq
    obtain ⟨t, rfl⟩ := hkey _ (List.mem_filter.mp hk).2
    obtain ⟨t', rfl⟩ := hkey _ (List.mem_filter.mp hk').2
    rw [mutateString_append h.nonempty, mutateString_append h.nonempty] at heq
    rw [eq_of_ofList_append heq]

/-- The values may change as well. -/
theorem mutateKeys_eq_iff (h : Apart old new) (hobj : obj.Sorted) (f g : Value ν → Value ν) :
    mutateKeys (fun s => old.toList.isPrefixOf s.toList) (mutateString old new)
        (obj.map fun e => (e.1, f e.2)) =
      JsonMap.inKeyOrder (obj.map fun e => (exchangePrefix old new e.1, g e.2)) ↔
    NoClash old new obj ∧ ∀ e ∈ obj, f e.2 = g e.2 := by
  have hsorted := hobj.map_values f
  have hperm (hclash : NoClash old new obj) :
      (mutateKeys (fun s => old.toList.isPrefixOf s.toList) (mutateString old new)
        (obj.map fun e => (e.1, f e.2))).Perm
        (obj.map fun e => (exchangePrefix old new e.1, f e.2)) := by
    have hclash' : NoClash old new (obj.map fun e => (e.1, f e.2)) := by
      rw [NoClash, JsonMap.keys_map_values]
      exact hclash
    have hmutate := mutateKeys_perm h hsorted hclash'
    rw [List.map_map] at hmutate
    exact hmutate
  constructor
  · intro heq
    -- what comes of a map is one, so that no two keys have become one
    have hall := heq ▸ sorted_mutateKeys (fun s => old.toList.isPrefixOf s.toList) hsorted
    have hnodup := ((JsonMap.inKeyOrder_perm _).map Prod.fst).nodup_iff.mp hall.nodup
    rw [JsonMap.keys_map] at hnodup
    have hclash := (noClash_iff h hobj).mpr hnodup
    refine ⟨hclash, ?_⟩
    -- under the same keys there are the same values
    have hboth := (hperm hclash).symm.trans (heq ▸ JsonMap.inKeyOrder_perm _)
    have hlists := JsonMap.eq_of_perm_of_keys
      ((JsonMap.keys_map _ f obj).trans (JsonMap.keys_map _ g obj).symm)
      ((JsonMap.keys_map _ f obj).symm ▸ hnodup) hboth
    intro e he
    exact (Prod.mk.inj (List.map_inj_left.mp hlists e he)).2
  · rintro ⟨hclash, hvalues⟩
    apply (sorted_mutateKeys _ hsorted).eq_inKeyOrder
    apply (hperm hclash).trans
    apply List.Perm.of_eq
    apply List.map_congr_left
    intro e he
    rw [hvalues e he]

end Keys

/-! ## Contents -/

mutual

/-- The value in which each text and each key that begins with `old` begins with `new` instead. -/
def exchanged (old new : String) : Value ν → Value ν
  | .object obj => .object (JsonMap.inKeyOrder (exchangedEntry old new obj))
  | .array items => .array (exchangedItem old new items)
  | .string s => .string (exchangePrefix old new s)
  | .null => .null
  | .bool b => .bool b
  | .number n => .number n

def exchangedItem (old new : String) : List (Value ν) → List (Value ν)
  | [] => []
  | item :: items => exchanged old new item :: exchangedItem old new items

def exchangedEntry (old new : String) : List (String × Value ν) → List (String × Value ν)
  | [] => []
  | (key, value) :: entries =>
    (exchangePrefix old new key, exchanged old new value) :: exchangedEntry old new entries

end

/-- The same of a content. Each entry is still there, under its new key. -/
def exchangedContent (old new : String) (content : LspContent ν) : LspContent ν :=
  JsonMap.inKeyOrder (exchangedEntry old new content)

/-- The maps in a content are maps. -/
abbrev WellFormed (content : LspContent ν) : Prop := content.Every (fun _ => True) JsonMap.Sorted

/-- A text that has the scheme begins with it, and keys stay different. -/
abbrev Convertible (old new : String) (content : LspContent ν) : Prop :=
  content.Every (LeadsWith old) (NoClash old new)

section Contents

variable {old new : String} {check : String → Bool} {mutate : String → String}

theorem exchangedItem_eq (items : List (Value ν)) :
    exchangedItem old new items = items.map (exchanged old new) := by
  induction items with
  | nil => rfl
  | cons item items ih => rw [exchangedItem, ih, List.map_cons]

theorem exchangedEntry_eq (obj : JsonMap ν) :
    exchangedEntry old new obj =
      obj.map fun e => (exchangePrefix old new e.1, exchanged old new e.2) := by
  induction obj with
  | nil => rfl
  | cons entry obj ih => rw [exchangedEntry, ih, List.map_cons]

theorem forEachMutItem_eq (items : List (Value ν)) :
    forEachMutItem check mutate items = items.map (forEachMutString check mutate) := by
  induction items with
  | nil => rfl
  | cons item items ih => rw [forEachMutItem, ih, List.map_cons]

theorem forEachMutEntry_eq (obj : JsonMap ν) :
    forEachMutEntry check mutate obj =
      obj.map fun e => (e.1, forEachMutString check mutate e.2) := by
  induction obj with
  | nil => rfl
  | cons entry obj ih => rw [forEachMutEntry, ih, List.map_cons]

/-- The values in it are converted as they should be, each by itself, and so are the keys. -/
theorem forEachMutString_eq_iff (h : Apart old new) (v : Value ν)
    (hv : v.Every (fun _ => True) JsonMap.Sorted) :
    forEachMutString (fun s => old.toList.isPrefixOf s.toList) (mutateString old new) v =
        exchanged old new v ↔
      v.Every (LeadsWith old) (NoClash old new) := by
  induction v using Value.induct with
  | null => exact iff_of_true rfl trivial
  | bool b => exact iff_of_true rfl trivial
  | number n => exact iff_of_true rfl trivial
  | string s =>
      rw [forEachMutString, exchanged, Value.string.injEq, Value.Every]
      exact mutateString_eq_iff h
  | array items ih =>
      rw [Value.Every, everyItem_iff] at hv
      rw [forEachMutString, exchanged, Value.array.injEq, forEachMutItem_eq, exchangedItem_eq,
        List.map_inj_left, Value.Every, everyItem_iff]
      exact forall₂_congr fun item hitem => ih item hitem (hv item hitem)
  | object obj ih =>
      rw [Value.Every, everyEntry_iff] at hv
      rw [forEachMutString, exchanged, Value.object.injEq, forEachMutEntry_eq, exchangedEntry_eq,
        mutateKeys_eq_iff h hv.1, Value.Every, everyEntry_iff]
      exact and_congr_right fun _ =>
        forall₂_congr fun entry hentry => ih entry hentry (hv.2 entry hentry)

theorem swapPrefix_eq_iff (h : Apart old new) {content : LspContent ν}
    (hcontent : WellFormed content) :
    swapPrefix content old new = exchangedContent old new content ↔
      Convertible old new content := by
  obtain ⟨hsorted, hvalues⟩ := hcontent
  rw [everyEntry_iff] at hvalues
  rw [swapPrefix, exchangedContent, forEachMutEntry_eq, exchangedEntry_eq,
    mutateKeys_eq_iff h hsorted, Convertible, JsonMap.Every, everyEntry_iff]
  exact and_congr_right fun _ => forall₂_congr fun entry hentry =>
    forEachMutString_eq_iff h entry.2 (hvalues entry hentry)

theorem apart_local : Apart "file:" "distant:" := ⟨by decide, by decide, by decide⟩

theorem convertLocalSchemeToDistant_eq (content : LspContent ν) :
    content.convertLocalSchemeToDistant = swapPrefix content "file:" "distant:" := rfl

theorem convertDistantSchemeToLocal_eq (content : LspContent ν) :
    content.convertDistantSchemeToLocal = swapPrefix content "distant:" "file:" := rfl

/-- Converting changes the texts and keys that begin with the scheme, and nothing else, exactly if
each text that has the scheme begins with it, and no key is there with both schemes. -/
theorem converted_iff {content : LspContent ν} (h : WellFormed content) :
    (content.convertLocalSchemeToDistant = exchangedContent "file:" "distant:" content ↔
      Convertible "file:" "distant:" content) ∧
    (content.convertDistantSchemeToLocal = exchangedContent "distant:" "file:" content ↔
      Convertible "distant:" "file:" content) := by
  rw [convertLocalSchemeToDistant_eq, convertDistantSchemeToLocal_eq]
  exact ⟨swapPrefix_eq_iff apart_local h, swapPrefix_eq_iff apart_local.symm h⟩

/-! ### Converting back -/

/-- The scheme is nowhere in the content. -/
abbrev Lacks (scheme : String) (content : LspContent ν) : Prop :=
  content.Every (fun s => ¬ scheme.toList <:+: s.toList)
    fun obj => ∀ k ∈ obj.map Prod.fst, ¬ scheme.toList <:+: k.toList

theorem noClash_of_lacks {obj : JsonMap ν}
    (h : ∀ k ∈ obj.map Prod.fst, ¬ new.toList <:+: k.toList) : NoClash old new obj := by
  intro t _ hin
  apply h _ hin
  rw [String.toList_ofList]
  exact (List.prefix_append _ _).isInfix

/-- The keys come back, if the values do. -/
theorem mutateKeys_back (h : Apart old new) {obj : JsonMap ν} (hobj : obj.Sorted)
    (hlacks : ∀ k ∈ obj.map Prod.fst, ¬ new.toList <:+: k.toList) {f g : Value ν → Value ν}
    (hback : ∀ e ∈ obj, g (f e.2) = e.2) :
    mutateKeys (fun s => new.toList.isPrefixOf s.toList) (mutateString new old)
      ((mutateKeys (fun s => old.toList.isPrefixOf s.toList) (mutateString old new)
        (obj.map fun e => (e.1, f e.2))).map fun e => (e.1, g e.2)) = obj := by
  have hclash : NoClash old new (obj.map fun e => (e.1, f e.2)) := by
    apply noClash_of_lacks
    rw [JsonMap.keys_map_values]
    exact hlacks
  have hconverted := mutateKeys_perm h (hobj.map_values f) hclash
  generalize hobj' : mutateKeys (fun s => old.toList.isPrefixOf s.toList) (mutateString old new)
    (obj.map fun e => (e.1, f e.2)) = obj' at hconverted
  have hobj'sorted : obj'.Sorted := hobj' ▸ sorted_mutateKeys _ (hobj.map_values f)
  have hvalues : (obj'.map fun e => (e.1, g e.2)).Perm
      (obj.map fun e => (exchangePrefix old new e.1, e.2)) := by
    apply (hconverted.map _).trans
    rw [List.map_map, List.map_map]
    apply List.Perm.of_eq
    apply List.map_congr_left
    intro e he
    simp only [Function.comp_apply, hback e he]
  -- there and back, each entry is what it was
  have hall : ((obj'.map fun e => (e.1, g e.2)).map fun e =>
      (exchangePrefix new old e.1, e.2)).Perm obj := by
    apply (hvalues.map _).trans
    rw [List.map_map]
    apply List.Perm.of_eq
    apply (List.map_congr_left _).trans (List.map_id obj)
    intro e he
    have hnot : ¬ new.toList <+: e.1.toList := fun hprefix =>
      hlacks e.1 (List.mem_map_of_mem he) hprefix.isInfix
    simp only [Function.comp_apply, exchangePrefix_back hnot, id_eq]
  have hclash' : NoClash new old (obj'.map fun e => (e.1, g e.2)) := by
    rw [noClash_iff h.symm (hobj'sorted.map_values g), ← JsonMap.keys_map _ id]
    exact (hall.map Prod.fst).nodup_iff.mpr hobj.nodup
  apply (sorted_mutateKeys _ (hobj'sorted.map_values g)).eq_of_perm hobj
  exact (mutateKeys_perm h.symm (hobj'sorted.map_values g) hclash').trans hall

/-- What was converted is converted back, however deep it is. -/
theorem forEachMutString_back (h : Apart old new) {c : Char} {cs : List Char}
    (hnew : new.toList = c :: cs) (hc : c ∉ cs) (v : Value ν)
    (hv : v.Every (fun _ => True) JsonMap.Sorted)
    (hlacks : v.Every (fun s => ¬ new.toList <:+: s.toList)
      fun obj => ∀ k ∈ obj.map Prod.fst, ¬ new.toList <:+: k.toList) :
    forEachMutString (fun s => new.toList.isPrefixOf s.toList) (mutateString new old)
      (forEachMutString (fun s => old.toList.isPrefixOf s.toList) (mutateString old new) v) =
      v := by
  induction v using Value.induct with
  | null => rfl
  | bool b => rfl
  | number n => rfl
  | string s =>
      rw [Value.Every] at hlacks
      rw [forEachMutString, forEachMutString, mutateString, mutateString, String.toList_ofList]
      rw [hnew] at hlacks ⊢
      rw [replaceFirst_back hc h.nonempty hlacks, String.ofList_toList]
  | array items ih =>
      rw [Value.Every, everyItem_iff] at hv hlacks
      rw [forEachMutString, forEachMutString, forEachMutItem_eq, forEachMutItem_eq, List.map_map]
      congr 1
      apply (List.map_congr_left _).trans (List.map_id items)
      exact fun item hitem => ih item hitem (hv item hitem) (hlacks item hitem)
  | object obj ih =>
      rw [Value.Every, everyEntry_iff] at hv hlacks
      rw [forEachMutString, forEachMutString, forEachMutEntry_eq, forEachMutEntry_eq]
      congr 1
      exact mutateKeys_back h hv.1 hlacks.1 fun e he => ih e he (hv.2 e he) (hlacks.2 e he)

/-- Where the other scheme does not occur, a content that is converted and converted back is the one
that it was. -/
theorem converted_back {content : LspContent ν} (h : WellFormed content)
    (hlacks : Lacks "distant:" content) :
    content.convertLocalSchemeToDistant.convertDistantSchemeToLocal = content := by
  obtain ⟨hsorted, hvalues⟩ := h
  obtain ⟨hkeys, htexts⟩ := hlacks
  rw [everyEntry_iff] at hvalues htexts
  rw [convertDistantSchemeToLocal_eq, convertLocalSchemeToDistant_eq, swapPrefix, swapPrefix,
    forEachMutEntry_eq, forEachMutEntry_eq]
  apply mutateKeys_back apart_local hsorted hkeys
  intro e he
  exact forEachMutString_back apart_local rfl (by decide) e.2 (hvalues e he) (htexts e he)

end Contents

namespace Converting

/-- A text with the scheme in the middle of it. -/
def mentions : LspContent Unit := [("text", .string "see file:a")]

/-- Two keys that become one. -/
def clashes : LspContent Unit := [("distant:a", .bool true), ("file:a", .bool false)]

theorem sorted_clashes : JsonMap.Sorted clashes := by
  apply List.pairwise_pair.mpr
  decide

/-- The middle of a text is changed, and an entry is lost. -/
theorem converted_else :
    ¬ mentions.convertLocalSchemeToDistant = exchangedContent "file:" "distant:" mentions ∧
      ¬ clashes.convertLocalSchemeToDistant = exchangedContent "file:" "distant:" clashes := by
  have hmentions : WellFormed mentions :=
    ⟨List.pairwise_singleton _ _, trivial, trivial⟩
  have hclashes : WellFormed clashes := ⟨sorted_clashes, trivial, trivial, trivial⟩
  rw [convertLocalSchemeToDistant_eq, convertLocalSchemeToDistant_eq,
    swapPrefix_eq_iff apart_local hmentions, swapPrefix_eq_iff apart_local hclashes]
  have hinside : "file:".toList <:+: "see file:a".toList := ⟨"see ".toList, "a".toList, by decide⟩
  have hprefix : ¬ "file:".toList <+: "see file:a".toList := by decide
  constructor
  · rintro ⟨-, hleads, -⟩
    exact hprefix (hleads hinside)
  · rintro ⟨hclash, -⟩
    exact hclash ['a'] (by simp [clashes]) (by simp [clashes])

/-- A reference to a file under a key that is one too. -/
def refers : LspContent Unit := [("file:/a", .array [.string "file:/b", .string "c"])]

theorem wellFormed_refers : WellFormed refers :=
  ⟨List.pairwise_singleton _ _, ⟨trivial, trivial, trivial⟩, trivial⟩

theorem converted_refers :
    (refers.convertLocalSchemeToDistant = exchangedContent "file:" "distant:" refers ↔
      Convertible "file:" "distant:" refers) ∧
    (refers.convertDistantSchemeToLocal = exchangedContent "distant:" "file:" refers ↔
      Convertible "distant:" "file:" refers) :=
  converted_iff wellFormed_refers

theorem lacks_refers : Lacks "distant:" refers := by
  -- there is no `d` in it
  have hnot {s : String} (hs : 'd' ∉ s.toList) : ¬ "distant:".toList <:+: s.toList :=
    fun hinside => hs (hinside.subset List.mem_cons_self)
  simp only [Lacks, JsonMap.Every, everyEntry_iff, refers]
  simp only [List.map_singleton, List.forall_mem_singleton, Value.Every, EveryItem, and_true]
  exact ⟨hnot (by decide), hnot (by decide), hnot (by decide)⟩

theorem refers_back :
    refers.convertLocalSchemeToDistant.convertDistantSchemeToLocal = refers :=
  converted_back wellFormed_refers lacks_refers

end Converting

end Distant
