import Gatehouse.Cache.Basic
import Gatehouse.Proofs.Cache.Memory

/-!
# What a plain cache keeps

A plain cache is one in memory or one that keeps nothing; none of its parts was cleared
(`Cache.IsPlain`).  It never stops half-way: a lookup, a write and a removal fail only for a key
that cannot be looked up, and then leave the cache as it was.  Main statements: what there is under
a key after a write (`Cache.find?_put`), and that everything else adds nothing (`Cache.get_within`,
`Cache.invalidate_within`, `Cache.invalidateWhere_spec`, `Cache.clear_spec`).
-/

namespace Gatehouse.Cache

variable {α : Type}

/-- Whether a cache has its parts: it is in memory, or it keeps nothing. -/
def IsPlain : Cache α → Prop
  | idle _ | memory _ => True
  | loose _ | gone => False

/-- The entry under a key. -/
def find? (c : Cache α) (key : CacheKey) : Option (CacheEntry α) := c.entries.lookup key

/-- When what is written now expires. -/
def expiry (c : Cache α) (now : Float) (ttl : Option Float) : Option Float :=
  match c with
  | memory m => m.expiry now ttl
  | _ => none

/-- The first cache keeps nothing but what the second one keeps, and is plain if that is. -/
structure Within (c' c : Cache α) : Prop where
  /-- It is plain if the other cache is. -/
  plain : c.IsPlain → c'.IsPlain
  /-- Each of its entries is one of the other cache. -/
  entries : ∀ k e', c'.find? k = some e' → ∃ e, c.find? k = some e ∧ e'.Alike e

variable {c c' c'' : Cache α} {m m' : MemoryCache CacheKey α} {now : Float} {key k : CacheKey}
  {v : α} {ttl : Option Float} {e : CacheEntry α}

/-- A cache in memory is looked up in its entries. -/
theorem find?_memory (m : MemoryCache CacheKey α) (key : CacheKey) :
    (memory m).find? key = m.entries.find? key := rfl

/-- A look that leaves no trace sees the value that is found. -/
theorem peek?_eq (c : Cache α) (key : CacheKey) : c.peek? key = (c.find? key).map (·.value) := rfl

namespace Within

/-- A cache keeps nothing that it does not keep. -/
theorem refl (c : Cache α) : c.Within c := ⟨id, fun _ e' hk => ⟨e', hk, .refl e'⟩⟩

/-- A memory within another one makes a cache within the other. -/
theorem of_memory (h : m'.Within m) : (memory m').Within (memory m) :=
  ⟨fun _ => trivial, h⟩

/-- What is within a cache that is within a third one is within that one. -/
theorem trans (h : c''.Within c') (h' : c'.Within c) : c''.Within c := by
  refine ⟨fun hc => h.plain (h'.plain hc), fun k e'' hk => ?_⟩
  obtain ⟨e', he', halike⟩ := h.entries k e'' hk
  obtain ⟨e, he, halike'⟩ := h'.entries k e' he'
  exact ⟨e, he, halike.trans halike'⟩

/-- A plain cache without entries keeps nothing that another one does not keep. -/
theorem of_empty (hc : c'.IsPlain) (h : ∀ k, c'.find? k = none) (c : Cache α) : c'.Within c :=
  ⟨fun _ => hc, fun k e' hk => by rw [h k] at hk; cases hk⟩

end Within

/-! ### Lookups -/

/-- **A lookup answers with the value of an entry that has not expired.** -/
theorem fst_get (hc : c.IsPlain) (hkey : key.unfit? = none) :
    (c.get now key).1 = .ok (((c.find? key).filter fun e => !e.isExpired now).map (·.value)) := by
  cases c with
  | idle misses => rfl
  | memory m => rw [get_memory hkey, m.fst_get, find?_memory]
  | loose => cases hc
  | gone => cases hc

/-- A key that cannot be looked up is not found. -/
theorem get_unfit (hc : c.IsPlain) (hkey : key.unfit? ≠ none) :
    (c.get now key).1 ≠ .ok (some v) := by
  cases c with
  | idle misses => simp [get]
  | memory m =>
    simp only [get, withKey]
    split
    · simp
    · next h => exact absurd h hkey
  | loose => cases hc
  | gone => cases hc

/-- What a lookup finds is an entry that has not expired. -/
theorem exists_of_get (hc : c.IsPlain) (h : (c.get now key).1 = .ok (some v)) :
    ∃ e, c.find? key = some e ∧ e.isExpired now = false ∧ e.value = v := by
  by_cases hkey : key.unfit? = none
  · rw [fst_get hc hkey, Except.ok.injEq, Option.map_eq_some_iff] at h
    obtain ⟨e, he, hv⟩ := h
    obtain ⟨hfind, hlive⟩ := Option.filter_eq_some_iff.1 he
    exact ⟨e, hfind, by simpa using hlive, hv⟩
  · exact absurd h (get_unfit hc hkey)

/-- **A lookup adds nothing.** -/
theorem get_within (hc : c.IsPlain) (now : Float) (key : CacheKey) :
    (c.get now key).2.Within c := by
  cases c with
  | idle misses =>
    have hplain : (idle (misses + 1) : Cache α).IsPlain := trivial
    exact .of_empty hplain (fun _ => rfl) _
  | memory m =>
    simp only [get, withKey]
    split
    · exact .refl _
    · exact .of_memory (m.get_within now key)
  | loose => cases hc
  | gone => cases hc

/-- **A lookup drops at most the entry of its own key,** if that has expired. -/
theorem eq_of_find?_get (hc : c.IsPlain) (h : c.find? k = some e)
    (hgone : (c.get now key).2.find? k = none) : k = key ∧ e.isExpired now = true := by
  cases c with
  | idle misses => cases h
  | memory m =>
    simp only [get, withKey] at hgone
    split at hgone
    · rw [find?_memory] at h hgone
      rw [h] at hgone
      cases hgone
    · exact (MemoryCache.find?_get_eq_none_iff h).1 hgone
  | loose => cases hc
  | gone => cases hc

/-! ### Keys that are accepted -/

/-- A plain cache accepts a key that it can look up; one that keeps nothing accepts every key. -/
def Accepts : Cache α → CacheKey → Prop
  | idle _, _ => True
  | memory _, key => key.unfit? = none
  | loose _, _ | gone, _ => False

/-- A key that can be looked up is accepted. -/
theorem accepts_of_unfit? (hc : c.IsPlain) (hkey : key.unfit? = none) : c.Accepts key := by
  cases c with
  | idle misses => trivial
  | memory m => exact hkey
  | loose => cases hc
  | gone => cases hc

/-- A key that was looked up is accepted. -/
theorem accepts_of_get (hc : c.IsPlain) {found : Option α} (h : (c.get now key).1 = .ok found) :
    c.Accepts key := by
  cases c with
  | idle misses => trivial
  | memory m =>
    simp only [get, withKey] at h
    split at h
    · cases h
    · assumption
  | loose => cases hc
  | gone => cases hc

/-- A lookup does not change which keys are accepted. -/
theorem accepts_get_iff (hc : c.IsPlain) : (c.get now k).2.Accepts key ↔ c.Accepts key := by
  cases c with
  | idle misses => rfl
  | memory m =>
    simp only [get, withKey]
    split <;> rfl
  | loose => cases hc
  | gone => cases hc

/-! ### Writes -/

/-- What is accepted is written. -/
theorem fst_put_of_accepts (hkey : c.Accepts key) : (c.put now key (some v) ttl).1 = .ok () := by
  cases c with
  | idle misses => rfl
  | memory m => rw [put_memory hkey]
  | loose => cases hkey
  | gone => cases hkey

/-- A write does not change which keys are accepted. -/
theorem accepts_put_iff (hc : c.IsPlain) (v : Option α) :
    (c.put now k v ttl).2.Accepts key ↔ c.Accepts key := by
  cases c with
  | idle misses => rfl
  | memory m =>
    cases v with
    | none => rfl
    | some v =>
      simp only [put, withKey]
      split <;> rfl
  | loose => cases hc
  | gone => cases hc

/-- A plain cache is still one after a write. -/
theorem isPlain_put (hc : c.IsPlain) (now : Float) (key : CacheKey) (v : Option α)
    (ttl : Option Float) : (c.put now key v ttl).2.IsPlain := by
  cases c with
  | idle misses => trivial
  | memory m =>
    cases v with
    | none => trivial
    | some v =>
      simp only [put, withKey]
      split <;> trivial
  | loose => cases hc
  | gone => cases hc

/-- **After a write, its key has the new entry,** and every other key what it had, or nothing. -/
theorem find?_put (hc : c.IsPlain) (h : (c.put now key (some v) ttl).2.find? k = some e) :
    k = key ∧ key.unfit? = none ∧ e.value = v ∧ e.expiresAt = c.expiry now ttl ∨
      c.find? k = some e ∧ (key.unfit? = none → k ≠ key) := by
  cases c with
  | idle misses => cases h
  | memory m =>
    by_cases hkey : key.unfit? = none
    · rw [put_memory hkey, find?_memory] at h
      rcases MemoryCache.find?_store h with ⟨hk, rfl⟩ | ⟨hk, hfind⟩
      · exact .inl ⟨hk, hkey, rfl, rfl⟩
      · exact .inr ⟨hfind, fun _ => hk⟩
    · refine .inr ⟨?_, fun h' => absurd h' hkey⟩
      simp only [put, withKey] at h
      split at h
      · exact h
      · next h' => exact absurd h' hkey
  | loose => cases hc
  | gone => cases hc

/-- What was just written to memory is there. -/
theorem exists_find?_put (hkey : key.unfit? = none) (v : α) (ttl : Option Float) :
    ∃ e, ((memory m).put now key (some v) ttl).2.find? key = some e ∧ e.value = v ∧
      e.expiresAt = m.expiry now ttl := by
  have hexpiry : (if m.entries.contains key then m else m.makeRoom now).expiry now ttl =
      m.expiry now ttl := by
    split
    · rfl
    · simp only [MemoryCache.expiry, MemoryCache.defaultTtl_makeRoom]
  refine ⟨⟨v, now, m.expiry now ttl, 0, now⟩, ?_, rfl, rfl⟩
  rw [put_memory hkey, find?_memory, MemoryCache.store, MemoryCache.write, hexpiry,
    OrderedMap.find?_insert, if_pos rfl]

/-- A write does not change how long later entries live. -/
theorem expiry_put (hc : c.IsPlain) (v : Option α) (ttl' : Option Float) (now' : Float) :
    (c.put now key v ttl).2.expiry now' ttl' = c.expiry now' ttl' := by
  cases c with
  | idle misses => rfl
  | memory m =>
    cases v with
    | none => rfl
    | some v =>
      simp only [put, withKey]
      split
      · rfl
      · simp only [expiry, MemoryCache.store, MemoryCache.write, MemoryCache.expiry]
        by_cases hm : m.entries.contains key = true
        · rw [if_pos hm]
        · rw [if_neg hm, MemoryCache.defaultTtl_makeRoom]
  | loose => cases hc
  | gone => cases hc

/-! ### Dropping entries -/

/-- **A removal adds nothing.** -/
theorem invalidate_within (hc : c.IsPlain) (key : CacheKey) : (c.invalidate key).2.Within c := by
  cases c with
  | idle misses => exact .refl _
  | memory m =>
    simp only [invalidate, withKey]
    split
    · exact .refl _
    · split
      · exact .refl _
      · exact .of_memory (m.invalidate_within key)
  | loose => cases hc
  | gone => cases hc

/-- After a removal, there is nothing under the key. -/
theorem find?_invalidate (hc : c.IsPlain) (hkey : key.unfit? = none) :
    (c.invalidate key).2.find? key = none := by
  cases c with
  | idle misses => rfl
  | memory m =>
    simp only [invalidate, withKey, hkey]
    split
    · next hempty =>
      rw [List.isEmpty_iff] at hempty
      simp [find?, entries, hempty]
    · exact m.find?_invalidate_self key
  | loose => cases hc
  | gone => cases hc

/-- **The entries that satisfy a test are dropped,** under these keys, and all others are left as
they are. -/
structure Drops (c : Cache α) (test : CacheKey → α → Except Problem Bool) (dropped : List CacheKey)
    (c' : Cache α) : Prop where
  /-- The cache is plain. -/
  plain : c'.IsPlain
  /-- Every key counts once. -/
  nodup : dropped.Nodup
  /-- The keys are those of entries that satisfy the test. -/
  mem_iff : ∀ k, k ∈ dropped ↔ ∃ e, c.find? k = some e ∧ test k e.value = .ok true
  /-- Nothing is left under them, and all else is left. -/
  find?_eq : ∀ k, c'.find? k = if k ∈ dropped then none else c.find? k

namespace Drops

variable {test : CacheKey → α → Except Problem Bool} {dropped : List CacheKey}

/-- What is left was there, and does not satisfy the test. -/
theorem of_find? (h : c.Drops test dropped c') (hfind : c'.find? k = some e) :
    c.find? k = some e ∧ test k e.value ≠ .ok true := by
  rw [h.find?_eq] at hfind
  split at hfind
  · cases hfind
  · next hk => exact ⟨hfind, fun htest => hk ((h.mem_iff k).2 ⟨e, hfind, htest⟩)⟩

/-- Dropping entries adds nothing. -/
theorem within (h : c.Drops test dropped c') : c'.Within c :=
  ⟨fun _ => h.plain, fun _ e' hk => ⟨e', (h.of_find? hk).1, .refl e'⟩⟩

end Drops

/-- **Where a test can be made on all entries, exactly those that satisfy it are dropped,** and
counted. -/
theorem invalidateWhere_spec (hc : c.IsPlain) {test : CacheKey → α → Except Problem Bool}
    (h : ∀ k e, c.find? k = some e → ∃ b, test k e.value = .ok b) :
    ∃ dropped c', c.invalidateWhere test = (.ok dropped.length, c') ∧ c.Drops test dropped c' := by
  cases c with
  | idle misses =>
    exact ⟨[], _, rfl, hc, List.nodup_nil, fun k => ⟨nofun, fun ⟨_, h, _⟩ => nomatch h⟩,
      fun _ => rfl⟩
  | memory m =>
    obtain ⟨ks, m', hm', hnodup, hmem, hfind⟩ := MemoryCache.invalidateWhere_eq_ok h
    exact ⟨ks, memory m', by simp only [invalidateWhere, hm'], trivial, hnodup, hmem, hfind⟩
  | loose => cases hc
  | gone => cases hc

/-- **Clearing leaves nothing.** -/
theorem clear_spec (hc : c.IsPlain) :
    ∃ n c', c.clear = (.ok n, c') ∧ c'.Within c ∧ ∀ k, c'.find? k = none := by
  cases c with
  | idle misses => exact ⟨0, _, rfl, .refl _, fun _ => rfl⟩
  | memory m => exact ⟨_, memory m.clear.2, rfl, .of_memory m.clear_within, fun _ => rfl⟩
  | loose => cases hc
  | gone => cases hc

end Gatehouse.Cache
