import Gatehouse.Cache.Memory
import Gatehouse.Proofs.Collections.Ordered

/-!
# What a cache in memory keeps

Every operation on a cache in memory keeps what was there, or drops it; only a write adds an entry,
under its own key.  Main statements: a lookup answers with the value of the entry that has not
expired (`MemoryCache.fst_get`), it adds nothing (`MemoryCache.get_within`), and after a write the
written key has the new entry and every other key the old one or none (`MemoryCache.find?_store`).
-/

namespace Gatehouse

/-- Two entries have the same value and expire at the same time. -/
structure CacheEntry.Alike {α : Type} (e e' : CacheEntry α) : Prop where
  /-- The same value. -/
  value : e.value = e'.value
  /-- The same time. -/
  expiresAt : e.expiresAt = e'.expiresAt

namespace CacheEntry.Alike

variable {α : Type} {e e' e'' : CacheEntry α}

/-- An entry is like itself. -/
theorem refl (e : CacheEntry α) : e.Alike e := ⟨rfl, rfl⟩

/-- A lookup leaves an entry like it was. -/
theorem touch (e : CacheEntry α) (now : Float) : (e.touch now).Alike e := ⟨rfl, rfl⟩

/-- What is like an entry that is like a third one is like that one. -/
theorem trans (h : e.Alike e') (h' : e'.Alike e'') : e.Alike e'' :=
  ⟨h.value.trans h'.value, h.expiresAt.trans h'.expiresAt⟩

/-- Entries that are alike expire at the same time. -/
theorem isExpired_eq (h : e.Alike e') (now : Float) : e.isExpired now = e'.isExpired now := by
  rw [CacheEntry.isExpired, CacheEntry.isExpired, h.expiresAt]

end CacheEntry.Alike

namespace MemoryCache

variable {κ α : Type} [DecidableEq κ]

/-- The first cache keeps nothing but what the second one keeps. -/
def Within (c' c : MemoryCache κ α) : Prop :=
  ∀ k e', c'.entries.find? k = some e' → ∃ e, c.entries.find? k = some e ∧ e'.Alike e

variable {c c' c'' : MemoryCache κ α} {now : Float} {key k : κ} {ttl : Option Float} {v : α}

/-- A cache keeps nothing that it does not keep. -/
theorem Within.refl (c : MemoryCache κ α) : c.Within c := fun _ e' h => ⟨e', h, .refl e'⟩

/-- A cache with some of the entries keeps nothing else. -/
theorem Within.of_find? (h : ∀ k e, c'.entries.find? k = some e → c.entries.find? k = some e) :
    c'.Within c :=
  fun k e hk => ⟨e, h k e hk, .refl e⟩

/-! ### Lookups -/

/-- A lookup answers with the value of an entry that has not expired. -/
theorem fst_lookup (c : MemoryCache κ α) (now : Float) (key : κ) :
    (c.lookup now key).1 =
      ((c.entries.find? key).filter fun e => !e.isExpired now).map (·.value) := by
  unfold lookup
  rcases c.entries.find? key with _ | e
  · rfl
  · cases he : e.isExpired now <;> simp [he, Option.filter_some]

/-- A lookup keeps a live entry of its key, as found once more, and all other entries. -/
theorem find?_lookup (c : MemoryCache κ α) (now : Float) (key k : κ) :
    (c.lookup now key).2.entries.find? k =
      if k = key then
        ((c.entries.find? key).filter fun e => !e.isExpired now).map fun e => e.touch now
      else c.entries.find? k := by
  unfold lookup
  rcases hfind : c.entries.find? key with _ | e
  · by_cases hk : k = key <;> simp [hk, hfind]
  · cases he : e.isExpired now
    · simp [he, OrderedMap.find?_insert, Option.filter_some]
    · simp [he, OrderedMap.find?_erase, Option.filter_some]

/-- **A counted lookup answers with the value of an entry that has not expired.** -/
theorem fst_get (c : MemoryCache κ α) (now : Float) (key : κ) :
    (c.get now key).1 =
      ((c.entries.find? key).filter fun e => !e.isExpired now).map (·.value) := by
  rw [← fst_lookup]
  unfold get
  rcases c.lookup now key with ⟨_ | v, c'⟩ <;> rfl

/-- **A counted lookup keeps a live entry of its key,** as found once more, and all other entries. -/
theorem find?_get (c : MemoryCache κ α) (now : Float) (key k : κ) :
    (c.get now key).2.entries.find? k =
      if k = key then
        ((c.entries.find? key).filter fun e => !e.isExpired now).map fun e => e.touch now
      else c.entries.find? k := by
  rw [← find?_lookup]
  unfold get
  rcases c.lookup now key with ⟨_ | v, c'⟩ <;> rfl

/-- A lookup that finds a value is a hit, and one that finds none is a miss. -/
theorem counted_get (c : MemoryCache κ α) (now : Float) (key : κ) :
    match (c.get now key).1 with
    | some _ => (c.get now key).2.hits = c.hits + 1 ∧ (c.get now key).2.misses = c.misses
    | none => (c.get now key).2.hits = c.hits ∧ (c.get now key).2.misses = c.misses + 1 := by
  unfold get lookup
  rcases c.entries.find? key with _ | e
  · exact ⟨rfl, rfl⟩
  · cases he : e.isExpired now <;> simp [he]

/-- A key that was missed is not there afterwards. -/
theorem find?_get_of_miss {c : MemoryCache κ α} {now : Float} {key : κ}
    (h : (c.get now key).1 = none) : (c.get now key).2.entries.find? key = none := by
  rw [fst_get, Option.map_eq_none_iff] at h
  rw [find?_get, if_pos rfl, h]
  rfl

/-- A counted lookup changes the entries and counts a hit or a miss, and nothing else. -/
theorem snd_get_eq (c : MemoryCache κ α) (now : Float) (key : κ) : (c.get now key).2 =
    { c with
      entries := (c.get now key).2.entries
      hits := (c.get now key).2.hits
      misses := (c.get now key).2.misses } := by
  unfold get lookup
  rcases c.entries.find? key with _ | e
  · rfl
  · cases he : e.isExpired now <;> simp [he]

/-- **A counted lookup adds nothing.** -/
theorem get_within (c : MemoryCache κ α) (now : Float) (key : κ) :
    (c.get now key).2.Within c := by
  intro k e' hk
  rw [find?_get] at hk
  split at hk
  · next heq =>
    obtain ⟨e, he, rfl⟩ := Option.map_eq_some_iff.1 hk
    exact ⟨e, heq ▸ (Option.filter_eq_some_iff.1 he).1, .touch e now⟩
  · exact ⟨e', hk, .refl e'⟩

/-- **A counted lookup drops an entry exactly if that is the one looked up,** and has expired. -/
theorem find?_get_eq_none_iff {e : CacheEntry α} (h : c.entries.find? k = some e) :
    (c.get now key).2.entries.find? k = none ↔ k = key ∧ e.isExpired now = true := by
  rw [find?_get]
  by_cases hk : k = key
  · subst hk
    simp [h, Option.filter_some]
  · simp [hk, h]

/-! ### Writes -/

/-- What is left when the oldest entries are dropped was there before. -/
theorem find?_of_dropOldest {n : Nat} {m : OrderedMap κ (CacheEntry α)} {e : CacheEntry α}
    (h : (dropOldest n m).find? k = some e) : m.find? k = some e := by
  induction n generalizing m with
  | zero => exact h
  | succ n ih =>
    unfold dropOldest at h
    split at h
    · exact h
    · exact OrderedMap.find?_of_erase (ih h)

/-- Making room adds nothing. -/
theorem find?_of_makeRoom {e : CacheEntry α} (h : (c.makeRoom now).entries.find? k = some e) :
    c.entries.find? k = some e := by
  unfold makeRoom at h
  split at h
  · exact h
  · dsimp only at h
    split at h
    · exact OrderedMap.find?_of_filter h
    · exact OrderedMap.find?_of_filter (find?_of_dropOldest h)

/-- Making room changes the entries and counts evictions, and nothing else. -/
theorem makeRoom_eq (c : MemoryCache κ α) (now : Float) : c.makeRoom now =
    { c with entries := (c.makeRoom now).entries, evictions := (c.makeRoom now).evictions } := by
  unfold makeRoom
  split
  · rfl
  · dsimp only
    split <;> rfl

/-- Making room does not change how long entries live by default. -/
theorem defaultTtl_makeRoom (c : MemoryCache κ α) (now : Float) :
    (c.makeRoom now).defaultTtl = c.defaultTtl := by
  rw [makeRoom_eq]

/-- **After a write, its key has the new entry,** and every other key what it had, or nothing. -/
theorem find?_store {e : CacheEntry α} (h : (c.store now key v ttl).entries.find? k = some e) :
    k = key ∧ e = ⟨v, now, c.expiry now ttl, 0, now⟩ ∨
      k ≠ key ∧ c.entries.find? k = some e := by
  have hexpiry : (if c.entries.contains key then c else c.makeRoom now).expiry now ttl =
      c.expiry now ttl := by
    by_cases hc : c.entries.contains key = true
    · rw [if_pos hc]
    · rw [if_neg hc, expiry, expiry, defaultTtl_makeRoom]
  simp only [store, write, hexpiry, OrderedMap.find?_insert] at h
  by_cases hk : k = key
  · rw [if_pos hk] at h
    exact .inl ⟨hk, (Option.some.inj h).symm⟩
  · rw [if_neg hk] at h
    refine .inr ⟨hk, ?_⟩
    split at h
    · exact h
    · exact find?_of_makeRoom h

/-! ### Dropping entries -/

/-- After a removal, nothing is found under the key. -/
theorem find?_invalidate_self (c : MemoryCache κ α) (key : κ) :
    (c.invalidate key).2.entries.find? key = none := by
  simp [invalidate, OrderedMap.find?_erase]

/-- A removal adds nothing to what is kept in memory. -/
theorem invalidate_within (c : MemoryCache κ α) (key : κ) : (c.invalidate key).2.Within c :=
  .of_find? fun _ _ h => OrderedMap.find?_of_erase h

/-- Emptying a cache adds nothing to what is kept in memory. -/
theorem clear_within (c : MemoryCache κ α) : c.clear.2.Within c :=
  .of_find? fun _ _ h => nomatch h

omit [DecidableEq κ] in
/-- A test that can be made on all entries finds the keys of those that satisfy it, in order. -/
theorem matching_eq_ok {test : κ → α → Except Problem Bool} {l : List (κ × CacheEntry α)}
    (h : ∀ e ∈ l, ∃ b, test e.1 e.2.value = .ok b) :
    ∃ ks, matching test l = .ok ks ∧ ks.Sublist (l.map Prod.fst) ∧
      ∀ k, k ∈ ks ↔ ∃ e, (k, e) ∈ l ∧ test k e.value = .ok true := by
  induction l with
  | nil => exact ⟨[], rfl, .slnil, by simp⟩
  | cons e rest ih =>
    obtain ⟨k, e⟩ := e
    obtain ⟨b, hb⟩ := h (k, e) List.mem_cons_self
    obtain ⟨ks, hks, hsub, hmem⟩ := ih fun e he => h e (List.mem_cons_of_mem _ he)
    dsimp only at hb
    have hcons : ∀ k', (∃ e', (k', e') ∈ (k, e) :: rest ∧ test k' e'.value = .ok true) ↔
        (k' = k ∧ b = true) ∨ k' ∈ ks := by
      intro k'
      rw [hmem]
      constructor
      · rintro ⟨e', he', htest⟩
        rcases List.mem_cons.1 he' with heq | he'
        · obtain ⟨rfl, rfl⟩ := Prod.mk.inj heq
          exact .inl ⟨rfl, Except.ok.inj (hb.symm.trans htest)⟩
        · exact .inr ⟨e', he', htest⟩
      · rintro (⟨rfl, rfl⟩ | ⟨e', he', htest⟩)
        · exact ⟨e, List.mem_cons_self, hb⟩
        · exact ⟨e', List.mem_cons_of_mem _ he', htest⟩
    refine ⟨if b then k :: ks else ks, by simp only [matching, hb, hks], ?_, fun k' => ?_⟩
    · cases b
      · exact hsub.cons _
      · exact hsub.cons_cons _
    · rw [hcons]
      cases b <;> simp

/-- **Where a test can be made on all entries, exactly those that satisfy it are dropped,** and
counted. -/
theorem invalidateWhere_eq_ok {test : κ → α → Except Problem Bool}
    (h : ∀ k e, c.entries.find? k = some e → ∃ b, test k e.value = .ok b) :
    ∃ (ks : List κ) (c' : MemoryCache κ α), c.invalidateWhere test = .ok (ks.length, c') ∧
      ks.Nodup ∧
      (∀ k, k ∈ ks ↔ ∃ e, c.entries.find? k = some e ∧ test k e.value = .ok true) ∧
      ∀ k, c'.entries.find? k = if k ∈ ks then none else c.entries.find? k := by
  have hentries : ∀ e ∈ c.entries.entries, ∃ b, test e.1 e.2.value = .ok b :=
    fun e he => h e.1 e.2 (OrderedMap.find?_eq_some_of_mem he)
  obtain ⟨ks, hks, hsub, hmem⟩ := matching_eq_ok hentries
  refine ⟨ks, { c with entries := c.entries.filter fun k _ => !ks.contains k },
    by simp only [invalidateWhere, hks], c.entries.keys_nodup.sublist hsub, fun k => ?_, fun k => ?_⟩
  · rw [hmem]
    exact exists_congr fun e => and_congr_left' OrderedMap.find?_eq_some_iff.symm
  · rw [OrderedMap.find?_filter]
    rcases c.entries.find? k with _ | e <;> by_cases hk : k ∈ ks <;> simp [hk, Option.filter_some]

end MemoryCache

end Gatehouse
