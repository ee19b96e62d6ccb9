import Gatehouse.Proofs.Cache.Acts
import Gatehouse.Proofs.Decimal.Order

/-!
# What a full cache drops

A cache in memory never keeps more entries than it has room for (`MemoryCache.size_after_le`), and
only a new key in a full cache drops anything.  It drops what has expired, if anything has
(`MemoryCache.entries_makeRoom_of_expired`); else it drops one entry, the one last accessed furthest
back, and of several the one that stands first (`MemoryCache.entries_makeRoom_of_live`).

An entry is accessed by a write of its key and by a lookup that finds it: these are the uses of the
keys in a history (`MemoryCache.uses`), and every entry bears the instant of the last use of its key
(`MemoryCache.find?_uses`).  So where the clock tells any two uses apart, what is dropped is what
was not used for the longest time.  Main statement: `MemoryCache.put_evicts`.
-/

namespace Gatehouse

variable {κ α : Type} [DecidableEq κ]

namespace MemoryCache

variable {c c' : MemoryCache κ α} {now : Float} {k : κ} {e : CacheEntry α}
  {d : κ × CacheEntry α} {l : List (κ × CacheEntry α)}

/-- A cache that keeps nothing but what another one keeps is no larger. -/
theorem Within.size_le (h : c'.Within c) : c'.entries.size ≤ c.entries.size := by
  have hsubset : c'.entries.keys ⊆ c.entries.keys := by
    intro k hk
    obtain ⟨e', he'⟩ := Option.isSome_iff_exists.1 (OrderedMap.isSome_find?_iff.2 hk)
    obtain ⟨e, he, -⟩ := h k e' he'
    exact OrderedMap.isSome_find?_iff.1 (by rw [he]; rfl)
  have hle := (List.subperm_of_subset c'.entries.keys_nodup hsubset).length_le
  simp only [OrderedMap.keys, List.length_map] at hle
  exact hle

/-! ### The oldest entry -/

omit [DecidableEq κ] in
/-- Only where there are no entries is none the oldest. -/
theorem oldest?_eq_none (h : oldest? l = none) : l = [] := by
  cases l with
  | nil => rfl
  | cons d rest =>
    unfold oldest? at h
    split at h
    · cases h
    · split at h <;> cases h

omit [DecidableEq κ] in
/-- **The oldest entry was last accessed before all that stand in front of it,** and not after any
that stands behind it, as far as instants are numbers. -/
theorem oldest?_eq_some (h : oldest? l = some d) : ∃ front behind, l = front ++ d :: behind ∧
    ((∀ d' ∈ l, d'.2.lastAccessed.isNaN = false) →
      (∀ d' ∈ front, d.2.lastAccessed < d'.2.lastAccessed) ∧
      ∀ d' ∈ behind, d.2.lastAccessed ≤ d'.2.lastAccessed) := by
  induction l generalizing d with
  | nil => cases h
  | cons first rest ih =>
    unfold oldest? at h
    rcases hrest : oldest? rest with _ | d₀
    · obtain rfl := oldest?_eq_none hrest
      rw [hrest] at h
      obtain rfl := Option.some.inj h
      exact ⟨[], [], rfl, fun _ => ⟨List.forall_mem_nil _, List.forall_mem_nil _⟩⟩
    · obtain ⟨front, behind, hparts, hordered⟩ := ih hrest
      simp only [hrest] at h
      split at h
      · next hlt =>
        obtain rfl := Option.some.inj h
        refine ⟨first :: front, behind, by rw [hparts, List.cons_append], fun hnumbers => ?_⟩
        obtain ⟨hfront, hbehind⟩ := hordered (List.forall_mem_cons.1 hnumbers).2
        exact ⟨List.forall_mem_cons.2 ⟨hlt, hfront⟩, hbehind⟩
      · next hnot =>
        obtain rfl := Option.some.inj h
        refine ⟨[], rest, rfl, fun hnumbers => ⟨List.forall_mem_nil _, fun d' hd' => ?_⟩⟩
        obtain ⟨hfirst, hnumbers⟩ := List.forall_mem_cons.1 hnumbers
        obtain ⟨hfront, hbehind⟩ := hordered hnumbers
        have hd₀ : d₀.2.lastAccessed.isNaN = false := hnumbers d₀ (by simp [hparts])
        have hle : first.2.lastAccessed ≤ d₀.2.lastAccessed := by
          by_contra hgt
          exact hnot (Decimal.lt_of_not_le hfirst hd₀ hgt)
        refine Decimal.le_trans hle ?_
        rw [hparts, List.mem_append, List.mem_cons] at hd'
        rcases hd' with hd' | rfl | hd'
        · exact Decimal.le_of_lt (hfront d' hd')
        · exact Decimal.le_self hd₀
        · exact hbehind d' hd'

/-! ### Making room -/

/-- **A full cache drops what has expired,** and nothing else if that makes room. -/
theorem entries_makeRoom_of_expired (hfull : c.entries.size = c.capacity)
    (h : ∃ d ∈ c.entries.entries, d.2.isExpired now = true) :
    (c.makeRoom now).entries = c.entries.filter fun _ e => !e.isExpired now := by
  obtain ⟨d, hd, hexpired⟩ := h
  have hroom : (c.entries.filter fun _ e => !e.isExpired now).size < c.capacity := by
    rw [← hfull]
    exact List.length_filter_lt_length_iff_exists.2 ⟨d, hd, by simp [hexpired]⟩
  unfold makeRoom
  rw [if_neg hfull.not_lt]
  dsimp only
  rw [if_pos hroom]

/-- **A full cache without expired entries drops the oldest one.** -/
theorem entries_makeRoom_of_live (hcapacity : 0 < c.capacity) (hfull : c.entries.size = c.capacity)
    (h : ∀ d ∈ c.entries.entries, d.2.isExpired now = false) :
    ∃ d, oldest? c.entries.entries = some d ∧ (c.makeRoom now).entries = c.entries.erase d.1 := by
  have hlive : c.entries.filter (fun _ e => !e.isExpired now) = c.entries := by
    have hkept : c.entries.entries.filter (fun d => !d.2.isExpired now) = c.entries.entries :=
      List.filter_eq_self.2 fun d hd => by rw [h d hd]; rfl
    simp only [OrderedMap.filter, hkept]
  obtain ⟨d, hd⟩ : ∃ d, oldest? c.entries.entries = some d := by
    refine Option.ne_none_iff_exists'.1 fun hnone => ?_
    rw [← hfull, OrderedMap.size, oldest?_eq_none hnone] at hcapacity
    exact Nat.lt_irrefl 0 hcapacity
  refine ⟨d, hd, ?_⟩
  unfold makeRoom
  simp only [hlive, hfull, Nat.lt_irrefl, if_false, Nat.sub_self, Nat.zero_add, dropOldest, hd]

/-- Whoever makes room has room for one more entry. -/
theorem size_makeRoom_lt (hcapacity : 0 < c.capacity) (hle : c.entries.size ≤ c.capacity)
    (now : Float) : (c.makeRoom now).entries.size < c.capacity := by
  rcases hle.lt_or_eq with hlt | hfull
  · rwa [makeRoom_of_lt hlt]
  · by_cases hexpired : ∃ d ∈ c.entries.entries, d.2.isExpired now = true
    · obtain ⟨d, hd, he⟩ := hexpired
      rw [entries_makeRoom_of_expired hfull ⟨d, hd, he⟩, ← hfull]
      exact List.length_filter_lt_length_iff_exists.2 ⟨d, hd, by simp [he]⟩
    · have hlive : ∀ d ∈ c.entries.entries, d.2.isExpired now = false :=
        fun d hd => Bool.eq_false_iff.2 fun he => hexpired ⟨d, hd, he⟩
      obtain ⟨d, hd, hleft⟩ := entries_makeRoom_of_live hcapacity hfull hlive
      obtain ⟨front, behind, hparts, -⟩ := oldest?_eq_some hd
      rw [hleft, ← hfull]
      exact List.length_filter_lt_length_iff_exists.2 ⟨d, by simp [hparts], by simp⟩

/-! ### Never too many entries -/

/-- **No act leaves more entries than there is room for.** -/
theorem size_run_le (hcapacity : 0 < c.capacity) (hle : c.entries.size ≤ c.capacity)
    (act : CacheAct κ α) : (act.run c).entries.size ≤ c.capacity := by
  have hkept : (∀ k, ¬ act.Writes k) → (act.run c).entries.size ≤ c.capacity := by
    intro hreads
    have hwithin : (act.run c).Within c := fun k _ hfind => CacheAct.run_within (hreads k) hfind
    exact hwithin.size_le.trans hle
  cases act with
  | put now roomAt key value ttl =>
    simp only [CacheAct.run, write, OrderedMap.size_insert]
    by_cases hkey : c.entries.contains key = true
    · rw [if_pos hkey, if_pos (List.contains_iff_mem.1 hkey)]
      exact hle
    · rw [if_neg hkey]
      have hroom := size_makeRoom_lt hcapacity hle roomAt
      split
      · exact hroom.le
      · exact hroom
  | _ => exact hkept fun _ => id

/-- **A cache never keeps more entries than it has room for.** -/
theorem size_after_le (defaultTtl : Option Float) {capacity : Nat} (hcapacity : 0 < capacity)
    (acts : List (CacheAct κ α)) :
    ((create defaultTtl capacity : MemoryCache κ α).after acts).entries.size ≤ capacity := by
  induction acts with
  | nil => exact Nat.zero_le _
  | cons act earlier ih =>
    have hsame := capacity_after (create defaultTtl capacity : MemoryCache κ α) earlier
    change _ = capacity at hsame
    have hstep := size_run_le (hsame.symm ▸ hcapacity) (ih.trans hsame.ge) act
    exact hstep.trans hsame.le

end MemoryCache

/-! ### Uses of keys -/

namespace CacheAct

/-- The key that an act uses, and when: it is written, or found by a lookup. -/
def use? (c : MemoryCache κ α) : CacheAct κ α → Option (κ × Float)
  | get now key => if (c.get now key).1.isSome then some (key, now) else none
  | enter now key => if (c.enter now key).1.isSome then some (key, now) else none
  | put now _ key _ _ => some (key, now)
  | _ => none

variable {c : MemoryCache κ α} {act : CacheAct κ α} {k : κ} {e : CacheEntry α}

/-- What stands under a key after a lookup was found by it, or stood there before and was not looked
up. -/
theorem use?_of_find?_get {now : Float} {key : κ} (h : (c.get now key).2.entries.find? k = some e) :
    (get now key).use? c = some (k, e.lastAccessed) ∨
      (∀ u ∈ (get now key).use? c, u.1 ≠ k) ∧ c.entries.find? k = some e := by
  rw [MemoryCache.find?_get] at h
  by_cases hk : k = key
  · subst hk
    rw [if_pos rfl] at h
    obtain ⟨e₀, he₀, rfl⟩ := Option.map_eq_some_iff.1 h
    rw [use?, MemoryCache.fst_get, he₀]
    exact .inl rfl
  · rw [if_neg hk] at h
    refine .inr ⟨fun u hu => ?_, h⟩
    rw [use?] at hu
    split at hu
    · obtain rfl := Option.some.inj hu
      exact Ne.symm hk
    · cases hu

/-- **What stands under a key after an act** was used by it just then, or stood there before and was
not used. -/
theorem use?_of_find?_run (h : (act.run c).entries.find? k = some e) :
    act.use? c = some (k, e.lastAccessed) ∨
      (∀ u ∈ act.use? c, u.1 ≠ k) ∧ c.entries.find? k = some e := by
  have hunused : ∀ u ∈ (none : Option (κ × Float)), u.1 ≠ k :=
    fun u hu => absurd hu (Option.not_mem_none u)
  cases act with
  | get now key => exact use?_of_find?_get h
  | enter now key =>
    rw [run, MemoryCache.entries_enter] at h
    rw [use?, MemoryCache.fst_enter]
    exact use?_of_find?_get h
  | put now roomAt key value ttl =>
    rw [MemoryCache.find?_put] at h
    by_cases hk : k = key
    · subst hk
      rw [if_pos rfl] at h
      obtain rfl := Option.some.inj h
      exact .inl rfl
    · rw [if_neg hk] at h
      refine .inr ⟨fun u hu => ?_, ?_⟩
      · obtain rfl := Option.some.inj hu
        exact Ne.symm hk
      · split at h
        · exact h
        · exact MemoryCache.find?_of_makeRoom h
  | leave key => exact .inr ⟨hunused, h⟩
  | invalidate key => exact .inr ⟨hunused, OrderedMap.find?_of_erase h⟩
  | invalidateWhere test =>
    refine .inr ⟨hunused, ?_⟩
    simp only [run] at h
    split at h
    · next hmade => exact MemoryCache.find?_of_invalidateWhere hmade h
    · exact h
  | clear => cases h

end CacheAct

namespace MemoryCache

/-- The uses of keys in a history, latest first. -/
def uses (c : MemoryCache κ α) : List (CacheAct κ α) → List (κ × Float)
  | [] => []
  | act :: earlier => (act.use? (c.after earlier)).toList ++ c.uses earlier

variable {c : MemoryCache κ α} {k : κ} {e : CacheEntry α}

/-- **An entry bears the instant of the last use of its key,** if nothing stood in the cache before
the history. -/
theorem find?_uses (hempty : c.entries = ∅) {acts : List (CacheAct κ α)}
    (h : (c.after acts).entries.find? k = some e) :
    (c.uses acts).find? (fun u => u.1 = k) = some (k, e.lastAccessed) := by
  induction acts with
  | nil =>
    have hnone : c.entries.find? k = none := by rw [hempty, OrderedMap.find?_empty]
    cases hnone.symm.trans h
  | cons act earlier ih =>
    have hrun : (act.run (c.after earlier)).entries.find? k = some e := h
    rw [uses, List.find?_append]
    rcases CacheAct.use?_of_find?_run hrun with huse | ⟨hother, hbefore⟩
    · simp [huse]
    · rw [ih hbefore]
      rcases huse : act.use? (c.after earlier) with _ | u
      · rfl
      · have hne : u.1 ≠ k := hother u huse
        simp [hne]

/-- **The entry to drop,** among the entries of a cache and after some uses of their keys: it stands
between those in front of it and those behind it. -/
structure IsOldest (uses : List (κ × Float)) (front : List (κ × CacheEntry α))
    (d : κ × CacheEntry α) (behind : List (κ × CacheEntry α)) : Prop where
  /-- What stands in front of it was accessed later. -/
  lt_front : ∀ d' ∈ front, d.2.lastAccessed < d'.2.lastAccessed
  /-- What stands behind it was not accessed earlier. -/
  le_behind : ∀ d' ∈ behind, d.2.lastAccessed ≤ d'.2.lastAccessed
  /-- Where the clock went on from each use to the next one, all other keys were used since its key
  was. -/
  unused : uses.Pairwise (fun later earlier => earlier.2 < later.2) →
    ∃ since earlier, uses = since ++ (d.1, d.2.lastAccessed) :: earlier ∧
      (∀ u ∈ since, u.1 ≠ d.1) ∧ ∀ d' ∈ front ++ behind, ∃ u ∈ since, u.1 = d'.1

omit [DecidableEq κ] in
/-- Where the clock goes on from each use to the next one, a key that was last used no earlier than
another one was used since that. -/
theorem exists_use_since {uses since earlier : List (κ × Float)} {k k' : κ} {t t' : Float}
    (hnumbers : ∀ u ∈ uses, u.2.isNaN = false)
    (hclock : uses.Pairwise fun later earlier => earlier.2 < later.2)
    (hparts : uses = since ++ (k, t) :: earlier) (hused : (k', t') ∈ uses) (hne : k' ≠ k)
    (hle : t ≤ t') : ∃ u ∈ since, u.1 = k' := by
  have hmem : (k, t) ∈ uses := by simp [hparts]
  have hsplit := hused
  rw [hparts, List.mem_append, List.mem_cons] at hsplit
  rcases hsplit with hsince | heq | hearlier
  · exact ⟨(k', t'), hsince, rfl⟩
  · cases heq
    exact absurd rfl hne
  · rw [hparts, List.pairwise_append, List.pairwise_cons] at hclock
    have hlt : t' < t := hclock.2.1.1 (k', t') hearlier
    have ht : t.isNaN = false := hnumbers (k, t) hmem
    have ht' : t'.isNaN = false := hnumbers (k', t') hused
    exact absurd hle (Decimal.not_le_of_lt ht' ht hlt)

/-- **The oldest entry of a cache was not used for the longest time.** -/
theorem isOldest_of_oldest? (hempty : c.entries = ∅) {acts : List (CacheAct κ α)}
    {d : κ × CacheEntry α} (h : oldest? (c.after acts).entries.entries = some d) :
    ∃ front behind, (c.after acts).entries.entries = front ++ d :: behind ∧
      ((∀ u ∈ c.uses acts, u.2.isNaN = false) → IsOldest (c.uses acts) front d behind) := by
  obtain ⟨front, behind, hparts, hordered⟩ := oldest?_eq_some h
  have hlast : ∀ d' ∈ (c.after acts).entries.entries,
      (c.uses acts).find? (fun u => u.1 = d'.1) = some (d'.1, d'.2.lastAccessed) :=
    fun d' hd' => find?_uses hempty (OrderedMap.find?_eq_some_of_mem hd')
  have hused : ∀ d' ∈ (c.after acts).entries.entries, (d'.1, d'.2.lastAccessed) ∈ c.uses acts :=
    fun d' hd' => List.mem_of_find?_eq_some (hlast d' hd')
  refine ⟨front, behind, hparts, fun hnumbers => ?_⟩
  have hrecorded : ∀ d' ∈ (c.after acts).entries.entries, d'.2.lastAccessed.isNaN = false :=
    fun d' hd' => hnumbers (d'.1, d'.2.lastAccessed) (hused d' hd')
  obtain ⟨hfront, hbehind⟩ := hordered hrecorded
  refine ⟨hfront, hbehind, fun hclock => ?_⟩
  obtain ⟨-, since, earlier, huses, hnot⟩ :=
    List.find?_eq_some_iff_append.1 (hlast d (by simp [hparts]))
  refine ⟨since, earlier, huses, fun u hu => by simpa using hnot u hu, fun d' hd' => ?_⟩
  have hmem : d' ∈ (c.after acts).entries.entries := by
    rw [hparts]
    exact (List.perm_middle.mem_iff).2 (List.mem_cons_of_mem d hd')
  have hle : d.2.lastAccessed ≤ d'.2.lastAccessed := by
    rcases List.mem_append.1 hd' with hd' | hd'
    · exact Decimal.le_of_lt (hfront d' hd')
    · exact hbehind d' hd'
  exact exists_use_since hnumbers hclock huses (hused d' hmem)
    (OrderedMap.ne_of_entries_eq hparts d' hd') hle

/-! ### Writes of new keys -/

/-- A new key is written behind what is left when room was made for it. -/
theorem entries_run_put {now roomAt : Float} {key : κ} {value : α} {ttl : Option Float}
    (h : key ∉ c.entries.keys) :
    ((CacheAct.put now roomAt key value ttl).run c).entries.entries =
      (c.makeRoom roomAt).entries.entries ++ [(key, ⟨value, now, c.expiry now ttl, 0, now⟩)] := by
  have hnew : key ∉ (c.makeRoom roomAt).entries.keys := by
    intro hkey
    obtain ⟨e, he⟩ := Option.isSome_iff_exists.1 (OrderedMap.isSome_find?_iff.2 hkey)
    cases (OrderedMap.find?_eq_none_iff.2 h).symm.trans (find?_of_makeRoom he)
  have hcontains : ¬ c.entries.contains key = true := fun hkey => h (List.contains_iff_mem.1 hkey)
  have hexpiry := expiry_congr (c.defaultTtl_makeRoom roomAt) now ttl
  simp only [CacheAct.run, if_neg hcontains, write]
  rw [OrderedMap.entries_insert_of_not_mem hnew, hexpiry]

/-- **A write drops no more than it has to.**  After any history of a fresh cache, there are no more
entries than it has room for.  A write of a key that is present, be it expired or not, leaves all
others as they are; and so does a write of a new key where there is room.  A write of a new key to a
full cache drops exactly what has expired at the reading of the clock, if anything has.  If nothing
has, it drops exactly one entry: the one accessed furthest back, the first of several; and where the
clock goes on from each use of a key to the next one, no key was last used further back in the
history. -/
theorem put_evicts (defaultTtl : Option Float) {capacity : Nat} (hcapacity : 0 < capacity)
    (acts : List (CacheAct κ α)) (now roomAt : Float) (key : κ) (value : α) (ttl : Option Float) :
    let fresh : MemoryCache κ α := create defaultTtl capacity
    let c := fresh.after acts
    let c' := (CacheAct.put now roomAt key value ttl).run c
    let written : κ × CacheEntry α := (key, ⟨value, now, c.expiry now ttl, 0, now⟩)
    c.entries.size ≤ capacity ∧
    (key ∈ c.entries.keys → c'.entries.keys = c.entries.keys ∧
      ∀ k, k ≠ key → c'.entries.find? k = c.entries.find? k) ∧
    (key ∉ c.entries.keys →
      (c.entries.size < capacity → c'.entries.entries = c.entries.entries ++ [written]) ∧
      (c.entries.size = capacity → (∃ d ∈ c.entries.entries, d.2.isExpired roomAt = true) →
        c'.entries.entries =
          (c.entries.entries.filter fun d => !d.2.isExpired roomAt) ++ [written]) ∧
      (c.entries.size = capacity → (∀ d ∈ c.entries.entries, d.2.isExpired roomAt = false) →
        ∃ front d behind, c.entries.entries = front ++ d :: behind ∧
          c'.entries.entries = front ++ behind ++ [written] ∧
          ((∀ u ∈ fresh.uses acts, u.2.isNaN = false) →
            IsOldest (fresh.uses acts) front d behind))) := by
  intro fresh c c' written
  have hsame : c.capacity = capacity := capacity_after fresh acts
  refine ⟨size_after_le defaultTtl hcapacity acts, fun hkey => ⟨?_, fun k hk => ?_⟩,
    fun hnew => ⟨fun hroom => ?_, fun hfull hexpired => ?_, fun hfull hlive => ?_⟩⟩
  · have hcontains : c.entries.contains key = true := List.contains_iff_mem.2 hkey
    simp only [c', CacheAct.run, write, if_pos hcontains, OrderedMap.keys_insert, if_pos hkey]
  · rw [find?_put, if_neg hk, if_pos (OrderedMap.isSome_find?_iff.2 hkey)]
  · rw [entries_run_put hnew, makeRoom_of_lt (hsame ▸ hroom)]
  · rw [entries_run_put hnew, entries_makeRoom_of_expired (hfull.trans hsame.symm) hexpired]
    rfl
  · obtain ⟨d, hd, hleft⟩ :=
      entries_makeRoom_of_live (hsame.symm ▸ hcapacity) (hfull.trans hsame.symm) hlive
    obtain ⟨front, behind, hparts, holdest⟩ := isOldest_of_oldest? rfl hd
    refine ⟨front, d, behind, hparts, ?_, holdest⟩
    rw [entries_run_put hnew, hleft, OrderedMap.entries_erase_of_entries_eq hparts]

/-- On a full shelf with room for two volumes, a third one takes the place of the second one: the
first one was looked up since. -/
theorem put_shelf :
    let acts : List (CacheAct String Nat) :=
      [.get 3.0 "first", .put 2.0 2.0 "second" 2 none, .put 0.0 0.0 "first" 1 none]
    let shelf : MemoryCache String Nat := create none 2
    let c := shelf.after acts
    0 < 2 ∧ c.entries.keys = ["first", "second"] ∧
    ((CacheAct.put 4.0 4.0 "third" 3 none).run c).entries.keys = ["first", "third"] ∧
    ∃ front d behind, c.entries.entries = front ++ d :: behind ∧
      (front ++ behind).map Prod.fst = ["first"] ∧
      ∃ since earlier, shelf.uses acts = since ++ (d.1, d.2.lastAccessed) :: earlier ∧
        ∀ d' ∈ front ++ behind, ∃ u ∈ since, u.1 = d'.1 := by
  intro acts shelf c
  have hkeys : c.entries.keys = ["first", "second"] := by decide +kernel
  have hkeys' : ((CacheAct.put 4.0 4.0 "third" 3 none).run c).entries.keys = ["first", "third"] := by
    decide +kernel
  obtain ⟨-, -, hnew⟩ := put_evicts none (by decide : 0 < 2) acts 4.0 4.0 "third" 3 none
  obtain ⟨-, -, hlive⟩ := hnew (by rw [hkeys]; decide)
  obtain ⟨front, d, behind, hparts, hleft, holdest⟩ :=
    hlive (by decide +kernel) (by decide +kernel)
  obtain ⟨since, earlier, huses, -, hsince⟩ :=
    (holdest (by decide +kernel)).unused (by decide +kernel)
  have hkept : (front ++ behind).map Prod.fst ++ ["third"] = ["first"] ++ ["third"] := by
    have hwritten := congrArg (List.map Prod.fst) hleft
    rw [List.map_append] at hwritten
    exact hwritten.symm.trans hkeys'
  exact ⟨by decide, hkeys, hkeys', front, d, behind, hparts, List.append_cancel_right hkept, since,
    earlier, huses, hsince⟩

end MemoryCache

end Gatehouse
