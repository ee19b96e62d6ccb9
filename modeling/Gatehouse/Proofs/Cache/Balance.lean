import Gatehouse.Proofs.Cache.Eviction

/-!
# The books of a cache in memory balance

Entries come into a cache in memory by writes of new keys only.  They go by several ways: they are
dropped to make room, a lookup finds them expired, or they are invalidated, one by one, by a test or
all at once.  The first way is counted by the cache itself (`MemoryCache.evictions`), and what is
invalidated is reported to the caller (`CacheAct.removed`).

Each act keeps two balances: every lookup is counted once, as a hit or as a miss
(`CacheAct.lookups_run`), and what has come in is what is there or has gone (`CacheAct.entries_run`).
Acts that write no new key and drop nothing on purpose move neither side, but for an expired entry
that a lookup drops (`CacheAct.IsQuiet.counts`).

Main statements: both balances hold after every history (`MemoryCache.lookups_after`,
`MemoryCache.entries_after`).
-/

namespace Gatehouse

variable {κ α : Type} [DecidableEq κ]

namespace CacheAct

/-! ### What is counted -/

/-- An act is a lookup that the cache counts. -/
def isLookup : CacheAct κ α → Bool
  | get _ _ | enter _ _ => true
  | _ => false

/-- The values that an act writes under keys that were absent. -/
def added (c : MemoryCache κ α) : CacheAct κ α → Nat
  | put _ _ key _ _ => if c.entries.contains key then 0 else 1
  | _ => 0

/-- The entries that a lookup drops as they have expired. -/
def lapsed (c : MemoryCache κ α) : CacheAct κ α → Nat
  | get now key | enter now key =>
    match c.entries.find? key with
    | some e => if e.isExpired now then 1 else 0
    | none => 0
  | _ => 0

/-- The removals that an act reports. -/
def removed (c : MemoryCache κ α) : CacheAct κ α → Nat
  | invalidate key => if (c.invalidate key).1 then 1 else 0
  | invalidateWhere test =>
    match c.invalidateWhere test with
    | .ok r => r.1
    | .error _ => 0
  | clear => c.clear.1
  | _ => 0

end CacheAct

namespace MemoryCache

variable {c : MemoryCache κ α} {now : Float} {key : κ}

/-- **A counted lookup** is counted once, and drops an entry of its key that has expired. -/
theorem counts_get (c : MemoryCache κ α) (now : Float) (key : κ) :
    (c.get now key).2.hits + (c.get now key).2.misses = c.hits + c.misses + 1 ∧
    (c.get now key).2.evictions = c.evictions ∧
    (c.get now key).2.entries.size + (CacheAct.get now key).lapsed c = c.entries.size := by
  have hsize := c.entries.size_erase key
  unfold get lookup
  simp only [CacheAct.lapsed]
  rcases hfind : c.entries.find? key with _ | e
  · exact ⟨rfl, rfl, rfl⟩
  · have hkey : key ∈ c.entries.keys := OrderedMap.isSome_find?_iff.1 (by rw [hfind]; rfl)
    rw [if_pos hkey] at hsize
    cases he : e.isExpired now
    · simp [he, OrderedMap.size_insert, hkey, Nat.add_right_comm]
    · simpa [he, Nat.add_assoc] using hsize

/-- As many entries are dropped as are there, at most. -/
theorem size_dropOldest {n : Nat} {m : OrderedMap κ (CacheEntry α)} (h : n ≤ m.size) :
    (dropOldest n m).size + n = m.size := by
  induction n generalizing m with
  | zero => rfl
  | succ n ih =>
    unfold dropOldest
    rcases hd : oldest? m.entries with _ | d
    · rw [OrderedMap.size, oldest?_eq_none hd] at h
      exact absurd h (Nat.not_succ_le_zero n)
    · obtain ⟨front, behind, hparts, -⟩ := oldest?_eq_some hd
      have hkey : d.1 ∈ m.keys :=
        List.mem_map_of_mem (hparts ▸ List.mem_append_right front List.mem_cons_self)
      have herase := m.size_erase d.1
      rw [if_pos hkey] at herase
      have hrest := ih (m := m.erase d.1) (by omega)
      dsimp only
      omega

/-- **What is dropped to make room is counted.** -/
theorem size_makeRoom (hcapacity : 0 < c.capacity) (now : Float) :
    (c.makeRoom now).entries.size + (c.makeRoom now).evictions =
      c.entries.size + c.evictions := by
  have hle : (c.entries.filter fun _ e => !e.isExpired now).size ≤ c.entries.size :=
    List.length_filter_le _ _
  unfold makeRoom
  split
  · rfl
  · dsimp only
    split
    · dsimp only
      omega
    · next hfull =>
      have hdropped := size_dropOldest (m := c.entries.filter fun _ e => !e.isExpired now)
        (n := (c.entries.filter fun _ e => !e.isExpired now).size - c.capacity + 1) (by omega)
      dsimp only
      omega

/-- A new key is one more entry behind what is left when room was made for it. -/
theorem size_run_put {now roomAt : Float} {value : α} {ttl : Option Float}
    (h : key ∉ c.entries.keys) : ((CacheAct.put now roomAt key value ttl).run c).entries.size =
      (c.makeRoom roomAt).entries.size + 1 := by
  rw [OrderedMap.size, entries_run_put h, List.length_append]
  rfl

/-- **What a test drops is reported,** and nothing else is counted. -/
theorem counts_invalidateWhere {test : κ → α → Except Problem Bool} {r : Nat × MemoryCache κ α}
    (h : c.invalidateWhere test = .ok r) :
    r.2.hits + r.2.misses = c.hits + c.misses ∧ r.2.evictions = c.evictions ∧
      r.2.entries.size + r.1 = c.entries.size := by
  unfold invalidateWhere at h
  split at h
  · cases h
  · next ks hks =>
    obtain rfl := Except.ok.inj h
    obtain ⟨_, hks', hsub, -⟩ := matching_eq_ok (exists_of_matching hks)
    obtain rfl := Except.ok.inj (hks.symm.trans hks')
    exact ⟨rfl, rfl, c.entries.size_filter_not_contains (c.entries.keys_nodup.sublist hsub)
      fun k hk => hsub.subset hk⟩

end MemoryCache

namespace CacheAct

variable {c : MemoryCache κ α} {act : CacheAct κ α}

/-- **Every lookup is counted once,** as a hit or as a miss, and nothing else is. -/
theorem lookups_run (act : CacheAct κ α) (c : MemoryCache κ α) :
    (act.run c).hits + (act.run c).misses = c.hits + c.misses + if act.isLookup then 1 else 0 := by
  cases act with
  | get now key => exact (c.counts_get now key).1
  | enter now key =>
    rw [run, MemoryCache.enter_eq]
    exact (c.counts_get now key).1
  | leave key => rfl
  | put now roomAt key value ttl =>
    simp only [run, MemoryCache.write]
    split
    · rfl
    · rw [c.makeRoom_eq roomAt]
      rfl
  | invalidate key => rfl
  | invalidateWhere test =>
    simp only [run]
    split
    · next hok => exact (MemoryCache.counts_invalidateWhere hok).1
    · rfl
  | clear => rfl

/-- **What has come in is there or has gone:** an act that adds an entry, or takes entries away, moves
both sides alike. -/
theorem entries_run (hcapacity : 0 < c.capacity) (act : CacheAct κ α) :
    (act.run c).entries.size + (act.run c).evictions + act.lapsed c + act.removed c =
      c.entries.size + c.evictions + act.added c := by
  cases act with
  | get now key =>
    obtain ⟨-, hevictions, hsize⟩ := c.counts_get now key
    simp only [run, removed, added]
    omega
  | enter now key =>
    obtain ⟨-, hevictions, hsize⟩ := c.counts_get now key
    rw [run, MemoryCache.enter_eq]
    change (c.get now key).2.entries.size + (c.get now key).2.evictions + (get now key).lapsed c + 0 =
      _ + 0
    omega
  | leave key => rfl
  | put now roomAt key value ttl =>
    simp only [lapsed, removed, added]
    by_cases hkey : c.entries.contains key = true
    · rw [if_pos hkey, run, if_pos hkey, MemoryCache.write]
      simp only [OrderedMap.size_insert, if_pos (OrderedMap.contains_iff_mem.1 hkey)]
    · have hnew : key ∉ c.entries.keys := fun h => hkey (OrderedMap.contains_iff_mem.2 h)
      have hroom := MemoryCache.size_makeRoom hcapacity roomAt
      have hevictions : ((put now roomAt key value ttl).run c).evictions =
          (c.makeRoom roomAt).evictions := by
        rw [run, if_neg hkey, MemoryCache.write]
      rw [if_neg hkey, MemoryCache.size_run_put hnew, hevictions]
      omega
  | invalidate key =>
    have hsize := c.entries.size_erase key
    simp only [run, MemoryCache.invalidate, lapsed, removed, added, OrderedMap.contains_iff_mem]
    omega
  | invalidateWhere test =>
    simp only [run, lapsed, removed, added]
    rcases hmade : c.invalidateWhere test with p | r
    · rfl
    · obtain ⟨-, hevictions, hsize⟩ := MemoryCache.counts_invalidateWhere hmade
      dsimp only
      omega
  | clear =>
    simp only [run, MemoryCache.clear, lapsed, removed, added]
    change 0 + c.evictions + 0 + c.entries.size = c.entries.size + c.evictions + 0
    omega

/-- An act that writes no new key and drops nothing on purpose: a lookup, the end of a computation,
or a write of a key that is present. -/
def IsQuiet (c : MemoryCache κ α) : CacheAct κ α → Prop
  | get _ _ | enter _ _ | leave _ => True
  | put _ _ key _ _ => c.entries.contains key = true
  | _ => False

/-- **A quiet act adds nothing and evicts nothing,** and the only entry that can go is an expired one
that a lookup drops. -/
theorem IsQuiet.counts (h : act.IsQuiet c) :
    act.added c = 0 ∧ act.removed c = 0 ∧ (act.run c).evictions = c.evictions ∧
      (act.run c).entries.size + act.lapsed c = c.entries.size := by
  cases act with
  | get now key => exact ⟨rfl, rfl, (c.counts_get now key).2⟩
  | enter now key =>
    rw [run, MemoryCache.enter_eq]
    exact ⟨rfl, rfl, (c.counts_get now key).2⟩
  | leave key => exact ⟨rfl, rfl, rfl, rfl⟩
  | put now roomAt key value ttl =>
    have hkey : c.entries.contains key = true := h
    refine ⟨if_pos hkey, rfl, ?_, ?_⟩ <;> rw [run, if_pos hkey, MemoryCache.write]
    simp only [OrderedMap.size_insert, if_pos (OrderedMap.contains_iff_mem.1 hkey), lapsed,
      Nat.add_zero]
  | _ => exact h.elim

end CacheAct

namespace MemoryCache

/-- What the acts of a history come to, each counted in the cache that it finds. -/
def total (count : MemoryCache κ α → CacheAct κ α → Nat) (c : MemoryCache κ α) :
    List (CacheAct κ α) → Nat
  | [] => 0
  | act :: earlier => count (c.after earlier) act + total count c earlier

/-- **Every lookup is a hit or a miss,** over a whole history. -/
theorem lookups_after (c : MemoryCache κ α) (acts : List (CacheAct κ α)) :
    (c.after acts).hits + (c.after acts).misses =
      c.hits + c.misses + acts.countP CacheAct.isLookup := by
  induction acts with
  | nil => rfl
  | cons act earlier ih =>
    have hstep := act.lookups_run (c.after earlier)
    rw [List.countP_cons]
    change (act.run (c.after earlier)).hits + (act.run (c.after earlier)).misses = _
    omega

/-- **Every entry that was added is accounted for,** over a whole history: it is still there, or it
was evicted, or it had lapsed, or it was removed. -/
theorem entries_after {c : MemoryCache κ α} (hcapacity : 0 < c.capacity)
    (acts : List (CacheAct κ α)) :
    (c.after acts).entries.size + (c.after acts).evictions + c.total CacheAct.lapsed acts +
        c.total CacheAct.removed acts =
      c.entries.size + c.evictions + c.total CacheAct.added acts := by
  induction acts with
  | nil => rfl
  | cons act earlier ih =>
    have hstep := act.entries_run ((c.capacity_after earlier).symm ▸ hcapacity)
    simp only [total]
    change (act.run (c.after earlier)).entries.size + (act.run (c.after earlier)).evictions + _ + _ =
      _
    omega

end MemoryCache

end Gatehouse
