import Gatehouse.Proofs.Cache.Acts
import Gatehouse.Proofs.Decimal.Order

/-!
# A cache in memory only ever forgets

What a cache in memory answers is what was last written, unless there is a reason to have forgotten
it.  `CacheAct.TakesAway` lists the reasons for which an act takes away what stands under a key: it
is invalidated, a test is satisfied by it, the cache is cleared, it is found expired by a lookup of
its key or by a write that makes room, or it makes room itself.  Each act either keeps an entry, with
its value and its expiry, or has one of these reasons to take it away
(`CacheAct.find?_run_eq_none_iff`).

Main statement: in every history of a cache, a lookup of a key answers with the value of its last
write exactly if that has not expired and no act since has taken it away (`MemoryCache.get_after`).
-/

namespace Gatehouse

variable {κ α : Type} [DecidableEq κ]

/-- **Why an act takes away what stands under a key:** in a cache `c` that keeps the value `v` under
the key `k`, which has lapsed at some readings of the clock. -/
inductive CacheAct.TakesAway (c : MemoryCache κ α) (k : κ) (v : α) (lapsed : Float → Prop) :
    CacheAct κ α → Prop where
  /-- The key is invalidated. -/
  | invalidated : TakesAway c k v lapsed (.invalidate k)
  /-- The value satisfies a test that can be made on everything. -/
  | matched {test : κ → α → Except Problem Bool} {r : Nat × MemoryCache κ α}
    (made : c.invalidateWhere test = .ok r) (satisfied : test k v = .ok true) :
    TakesAway c k v lapsed (.invalidateWhere test)
  /-- The cache is cleared. -/
  | cleared : TakesAway c k v lapsed .clear
  /-- It is found expired by a lookup. -/
  | foundByGet {now : Float} (expired : lapsed now) : TakesAway c k v lapsed (.get now k)
  /-- It is found expired at the beginning of a computation. -/
  | foundByEnter {now : Float} (expired : lapsed now) : TakesAway c k v lapsed (.enter now k)
  /-- It is found expired when a full cache makes room for a new key. -/
  | foundInFull {now roomAt : Float} {key : κ} {value : α} {ttl : Option Float}
    (new : c.entries.find? key = none) (full : c.capacity ≤ c.entries.size)
    (expired : lapsed roomAt) : TakesAway c k v lapsed (.put now roomAt key value ttl)
  /-- It is dropped from a full cache to make room for a new key. -/
  | evicted {now roomAt : Float} {key : κ} {value : α} {ttl : Option Float}
    (new : c.entries.find? key = none) (full : c.capacity ≤ c.entries.size)
    (present : c.entries.find? k ≠ none)
    (gone : ((CacheAct.put now roomAt key value ttl).run c).entries.find? k = none) :
    TakesAway c k v lapsed (.put now roomAt key value ttl)

namespace CacheAct

variable {c : MemoryCache κ α} {act : CacheAct κ α} {k : κ} {e : CacheEntry α}

/-- Nothing appears under a key by an act that writes nothing there. -/
theorem find?_run_of_none (h : ¬ act.Writes k) (hnone : c.entries.find? k = none) :
    (act.run c).entries.find? k = none := by
  refine Option.eq_none_iff_forall_ne_some.2 fun e' he' => ?_
  obtain ⟨e, he, -⟩ := run_within h he'
  cases he.symm.trans hnone

/-- **An act that writes nothing under a key takes away what stands there exactly if it has a reason
to.** -/
theorem find?_run_eq_none_iff (h : ¬ act.Writes k) (hfind : c.entries.find? k = some e) :
    (act.run c).entries.find? k = none ↔
      act.TakesAway c k e.value fun now => e.isExpired now = true := by
  cases act with
  | get now key =>
    rw [run, MemoryCache.find?_get_eq_none_iff hfind]
    constructor
    · rintro ⟨rfl, hexpired⟩
      exact .foundByGet hexpired
    · rintro ⟨⟩
      exact ⟨rfl, ‹_›⟩
  | enter now key =>
    rw [run, MemoryCache.entries_enter, MemoryCache.find?_get_eq_none_iff hfind]
    constructor
    · rintro ⟨rfl, hexpired⟩
      exact .foundByEnter hexpired
    · rintro ⟨⟩
      exact ⟨rfl, ‹_›⟩
  | leave key => exact iff_of_false (by simp [run, MemoryCache.leave, hfind]) (by rintro ⟨⟩)
  | put now roomAt key value ttl =>
    have hne : k ≠ key := fun hk => h hk.symm
    have hleft := c.find?_put now roomAt key k value ttl
    rw [if_neg hne] at hleft
    constructor
    · intro hgone
      have hnew : c.entries.find? key = none := by
        by_contra hnew
        rw [if_pos (Option.isSome_iff_ne_none.2 hnew), hgone, hfind] at hleft
        cases hleft
      have hfull : c.capacity ≤ c.entries.size := by
        by_contra hroom
        rw [MemoryCache.makeRoom_of_lt (Nat.not_le.1 hroom), ite_self, hgone, hfind] at hleft
        cases hleft
      exact .evicted hnew hfull (by simp [hfind]) hgone
    · rintro (⟨⟩ | ⟨⟩ | ⟨⟩ | ⟨⟩ | ⟨⟩ | ⟨hnew, hfull, hexpired⟩ | ⟨-, -, -, hgone⟩)
      · rw [hleft, hnew]
        exact MemoryCache.find?_makeRoom_of_isExpired hfull hfind hexpired
      · exact hgone
  | invalidate key =>
    rw [run, MemoryCache.invalidate, OrderedMap.find?_erase]
    constructor
    · intro hgone
      by_cases hk : k = key
      · exact hk ▸ .invalidated
      · rw [if_neg hk, hfind] at hgone
        cases hgone
    · rintro ⟨⟩
      exact if_pos rfl
  | invalidateWhere test =>
    rcases hmade : c.invalidateWhere test with p | r
    · simp only [run, hmade, hfind]
      refine iff_of_false (by simp) fun htakes => ?_
      cases htakes with
      | matched made _ => cases hmade.symm.trans made
    · obtain ⟨b, hb, hleft⟩ := MemoryCache.find?_invalidateWhere hmade hfind
      simp only [run, hmade, hleft]
      cases b with
      | false =>
        refine iff_of_false (by simp) fun htakes => ?_
        cases htakes with
        | matched _ satisfied => cases hb.symm.trans satisfied
      | true => exact iff_of_true rfl (.matched hmade hb)
  | clear => exact iff_of_true rfl .cleared

end CacheAct

namespace MemoryCache

/-- Some act of a history took away what stood under a key at its beginning. -/
def TakenAway (c : MemoryCache κ α) (k : κ) (v : α) (lapsed : Float → Prop)
    (acts : List (CacheAct κ α)) : Prop :=
  ∃ act earlier, act :: earlier <:+ acts ∧ act.TakesAway (c.after earlier) k v lapsed

variable {c : MemoryCache κ α} {k : κ} {v : α} {lapsed : Float → Prop} {act : CacheAct κ α}
  {acts : List (CacheAct κ α)} {e : CacheEntry α}

/-- Nothing is taken away before anything is done. -/
theorem not_takenAway_nil : ¬ c.TakenAway k v lapsed [] := by
  rintro ⟨act, earlier, hsuffix, -⟩
  cases List.suffix_nil.1 hsuffix

/-- An entry was taken away by the last act or by one before it. -/
theorem takenAway_cons : c.TakenAway k v lapsed (act :: acts) ↔
    act.TakesAway (c.after acts) k v lapsed ∨ c.TakenAway k v lapsed acts := by
  constructor
  · rintro ⟨act', earlier, hsuffix, htakes⟩
    rcases List.suffix_cons_iff.1 hsuffix with heq | hsuffix
    · obtain ⟨rfl, rfl⟩ := List.cons.inj heq
      exact .inl htakes
    · exact .inr ⟨act', earlier, hsuffix, htakes⟩
  · rintro (htakes | ⟨act', earlier, hsuffix, htakes⟩)
    · exact ⟨act, acts, List.suffix_refl _, htakes⟩
    · exact ⟨act', earlier, hsuffix.trans (List.suffix_cons act acts), htakes⟩

/-- Nothing stands under a key if nothing stood there and nothing was written. -/
theorem find?_after_of_none (h : c.entries.find? k = none) (hacts : ∀ act ∈ acts, ¬ act.Writes k) :
    (c.after acts).entries.find? k = none := by
  induction acts with
  | nil => exact h
  | cons act earlier ih =>
    obtain ⟨hact, hearlier⟩ := List.forall_mem_cons.1 hacts
    exact CacheAct.find?_run_of_none hact (ih hearlier)

/-- **Through a history without writes of its key, an entry stays as it is** until an act takes it
away. -/
theorem find?_after (h : c.entries.find? k = some e) (hacts : ∀ act ∈ acts, ¬ act.Writes k) :
    ¬ c.TakenAway k e.value (fun now => e.isExpired now = true) acts ∧
        (∃ e', (c.after acts).entries.find? k = some e' ∧ e'.Alike e) ∨
      c.TakenAway k e.value (fun now => e.isExpired now = true) acts ∧
        (c.after acts).entries.find? k = none := by
  induction acts with
  | nil => exact .inl ⟨not_takenAway_nil, e, h, .refl e⟩
  | cons act earlier ih =>
    obtain ⟨hact, hearlier⟩ := List.forall_mem_cons.1 hacts
    rw [takenAway_cons]
    rcases ih hearlier with ⟨hkept, e', he', halike⟩ | ⟨htaken, hgone⟩
    · have hiff := CacheAct.find?_run_eq_none_iff hact he'
      have hlapsed : (fun now => e'.isExpired now = true) = fun now => e.isExpired now = true := by
        funext now
        rw [halike.isExpired_eq]
      rw [halike.value, hlapsed] at hiff
      rcases hleft : (c.after (act :: earlier)).entries.find? k with _ | e''
      · exact .inr ⟨.inl (hiff.1 hleft), rfl⟩
      · obtain ⟨e₀, he₀, halike'⟩ := CacheAct.run_within hact hleft
        obtain rfl := Option.some.inj (he₀.symm.trans he')
        refine .inl ⟨?_, e'', rfl, halike'.trans halike⟩
        rintro (htakes | htaken)
        · cases (hiff.2 htakes).symm.trans hleft
        · exact hkept htaken
    · exact .inr ⟨.inr htaken, CacheAct.find?_run_of_none hact hgone⟩

/-! ### The last write -/

/-- **The last write of a key in a history:** of a value, at an instant and with a lifetime of its
own or none; `since` are the acts after it, and `upto` the acts up to it. -/
structure LastWrite (acts : List (CacheAct κ α)) (k : κ) (v : α) (writtenAt : Float)
    (ttl : Option Float) (since upto : List (CacheAct κ α)) : Prop where
  /-- The two parts of the history. -/
  parts : acts = since ++ upto
  /-- The write. -/
  write : ∃ roomAt earlier, upto = .put writtenAt roomAt k v ttl :: earlier
  /-- The key is not written again. -/
  last : ∀ act ∈ since, ¬ act.Writes k

/-- What was written has lapsed: it has a lifetime, its own or the default, that is not zero, and
this has passed. -/
def Lapsed (defaultTtl : Option Float) (writtenAt : Float) (ttl : Option Float) (now : Float) : Prop :=
  ∃ t, ttl.or defaultTtl = some t ∧ (t == 0.0) = false ∧ writtenAt + t ≤ now

omit [DecidableEq κ] in
/-- A key was never written, or there is a last write of it. -/
theorem exists_lastWrite (acts : List (CacheAct κ α)) (k : κ) :
    (∀ act ∈ acts, ¬ act.Writes k) ∨
      ∃ v writtenAt ttl since upto, LastWrite acts k v writtenAt ttl since upto := by
  induction acts with
  | nil => exact .inl nofun
  | cons act earlier ih =>
    by_cases hact : act.Writes k
    · cases act with
      | put writtenAt roomAt key v ttl =>
        obtain rfl : key = k := hact
        exact .inr ⟨v, writtenAt, ttl, [], _, rfl, ⟨roomAt, earlier, rfl⟩, nofun⟩
      | _ => exact hact.elim
    · rcases ih with hnever | ⟨v, writtenAt, ttl, since, upto, rfl, hwrite, hlast⟩
      · exact .inl (List.forall_mem_cons.2 ⟨hact, hnever⟩)
      · exact .inr ⟨v, writtenAt, ttl, act :: since, upto, rfl, hwrite,
          List.forall_mem_cons.2 ⟨hact, hlast⟩⟩

variable {defaultTtl ttl : Option Float} {capacity : Nat} {writtenAt now : Float}
  {since upto : List (CacheAct κ α)}

/-- A write keeps the value, until it lapses. -/
theorem LastWrite.find?_upto (h : LastWrite acts k v writtenAt ttl since upto) (c : MemoryCache κ α) :
    ∃ e, (c.after upto).entries.find? k = some e ∧ e.value = v ∧
      ∀ now, e.isExpired now = true ↔ Lapsed c.defaultTtl writtenAt ttl now := by
  obtain ⟨roomAt, earlier, rfl⟩ := h.write
  refine ⟨⟨v, writtenAt, c.expiry writtenAt ttl, 0, writtenAt⟩, ?_, rfl, fun now => ?_⟩
  · change ((CacheAct.put writtenAt roomAt k v ttl).run (c.after earlier)).entries.find? k = _
    rw [find?_put, if_pos rfl, expiry_congr (c.defaultTtl_after earlier)]
  · unfold CacheEntry.isExpired expiry Lapsed
    rcases ttl.or c.defaultTtl with _ | t
    · simp
    · by_cases ht : (t == 0.0) = true <;> simp [ht]

/-- **What a lookup answers** after a last write. -/
theorem LastWrite.fst_get (h : LastWrite acts k v writtenAt ttl since upto) (c : MemoryCache κ α)
    (now : Float) :
    ((c.after acts).get now k).1 = none ∧
        (Lapsed c.defaultTtl writtenAt ttl now ∨
          (c.after upto).TakenAway k v (Lapsed c.defaultTtl writtenAt ttl) since) ∨
      ((c.after acts).get now k).1 = some v ∧ ¬ Lapsed c.defaultTtl writtenAt ttl now ∧
        ¬ (c.after upto).TakenAway k v (Lapsed c.defaultTtl writtenAt ttl) since := by
  obtain ⟨e, he, rfl, hexpired⟩ := h.find?_upto c
  have hlapsed : (fun now => e.isExpired now = true) = Lapsed c.defaultTtl writtenAt ttl :=
    funext fun now => propext (hexpired now)
  have hrun := find?_after he h.last
  rw [hlapsed, ← after_append, ← h.parts] at hrun
  rw [MemoryCache.fst_get]
  rcases hrun with ⟨hkept, e', he', halike⟩ | ⟨htaken, hgone⟩
  · by_cases hnow : Lapsed c.defaultTtl writtenAt ttl now
    · refine .inl ⟨?_, .inl hnow⟩
      have hexpired' : e'.isExpired now = true := by rwa [halike.isExpired_eq, hexpired]
      simp [he', Option.filter_some, hexpired']
    · refine .inr ⟨?_, hnow, hkept⟩
      have hlive : e'.isExpired now = false := by
        rwa [halike.isExpired_eq, ← Bool.not_eq_true, hexpired]
      simp [he', Option.filter_some, hlive, halike.value]
  · exact .inl ⟨by simp [hgone], .inr htaken⟩

/-- A key that was never written is not found. -/
theorem fst_get_of_forall (h : ∀ act ∈ acts, ¬ act.Writes k) :
    (((create defaultTtl capacity : MemoryCache κ α).after acts).get now k).1 = none := by
  rw [MemoryCache.fst_get, find?_after_of_none rfl h]
  rfl

/-- What has not lapsed will do so later, as far as instants are numbers. -/
theorem lt_of_not_lapsed (h : ¬ Lapsed defaultTtl writtenAt ttl now) {t : Float}
    (ht : ttl.or defaultTtl = some t) (hzero : (t == 0.0) = false)
    (hnumber : (writtenAt + t).isNaN = false) (hnow : now.isNaN = false) : now < writtenAt + t :=
  Decimal.lt_of_not_le hnumber hnow fun hle => h ⟨t, ht, hzero, hle⟩

/-- **A cache in memory only ever forgets.**  After any history of a fresh cache, a lookup of a key,
be it counted or the first half of a computation, finds a value exactly if the last write of the key
wrote it, no act since has taken it away, and it has not lapsed; so its expiry, if it has one, is
later than the reading of the clock.  And a lookup misses exactly if the key was never written, or
what was last written has lapsed or was taken away since. -/
theorem get_after (defaultTtl : Option Float) (capacity : Nat) (acts : List (CacheAct κ α))
    (now : Float) (k : κ) :
    let fresh : MemoryCache κ α := create defaultTtl capacity
    let found := ((fresh.after acts).get now k).1
    ((fresh.after acts).enter now k).1 = found ∧
    (∀ v, found = some v ↔ ∃ writtenAt ttl since upto,
      LastWrite acts k v writtenAt ttl since upto ∧
      ¬ (fresh.after upto).TakenAway k v (Lapsed defaultTtl writtenAt ttl) since ∧
      ¬ Lapsed defaultTtl writtenAt ttl now ∧
      ∀ t, ttl.or defaultTtl = some t → (t == 0.0) = false → (writtenAt + t).isNaN = false →
        now.isNaN = false → now < writtenAt + t) ∧
    (found = none ↔ (∀ act ∈ acts, ¬ act.Writes k) ∨ ∃ v writtenAt ttl since upto,
      LastWrite acts k v writtenAt ttl since upto ∧
      (Lapsed defaultTtl writtenAt ttl now ∨
        (fresh.after upto).TakenAway k v (Lapsed defaultTtl writtenAt ttl) since)) := by
  intro fresh found
  refine ⟨fst_enter _ _ _, fun v => ⟨fun hfound => ?_, ?_⟩, fun hfound => ?_, ?_⟩
  · rcases exists_lastWrite acts k with hnever | ⟨v', writtenAt, ttl, since, upto, hlast⟩
    · cases hfound.symm.trans (fst_get_of_forall hnever)
    · rcases hlast.fst_get fresh now with ⟨hnone, -⟩ | ⟨hsome, hnow, hkept⟩
      · cases hfound.symm.trans hnone
      · obtain rfl := Option.some.inj (hfound.symm.trans hsome)
        exact ⟨writtenAt, ttl, since, upto, hlast, hkept, hnow, fun t => lt_of_not_lapsed hnow⟩
  · rintro ⟨writtenAt, ttl, since, upto, hlast, hkept, hnow, -⟩
    rcases hlast.fst_get fresh now with ⟨-, hlapsed | htaken⟩ | ⟨hsome, -⟩
    · exact absurd hlapsed hnow
    · exact absurd htaken hkept
    · exact hsome
  · rcases exists_lastWrite acts k with hnever | ⟨v', writtenAt, ttl, since, upto, hlast⟩
    · exact .inl hnever
    · rcases hlast.fst_get fresh now with ⟨-, hwhy⟩ | ⟨hsome, -⟩
      · exact .inr ⟨v', writtenAt, ttl, since, upto, hlast, hwhy⟩
      · cases hfound.symm.trans hsome
  · rintro (hnever | ⟨v, writtenAt, ttl, since, upto, hlast, hwhy⟩)
    · exact fst_get_of_forall hnever
    · rcases hlast.fst_get fresh now with ⟨hnone, -⟩ | ⟨-, hnow, hkept⟩
      · exact hnone
      · exact (hwhy.elim hnow hkept).elim

/-- A shelf with room for two volumes, latest act first: the second volume is computed, and makes room
for the third one, as the first one was looked up in between. -/
def shelfActs : List (CacheAct Text Nat) :=
  [.put 4.0 4.0 "third" 3 none, .get 3.0 "first", .leave "second",
    .put 2.0 2.0 "second" 2 (some 0.0), .enter 1.0 "second", .put 0.0 0.0 "first" 1 (some 9.0)]

/-- Before nine the first volume is found, as nothing has taken it away, and the second one is not,
as it has no expiry but was taken away. -/
theorem get_after_shelf :
    let shelf : MemoryCache Text Nat := create (some 60.0) 2
    (∃ writtenAt ttl since upto, LastWrite shelfActs "first" 1 writtenAt ttl since upto ∧
      ¬ (shelf.after upto).TakenAway "first" 1 (Lapsed (some 60.0) writtenAt ttl) since) ∧
    ∃ v writtenAt ttl since upto, LastWrite shelfActs "second" v writtenAt ttl since upto ∧
      (Lapsed (some 60.0) writtenAt ttl 8.0 ∨
        (shelf.after upto).TakenAway "second" v (Lapsed (some 60.0) writtenAt ttl) since) := by
  intro shelf
  have hfirst : ((shelf.after shelfActs).get 8.0 "first").1 = some 1 := by decide +kernel
  have hsecond : ((shelf.after shelfActs).get 8.0 "second").1 = none := by decide +kernel
  obtain ⟨-, hhit, -⟩ := get_after (some 60.0) 2 shelfActs 8.0 "first"
  obtain ⟨-, -, hmiss⟩ := get_after (some 60.0) 2 shelfActs 8.0 "second"
  obtain ⟨writtenAt, ttl, since, upto, hlast, hkept, -⟩ := (hhit 1).1 hfirst
  refine ⟨⟨writtenAt, ttl, since, upto, hlast, hkept⟩, (hmiss.1 hsecond).resolve_left fun h => ?_⟩
  exact h (.put 2.0 2.0 "second" 2 (some 0.0)) (by simp [shelfActs]) rfl

end MemoryCache

end Gatehouse
