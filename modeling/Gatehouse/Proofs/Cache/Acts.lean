import Gatehouse.Proofs.Cache.Memory

/-!
# Histories of a cache in memory

What a single caller does to a cache in memory is a list of acts, latest first, each with the
readings of the clock that it takes (`CacheAct`).  A value that is asked for with a computation is
entered under its key; on a miss there follow the acts of the computation, the write of its value,
if it has one, and the end of the computation (`MemoryCache.leave`).  As computations may use the
cache in their turn, acts stand in a plain list, and any list of acts is allowed.

Main statements: the first half of a computation is a lookup (`MemoryCache.enter_eq`); what stands
under a key after a write and after a test (`MemoryCache.find?_put`,
`MemoryCache.find?_invalidateWhere`); and an act that writes nothing under a key leaves nothing new
there (`CacheAct.run_within`).
-/

namespace Gatehouse

/-- An act of a caller on a cache in memory. -/
inductive CacheAct (κ α : Type) where
  /-- Looks a key up. -/
  | get (now : Float) (key : κ)
  /-- Asks for a value with a computation: looks the key up, and marks it on a miss. -/
  | enter (now : Float) (key : κ)
  /-- Ends a computation. -/
  | leave (key : κ)
  /-- Writes a value.  If entries are looked through to make room, the clock is read once more. -/
  | put (now roomAt : Float) (key : κ) (value : α) (ttl : Option Float)
  /-- Drops a key. -/
  | invalidate (key : κ)
  /-- Drops the entries that satisfy a test. -/
  | invalidateWhere (test : κ → α → Except Problem Bool)
  /-- Drops everything. -/
  | clear

variable {κ α : Type} [DecidableEq κ]

namespace CacheAct

/-- What is left after an act.  A test that fails on an entry drops nothing. -/
def run : CacheAct κ α → MemoryCache κ α → MemoryCache κ α
  | get now key, c => (c.get now key).2
  | enter now key, c => (c.enter now key).2
  | leave key, c => c.leave key
  | put now roomAt key value ttl, c =>
    (if c.entries.contains key then c else c.makeRoom roomAt).write now key value ttl
  | invalidate key, c => (c.invalidate key).2
  | invalidateWhere test, c =>
    match c.invalidateWhere test with
    | .ok r => r.2
    | .error _ => c
  | clear, c => c.clear.2

/-- An act writes a value under a key. -/
def Writes (k : κ) : CacheAct κ α → Prop
  | put _ _ key _ _ => key = k
  | _ => False

/-- A write that reads the clock only once. -/
theorem run_put (c : MemoryCache κ α) (now : Float) (key : κ) (value : α) (ttl : Option Float) :
    (put now now key value ttl).run c = c.store now key value ttl := rfl

end CacheAct

namespace MemoryCache

/-- What is left after some acts, latest first. -/
def after (c : MemoryCache κ α) (acts : List (CacheAct κ α)) : MemoryCache κ α :=
  acts.foldr CacheAct.run c

variable {c : MemoryCache κ α} {now roomAt : Float} {key k : κ} {value : α} {ttl : Option Float}

/-- A history after another one takes up where that one ended. -/
theorem after_append (c : MemoryCache κ α) (later earlier : List (CacheAct κ α)) :
    c.after (later ++ earlier) = (c.after earlier).after later :=
  List.foldr_append

/-! ### What stands under a key -/

/-- **The first half of a computation is a counted lookup** that marks the key on a miss. -/
theorem enter_eq (c : MemoryCache κ α) (now : Float) (key : κ) :
    c.enter now key = ((c.get now key).1, { (c.get now key).2 with
      inFlight := if (c.get now key).1.isSome then c.inFlight else key :: c.inFlight }) := by
  have hmissed : ∀ c' : MemoryCache κ α, c'.entries.find? key = none →
      c'.lookup now key = (none, c') := by
    intro c' hnone
    simp only [lookup, hnone]
  unfold enter get
  rcases hfind : c.entries.find? key with _ | e
  · simp [hmissed _ hfind, hmissed { c with inFlight := key :: c.inFlight } hfind]
  · cases he : e.isExpired now
    · simp [lookup, hfind, he]
    · have hgone : (c.entries.erase key).find? key = none := by simp [OrderedMap.find?_erase]
      have hlookup : c.lookup now key = (none, { c with entries := c.entries.erase key }) := by
        simp [lookup, hfind, he]
      simp only [hlookup]
      rw [hmissed { c with entries := c.entries.erase key, inFlight := key :: c.inFlight } hgone]
      rfl

/-- A computation that begins finds what a lookup finds. -/
theorem fst_enter (c : MemoryCache κ α) (now : Float) (key : κ) :
    (c.enter now key).1 = (c.get now key).1 := by
  rw [enter_eq]

/-- Beginning a computation does no more to the entries than a lookup does. -/
theorem entries_enter (c : MemoryCache κ α) (now : Float) (key : κ) :
    (c.enter now key).2.entries = (c.get now key).2.entries := by
  rw [enter_eq]

omit [DecidableEq κ] in
/-- A write has its own lifetime, or that of the cache. -/
theorem expiry_congr {c c' : MemoryCache κ α} (h : c'.defaultTtl = c.defaultTtl) (now : Float)
    (ttl : Option Float) : c'.expiry now ttl = c.expiry now ttl := by
  rw [expiry, expiry, h]

/-- **After a write, its key has the new entry.**  The other keys have what they had, unless a new
key had to make room. -/
theorem find?_put (c : MemoryCache κ α) (now roomAt : Float) (key k : κ) (value : α)
    (ttl : Option Float) :
    ((CacheAct.put now roomAt key value ttl).run c).entries.find? k =
      if k = key then some ⟨value, now, c.expiry now ttl, 0, now⟩
      else if (c.entries.find? key).isSome then c.entries.find? k
      else (c.makeRoom roomAt).entries.find? k := by
  have hcontains : c.entries.contains key = (c.entries.find? key).isSome := by
    rw [Bool.eq_iff_iff, OrderedMap.isSome_find?_iff, OrderedMap.contains_iff_mem]
  have hexpiry := expiry_congr (c.defaultTtl_makeRoom roomAt) now ttl
  simp only [CacheAct.run, write, OrderedMap.find?_insert, hcontains]
  by_cases hnew : (c.entries.find? key).isSome <;> simp [hnew, hexpiry]

/-- Where there is room, nothing is dropped. -/
theorem makeRoom_of_lt (h : c.entries.size < c.capacity) : c.makeRoom now = c := if_pos h

/-- Whoever makes room drops everything that has expired. -/
theorem find?_makeRoom_of_isExpired (hfull : c.capacity ≤ c.entries.size) {e : CacheEntry α}
    (h : c.entries.find? k = some e) (hexpired : e.isExpired now = true) :
    (c.makeRoom now).entries.find? k = none := by
  have hlive : (c.entries.filter fun _ e => !e.isExpired now).find? k = none := by
    rw [OrderedMap.find?_filter, h]
    simp [Option.filter_some, hexpired]
  unfold makeRoom
  rw [if_neg (Nat.not_lt.2 hfull)]
  dsimp only
  split
  · exact hlive
  · refine Option.eq_none_iff_forall_ne_some.2 fun e' he' => ?_
    rw [find?_of_dropOldest he'] at hlive
    cases hlive

omit [DecidableEq κ] in
/-- A test that finds the keys to drop could be made on every entry. -/
theorem exists_of_matching {test : κ → α → Except Problem Bool} {l : List (κ × CacheEntry α)}
    {ks : List κ} (h : matching test l = .ok ks) :
    ∀ e ∈ l, ∃ b, test e.1 e.2.value = .ok b := by
  induction l generalizing ks with
  | nil => exact fun _ he => nomatch he
  | cons e rest ih =>
    obtain ⟨k, e⟩ := e
    rcases htest : test k e.value with p | b
    · simp [matching, htest] at h
    · rcases hrest : matching test rest with p | more
      · simp [matching, htest, hrest] at h
      · exact List.forall_mem_cons.2 ⟨⟨b, htest⟩, ih hrest⟩

section InvalidateWhere

variable {test : κ → α → Except Problem Bool} {r : Nat × MemoryCache κ α}

/-- **Where a test drops entries, it drops those that satisfy it,** and no others. -/
theorem find?_invalidateWhere (h : c.invalidateWhere test = .ok r) {e : CacheEntry α}
    (hfind : c.entries.find? k = some e) :
    ∃ b, test k e.value = .ok b ∧ r.2.entries.find? k = if b then none else some e := by
  have hall : ∀ k e, c.entries.find? k = some e → ∃ b, test k e.value = .ok b := by
    intro k e hfind
    unfold invalidateWhere at h
    split at h
    · cases h
    · next hks => exact exists_of_matching hks (k, e) (OrderedMap.mem_of_find?_eq_some hfind)
  obtain ⟨ks, c', hok, -, hmem, hleft⟩ := invalidateWhere_eq_ok hall
  obtain rfl := Except.ok.inj (h.symm.trans hok)
  obtain ⟨b, hb⟩ := hall k e hfind
  have hk : k ∈ ks ↔ b = true := by simp [hmem, hfind, hb]
  exact ⟨b, hb, by simp only [hleft, hfind, hk]⟩

/-- What is left when matching entries are dropped was there before. -/
theorem find?_of_invalidateWhere (h : c.invalidateWhere test = .ok r) {e : CacheEntry α}
    (hfind : r.2.entries.find? k = some e) : c.entries.find? k = some e := by
  unfold invalidateWhere at h
  split at h
  · cases h
  · obtain rfl := Except.ok.inj h
    exact OrderedMap.find?_of_filter hfind

/-- Dropping matching entries adds nothing. -/
theorem invalidateWhere_within (h : c.invalidateWhere test = .ok r) : r.2.Within c :=
  .of_find? fun _ _ hk => find?_of_invalidateWhere h hk

end InvalidateWhere

/-- Beginning a computation adds nothing. -/
theorem enter_within (c : MemoryCache κ α) (now : Float) (key : κ) :
    (c.enter now key).2.Within c := by
  intro k e hk
  rw [entries_enter] at hk
  exact c.get_within now key k e hk

end MemoryCache

namespace CacheAct

variable {c : MemoryCache κ α} {act : CacheAct κ α} {k : κ}

/-- **An act that writes nothing under a key leaves nothing new there.** -/
theorem run_within (h : ¬ act.Writes k) {e' : CacheEntry α}
    (hfind : (act.run c).entries.find? k = some e') :
    ∃ e, c.entries.find? k = some e ∧ e'.Alike e := by
  cases act with
  | get now key => exact c.get_within now key k e' hfind
  | enter now key => exact c.enter_within now key k e' hfind
  | leave key => exact ⟨e', hfind, .refl e'⟩
  | put now roomAt key value ttl =>
    rw [MemoryCache.find?_put, if_neg fun hk => h hk.symm] at hfind
    split at hfind
    · exact ⟨e', hfind, .refl e'⟩
    · exact ⟨e', MemoryCache.find?_of_makeRoom hfind, .refl e'⟩
  | invalidate key => exact c.invalidate_within key k e' hfind
  | invalidateWhere test =>
    simp only [run] at hfind
    split at hfind
    · next hok => exact MemoryCache.invalidateWhere_within hok k e' hfind
    · exact ⟨e', hfind, .refl e'⟩
  | clear => exact c.clear_within k e' hfind

/-- No act changes how a cache was set up. -/
theorem settings_run (act : CacheAct κ α) (c : MemoryCache κ α) :
    (act.run c).defaultTtl = c.defaultTtl ∧ (act.run c).capacity = c.capacity := by
  have hget : ∀ now key, (c.get now key).2.defaultTtl = c.defaultTtl ∧
      (c.get now key).2.capacity = c.capacity := by
    intro now key
    rw [c.snd_get_eq now key]
    exact ⟨rfl, rfl⟩
  cases act with
  | get now key => exact hget now key
  | enter now key =>
    rw [run, MemoryCache.enter_eq]
    exact hget now key
  | leave key => exact ⟨rfl, rfl⟩
  | put now roomAt key value ttl =>
    simp only [run, MemoryCache.write]
    split
    · exact ⟨rfl, rfl⟩
    · rw [c.makeRoom_eq roomAt]
      exact ⟨rfl, rfl⟩
  | invalidate key => exact ⟨rfl, rfl⟩
  | invalidateWhere test =>
    simp only [run]
    split
    · next hok =>
      unfold MemoryCache.invalidateWhere at hok
      split at hok
      · cases hok
      · obtain rfl := Except.ok.inj hok
        exact ⟨rfl, rfl⟩
    · exact ⟨rfl, rfl⟩
  | clear => exact ⟨rfl, rfl⟩

/-- The marks of keys in flight change at the beginning of a computation and at its end. -/
theorem inFlight_run (act : CacheAct κ α) (c : MemoryCache κ α) : (act.run c).inFlight =
    match act with
    | enter now key => if (c.get now key).1.isSome then c.inFlight else key :: c.inFlight
    | leave key => c.inFlight.erase key
    | _ => c.inFlight := by
  cases act with
  | get now key => rw [run, MemoryCache.snd_get_eq]
  | enter now key => rw [run, MemoryCache.enter_eq]
  | put now roomAt key value ttl =>
    simp only [run, MemoryCache.write]
    split
    · rfl
    · rw [MemoryCache.makeRoom_eq]
  | invalidateWhere test =>
    simp only [run, MemoryCache.invalidateWhere]
    rcases MemoryCache.matching test c.entries.entries with p | dropped <;> rfl
  | _ => rfl

end CacheAct

/-- No act changes how long entries live by default. -/
theorem MemoryCache.defaultTtl_after (c : MemoryCache κ α) (acts : List (CacheAct κ α)) :
    (c.after acts).defaultTtl = c.defaultTtl := by
  induction acts with
  | nil => rfl
  | cons act earlier ih => exact (act.settings_run _).1.trans ih

/-- No act changes how many entries there is room for. -/
theorem MemoryCache.capacity_after (c : MemoryCache κ α) (acts : List (CacheAct κ α)) :
    (c.after acts).capacity = c.capacity := by
  induction acts with
  | nil => rfl
  | cons act earlier ih => exact (act.settings_run _).2.trans ih

end Gatehouse
