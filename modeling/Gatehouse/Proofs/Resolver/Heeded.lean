import Gatehouse.Proofs.Resolver.Diary
import Gatehouse.Proofs.Resolver.Dropped
import Gatehouse.Proofs.Resolver.Ledger

/-!
# What must not survive when something is dropped

Lists do not say which policies they include, and the compiled forms of a policy are kept under many
versions and for many models.  So what must not survive when something is dropped at a point of a run
(`Purge`) concerns both caches and all that happens later (`Purge.Heeded`): no compiled form of a
policy that was dropped is made from what the host had answered with before, and no list that was
dropped comes from a resolution that began before.  A resolution that was under way is another matter
(`Pending`): it keeps, in the end, what it had compiled before, and the list that it answers with.

This is kept by whatever keeps nothing new and answers nothing (`Purge.Leads.of_step`), and by
answers and entries that go back to nothing older (`Purge.Heeded.goes_on`).
-/

namespace Gatehouse

open Resolver (secretDigest)

/-- What stands in a list before an older list that it ends with. -/
def newer {α : Type} (old l : List α) : List α := l.take (l.length - old.length)

section Newer

variable {α : Type} {old l l' : List α}

/-- What comes on top of a list is newer. -/
theorem newer_append (h : old.length ≤ l.length) (new : List α) :
    newer old (new ++ l) = new ++ newer old l := by
  rw [newer, newer, List.length_append, Nat.add_sub_assoc h, List.take_length_add_append]

/-- Nothing in a list is newer than the list. -/
theorem newer_self (l : List α) : newer l l = [] := by
  rw [newer, Nat.sub_self, List.take_zero]

/-- A list is what is newer and then the old list. -/
theorem newer_append_self (h : old <:+ l) : newer old l ++ old = l := by
  obtain ⟨new, rfl⟩ := h
  rw [newer_append (Nat.le_refl _), newer_self, List.append_nil]

/-- What is newer stays so. -/
theorem newer_subset (old : List α) (h : l <:+ l') : newer old l ⊆ newer old l' := by
  obtain ⟨new, rfl⟩ := h
  rcases Nat.le_total old.length l.length with hle | hle
  · rw [newer_append hle]
    exact List.subset_append_right _ _
  · rw [newer, Nat.sub_eq_zero_of_le hle]
    exact List.nil_subset _

end Newer

variable {η : Type} {cast : Cast} {later later' : List Event} {receipts receipts' : List Receipt}

/-! ### Where answers come from -/

/-- **A compiled form of a policy** that the host answered with: the policy was asked for by the
name, and compiles to it for a model of the fingerprint. -/
def Kept.IsFormed (k : Kept) (cast : Cast) (events : List Event) (fingerprint : Text)
    (name : Value) : Prop :=
  ∃ r ∈ cast.members, ∃ n o c, r.model.fingerprint = fingerprint ∧ name.same n = true ∧
    .answered n o ∈ events ∧ o.compile r.model = .ok c ∧ k = .policy c

/-- What was formed stays so when more is answered. -/
theorem Kept.IsFormed.mono {k : Kept} {fingerprint : Text} {n : Value}
    (h : k.IsFormed cast later fingerprint n) (hsub : later ⊆ later') :
    k.IsFormed cast later' fingerprint n := by
  obtain ⟨r, hr, n', o, c, hfingerprint, hsame, hmem, hrest⟩ := h
  exact ⟨r, hr, n', o, c, hfingerprint, hsame, hsub hmem, hrest⟩

/-- One resolver may answer with lists that another one has stored: they keep them in the same
cache, for a model of the same fingerprint. -/
structure Resolver.SharesLists (r r' : Resolver) : Prop where
  /-- The model. -/
  model : r.model.fingerprint = r'.model.fingerprint
  /-- The cache. -/
  cache : r.aclCache = r'.aclCache

namespace Receipt

/-- A list that was merged from what there was for some names. -/
def IsMadeOf (x : Receipt) (P : Value → Kept → Prop) : Prop :=
  ∃ names l, x.source = .forms names l ∧ Resolver.Fetched.merge l = .ok x.acl ∧
    List.Forall₂ (fun n f => P n f.kept) names l

/-- **A list that was made after some events:** its resolution began after them, and it was merged
from compiled forms.  If these are kept where a resolver keeps them, then those of a policy that was
asked for by the name come from what the host answered with later. -/
structure IsSince (x : Receipt) (cast : Cast) (r : Resolver) (name : Value)
    (old later : List Event) : Prop where
  /-- The resolution began later. -/
  began : old <:+ x.began
  /-- What the list was merged from. -/
  made : x.IsMadeOf fun n k => x.resolver.policyCache = r.policyCache → name.IsName n →
    k.IsFormed cast later x.resolver.model.fingerprint n

/-- A list that stands for a secret with a digest, where a resolver finds it. -/
structure StandsFor (x : Receipt) (r : Resolver) (digest : Text) : Prop where
  /-- The resolver finds it. -/
  lists : x.resolver.SharesLists r
  /-- The secret. -/
  secret : ∃ z, x.request = .secret (.text z) ∧ secretDigest z = digest

/-- **Where an answer comes from:** from its own resolution, or from another one for a secret with
the same digest, by a resolver with the same cache and a model of the same fingerprint. -/
structure ComesFrom (x y : Receipt) : Prop where
  /-- The list is the same. -/
  acl : x.acl = y.acl
  /-- The resolution. -/
  resolution : x = y ∨ ∃ z, x.request = .secret (.text z) ∧ y.StandsFor x.resolver (secretDigest z)

end Receipt

/-! ### Resolutions under way -/

/-- Deeds in which the host answered with a policy when it was asked for a name. -/
def Deed.Offered (deeds : List (Deed η)) (n : Value) (o : OfferedPolicy) : Prop :=
  ∃ before a after, .consulted (.policy n) before (.ok a) after ∈ deeds ∧ a.policy? = some o

/-- **A resolution that was under way** when something was dropped. -/
structure Pending (η : Type) where
  /-- The resolver. -/
  resolver : Resolver
  /-- What it was asked for. -/
  request : Request
  /-- What had happened when it began. -/
  began : List Event
  /-- What it had done. -/
  deeds : List (Deed (Chronicle (Ledger η)))
  /-- What it gathered in the end, before it stored anything, or why it failed. -/
  gathered : Except Failure Kept

namespace Pending

/-- The host had answered something. -/
def IsAnswered (p : Pending η) : Prop :=
  ∃ question before a after, .consulted question before (.ok a) after ∈ p.deeds

/-- **A compiled form that is kept in the end:** it had been compiled from what the host had answered
with. -/
structure Keeps (p : Pending η) (id : CacheId) (fingerprint : Text) (name : Value) (v : Kept) :
    Prop where
  /-- The cache. -/
  cache : p.resolver.policyCache = id
  /-- The model. -/
  model : p.resolver.model.fingerprint = fingerprint
  /-- Nothing fails. -/
  succeeds : ∃ k, p.gathered = .ok k
  /-- It had been compiled. -/
  compiled : ∃ n o c, name.same n = true ∧ Deed.Offered p.deeds n o ∧
    .compiled o (.ok c) ∈ p.deeds ∧ v = .policy c

/-- The list that is answered with in the end. -/
structure Answers (p : Pending η) (y : Receipt) : Prop where
  /-- The resolver. -/
  resolver : y.resolver = p.resolver
  /-- What it was asked for. -/
  request : y.request = p.request
  /-- What had happened when it began. -/
  began : y.began = p.began
  /-- The list. -/
  acl : p.gathered = .ok (.acl y.acl)

end Pending

/-! ### What was dropped -/

/-- **What was dropped at a point of a run,** and what was under way. -/
structure Purge (η : Type) where
  /-- The policies whose compiled forms were dropped from a cache. -/
  forms : CacheId → Value → Prop
  /-- The lists that were dropped from a cache, by the fingerprint of the model and the digest of the
  secret. -/
  lists : CacheId → Text → Text → Prop
  /-- What had happened. -/
  events : List Event
  /-- The lists that had been answered with. -/
  receipts : List Receipt
  /-- The resolutions that were under way. -/
  pending : List (Pending η)

/-- A list that stands for a secret with a digest, and where it is found. -/
structure Receipt.IsListOf (x : Receipt) (id : CacheId) (fingerprint digest : Text) : Prop where
  /-- The cache. -/
  cache : x.resolver.aclCache = id
  /-- The model. -/
  model : x.resolver.model.fingerprint = fingerprint
  /-- The secret. -/
  secret : ∃ z, x.request = .secret (.text z) ∧ secretDigest z = digest

namespace Purge

variable (purge : Purge η)

/-- Only what is kept in the caches of a cast was dropped. -/
structure IsWithin (cast : Cast) : Prop where
  /-- Compiled forms. -/
  forms : ∀ id n, purge.forms id n → id ∈ cast.caches
  /-- Lists. -/
  lists : ∀ id fingerprint digest, purge.lists id fingerprint digest → id ∈ cast.caches

/-- A compiled form that was made from what the host answered with since then, or that a resolution
keeps which was under way. -/
def Renewed (cast : Cast) (later : List Event) (id : CacheId) (fingerprint : Text) (n : Value)
    (v : Kept) : Prop :=
  v.IsFormed cast later fingerprint n ∨ ∃ p ∈ purge.pending, p.Keeps id fingerprint n v

/-- **A list that may be answered with.** -/
inductive Admits (cast : Cast) (later : List Event) (y : Receipt) : Prop where
  /-- A resolution answers with it which was under way, and which the host had answered something. -/
  | pending (p : Pending η) (underway : p ∈ purge.pending) (answers : p.Answers y)
    (answered : p.IsAnswered)
  /-- Its resolution began later, or the host had not answered it anything, and those compiled forms
  that it was merged from and that were dropped are new. -/
  | renewed (began : purge.events <:+ y.began ∨
      ∃ p ∈ purge.pending, p.Answers y ∧ ¬ p.IsAnswered)
    (made : y.IsMadeOf fun n k => purge.forms y.resolver.policyCache n →
      purge.Renewed cast later y.resolver.policyCache y.resolver.model.fingerprint n k)

/-- **What may be kept under a key.** -/
structure Allows (cast : Cast) (later : List Event) (receipts : List Receipt) (id : CacheId)
    (k : CacheKey) (v : Kept) : Prop where
  /-- Compiled forms that were dropped are new. -/
  form : ∀ n version fingerprint, k = (CacheKey.ofPolicy n version (.text fingerprint)).normal →
    purge.forms id n → purge.Renewed cast later id fingerprint n v
  /-- Lists that were dropped have been answered with since then. -/
  list : ∀ fingerprint digest, k = (CacheKey.ofAcl (.text fingerprint) digest).normal →
    purge.lists id fingerprint digest → ∃ y ∈ receipts, purge.Admits cast later y ∧
      v = .acl y.acl ∧ y.IsListOf id fingerprint digest

/-- An answer that could have been found among the lists that were dropped. -/
def Covers (x : Receipt) : Prop :=
  ∃ digest, purge.lists x.resolver.aclCache x.resolver.model.fingerprint digest ∧
    ∀ z, x.request = .secret (.text z) → secretDigest z = digest

/-- **What was dropped is forgotten:** nothing in the caches and no answer since then goes back to
what the host had answered before, but for the resolutions under way. -/
structure Heeded (cast : Cast) (s : Engine (Chronicle (Ledger η))) : Prop where
  /-- Something stands behind all entries. -/
  founded : s.IsFounded cast
  /-- What had happened. -/
  events : purge.events <:+ s.host.events
  /-- The lists that had been answered with. -/
  receipts : purge.receipts <:+ s.receipts
  /-- What is kept. -/
  kept : ∀ id, id ∈ cast.caches → ∀ k e, (s.cache id).find? k = some e →
    purge.Allows cast (newer purge.events s.host.events) (newer purge.receipts s.receipts) id k
      e.value.value
  /-- What was answered. -/
  given : ∀ x ∈ newer purge.receipts s.receipts, purge.Covers x →
    ∃ y ∈ newer purge.receipts s.receipts, x.ComesFrom y ∧
      purge.Admits cast (newer purge.events s.host.events) y

/-- What happens at once: what was dropped stays forgotten, and the record goes on. -/
structure Leads (cast : Cast) (s t : Engine (Chronicle (Ledger η))) : Prop where
  /-- It stays forgotten. -/
  heeded : purge.Heeded cast s → purge.Heeded cast t
  /-- The record goes on. -/
  events : s.host.events <:+ t.host.events

/-- One more resolution was under way. -/
def during (p : Pending η) : Purge η := { purge with pending := p :: purge.pending }

end Purge

variable {purge : Purge η} {s t u : Engine (Chronicle (Ledger η))} {id : CacheId}

/-- **Answers are entered:** the caches stay as they are, and the record may go on. -/
structure Engine.Enters (cast : Cast) (new : List Receipt) (s t : Engine (Chronicle (Ledger η))) :
    Prop where
  /-- Something stands behind all entries. -/
  founded : t.IsFounded cast
  /-- The caches stay as they are. -/
  caches : ∀ id, t.cache id = s.cache id
  /-- The record may go on. -/
  events : s.host.events <:+ t.host.events
  /-- The answers are entered. -/
  receipts : t.receipts = new ++ s.receipts

/-- A list that is made of one kind of forms is made of a weaker kind. -/
theorem Receipt.IsMadeOf.imp {x : Receipt} {P Q : Value → Kept → Prop} (h : x.IsMadeOf P)
    (hPQ : ∀ n k, P n k → Q n k) : x.IsMadeOf Q := by
  obtain ⟨names, l, hsource, hmerge, hforms⟩ := h
  exact ⟨names, l, hsource, hmerge, hforms.imp fun _ _ hf => hPQ _ _ hf⟩

namespace Purge

/-- What is renewed stays so when more is answered. -/
theorem Renewed.mono {fingerprint : Text} {n : Value} {v : Kept}
    (h : purge.Renewed cast later id fingerprint n v) (hsub : later ⊆ later') :
    purge.Renewed cast later' id fingerprint n v :=
  h.imp_left fun hformed => hformed.mono hsub

/-- What may be answered with may be so when more is answered. -/
theorem Admits.mono {y : Receipt} (h : purge.Admits cast later y) (hsub : later ⊆ later') :
    purge.Admits cast later' y := by
  cases h with
  | pending p underway answers answered => exact .pending p underway answers answered
  | renewed began made => exact .renewed began (made.imp fun _ _ hf hn => (hf hn).mono hsub)

/-- What may be kept may be so when more is answered and entered. -/
theorem Allows.mono {k : CacheKey} {v : Kept} (h : purge.Allows cast later receipts id k v)
    (hlater : later ⊆ later') (hreceipts : receipts ⊆ receipts') :
    purge.Allows cast later' receipts' id k v where
  form n version fingerprint hk hn := (h.form n version fingerprint hk hn).mono hlater
  list fingerprint digest hk hlist := by
    obtain ⟨y, hy, hadmits, hrest⟩ := h.list fingerprint digest hk hlist
    exact ⟨y, hreceipts hy, hadmits.mono hlater, hrest⟩

/-! ### One more resolution under way -/

section During

variable {p : Pending η}

/-- What is renewed is so when one more resolution is under way. -/
theorem Renewed.during {fingerprint : Text} {n : Value} {v : Kept}
    (h : purge.Renewed cast later id fingerprint n v) :
    (purge.during p).Renewed cast later id fingerprint n v :=
  h.imp_right fun ⟨p', hp', hkeeps⟩ => ⟨p', List.mem_cons_of_mem _ hp', hkeeps⟩

/-- What may be answered with may be so when one more resolution is under way. -/
theorem Admits.during {y : Receipt} (h : purge.Admits cast later y) :
    (purge.during p).Admits cast later y := by
  cases h with
  | pending p' underway answers answered =>
    exact .pending p' (List.mem_cons_of_mem _ underway) answers answered
  | renewed began made =>
    exact .renewed (began.imp_right fun ⟨p', hp', h⟩ => ⟨p', List.mem_cons_of_mem _ hp', h⟩)
      (made.imp fun _ _ hf hn => (hf hn).during)

/-- What may be kept may be so when one more resolution is under way. -/
theorem Allows.during {k : CacheKey} {v : Kept} (h : purge.Allows cast later receipts id k v) :
    (purge.during p).Allows cast later receipts id k v where
  form n version fingerprint hk hn := (h.form n version fingerprint hk hn).during
  list fingerprint digest hk hlist := by
    obtain ⟨y, hy, hadmits, hrest⟩ := h.list fingerprint digest hk hlist
    exact ⟨y, hy, hadmits.during, hrest⟩

/-- What is forgotten is so when one more resolution is under way. -/
theorem Heeded.during (h : purge.Heeded cast s) : (purge.during p).Heeded cast s where
  founded := h.founded
  events := h.events
  receipts := h.receipts
  kept id hid k e he := (h.kept id hid k e he).during
  given x hx hcovers := by
    obtain ⟨y, hy, hcomes, hadmits⟩ := h.given x hx hcovers
    exact ⟨y, hy, hcomes, hadmits.during⟩

end During

namespace Heeded

/-- Answers that are entered and entries that are allowed leave it forgotten. -/
theorem goes_on (hs : purge.Heeded cast s) (hfounded : t.IsFounded cast)
    (hevents : s.host.events <:+ t.host.events) {new : List Receipt}
    (hreceipts : t.receipts = new ++ s.receipts)
    (hkept : ∀ id, id ∈ cast.caches → ∀ k e, (t.cache id).find? k = some e →
      purge.Allows cast (newer purge.events t.host.events) (newer purge.receipts t.receipts) id k
          e.value.value ∨
        ∃ e', (s.cache id).find? k = some e' ∧ e.value.value = e'.value.value)
    (hgiven : ∀ x ∈ new, purge.Covers x → ∃ y ∈ newer purge.receipts t.receipts, x.ComesFrom y ∧
      purge.Admits cast (newer purge.events t.host.events) y) : purge.Heeded cast t := by
  have hlater := newer_subset purge.events hevents
  have hnewer : newer purge.receipts t.receipts = new ++ newer purge.receipts s.receipts := by
    rw [hreceipts, newer_append hs.receipts.length_le]
  have hsub : newer purge.receipts s.receipts ⊆ newer purge.receipts t.receipts :=
    hnewer ▸ List.subset_append_right _ _
  refine ⟨hfounded, hs.events.trans hevents, hreceipts ▸ hs.receipts.trans
    (List.suffix_append _ _), fun id hid k e he => ?_, fun x hx hcovers => ?_⟩
  · rcases hkept id hid k e he with hallowed | ⟨e', he', hvalue⟩
    · exact hallowed
    · exact hvalue ▸ (hs.kept id hid k e' he').mono hlater hsub
  · rw [hnewer] at hx
    rcases List.mem_append.1 hx with hx | hx
    · exact hgiven x hx hcovers
    · obtain ⟨y, hy, hcomes, hadmits⟩ := hs.given x hx hcovers
      exact ⟨y, hsub hy, hcomes, hadmits.mono hlater⟩

/-- A step that keeps nothing new and answers nothing leaves it forgotten. -/
theorem of_step (hs : purge.Heeded cast s) (hstep : Step cast s t)
    (hreceipts : t.receipts = s.receipts)
    (hkept : ∀ id, id ∈ cast.caches → (t.cache id).Within (s.cache id)) : purge.Heeded cast t := by
  have hnone : t.receipts = [] ++ s.receipts := hreceipts
  refine hs.goes_on (hstep.isFounded hs.founded) hstep.goesOn.events hnone
    (fun id hid k e he => .inr ?_) fun x hx => nomatch hx
  obtain ⟨e', he', halike⟩ := (hkept id hid).entries k e he
  exact ⟨e', he', by rw [halike.value]⟩

/-- What enters nothing leaves it forgotten. -/
theorem of_enters (hs : purge.Heeded cast s) (ht : s.Enters cast [] t) : purge.Heeded cast t := by
  refine hs.goes_on ht.founded ht.events ht.receipts (fun id _ k e he => .inr ⟨e, ?_, rfl⟩)
    fun x hx => nomatch hx
  rw [← ht.caches]
  exact he

end Heeded

/-- Steps that keep nothing new and answer nothing lead on. -/
theorem Leads.of_step (hstep : Step cast s t) (hreceipts : t.receipts = s.receipts)
    (hkept : ∀ id, id ∈ cast.caches → (t.cache id).Within (s.cache id)) : purge.Leads cast s t :=
  ⟨fun hs => hs.of_step hstep hreceipts hkept, hstep.goesOn.events⟩

/-- Taking down an answer of the host leads on. -/
theorem Leads.of_note (n : Value) (o : OfferedPolicy) :
    purge.Leads cast s (s.note (.answered n o)) :=
  .of_step (.answered n o s) rfl fun _ _ => .refl _

/-- Counting how often the host is asked leads on. -/
theorem Leads.of_countAsked : purge.Leads cast s s.countAsked :=
  .of_step (.asked s) rfl fun _ _ => .refl _

/-- A lookup leads on. -/
theorem Heeded.leads_cacheGet (hs : purge.Heeded cast s) (id : CacheId) (key : CacheKey) :
    purge.Leads cast s (Engine.cacheGet id key s).2 :=
  .of_step (.looked id key s) rfl (Engine.within_setCache fun hid =>
    Cache.get_within (hs.founded.plain _ hid) _ _)

/-- What is found may be kept. -/
theorem Heeded.allows_of_cacheGet (hs : purge.Heeded cast s) {key : CacheKey} {kept : Kept}
    (hid : id ∈ cast.caches) (hget : (Engine.cacheGet id key s).1 = .ok (some kept)) :
    purge.Allows cast (newer purge.events s.host.events) (newer purge.receipts s.receipts) id
      key.normal kept := by
  obtain ⟨e, hfind, -, rfl⟩ := Engine.exists_of_cacheGet (hs.founded.plain id hid) hget
  exact hs.kept id hid _ e hfind

end Purge

end Gatehouse
