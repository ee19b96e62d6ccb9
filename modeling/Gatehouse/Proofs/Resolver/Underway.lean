import Gatehouse.Proofs.Resolver.Heeded

/-!
# Resolutions in which something is dropped

Something may be dropped before a resolution begins or while it is under way.  Its deeds up to the
call in which that happens are a mark in its diary; from the mark on, each part of it works with
nothing that the host had answered before (`Resolver.meets_source_since`), and what it had obtained
until then is told by the mark.  Main statements: what the answer is made of may then be stored and
answered with, if the resolution began later (`Purge.Backs.bears`), and also if it was under way
(`Purge.Backs.bears_during`).
-/

namespace Gatehouse

open Relation (ReflTransGen)
open Resolver (secretDigest)

variable {η : Type}

/-! ### Calls to the host -/

/-- The engine in which a collaborator is called: it is counted how often the host is asked for a
token. -/
def Question.asked : Question → Engine (Chronicle η) → Engine (Chronicle η)
  | .token _, s => s.countAsked
  | .policy _, s => s

/-- What a collaborator does to the engine. -/
def Host.call (h : Host (Chronicle η)) (ctx : ContextId) :
    Question → Engine (Chronicle η) → Engine (Chronicle η)
  | .token secret, s => (h.token ctx secret s).2
  | .policy name, s => (h.policy ctx name s).2

/-- **Collaborators during a resolution:** they lead on, and at the end of the last call of the mark,
what was dropped is forgotten. -/
structure Host.Continues (cast : Cast) (purge : Purge η) (ctx : ContextId)
    (mark : List (Deed (Chronicle (Ledger η)))) (h : Host (Chronicle (Ledger η))) : Prop where
  /-- They lead on. -/
  leads : ∀ question u, purge.Leads cast u (h.call ctx question u)
  /-- At the end of the last call of the mark, what was dropped is forgotten. -/
  resumes : ∀ question before answer after deeds,
    mark = .consulted question before answer after :: deeds →
      purge.Heeded cast (h.call ctx question (question.asked before))
  /-- The mark ends with a call. -/
  called : ∀ o outcome deeds, mark ≠ .compiled o outcome :: deeds

variable {cast : Cast} {later later' : List Event} {receipts receipts' : List Receipt}
  {purge : Purge η} {mark : List (Deed (Chronicle (Ledger η)))} {r : Resolver} {ctx : ContextId}
  {h : Host (Chronicle (Ledger η))} {s t : Engine (Diary (Chronicle (Ledger η)))}

namespace Purge

variable (purge)

/-- From the mark on, what was dropped is forgotten. -/
def HeededSince (cast : Cast) (mark : List (Deed (Chronicle (Ledger η))))
    (s : Engine (Diary (Chronicle (Ledger η)))) : Prop :=
  mark <:+ s.host.deeds → purge.Heeded cast s.plain

/-- What happens at once in a resolution. -/
structure LeadsSince (cast : Cast) (mark : List (Deed (Chronicle (Ledger η))))
    (s t : Engine (Diary (Chronicle (Ledger η)))) : Prop where
  /-- From the mark on, what was dropped stays forgotten. -/
  heeded : purge.HeededSince cast mark s → purge.HeededSince cast mark t
  /-- The record goes on. -/
  events : s.plain.host.events <:+ t.plain.host.events
  /-- The diary goes on. -/
  deeds : s.host.deeds <:+ t.host.deeds

/-- **What there is for a name is new.** -/
structure Renews (cast : Cast) (r : Resolver) (later : List Event) (n : Value)
    (f : Resolver.Fetched) : Prop where
  /-- What is to be stored was compiled from what the host has answered with since then. -/
  justified : f.Justified r later
  /-- A compiled form that was dropped is new. -/
  renewed : purge.forms r.policyCache n →
    purge.Renewed cast later r.policyCache r.model.fingerprint n f.kept

end Purge

/-- What there is for a name was obtained in some deeds. -/
def Resolver.Fetched.Obtained (r : Resolver) (deeds : List (Deed (Chronicle (Ledger η))))
    (n : Value) (f : Fetched) : Prop :=
  ∃ o, Deed.Offered deeds n o ∧ ∀ key c, f = .fresh key c →
    (∃ version, key = .ofPolicy n version r.model.fingerprint) ∧ .compiled o (.ok c) ∈ deeds

namespace Purge

variable (purge)

/-- **What there is for a name:** it is new, or it was obtained before the mark. -/
inductive Gets (cast : Cast) (mark : List (Deed (Chronicle (Ledger η)))) (r : Resolver) (n : Value)
    (f : Resolver.Fetched) (s : Engine (Diary (Chronicle (Ledger η)))) : Prop where
  /-- It is new. -/
  | renewed (renews : purge.Renews cast r (newer purge.events s.plain.host.events) n f)
  /-- It was obtained before the mark. -/
  | obtained (deeds : List (Deed (Chronicle (Ledger η)))) (noted : deeds <:+ s.host.deeds)
    (before : ¬ mark <:+ deeds) (obtained : f.Obtained r deeds n)

/-- What an answer to a request is made of. -/
def Backs (cast : Cast) (mark : List (Deed (Chronicle (Ledger η)))) (r : Resolver) (q : Request)
    (s : Engine (Diary (Chronicle (Ledger η)))) : Source → Prop
  | .kept k => ∃ z, q = .secret (.text z) ∧ (mark <:+ s.host.deeds →
      purge.lists r.aclCache r.model.fingerprint (secretDigest z) →
        ∃ y ∈ newer purge.receipts s.plain.receipts,
          purge.Admits cast (newer purge.events s.plain.host.events) y ∧ k = .acl y.acl ∧
            y.IsListOf r.aclCache r.model.fingerprint (secretDigest z))
  | .form n f => q = .policy n ∧ purge.Gets cast mark r n f s
  | .forms names l => q.IsForList ∧
      List.Forall₂ (fun n f => purge.Gets cast mark r n f s) names l

variable {purge}

/-- What is new stays so when more is answered. -/
theorem Renews.mono {n : Value} {f : Resolver.Fetched} (h : purge.Renews cast r later n f)
    (hsub : later ⊆ later') : purge.Renews cast r later' n f := by
  refine ⟨?_, fun hn => (h.renewed hn).mono hsub⟩
  cases f with
  | cached => trivial
  | fresh key c =>
    obtain ⟨name, version, o, hanswered, hrest⟩ := h.justified
    exact ⟨name, version, o, hsub hanswered, hrest⟩

/-- What there is for a name stays so when something happens. -/
theorem Gets.mono {n : Value} {f : Resolver.Fetched} (h : purge.Gets cast mark r n f s)
    (hst : purge.LeadsSince cast mark s t) : purge.Gets cast mark r n f t := by
  cases h with
  | renewed renews => exact .renewed (renews.mono (newer_subset _ hst.events))
  | obtained deeds noted before obtained =>
    exact .obtained deeds (noted.trans hst.deeds) before obtained

/-- At the end of a call from the mark on, what was dropped is forgotten. -/
theorem HeededSince.call (hs : purge.HeededSince cast mark s)
    (hh : h.Continues cast purge ctx mark) {question : Question} {answer : Except Problem Answer}
    {after : Engine (Chronicle (Ledger η))}
    (hmark : mark <:+ .consulted question s.plain answer after :: s.host.deeds) :
    purge.Heeded cast (h.call ctx question (question.asked s.plain)) := by
  rcases List.suffix_cons_iff.1 hmark with heq | hsub
  · exact hh.resumes _ _ _ _ _ heq
  · have hasked : purge.Heeded cast (question.asked s.plain) := by
      cases question with
      | token => exact Leads.of_countAsked.heeded (hs hsub)
      | policy => exact hs hsub
    exact (hh.leads question _).heeded hasked

/-- The record goes on during a call. -/
theorem events_call (hh : h.Continues cast purge ctx mark) (question : Question)
    (u : Engine (Chronicle (Ledger η))) :
    u.host.events <:+ (h.call ctx question (question.asked u)).host.events := by
  have hleads := (hh.leads question (question.asked u)).events
  cases question <;> exact hleads

end Purge

/-! ### The parts of a resolution -/

namespace Resolver

/-- Looking a key up leads on, and what is found may be kept. -/
theorem meets_cacheGet_since {A : Diary (Chronicle (Ledger η)) → Prop} (id : CacheId)
    (key : CacheKey) : (Engine.cacheGet id key).Meets (purge.LeadsSince cast mark)
      (fun s => purge.HeededSince cast mark s ∧ A s.host)
      fun found s => (purge.HeededSince cast mark s ∧ A s.host) ∧ ∀ kept, found = some kept →
        mark <:+ s.host.deeds → id ∈ cast.caches → purge.Allows cast
          (newer purge.events s.plain.host.events) (newer purge.receipts s.plain.receipts) id
          key.normal kept := by
  rintro s ⟨hs, ha⟩
  have hleads : purge.LeadsSince cast mark s (Engine.cacheGet id key s).2 :=
    ⟨fun hs hmark => ((hs hmark).leads_cacheGet id key).heeded (hs hmark), List.suffix_rfl,
      List.suffix_rfl⟩
  refine ⟨.single hleads, fun found hget => ⟨⟨hleads.heeded hs, ha⟩, ?_⟩⟩
  rintro kept rfl hmark hid
  exact (hs hmark).allows_of_cacheGet hid hget

variable (hh : h.Continues cast purge ctx mark)

include hh in
/-- Fetching a token leads on. -/
theorem meets_fetchToken_since (secret : Text) :
    (fetchToken (r.provision h.noting).diary ctx secret).Meets (purge.LeadsSince cast mark)
      (purge.HeededSince cast mark) fun _ s => purge.HeededSince cast mark s := by
  refine (Action.Meets.fetchToken (Q := fun _ s => purge.HeededSince cast mark s)
    fun s hs => ?_).mono (fun _ hs => hs) fun _ _ ⟨_, _, hs⟩ => hs
  have hleads : purge.LeadsSince cast mark s
      ((r.provision h.noting).diary.token ctx (.text secret) s).2 :=
    ⟨fun hs hmark => hs.call hh hmark, Purge.events_call hh (.token (.text secret)) s.plain,
      List.suffix_cons _ _⟩
  exact ⟨.single hleads, fun _ _ => hleads.heeded hs⟩

/-- The host has answered with a policy, and this is taken down. -/
structure IsOffered (purge : Purge η) (mark : List (Deed (Chronicle (Ledger η)))) (n : Value)
    (o : OfferedPolicy) (d : Diary (Chronicle (Ledger η))) : Prop where
  /-- It is in the diary. -/
  noted : Deed.Offered d.deeds n o
  /-- From the mark on, it is new. -/
  answered : mark <:+ d.deeds → .answered n o ∈ newer purge.events d.host.events

include hh in
/-- A fetched policy is one that the host has answered with. -/
theorem meets_fetchPolicy_since (n : Value) :
    (fetchPolicy (r.provision h.noting).diary ctx n).Meets (purge.LeadsSince cast mark)
      (purge.HeededSince cast mark) fun o s =>
        purge.HeededSince cast mark s ∧ IsOffered purge mark n o s.host := by
  refine (Action.Meets.fetchPolicy (Q := fun a s => purge.HeededSince cast mark s ∧
    ∀ o, a.policy? = some o → IsOffered purge mark n o s.host) fun s hs => ?_).mono
      (fun _ hs => hs) fun o _ ⟨_, ho, hs, hoffered⟩ => ⟨hs, hoffered o ho⟩
  let t := ((r.provision h.noting).diary.policy ctx n s).2
  have hcall := Purge.events_call hh (.policy n) s.plain
  rcases h.noting_policy_cases ctx n s.plain with ⟨hstate, hnone⟩ | ⟨a, o, ha, hanswer⟩
  · have hplain : t.plain = h.call ctx (.policy n) s.plain := hstate
    have hleads : purge.LeadsSince cast mark s t :=
      ⟨fun hs hmark => hplain ▸ hs.call hh hmark, hplain ▸ hcall, List.suffix_cons _ _⟩
    refine ⟨.single hleads, fun b hb => ⟨hleads.heeded hs, fun o ho => ?_⟩⟩
    rw [hnone b hb] at ho
    cases ho
  · have hplain : t.plain = (h.call ctx (.policy n) s.plain).note (.answered n o) :=
      congrArg Prod.snd hanswer
    have hheeded : mark <:+ t.host.deeds → purge.Heeded cast (h.call ctx (.policy n) s.plain) :=
      fun hmark => hs.call hh hmark
    have hleads : purge.LeadsSince cast mark s t :=
      ⟨fun hs hmark => hplain ▸ (Purge.Leads.of_note n o).heeded (hs.call hh hmark),
        hplain ▸ hcall.trans (List.suffix_cons _ _), List.suffix_cons _ _⟩
    refine ⟨.single hleads, fun b hb => ⟨hleads.heeded hs, fun o' ho' => ?_⟩⟩
    have hb' : (h.noting.policy ctx n s.plain).1 = .ok b := hb
    obtain rfl : a = b := Except.ok.inj ((congrArg Prod.fst hanswer).symm.trans hb')
    obtain rfl := Option.some.inj (ha.symm.trans ho')
    refine ⟨⟨s.plain, a, t.plain, ?_, ha⟩, fun hmark => ?_⟩
    · have hdeeds : t.host.deeds = .consulted (.policy n) s.plain
          (h.noting.policy ctx n s.plain).1 t.plain :: s.host.deeds := rfl
      rw [hb'] at hdeeds
      exact hdeeds ▸ List.mem_cons_self
    · have hevents : t.host.host.events =
          [.answered n o] ++ (h.call ctx (.policy n) s.plain).host.events :=
        congrArg (·.host.events) hplain
      rw [hevents, newer_append (hheeded hmark).events.length_le]
      exact List.mem_cons_self

variable (hpurge : purge.IsWithin cast) (hr : r ∈ cast.members)

include hh hr in
/-- What is compiled was compiled before the mark, or it is new. -/
theorem meets_compile_since {n version : Value} {o : OfferedPolicy}
    (hversion : o.cacheVersion = .ok version) : ((r.provision h.noting).diary.compile o).Meets
      (purge.LeadsSince cast mark)
      (fun s => purge.HeededSince cast mark s ∧ IsOffered purge mark n o s.host)
      fun c s => purge.HeededSince cast mark s ∧
        purge.Gets cast mark r n (.fresh (.ofPolicy n version r.model.fingerprint) c) s := by
  rintro s ⟨hs, hoffered⟩
  let t := ((r.provision h.noting).diary.compile o s).2
  have hplain : t.plain = s.plain := r.isPure_provision h.noting o s.plain
  have hdeeds : t.host.deeds =
      .compiled o ((r.provision h.noting).compile o s.plain).1 :: s.host.deeds := rfl
  -- compiling is not the call that the mark ends with
  have hback : mark <:+ t.host.deeds → mark <:+ s.host.deeds := fun hmark =>
    (List.suffix_cons_iff.1 hmark).resolve_left (hh.called _ _ _)
  have hleads : purge.LeadsSince cast mark s t :=
    ⟨fun hs hmark => hplain ▸ hs (hback hmark), hplain ▸ List.suffix_rfl, List.suffix_cons _ _⟩
  refine ⟨.single hleads, fun c hc => ⟨hleads.heeded hs, ?_⟩⟩
  have hc' : ((r.provision h.noting).compile o s.plain).1 = .ok c := hc
  rw [hc'] at hdeeds
  have hcompile : o.compile r.model = .ok c := by
    rcases hresult : o.compile r.model with p | c' <;> simp only [provision, hresult] at hc'
    · cases hc'
    · obtain rfl := Except.ok.inj hc'
      rfl
  by_cases hmark : mark <:+ t.host.deeds
  · have hanswered : .answered n o ∈ newer purge.events t.plain.host.events :=
      hplain ▸ hoffered.answered (hback hmark)
    exact .renewed ⟨⟨n, version, o, hanswered, hversion, hcompile, rfl⟩, fun _ =>
      .inl ⟨r, hr, n, o, c, rfl, Value.same_self n, hanswered, hcompile, rfl⟩⟩
  · obtain ⟨before, a, after, hmem, ha⟩ := hoffered.noted
    refine .obtained t.host.deeds List.suffix_rfl hmark
      ⟨o, ⟨before, a, after, hdeeds ▸ List.mem_cons_of_mem _ hmem, ha⟩, ?_⟩
    rintro _ _ ⟨⟩
    exact ⟨⟨version, rfl⟩, hdeeds ▸ List.mem_cons_self⟩

include hh hpurge hr in
/-- What is fetched for a name is new, or was obtained before the mark. -/
theorem meets_fetchCompiled_since (n : Value) :
    (fetchCompiled (r.provision h.noting).diary r ctx n).Meets (purge.LeadsSince cast mark)
      (purge.HeededSince cast mark) fun f s =>
        purge.HeededSince cast mark s ∧ purge.Gets cast mark r n f s := by
  refine .bind (meets_fetchPolicy_since hh n) fun o => .bind (Q := fun version s =>
    (purge.HeededSince cast mark s ∧ IsOffered purge mark n o s.host) ∧
      o.cacheVersion = .ok version) (.ofProblem fun _ _ hs hv => ⟨hs, hv⟩) fun version =>
        .of_fact fun hversion => .bind (meets_cacheGet_since r.policyCache _) fun found => ?_
  rcases found with _ | kept
  · exact .bind .checkContext fun _ => .bind ((meets_compile_since hh hr hversion).mono
      (fun _ hs => hs.1) fun _ _ hs => hs) fun c => .done fun _ hs => hs
  · refine .done fun s ⟨⟨hs, hoffered⟩, hkept⟩ => ⟨hs, ?_⟩
    by_cases hmark : mark <:+ s.host.deeds
    · exact .renewed ⟨trivial, fun hforms => (hkept kept rfl hmark
        (hpurge.forms _ _ hforms)).form n version r.model.fingerprint rfl hforms⟩
    · exact .obtained s.host.deeds List.suffix_rfl hmark ⟨o, hoffered.noted, nofun⟩

include hh hpurge hr in
/-- What the list of several policies is made of. -/
theorem meets_nameSource_since {q : Request} (hq : q.IsForList) (names : Value) :
    (nameSource (r.provision h.noting).diary r ctx names).Meets (purge.LeadsSince cast mark)
      (purge.HeededSince cast mark) fun src s =>
        purge.HeededSince cast mark s ∧ purge.Backs cast mark r q s src := by
  refine .bind (Q := fun _ s => purge.HeededSince cast mark s) (.ofProblem fun _ _ hs _ => hs)
    fun distinct => .bind (Action.Meets.fetchEach (G := fun n f s => purge.Gets cast mark r n f s)
      (fun n _ => meets_fetchCompiled_since hh hpurge hr n)
      fun _ _ _ _ hleads hf => hf.mono hleads) fun l => ?_
  exact .done fun s hs => ⟨hs.1, hq, hs.2⟩

include hh hpurge hr in
/-- What the list of a secret is made of. -/
theorem meets_secretSource_since (x : Text) :
    (secretSource (r.provision h.noting).diary r ctx x).Meets (purge.LeadsSince cast mark)
      (purge.HeededSince cast mark) fun src s =>
        purge.HeededSince cast mark s ∧ purge.Backs cast mark r (.secret (.text x)) s src := by
  refine .bind ((meets_cacheGet_since (A := fun _ => True) r.aclCache _).mono
    (fun _ hs => ⟨hs, trivial⟩) fun _ _ hs => hs) fun found => ?_
  rcases found with _ | kept
  · refine .bind ((meets_fetchToken_since hh x).mono (fun _ hs => hs.1.1) fun _ _ hs => hs)
      fun names => meets_nameSource_since hh hpurge hr (q := .secret (.text x)) nofun names
  · refine .done fun s ⟨⟨hs, _⟩, hkept⟩ => ⟨hs, x, rfl, fun hmark hlists => ?_⟩
    exact (hkept kept rfl hmark (hpurge.lists _ _ _ hlists)).list r.model.fingerprint
      (secretDigest x) rfl hlists

include hh hpurge hr in
/-- **What an answer is made of** is new, or was obtained before the mark. -/
theorem meets_source_since (q : Request) :
    (q.source (r.provision h.noting).diary r ctx).Meets (purge.LeadsSince cast mark)
      (purge.HeededSince cast mark) fun src s =>
        purge.HeededSince cast mark s ∧ purge.Backs cast mark r q s src := by
  cases q with
  | secret v =>
    refine .bind .checkContext fun _ => ?_
    rcases v with _ | _ | _ | _ | x | _ | _
    case text =>
      dsimp only
      split
      · exact .fault
      rcases x.unencodable? with _ | p
      · exact meets_secretSource_since hh hpurge hr x
      · exact .fail
    all_goals exact .fault
  | policies names =>
    exact .bind .checkContext fun _ =>
      meets_nameSource_since hh hpurge hr (q := .policies names) nofun names
  | policy name =>
    refine .bind .checkContext fun _ =>
      .bind (meets_fetchCompiled_since hh hpurge hr name) fun f => ?_
    exact .done fun s hs => ⟨hs.1, rfl, hs.2⟩

end Resolver

/-! ### What may be stored -/

namespace Purge

variable (purge)

/-- What was compiled may be stored. -/
def AllowsFresh (cast : Cast) (r : Resolver) (later : List Event) (f : Resolver.Fetched) : Prop :=
  ∀ key c, f = .fresh key c →
    purge.Allows cast later [] r.policyCache key.normal (.policy c)

/-- **What an answer is made of may be stored and answered with.** -/
def Bears (cast : Cast) (r : Resolver) (q : Request) (began later : List Event)
    (receipts : List Receipt) : Source → Prop
  | .kept k => ∃ z, q = .secret (.text z) ∧
      (purge.lists r.aclCache r.model.fingerprint (secretDigest z) →
        ∃ y ∈ receipts, purge.Admits cast later y ∧ k = .acl y.acl ∧
          y.IsListOf r.aclCache r.model.fingerprint (secretDigest z))
  | .form n f => q = .policy n ∧ purge.AllowsFresh cast r later f
  | .forms names l => q.IsForList ∧ (∀ f ∈ l, purge.AllowsFresh cast r later f) ∧
      ∀ a, Resolver.Fetched.merge l = .ok a →
        purge.Admits cast later ⟨r, q, began, .forms names l, a⟩

variable {purge}

/-- What was compiled from what the host has answered with since then may be stored. -/
theorem Renews.allowsFresh (hr : r ∈ cast.members) {n : Value} {f : Resolver.Fetched}
    (hf : purge.Renews cast r later n f) : purge.AllowsFresh cast r later f := by
  rintro key c rfl
  obtain ⟨name, version, o, hanswered, -, hcompile, rfl⟩ := hf.justified
  refine ⟨fun n' version' fingerprint hk _ => .inl ?_, fun _ _ hk =>
    absurd hk (CacheKey.normal_ofPolicy_ne_ofAcl _ _ _ _ _)⟩
  obtain ⟨hname, -, hfingerprint⟩ := CacheKey.normal_ofPolicy_eq_iff.1 hk
  exact ⟨r, hr, name, o, c, Value.text.inj (Value.text_eq_of_same hfingerprint),
    Value.same_comm name n' ▸ hname, hanswered, hcompile, rfl⟩

/-- Without a mark, nothing was obtained before it. -/
theorem Gets.renews {n : Value} {f : Resolver.Fetched} (h : purge.Gets cast [] r n f s) :
    purge.Renews cast r (newer purge.events s.plain.host.events) n f := by
  cases h with
  | renewed renews => exact renews
  | obtained deeds _ before => exact absurd (List.nil_suffix) before

/-- A resolution that began later may store what it compiled and answer with what it merged. -/
theorem Backs.bears (hr : r ∈ cast.members) {q : Request} {began : List Event} {src : Source}
    (hbegan : purge.events <:+ began) (h : purge.Backs cast [] r q s src) :
    purge.Bears cast r q began (newer purge.events s.plain.host.events)
      (newer purge.receipts s.plain.receipts) src := by
  cases src with
  | kept k =>
    obtain ⟨z, rfl, hkept⟩ := h
    exact ⟨z, rfl, hkept List.nil_suffix⟩
  | form n f => exact ⟨h.1, h.2.renews.allowsFresh hr⟩
  | forms names l =>
    refine ⟨h.1, forall_mem_of_forall₂ (h.2.imp fun _ _ hf => hf.renews.allowsFresh hr),
      fun a hmerge => .renewed (.inl hbegan) ⟨names, l, rfl, hmerge, ?_⟩⟩
    exact h.2.imp fun _ _ hf hn => hf.renews.renewed hn

section Marked

variable {question : Question} {before after : Engine (Chronicle (Ledger η))}
  {answer : Except Problem Answer} {deeds : List (Deed (Chronicle (Ledger η)))}
  {q : Request} {began : List Event} {k : Kept}

/-- What was obtained before the mark was obtained in the deeds before the last call of it. -/
theorem suffix_of_before {d : Deed (Chronicle (Ledger η))}
    {all deeds' : List (Deed (Chronicle (Ledger η)))} (hmark : d :: deeds <:+ all)
    (hnoted : deeds' <:+ all) (hbefore : ¬ d :: deeds <:+ deeds') : deeds' <:+ deeds := by
  rcases List.suffix_or_suffix_of_suffix hnoted hmark with h | h
  · rcases List.suffix_cons_iff.1 h with rfl | h
    · exact absurd List.suffix_rfl hbefore
    · exact h
  · exact absurd h hbefore

/-- A resolution that was under way may store what it had compiled. -/
theorem allowsFresh_of_obtained {n : Value} {f : Resolver.Fetched} (h : f.Obtained r deeds n) :
    (purge.during ⟨r, q, began, deeds.reverse, .ok k⟩).AllowsFresh cast r later f := by
  rintro key c rfl
  obtain ⟨o, ⟨before, a, after, hmem, ha⟩, hfresh⟩ := h
  obtain ⟨⟨version, rfl⟩, hcompiled⟩ := hfresh key c rfl
  refine ⟨fun n' version' fingerprint hk _ => .inr ⟨_, List.mem_cons_self, ?_⟩, fun _ _ hk =>
    absurd hk (CacheKey.normal_ofPolicy_ne_ofAcl _ _ _ _ _)⟩
  obtain ⟨hname, -, hfingerprint⟩ := CacheKey.normal_ofPolicy_eq_iff.1 hk
  exact ⟨rfl, Value.text.inj (Value.text_eq_of_same hfingerprint), ⟨k, rfl⟩, n, o, c,
    Value.same_comm n n' ▸ hname, ⟨before, a, after, List.mem_reverse.2 hmem, ha⟩,
    List.mem_reverse.2 hcompiled, rfl⟩

/-- **A resolution that was under way** may store what it compiled and answer with what it merged:
what was not obtained from the mark on, it had obtained before. -/
theorem Backs.bears_during (hr : r ∈ cast.members) {src : Source}
    (hmark : .consulted question before answer after :: deeds <:+ s.host.deeds)
    (hk : ∀ names l a, src = .forms names l → Resolver.Fetched.merge l = .ok a → k = .acl a)
    (h : purge.Backs cast (.consulted question before answer after :: deeds) r q s src) :
    (purge.during ⟨r, q, began, deeds.reverse, .ok k⟩).Bears cast r q began
      (newer purge.events s.plain.host.events) (newer purge.receipts s.plain.receipts) src := by
  let p : Pending η := ⟨r, q, began, deeds.reverse, .ok k⟩
  have hmem : p ∈ (purge.during p).pending := List.mem_cons_self
  have hfresh : ∀ {n f}, purge.Gets cast (.consulted question before answer after :: deeds) r n f s →
      (purge.during p).AllowsFresh cast r (newer purge.events s.plain.host.events) f := by
    intro n f hf
    cases hf with
    | renewed renews =>
      exact fun key c hkey => (renews.allowsFresh hr key c hkey).during
    | obtained deeds' noted before obtained =>
      obtain ⟨o, ⟨before', a, after', hoffered, ha⟩, hcompiled⟩ := obtained
      have hsub := (suffix_of_before hmark noted before).subset
      exact allowsFresh_of_obtained ⟨o, ⟨before', a, after', hsub hoffered, ha⟩, fun key c hkey =>
        (hcompiled key c hkey).imp_right fun hmem => hsub hmem⟩
  cases src with
  | kept kept =>
    obtain ⟨z, rfl, hkept⟩ := h
    refine ⟨z, rfl, fun hlists => ?_⟩
    obtain ⟨y, hy, hadmits, hrest⟩ := hkept hmark hlists
    exact ⟨y, hy, hadmits.during, hrest⟩
  | form n f => exact ⟨h.1, hfresh h.2⟩
  | forms names l =>
    refine ⟨h.1, forall_mem_of_forall₂ (h.2.imp fun _ _ hf => hfresh hf), fun a hmerge => ?_⟩
    have hanswers : p.Answers ⟨r, q, began, .forms names l, a⟩ :=
      ⟨rfl, rfl, rfl, congrArg Except.ok (hk names l a rfl hmerge)⟩
    by_cases hanswered : p.IsAnswered
    · exact .pending p hmem hanswers hanswered
    -- the host had not answered anything, so nothing was obtained before the mark
    refine .renewed (.inr ⟨p, hmem, hanswers, hanswered⟩) ⟨names, l, rfl, hmerge, ?_⟩
    refine h.2.imp fun n f hf hn => ?_
    cases hf with
    | renewed renews => exact (renews.renewed hn).during
    | obtained deeds' noted before obtained =>
      obtain ⟨o, ⟨before', a', after', hoffered, -⟩, -⟩ := obtained
      exact absurd ⟨_, before', a', after', List.mem_reverse.2
        ((suffix_of_before hmark noted before).subset hoffered)⟩ hanswered

end Marked

end Purge

end Gatehouse
