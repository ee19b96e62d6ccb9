import Gatehouse.Proofs.Resolver.Cancelled
import Gatehouse.Proofs.Resolver.Orderly
import Gatehouse.Proofs.Resolver.Undisturbed

/-!
# What a resolution makes of what it did

A deed of a resolution goes well or it does not, and one that does not is reported in one way only
(`Deed.failure?`): breakage that a collaborator raises is reported as it is, any other problem as a
failed lookup with the problem as its cause, an answer that does not pass for what was asked for as a
failed lookup without a cause, and a fault in a policy as the compiler found it.  What is shown of
each part of a resolution is that it succeeds where all of its deeds went well, and else fails as
its last deed did, while its context is live (`Action.Accounts`).  Main statement: so does gathering,
and where it succeeds, what was asked for is complete (`Request.accounts_gather`).
-/

namespace Gatehouse

variable {η α β : Type}

/-! ### What goes wrong -/

namespace Question

/-- The fault that a failed lookup is reported as. -/
def lookupFault : Question → Value → Fault
  | token _ => .secretResolution
  | policy name => .policyResolution name

/-- Whether an answer passes for what was asked for. -/
def isAnsweredBy : Question → Answer → Bool
  | token _, a => a.policies?.isSome
  | policy _, a => a.policy?.isSome

/-- The reason to refuse an answer that does not. -/
def refusal : Question → Answer → Text
  | token _, a => Resolver.refusalReason a "secret" "token"
  | policy _, a => Resolver.refusalReason a "policy" "policy"

end Question

/-- **What a deed that goes wrong is reported as.** -/
def Deed.failure? : Deed η → Option Failure
  | consulted question _ (.error p) _ =>
    some (if p.isEngine then ⟨p, none⟩ else ⟨.fault (question.lookupFault p.reason), some p⟩)
  | consulted question _ (.ok a) _ =>
    if question.isAnsweredBy a then none
    else some ⟨.fault (question.lookupFault (question.refusal a)), none⟩
  | compiled _ (.error e) => some e
  | compiled _ (.ok _) => none

/-- **How the deeds of a failed action went,** latest first. -/
inductive Failed (id : ContextId) (e : Failure) : List (Deed η) → Prop where
  /-- The last one went wrong and is reported as breakage. -/
  | last {d : Deed η} {earlier : List (Deed η)} (broke : d.failure? = some e)
    (engine : e.problem.isEngine = true) (well : ∀ d' ∈ earlier, d'.failure? = none) :
    Failed id e (d :: earlier)
  /-- One left the context cancelled. -/
  | cancelled {deeds : List (Deed η)} {d : Deed η} (mem : d ∈ deeds) (dead : ¬ d.LeavesLive id) :
    Failed id e deeds

/-! ### What is complete -/

namespace Resolver

/-- **A compiled policy that was obtained for a name:** the host answered with a policy when it was
asked for the name, and this was compiled, or its compiled form was in the cache at that moment. -/
def Obtained (r : Resolver) (deeds : List (Deed η)) (name : Value) (c : CompiledPolicy) : Prop :=
  ∃ before a after o version, .consulted (.policy name) before (.ok a) after ∈ deeds ∧
    a.policy? = some o ∧ o.cacheVersion = .ok version ∧
    (o.compile r.model = .ok (.strict c) ∨
      (Engine.cacheGet r.policyCache (.ofPolicy name version r.model.fingerprint) after).1 =
        .ok (some (.policy (.strict c))))

/-- **A list that is complete for some names:** for each of them a compiled policy was obtained, and
the list grants whatever one of these grants. -/
def IsComplete (r : Resolver) (deeds : List (Deed η)) (names : Value) (acl : Acl) : Prop :=
  ∃ l cs, names.elements = .ok l ∧ Acl.merge cs = .ok acl ∧
    List.Forall₂ (r.Obtained deeds) (Value.distinct l) cs ∧
    (∀ name ∈ l, ∃ name' c, name.same name' = true ∧ c ∈ cs ∧ r.Obtained deeds name' c) ∧
    ∀ c ∈ cs, ∀ resource item cap,
      (∃ rule ∈ c.rulesFor resource, rule.isAbout item = true ∧ cap ∈ rule.capabilities) →
      acl.isAuthorized resource item cap = true

/-- The host answered with a token that lists these names. -/
def WasListed (deeds : List (Deed η)) (secret : Text) (names : Value) : Prop :=
  ∃ before a after, .consulted (.token (.text secret)) before (.ok a) after ∈ deeds ∧
    a.policies? = some names

end Resolver

/-- **A complete answer** to a request that was made of an engine. -/
inductive Request.IsAnswered (r : Resolver) (s : Engine η) (deeds : List (Deed η)) :
    Request → Kept → Prop where
  /-- The list of the secret was in the cache, merged from compiled policies. -/
  | kept {secret : Text} {k : Kept} (merged : k.IsMerged)
    (found : (Engine.cacheGet r.aclCache
      (.ofAcl r.model.fingerprint (Resolver.secretDigest secret)) s).1 = .ok (some k)) :
    IsAnswered r s deeds (.secret (.text secret)) k
  /-- The list is complete for the names that the token of the secret lists. -/
  | secret {secret : Text} {names : Value} {acl : Acl}
    (listed : Resolver.WasListed deeds secret names) (complete : r.IsComplete deeds names acl) :
    IsAnswered r s deeds (.secret (.text secret)) (.acl (.strict acl))
  /-- The list is complete for the names. -/
  | policies {names : Value} {acl : Acl} (complete : r.IsComplete deeds names acl) :
    IsAnswered r s deeds (.policies names) (.acl (.strict acl))
  /-- The policy was obtained for the name. -/
  | policy {name : Value} {c : CompiledPolicy} (obtained : r.Obtained deeds name c) :
    IsAnswered r s deeds (.policy name) (.policy (.strict c))

/-- A write to a cache of a resolver, under a key that can be looked up. -/
def Write.Fits (st : Write) (r : Resolver) : Prop :=
  r.Uses st.cache ∧ st.key.normal.unfit? = none

/-- What is asked for can be asked for: a secret can be encoded, names can be told apart, and a name
can be part of a key. -/
def Request.IsFit : Request → Prop
  | .secret v => v.IsEncodable
  | .policies names => ∃ l, Token.distinctNames names = .ok l
  | .policy name => name.isNested = false

/-- The list of a secret is asked for that is no text, or an empty one. -/
def Request.AsksNothing : Request → Prop
  | .secret (.text x) => x = ""
  | .secret _ => True
  | _ => False

variable {id : ContextId}

/-- Deeds that went well before a failure do not change what it was. -/
theorem Failed.append {e : Failure} {new old : List (Deed η)} (h : Failed id e new)
    (hold : ∀ d ∈ old, d.failure? = none) : Failed id e (new ++ old) := by
  cases h with
  | last broke engine well =>
    refine .last broke engine fun d hd => ?_
    rcases List.mem_append.1 hd with hd | hd
    · exact well d hd
    · exact hold d hd
  | cancelled mem dead => exact .cancelled (List.mem_append_left _ mem) dead

/-! ### Live contexts -/

namespace Engine

/-- A context is live: it is not cancelled. -/
def HasLive (s : Engine η) (id : ContextId) : Prop := ∀ reason, ¬ s.IsCancelled id reason

/-- One can go on under a live context. -/
theorem checkContext_of_hasLive {s : Engine η} (h : s.HasLive id) :
    checkContext id s = (.ok (), s) := by
  unfold checkContext
  rcases hc : s.contexts.find? id with _ | c
  · rfl
  · have hnot : c.isCancelled (s.reading c.source) = false :=
      Bool.eq_false_iff.2 fun hcancelled => h _ ⟨c, hc, hcancelled, rfl⟩
    simp only [Context.check, hnot, Bool.false_eq_true, if_false]
    rfl

end Engine

/-! ### Accounting -/

/-- **An action that accounts for its outcome.**  Started where `P` holds and a context is live, it
succeeds where all that it does goes well, with `Q`, and else fails as the last thing that it did. -/
def Action.Accounts (id : ContextId) (P : Engine (Diary η) → Prop) (x : Action (Diary η) α)
    (Q : α → Engine (Diary η) → Prop) : Prop :=
  ∀ s, P s → s.HasLive id → ∃ new, (x s).2.host.deeds = new ++ s.host.deeds ∧
    match (x s).1 with
    | .ok a => (∀ d ∈ new, d.failure? = none) ∧ (x s).2.HasLive id ∧ Q a (x s).2
    | .error e => Failed id e new

namespace Action.Accounts

variable {P P' : Engine (Diary η) → Prop} {x : Action (Diary η) α} {f : α → Action (Diary η) β}
  {Q Q' : α → Engine (Diary η) → Prop} {S : β → Engine (Diary η) → Prop}

/-- Giving an answer accounts for it. -/
theorem done {a : α} (h : ∀ s, P s → Q a s) : (Action.done a).Accounts id P Q :=
  fun s hs hlive => ⟨[], rfl, List.forall_mem_nil _, hlive, h s hs⟩

/-- What accounts for its outcome does so from fewer states, and for weaker promises. -/
theorem mono (hx : x.Accounts id P Q) (hP : ∀ s, P' s → P s) (hQ : ∀ a s, Q a s → Q' a s) :
    x.Accounts id P' Q' := by
  intro s hs hlive
  obtain ⟨new, hnew, houtcome⟩ := hx s (hP s hs) hlive
  refine ⟨new, hnew, ?_⟩
  rcases h : x s with ⟨e | a, t⟩ <;> rw [h] at houtcome
  · exact houtcome
  · exact ⟨houtcome.1, houtcome.2.1, hQ a t houtcome.2.2⟩

/-- A sequence accounts for its outcome if its parts do. -/
theorem bind (hx : x.Accounts id P Q) (hf : ∀ a, (f a).Accounts id (Q a) S) :
    (x >>= f).Accounts id P S := by
  intro s hs hlive
  obtain ⟨new, hnew, houtcome⟩ := hx s hs hlive
  rcases h : x s with ⟨e | a, t⟩ <;> rw [h] at hnew houtcome
  · rw [bind_of_error h]
    exact ⟨new, hnew, houtcome⟩
  · rw [bind_of_ok h]
    obtain ⟨hwell, hlive', hQ⟩ := houtcome
    obtain ⟨more, hmore, houtcome⟩ := hf a t hQ hlive'
    refine ⟨more ++ new, by rw [hmore, hnew, List.append_assoc], ?_⟩
    rcases h' : f a t with ⟨e | b, u⟩ <;> rw [h'] at houtcome
    · exact houtcome.append hwell
    · exact ⟨List.forall_mem_append.2 ⟨houtcome.1, hwell⟩, houtcome.2⟩

/-- What more deeds cannot spoil need not be promised. -/
theorem frame {F : List (Deed η) → Prop} (hF : ∀ new l, F l → F (new ++ l))
    (hx : x.Accounts id P Q) :
    x.Accounts id (fun s => P s ∧ F s.host.deeds) fun a s => Q a s ∧ F s.host.deeds := by
  intro s hs hlive
  obtain ⟨new, hnew, houtcome⟩ := hx s hs.1 hlive
  refine ⟨new, hnew, ?_⟩
  rcases h : x s with ⟨e | a, t⟩ <;> rw [h] at hnew houtcome
  · exact houtcome
  · refine ⟨houtcome.1, houtcome.2.1, houtcome.2.2, ?_⟩
    rw [hnew]
    exact hF new _ hs.2

/-- A live context is found live. -/
theorem checkContext : (Engine.checkContext id).Accounts id P fun _ => P := by
  intro s hs hlive
  rw [Engine.checkContext_of_hasLive hlive]
  exact ⟨[], rfl, List.forall_mem_nil _, hlive, hs⟩

/-- What holds wherever an action is started may be assumed of it. -/
theorem of_fact {p : Prop} (hp : ∀ s, P s → p) (hx : p → x.Accounts id P Q) :
    x.Accounts id P Q := fun s hs => hx (hp s hs) s hs

/-- A lookup in a plain cache, by a key that can be looked up, succeeds and is no deed. -/
theorem cacheGet {c : CacheId} {key : CacheKey} (hkey : key.normal.unfit? = none)
    (hplain : ∀ s, P s → (s.cache c).IsPlain) :
    (Engine.cacheGet c key).Accounts id P fun found t =>
      ∃ s, P s ∧ Engine.cacheGet c key s.plain = (.ok found, t.plain) ∧ t.host = s.host := by
  intro s hs hlive
  have hok := Engine.fst_cacheGet (hplain s hs) hkey
  have hdetails := Details.cacheGet c key s
  rcases h : Engine.cacheGet c key s with ⟨o, t⟩
  rw [h] at hok hdetails
  subst hok
  obtain rfl : (Engine.cacheGet c key s).2 = t := congrArg Prod.snd h
  exact ⟨[], rfl, List.forall_mem_nil _, hlive, s, hs, hdetails, rfl⟩

/-- **Asking a collaborator:** an answer that passes for what was asked for is accepted, and any other
one is refused. -/
theorem ask (lookup : Lookup η) (question : Value → Question) (subject : Value)
    (accept : Answer → Option α) {f : Answer → Action (Diary η) α}
    (haccept : ∀ a, (question subject).isAnsweredBy a = (accept a).isSome)
    (hengine : ∀ v, ((question subject).lookupFault v).isEngine = true)
    (hsome : ∀ a v, accept a = some v → f a = .done v)
    (hnone : ∀ a, accept a = none →
      f a = .fault ((question subject).lookupFault ((question subject).refusal a))) :
    (Resolver.consult (Lookup.noted lookup question) (question subject).lookupFault id subject >>=
      f).Accounts id P fun v t => ∃ s a, P s ∧ lookup id subject s.plain = (.ok a, t.plain) ∧
        accept a = some v ∧
        t.host.deeds = .consulted (question subject) s.plain (.ok a) t.plain :: s.host.deeds := by
  intro s hs hlive
  have hconsult := Resolver.consult_eq (Lookup.noted lookup question)
    (question subject).lookupFault id subject s
  rw [Engine.checkContext_of_hasLive hlive] at hconsult
  simp only [Lookup.noted] at hconsult
  rcases hlookup : lookup id subject s.plain with ⟨p | a, t⟩ <;> rw [hlookup] at hconsult <;>
    dsimp only at hconsult
  · -- what the collaborator raises is reported, as it is or as the cause of a failed lookup
    rw [bind_of_error hconsult]
    refine ⟨[.consulted (question subject) s.plain (.error p) t], rfl,
      .last ?_ ?_ (List.forall_mem_nil _)⟩
    · rfl
    · unfold Resolver.hostFailure
      split
      · assumption
      · exact hengine _
  let d : Deed η := .consulted (question subject) s.plain (.ok a) t
  by_cases hafter : t.HasLive id
  · have hgoes : (t.withDiary (d :: s.host.deeds)).HasLive id := hafter
    rw [Engine.checkContext_of_hasLive hgoes] at hconsult
    rw [bind_of_ok hconsult]
    rcases hv : accept a with _ | v
    · have hbroke : d.failure? =
          some ⟨.fault ((question subject).lookupFault ((question subject).refusal a)), none⟩ := by
        simp [d, Deed.failure?, haccept, hv]
      rw [hnone a hv]
      exact ⟨[d], rfl, .last hbroke (hengine _) (List.forall_mem_nil _)⟩
    · have hwell : d.failure? = none := by simp [d, Deed.failure?, haccept, hv]
      rw [hsome a v hv]
      exact ⟨[d], rfl, List.forall_mem_singleton.2 hwell, hgoes, s, a, hs, hlookup, hv, rfl⟩
  · obtain ⟨reason, hcancelled⟩ := not_forall_not.1 hafter
    have hstops : (t.withDiary (d :: s.host.deeds)).IsCancelled id reason := hcancelled
    rw [Engine.checkContext_of_isCancelled hstops] at hconsult
    rw [bind_of_error hconsult]
    exact ⟨[d], rfl, .cancelled List.mem_cons_self hafter⟩

/-- **Compiling a policy of texts** gives a compiled one for the model, or breakage. -/
theorem compile {h : Host η} {r : Resolver} {o : OfferedPolicy} (ho : ∃ p, o.strict? = some p) :
    ((r.provision h).diary.compile o).Accounts id P fun c t => ∃ s c', P s ∧ c = .strict c' ∧
      c'.modelFingerprint = r.model.fingerprint ∧ o.compile r.model = .ok c ∧
      t = s.plain.withDiary (.compiled o (.ok c) :: s.host.deeds) := by
  intro s hs hlive
  have houtcome := OfferedPolicy.compile_outcome (m := r.model) ho
  have hcompile : (r.provision h).diary.compile o s =
      ((Action.ofProblem (o.compile r.model) s.plain).1, (Action.ofProblem (o.compile r.model)
        s.plain).2.withDiary (.compiled o (Action.ofProblem (o.compile r.model) s.plain).1 ::
          s.host.deeds)) := rfl
  rw [hcompile]
  rcases hc : o.compile r.model with p | c <;> rw [hc] at houtcome
  · exact ⟨[.compiled o (.error (.ofProblem p))], rfl, .last rfl houtcome (List.forall_mem_nil _)⟩
  · obtain ⟨c', rfl, hmodel⟩ := houtcome
    exact ⟨[.compiled o (.ok (.strict c'))], rfl, List.forall_mem_singleton.2 rfl, hlive, s, c', hs,
      rfl, hmodel, rfl, rfl⟩

end Action.Accounts

/-! ### The parts of a resolution -/

namespace Resolver

variable {r : Resolver} {h : Host η}

/-- What was obtained stays so when more is done. -/
theorem Obtained.mono {deeds deeds' : List (Deed η)} {name : Value} {c : CompiledPolicy}
    (hc : r.Obtained deeds name c) (hsub : deeds ⊆ deeds') : r.Obtained deeds' name c := by
  obtain ⟨before, a, after, o, version, hmem, hrest⟩ := hc
  exact ⟨before, a, after, o, version, hsub hmem, hrest⟩

/-- What was fetched for a name is a compiled policy that was obtained for it, and can be kept. -/
def Fetched.IsObtained (r : Resolver) (deeds : List (Deed η)) (name : Value) (f : Fetched) : Prop :=
  f.InOrder r.model.fingerprint ∧ ∃ c, f.kept = .policy (.strict c) ∧ r.Obtained deeds name c

/-- What is there for a name was obtained still when more is done. -/
theorem Fetched.IsObtained.mono {deeds deeds' : List (Deed η)} {name : Value} {f : Fetched}
    (hf : f.IsObtained r deeds name) (hsub : deeds ⊆ deeds') : f.IsObtained r deeds' name := by
  obtain ⟨hinOrder, c, hc, hobtained⟩ := hf
  exact ⟨hinOrder, c, hc, hobtained.mono hsub⟩

/-- A list is still complete when more is done. -/
theorem IsComplete.mono {deeds deeds' : List (Deed η)} {names : Value} {acl : Acl}
    (hacl : r.IsComplete deeds names acl) (hsub : deeds ⊆ deeds') :
    r.IsComplete deeds' names acl := by
  obtain ⟨l, cs, helements, hmerge, hcs, hnames, hgrants⟩ := hacl
  refine ⟨l, cs, helements, hmerge, hcs.imp fun _ _ hc => hc.mono hsub, fun name hname => ?_,
    hgrants⟩
  obtain ⟨name', c, hsame, hc, hobtained⟩ := hnames name hname
  exact ⟨name', c, hsame, hc, hobtained.mono hsub⟩

/-- What was obtained for names are compiled policies of one model. -/
theorem exists_obtained_of_forall₂ {deeds : List (Deed η)} {names : List Value}
    {fetched : List Fetched}
    (h : List.Forall₂ (fun name f => f.IsObtained r deeds name) names fetched) :
    ∃ cs : List CompiledPolicy, List.Forall₂ (fun f c => f.kept = .policy c) fetched
      (cs.map .strict) ∧ List.Forall₂ (r.Obtained deeds) names cs ∧
        ∀ c ∈ cs, c.modelFingerprint = r.model.fingerprint := by
  induction h with
  | nil => exact ⟨[], .nil, .nil, List.forall_mem_nil _⟩
  | cons hf _ ih =>
    obtain ⟨hinOrder, c, hc, hobtained⟩ := hf
    obtain ⟨c', hc', hmodel⟩ := hinOrder.compiled
    obtain rfl : c = c' := AnyCompiled.strict.inj (Kept.policy.inj (hc.symm.trans hc'))
    obtain ⟨cs, hkept, hmore, hmodels⟩ := ih
    exact ⟨c :: cs, .cons hc hkept, .cons hobtained hmore, List.forall_mem_cons.2 ⟨hmodel, hmodels⟩⟩

/-- Names for which a compiled policy was obtained each, are merged to a complete list. -/
theorem isComplete_of_forall₂ {deeds : List (Deed η)} {names : Value} {distinct : List Value}
    {fetched : List Fetched} (hnames : Token.distinctNames names = .ok distinct)
    (hfetched : List.Forall₂ (fun name f => f.IsObtained r deeds name) distinct fetched) :
    ∃ acl, Fetched.merge fetched = .ok (.strict acl) ∧ r.IsComplete deeds names acl := by
  obtain ⟨cs, hkept, hobtained, hmodel⟩ := exists_obtained_of_forall₂ hfetched
  obtain ⟨acl, hacl⟩ := Acl.exists_merge hmodel
  have hmerge : Fetched.merge fetched = .ok (.strict acl) := by
    rw [Fetched.merge_eq hkept, AnyAcl.merge_strict, hacl]
    rfl
  obtain ⟨l, helements, rfl, -⟩ := Token.eq_distinct_of_distinctNames hnames
  refine ⟨acl, hmerge, l, cs, helements, hacl, hobtained, fun name hname => ?_,
    fun c hc resource item cap hgrants => (Acl.isAuthorized_merge_iff hacl).2 ⟨c, hc, hgrants⟩⟩
  -- a name that is listed counts as equal to one of the different ones
  have hamong : name.among (Value.distinct l) = true := by
    rw [Value.among_distinct]
    exact List.any_eq_true.2 ⟨name, hname, Value.same_self name⟩
  obtain ⟨name', hname', hsame⟩ := List.any_eq_true.1 hamong
  obtain ⟨c, hc, hname'⟩ := exists_mem_of_forall₂ hobtained name' hname'
  exact ⟨name', c, hsame, hc, hname'⟩

section Resolving

variable (hh : h.AnswersInOrder r)
include hh

/-- Fetching a token accounts for its outcome. -/
theorem accounts_fetchToken (secret : Text) :
    (fetchToken (r.provision h).diary id secret).Accounts id (fun s => r.InOrder s.plain)
      fun names s => (r.InOrder s.plain ∧ ∃ l, Token.distinctNames names = .ok l) ∧
        WasListed s.host.deeds secret names := by
  refine (Action.Accounts.ask h.token .token (.text secret) Answer.policies?
    (fun _ => rfl) (fun _ => rfl) (fun a v hv => by simp only [hv]; rfl)
    fun a hv => by simp only [hv]; rfl).mono (fun _ hs => hs) ?_
  rintro names t ⟨s, a, hs, hlookup, hv, hdeeds⟩
  have hanswer := hh.token id (.text secret) s.plain hs
  rw [hlookup] at hanswer
  refine ⟨⟨hanswer.1, hanswer.2 a rfl names hv⟩, s.plain, a, t.plain, ?_, hv⟩
  rw [hdeeds]
  exact List.mem_cons_self

/-- Fetching a policy accounts for its outcome. -/
theorem accounts_fetchPolicy (name : Value) :
    (fetchPolicy (r.provision h).diary id name).Accounts id (fun s => r.InOrder s.plain)
      fun o s => (r.InOrder s.plain ∧ (∃ p, o.strict? = some p) ∧ o.version.isNested = false) ∧
        ∃ before a, .consulted (.policy name) before (.ok a) s.plain ∈ s.host.deeds ∧
          a.policy? = some o := by
  refine (Action.Accounts.ask h.policy .policy name Answer.policy?
    (fun _ => rfl) (fun _ => rfl) (fun a v hv => by simp only [hv]; rfl)
    fun a hv => by simp only [hv]; rfl).mono (fun _ hs => hs) ?_
  rintro o t ⟨s, a, hs, hlookup, hv, hdeeds⟩
  have hanswer := hh.policy id name s.plain hs
  rw [hlookup] at hanswer
  refine ⟨⟨hanswer.1, hanswer.2 a rfl o hv⟩, s.plain, a, ?_, hv⟩
  rw [hdeeds]
  exact List.mem_cons_self

/-- **Fetching a compiled policy accounts for its outcome.** -/
theorem accounts_fetchCompiled {name : Value} (hname : name.isNested = false) :
    (fetchCompiled (r.provision h).diary r id name).Accounts id (fun s => r.InOrder s.plain)
      fun f s => r.InOrder s.plain ∧ f.IsObtained r s.host.deeds name := by
  refine .bind (accounts_fetchPolicy hh name) fun o => .of_fact (fun _ hs => hs.1.2) fun ho => ?_
  obtain ⟨htexts, hversion⟩ := ho
  obtain ⟨version, hcache, hnested⟩ := OfferedPolicy.exists_cacheVersion htexts hversion
  have hkey := CacheKey.unfit?_ofPolicy hname hnested r.model.fingerprint
  -- the cache is looked up in the engine that the collaborator has left
  let Q : Option Kept → Engine (Diary η) → Prop := fun found t =>
    r.InOrder t.plain ∧ (∀ kept, found = some kept → kept.IsCompiledFor r.model.fingerprint) ∧
      ∃ before a after, .consulted (.policy name) before (.ok a) after ∈ t.host.deeds ∧
        a.policy? = some o ∧ (Engine.cacheGet r.policyCache
          (.ofPolicy name version r.model.fingerprint) after).1 = .ok found
  have hlook : (Engine.cacheGet r.policyCache (.ofPolicy name version r.model.fingerprint)).Accounts
      id (fun s => (r.InOrder s.plain ∧ (∃ p, o.strict? = some p) ∧ o.version.isNested = false) ∧
        ∃ before a, .consulted (.policy name) before (.ok a) s.plain ∈ s.host.deeds ∧
          a.policy? = some o) Q := by
    refine (Action.Accounts.cacheGet hkey fun s hs => hs.1.1.policies.plain).mono
      (fun _ hs => hs) ?_
    rintro found t ⟨s, ⟨⟨hs, -⟩, before, a, hmem, ha⟩, hget, hhost⟩
    have hdelivers := delivers_cacheGet (P := Kept.IsCompiledFor r.model.fingerprint) hkey
      (fun s hs => hs.policies.plain) (fun s e hs hfind =>
        hs.policies.policy name version e hfind) s.plain hs
    rw [hget] at hdelivers
    exact ⟨hdelivers.1, hdelivers.2, before, a, s.plain, hhost ▸ hmem, ha, congrArg Prod.fst hget⟩
  rw [hcache, Action.ofProblem_ok_bind]
  refine .bind hlook fun found => ?_
  cases found with
  | some kept =>
    refine .done fun s ⟨hs, hkept, before, a, after, hmem, ha, hget⟩ => ?_
    obtain ⟨c, rfl, hmodel⟩ := hkept kept rfl
    exact ⟨hs, ⟨⟨c, rfl, hmodel⟩, nofun⟩, c, rfl, before, a, after, o, version, hmem, ha, hcache,
      .inr hget⟩
  | none =>
    refine .bind .checkContext fun _ => .bind (.compile htexts) fun c => .done ?_
    rintro t ⟨s, c', ⟨hs, -, before, a, after, hmem, ha, -⟩, rfl, hmodel, hcompile, rfl⟩
    refine ⟨hs, ⟨⟨c', rfl, hmodel⟩, ?_⟩, c', rfl, before, a, after, o, version,
      List.mem_cons_of_mem _ hmem, ha, hcache, .inl hcompile⟩
    rintro _ _ ⟨⟩
    exact ⟨hkey, name, version, rfl⟩

/-- Fetching compiled policies one after the other accounts for its outcome. -/
theorem accounts_fetchEach {names : List Value} (hnames : ∀ name ∈ names, name.isNested = false) :
    (fetchEach (r.provision h).diary r id names).Accounts id (fun s => r.InOrder s.plain)
      fun l s => r.InOrder s.plain ∧
        List.Forall₂ (fun name f => f.IsObtained r s.host.deeds name) names l := by
  induction names with
  | nil => exact .done fun _ hs => ⟨hs, .nil⟩
  | cons name rest ih =>
    obtain ⟨hname, hrest⟩ := List.forall_mem_cons.1 hnames
    refine .bind (accounts_fetchCompiled hh hname) fun f => ?_
    -- the first one stays obtained while the others are fetched
    have hmore := (ih hrest).frame (F := fun deeds => f.IsObtained r deeds name)
      fun new l hf => hf.mono (List.subset_append_right new l)
    exact .bind hmore fun l => .done fun s ⟨⟨hs, hl⟩, hf⟩ => ⟨hs, .cons hf hl⟩

/-- Gathering for names that can be told apart accounts for its outcome. -/
theorem accounts_gatherNames {names : Value} (hnames : ∃ l, Token.distinctNames names = .ok l) :
    (gatherNames (r.provision h).diary r id names).Accounts id (fun s => r.InOrder s.plain)
      fun g s => r.InOrder s.plain ∧ (∀ st ∈ g.1, st.Fits r) ∧
        ∃ acl, g.2 = .strict acl ∧ r.IsComplete s.host.deeds names acl := by
  obtain ⟨distinct, hdistinct⟩ := hnames
  unfold gatherNames
  rw [hdistinct, Action.ofProblem_ok_bind]
  refine .bind (accounts_fetchEach hh (Token.isNested_of_distinctNames hdistinct)) fun l =>
    .bind .checkContext fun _ => ?_
  intro s hs hlive
  obtain ⟨acl, hmerge, hcomplete⟩ := isComplete_of_forall₂ hdistinct hs.2
  rw [hmerge, Action.ofProblem_ok_bind]
  refine ⟨[], rfl, List.forall_mem_nil _, hlive, hs.1, fun st hst => ?_, acl, rfl, hcomplete⟩
  obtain ⟨key, c, hmem, rfl⟩ := Fetched.mem_stores_iff.1 hst
  obtain ⟨name, -, hf⟩ := exists_mem_of_forall₂ hs.2.flip _ hmem
  exact ⟨.inl rfl, (hf.1.keyed key c rfl).1⟩

/-- Gathering for a secret accounts for its outcome. -/
theorem accounts_gatherSecret {s₀ : Engine η} (secret : Text) :
    (gatherSecret (r.provision h).diary r id secret).Accounts id
      (fun s => r.InOrder s.plain ∧ s.plain = s₀) fun g s =>
        (∀ st ∈ g.1, st.Fits r) ∧ r.InOrder s.plain ∧
          (Request.secret (.text secret)).IsAnswered r s₀ s.host.deeds g.2 := by
  have hkey := CacheKey.unfit?_ofAcl r.model.fingerprint (secretDigest secret)
  let Q : Option Kept → Engine (Diary η) → Prop := fun found t =>
    r.InOrder t.plain ∧ (∀ kept, found = some kept → kept.IsMerged) ∧
      (Engine.cacheGet r.aclCache (.ofAcl r.model.fingerprint (secretDigest secret)) s₀).1 = .ok found
  have hlook : (Engine.cacheGet r.aclCache
      (.ofAcl r.model.fingerprint (secretDigest secret))).Accounts id
        (fun s => r.InOrder s.plain ∧ s.plain = s₀) Q := by
    refine (Action.Accounts.cacheGet hkey fun s hs => hs.1.lists.plain).mono (fun _ hs => hs) ?_
    rintro found t ⟨s, ⟨hs, rfl⟩, hget, -⟩
    have hdelivers := delivers_cacheGet (P := Kept.IsMerged) hkey (fun s hs => hs.lists.plain)
      (fun s e hs hfind => hs.lists.list _ e hfind) s.plain hs
    rw [hget] at hdelivers
    exact ⟨hdelivers.1, hdelivers.2, congrArg Prod.fst hget⟩
  refine .bind hlook fun found => ?_
  cases found with
  | some kept =>
    exact .done fun s ⟨hs, hkept, hfound⟩ => ⟨List.forall_mem_nil _, hs, .kept (hkept kept rfl) hfound⟩
  | none =>
    refine .bind ((accounts_fetchToken hh secret).mono (fun _ hs => hs.1) fun _ _ hs => hs)
      fun names => .of_fact (fun _ hs => hs.1.2) fun hnames => ?_
    -- the token stays listed while the policies are fetched
    have hgather : Action.Accounts id _ _ _ := (accounts_gatherNames hh hnames).frame
      (F := fun deeds => WasListed deeds secret names) fun new l ⟨before, a, after, hmem, ha⟩ =>
        ⟨before, a, after, List.mem_append_right new hmem, ha⟩
    refine .bind (hgather.mono (fun s hs => ⟨hs.1.1, hs.2⟩) fun _ _ hs => hs) fun g => .done ?_
    rintro s ⟨⟨hs, hfits, acl, hacl, hcomplete⟩, hlisted⟩
    refine ⟨List.forall_mem_append.2 ⟨hfits, List.forall_mem_singleton.2 ⟨.inr rfl, hkey⟩⟩, hs, ?_⟩
    rw [hacl]
    exact .secret hlisted hcomplete

end Resolving

end Resolver

namespace Request

variable {r : Resolver} {h : Host η}

/-- An answer is still complete when more is done, in an engine with the same lists and the same
clock. -/
theorem IsAnswered.mono {s s' : Engine η} {deeds deeds' : List (Deed η)} {q : Request} {k : Kept}
    (hk : q.IsAnswered r s deeds k) (hsub : deeds ⊆ deeds')
    (hcache : s'.cache r.aclCache = s.cache r.aclCache) (hclock : s'.clock = s.clock) :
    q.IsAnswered r s' deeds' k := by
  cases hk with
  | kept merged found => exact .kept merged ((Engine.fst_cacheGet_congr hcache hclock _).trans found)
  | secret listed complete =>
    obtain ⟨before, a, after, hmem, ha⟩ := listed
    exact .secret ⟨before, a, after, hsub hmem, ha⟩ (complete.mono hsub)
  | policies complete => exact .policies (complete.mono hsub)
  | policy obtained => exact .policy (obtained.mono hsub)

/-- Where nothing is asked for, nothing is done. -/
theorem gather_of_asksNothing {w : Provision η} {q : Request} (hq : q.AsksNothing) {s : Engine η}
    (hlive : s.HasLive id) : q.gather w r id s =
      (.error (.ofFault (.secretResolution "secret must be a non-empty string")), s) := by
  cases q with
  | secret v =>
    refine (Action.bind_of_ok (Engine.checkContext_of_hasLive hlive)).trans ?_
    rcases v with _ | _ | _ | _ | x | _ | _
    case text =>
      have hempty : x = "" := hq
      subst hempty
      rfl
    all_goals rfl
  | policies names => exact hq.elim
  | policy name => exact hq.elim

/-- A secret that cannot be encoded is refused before anything is looked up. -/
theorem gather_of_unencodable? {w : Provision η} {x : Text} {p : Problem}
    (hx : x.unencodable? = some p) {s : Engine η} (hlive : s.HasLive id) :
    (secret (.text x)).gather w r id s = (.error (.ofProblem p), s) := by
  refine (Action.bind_of_ok (Engine.checkContext_of_hasLive hlive)).trans ?_
  have hfilled : x ≠ "" := by
    rintro rfl
    cases hx
  dsimp only
  rw [if_neg hfilled, hx]
  rfl

/-- **Gathering accounts for its outcome:** it succeeds where everything went well, and what it comes
to is complete, or it fails as the last deed did. -/
theorem accounts_gather (hh : h.AnswersInOrder r) {s₀ : Engine η} {q : Request} (hq : q.IsFit)
    (hasks : ¬ q.AsksNothing) : (q.gather (r.provision h).diary r id).Accounts id
      (fun s => r.InOrder s.plain ∧ s.plain = s₀) fun g s =>
        (∀ st ∈ g.1, st.Fits r) ∧ r.InOrder s.plain ∧ q.IsAnswered r s₀ s.host.deeds g.2 := by
  cases q with
  | secret v =>
    refine .bind .checkContext fun _ => ?_
    rcases v with _ | _ | _ | _ | x | _ | _
    case text =>
      have hfilled : x ≠ "" := hasks
      dsimp only
      rw [if_neg hfilled, Text.unencodable?_eq_none_iff.2 (hq x rfl)]
      exact Resolver.accounts_gatherSecret hh x
    all_goals exact absurd trivial hasks
  | policies names =>
    refine .bind .checkContext fun _ => .bind ((Resolver.accounts_gatherNames hh hq).mono
      (fun _ hs => hs.1) fun _ _ hs => hs) fun g => .done ?_
    rintro s ⟨hs, hfits, acl, hacl, hcomplete⟩
    rw [hacl]
    exact ⟨hfits, hs, .policies hcomplete⟩
  | policy name =>
    refine .bind .checkContext fun _ => .bind ((Resolver.accounts_fetchCompiled hh hq).mono
      (fun _ hs => hs.1) fun _ _ hs => hs) fun f => .bind .checkContext fun _ => .done ?_
    rintro s ⟨hs, hf, c, hc, hobtained⟩
    refine ⟨fun st hst => ?_, hs, ?_⟩
    · obtain ⟨key, c, hmem, rfl⟩ := Resolver.Fetched.mem_stores_iff.1 hst
      exact ⟨.inl rfl, (hf.keyed key c (List.mem_singleton.1 hmem).symm).1⟩
    · rw [hc]
      exact .policy hobtained

end Request

end Gatehouse
