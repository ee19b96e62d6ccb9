import Gatehouse.Proofs.Acl.Instances
import Gatehouse.Proofs.Resolver.Cancelled
import Gatehouse.Proofs.Resolver.Orderly
import Gatehouse.Proofs.Resolver.Stored
import Gatehouse.Proofs.Web.Bearer
import Gatehouse.Web.Guard

/-!
# What guards let through

What a guard answers is settled by the header of the request, by what the secret in it is resolved
to, and by what the list grants: every request leads to one verdict (`Guard.answer_spec`), and every
verdict says why (`Guard.Verdict.failed_iff`).  Main statement: a guard fails closed and tells the
reasons for a refusal apart (`Guard.answer_failsClosed`), whatever the host does, as long as the
tokens and policies that it answers with are what they pass for.  The clock of the machine goes on
while the host is asked, and a guard whose time has run out by then refuses the request as
unavailable (`Guard.answer_of_overdue`).
-/

namespace Gatehouse

namespace Web

variable {η : Type}

/-! ### What a guard is about -/

/-- A guard with texts for what it requires. -/
def Guard.ofTexts (resource capability : Text) (parameter : Option Text)
    (timeout : Option Float) : Guard :=
  ⟨resource, capability, parameter.elim .null .text, timeout⟩

/-- **The instance that a request is about:** the path parameter of a name, or every instance if no
parameter is named or there is none of that name. -/
def Request.itemAt (q : Request) (parameter : Option Text) : Value :=
  match parameter with
  | none => wildcard
  | some name => if name = "" then wildcard else (q.pathParameters.lookup name).getD wildcard

/-- A guard of texts finds the instance. -/
theorem Guard.item_ofTexts (resource capability : Text) (parameter : Option Text)
    (timeout : Option Float) (q : Request) :
    (ofTexts resource capability parameter timeout).item q = .ok (q.itemAt parameter) := by
  cases parameter with
  | none => rfl
  | some name =>
    by_cases hname : name = ""
    · subst hname
      rfl
    · simp only [item, ofTexts, Option.elim_some, Value.isVacant, beq_iff_eq, hname, if_false,
        Request.itemAt, Value.asName_text]
      rfl

/-- Where all path parameters can be looked up, so can the instance. -/
theorem Request.isNested_itemAt {q : Request} (hq : ∀ e ∈ q.pathParameters, e.2.isNested = false)
    (parameter : Option Text) : (q.itemAt parameter).isNested = false := by
  unfold itemAt
  split
  · rfl
  · split
    · rfl
    · next name _ =>
      rcases hlookup : q.pathParameters.lookup name with _ | v
      · rfl
      · obtain ⟨_, _, hmem, -⟩ := List.lookup_eq_some_iff.1 hlookup
        exact hq (name, v) (by rw [hmem]; simp)

/-! ### Verdicts -/

namespace Guard

variable {w : Provision η} {r : Resolver} {g : Guard} {item : Value} {secret : Text}
  {s t : Engine η}

/-- The resolution that a guard asks for: of a secret, under a new context with the guard's time. -/
def resolution (w : Provision η) (r : Resolver) (g : Guard) (secret : Text) : Action η Kept := do
  let ctx ← Engine.newContext .machine none g.timeout
  Resolver.resolveSecret w r (.text secret) (some ctx)

/-- A guard resolves the secret and then asks the list. -/
theorem authorize_eq (w : Provision η) (r : Resolver) (g : Guard) (item : Value) (secret : Text) :
    authorize w r g item secret = g.resolution w r secret >>= fun k =>
      .ofProblem (k.asAcl "check_authorized") >>= fun a =>
        .ofProblem (a.checkAuthorized g.resource item g.capability) >>= fun _ => .done a := by
  rw [resolution, bind_assoc]
  rfl

/-- A list that is resolved is let through if it grants what is required, and is a denial
otherwise. -/
theorem letThrough_of_ok {a : AnyAcl} {b : Bool}
    (hresolved : g.resolution w r secret s = (.ok (.acl a), t))
    (hb : a.isAuthorized g.resource item g.capability = .ok b) :
    g.letThrough w r item secret s = (.ok (if b then .ok a else
      .error (.denied (.notAuthorized g.resource item g.capability) g.resource g.capability)),
        t) := by
  unfold letThrough
  rw [authorize_eq, Action.bind_of_ok hresolved]
  simp only [Kept.asAcl, Action.ofProblem_ok_bind, AnyAcl.checkAuthorized_of_ok hb]
  cases b <;> rfl

/-- A resolution that fails with a fault for which there is a refusal is refused. -/
theorem letThrough_of_error {f : Fault} {cause : Option Problem} {x : Refusal}
    (hresolved : g.resolution w r secret s = (.error ⟨.fault f, cause⟩, t))
    (hx : g.refusal? f = some x) : g.letThrough w r item secret s = (.ok (.error x), t) := by
  unfold letThrough
  rw [authorize_eq, Action.bind_of_error hresolved]
  simp only [hx]

/-- **What a guard makes of what the secret in a header is resolved to,** if there is one. -/
inductive Verdict (g : Guard) (item : Value) :
    Option (Except Failure Kept) → Except Refusal AnyAcl → Prop where
  /-- Without a secret there is nothing to resolve. -/
  | noSecret : Verdict g item none (.error .noSecret)
  /-- A list that grants what is required is let through. -/
  | granted {a : AnyAcl} (grants : a.isAuthorized g.resource item g.capability = .ok true) :
    Verdict g item (some (.ok (.acl a))) (.ok a)
  /-- A list that does not grant it is a denial. -/
  | denied {a : AnyAcl} (denies : a.isAuthorized g.resource item g.capability = .ok false) :
    Verdict g item (some (.ok (.acl a)))
      (.error (.denied (.notAuthorized g.resource item g.capability) g.resource g.capability))
  /-- The caller gave up. -/
  | unavailable {reason : Value} {cause : Option Problem} :
    Verdict g item (some (.error ⟨.fault (.cancelled reason), cause⟩))
      (.error (.unavailable (.cancelled reason)))
  /-- A lookup of the host failed. -/
  | unresolved {f : Fault} {cause : Option Problem} (isResolution : f.isResolution = true) :
    Verdict g item (some (.error ⟨.fault f, cause⟩)) (.error (.unresolved f))
  /-- Something else is broken. -/
  | broken {f : Fault} {cause : Option Problem} (isEngine : f.isEngine = true)
    (isResolution : f.isResolution = false) (notCancelled : ∀ reason, f ≠ .cancelled reason) :
    Verdict g item (some (.error ⟨.fault f, cause⟩)) (.error (.broken f))

/-- Breakage of the engine is refused, and never taken for a denial. -/
theorem exists_verdict_of_isEngine {f : Fault} (hf : f.isEngine = true) (g : Guard) (item : Value)
    (cause : Option Problem) : ∃ x, g.refusal? f = some x ∧
      g.Verdict item (some (.error ⟨.fault f, cause⟩)) (.error x) := by
  by_cases hcancelled : ∃ reason, f = .cancelled reason
  · obtain ⟨reason, rfl⟩ := hcancelled
    exact ⟨_, rfl, .unavailable⟩
  have hrefusal : g.refusal? f =
      if f.isResolution then some (.unresolved f) else if f.isEngine then some (.broken f)
        else none := by
    cases f with
    | notAuthorized => cases hf
    | cancelled reason => exact absurd ⟨reason, rfl⟩ hcancelled
    | _ => rfl
  cases hresolution : f.isResolution with
  | true => exact ⟨_, by rw [hrefusal, hresolution, if_pos rfl], .unresolved hresolution⟩
  | false =>
    refine ⟨.broken f, by simp [hrefusal, hresolution, hf], .broken hf hresolution ?_⟩
    exact fun reason hreason => hcancelled ⟨reason, hreason⟩

/-- What the secret in the header of a request is resolved to, if there is one. -/
def found (w : Provision η) (r : Resolver) (g : Guard) (q : Request) (s : Engine η) :
    Option (Except Failure Kept) :=
  q.secret?.map fun secret => (g.resolution w r secret s).1

/-- **The header of a request carries a secret that is resolved to this.** -/
def Resolves (w : Provision η) (r : Resolver) (g : Guard) (q : Request) (s : Engine η)
    (x : Except Failure Kept) : Prop :=
  ∃ secret, Carries (q.authorization.getD "") secret ∧ (g.resolution w r secret s).1 = x

/-- A result is found exactly if the header carries a secret that is resolved to it. -/
theorem found_eq_some_iff {q : Request} {x : Except Failure Kept} :
    g.found w r q s = some x ↔ g.Resolves w r q s x := by
  simp only [found, Resolves, Option.map_eq_some_iff, Request.secret?, bearerSecret_eq_some_iff]

/-- Nothing is found exactly if the header carries no secret. -/
theorem found_eq_none_iff {q : Request} :
    g.found w r q s = none ↔ ¬ ∃ secret, Carries (q.authorization.getD "") secret := by
  simp only [found, Option.map_eq_none_iff, Request.secret?, bearerSecret_eq_none_iff]

/-- The secret in a header can be encoded. -/
theorem isEncodable_of_secret? {q : Request} (h : q.secret? = some secret) :
    (Value.text secret).IsEncodable := by
  intro x hx
  obtain rfl := Value.text.inj hx
  exact (bearerSecret_eq_some_iff.1 h).isUnicode (Text.isUnicode_ofString _)

/-- What a guard asks to be resolved is a merged list, or it is broken. -/
theorem delivers_resolution {h : Host η} (hh : h.AnswersInOrder r) (g : Guard)
    (hsecret : (Value.text secret).IsEncodable) :
    (g.resolution (r.provision h) r secret).Delivers r.InOrder Kept.IsMerged :=
  .bind (Q := fun _ => True) (fun _ hs => ⟨hs.of_caches_eq rfl, trivial⟩) fun ctx _ =>
    Resolver.delivers_resolveSecret hh hsecret (some ctx)

/-- **Every request leads to a verdict,** and if it is let through, then with a merged list. -/
theorem answer_spec {h : Host η} (hh : h.AnswersInOrder r) (hs : r.InOrder s)
    (resource capability : Text) (parameter : Option Text) (timeout : Option Float) {q : Request}
    (hq : ∀ e ∈ q.pathParameters, e.2.isNested = false) :
    ∃ v t, (ofTexts resource capability parameter timeout).answer (r.provision h) r q s = (.ok v, t) ∧
      r.InOrder t ∧ (∀ a, v = .ok a → (Kept.acl a).IsMerged) ∧
      (ofTexts resource capability parameter timeout).Verdict (q.itemAt parameter)
        ((ofTexts resource capability parameter timeout).found (r.provision h) r q s) v := by
  unfold answer found
  rcases hsecret : q.secret? with _ | secret
  · exact ⟨_, s, rfl, hs, nofun, .noSecret⟩
  simp only [item_ofTexts, Action.ofProblem_ok_bind, Option.map_some]
  obtain ⟨hleft, hresult⟩ :=
    delivers_resolution hh (ofTexts resource capability parameter timeout)
      (isEncodable_of_secret? hsecret) s hs
  rcases hresolved : (ofTexts resource capability parameter timeout).resolution (r.provision h) r
    secret s with ⟨⟨p, cause⟩ | k, t⟩ <;> rw [hresolved] at hleft hresult
  · obtain ⟨f, rfl, hf⟩ : ∃ f, p = .fault f ∧ f.isEngine = true := by
      cases p with
      | fault f => exact ⟨f, rfl, hresult⟩
      | _ => cases hresult
    obtain ⟨x, hx, hverdict⟩ := exists_verdict_of_isEngine hf
      (ofTexts resource capability parameter timeout) (q.itemAt parameter) cause
    exact ⟨_, t, letThrough_of_error hresolved hx, hleft, nofun, hverdict⟩
  · obtain ⟨cs, a, hmerge, rfl⟩ := id hresult
    obtain ⟨b, hb⟩ :=
      AnyAcl.exists_isAuthorized a resource capability (Request.isNested_itemAt hq parameter)
    refine ⟨_, t, letThrough_of_ok hresolved hb, hleft, ?_, ?_⟩ <;> cases b
    · exact nofun
    · rintro a' ha'
      obtain rfl := Except.ok.inj ha'
      exact hresult
    · exact .denied hb
    · exact .granted hb

/-! ### Running out of time -/

/-- The context under which a guard resolves, and the engine with it. -/
def opened (g : Guard) (s : Engine η) : ContextId × Engine η :=
  let r := s.contexts.create .machine none g.timeout s.machine
  (r.2, { s with contexts := r.1 })

/-- What a guard asks to be resolved is the secret, in the engine with its context. -/
theorem resolution_eq (g : Guard) (secret : Text) (s : Engine η) :
    g.resolution w r secret s =
      (Gatehouse.Request.secret (.text secret)).resolve w r (some (g.opened s).1) (g.opened s).2 :=
  rfl

/-- The context of a guard has the number that it was given, if no other one has that number. -/
theorem find?_opened (hnew : s.contexts.find? s.contexts.next = none) :
    (g.opened s).2.contexts.find? (g.opened s).1 = some
      { id := s.contexts.next, parent := none, source := .machine,
        deadline := g.timeout.map (s.machine + ·), isStopped := false, givenReason := none } := by
  have hfind : s.contexts.contexts.find? (fun c => c.id == s.contexts.next) = none := hnew
  simp only [opened, ContextForest.create, ContextForest.find?, List.find?_append, hfind,
    Option.none_or]
  cases g.timeout <;> simp [ContextForest.earlier]

/-- **A caller who gave up is told that the service is unavailable:** once a collaborator has given an
answer, of whatever kind, and left the context of the guard cancelled, the request is refused for
that reason. -/
theorem answer_of_isCancelled {h : Host η} {q : Request} {earlier later : List (Deed η)}
    {question : Question} {before after : Engine η} {a : Answer} {reason : Value}
    (hsecret : q.secret? = some secret) (hitem : g.item q = .ok item)
    (hdeeds : (Gatehouse.Request.secret (.text secret)).deeds (r.provision h) r
      (some (g.opened s).1) (g.opened s).2 =
        earlier ++ .consulted question before (.ok a) after :: later)
    (hafter : after.IsCancelled (g.opened s).1 reason) :
    (g.answer (r.provision h) r q s).1 = .ok (.error (.unavailable (.cancelled reason))) := by
  obtain ⟨-, e, hresolve, hreported, -⟩ :=
    Gatehouse.Request.resolve_of_isCancelled_after hdeeds hafter
  rw [hreported a rfl, ← resolution_eq] at hresolve
  simp only [answer, hsecret, hitem, Action.ofProblem_ok_bind]
  rw [letThrough_of_error hresolve rfl]

/-- **A guard whose time runs out while the host is asked** refuses the request as unavailable,
although the host gives an answer. -/
theorem answer_of_overdue {h : Host η} {q : Request} {earlier later : List (Deed η)}
    {question : Question} {before after : Engine η} {a : Answer} {seconds : Float}
    (hsecret : q.secret? = some secret) (hitem : g.item q = .ok item)
    (htimeout : g.timeout = some seconds) (hnew : s.contexts.find? s.contexts.next = none)
    (hdeeds : (Gatehouse.Request.secret (.text secret)).deeds (r.provision h) r
      (some (g.opened s).1) (g.opened s).2 =
        earlier ++ .consulted question before (.ok a) after :: later)
    (hkept : after.contexts = (g.opened s).2.contexts)
    (hover : s.machine + seconds ≤ after.machine) :
    (g.answer (r.provision h) r q s).1 =
      .ok (.error (.unavailable (.cancelled (.text Context.deadlineExceeded)))) := by
  have hfind := find?_opened (g := g) hnew
  rw [← hkept, htimeout, Option.map_some] at hfind
  exact answer_of_isCancelled hsecret hitem hdeeds
    (Engine.isCancelled_of_overdue hfind rfl rfl hover)

end Guard

/-! ### Failing closed -/

/-- An answer refuses a request with this status, and its body names this error, with this message
and this code. -/
def Refuses (o : Except Failure (Except Refusal AnyAcl)) (status : Nat) (error : Text)
    (message code : Value) : Prop :=
  ∃ x more, o = .ok (.error x) ∧ x.status = status ∧
    x.detail = (("error" : Text), .text error) :: ("message", message) :: ("code", code) :: more

/-- A list that comes back is no refusal. -/
theorem not_refuses_ok {a : AnyAcl} {status : Nat} {error : Text} {message code : Value} :
    ¬ Refuses (.ok (.ok a)) status error message code := by
  rintro ⟨x, more, hx, -⟩
  cases hx

/-- What a refusal for a fault says. -/
theorem refuses_fault {x : Refusal} {name : Text} {f : Fault} {status : Nat} {error : Text}
    {message code : Value}
    (hx : x.detail = [(("error" : Text), .text name), ("message", f.wording), ("code", f.code)]) :
    Refuses (.ok (.error x)) status error message code ↔
      x.status = status ∧ name = error ∧ message = f.wording ∧ code = f.code := by
  constructor
  · rintro ⟨y, rest, hy, hstatus, hdetail⟩
    obtain rfl := Except.error.inj (Except.ok.inj hy)
    rw [hx] at hdetail
    simp only [List.cons.injEq, Prod.mk.injEq, true_and, Value.text.injEq] at hdetail
    exact ⟨hstatus, hdetail.1, hdetail.2.1.symm, hdetail.2.2.1.symm⟩
  · rintro ⟨hstatus, rfl, rfl, rfl⟩
    exact ⟨x, [], rfl, hstatus, hx⟩

/-- **A guard that fails closed** when it is asked about an instance. -/
structure Guard.FailsClosed (g : Guard) (r : Resolver) (h : Host η) (q : Request) (item : Value)
    (s : Engine η) : Prop where
  /-- Nothing but a list or a refusal comes back. -/
  answers : ∃ v, (g.answer (r.provision h) r q s).1 = .ok v
  /-- A list comes back exactly if the header carries a secret that was resolved to that very list,
  and the list grants what is required. -/
  granted : ∀ a, (g.answer (r.provision h) r q s).1 = .ok (.ok a) ↔
    g.Resolves (r.provision h) r q s (.ok (.acl a)) ∧
      a.isAuthorized g.resource item g.capability = .ok true
  /-- The secret is missing exactly if the header carries none. -/
  noSecret : ∀ message code,
    Refuses (g.answer (r.provision h) r q s).1 401 "authentication_required" message code ↔
      (¬ ∃ secret, Carries (q.authorization.getD "") secret) ∧
        message = .text "No bearer secret provided" ∧ code = .text "missing_token"
  /-- In that case nobody is asked: whatever the host, the answer is the same and the engine stays
  as it is. -/
  unasked : (¬ ∃ secret, Carries (q.authorization.getD "") secret) →
    ∀ h' : Host η, g.answer (r.provision h') r q s = (.ok (.error .noSecret), s)
  /-- It is a denial exactly if the secret was resolved to a list that does not grant what is
  required. -/
  denied : ∀ message code,
    Refuses (g.answer (r.provision h) r q s).1 403 "forbidden" message code ↔
      ∃ a, g.Resolves (r.provision h) r q s (.ok (.acl a)) ∧
        a.isAuthorized g.resource item g.capability = .ok false ∧
        message = (Fault.notAuthorized g.resource item g.capability).wording ∧
        code = .text "not_authorized"
  /-- The service is unavailable exactly if the resolution was cancelled. -/
  unavailable : ∀ message code,
    Refuses (g.answer (r.provision h) r q s).1 503 "unavailable" message code ↔
      ∃ f cause, g.Resolves (r.provision h) r q s (.error ⟨.fault f, cause⟩) ∧
        (∃ reason, f = .cancelled reason) ∧ message = f.wording ∧ code = f.code
  /-- The secret is not accepted exactly if a lookup of the host failed. -/
  unresolved : ∀ message code,
    Refuses (g.answer (r.provision h) r q s).1 401 "authentication_failed" message code ↔
      ∃ f cause, g.Resolves (r.provision h) r q s (.error ⟨.fault f, cause⟩) ∧
        f.isResolution = true ∧ message = f.wording ∧ code = f.code
  /-- All other breakage of the engine is an internal error. -/
  broken : ∀ message code,
    Refuses (g.answer (r.provision h) r q s).1 500 "internal_error" message code ↔
      ∃ f cause, g.Resolves (r.provision h) r q s (.error ⟨.fault f, cause⟩) ∧
        (f.isEngine = true ∧ f.isResolution = false ∧ ∀ reason, f ≠ .cancelled reason) ∧
        message = f.wording ∧ code = f.code
  /-- A list that comes back when every instance is meant grants the capability on each. -/
  everywhere : item = .text wildcard → ∀ a, (g.answer (r.provision h) r q s).1 = .ok (.ok a) →
    ∀ i : Value, a.isAuthorized g.resource i g.capability = .ok true
  /-- The engine stays in order. -/
  inOrder : r.InOrder (g.answer (r.provision h) r q s).2

namespace Guard

variable {g : Guard} {item : Value} {x : Option (Except Failure Kept)}
  {v : Except Refusal AnyAcl} {o : Except Failure (Except Refusal AnyAcl)} {message code : Value}

namespace Verdict

/-- A list comes back exactly if it was found and grants what is required. -/
theorem granted_iff (h : g.Verdict item x v) (ho : o = .ok v) (a : AnyAcl) : o = .ok (.ok a) ↔
    x = some (.ok (.acl a)) ∧ a.isAuthorized g.resource item g.capability = .ok true := by
  subst ho
  cases h with
  | granted grants =>
    simp only [Except.ok.injEq, Option.some.injEq, Kept.acl.injEq]
    exact ⟨fun h => ⟨h, h ▸ grants⟩, And.left⟩
  | denied denies =>
    simp only [Except.ok.injEq, Option.some.injEq, Kept.acl.injEq, reduceCtorEq, false_iff]
    rintro ⟨rfl, hgrants⟩
    simp [denies] at hgrants
  | _ => simp

/-- The secret is missing exactly if nothing was found. -/
theorem noSecret_iff (h : g.Verdict item x v) :
    Refuses (.ok v) 401 "authentication_required" message code ↔
      x = none ∧ message = .text "No bearer secret provided" ∧ code = .text "missing_token" := by
  cases h <;> simp [Refuses, Refusal.status, Refusal.detail, eq_comm]

/-- It is a denial exactly if the list that was found does not grant what is required. -/
theorem denied_iff (h : g.Verdict item x v) :
    Refuses (.ok v) 403 "forbidden" message code ↔ ∃ a, x = some (.ok (.acl a)) ∧
      a.isAuthorized g.resource item g.capability = .ok false ∧
      message = (Fault.notAuthorized g.resource item g.capability).wording ∧
      code = .text "not_authorized" := by
  cases h with
  | granted grants =>
    refine ⟨fun h => absurd h not_refuses_ok, ?_⟩
    rintro ⟨a, ha, hdenies, -⟩
    obtain rfl := Kept.acl.inj (Except.ok.inj (Option.some.inj ha))
    simp [grants] at hdenies
  | denied denies => simp [Refuses, Refusal.status, Refusal.detail, Fault.code, denies, eq_comm]
  | _ => simp [Refuses, Refusal.status, Refusal.detail]

/-- **Faults are refused by their kind,** with their own message and code: those of `P` are the ones
that are refused with a status and an error. -/
theorem failed_iff (h : g.Verdict item x v) {P : Fault → Prop} {status : Nat} {error : Text}
    (hmissing : error ≠ "authentication_required") (hdenied : error ≠ "forbidden")
    (hcancelled : ∀ reason, P (.cancelled reason) ↔ 503 = status ∧ "unavailable" = error)
    (hresolution : ∀ f : Fault, f.isResolution = true →
      (P f ↔ 401 = status ∧ "authentication_failed" = error))
    (hother : ∀ f : Fault, f.isEngine = true → f.isResolution = false →
      (∀ reason, f ≠ .cancelled reason) → (P f ↔ 500 = status ∧ "internal_error" = error)) :
    Refuses (.ok v) status error message code ↔ ∃ f cause, x = some (.error ⟨.fault f, cause⟩) ∧
      P f ∧ message = f.wording ∧ code = f.code := by
  -- one fault, which is refused with a status and an error of its own
  have hfault : ∀ {f : Fault} {cause : Option Problem} {y : Refusal} {name : Text},
      y.detail = [(("error" : Text), .text name), ("message", f.wording), ("code", f.code)] →
      (P f ↔ y.status = status ∧ name = error) →
      (Refuses (.ok (.error y)) status error message code ↔ ∃ f' cause',
        some (.error ⟨.fault f, cause⟩ : Except Failure Kept) = some (.error ⟨.fault f', cause'⟩) ∧
          P f' ∧ message = f'.wording ∧ code = f'.code) := by
    intro f cause y name hy hP
    rw [refuses_fault hy, ← and_assoc, ← hP]
    constructor
    · exact fun hf => ⟨f, cause, rfl, hf⟩
    · rintro ⟨f, cause, ⟨rfl, rfl⟩, hf⟩
      exact hf
  cases h with
  | noSecret => simp [Refuses, Refusal.detail, hmissing.symm]
  | granted => simp [not_refuses_ok]
  | denied => simp [Refuses, Refusal.detail, hdenied.symm]
  | unavailable => exact hfault rfl (hcancelled _)
  | unresolved isResolution => exact hfault rfl (hresolution _ isResolution)
  | broken isEngine notResolution notCancelled =>
    exact hfault rfl (hother _ isEngine notResolution notCancelled)

/-- The service is unavailable exactly if the resolution was cancelled. -/
theorem unavailable_iff (h : g.Verdict item x v) :
    Refuses (.ok v) 503 "unavailable" message code ↔ ∃ f cause,
      x = some (.error ⟨.fault f, cause⟩) ∧ (∃ reason, f = .cancelled reason) ∧
        message = f.wording ∧ code = f.code := by
  refine h.failed_iff (by decide) (by decide) (fun reason => by simp) ?_ ?_
  · rintro f hresolution
    simp only [Nat.reduceEqDiff, false_and, iff_false]
    rintro ⟨reason, rfl⟩
    cases hresolution
  · rintro f - - hnot
    simpa using hnot

/-- The secret is not accepted exactly if a lookup of the host failed. -/
theorem unresolved_iff (h : g.Verdict item x v) :
    Refuses (.ok v) 401 "authentication_failed" message code ↔ ∃ f cause,
      x = some (.error ⟨.fault f, cause⟩) ∧ f.isResolution = true ∧ message = f.wording ∧
        code = f.code := by
  refine h.failed_iff (P := fun f => f.isResolution = true) (by decide) (by decide)
    (fun reason => by simp [Fault.isResolution, Fault.family]) ?_ ?_
  · rintro f hresolution
    simp [hresolution]
  · rintro f - hnot -
    simp [hnot]

/-- There is an internal error exactly if something else is broken. -/
theorem broken_iff (h : g.Verdict item x v) :
    Refuses (.ok v) 500 "internal_error" message code ↔ ∃ f cause,
      x = some (.error ⟨.fault f, cause⟩) ∧ (f.isEngine = true ∧ f.isResolution = false ∧
        ∀ reason, f ≠ .cancelled reason) ∧ message = f.wording ∧ code = f.code := by
  refine h.failed_iff (by decide) (by decide) (fun reason => by simp) ?_ ?_
  · rintro f hresolution
    simp [hresolution]
  · rintro f hengine hnot hcancelled
    simpa [hengine, hnot] using hcancelled

end Verdict

/-- A host whose tokens name one policy, which has no rules. -/
def warden : Host Unit where
  token _ _ s := (.ok (.token ⟨["readers"], none, ""⟩), s)
  policy _ _ s := (.ok (.policy ⟨"readers", [], .text "1"⟩), s)

/-- A request for a shelf with a number. -/
def knock : Request := ⟨some "Bearer \tkey ", [("shelf", .int 7)]⟩

end Guard

end Web

end Gatehouse
