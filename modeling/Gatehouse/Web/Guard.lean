import Gatehouse.Resolver.Resolution
import Gatehouse.Web.Bearer

/-!
# Guarding requests

A guard lets a request through if its bearer secret resolves to a list that grants one capability on
one instance: the path parameter that it names, or every instance.  Otherwise the request is refused
with a status that tells a missing secret, a denial, a caller who gave up, a failed lookup and
breakage apart.  It fails closed: nothing but a granting list lets a request through.
-/

namespace Gatehouse.Web

/-- What is required of a request. -/
structure Guard where
  /-- The resource. -/
  resource : Value
  /-- The capability. -/
  capability : Value
  /-- The path parameter that holds the instance; every instance is meant if this counts as
  nothing. -/
  itemParameter : Value
  /-- How long the resolution may take, in seconds. -/
  timeout : Option Float
deriving DecidableEq

/-- What a guard looks at in a request.  The value of a header comes in as bytes, each of which is read
as a character, so it holds no surrogates. -/
structure Request where
  /-- The value of the authorization header. -/
  authorization : Option String
  /-- The path parameters. -/
  pathParameters : List (Text × Value)
deriving DecidableEq

/-- The secret of a request. -/
def Request.secret? (r : Request) : Option Text := bearerSecret (r.authorization.getD "" : String)

/-- Why a request is refused. -/
inductive Refusal where
  /-- There is no secret. -/
  | noSecret
  /-- The capability is not granted. -/
  | denied (f : Fault) (resource capability : Value)
  /-- The caller gave up, or the time was over. -/
  | unavailable (f : Fault)
  /-- The secret or a policy could not be had. -/
  | unresolved (f : Fault)
  /-- Something is broken. -/
  | broken (f : Fault)
deriving DecidableEq

namespace Refusal

/-- The status of a refusal. -/
def status : Refusal → Nat
  | noSecret | unresolved _ => 401
  | denied .. => 403
  | unavailable _ => 503
  | broken _ => 500

/-- The body of a refusal. -/
def detail : Refusal → List (Text × Value)
  | noSecret =>
    [("error", "authentication_required"), ("message", "No bearer secret provided"),
      ("code", "missing_token")]
  | denied f r c =>
    [("error", "forbidden"), ("message", f.wording), ("code", f.code), ("resource", r),
      ("capability", c)]
  | unavailable f => [("error", "unavailable"), ("message", f.wording), ("code", f.code)]
  | unresolved f => [("error", "authentication_failed"), ("message", f.wording), ("code", f.code)]
  | broken f => [("error", "internal_error"), ("message", f.wording), ("code", f.code)]

/-- The headers of a refusal: a caller without a usable secret is told how to present one. -/
def headers : Refusal → Option (List (Text × Text))
  | noSecret | unresolved _ => some [("WWW-Authenticate", "Bearer")]
  | _ => none

end Refusal

namespace Guard

/-- The refusal for a fault. -/
def refusal? (g : Guard) : Fault → Option Refusal
  | .notAuthorized r i c => some (.denied (.notAuthorized r i c) g.resource g.capability)
  | .cancelled reason => some (.unavailable (.cancelled reason))
  | f =>
    if f.isResolution then some (.unresolved f)
    else if f.isEngine then some (.broken f)
    else none

/-- The instance that a request is about.  Only a text is the name of a path parameter, and a
sequence or a record cannot even be looked up. -/
def item (g : Guard) (r : Request) : Except Problem Value :=
  if g.itemParameter.isVacant then .ok wildcard
  else g.itemParameter.asName.map fun name =>
    (name.bind fun p => r.pathParameters.lookup p).getD wildcard

/-- The list of a secret, if it grants what is required on an instance. -/
def authorize {η : Type} (w : Provision η) (resolver : Resolver) (g : Guard) (item : Value)
    (secret : Text) : Action η AnyAcl := do
  let ctx ← Engine.newContext .machine none g.timeout
  let kept ← Resolver.resolveSecret w resolver (.text secret) (some ctx)
  let acl ← .ofProblem (kept.asAcl "check_authorized")
  .ofProblem (acl.checkAuthorized g.resource item g.capability)
  return acl

/-- Lets a request with a secret through with its list, or refuses it. -/
def letThrough {η : Type} (w : Provision η) (resolver : Resolver) (g : Guard) (item : Value)
    (secret : Text) : Action η (Except Refusal AnyAcl) := fun s =>
  match authorize w resolver g item secret s with
  | (.ok acl, s) => (.ok (.ok acl), s)
  | (.error ⟨.fault f, cause⟩, s) =>
    match g.refusal? f with
    | some refusal => (.ok (.error refusal), s)
    | none => (.error ⟨.fault f, cause⟩, s)
  | (.error e, s) => (.error e, s)

/-- Lets a request through with its list, or refuses it. -/
def answer {η : Type} (w : Provision η) (resolver : Resolver) (g : Guard) (r : Request) :
    Action η (Except Refusal AnyAcl) :=
  match r.secret? with
  | none => .done (.error .noSecret)
  | some secret => do
    let item ← .ofProblem (g.item r)
    g.letThrough w resolver item secret

end Guard

end Gatehouse.Web
