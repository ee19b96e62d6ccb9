import Gatehouse.Session.Basic

/-!
# The stores of a session

The host of a session answers lookups from stored replies.  A lookup is recorded, runs the scripts
of the reply, and then answers or raises what the reply says; a subject without a reply is a problem
of its own.  The scripts and the computations of a session are run by a `Runner`.
-/

namespace Gatehouse

/-- What runs a script of a session and reports on it. -/
abbrev Runner (ε ρ : Type) := ε → Engine (Session ε ρ) → ρ × Engine (Session ε ρ)

namespace Session

variable {ε ρ : Type}

/-- Runs scripts one after the other. -/
def runEach (run : Runner ε ρ) :
    List ε → Engine (Session ε ρ) → List ρ × Engine (Session ε ρ)
  | [], s => ([], s)
  | e :: rest, s =>
    let r := run e s
    let more := runEach run rest r.2
    (r.1 :: more.1, more.2)

/-- The replies of a store. -/
def replies (h : Session ε ρ) : Store → OrderedMap Value (Reply ε)
  | .secrets => h.secrets
  | .policies => h.policies

/-- Changes the replies of a store. -/
def changeReplies (store : Store)
    (f : OrderedMap Value (Reply ε) → OrderedMap Value (Reply ε)) :
    Action (Session ε ρ) Unit :=
  change fun h =>
    match store with
    | .secrets => { h with secrets := f h.secrets }
    | .policies => { h with policies := f h.policies }

/-- Stores a reply. -/
def setReply (store : Store) (subject : Value) (reply : Reply ε) : Action (Session ε ρ) Unit := do
  let v ← .ofProblem subject.lookedUp
  changeReplies store fun m => m.insert v.normal reply

/-- Removes a reply.  In an empty store, the subject is not looked up. -/
def forget (store : Store) (subject : Value) : Action (Session ε ρ) Unit := do
  if ← .read fun s => (replies s.host store).entries.isEmpty then return ()
  else do
    let v ← .ofProblem subject.lookedUp
    changeReplies store fun m => m.erase v.normal

/-- The lookups since they were last asked for, in order. -/
def takeCalls : Action (Session ε ρ) (List (Store × Value)) := .step fun s =>
  (s.host.calls.reverse, { s with host := { s.host with calls := [] } })

/-- Records a lookup. -/
def record (store : Store) (subject : Value) (s : Engine (Session ε ρ)) :
    Engine (Session ε ρ) :=
  { s with host := { s.host with calls := (store, subject) :: s.host.calls } }

/-- The reply of a store about a subject, or the problem that there is none. -/
def reply (h : Session ε ρ) (store : Store) (subject : Value) : Except Problem (Reply ε) :=
  match subject.lookedUp with
  | .error p => .error p
  | .ok v =>
    match (replies h store).find? v.normal with
    | none => .error (store.missing subject)
    | some reply => .ok reply

/-- Answers a lookup. -/
def lookup (run : Runner ε ρ) (store : Store) : Lookup (Session ε ρ) := fun _ subject s =>
  let s := record store subject s
  match reply s.host store subject with
  | .error p => (.error p, s)
  | .ok reply => (reply.ending, (runEach run reply.scripts s).2)

/-- The host of a session. -/
def host (run : Runner ε ρ) : Host (Session ε ρ) := ⟨lookup run .secrets, lookup run .policies⟩

/-- Every lookup is recorded first, whatever comes of it. -/
theorem lookup_eq (run : Runner ε ρ) (store : Store) (ctx : ContextId) (subject : Value)
    (s : Engine (Session ε ρ)) :
    lookup run store ctx subject s =
      match reply s.host store subject with
      | .error p => (.error p, record store subject s)
      | .ok reply => (reply.ending, (runEach run reply.scripts (record store subject s)).2) := by
  cases store <;> rfl

/-! ### Computations -/

/-- A computation that a session offers to a cache. -/
structure Computation (ε : Type) where
  /-- What happens first. -/
  scripts : List ε
  /-- The value, which may be absent, or the problem that is raised. -/
  ending : Except Problem (Option Kept)

/-- Runs a computation and keeps the reports of its scripts. -/
def compute (run : Runner ε ρ) (c : Computation ε) : Action (Session ε ρ) (Option Kept) := fun s =>
  let r := runEach run c.scripts s
  Action.ofProblem c.ending { r.2 with host := { r.2.host with reports := r.1 } }

/-- Asks a cache for a value, to be computed on a miss: the outcome, a missing cache being one too,
and the reports of the scripts as far as they ran. -/
def getOrCompute (run : Runner ε ρ) (name : Text) (key : CacheKey) (c : Computation ε)
    (ttl : Option Float) :
    Action (Session ε ρ) (Except Failure (Option Kept) × List ρ) := do
  change fun h => { h with reports := [] }
  let outcome ← attempt do
    let id ← cache "get_or_compute" name
    Engine.cacheGetOrCompute id key (compute run c) ttl
  let reports ← .read fun s => s.host.reports
  return (outcome, reports)

end Session

end Gatehouse
