import Gatehouse.Fault.Basic
import Gatehouse.Value.Normal

/-!
# Contexts of resolutions

A context carries the caller's wish to stop: it can be cancelled, with a reason or without one, and
it may have a deadline.  Contexts form a forest.  A child never outlives its parent's deadline, and
cancelling a context cancels everything below it, as far as the links between them still exist: a
context that nobody holds any more is released (`ContextForest.release`), and what was below it is
then a root of its own.

A context reads either the engine's clock or the machine's.  Every function takes the reading that
matters as an argument.
-/

namespace Gatehouse

/-- The number of a context; later contexts have greater numbers. -/
abbrev ContextId := Nat

/-- Which clock a context reads. -/
inductive TimeSource where
  /-- The clock that the engine's caches read. -/
  | engine
  /-- The clock of the machine. -/
  | machine
deriving DecidableEq

/-- The wish of a caller to stop. -/
structure Context where
  /-- Its number. -/
  id : ContextId
  /-- The context above it, while the link exists. -/
  parent : Option ContextId
  /-- The clock it reads. -/
  source : TimeSource
  /-- When it expires, if it does. -/
  deadline : Option Float
  /-- Whether it was cancelled. -/
  isStopped : Bool
  /-- The first reason for which it was cancelled, if one was given. -/
  givenReason : Option Value
deriving DecidableEq

namespace Context

/-- The reason of a context that expired, or that was cancelled without a reason. -/
def deadlineExceeded : Text := "deadline exceeded"

/-- The reason that stands for one that counts as nothing. -/
def unspecified : Text := "cancelled"

/-- Whether the deadline has passed. -/
def isExpired (c : Context) (now : Float) : Bool :=
  match c.deadline with
  | none => false
  | some t => decide (t ≤ now)

/-- Whether the context was cancelled or has expired. -/
def isCancelled (c : Context) (now : Float) : Bool := c.isStopped || c.isExpired now

/-- Why the context is cancelled, if it is. -/
def reason (c : Context) (now : Float) : Option Value :=
  match c.givenReason with
  | some r => some r
  | none => if c.isCancelled now then some deadlineExceeded else none

/-- The fault of going on under a cancelled context.  An empty reason is no reason. -/
def check (c : Context) (now : Float) : Except Fault Unit :=
  if c.isCancelled now then
    .error (.cancelled (match c.reason now with
      | none => unspecified
      | some r => if r.isVacant then unspecified else r))
  else .ok ()

/-- The time left before the deadline, if there is one. -/
def remaining (c : Context) (now : Float) : Option Float :=
  c.deadline.map fun t => if 0.0 < t - now then t - now else 0.0

/-- A context in one line. -/
def summary (c : Context) (now : Float) : Text :=
  "ResolveContext(" ++ (if c.isCancelled now then
    "cancelled: " ++ ((c.reason now).getD .null).display
    else "active") ++ ")"

/-- The context as if it had not been given a reason. -/
def withoutReason (c : Context) : Context := { c with givenReason := none }

/-- The context without a deadline. -/
def withoutDeadline (c : Context) : Context := { c with deadline := none }

end Context

/-- The contexts that are held, in order of creation, so that every context stands before those
below it. -/
structure ContextForest where
  /-- The contexts in order of creation. -/
  contexts : List Context
  /-- The number of the next context. -/
  next : ContextId
deriving DecidableEq

namespace ContextForest

/-- The forest without contexts. -/
def empty : ContextForest := ⟨[], 0⟩

instance : Inhabited ContextForest := ⟨empty⟩

/-- The context of a number. -/
def find? (f : ContextForest) (id : ContextId) : Option Context :=
  f.contexts.find? fun c => c.id == id

/-- The earlier of two deadlines, as far as they exist. -/
def earlier (own above : Option Float) : Option Float :=
  match own, above with
  | d, none => d
  | none, d => d
  | some d, some e => some (if e < d then e else d)

/-- Makes a context: it expires after `timeout` from now or with its parent, and begins cancelled if
its parent was cancelled for a reason. -/
def create (f : ContextForest) (source : TimeSource) (parent : Option ContextId)
    (timeout : Option Float) (now : Float) : ContextForest × ContextId :=
  let above := parent.bind f.find?
  let c : Context :=
    { id := f.next
      parent := above.map (·.id)
      source := source
      deadline := earlier (timeout.map (now + ·)) (above.bind (·.deadline))
      isStopped := (above.bind (·.givenReason)).isSome
      givenReason := above.bind (·.givenReason) }
  (⟨f.contexts ++ [c], f.next + 1⟩, f.next)

/-- The numbers of `reached` and of all contexts below them, where parents come first. -/
def below (reached : List ContextId) : List Context → List ContextId
  | [] => reached
  | c :: rest =>
    if c.parent.any reached.contains then below (c.id :: reached) rest else below reached rest

/-- A context cancelled.  An earlier reason stays. -/
def stopped (reason : Option Value) (c : Context) : Context :=
  { c with isStopped := true, givenReason := c.givenReason.or reason }

/-- Changes one context. -/
def update (f : ContextForest) (id : ContextId) (g : Context → Context) : ContextForest :=
  { f with contexts := f.contexts.map fun c => if c.id = id then g c else c }

/-- Cancels a context and everything below it. -/
def cancel (f : ContextForest) (id : ContextId) (reason : Option Value) : ContextForest :=
  let reached := below [id] f.contexts
  { f with contexts := f.contexts.map fun c =>
      if reached.contains c.id then stopped reason c else c }

/-- Releases every context that is not held; the links to what was below it are gone. -/
def release (f : ContextForest) (held : List ContextId) : ContextForest :=
  { f with contexts := (f.contexts.filter fun c => held.contains c.id).map fun c =>
      { c with parent := c.parent.filter held.contains } }

end ContextForest

end Gatehouse
