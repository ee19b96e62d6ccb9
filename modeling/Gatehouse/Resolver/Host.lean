import Gatehouse.Engine.State
import Gatehouse.Policy.Offered

/-!
# The host's collaborators

A host looks up the token of a secret and the policy of a name.  A collaborator gets the context of
the resolution, may do anything to the engine that the engine offers, and then answers or raises a
problem.  What it answers need not be what was asked for: an object of the host's own kind is taken
for a token or a policy if it has the attributes of one.  What it is asked for is a text, unless a
token names something else as a policy.
-/

namespace Gatehouse

/-- What a collaborator hands over. -/
inductive Answer where
  /-- Nothing was found. -/
  | nothing
  /-- A token. -/
  | token (t : Token)
  /-- A policy. -/
  | policy (p : Policy)
  /-- An object of the host's own kind. -/
  | object (o : PlainObject)
  /-- Something else. -/
  | other (v : Value)
deriving DecidableEq

namespace Answer

/-- The name of the kind of an answer. -/
def kindName : Answer → Text
  | nothing => "NoneType"
  | token _ => "Token"
  | policy _ => "Policy"
  | object _ => "SimpleNamespace"
  | other v => v.shapeName

/-- What an answer lists as policies, if it passes for a token. -/
def policies? : Answer → Option Value
  | token t => some (.list (t.policies.map .text))
  | object o => o.attributes.field? "policies"
  | _ => none

/-- The policy that an answer passes for. -/
def policy? : Answer → Option OfferedPolicy
  | policy p => some (.ofPolicy p)
  | object o => OfferedPolicy.ofObject? o
  | _ => none

end Answer

/-- A collaborator: it gets a context and a secret or a name. -/
abbrev Lookup (η : Type) := ContextId → Value → Engine η → Except Problem Answer × Engine η

/-- The collaborators of a host with state `η`. -/
structure Host (η : Type) where
  /-- Looks up the token of a secret. -/
  token : Lookup η
  /-- Looks up the policy of a name. -/
  policy : Lookup η

end Gatehouse
