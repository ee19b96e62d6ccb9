import Gatehouse.Value

/-!
# Faults

What the engine reports when something is refused or broken: the negative decision of a check, a
faulty model, a policy that does not fit its model, a collaborator that failed, a resolution that
was cancelled.  A `Fault` is a cause with its data; `Fault.message` and `Fault.code` are its wording
and its stable code.  The data are names, hence texts, wherever the engine reports a fault of its
own; but a host may raise a fault about data of any shape.
-/

namespace Gatehouse

/-- A refusal or a breakage, with what it is about. -/
inductive Fault where
  /-- A fault of no particular kind. -/
  | plain (message code : Value)
  /-- A check that does not grant a capability. -/
  | notAuthorized (resource item capability : Value)
  /-- A breakage of no particular kind. -/
  | engine (message code : Value)
  /-- A resolver was set up with a missing or an unusable part. -/
  | configuration (field reason : Value)
  /-- Policies of different models were combined. -/
  | modelMismatch (policy : Value)
  /-- The caller gave up. -/
  | cancelled (reason : Value)
  /-- A faulty model, of no particular kind. -/
  | model (message code : Value)
  /-- Something that is no name was offered as one. -/
  | invalidName (kind name : Value)
  /-- The model is validated and cannot change. -/
  | modelFrozen
  /-- A resource was defined twice. -/
  | duplicateResource (resource : Value)
  /-- A capability was defined twice. -/
  | duplicateCapability (resource capability : Value)
  /-- An alias was defined twice. -/
  | duplicateAlias (resource aliasName : Value)
  /-- Aliases of a resource refer to each other in a circle. -/
  | aliasCycle (resource : Value) (cycle : List Text)
  /-- An alias refers to a name that the resource does not have. -/
  | undefinedAliasTarget (resource aliasName target : Value)
  /-- An alias hides a capability of the same name. -/
  | shadowedCapability (resource name : Value)
  /-- A policy does not fit its model, in no particular way; the absent value stands for a policy
  that is not known. -/
  | compilation (message code policy : Value)
  /-- A rule is about a resource that the model does not have. -/
  | unknownResource (resource policy : Value)
  /-- A rule requests a name that the resource does not have. -/
  | unknownCapability (resource name policy : Value)
  /-- A lookup of the host failed, of no particular kind. -/
  | resolution (message code : Value)
  /-- The token of a secret could not be had. -/
  | secretResolution (reason : Value)
  /-- A policy could not be had. -/
  | policyResolution (name reason : Value)
deriving DecidableEq

namespace Fault

/-- A wording about a policy, if the policy is known. -/
def aboutPolicy (policy wording : Value) : Value :=
  match policy with
  | .null => wording
  | p => .text ("Policy " ++ p.literal ++ ": " ++ wording.display)

/-- The wording of a fault: a text, unless other data was given as one. -/
def wording : Fault → Value
  | plain m _ | engine m _ | model m _ | resolution m _ => m
  | notAuthorized r i c =>
    .text ("Not authorized: " ++ c.literal ++ " on " ++ r.display ++ "/" ++ i.display)
  | configuration f reason => .text ("Configuration field " ++ f.literal ++ " " ++ reason.display)
  | modelMismatch p => .text ("Policy " ++ p.literal ++ " was compiled against a different model")
  | cancelled reason => .text ("Resolution aborted: " ++ reason.display)
  | invalidName kind name => .text ("Invalid " ++ kind.display ++ " name: " ++ name.literal)
  | modelFrozen => "Model is validated and can no longer be modified"
  | duplicateResource r => .text ("Resource " ++ r.literal ++ " is already defined")
  | duplicateCapability r c =>
    .text ("Capability " ++ c.literal ++ " is already defined on " ++ r.literal)
  | duplicateAlias r a => .text ("Alias " ++ a.literal ++ " is already defined on " ++ r.literal)
  | aliasCycle r cycle =>
    .text ("Alias cycle on " ++ r.literal ++ ": " ++ Text.intercalate " -> " cycle)
  | undefinedAliasTarget r a t =>
    .text ("Alias " ++ a.literal ++ " on " ++ r.literal ++ " references unknown name " ++ t.literal)
  | shadowedCapability r n =>
    .text ("Alias " ++ n.literal ++ " on " ++ r.literal ++ " shadows the capability " ++
      n.literal ++ "; list " ++ n.literal ++ " among its targets to keep it grantable")
  | compilation m _ p => aboutPolicy p m
  | unknownResource r p => aboutPolicy p (.text ("unknown resource " ++ r.literal))
  | unknownCapability r n p =>
    aboutPolicy p (.text (n.literal ++ " is neither a capability nor an alias of " ++ r.literal))
  | secretResolution reason => .text ("Secret resolution failed: " ++ reason.display)
  | policyResolution n reason =>
    .text ("Policy " ++ n.literal ++ " resolution failed: " ++ reason.display)

/-- The wording of a fault as a text. -/
def message (f : Fault) : Text := f.wording.display

/-- The stable code of a fault: a text, unless other data was given as one. -/
def code : Fault → Value
  | plain _ c | engine _ c | model _ c | resolution _ c | compilation _ c _ => c
  | notAuthorized .. => "not_authorized"
  | configuration .. => "configuration_error"
  | modelMismatch .. => "model_mismatch"
  | cancelled .. => "cancelled"
  | invalidName .. => "invalid_name"
  | modelFrozen => "model_frozen"
  | duplicateResource .. => "duplicate_resource"
  | duplicateCapability .. => "duplicate_capability"
  | duplicateAlias .. => "duplicate_alias"
  | aliasCycle .. => "alias_cycle"
  | undefinedAliasTarget .. => "undefined_alias_target"
  | shadowedCapability .. => "shadowed_capability"
  | unknownResource .. => "unknown_resource"
  | unknownCapability .. => "unknown_capability"
  | secretResolution .. => "secret_resolution_failed"
  | policyResolution .. => "policy_resolution_failed"

/-- What a fault is about, beside its wording and its code. -/
def fields : Fault → List (Text × Value)
  | plain .. | engine .. | model .. | resolution .. | modelFrozen | secretResolution .. => []
  | notAuthorized r i c => [("resource", r), ("instance", i), ("capability", c)]
  | configuration f _ => [("field", f)]
  | modelMismatch p => [("policy", p)]
  | cancelled reason => [("reason", reason)]
  | invalidName kind name => [("kind", kind), ("name", name)]
  | duplicateResource r => [("resource", r)]
  | duplicateCapability r c => [("resource", r), ("capability", c)]
  | duplicateAlias r a => [("resource", r), ("alias", a)]
  | aliasCycle r cycle => [("resource", r), ("cycle", .list (cycle.map .text))]
  | undefinedAliasTarget r a t => [("resource", r), ("alias", a), ("target", t)]
  | shadowedCapability r n => [("resource", r), ("name", n)]
  | compilation _ _ p => [("policy", p)]
  | unknownResource r p => [("resource", r), ("policy", p)]
  | unknownCapability r n p => [("resource", r), ("name", n), ("policy", p)]
  | policyResolution n _ => [("name", n)]

end Fault

end Gatehouse
