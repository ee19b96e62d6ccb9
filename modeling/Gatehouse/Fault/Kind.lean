import Gatehouse.Fault.Arguments
import Gatehouse.Fault.Basic

/-!
# Kinds of faults

Faults form a small tree: every fault has a kind, and kinds belong to families (`Fault.ancestors`).
Every fault other than a plain one and a negative decision is an engine fault (`Fault.isEngine`), so
that a host can tell a denial from breakage.  A fault can be built from the name of its kind and its
data (`Fault.ofKind?`), and then is of that kind (`Fault.kind_of_ofKind?`); only a circle of aliases
asks something of the data, which must be names.
-/

namespace Gatehouse

namespace Fault

/-- The families of faults. -/
inductive Family where
  /-- Every fault. -/
  | any
  /-- Breakage, as opposed to a negative decision. -/
  | engine
  /-- Faulty models. -/
  | model
  /-- Policies that do not fit their model. -/
  | compilation
  /-- Failed lookups of the host. -/
  | resolution
deriving DecidableEq

/-- The names of a family and of those that hold it, nearest first. -/
def Family.chain : Family → List String
  | .any => ["AclKitError"]
  | .engine => ["EngineError", "AclKitError"]
  | .model => ["ModelValidationError", "EngineError", "AclKitError"]
  | .compilation => ["PolicyCompilationError", "EngineError", "AclKitError"]
  | .resolution => ["ResolutionError", "EngineError", "AclKitError"]

/-- The family of a fault. -/
def family : Fault → Family
  | plain .. | notAuthorized .. => .any
  | engine .. | configuration .. | modelMismatch .. | cancelled .. => .engine
  | model .. | invalidName .. | modelFrozen | duplicateResource .. | duplicateCapability ..
  | duplicateAlias .. | aliasCycle .. | undefinedAliasTarget .. | shadowedCapability .. => .model
  | compilation .. | unknownResource .. | unknownCapability .. => .compilation
  | resolution .. | secretResolution .. | policyResolution .. => .resolution

/-- The name of a fault below its family, absent for a fault of no particular kind. -/
def ownName : Fault → Option String
  | plain .. | engine .. | model .. | compilation .. | resolution .. => none
  | notAuthorized .. => some "NotAuthorizedError"
  | configuration .. => some "ConfigurationError"
  | modelMismatch .. => some "ModelMismatchError"
  | cancelled .. => some "CancellationError"
  | invalidName .. => some "InvalidNameError"
  | modelFrozen => some "ModelFrozenError"
  | duplicateResource .. => some "DuplicateResourceError"
  | duplicateCapability .. => some "DuplicateCapabilityError"
  | duplicateAlias .. => some "DuplicateAliasError"
  | aliasCycle .. => some "AliasCycleError"
  | undefinedAliasTarget .. => some "UndefinedAliasTargetError"
  | shadowedCapability .. => some "ShadowedCapabilityError"
  | unknownResource .. => some "UnknownResourceError"
  | unknownCapability .. => some "UnknownCapabilityError"
  | secretResolution .. => some "SecretResolutionError"
  | policyResolution .. => some "PolicyResolutionError"

/-- The name of a fault's kind and of the families that hold it, nearest first. -/
def ancestors (f : Fault) : List String := f.ownName.toList ++ f.family.chain

/-- The name of a fault's kind. -/
def kind (f : Fault) : String := f.ancestors.headD ""

/-- Whether a fault is breakage. -/
def isEngine (f : Fault) : Bool := f.family != .any

/-- Whether a fault is a failed lookup of the host. -/
def isResolution (f : Fault) : Bool := f.family == .resolution

/-- Whether a fault is about a faulty model. -/
def isModel (f : Fault) : Bool := f.family == .model

/-! ### Building faults -/

/-- What the faults of a kind are built from.  Families share the signature of the widest one. -/
def signature? (kind : String) : Option Signature :=
  let own := fun (parameters : List (Text × Option Value)) => some ⟨kind, parameters⟩
  let wanted := fun (names : List Text) => names.map fun name => (name, (none : Option Value))
  let resource : Text × Option Value := ("resource", none)
  let policy : Text × Option Value := ("policy", some .null)
  match kind with
  | "AclKitError" | "EngineError" | "ModelValidationError" | "ResolutionError" =>
    some ⟨"AclKitError", [("message", none), ("code", some (.text "aclkit_error"))]⟩
  | "PolicyCompilationError" => own [("message", none), ("code", none), policy]
  | "NotAuthorizedError" => own (wanted ["resource", "instance", "capability"])
  | "ConfigurationError" => own [("field", none), ("reason", some (.text "is required"))]
  | "ModelMismatchError" => own (wanted ["policy"])
  | "CancellationError" => own [("reason", some (.text "cancelled"))]
  | "InvalidNameError" => own (wanted ["kind", "name"])
  | "ModelFrozenError" => own []
  | "DuplicateResourceError" => own [resource]
  | "DuplicateCapabilityError" => own (wanted ["resource", "capability"])
  | "DuplicateAliasError" => own (wanted ["resource", "alias"])
  | "AliasCycleError" => own (wanted ["resource", "cycle"])
  | "UndefinedAliasTargetError" => own (wanted ["resource", "alias", "target"])
  | "ShadowedCapabilityError" => own (wanted ["resource", "name"])
  | "UnknownResourceError" => own [resource, policy]
  | "UnknownCapabilityError" => own [resource, ("name", none), policy]
  | "SecretResolutionError" => own [("reason", some (.text "secret could not be resolved"))]
  | "PolicyResolutionError" =>
    own [("name", none), ("reason", some (.text "policy could not be resolved"))]
  | _ => none

/-- Why no fault can be built from data. -/
inductive Unbuilt where
  /-- The data does not fit what the builder wants. -/
  | misuse (builder : Text) (m : Misuse)
  /-- Data of this shape, which should be names, cannot be gone through. -/
  | noElements (shape : Text)
  /-- At a place among names there is data of this shape. -/
  | noName (place : Nat) (shape : Text)
deriving DecidableEq

/-- The names that data consists of, counted from a place on. -/
def namesOf (place : Nat) : List Value → Except Unbuilt (List Text)
  | [] => .ok []
  | .text s :: rest => (namesOf (place + 1) rest).map (s :: ·)
  | v :: _ => .error (.noName place v.shapeName)

/-- The names that are found by going through data. -/
def namesIn (v : Value) : Except Unbuilt (List Text) :=
  match v.elements? with
  | none => .error (.noElements v.shapeName)
  | some elements => namesOf 0 elements

/-- The fault of a kind with its data by name. -/
def build? (kind : String) (data : List (Text × Value)) : Option (Except Unbuilt Fault) :=
  let value := fun (name : Text) => (data.lookup name).getD .null
  let message := value "message"
  let code := value "code"
  let resource := value "resource"
  let name := value "name"
  let policy := value "policy"
  match kind with
  | "AclKitError" => some (.ok (plain message code))
  | "EngineError" => some (.ok (engine message code))
  | "ModelValidationError" => some (.ok (model message code))
  | "ResolutionError" => some (.ok (resolution message code))
  | "PolicyCompilationError" => some (.ok (compilation message code policy))
  | "NotAuthorizedError" =>
    some (.ok (notAuthorized resource (value "instance") (value "capability")))
  | "ConfigurationError" => some (.ok (configuration (value "field") (value "reason")))
  | "ModelMismatchError" => some (.ok (modelMismatch policy))
  | "CancellationError" => some (.ok (cancelled (value "reason")))
  | "InvalidNameError" => some (.ok (invalidName (value "kind") name))
  | "ModelFrozenError" => some (.ok modelFrozen)
  | "DuplicateResourceError" => some (.ok (duplicateResource resource))
  | "DuplicateCapabilityError" =>
    some (.ok (duplicateCapability resource (value "capability")))
  | "DuplicateAliasError" => some (.ok (duplicateAlias resource (value "alias")))
  | "AliasCycleError" => some ((namesIn (value "cycle")).map (aliasCycle resource))
  | "UndefinedAliasTargetError" =>
    some (.ok (undefinedAliasTarget resource (value "alias") (value "target")))
  | "ShadowedCapabilityError" => some (.ok (shadowedCapability resource name))
  | "UnknownResourceError" => some (.ok (unknownResource resource policy))
  | "UnknownCapabilityError" => some (.ok (unknownCapability resource name policy))
  | "SecretResolutionError" => some (.ok (secretResolution (value "reason")))
  | "PolicyResolutionError" => some (.ok (policyResolution name (value "reason")))
  | _ => none

/-- The fault of a kind, built from its arguments, or why there is none; absent if there is no such
kind. -/
def ofKind? (kind : String) (a : Arguments) : Option (Except Unbuilt Fault) :=
  match signature? kind with
  | none => none
  | some g =>
    match g.bind a with
    | .error m => some (.error (.misuse (g.owner ++ ".__init__") m))
    | .ok data => build? kind data

/-- A fault that is built for a kind is of that kind. -/
theorem kind_of_build? {kind : String} {data : List (Text × Value)} {f : Fault}
    (h : build? kind data = some (.ok f)) : f.kind = kind := by
  unfold build? at h
  dsimp only at h
  split at h
  case h_15 =>
    cases hn : namesIn ((data.lookup ("cycle" : Text)).getD .null) with
    | error e => simp [hn, Except.map] at h
    | ok cycle => simp only [hn, Except.map, Option.some.injEq, Except.ok.injEq] at h; cases h; rfl
  case h_22 => cases h
  all_goals cases h; rfl

/-- A fault built for a kind is of that kind. -/
theorem kind_of_ofKind? {kind : String} {a : Arguments} {f : Fault}
    (h : ofKind? kind a = some (.ok f)) : f.kind = kind := by
  unfold ofKind? at h
  split at h
  · cases h
  · split at h
    · cases h
    · exact kind_of_build? h

/-- Only plain faults and negative decisions are not breakage. -/
theorem isEngine_eq_false_iff {f : Fault} :
    f.isEngine = false ↔ (∃ m c, f = plain m c) ∨ ∃ r i c, f = notAuthorized r i c := by
  cases f <;> simp [isEngine, family]

end Fault

end Gatehouse
