import Gatehouse.Fault.Basic
import Gatehouse.Policy.Compiled

/-!
# Access control lists

An access control list holds, for each resource, what is granted on every instance and what is
granted on single instances.  A check is two look-ups.  It can be asked in four ways: as a truth
value, as a fault, with an explanation, or for all capabilities at once.
-/

namespace Gatehouse

/-- What is granted on one resource. -/
structure ResourceGrants where
  /-- Granted on every instance. -/
  everywhere : NameSet
  /-- Granted on single instances. -/
  exact : NameMap NameSet
deriving DecidableEq

namespace ResourceGrants

/-- No grant. -/
def empty : ResourceGrants := ⟨∅, ∅⟩

/-- What is granted on this very instance. -/
def exactly (g : ResourceGrants) (item : Text) : NameSet := (g.exact.find? item).getD ∅

/-- Whether a capability is granted on an instance. -/
def allows (g : ResourceGrants) (item capability : Text) : Bool :=
  g.everywhere.contains capability || (g.exactly item).contains capability

/-- Everything granted on an instance. -/
def capabilitiesOn (g : ResourceGrants) (item : Text) : NameSet :=
  g.everywhere ∪ g.exactly item

/-- The filters that grant a capability on an instance, the one of every instance first. -/
def matchedFilters (g : ResourceGrants) (item capability : Text) : List Text :=
  (if g.everywhere.contains capability then [wildcard] else []) ++
    (if (g.exactly item).contains capability then [item] else [])

end ResourceGrants

/-- The grants of several policies together. -/
structure Acl where
  /-- The grants by resource. -/
  grants : NameMap ResourceGrants
  /-- The names of the policies, in the order in which they came in. -/
  policies : List Text
  /-- The fingerprint of the model, if there was a policy. -/
  modelFingerprint : Option Text
deriving DecidableEq

/-- The answer to a check, with its explanation. -/
structure Decision where
  /-- Whether the capability is granted. -/
  allowed : Bool
  /-- The resource asked about. -/
  resource : Text
  /-- The instance asked about. -/
  item : Text
  /-- The capability asked for. -/
  capability : Text
  /-- Why. -/
  reason : Text
  /-- The filters that grant it. -/
  matchedFilters : List Text
deriving DecidableEq

namespace Acl

/-- The list that denies everything. -/
def empty : Acl := ⟨∅, [], none⟩

/-- The grants on a resource. -/
def grantsOn (a : Acl) (resource : Text) : Option ResourceGrants := a.grants.find? resource

/-- Whether a capability is granted.  The capability is taken literally. -/
def isAuthorized (a : Acl) (resource item capability : Text) : Bool :=
  match a.grantsOn resource with
  | none => false
  | some g => g.allows item capability

/-- A check that is a fault where the capability is not granted. -/
def checkAuthorized (a : Acl) (resource item capability : Text) : Except Fault Unit :=
  if a.isAuthorized resource item capability then .ok ()
  else .error (.notAuthorized resource item capability)

/-- A check with its explanation. -/
def decide (a : Acl) (resource item capability : Text) : Decision :=
  match a.grantsOn resource with
  | none =>
    ⟨false, resource, item, capability, "No rule covers resource " ++ Text.quoted resource, []⟩
  | some g =>
    match g.matchedFilters item capability with
    | [] =>
      ⟨false, resource, item, capability,
        "No rule matching instance " ++ Text.quoted item ++ " grants " ++ Text.quoted capability,
        []⟩
    | matched =>
      ⟨true, resource, item, capability,
        "Granted by filter(s): " ++ Text.intercalate ", " matched, matched⟩

/-- Everything granted on an instance of a resource. -/
def capabilities (a : Acl) (resource item : Text) : NameSet :=
  match a.grantsOn resource with
  | none => ∅
  | some g => g.capabilitiesOn item

/-- The granted triples among the given resources, instances and capabilities. -/
def matrix (a : Acl) (resources items capabilities : List Text) :
    List (Text × Text × Text) :=
  resources.flatMap fun r => items.flatMap fun i =>
    (capabilities.filter fun c => a.isAuthorized r i c).map fun c => (r, i, c)

/-- An access control list in one line. -/
def summary (a : Acl) : Text :=
  "ACL(resources=" ++ Text.quotedList a.grants.names ++ ", policies=" ++
    Text.quotedList a.policies ++ ")"

end Acl

end Gatehouse
