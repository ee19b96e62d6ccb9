import Gatehouse.Acl.Basic

/-!
# Combining grants

Rules only ever grant, so combining is a union.  `Acl.merge` puts compiled policies together, rule
by rule; `Acl.union` puts two lists together, resource by resource.  Both refuse to combine grants
of different models.
-/

namespace Gatehouse

namespace ResourceGrants

/-- Adds the grant of a rule. -/
def addRule (g : ResourceGrants) (r : CompiledRule) : ResourceGrants :=
  if r.isWildcard then ⟨g.everywhere ∪ r.capabilities, g.exact⟩
  else ⟨g.everywhere, g.exact.insert r.filter (g.exactly r.filter ∪ r.capabilities)⟩

/-- Everything that either grants. -/
def union (g h : ResourceGrants) : ResourceGrants :=
  ⟨g.everywhere ∪ h.everywhere, g.exact.unionWith (· ∪ ·) h.exact⟩

end ResourceGrants

namespace Acl

/-- Adds the rules of one resource. -/
def addRules (grants : NameMap ResourceGrants) (e : Text × List CompiledRule) :
    NameMap ResourceGrants :=
  grants.insert e.1 (e.2.foldl ResourceGrants.addRule ((grants.find? e.1).getD .empty))

/-- Adds the rules of a compiled policy. -/
def addPolicy (grants : NameMap ResourceGrants) (p : CompiledPolicy) : NameMap ResourceGrants :=
  p.rules.entries.foldl addRules grants

/-- The fingerprint that all policies share; the first policy of another model is reported. -/
def commonModel : List CompiledPolicy → Except Fault (Option Text)
  | [] => .ok none
  | p :: rest =>
    match rest.find? fun q => q.modelFingerprint != p.modelFingerprint with
    | some q => .error (.modelMismatch q.name)
    | none => .ok (some p.modelFingerprint)

/-- Combines compiled policies. -/
def merge (policies : List CompiledPolicy) : Except Fault Acl :=
  match commonModel policies with
  | .error f => .error f
  | .ok fingerprint =>
    .ok ⟨policies.foldl addPolicy ∅, OrderedMap.distinct (policies.map (·.name)), fingerprint⟩

/-- How a list is named in a report: by its policies. -/
def label (a : Acl) : Text :=
  let names := Text.intercalate "," a.policies
  if names = "" then "<acl>" else names

/-- The fingerprint of a combination of two lists; a list without one fits any model. -/
def unionModel (a b : Acl) : Except Fault (Option Text) :=
  match a.modelFingerprint, b.modelFingerprint with
  | none, m => .ok m
  | some m, none => .ok (some m)
  | some m, some n => if m = n then .ok (some m) else .error (.modelMismatch b.label)

/-- Everything that either list grants. -/
def union (a b : Acl) : Except Fault Acl :=
  match a.unionModel b with
  | .error f => .error f
  | .ok fingerprint =>
    .ok ⟨a.grants.unionWith ResourceGrants.union b.grants,
      OrderedMap.distinct (a.policies ++ b.policies), fingerprint⟩

end Acl

end Gatehouse
