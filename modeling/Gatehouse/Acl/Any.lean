import Gatehouse.Acl.Loose

/-!
# Access control lists of either sort

`AnyAcl` is a list of texts, which is an `Acl`, or a list that carries other data.  A list of texts
that is asked about texts answers as an `Acl` does (`AnyAcl.isAuthorized_strict`,
`AnyAcl.decide_strict`), and such lists and policies are combined as such (`AnyAcl.merge_strict`,
`AnyAcl.union_strict`).
-/

namespace Gatehouse

/-- An access control list. -/
inductive AnyAcl where
  /-- It holds texts only. -/
  | strict (a : Acl)
  /-- It may hold other data. -/
  | loose (a : LooseAcl)
deriving DecidableEq

namespace AnyAcl

/-- The list as one that may hold any data. -/
def loosen : AnyAcl → LooseAcl
  | strict a => a.loosen
  | loose a => a

/-- A list as one of texts, if it is one. -/
def ofLoose (a : LooseAcl) : AnyAcl :=
  match a.strict? with
  | some b => strict b
  | none => loose a

/-- The list that a host puts together. -/
def ofData (grants : List (Text × Value)) (policies : Option Value) (modelFingerprint : Value) :
    Except Problem AnyAcl :=
  (LooseAcl.ofData grants policies modelFingerprint).map ofLoose

/-- A list in one line. -/
def summary : AnyAcl → Text
  | strict a => a.summary
  | loose a => a.summary

/-- Whether two lists grant the same. -/
def same : AnyAcl → AnyAcl → Bool
  | strict a, strict b => Decidable.decide (a.grants = b.grants)
  | a, b => a.loosen.same b.loosen

/-- Every list grants the same as itself. -/
theorem same_self (a : AnyAcl) : a.same a = true := by
  cases a <;> simp [same, LooseAcl.same_self]

/-! ### Questions -/

/-- Whether a capability is granted. -/
def isAuthorized (a : AnyAcl) (resource item capability : Value) : Except Problem Bool :=
  match a, resource, item, capability with
  | strict a, .text r, .text i, .text c => .ok (a.isAuthorized r i c)
  | a, r, i, c => a.loosen.isAuthorized r i c

/-- A list of texts is asked about texts as such. -/
theorem isAuthorized_strict (a : Acl) (resource item capability : Text) :
    (strict a).isAuthorized resource item capability =
      .ok (a.isAuthorized resource item capability) := rfl

/-- A check that is a fault where the capability is not granted. -/
def checkAuthorized (a : AnyAcl) (resource item capability : Value) : Except Problem Unit := do
  if ← a.isAuthorized resource item capability then return ()
  else .error (.fault (.notAuthorized resource item capability))

/-- A check with its explanation. -/
def decide (a : AnyAcl) (resource item capability : Value) : Except Problem Decision :=
  match a, resource, item, capability with
  | strict a, .text r, .text i, .text c => .ok (a.decide r i c)
  | a, r, i, c => a.loosen.decide r i c

/-- A list of texts explains its answers about texts as such. -/
theorem decide_strict (a : Acl) (resource item capability : Text) :
    (strict a).decide resource item capability = .ok (a.decide resource item capability) := rfl

/-- Everything granted on an instance of a resource, in increasing order. -/
def capabilities (a : AnyAcl) (resource item : Value) : Except Problem (List Value) :=
  match a, resource, item with
  | strict a, .text r, .text i => .ok ((a.capabilities r i).names.map .text)
  | a, r, i => a.loosen.capabilities r i

/-- The grants on a resource, if there are any. -/
def grantsOn (a : AnyAcl) (resource : Value) : Except Problem (Option LooseGrants) :=
  a.loosen.grantsOn resource

/-- The granted questions of a list. -/
def granted (a : AnyAcl) :
    List (Value × Value × Value) → Except Problem (List (Value × Value × Value))
  | [] => .ok []
  | q :: rest => do
    let allowed ← a.isAuthorized q.1 q.2.1 q.2.2
    let more ← granted a rest
    return if allowed then q :: more else more

/-- The granted triples among the given resources, instances and capabilities. -/
def matrix (a : AnyAcl) (resources items capabilities : List Value) :
    Except Problem (List (Value × Value × Value)) :=
  a.granted (resources.flatMap fun r => items.flatMap fun i =>
    capabilities.map fun c => (r, i, c))

/-! ### Combinations -/

/-- The problem of merging a compiled policy into a list of a model; a list that has no model yet
takes any. -/
def refusal? (modelFingerprint : Value) (p : AnyCompiled) : Option Problem :=
  if modelFingerprint != .null && p.modelFingerprint != modelFingerprint then
    some (.fault (.modelMismatch p.name))
  else
    match p with
    | .strict _ => none
    | .loose p => p.gathered.findSome? fun r => r.filter.unfit?

/-- The problem of merging compiled policies into a list of a model, one after the other. -/
def refusalFrom? (modelFingerprint : Value) : List AnyCompiled → Option Problem
  | [] => none
  | p :: rest => (refusal? modelFingerprint p).or
      (refusalFrom? (LooseAcl.orElse modelFingerprint p.modelFingerprint) rest)

/-- The problem of merging compiled policies one after the other. -/
def firstRefusal? (policies : List AnyCompiled) : Option Problem := refusalFrom? .null policies

/-- The problem of merging compiled policies with something behind them that is none: theirs, if
there is one, or else that of the other thing. -/
def refusalBefore (policies : List AnyCompiled) (other : Problem) : Problem :=
  (firstRefusal? policies).getD other

/-- Combines compiled policies. -/
def merge (policies : List AnyCompiled) : Except Problem AnyAcl :=
  match AnyCompiled.allStrict? policies with
  | some strictOnes => ((Acl.merge strictOnes).mapError .fault).map strict
  | none =>
    match firstRefusal? policies with
    | some p => .error p
    | none => (LooseAcl.ofPolicies policies).map loose

/-- Policies of texts are merged as such. -/
theorem merge_strict (policies : List CompiledPolicy) :
    merge (policies.map .strict) = ((Acl.merge policies).mapError .fault).map strict := by
  simp [merge, AnyCompiled.allStrict?_map_strict]

/-- Everything that either list grants. -/
def union (a b : AnyAcl) : Except Problem AnyAcl :=
  match a, b with
  | strict a, strict b => ((a.union b).mapError .fault).map strict
  | a, b => (a.loosen.union b.loosen).map ofLoose

/-- Lists of texts are combined as such. -/
theorem union_strict (a b : Acl) :
    (strict a).union (strict b) = ((a.union b).mapError .fault).map strict := rfl

end AnyAcl

end Gatehouse
