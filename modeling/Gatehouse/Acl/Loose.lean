import Gatehouse.Acl.Combine
import Gatehouse.Policy.Loose
import Gatehouse.Policy.Reading
import Gatehouse.Problem.Data

/-!
# Access control lists with data of any shape

Compiled policies may carry data of any shape as their names and filters, and a list merged from
such policies carries it on; a list that a host puts together itself may also grant any data.  In a
`LooseAcl` only the names of the resources are sure to be texts.  It is asked about data of any
shape; data that cannot be looked up is a problem as soon as it is looked up.  Sets of data are
lists in which nothing counts as equal to anything else.  Main statement: a list of texts that is
asked as a loose one answers the same (`LooseAcl.isAuthorized_loosen`).
-/

namespace Gatehouse

/-! ### Grants -/

/-- What is granted on one resource. -/
structure LooseGrants where
  /-- Granted on every instance. -/
  everywhere : List Value
  /-- Granted on single instances. -/
  exact : List (Value × List Value)
deriving DecidableEq

/-- Grants of texts on texts. -/
def ResourceGrants.loosen (g : ResourceGrants) : LooseGrants :=
  ⟨g.everywhere.names.map .text, g.exact.entries.map fun e => (.text e.1, e.2.names.map .text)⟩

namespace LooseGrants

/-- No grant. -/
def empty : LooseGrants := ⟨[], []⟩

/-- What is granted on this very instance. -/
def exactly (g : LooseGrants) (item : Value) : List Value :=
  ((g.exact.find? fun e => e.1.same item).map (·.2)).getD []

/-- Adds capabilities on an instance. -/
def addExact (item : Value) (capabilities : List Value) :
    List (Value × List Value) → List (Value × List Value)
  | [] => [(item, capabilities)]
  | (v, found) :: rest =>
    if v.same item then (v, Value.distinct (found ++ capabilities)) :: rest
    else (v, found) :: addExact item capabilities rest

/-- Adds the grant of a rule. -/
def addRule (g : LooseGrants) (r : LooseCompiledRule) : LooseGrants :=
  let found := r.capabilities.names.map .text
  if r.isWildcard then { g with everywhere := Value.distinct (g.everywhere ++ found) }
  else { g with exact := addExact r.filter found g.exact }

/-- Everything that either grants. -/
def union (g h : LooseGrants) : LooseGrants :=
  ⟨Value.distinct (g.everywhere ++ h.everywhere),
    h.exact.foldl (fun found e => addExact e.1 e.2 found) g.exact⟩

/-- The grants with all capabilities in increasing order. -/
def ordered (g : LooseGrants) : Except Problem LooseGrants := do
  let everywhere ← Value.sorted g.everywhere
  let exact ← g.exact.mapM fun e => (Value.sorted e.2).map fun found => (e.1, found)
  return ⟨everywhere, exact⟩

/-- A set of data that a host lists. -/
def listed (v : Option Value) : Except Problem (List Value) := do
  let elements ← (v.getD (.list [])).elements
  let members ← Value.distinctMembers elements
  Value.sorted members

/-- The grants that a host puts together. -/
def ofData (v : Value) : Except Problem LooseGrants := do
  let everywhere ← listed (v.field? "wildcard")
  let exact ← (v.field? "exact").elim (.ok []) fun
    | .object members => members.mapM fun e =>
        (listed (some e.2)).map fun found => (.text e.1, found)
    | w => .error (.lacks w.shapeName "items")
  return ⟨everywhere, exact⟩

/-- The grants of texts on texts, if these are. -/
def strict? (g : LooseGrants) : Option ResourceGrants := do
  let everywhere ← Value.allTexts? g.everywhere
  let exact ← g.exact.mapM fun e => do
    let item ← e.1.text?
    let found ← Value.allTexts? e.2
    return (item, NameSet.ofNames found)
  return ⟨NameSet.ofNames everywhere, NameMap.ofList exact⟩

/-- Whether the same is granted. -/
def same (g h : LooseGrants) : Bool :=
  Value.sameMembers g.everywhere h.everywhere && g.exact.length == h.exact.length &&
    g.exact.all fun e => h.exact.any fun d => e.1.same d.1 && Value.sameMembers e.2 d.2

/-- Grants are the same as themselves. -/
theorem same_self (g : LooseGrants) : g.same g = true := by
  simp only [same, Value.sameMembers_self, beq_self_eq_true, Bool.and_self, Bool.true_and,
    List.all_eq_true, List.any_eq_true]
  exact fun e he => ⟨e, he, by simp [Value.same_self, Value.sameMembers_self]⟩

/-- Whether a capability is granted on an instance.  What is granted on every instance is found
without looking the instance up. -/
def allows (g : LooseGrants) (item capability : Value) : Except Problem Bool := do
  let c ← capability.lookedUp
  if c.among g.everywhere then return true
  else do
    let i ← item.lookedUp
    return c.among (g.exactly i)

/-- What grants of texts give on one instance, read as data. -/
theorem exactly_loosen (g : ResourceGrants) (item : Text) :
    g.loosen.exactly (.text item) = (g.exactly item).names.map .text := by
  simp only [exactly, ResourceGrants.loosen, ResourceGrants.exactly, NameMap.find?]
  induction g.exact.entries with
  | nil => rfl
  | cons e rest ih =>
    obtain ⟨key, found⟩ := e
    simp only [List.map_cons, List.find?_cons, List.lookup_cons]
    have h : Value.same (.text key) (.text item) = (item == key) := by
      rw [Value.same_comm]
      simp [Value.same, Value.normal, BEq.beq]
    rw [h]
    cases item == key
    · exact ih
    · rfl

/-- Grants of texts on texts allow what they allow as such. -/
theorem allows_loosen (g : ResourceGrants) (item capability : Text) :
    g.loosen.allows (.text item) (.text capability) = .ok (g.allows item capability) := by
  have h : Value.among (.text capability) g.loosen.everywhere =
      g.everywhere.contains capability := by
    rw [ResourceGrants.loosen, Value.among_texts, NameMap.contains_eq]
  simp only [allows, Value.lookedUp, Value.unfit?, Value.isNested, ResourceGrants.allows]
  change (if Value.among (.text capability) g.loosen.everywhere = true then Except.ok true else
    Except.ok (Value.among (.text capability) (g.loosen.exactly (.text item)))) = _
  rw [h, exactly_loosen, Value.among_texts, ← NameMap.contains_eq]
  cases g.everywhere.contains capability <;> rfl

/-- Everything granted on an instance. -/
def capabilitiesOn (g : LooseGrants) (item : Value) : Except Problem (List Value) := do
  let i ← item.lookedUp
  Value.sorted (Value.distinct (g.everywhere ++ g.exactly i))

/-- The filters that grant a capability on an instance, the one of every instance first. -/
def matchedFilters (g : LooseGrants) (item capability : Value) : Except Problem (List Value) := do
  let c ← capability.lookedUp
  let i ← item.lookedUp
  return (if c.among g.everywhere then [.text wildcard] else []) ++
    (if c.among (g.exactly i) then [item] else [])

end LooseGrants

/-! ### Lists -/

/-- A list that carries data of any shape. -/
structure LooseAcl where
  /-- The grants by resource. -/
  grants : NameMap LooseGrants
  /-- The names of the policies, in the order in which they came in. -/
  policies : List Value
  /-- The fingerprint of the model; the absent value if there is none. -/
  modelFingerprint : Value
deriving DecidableEq

/-- A list of texts. -/
def Acl.loosen (a : Acl) : LooseAcl :=
  ⟨a.grants.mapValues ResourceGrants.loosen, a.policies.map .text,
    match a.modelFingerprint with | some s => .text s | none => .null⟩

namespace LooseAcl

/-- The list with all capabilities in increasing order. -/
def ordered (a : LooseAcl) : Except Problem LooseAcl := do
  let grants ← a.grants.entries.mapM fun e => e.2.ordered.map fun g => (e.1, g)
  return { a with grants := NameMap.ofList grants }

/-- The list that a host puts together from grants by resource, names of policies, and a
fingerprint, which may be missing. -/
def ofData (grants : List (Text × Value)) (policies : Option Value) (modelFingerprint : Value) :
    Except Problem LooseAcl := do
  let found ← grants.mapM fun e => (LooseGrants.ofData e.2).map fun g => (e.1, g)
  let names ← (policies.getD (.list [])).elements
  return ⟨NameMap.ofList found, names, modelFingerprint⟩

/-- The list of texts, if it is one. -/
def strict? (a : LooseAcl) : Option Acl := do
  let grants ← a.grants.entries.mapM fun e => e.2.strict?.map fun g => (e.1, g)
  let policies ← Value.allTexts? a.policies
  match a.modelFingerprint with
  | .null => some ⟨NameMap.ofList grants, policies, none⟩
  | .text s => some ⟨NameMap.ofList grants, policies, some s⟩
  | _ => none

/-- A list in one line. -/
def summary (a : LooseAcl) : Text :=
  "ACL(resources=" ++ Text.quotedList a.grants.names ++ ", policies=" ++
    (Value.list a.policies).literal ++ ")"

/-- Whether two lists grant the same. -/
def same (a b : LooseAcl) : Bool :=
  a.grants.names == b.grants.names &&
    (a.grants.entries.zip b.grants.entries).all fun e => e.1.2.same e.2.2

/-- Every list grants the same as itself. -/
theorem same_self (a : LooseAcl) : a.same a = true := by
  simp only [same, beq_self_eq_true, Bool.true_and, List.all_eq_true]
  intro e he
  have : e.1 = e.2 := by
    rw [List.mem_iff_getElem] at he
    obtain ⟨i, hi, rfl⟩ := he
    simp
  rw [this, LooseGrants.same_self]

/-! ### Questions -/

/-- The grants on a resource, if there are any. -/
def grantsOn (a : LooseAcl) (resource : Value) : Except Problem (Option LooseGrants) :=
  resource.asName.map fun name => name.bind a.grants.find?

/-- Whether a capability is granted. -/
def isAuthorized (a : LooseAcl) (resource item capability : Value) : Except Problem Bool := do
  match ← a.grantsOn resource with
  | none => return false
  | some g => g.allows item capability

/-- The grants of a list of texts on a resource are there when it is asked as a loose one. -/
theorem grantsOn_loosen (a : Acl) (resource : Text) :
    a.loosen.grantsOn (.text resource) = .ok ((a.grantsOn resource).map ResourceGrants.loosen) := by
  simp only [grantsOn, Value.asName_text, Acl.loosen, Acl.grantsOn]
  rw [← NameMap.find?_mapValues]
  rfl

/-- **A list of texts that is asked as a loose one answers the same.** -/
theorem isAuthorized_loosen (a : Acl) (resource item capability : Text) :
    a.loosen.isAuthorized (.text resource) (.text item) (.text capability) =
      .ok (a.isAuthorized resource item capability) := by
  simp only [isAuthorized, grantsOn_loosen, Acl.isAuthorized]
  cases a.grantsOn resource with
  | none => rfl
  | some g => exact LooseGrants.allows_loosen g item capability

/-- The answer to a question with its explanation; the answer takes texts only. -/
def answered (allowed : Bool) (resource item capability : Value) (reason : Text)
    (matched : List Text) : Except Problem Decision :=
  let field := fun name v => Validation.Checked.under (.field name) (Validation.checkText v)
  (((field "resource" resource).both ((field "instance" item).both
    (field "capability" capability))).entitled "Decision").mapError .invalid |>.map
      fun t => ⟨allowed, t.1, t.2.1, t.2.2, reason, matched⟩

/-- A check with its explanation. -/
def decide (a : LooseAcl) (resource item capability : Value) : Except Problem Decision := do
  match ← a.grantsOn resource with
  | none =>
    answered false resource item capability ("No rule covers resource " ++ resource.literal) []
  | some g => do
    match ← g.matchedFilters item capability with
    | [] =>
      answered false resource item capability
        ("No rule matching instance " ++ item.literal ++ " grants " ++ capability.literal) []
    | matched => do
      let names ← Value.textsFrom 0 matched
      answered true resource item capability
        ("Granted by filter(s): " ++ Text.intercalate ", " names) names

/-- Everything granted on an instance of a resource. -/
def capabilities (a : LooseAcl) (resource item : Value) : Except Problem (List Value) := do
  match ← a.grantsOn resource with
  | none => return []
  | some g => g.capabilitiesOn item

/-! ### Combinations -/

/-- Adds the rules of a compiled policy. -/
def addPolicy (grants : NameMap LooseGrants) (p : AnyCompiled) : NameMap LooseGrants :=
  p.rules.entries.foldl (fun m e =>
    m.insert e.1 (e.2.foldl LooseGrants.addRule ((m.find? e.1).getD .empty))) grants

/-- The fingerprint of a model, or else another one. -/
def orElse (modelFingerprint other : Value) : Value :=
  if modelFingerprint = .null then other else modelFingerprint

/-- The fingerprint of the first policy that has one. -/
def modelOf (policies : List AnyCompiled) : Value :=
  policies.foldl (fun m p => orElse m p.modelFingerprint) .null

/-- The list of compiled policies that can be merged. -/
def ofPolicies (policies : List AnyCompiled) : Except Problem LooseAcl := do
  let names ← Value.distinctMembers (policies.map AnyCompiled.name)
  ordered ⟨policies.foldl addPolicy ∅, names, modelOf policies⟩

/-- How a list is named in a report: by its policies. -/
def label (a : LooseAcl) : Except Problem Text :=
  (Value.joined "," a.policies).map fun (names : Text) => if names = "" then "<acl>" else names

/-- The fingerprint of a combination of two lists; a list without one fits any model. -/
def unionModel (a b : LooseAcl) : Except Problem Value :=
  match a.modelFingerprint, b.modelFingerprint with
  | .null, m => .ok m
  | m, .null => .ok m
  | m, n =>
    if n.same m then .ok m
    else
      match b.label with
      | .ok name => .error (.fault (.modelMismatch name))
      | .error p => .error p

/-- Everything that either list grants. -/
def union (a b : LooseAcl) : Except Problem LooseAcl := do
  let fingerprint ← a.unionModel b
  let names ← Value.distinctMembers (a.policies ++ b.policies)
  ordered ⟨a.grants.unionWith LooseGrants.union b.grants, names, fingerprint⟩

end LooseAcl

end Gatehouse
