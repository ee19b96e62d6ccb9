import Gatehouse.Model.Asked
import Gatehouse.Policy.Loose

/-!
# Policies and tokens as hosts offer them

A host may hand over objects of its own kind.  Such an object passes for a policy if it has a name
and rules, and for a token if it has policies, whatever these are: only looking at them shows
whether they are what they pass for.  So the digest of an `OfferedPolicy` may turn out to be a
problem (`OfferedPolicy.digest`), and so may compiling it (`OfferedPolicy.compile`), which looks at
the rules one by one and finds a fault in an early rule before it finds that a later one is no rule.

An offered policy that consists of texts is a policy like any other (`OfferedPolicy.strict?`), and
so is every checked one (`OfferedPolicy.strict?_ofPolicy`).
-/

namespace Gatehouse

/-- An object of the host's own kind. -/
structure PlainObject where
  /-- Its attributes. -/
  attributes : Value
  /-- Whether its rules are such objects too, rather than mere data. -/
  hasRuleObjects : Bool
deriving DecidableEq

/-- An object with an attribute cleared, which it then has as the absent value. -/
def PlainObject.clearPart (o : PlainObject) (part : Text) : PlainObject :=
  { o with attributes := .object (((o.attributes.members).filter fun e => e.1 != part) ++
      [(part, .null)]) }

/-- The name of the shape of an object of the host's own kind. -/
def PlainObject.shapeName : Text := "types.SimpleNamespace"

/-- A rule as it is offered. -/
structure OfferedRule where
  /-- The name of its shape. -/
  shape : Text
  /-- Its attributes. -/
  attributes : List (Text × Value)

namespace OfferedRule

/-- A checked rule as it is offered. -/
def ofRule (r : Rule) : OfferedRule where
  shape := "Rule"
  attributes :=
    [("resource", .text r.resource), ("instance", .text r.filter),
      ("capabilities", .list (r.capabilities.map .text))]

/-- An object of the host's own kind, or mere data, in the place of a rule. -/
def ofData (isObject : Bool) (v : Value) : OfferedRule :=
  match isObject, v with
  | true, .object members => ⟨PlainObject.shapeName, members⟩
  | _, v => ⟨v.shapeName, []⟩

/-- An attribute of a rule. -/
def attributeOf (r : OfferedRule) (name : Text) : Except Problem Value :=
  match r.attributes.lookup name with
  | some v => .ok v
  | none => .error (.lacks r.shape name)

/-- The resource. -/
def resource (r : OfferedRule) : Except Problem Value := r.attributeOf "resource"

/-- The filter. -/
def filter (r : OfferedRule) : Except Problem Value := r.attributeOf "instance"

/-- The requested data in increasing order. -/
def requested (r : OfferedRule) : Except Problem (List Value) := do
  let capabilities ← r.attributeOf "capabilities"
  let elements ← capabilities.elements
  Value.sorted elements

/-- The rule, if it consists of texts. -/
def strict? (r : OfferedRule) : Option Rule :=
  match r.attributes.lookup ("resource" : Text), r.attributes.lookup ("instance" : Text),
    r.attributes.lookup ("capabilities" : Text) with
  | some (.text resource), some (.text filter), some capabilities =>
    (capabilities.elements?.bind Value.allTexts?).map fun names => ⟨resource, filter, names⟩
  | _, _, _ => none

/-- A checked rule is read as itself. -/
theorem strict?_ofRule (r : Rule) : (ofRule r).strict? = some r := by
  simp [strict?, ofRule, List.lookup_cons, Value.elements?, Value.allTexts?_texts]

/-- A rule as a document. -/
def document (r : OfferedRule) : Except Problem Text.Document := do
  let resource ← r.resource
  let filter ← r.filter
  let requested ← r.requested
  return .array [resource.document, filter.document, .array (requested.map Value.document)]

/-- The fault of a rule in a policy of a name. -/
def faultIn (policy : Value) : Problem → Problem
  | .fault (.unknownResource resource _) => .fault (.unknownResource resource policy)
  | .fault (.unknownCapability resource name _) =>
    .fault (.unknownCapability resource name policy)
  | p => p

/-- A rule with its requested data expanded, and its resource. -/
def compile (m : ValidModel) (policy : Value) (r : OfferedRule) :
    Except Problem (Text × LooseCompiledRule) := do
  let resource ← r.resource
  let (name, d) ← ((Model.validated m).definitionAsked resource).mapError (faultIn policy)
  let requested ← r.requested
  let found ← (d.expandData ((m.expansions.find? name).getD ∅) name requested ∅).mapError
    (faultIn policy)
  let filter ← r.filter
  return (name, ⟨filter, found⟩)

end OfferedRule

/-- A policy as it is offered. -/
structure OfferedPolicy where
  /-- Its name. -/
  name : Value
  /-- Its version; the absent value if there is none. -/
  version : Value
  /-- Its rules, or the problem of going through them. -/
  rules : Except Problem (List OfferedRule)

namespace OfferedPolicy

/-- A checked policy as it is offered. -/
def ofPolicy (p : Policy) : OfferedPolicy :=
  ⟨p.name, p.version, .ok (p.rules.map OfferedRule.ofRule)⟩

/-- The rules that are found by going through an attribute of an object of the host's own kind. -/
def rulesIn (o : PlainObject) (rules : Value) : Except Problem (List OfferedRule) :=
  rules.elements.map (List.map (OfferedRule.ofData o.hasRuleObjects))

/-- The policy that an object of the host's own kind passes for, if it has a name and rules. -/
def ofObject? (o : PlainObject) : Option OfferedPolicy :=
  match o.attributes.field? "name", o.attributes.field? "rules" with
  | some name, some rules => some
    ⟨name, (o.attributes.field? "version").getD .null, rulesIn o rules⟩
  | _, _ => none

/-- The rules that a list consists of, if all of them consist of texts. -/
def allStrict? : List OfferedRule → Option (List Rule)
  | [] => some []
  | r :: rest =>
    match r.strict?, allStrict? rest with
    | some s, some more => some (s :: more)
    | _, _ => none

/-- Checked rules are read as themselves. -/
theorem allStrict?_ofRules (rules : List Rule) :
    allStrict? (rules.map OfferedRule.ofRule) = some rules := by
  induction rules with
  | nil => rfl
  | cons r rest ih => simp [allStrict?, OfferedRule.strict?_ofRule, ih]

/-- A compiled policy as it is offered: it lists the names of resources where a policy lists rules,
so it passes for a policy only if it has none. -/
def ofCompiled (p : AnyCompiled) : OfferedPolicy :=
  ⟨p.name, .null, .ok (p.resources.map fun resource => .ofData false (.text resource))⟩

/-- The policy, if it consists of texts. -/
def strict? (o : OfferedPolicy) : Option Policy :=
  match o.name, o.rules with
  | .text name, .ok rules => (allStrict? rules).map fun rules => ⟨name, rules, o.version⟩
  | _, _ => none

/-- A checked policy consists of texts. -/
theorem strict?_ofPolicy (p : Policy) : (ofPolicy p).strict? = some p := by
  simp [strict?, ofPolicy, allStrict?_ofRules]

/-- The documents of rules, up to the first that is a problem. -/
def ruleDocuments : List OfferedRule → Except Problem (List Text.Document)
  | [] => .ok []
  | r :: rest => do
    let d ← r.document
    let more ← ruleDocuments rest
    return d :: more

/-- The digest of the content. -/
def digest (o : OfferedPolicy) : Except Problem Text :=
  match o.strict? with
  | some p => .ok p.digest
  | none => do
    let rules ← o.rules
    let documents ← ruleDocuments rules
    return Digest.ofText (Text.Document.array [o.name.document, .array documents]).render

/-- The digest of an object of the host's own kind, which may lack what a policy has. -/
def digestOfObject (o : PlainObject) : Except Problem Text :=
  match o.attributes.field? "rules", ofObject? o with
  | none, _ => .error (.lacks PlainObject.shapeName "rules")
  | some _, some offered => offered.digest
  | some rules, none => do
    let found ← rulesIn o rules
    let _ ← ruleDocuments found
    .error (.lacks PlainObject.shapeName "name")

/-- The version under which the compiled form is kept: the host's, or the digest where what the host
supplies counts as nothing. -/
def cacheVersion (o : OfferedPolicy) : Except Problem Value :=
  if o.version.isVacant then o.digest.map .text else .ok o.version

/-- Rules compiled in order, each with its resource, up to the first that is a problem. -/
def compileEach (m : ValidModel) (policy : Value) :
    List OfferedRule → Except Problem (List (Text × LooseCompiledRule))
  | [] => .ok []
  | r :: rest => do
    let c ← r.compile m policy
    let more ← compileEach m policy rest
    return c :: more

/-- Compiles an offered policy against a validated model. -/
def compile (m : ValidModel) (o : OfferedPolicy) : Except Problem AnyCompiled :=
  match o.strict? with
  | some p => (p.compile m).mapError .fault |>.map .strict
  | none => do
    let rules ← o.rules
    let compiled ← compileEach m o.name rules
    return .loose ⟨o.name, m.fingerprint, compiled⟩

/-- A checked policy is digested as it is. -/
theorem digest_ofPolicy (p : Policy) : (ofPolicy p).digest = .ok p.digest := by
  simp [digest, strict?_ofPolicy]

/-- The version of a checked policy is its own. -/
theorem cacheVersion_ofPolicy (p : Policy) : (ofPolicy p).cacheVersion = .ok p.cacheVersion := by
  unfold cacheVersion
  split
  · next h => simp only [ofPolicy] at h; simp [digest_ofPolicy, Except.map, Policy.cacheVersion, h]
  · next h => simp only [ofPolicy] at h ⊢; simp [Policy.cacheVersion, h]

/-- A checked policy is compiled as it is. -/
theorem compile_ofPolicy (m : ValidModel) (p : Policy) :
    (ofPolicy p).compile m = ((p.compile m).mapError .fault).map .strict := by
  simp [compile, strict?_ofPolicy]

end OfferedPolicy

namespace Token

/-- The names of the policies that offered data lists, each once.  They can be anything that a set
can hold. -/
def distinctNames (policies : Value) : Except Problem (List Value) := do
  let names ← policies.elements
  Value.distinctMembers names

end Token

end Gatehouse
