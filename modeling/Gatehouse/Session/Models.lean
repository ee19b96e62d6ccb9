import Gatehouse.Model.Asked
import Gatehouse.Model.Outline
import Gatehouse.Policy.Reading
import Gatehouse.Session.Builders

/-!
# Models, policies and lists of a session

The steps that a session makes on the models, policies and access control lists that it keeps.  A
model is one thing: whoever validates it, validates it for all later steps and for its builders.
-/

namespace Gatehouse

namespace Session

variable {ε ρ : Type}

/-! ### Models -/

/-- Keeps the model of some outlines as far as it got, and fails where something was refused. -/
def authorModel (name : Option Text) (outlines : List Outline) (closed : Bool) :
    Action (Session ε ρ) Model := do
  let r := Model.ofOutlines outlines closed
  let id ← newModel r.1
  keep name (.model id)
  match name with
  | none => .done ()
  | some name => handOut name id r.1.resources.keys
  match r.2 with
  | none => return r.1
  | some f => .fault f

/-- Stops if what a model needs to find its resources was cleared. -/
def needResources (id : ModelId) (otherwise : Problem) : Action (Session ε ρ) Unit :=
  need (.model id) "_resources" otherwise

/-- The model of a number, which is asked whether it can still change. -/
def openModel (id : ModelId) : Action (Session ε ρ) Model := do
  ability (.model id) "_ensure_mutable"
  readModel id

/-- Defines a resource; its name and its definition. -/
def define (name : Text) (resource : Value) : Action (Session ε ρ) (Text × Definition) := do
  let id ← modelId "define_resource" name
  let m ← openModel id
  match m.define resource with
  | .error (.duplicateResource _) | .ok _ => needResources id (.noMembers clearedShape)
  | .error _ => .done ()
  let m ← .ofFault (m.define resource)
  writeModel id m
  handOut name id [resource.display]
  return (resource.display, .empty)

/-- Adds capabilities to a resource through its builder, up to a faulty one. -/
def addCapabilities (name resource : Text) (names : List Value) :
    Action (Session ε ρ) (Text × Definition) := do
  let id ← builder name resource
  let m ← openModel id
  let r := m.addCapabilities resource names
  writeModel id r.1
  match r.2 with
  | some f => .fault f
  | none => do
    let d ← .ofFault (r.1.definition resource)
    return (resource, d)

/-- Adds an alias to a resource through its builder. -/
def addAlias (name resource : Text) (aliasName : Value) (targets : List Value) :
    Action (Session ε ρ) (Text × Definition) := do
  let id ← builder name resource
  let m ← openModel id
  let m ← .ofFault (m.addAlias resource aliasName targets)
  writeModel id m
  let d ← .ofFault (m.definition resource)
  return (resource, d)

/-- Stops if what a model needs to be validated was cleared. -/
def needValidation (id : ModelId) : Action (Session ε ρ) Unit := do
  ability (.model id) "validate"
  need (.model id) "_lock" (.notHeld clearedShape)
  if (← readModel id).isValidated then return ()
  else needResources id (.lacks clearedShape "items")

/-- Validates the model of a number.  A valid one stays as it is. -/
def validateModel (id : ModelId) : Action (Session ε ρ) ValidModel := do
  needValidation id
  match ← readModel id with
  | .validated v => return v
  | m => do
    let v ← .ofFault m.validate
    hold id fun h => { h with retained := v.expansions }
    ability (.model id) "_compute_fingerprint"
    hold id fun h => h.validated v
    return v

/-- Validates a model. -/
def validate (name : Text) : Action (Session ε ρ) ValidModel := do
  let id ← modelId "validate" name
  let v ← validateModel id
  needResources id (.noElements clearedShape)
  return v

/-- The number of the model of a name, validated so that policies can be compiled against it. -/
def modelToCompile (name : Text) : Action (Session ε ρ) ModelId := do
  let id ← modelId "validate" name
  let _ ← validateModel id
  return id

/-- The fingerprint of a model, which is validated for it, or of a compiled policy; an object of the
host's own kind may have any data as its fingerprint. -/
def fingerprint (name : Text) : Action (Session ε ρ) Value := do
  match ← item name with
  | .compiled p => return p.fingerprint
  | i =>
    match i.attribute? "fingerprint" with
    | some v => return v
    | none => do
      let id ← expect Item.model? "fingerprint" i
      let v ← validateModel id
      return (← readHeld id).fingerprint v

/-- A model as it is now, with all that it shows. -/
def modelState (name : Text) : Action (Session ε ρ) HeldModel := do
  let i ← item name
  match i.model? with
  | some id => do
    needResources id (.noElements clearedShape)
    readHeld id
  | none => .problem (i.withoutParts (← shapeOf i) ["validated", "resources"])

/-- Whether a model has a resource. -/
def hasResource (name : Text) (resource : Value) : Action (Session ε ρ) Bool := do
  let id ← modelId "has_resource" name
  needResources id (.noMembers clearedShape)
  .ofProblem ((← readModel id).holdsResource resource)

/-- The model of a number that is asked for a resource. -/
def lookedIn (id : ModelId) : Action (Session ε ρ) HeldModel := do
  ability (.model id) "resource"
  needResources id (.lacks clearedShape "get")
  readHeld id

/-- The name and the definition of a resource. -/
def definition (name : Text) (resource : Value) :
    Action (Session ε ρ) (Text × Definition) := do
  let h ← lookedIn (← modelId "resource" name)
  .ofProblem (h.model.definitionAsked resource)

/-- Whether data is a capability of a resource, and whether it is an alias. -/
def hasName (name : Text) (resource asked : Value) : Action (Session ε ρ) (Bool × Bool) := do
  let d ← definition name resource
  let capability ← .ofProblem (d.2.holdsCapability asked)
  let aliasName ← .ofProblem (d.2.holdsAlias asked)
  return (capability, aliasName)

/-- What requested data of a resource stands for together. -/
def expand (name : Text) (resource names : Value) : Action (Session ε ρ) NameSet := do
  let id ← modelId "expand" name
  let v ← validateModel id
  let _ ← lookedIn id
  .ofProblem (v.expandAsked resource names)

/-- What one piece of requested data of a resource stands for, as far as the model is validated. -/
def expandOne (name : Text) (resource requested : Value) : Action (Session ε ρ) NameSet := do
  let h ← lookedIn (← modelId "resource" name)
  .ofProblem (h.expandAsked resource requested)

/-! ### Policies -/

/-- Keeps a policy from data, checked unless it is an object of the host's own kind; its digest. -/
def readPolicy (name : Option Text) (plain : Bool) (data : Value) :
    Action (Session ε ρ) Text :=
  if plain then do
    let o : PlainObject := ⟨data, true⟩
    let digest ← .ofProblem (OfferedPolicy.digestOfObject o)
    keep name (.object o)
    return digest
  else do
    let p ← .ofProblem (((Policy.check data).entitled "Policy").mapError .invalid)
    keep name (.policy p)
    return p.digest

/-- Compiles an offered policy against a model as it is by now, which is validated at the end for
its fingerprint. -/
def compileOffered (id : ModelId) (o : OfferedPolicy) : Action (Session ε ρ) AnyCompiled := do
  match o.rules with
  | .ok (first :: _) => needForRule first
  | _ => .done ()
  let h ← readHeld id
  let c ← .ofProblem (o.compile h.asValid)
  let v ← validateModel id
  return c.withModel ((← readHeld id).fingerprint v)
where
  /-- Stops if what the first rule needs for finding its resource was cleared. -/
  needForRule (r : OfferedRule) : Action (Session ε ρ) Unit := do
    let h ← readHeld id
    if h.lacks "has_resource" || h.lacks "_resources" then
      let _ ← .ofProblem r.resource
      ability (.model id) "has_resource"
      needResources id (.noMembers clearedShape)

/-- Compiles an item, if it passes for a policy. -/
def compileItem (id : ModelId) (i : Item) : Action (Session ε ρ) AnyCompiled := do
  let o ← expect Item.policy? "rules" i
  compileOffered id o

/-- Compiles a policy against a model. -/
def compile (name : Option Text) (policyName modelName : Text) :
    Action (Session ε ρ) AnyCompiled := do
  let i ← item policyName
  let id ← modelToCompile modelName
  let c ← compileItem id i
  keep name (.compiled c)
  return c

/-- Compiles policies against a model, each for itself; a missing policy is an outcome too. -/
def compileAll (modelName : Text) (policyNames : List Text) :
    Action (Session ε ρ) (List (Except Failure AnyCompiled)) := do
  let id ← modelToCompile modelName
  each (fun name => attempt do compileItem id (← item name)) policyNames

/-- The rules of a compiled policy for a resource, and whether each of them is about an instance. -/
def rulesAbout (name : Text) (resource instanceAsked : Value) :
    Action (Session ε ρ) (List (LooseCompiledRule × Bool)) := do
  let p ← compiled "rules_for" name
  match ← .ofProblem resource.asName with
  | none => return []
  | some r => return p.rulesAbout r instanceAsked

/-! ### Access control lists -/

/-- Merges compiled policies.  The first item of another kind is reported, unless the policies in
front of it do not fit together. -/
def merge (name : Option Text) (compiledNames : List Text) : Action (Session ε ρ) AnyAcl := do
  let items ← each item compiledNames
  let front := (items.takeWhile fun i => i.compiled?.isSome).filterMap Item.compiled?
  match items.find? fun i => i.compiled?.isNone with
  | some i => do
    let shape ← shapeOf i
    .problem (AnyAcl.refusalBefore front
      (i.mergeProblem shape (LooseAcl.modelOf front)))
  | none => do
    let a ← .ofProblem (AnyAcl.merge front)
    keepAcl name a

/-- Keeps the list that a host puts together. -/
def rawAcl (name : Option Text) (grants : List (Text × Value)) (policies : Option Value)
    (modelFingerprint : Value) : Action (Session ε ρ) AnyAcl := do
  let a ← .ofProblem (AnyAcl.ofData grants policies modelFingerprint)
  keepAcl name a

/-- Combines two lists. -/
def union (name : Option Text) (left right : Text) : Action (Session ε ρ) AnyAcl := do
  let l ← item left
  let r ← item right
  match l.acl? with
  | none => .problem (.notCombinable "|" (← shapeOf l) (← shapeOf r))
  | some a => do
    let b ← expect Item.acl? "_model_fingerprint" r
    let c ← .ofProblem (a.union b)
    keepAcl name c

/-- Whether a list grants a capability. -/
def isAuthorized (name : Text) (resource item capability : Value) :
    Action (Session ε ρ) Bool := do
  let a ← acl "is_authorized" name
  .ofProblem (a.isAuthorized resource item capability)

/-- Fails where a list does not grant a capability. -/
def checkAuthorized (name : Text) (resource item capability : Value) :
    Action (Session ε ρ) Unit := do
  let a ← acl "check_authorized" name
  .ofProblem (a.checkAuthorized resource item capability)

/-- The explained answer of a list. -/
def decide (name : Text) (resource item capability : Value) :
    Action (Session ε ρ) Decision := do
  let a ← acl "decide" name
  .ofProblem (a.decide resource item capability)

/-- Everything that a list grants on an instance. -/
def granted (name : Text) (resource item : Value) : Action (Session ε ρ) (List Value) := do
  let a ← acl "capabilities" name
  .ofProblem (a.capabilities resource item)

/-- The grants of a list on a resource. -/
def grantsFor (name : Text) (resource : Value) :
    Action (Session ε ρ) (Option LooseGrants) := do
  let a ← acl "grants_for" name
  .ofProblem (a.grantsOn resource)

/-- Whether two lists grant the same on a resource. -/
def sameGrants (left right : Text) (resource : Value) : Action (Session ε ρ) Bool := do
  let g ← grantsFor left resource
  let h ← grantsFor right resource
  return match g, h with
    | some g, some h => g.same h
    | none, none => true
    | _, _ => false

/-- What a list grants of all that some resources, instances and capabilities make up.  Where they
make up nothing, the item of the name is not looked at. -/
def matrix (name : Text) (resources items capabilities : Value) :
    Action (Session ε ρ) (List (Value × Value × Value)) := do
  let i ← item name
  match ← .ofProblem resources.elements with
  | [] => return []
  | rs =>
    match ← .ofProblem items.elements with
    | [] => return []
    | is =>
      match ← .ofProblem capabilities.elements with
      | [] => return []
      | cs => do
        let a ← expect Item.acl? "is_authorized" i
        .ofProblem (a.matrix rs is cs)

/-! ### Comparisons -/

/-- An item with its name. -/
def named (name : Text) : Action (Session ε ρ) (Text × Item) := do
  let i ← item name
  return (name, i)

/-- Whether two items are the same. -/
def same (left right : Text) : Action (Session ε ρ) Bool := do
  let a ← named left
  let b ← named right
  return Item.same a b

/-- An item with its name, if it can be a member of a set. -/
def member (name : Text) : Action (Session ε ρ) (Text × Item) := do
  let i ← item name
  match i.unfitShape? with
  | some shape => .problem (.unfitForKey shape)
  | none => return (name, i)

/-- The number of items that differ from each other.  The first one that is missing or cannot be a
member of a set is reported. -/
def distinctCount (names : List Text) : Action (Session ε ρ) Nat := do
  let items ← each member names
  return Item.distinctCount items

/-- Clears a part of a context. -/
def clearContext (id : ContextId) (part : Text) : Action (Session ε ρ) Unit :=
  if part = "_reason" then
    .change fun s => { s with contexts := s.contexts.update id Context.withoutReason }
  else if part = "_deadline" then
    .change fun s => { s with contexts := s.contexts.update id Context.withoutDeadline }
  else change fun h => { h with clearedParts := (id, part) :: h.clearedParts }

/-- Clears a part of an item, which fails on one that is immutable. -/
def clearPart (name : Text) (part : Value) : Action (Session ε ρ) Unit := do
  let i ← item name
  match part with
  | .text field =>
    match i.clearing? field with
    | some p => .problem p
    | none =>
      match i with
      | .object o => keep name (.object (o.clearPart field))
      | .model id => hold id fun h => h.clearPart field
      | .cache id => .change fun s => s.setCache id ((s.cache id).clearPart field)
      | .context id => clearContext id field
      | .resolver r => do
        let gone ← Engine.newCache .gone
        keep name (.resolver (r.clearPart field gone))
      | _ => return ()
  | v => .problem (.host "TypeError"
      [.text ("attribute name must be string, not " ++ Text.quoted v.shapeName)])

end Session

end Gatehouse
