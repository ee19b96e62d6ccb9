import Gatehouse.Digest.Sha256
import Gatehouse.Model.Expansion
import Gatehouse.Text.Blank
import Gatehouse.Text.Canonical

/-!
# Models

A model is a registry of resources with their capabilities and aliases.  It is a draft until it is
validated; a validated model carries what every alias stands for and a fingerprint of its
definitions, and can no longer change.  A draft whose validation fails stays a draft, so it can be
mended and validated again.

Each operation that changes a draft says what it leaves behind when it fails: only
`Model.addCapabilities` may have added something, the names before the faulty one.
-/

namespace Gatehouse

/-- Resources by name, in order of definition. -/
abbrev Registry := OrderedMap Text Definition

namespace Registry

/-- The registry as a document: resources, aliases and capabilities in order of their names,
targets as authored. -/
def document (r : Registry) : Text.Document :=
  .object ((NameMap.ofList r.entries).entries.map fun e =>
    (e.1, .object
      [("aliases", .object ((NameMap.ofList e.2.aliases.entries).entries.map fun a =>
          (a.1, Text.Document.texts a.2))),
       ("capabilities", Text.Document.texts (sortNames e.2.capabilities))]))

/-- The text that identifies the definitions of a registry. -/
def definitionText (r : Registry) : Text := r.document.render

/-- The digest of the definitions. -/
def fingerprint (r : Registry) : Text := Digest.ofText r.definitionText

/-- What the aliases of every resource stand for; the first faulty resource in order of definition
is reported. -/
def expansionsOf : List (Text × Definition) → Except Fault (NameMap (NameMap NameSet))
  | [] => .ok ∅
  | (resource, d) :: rest =>
    match d.expansions resource with
    | .error f => .error f
    | .ok found =>
      match expansionsOf rest with
      | .error f => .error f
      | .ok more => .ok (more.insert resource found)

end Registry

/-- A model that passed validation. -/
structure ValidModel where
  /-- The definitions. -/
  resources : Registry
  /-- What the aliases of each resource stand for. -/
  expansions : NameMap (NameMap NameSet)
  /-- The digest of the definitions. -/
  fingerprint : Text
deriving DecidableEq

/-- A registry of resources, open to changes until it is validated. -/
inductive Model where
  /-- Open to changes. -/
  | draft (resources : Registry)
  /-- Validated, and closed. -/
  | validated (model : ValidModel)
deriving DecidableEq

namespace Model

/-- The model without resources. -/
def empty : Model := .draft ∅

instance : Inhabited Model := ⟨empty⟩

/-- The definitions. -/
def resources : Model → Registry
  | .draft r => r
  | .validated m => m.resources

/-- Whether the model is validated. -/
def isValidated : Model → Bool
  | .draft _ => false
  | .validated _ => true

/-- The names of the resources in order of definition and the state of the model, in one line. -/
def summary (m : Model) : Text :=
  "Model(" ++ Text.quotedList (sortNames m.resources.keys) ++ ", " ++
    (if m.isValidated then "validated" else "draft") ++ ")"

/-- The name that a value is: a text that does not hold blanks only. -/
def checkName (kind : Text) (name : Value) : Except Fault Text :=
  match name with
  | .text s => if Text.allBlank s then .error (.invalidName kind name) else .ok s
  | _ => .error (.invalidName kind name)

/-- Checks names in order. -/
def checkNames (kind : Text) : List Value → Except Fault (List Text)
  | [] => .ok []
  | v :: rest =>
    match checkName kind v with
    | .error f => .error f
    | .ok name =>
      match checkNames kind rest with
      | .error f => .error f
      | .ok names => .ok (name :: names)

/-! ### Changes of a draft -/

/-- Defines a resource. -/
def define (m : Model) (name : Value) : Except Fault Model :=
  match m with
  | .validated _ => .error .modelFrozen
  | .draft r =>
    match checkName "resource" name with
    | .error f => .error f
    | .ok name =>
      if r.contains name then .error (.duplicateResource name)
      else .ok (.draft (r.insert name .empty))

/-- Adds capabilities one after the other, until one is no name or already there. -/
def addEach (resource : Text) : List Value → List Text → List Text × Option Fault
  | [], present => (present, none)
  | v :: rest, present =>
    match checkName "capability" v with
    | .error f => (present, some f)
    | .ok name =>
      if name ∈ present then (present, some (.duplicateCapability resource name))
      else addEach resource rest (present ++ [name])

/-- Adds capabilities to a resource.  The names before a faulty one stay added. -/
def addCapabilities (m : Model) (resource : Text) (names : List Value) :
    Model × Option Fault :=
  match m with
  | .validated _ => (m, some .modelFrozen)
  | .draft r =>
    match r.find? resource with
    | none => (m, some (.unknownResource resource .null))
    | some d =>
      let added := addEach resource names d.capabilities
      (.draft (r.insert resource ⟨added.1, d.aliases⟩), added.2)

/-- Adds an alias to a resource; a repeated target counts once, at its first place. -/
def addAlias (m : Model) (resource : Text) (name : Value) (targets : List Value) :
    Except Fault Model :=
  match m with
  | .validated _ => .error .modelFrozen
  | .draft r =>
    match r.find? resource with
    | none => .error (.unknownResource resource .null)
    | some d =>
      match checkName "alias" name with
      | .error f => .error f
      | .ok name =>
        if d.aliases.contains name then .error (.duplicateAlias resource name)
        else
          match checkNames "alias target" targets with
          | .error f => .error f
          | .ok targets =>
            .ok (.draft (r.insert resource
              ⟨d.capabilities, d.aliases.insert name (OrderedMap.distinct targets)⟩))

/-! ### Validation and lookup -/

/-- Expands the aliases of every resource and closes the model.  A validated model stays as it
is. -/
def validate : Model → Except Fault ValidModel
  | .validated m => .ok m
  | .draft r =>
    match Registry.expansionsOf r.entries with
    | .error f => .error f
    | .ok expansions => .ok ⟨r, expansions, r.fingerprint⟩

/-- What the aliases of a resource stand for; on a draft nothing is known yet. -/
def expansionsOf (m : Model) (resource : Text) : NameMap NameSet :=
  match m with
  | .draft _ => ∅
  | .validated m => (m.expansions.find? resource).getD ∅

/-- The definition of a resource. -/
def definition (m : Model) (resource : Text) : Except Fault Definition :=
  match m.resources.find? resource with
  | none => .error (.unknownResource resource .null)
  | some d => .ok d

end Model

namespace Definition

/-- What a requested name stands for, given the expansions of the aliases.  An alias goes before a
capability of the same name. -/
def expandName (d : Definition) (expansions : NameMap NameSet) (resource name : Text) :
    Except Fault NameSet :=
  match expansions.find? name with
  | some found => .ok found
  | none =>
    if name ∈ d.capabilities then .ok (NameSet.single name)
    else .error (.unknownCapability resource name .null)

/-- What requested names stand for together; the first name in order that is unknown is
reported. -/
def expandNames (d : Definition) (expansions : NameMap NameSet) (resource : Text) :
    List Text → NameSet → Except Fault NameSet
  | [], found => .ok found
  | name :: rest, found =>
    match d.expandName expansions resource name with
    | .error f => .error f
    | .ok more => d.expandNames expansions resource rest (found ∪ more)

end Definition

namespace Model

/-- What one requested name of a resource stands for. -/
def expandName (m : Model) (resource name : Text) : Except Fault NameSet :=
  match m.definition resource with
  | .error f => .error f
  | .ok d => d.expandName (m.expansionsOf resource) resource name

end Model

namespace ValidModel

/-- What requested names of a resource stand for together. -/
def expand (m : ValidModel) (resource : Text) (names : List Text) : Except Fault NameSet :=
  match (Model.validated m).definition resource with
  | .error f => .error f
  | .ok d => d.expandNames ((m.expansions.find? resource).getD ∅) resource names ∅

end ValidModel

end Gatehouse
