import Gatehouse.Model.Basic
import Gatehouse.Problem.Data

/-!
# Asking a model about data

A host may ask a model about data of any shape where a name is meant.  Only a text can be a name, so
other data is never found; data that cannot be looked up at all is a problem.  Asked about names,
a model answers as it does otherwise (`ValidModel.expandAsked_texts`).
-/

namespace Gatehouse

namespace Definition

/-- Whether data is a capability. -/
def holdsCapability (d : Definition) (name : Value) : Except Problem Bool :=
  name.asName.map fun s => s.any d.hasCapability

/-- Whether data is an alias. -/
def holdsAlias (d : Definition) (name : Value) : Except Problem Bool :=
  name.asName.map fun s => s.any d.hasAlias

/-- What requested data stands for. -/
def expandDatum (d : Definition) (expansions : NameMap NameSet) (resource : Text)
    (requested : Value) : Except Problem NameSet := do
  match ← requested.asName with
  | some name => (d.expandName expansions resource name).mapError .fault
  | none => .error (.fault (.unknownCapability resource requested .null))

/-- What requested data stands for together; the first piece that is unknown is reported. -/
def expandData (d : Definition) (expansions : NameMap NameSet) (resource : Text) :
    List Value → NameSet → Except Problem NameSet
  | [], found => .ok found
  | requested :: rest, found => do
    let more ← d.expandDatum expansions resource requested
    d.expandData expansions resource rest (found ∪ more)

end Definition

namespace Model

/-- Whether data is the name of a resource. -/
def holdsResource (m : Model) (name : Value) : Except Problem Bool :=
  name.asName.map fun s => s.any m.resources.contains

/-- The resource that data is the name of, with its definition. -/
def definitionAsked (m : Model) (resource : Value) : Except Problem (Text × Definition) := do
  match ← resource.asName with
  | some name => ((m.definition name).mapError .fault).map fun d => (name, d)
  | none => .error (.fault (.unknownResource resource .null))

/-- What one piece of requested data stands for. -/
def expandAsked (m : Model) (resource requested : Value) : Except Problem NameSet := do
  match resource, requested with
  | .text r, .text name => (m.expandName r name).mapError .fault
  | _, _ => do
    let (r, d) ← m.definitionAsked resource
    d.expandDatum (m.expansionsOf r) r requested

end Model

namespace ValidModel

/-- What requested data stands for together. -/
def expandAsked (m : ValidModel) (resource names : Value) : Except Problem NameSet :=
  match resource, names.elements?.bind Value.allTexts? with
  | .text r, some l => (m.expand r l).mapError .fault
  | _, _ => do
    let (r, d) ← (Model.validated m).definitionAsked resource
    d.expandData ((m.expansions.find? r).getD ∅) r (← names.elements) ∅

/-- Names are expanded as names. -/
theorem expandAsked_texts (m : ValidModel) (resource : Text) (names : List Text) :
    m.expandAsked resource (.list (names.map .text)) =
      (m.expand resource names).mapError .fault := by
  simp [expandAsked, Value.elements?, Value.allTexts?_texts]

end ValidModel

end Gatehouse
