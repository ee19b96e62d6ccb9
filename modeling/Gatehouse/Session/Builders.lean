import Gatehouse.Session.Basic

/-!
# Models and builders of a session

A model is one thing, whichever name or builder it is reached by: the items of a session refer to it
by its number, and so do the builders that its definitions handed out.  A builder is reached by the
name of its model and its resource, and outlives the model's name: if another model takes the name,
the builder works on the old one until the new one defines a resource of the same name.  Main
statement: a model reads as it was written (`Session.modelOf_setModel`).
-/

namespace Gatehouse

namespace Session

variable {ε ρ : Type}

/-! ### Models -/

/-- The model of a number, as the host holds it. -/
def heldModel (h : Session ε ρ) (id : ModelId) : HeldModel := (h.models.find? id).getD default

/-- The model of a number. -/
def modelOf (h : Session ε ρ) (id : ModelId) : Model := (h.heldModel id).model

/-- The session with a model changed. -/
def setModel (h : Session ε ρ) (id : ModelId) (m : HeldModel) : Session ε ρ :=
  { h with models := h.models.insert id m }

/-- A model reads as it was written. -/
theorem modelOf_setModel (h : Session ε ρ) (id id' : ModelId) (m : HeldModel) :
    (h.setModel id m).modelOf id' = if id' = id then m.model else h.modelOf id' := by
  simp only [modelOf, heldModel, setModel, OrderedMap.find?_insert]
  split <;> rfl

/-- Writes a model, as the host holds it. -/
def hold (id : ModelId) (f : HeldModel → HeldModel) : Action (Session ε ρ) Unit :=
  change fun h => h.setModel id (f (h.heldModel id))

/-- Writes a draft. -/
def writeModel (id : ModelId) (m : Model) : Action (Session ε ρ) Unit :=
  hold id fun h => h.change m

/-- The model of a number, as it is now. -/
def readModel (id : ModelId) : Action (Session ε ρ) Model := .read fun s => s.host.modelOf id

/-- The model of a number, as the host holds it now. -/
def readHeld (id : ModelId) : Action (Session ε ρ) HeldModel := .read fun s => s.host.heldModel id

/-- Adds a model; its number. -/
def newModel (m : Model) : Action (Session ε ρ) ModelId := .step fun s =>
  (s.host.models.size, { s with host := s.host.setModel s.host.models.size (.ofModel m) })

/-- The number of the model of a name, asked for one of its parts. -/
def modelId : (part name : Text) → Action (Session ε ρ) ModelId := itemOf Item.model?

/-- The model of a name, asked for one of its parts, as it is now. -/
def model (part name : Text) : Action (Session ε ρ) Model := do
  let id ← modelId part name
  readModel id

/-! ### Builders -/

/-- Hands out the builders of resources that a model defined under a name. -/
def handOut (name : Text) (id : ModelId) (resources : List Text) :
    Action (Session ε ρ) Unit :=
  change fun h => { h with
    builders := resources.foldl (fun b resource => b.insert (name, resource) id) h.builders }

/-- The model that the builder of a resource works on: of those that went by a name, the last one
that defined the resource. -/
def builder (name resource : Text) : Action (Session ε ρ) ModelId := do
  match ← .read fun s => s.host.builders.find? (name, resource) with
  | some id => return id
  | none => .problem (.noSuchItem resource)

end Session

end Gatehouse
