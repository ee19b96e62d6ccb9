import Gatehouse.Model.Basic

/-!
# Models from outlines

An outline is a resource as its author writes it down: a name, capabilities, and aliases with their
targets, none of it checked yet.  Adding outlines to a model stops at the first fault and leaves
what was added before it (`Model.addOutlines`), so an author sees how far it got.
-/

namespace Gatehouse

/-- A resource as it is written down. -/
structure Outline where
  /-- The name. -/
  name : Value
  /-- The capabilities. -/
  capabilities : List Value
  /-- The aliases with their targets. -/
  aliases : List (Value × List Value)

namespace Model

/-- Adds aliases one after the other, until one is refused. -/
def addAliases (m : Model) (resource : Text) : List (Value × List Value) → Model × Option Fault
  | [] => (m, none)
  | (name, targets) :: rest =>
    match m.addAlias resource name targets with
    | .error f => (m, some f)
    | .ok m => m.addAliases resource rest

/-- Defines the resource of an outline, then its capabilities, then its aliases. -/
def addOutline (m : Model) (o : Outline) : Model × Option Fault :=
  match m.define o.name with
  | .error f => (m, some f)
  | .ok m =>
    match m.addCapabilities o.name.display o.capabilities with
    | (m, some f) => (m, some f)
    | (m, none) => m.addAliases o.name.display o.aliases

/-- Adds outlines one after the other, until something in one is refused. -/
def addOutlines (m : Model) : List Outline → Model × Option Fault
  | [] => (m, none)
  | o :: rest =>
    match m.addOutline o with
    | (m, some f) => (m, some f)
    | (m, none) => m.addOutlines rest

/-- The model closed, or as it was with the fault that keeps it open. -/
def close (m : Model) : Model × Option Fault :=
  match m.validate with
  | .error f => (m, some f)
  | .ok v => (.validated v, none)

/-- The model of some outlines, closed if wanted and if nothing was refused. -/
def ofOutlines (outlines : List Outline) (closed : Bool) : Model × Option Fault :=
  match empty.addOutlines outlines with
  | (m, some f) => (m, some f)
  | (m, none) => if closed then m.close else (m, none)

/-- A model that is closed without a fault is the validated one. -/
theorem close_eq_none_iff {m : Model} :
    m.close.2 = none ↔ ∃ v, m.validate = .ok v ∧ m.close.1 = .validated v := by
  unfold close
  cases h : m.validate <;> simp

end Model

end Gatehouse
