import Gatehouse.Collections.Named
import Gatehouse.Collections.Ordered
import Gatehouse.Fault.Basic

/-!
# Resource definitions

A kind of protected resource is defined by the capabilities that can be granted on it and by its
aliases, names that stand for several capabilities or for further aliases.  Both are kept in the
order in which they were defined.  An alias may have the name of a capability.
-/

namespace Gatehouse

/-- The capabilities and the aliases of one resource. -/
structure Definition where
  /-- The capabilities, in order of definition. -/
  capabilities : List Text
  /-- The aliases with their targets as authored, in order of definition. -/
  aliases : OrderedMap Text (List Text)
deriving DecidableEq

namespace Definition

/-- The definition without capabilities and aliases. -/
def empty : Definition := ⟨[], ∅⟩

instance : Inhabited Definition := ⟨empty⟩

/-- Whether a name is a capability. -/
def hasCapability (d : Definition) (name : Text) : Bool := d.capabilities.contains name

/-- Whether a name is an alias. -/
def hasAlias (d : Definition) (name : Text) : Bool := d.aliases.contains name

/-- A definition in one line. -/
def summary (d : Definition) (resource : Text) : Text :=
  "ResourceDefinition(" ++ Text.quoted resource ++ ", capabilities=" ++
    Text.quotedList (sortNames d.capabilities) ++ ", aliases=" ++
    Text.quotedList (sortNames d.aliases.keys) ++ ")"

end Definition

end Gatehouse
