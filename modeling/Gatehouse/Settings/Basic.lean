import Gatehouse.Cache.Basic
import Gatehouse.Validation.Scalar

/-!
# Settings of the engine

The settings say whether resolvers keep anything, how long and how much.  They are read from values
given by name and, where none is given, from the variables of an environment whose names are those
of the settings behind `ACLKIT_`.  Names are read in any letter case; of several values given under
one name the first counts, and of several variables the last.
-/

namespace Gatehouse

open Validation

/-- What resolvers keep. -/
structure Settings where
  /-- Whether anything is kept. -/
  cacheEnabled : Bool
  /-- How long access control lists are kept, in seconds; zero is forever. -/
  aclTtl : Float
  /-- How many access control lists are kept. -/
  aclCapacity : Nat
  /-- How long compiled policies are kept, in seconds; zero is forever. -/
  policyTtl : Float
  /-- How many compiled policies are kept. -/
  policyCapacity : Nat
deriving DecidableEq

namespace Settings

/-- The settings where none are given. -/
def standard : Settings := ⟨true, 60.0, 10000, 3600.0, 10000⟩

instance : Inhabited Settings := ⟨standard⟩

/-- Where settings come from. -/
structure Source where
  /-- The variables of the environment. -/
  environment : List (Text × Text)
  /-- The values given by name. -/
  given : List (Text × Value)

/-- A character in lower case, where that is an ASCII character.  The Kelvin sign is the one
character beyond ASCII with such a lower case. -/
def lowerChar (c : Char) : Char := if c = '\u212a' then 'k' else c.toLower

/-- A name in lower case, as far as the name of a setting can show it. -/
def lowerName (name : Text) : Text :=
  ⟨name.points.map fun c => if c.isSurrogate then c else .ofChar (lowerChar c.toChar)⟩

/-- The value of the last variable with the name of a setting. -/
def Source.fromEnvironment? (s : Source) (name : Text) : Option Text :=
  (s.environment.reverse.find? fun e => lowerName e.1 = "aclkit_" ++ name).map (·.2)

/-- The first value given under the name of a setting, in any letter case. -/
def Source.given? (s : Source) (name : Text) : Option Value :=
  (s.given.find? fun e => lowerName e.1 = name).map (·.2)

/-- The data of a setting: what is given goes before the environment. -/
def Source.data? (s : Source) (name : Text) : Option Value :=
  (s.given? name).or ((s.fromEnvironment? name).map .text)

/-- One setting, with its default. -/
def setting {α : Type} (s : Source) (name : Text) (default : α) (check : Value → Checked α) :
    Checked α :=
  match s.data? name with
  | none => .ok default
  | some v => Checked.under (.field name) (check v)

/-- Reads all settings. -/
def check (s : Source) : Checked Settings :=
  ((setting s "cache_enabled" standard.cacheEnabled checkBool).both
    ((setting s "acl_cache_ttl_seconds" standard.aclTtl checkSeconds).both
      ((setting s "acl_cache_max_entries" standard.aclCapacity checkCount).both
        ((setting s "policy_cache_ttl_seconds" standard.policyTtl checkSeconds).both
          (setting s "policy_cache_max_entries" standard.policyCapacity checkCount))))).map
    fun r => ⟨r.1, r.2.1, r.2.2.1, r.2.2.2.1, r.2.2.2.2⟩

/-- Reads all settings, or reports what is wrong with them. -/
def read (s : Source) : Except Failure Settings :=
  ((check s).entitled "EngineSettings").mapError fun r => .ofProblem (.invalid r)

variable {α : Type}

/-- A fresh cache for compiled policies. -/
def policyCache (s : Settings) : Cache α :=
  if s.cacheEnabled then .memory (.create (some s.policyTtl) s.policyCapacity) else .idle 0

/-- A fresh cache for access control lists. -/
def aclCache (s : Settings) : Cache α :=
  if s.cacheEnabled then .memory (.create (some s.aclTtl) s.aclCapacity) else .idle 0

end Settings

end Gatehouse
