import Gatehouse.Model.Expansion
import Gatehouse.Problem.Data

/-!
# Expansion of aliases among data of any shape

The aliases and the capabilities of a resource are texts, but the expansion of aliases makes sense
for any data that can be looked up.  Data that counts as equal is one and the same name, and each
set, path and report has it in the form in which it first got there.  Data that cannot be looked up
is a problem as soon as it comes up as a target.  Aliases that are texts are expanded as they are
(`LooseDefinition.expand_texts`).
-/

namespace Gatehouse

/-- The capabilities and the aliases of one resource, where any data may stand in the places of
names. -/
structure LooseDefinition where
  /-- The capabilities. -/
  capabilities : List Value
  /-- The aliases with their targets, in order of definition. -/
  aliases : List (Value × List Value)

namespace LooseDefinition

/-- Lists of data, each under data that stands for a name. -/
abbrev Lists := List (Value × List Value)

namespace Lists

/-- The list under data that counts as equal to a name. -/
def under? (m : Lists) (name : Value) : Option (List Value) :=
  (m.find? fun e => e.1.same name).map (·.2)

/-- Puts a list under a name: a name that is present stays as it is and where it is. -/
def insert (m : Lists) (name : Value) (l : List Value) : Lists :=
  if m.any fun e => e.1.same name then
    m.map fun e => (e.1, if e.1.same name then l else e.2)
  else m ++ [(name, l)]

end Lists

/-- The definition that lists of data make, all of which must be fit for looking up. -/
def ofLists (capabilities : List Value) (aliases : Lists) : Except Problem LooseDefinition := do
  let known ← Value.distinctMembers capabilities
  let _ ← Value.distinctMembers (aliases.map (·.1))
  return ⟨known, aliases.foldl (fun m e => Lists.insert m e.1 e.2) []⟩

/-- The problem of names that lead in a circle.  A report joins them, so they have to be texts. -/
def circle (resource : Value) (names : List Value) : Problem :=
  match Value.textsFrom 0 names with
  | .ok texts => .fault (.aliasCycle resource texts)
  | .error p => p

/-- What is found for an alias so far, and what has been found for the ones before it. -/
abbrev Search := List Value × Lists

/-- Adds to what is found for an alias what one of its targets stands for; `further` expands a
target that is another alias. -/
def expandTarget (d : LooseDefinition) (resource name : Value)
    (further : Lists → Value → List Value → Except Problem Search) (found : Search)
    (target : Value) : Except Problem Search := do
  if target.same name then
    if target.among d.capabilities then
      return (Value.distinct (found.1 ++ [target]), found.2)
    else .error (circle resource [name, name])
  else
    let _ ← target.lookedUp
    match Lists.under? d.aliases target with
    | some targets =>
      let (more, memo) ← further found.2 target targets
      return (Value.distinct (found.1 ++ more), memo)
    | none =>
      if target.among d.capabilities then
        return (Value.distinct (found.1 ++ [target]), found.2)
      else .error (.fault (.undefinedAliasTarget resource name target))

/-- The capabilities that an alias stands for, with what is remembered afterwards.  The path gets
longer with each step down and no alias is on it twice, so `depth` need not exceed the number of
aliases by more than one. -/
def expandAlias (d : LooseDefinition) (resource : Value) :
    (depth : Nat) → (path : List Value) → Lists → Value → List Value → Except Problem Search
  | 0, _, memo, _, _ => .ok ([], memo)
  | depth + 1, path, memo, name, targets =>
    match memo.under? name with
    | some known => .ok (known, memo)
    | none =>
      if name.among path then
        .error (circle resource (path.dropWhile (fun v => !v.same name) ++ [name]))
      else do
        let further := d.expandAlias resource depth (path ++ [name])
        let (found, memo) ← targets.foldlM (d.expandTarget resource name further) ([], memo)
        return (found, memo.insert name found)

/-- The first alias that hides a capability without listing its own name. -/
def shadowing? (d : LooseDefinition) : Option Value :=
  (d.aliases.find? fun e => e.1.among d.capabilities && !e.1.among e.2).map (·.1)

/-- What every alias stands for. -/
def expansions (d : LooseDefinition) (resource : Value) : Except Problem Lists :=
  match d.shadowing? with
  | some name => .error (.fault (.shadowedCapability resource name))
  | none => d.aliases.foldlM (fun memo e =>
    (d.expandAlias resource (d.aliases.length + 1) [] memo e.1 e.2).map (·.2)) []

/-- The aliases with their targets, if all of them are texts. -/
def textAliases? : Lists → Option (List (Text × List Text))
  | [] => some []
  | (name, targets) :: rest =>
    match name.text?, Value.allTexts? targets, textAliases? rest with
    | some s, some l, some more => some ((s, l) :: more)
    | _, _, _ => none

/-- Aliases of texts are read as these. -/
theorem textAliases?_texts (aliases : List (Text × List Text)) :
    textAliases? (aliases.map fun a => (.text a.1, a.2.map .text)) = some aliases := by
  induction aliases with
  | nil => rfl
  | cons a rest ih => simp [textAliases?, Value.text?, Value.allTexts?_texts, ih]

/-- What aliases stand for: each alias with its capabilities in increasing order. -/
def expand (resource : Value) (capabilities : List Value) (aliases : Lists) :
    Except Problem Lists :=
  match resource, Value.allTexts? capabilities, textAliases? aliases with
  | .text r, some known, some named =>
    match (⟨known, OrderedMap.ofList named⟩ : Definition).expansions r with
    | .ok m => .ok (m.entries.map fun e => (.text e.1, e.2.names.map .text))
    | .error f => .error (.fault f)
  | _, _, _ => do
    let d ← ofLists capabilities aliases
    let found ← d.expansions resource
    found.mapM fun e => (Value.sorted e.2).map fun l => (e.1, l)

/-- Aliases that are texts are expanded as they are. -/
theorem expand_texts (resource : Text) (capabilities : List Text)
    (aliases : List (Text × List Text)) :
    expand resource (capabilities.map .text) (aliases.map fun a => (.text a.1, a.2.map .text)) =
      match (⟨capabilities, OrderedMap.ofList aliases⟩ : Definition).expansions resource with
      | .ok m => .ok (m.entries.map fun e => (.text e.1, e.2.names.map .text))
      | .error f => .error (.fault f) := by
  simp [expand, Value.allTexts?_texts, textAliases?_texts]

end LooseDefinition

end Gatehouse
