import Gatehouse.Model.Definition

/-!
# Expansion of aliases

Every alias of a resource is expanded, depth first, into the set of capabilities that it stands for.
A target equal to the alias being expanded means the capability of that name; a target that names
another alias is expanded; any other target is a capability.  Expansions are remembered for the
whole pass, and the path of aliases under expansion is kept beside them, so that a circle can be
told from an alias that was already expanded on another route.

The search ends because every step down puts one more alias on the path (`length_fresh_lt`).
-/

namespace Gatehouse

namespace Definition

/-- The aliases that are not on a path. -/
def fresh (d : Definition) (path : List Text) : List Text :=
  d.aliases.keys.filter fun name => decide (name ∉ path)

/-- A step down leaves fewer aliases off the path. -/
theorem length_fresh_lt {d : Definition} {path targets : List Text} {name : Text}
    (hname : d.aliases.find? name = some targets) (hpath : name ∉ path) :
    (d.fresh (path ++ [name])).length < (d.fresh path).length := by
  have hmem : name ∈ d.aliases.keys :=
    OrderedMap.isSome_find?_iff.1 (by rw [hname]; rfl)
  have hsub : d.fresh (path ++ [name]) = (d.fresh path).filter fun n => decide (n ≠ name) := by
    simp only [fresh, List.filter_filter, List.mem_append, List.mem_singleton, not_or]
    congr 1
    funext n
    by_cases h₁ : n ∈ path <;> by_cases h₂ : n = name <;> simp [h₁, h₂]
  rw [hsub]
  refine List.length_filter_lt_length_iff_exists.2 ⟨name, ?_, by simp⟩
  simp [fresh, hmem, hpath]

mutual

/-- The capabilities that an alias stands for, with what is remembered afterwards. -/
def expandAlias (d : Definition) (resource : Text) (path : List Text)
    (memo : NameMap NameSet) (name : Text) (targets : List Text)
    (_hname : d.aliases.find? name = some targets) :
    Except Fault (NameSet × NameMap NameSet) :=
  match memo.find? name with
  | some known => .ok (known, memo)
  | none =>
    if _hpath : name ∈ path then
      .error (.aliasCycle resource (path.dropWhile (· ≠ name) ++ [name]))
    else
      match expandTargets d resource name (path ++ [name]) memo ∅ targets with
      | .error f => .error f
      | .ok (found, memo) => .ok (found, memo.insert name found)
termination_by ((d.fresh path).length, 0)
decreasing_by
  exact Prod.Lex.left _ _ (length_fresh_lt _hname _hpath)

/-- Adds to `found` what the targets of an alias stand for. -/
def expandTargets (d : Definition) (resource name : Text) (path : List Text)
    (memo : NameMap NameSet) (found : NameSet) (targets : List Text) :
    Except Fault (NameSet × NameMap NameSet) :=
  match targets with
  | [] => .ok (found, memo)
  | target :: rest =>
    if target = name then
      if target ∈ d.capabilities then
        expandTargets d resource name path memo (found.add target) rest
      else .error (.aliasCycle resource [name, name])
    else
      match htarget : d.aliases.find? target with
      | some further =>
        match expandAlias d resource path memo target further htarget with
        | .error f => .error f
        | .ok (more, memo) => expandTargets d resource name path memo (found ∪ more) rest
      | none =>
        if target ∈ d.capabilities then
          expandTargets d resource name path memo (found.add target) rest
        else .error (.undefinedAliasTarget resource name target)
termination_by ((d.fresh path).length, targets.length + 1)
decreasing_by
  all_goals
    apply Prod.Lex.right
    simp only [List.length_cons]
    omega

end

/-- Expands the given aliases one after the other, remembering each. -/
def expandEach (d : Definition) (resource : Text) :
    List Text → NameMap NameSet → Except Fault (NameMap NameSet)
  | [], memo => .ok memo
  | name :: rest, memo =>
    match hname : d.aliases.find? name with
    | none => expandEach d resource rest memo
    | some targets =>
      match expandAlias d resource [] memo name targets hname with
      | .error f => .error f
      | .ok (_, memo) => expandEach d resource rest memo

/-- The first alias that hides a capability without listing its own name. -/
def shadowing? (d : Definition) : Option Text :=
  (d.aliases.entries.find? fun e =>
    d.capabilities.contains e.1 && !e.2.contains e.1).map Prod.fst

/-- What every alias of a resource stands for. -/
def expansions (d : Definition) (resource : Text) : Except Fault (NameMap NameSet) :=
  match d.shadowing? with
  | some name => .error (.shadowedCapability resource name)
  | none => d.expandEach resource d.aliases.keys ∅

end Definition

end Gatehouse
