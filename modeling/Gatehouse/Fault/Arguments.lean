import Gatehouse.Value

/-!
# Arguments

A fault can be built from data that is given in order and by name.  A `Signature` says which data is
wanted, and `Signature.bind` gives each wanted piece its value, or says how the given data does not
fit.  Main statement: what is bound is what is wanted, in its order (`Signature.names_bind`).
-/

namespace Gatehouse

/-- Data given for what is wanted. -/
structure Arguments where
  /-- Given in order. -/
  positional : List Value
  /-- Given by name. -/
  named : List (Text × Value)

/-- How given data does not fit what is wanted. -/
inductive Misuse where
  /-- Something is wanted and not given. -/
  | absent (names : List Text)
  /-- More is given in order than is wanted. -/
  | surplus (least most given : Nat)
  /-- Something is given by a name that is not wanted. -/
  | unwanted (name : Text)
  /-- Something is given in order and by name. -/
  | repeated (name : Text)
deriving DecidableEq

namespace Misuse

/-- Names in one phrase. -/
def phrase : List Text → Text
  | [] => ""
  | [a] => Text.quoted a
  | [a, b] => Text.quoted a ++ " and " ++ Text.quoted b
  | names => Text.intercalate ", " (names.dropLast.map Text.quoted) ++ ", and " ++
      Text.quoted (names.getLastD "")

/-- The ending of a noun that is counted. -/
def plural (n : Nat) : Text := if n = 1 then "" else "s"

/-- The name of what is built, which counts as the first piece given in order. -/
def itself : Text := "self"

/-- How a misuse is worded.  A name that is given is shown as it is. -/
def message : Misuse → Text
  | absent names =>
    "missing " ++ toString names.length ++ " required positional argument" ++
      plural names.length ++ ": " ++ phrase names
  | surplus least most given =>
    let wanted := if least = most then toString (most + 1) ++ " positional argument" ++
        plural (most + 1)
      else "from " ++ toString (least + 1) ++ " to " ++ toString (most + 1) ++
        " positional arguments"
    "takes " ++ wanted ++ " but " ++ toString (given + 1) ++ " were given"
  | unwanted name => "got an unexpected keyword argument '" ++ name ++ "'"
  | repeated name => "got multiple values for argument '" ++ name ++ "'"

end Misuse

/-- The data that is wanted. -/
structure Signature where
  /-- Who wants it. -/
  owner : Text
  /-- The names of the pieces in order, with what stands for them where they are not given. -/
  parameters : List (Text × Option Value)

namespace Signature

/-- The names of the wanted pieces. -/
def names (g : Signature) : List Text := g.parameters.map (·.1)

/-- The misuse of a piece that is given by name. -/
def misuse? (g : Signature) (a : Arguments) (name : Text) : Option Misuse :=
  if name = Misuse.itself then some (.repeated name)
  else if !g.names.contains name then some (.unwanted name)
  else if (g.names.take a.positional.length).contains name then some (.repeated name)
  else none

/-- The number of pieces that nothing else stands for. -/
def least (g : Signature) : Nat := (g.parameters.filter fun p => p.2.isNone).length

/-- Wanted pieces with their values, where the pieces given in order come first; a piece without a
value is left open. -/
def assign (named : List (Text × Value)) :
    List (Text × Option Value) → List Value → List (Text × Option Value)
  | [], _ => []
  | (name, _) :: rest, v :: more => (name, some v) :: assign named rest more
  | (name, default) :: rest, [] =>
    (name, (named.lookup name).or default) :: assign named rest []

/-- Assigning arguments keeps the names of the parameters. -/
theorem names_assign (named : List (Text × Value)) (l : List (Text × Option Value))
    (given : List Value) : (assign named l given).map (·.1) = l.map (·.1) := by
  fun_induction assign named l given <;> simp_all

/-- The wanted pieces with their values. -/
def bind (g : Signature) (a : Arguments) : Except Misuse (List (Text × Value)) :=
  match a.named.findSome? fun e => g.misuse? a e.1 with
  | some m => .error m
  | none =>
    if g.parameters.length < a.positional.length then
      .error (.surplus g.least g.parameters.length a.positional.length)
    else
      let assigned := assign a.named g.parameters a.positional
      match assigned.filter fun p => p.2.isNone with
      | [] => .ok (assigned.map fun p => (p.1, p.2.getD .null))
      | missing => .error (.absent (missing.map (·.1)))

/-- **What is bound is what is wanted, in its order.** -/
theorem names_bind {g : Signature} {a : Arguments} {l : List (Text × Value)}
    (h : g.bind a = .ok l) : l.map (·.1) = g.names := by
  unfold bind at h
  split at h
  · cases h
  · split at h
    · cases h
    · dsimp only at h
      split at h
      · cases h
        simp only [List.map_map, Function.comp_def]
        exact names_assign a.named g.parameters a.positional
      · cases h

end Signature

end Gatehouse
