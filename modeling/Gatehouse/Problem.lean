import Gatehouse.Fault.Kind
import Gatehouse.Problem.Host
import Gatehouse.Validation.Display
import Gatehouse.Value.Order

/-!
# Problems and failures

Whatever can go wrong in a call: a fault of the engine, data that does not have the required shape,
a refusal of a cache, a thing that is not of the kind that is called for, an attempt to change what
cannot change, or a problem that a collaborator of the host raised.  A `Failure` is a problem
together with the problem that it was raised from.
-/

namespace Gatehouse

/-- Whatever can go wrong in a call. -/
inductive Problem where
  /-- A fault of the engine. -/
  | fault (f : Fault)
  /-- Data without the required shape. -/
  | invalid (report : Validation.Report)
  /-- A problem of the host: its kind and its arguments. -/
  | host (kind : String) (arguments : List Value)
  /-- Data was given as a number of seconds that is no such number, or too large a one. -/
  | notSeconds (v : Value)
  /-- Someone was given data that does not fit what is wanted. -/
  | misuse (callee : Text) (m : Misuse)
  /-- Data of this shape stands at a place among texts that are to be joined. -/
  | notJoinable (place : Nat) (shape : Text)
  /-- Data was to be put in order that cannot be compared. -/
  | notOrdered (i : Incomparable)
  /-- A cache was asked to keep the absent value. -/
  | nothingToKeep
  /-- A cache was set up without room for an entry. -/
  | noRoom
  /-- A cache was asked for a value while it computes that very value. -/
  | waitsForItself
  /-- An attribute of something immutable was set. -/
  | immutable (what : Text)
  /-- An attribute that can only be read was set. -/
  | readOnly (shape part : Text)
  /-- Something of this shape was to do something, but is mere data. -/
  | notCallable (shape : Text)
  /-- A cache key is too short to have the component that was asked for. -/
  | keyTooShort (shape : Text)
  /-- Data of this shape is no key, nor part of one, and is no member of a set. -/
  | unfitForKey (shape : Text)
  /-- A cache key of this shape has no components. -/
  | noComponents (shape : Text)
  /-- Something of this shape has no length. -/
  | noLength (shape : Text)
  /-- Data of this shape cannot be gone through. -/
  | noElements (shape : Text)
  /-- A length was compared with data of this shape. -/
  | noBound (shape : Text)
  /-- Things of these shapes cannot be combined by an operator. -/
  | notCombinable (operator left right : Text)
  /-- Something of this shape cannot be held while something else is done. -/
  | notHeld (shape : Text)
  /-- Something of this shape has no members to look among. -/
  | noMembers (shape : Text)
  /-- Something was to be counted by a number that is not whole. -/
  | noPlace
  /-- Something of this shape lacks the part that it is asked for. -/
  | lacks (shape part : Text)
  /-- Nothing is kept under this name. -/
  | noSuchItem (name : Text)
deriving DecidableEq

namespace Problem

/-- The name of a problem's kind. -/
def kind : Problem → String
  | notSeconds (.text _) => "ValueError"
  | notSeconds (.int _) => "OverflowError"
  | notSeconds _ => "TypeError"
  | fault f => f.kind
  | invalid _ => "ValidationError"
  | host k _ => k
  | nothingToKeep | noRoom => "ValueError"
  | waitsForItself => "RuntimeError"
  | immutable _ | readOnly .. | lacks .. => "AttributeError"
  | keyTooShort _ => "IndexError"
  | misuse .. | notJoinable .. | notOrdered _ | notCallable _ | notCombinable .. => "TypeError"
  | notHeld _ | noMembers _ | noPlace => "TypeError"
  | unfitForKey _ | noComponents _ | noLength _ | noElements _ | noBound _ => "TypeError"
  | noSuchItem _ => "NoSuchItem"

/-- The text of a problem. -/
def text : Problem → Text
  | fault f => f.message
  | invalid r => r.display
  | host k args => HostProblem.text k args
  | notSeconds (.text s) => "could not convert string to float: " ++ Text.quoted s
  | notSeconds (.int _) => "int too large to convert to float"
  | notSeconds v =>
    "float() argument must be a string or a real number, not " ++ Text.quoted v.shapeName
  | misuse callee m => callee ++ "() " ++ m.message
  | notJoinable place shape =>
    "sequence item " ++ toString place ++ ": expected str instance, " ++ shape ++ " found"
  | notOrdered i =>
    "'<' not supported between instances of " ++ Text.quoted i.left ++ " and " ++
      Text.quoted i.right
  | nothingToKeep => "Cannot cache None"
  | noRoom => "max_entries must be at least 1"
  | waitsForItself => "a value cannot be computed from itself"
  | immutable what => what ++ " is immutable"
  | readOnly shape part =>
    "property " ++ Text.quoted part ++ " of " ++ Text.quoted shape ++ " object has no setter"
  | notCallable shape => Text.quoted shape ++ " object is not callable"
  | keyTooShort shape => shape ++ " index out of range"
  | unfitForKey shape => "unhashable type: " ++ Text.quoted shape
  | noComponents shape => Text.quoted shape ++ " object is not subscriptable"
  | noLength shape => "object of type " ++ Text.quoted shape ++ " has no len()"
  | noElements shape => Text.quoted shape ++ " object is not iterable"
  | noBound shape => "'>' not supported between instances of 'int' and " ++ Text.quoted shape
  | notCombinable operator left right =>
    "unsupported operand type(s) for " ++ operator ++ ": " ++ Text.quoted left ++ " and " ++
      Text.quoted right
  | notHeld shape =>
    Text.quoted shape ++ " object does not support the context manager protocol"
  | noMembers shape => "argument of type " ++ Text.quoted shape ++ " is not iterable"
  | noPlace => "slice indices must be integers or None or have an __index__ method"
  | lacks shape part =>
    Text.quoted shape ++ " object has no attribute " ++ Text.quoted part
  | noSuchItem name => name

/-- The text of a problem, or its kind if it has none. -/
def reason (p : Problem) : Text := if p.text = "" then p.kind else p.text

/-- Whether a problem is breakage that the engine reports as it is. -/
def isEngine : Problem → Bool
  | fault f => f.isEngine
  | _ => false

/-- The problem of building a fault from data that does not make one. -/
def ofUnbuilt : Fault.Unbuilt → Problem
  | .misuse callee m => misuse callee m
  | .noElements shape => noElements shape
  | .noName place shape => notJoinable place shape

/-- The problem of the host that is raised under a name, or that its arguments are refused. -/
def ofHost (name : String) (arguments : List Value) : Problem :=
  match HostProblem.refusal? name arguments with
  | some (kind, text) => host kind [.text text]
  | none => host (HostProblem.kindOf name arguments) arguments

/-- The problem of a kind, built from its arguments: a fault of the engine if there is one of that
kind, else a problem of the host.  That the arguments do not fit is a problem of its own. -/
def ofKind (kind : String) (arguments : List Value) : Problem :=
  match Fault.ofKind? kind ⟨arguments, []⟩ with
  | some (.ok f) => fault f
  | some (.error u) => ofUnbuilt u
  | none => ofHost kind arguments

end Problem

/-- A problem, and the problem that it was raised from. -/
structure Failure where
  /-- What went wrong. -/
  problem : Problem
  /-- What made it go wrong, if the problem reports another one. -/
  cause : Option Problem
deriving DecidableEq

namespace Failure

/-- A fault that reports no other problem. -/
def ofFault (f : Fault) : Failure := ⟨.fault f, none⟩

/-- A problem that reports no other one. -/
def ofProblem (p : Problem) : Failure := ⟨p, none⟩

end Failure

end Gatehouse
