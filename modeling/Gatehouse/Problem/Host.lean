import Gatehouse.Value.Order

/-!
# Problems of a host

A host raises problems of its own: each has a kind and arguments of any shape.  A few kinds go by
several names, and a problem of the operating system that comes with one of its numbers is of the
kind that the number stands for (`HostProblem.kindOf`).  Some kinds want particular arguments, and
raising them with others is a problem of another kind (`HostProblem.refusal?`).  The text of a
problem shows its arguments (`HostProblem.text`).
-/

namespace Gatehouse.HostProblem

/-! ### Problems of the operating system -/

/-- The kind of problems of the operating system. -/
def systemKind : String := "OSError"

/-- The other names of that kind. -/
def systemNames : List String := ["EnvironmentError", "IOError"]

/-- The kind of an operation that would block; what stands in the place of a file may be a count. -/
def blockingKind : String := "BlockingIOError"

/-- The particular kinds of problems of the operating system, with the numbers that stand for
them. -/
def numberedKinds : List (String × List Int) :=
  [(blockingKind, [11, 114, 115]), ("BrokenPipeError", [32, 108]),
    ("ChildProcessError", [10]), ("ConnectionAbortedError", [103]),
    ("ConnectionRefusedError", [111]), ("ConnectionResetError", [104]),
    ("FileExistsError", [17]), ("FileNotFoundError", [2]), ("InterruptedError", [4]),
    ("IsADirectoryError", [21]), ("NotADirectoryError", [20]), ("PermissionError", [1, 13]),
    ("ProcessLookupError", [3]), ("TimeoutError", [110])]

/-- Whether a kind is one of problems of the operating system. -/
def isSystem (kind : String) : Bool :=
  kind == systemKind || kind == "ConnectionError" || numberedKinds.any fun e => e.1 == kind

/-- The whole number that a piece of data is. -/
def number? : Value → Option Int
  | .int n => some n
  | .bool b => some (if b then 1 else 0)
  | _ => none

/-- Whether a problem of the operating system has its arguments in their usual places: a number and
a wording, and perhaps a file and another one, with something else between them. -/
def isPlaced (arguments : List Value) : Bool := 2 ≤ arguments.length && arguments.length ≤ 5

/-- The kind of a problem that is raised under a name. -/
def kindOf (name : String) (arguments : List Value) : String :=
  if name == systemKind || systemNames.contains name then
    match arguments with
    | first :: _ =>
      let particular := (number? first).bind fun n =>
        numberedKinds.find? fun e => e.2.contains n
      if isPlaced arguments then (particular.map (·.1)).getD systemKind else systemKind
    | [] => systemKind
  else name

/-- The files that a problem of the operating system is about: one, or two of them.  What stands in
the place of a file may also be a count, if the problem is that of an operation that would block. -/
def files (kind : String) : List Value → Text
  | [] | .null :: _ => ""
  | file :: rest =>
    if kind == blockingKind && (number? file).isSome then ""
    else ": " ++ file.literal ++
      match rest with
      | [] | [_] | [_, .null] => ""
      | _ :: other :: _ => " -> " ++ other.literal

/-! ### Particular arguments -/

/-- The bound of the sizes that the machine can count: they lie below it, and not below its
negative. -/
def sizeBound : Int := 9223372036854775808

/-- Whether a whole number is the size of something that the machine can count. -/
def isSize (n : Int) : Bool := -sizeBound ≤ n && n < sizeBound

/-- The refusal of arguments: the kind of problem that it is, and its text. -/
abbrev Refusal := String × Text

/-- Arguments of a wrong shape, or too many or too few of them. -/
def wrongUse (text : Text) : Refusal := ("TypeError", text)

/-- Arguments with a value that cannot be used. -/
def wrongValue (text : Text) : Refusal := ("ValueError", text)

/-- The refusal of data that is no size, with the refusal of a whole number that is too large. -/
def sizeRefusal? (oversized : Refusal) (v : Value) : Option Refusal :=
  match number? v with
  | some n => if isSize n then none else some oversized
  | none =>
    some (wrongUse (Text.quoted v.shapeName ++ " object cannot be interpreted as an integer"))

/-- The refusal of a count that is given in the place of a file. -/
def countRefusal? : List Value → Option Refusal
  | _ :: _ :: v :: _ =>
    v.number?.bind fun _ =>
      sizeRefusal? (wrongValue "cannot fit 'int' into an index-sized integer") v
  | _ => none

/-- The name of the shape of an argument. -/
def argumentShape (v : Value) : Text := if v = .null then "None" else v.shapeName

/-- The refusal of an argument that is no text. -/
def textRefusal? (callee : Text) (place : Nat) (v : Value) : Option Refusal :=
  match v with
  | .text _ => none
  | v => some (wrongUse (callee ++ "argument " ++ toString place ++ " must be str, not " ++
      argumentShape v))

/-- What a kind wants in one place. -/
inductive Want where
  /-- A text. -/
  | text
  /-- The size of something that the machine can count. -/
  | size
  /-- Anything. -/
  | any

/-- The refusal of an argument in a place where something is wanted. -/
def wantRefusal? (place : Nat) : Want → Value → Option Refusal
  | .text, v => textRefusal? "" place v
  | .size, v =>
    sizeRefusal? ("OverflowError", "Python int too large to convert to C ssize_t") v
  | .any, _ => none

/-- The refusal of the first argument that is not what is wanted in its place. -/
def placesRefusal? (place : Nat) : List Want → List Value → Option Refusal
  | w :: wants, v :: arguments =>
    (wantRefusal? place w v).or (placesRefusal? (place + 1) wants arguments)
  | _, _ => none

/-- The refusal of a number of arguments. -/
def numberRefusal (bound : Text) (wanted given : Nat) : Refusal :=
  wrongUse ("function takes " ++ bound ++ " " ++ toString wanted ++ " arguments (" ++
    toString given ++ " given)")

/-- The refusal of arguments that are not those that are wanted. -/
def wantedRefusal? (wants : List Want) (arguments : List Value) : Option Refusal :=
  if arguments.length = wants.length then placesRefusal? 1 wants arguments
  else some (numberRefusal "exactly" wants.length arguments.length)

/-- The refusal of arguments of a problem of encoded text: the text must be bytes, and no data
is. -/
def encodedRefusal? (arguments : List Value) : Option Refusal :=
  (wantedRefusal? [.text, .any, .size, .size, .text] arguments).or
    (arguments[1]?.map fun v =>
      wrongUse ("a bytes-like object is required, not " ++ Text.quoted v.shapeName))

/-- Who takes the arguments of a group of problems. -/
def groupCallee : Text := "BaseExceptionGroup.__new__()"

/-- The refusal of arguments of a group of problems: no data is a problem. -/
def groupRefusal? : List Value → Option Refusal
  | [wording, members] =>
    (textRefusal? (groupCallee ++ " ") 1 wording).or <| some <|
      match members with
      | .text ⟨[]⟩ | .list [] =>
        wrongValue "second argument (exceptions) must be a non-empty sequence"
      | .text _ | .list _ =>
        wrongValue "Item 0 of second argument (exceptions) is not an exception"
      | _ => wrongUse "second argument (exceptions) must be a sequence"
  | arguments =>
    some (wrongUse (groupCallee ++ " takes exactly 2 arguments (" ++ toString arguments.length ++
      " given)"))

/-- Whether a kind is that of faulty source text, whose second argument may be a location. -/
def isSource (kind : String) : Bool :=
  ["SyntaxError", "IndentationError", "TabError"].contains kind

/-- The refusal of a location: what is found by going through it is a file, a line, a column and the
text there, and perhaps where the fault ends. -/
def locationRefusal? : List Value → Option Refusal
  | [_, location] =>
    match location.elements? with
    | none => some (wrongUse (Text.quoted location.shapeName ++ " object is not iterable"))
    | some parts =>
      if parts.length < 4 then some (numberRefusal "at least" 4 parts.length)
      else if 6 < parts.length then some (numberRefusal "at most" 6 parts.length)
      else if parts.length = 5 then
        some (wrongUse "end_offset must be provided when end_lineno is provided")
      else none
  | _ => none

/-- The refusal of the arguments of a problem that is raised under a name. -/
def refusal? (name : String) (arguments : List Value) : Option Refusal :=
  match name with
  | "UnicodeDecodeError" => encodedRefusal? arguments
  | "UnicodeEncodeError" => wantedRefusal? [.text, .text, .size, .size, .text] arguments
  | "UnicodeTranslateError" => wantedRefusal? [.text, .size, .size, .text] arguments
  | "ExceptionGroup" | "BaseExceptionGroup" => groupRefusal? arguments
  | name =>
    if isSource name then locationRefusal? arguments
    else if kindOf name arguments == blockingKind && isPlaced arguments then
      countRefusal? arguments
    else none

/-! ### Texts -/

/-- The last part of the name of a file. -/
def baseName (file : Text) : Text :=
  ⟨(file.points.reverse.takeWhile fun (c : CodePoint) => c != '/').reverse⟩

/-- Where a fault in source text is: the file, if it is given as a text, and the line, if it is
given as a whole number. -/
def location (parts : List Value) : Text :=
  let file := match parts with
    | .text file :: _ => [baseName file]
    | _ => []
  let line := match parts with
    | _ :: .int n :: _ => ["line " ++ toString (if isSize n then n else -1)]
    | _ => []
  if file.isEmpty && line.isEmpty then "" else " (" ++ Text.intercalate ", " (file ++ line) ++ ")"

/-- The text of a fault in source text: its first argument, and the location. -/
def sourceText : List Value → Text
  | [wording, place] => wording.display ++ location (place.elements?.getD [])
  | arguments => (arguments.headD .null).display

/-- A character by its code point, in the shortest of three widths. -/
def codePoint (c : CodePoint) : Text :=
  .ofChars <|
    if c.toNat ≤ 0xff then ['\\', 'x'] ++ Text.hexDigits 2 c.toNat
    else if c.toNat ≤ 0xffff then ['\\', 'u'] ++ Text.hexDigits 4 c.toNat
    else ['\\', 'U'] ++ Text.hexDigits 8 c.toNat

/-- The characters of a text from one place up to another, and where they are. -/
def characters (text : Text) (first after : Int) : Text :=
  match if 0 ≤ first && after = first + 1 then text.points[first.toNat]? else none with
  | some c => "character '" ++ codePoint c ++ "' in position " ++ toString first
  | none => "characters in position " ++ toString first ++ "-" ++ toString (after - 1)

/-- The whole number that a piece of data is, or zero. -/
def numberOrZero (v : Value) : Int := (number? v).getD 0

/-- The text of several arguments. -/
def tupleText (arguments : List Value) : Text := "(" ++ Value.literalItems arguments ++ ")"

/-- The text of a problem: its one argument, or all of them.  A failed look-up shows its one
argument as quoted, a problem of the operating system its number, wording and files, and a problem
of characters which they are. -/
def text (kind : String) (arguments : List Value) : Text :=
  if isSource kind then sourceText arguments
  else
    match kind, arguments with
    | "UnicodeEncodeError", [codec, .text s, first, after, reason] =>
      "'" ++ codec.display ++ "' codec can't encode " ++
        characters s (numberOrZero first) (numberOrZero after) ++ ": " ++ reason.display
    | "UnicodeTranslateError", [.text s, first, after, reason] =>
      "can't translate " ++ characters s (numberOrZero first) (numberOrZero after) ++ ": " ++
        reason.display
    | _, [] => ""
    | "KeyError", [v] => v.literal
    | _, [v] => v.display
    | _, number :: wording :: rest =>
      if isSystem kind && isPlaced arguments then
        "[Errno " ++ number.display ++ "] " ++ wording.display ++ files kind rest
      else tupleText arguments

/-- Only the general problem of the operating system goes by several names. -/
theorem kindOf_eq_self {name : String} (h : name ≠ systemKind) (h' : name ∉ systemNames)
    (arguments : List Value) : kindOf name arguments = name := by
  simp [kindOf, h, h']

example : kindOf "IOError" [.text "disk"] = "OSError" := by decide +kernel

example : text "FileNotFoundError" [.int 2, .text "none", .text "f"] = "[Errno 2] none: 'f'" := by
  decide +kernel

example : text "SyntaxError" [.text "bad", .list [.text "a/f", .int 3, .int 1, .text "x"]] =
    "bad (f, line 3)" := by decide +kernel

end Gatehouse.HostProblem
