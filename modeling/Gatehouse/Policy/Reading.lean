import Gatehouse.Policy.Basic
import Gatehouse.Validation.Report
import Gatehouse.Value

/-!
# Reading policies from data

Checks data of unknown shape and builds rules, policies and tokens from it.  Unknown members are
ignored, absent ones have their defaults, nothing is converted, and every issue is reported in the
order of the fields.
-/

namespace Gatehouse

open Validation

namespace Validation

/-- A text. -/
def checkText : Value → Checked Text
  | .text s => .ok s
  | v => complain .notText v

/-- A text of at least one character.  The characters of a text with surrogates cannot be counted. -/
def checkFilledText : Value → Checked Text
  | .text s =>
    if !s.isUnicode then complain .notUnicode (.text s)
    else if s = "" then complain .emptyText (.text s)
    else .ok s
  | v => complain .notText v

/-- A text or the absent value, as it is. -/
def checkLabel : Value → Checked Value
  | .null => .ok .null
  | .text s => .ok (.text s)
  | v => complain .notText v

/-- A text, or the absent value. -/
def checkOptionalText : Value → Checked (Option Text)
  | .null => .ok none
  | .text s => .ok (some s)
  | v => complain .notText v

/-- A sequence whose items pass a check; any other data has the given complaint. -/
def checkSequence {α : Type} (otherwise : Complaint) (check : Value → Checked α) :
    Value → Checked (List α)
  | .list items => checkItems check 0 items
  | v => complain otherwise v

/-- A required member of a record. -/
def required {α : Type} (v : Value) (name : Text) (check : Value → Checked α) : Checked α :=
  Checked.under (.field name) (match v.field? name with
    | none => complain .missing v
    | some x => check x)

/-- A member of a record with a default. -/
def optional {α : Type} (v : Value) (name : Text) (default : α) (check : Value → Checked α) :
    Checked α :=
  match v.field? name with
  | none => .ok default
  | some x => Checked.under (.field name) (check x)

/-- Whether a value is a record. -/
def isRecord : Value → Bool
  | .object _ => true
  | _ => false

end Validation

namespace Rule

/-- A rule read from data; its requested names form a set. -/
def check (v : Value) : Checked Rule :=
  if isRecord v then
    ((required v "resource" checkFilledText).both
      ((optional v "instance" wildcard checkFilledText).both
        (optional v "capabilities" [] (checkSequence .notSet checkText)))).map
      fun r => ⟨r.1, r.2.1, (NameSet.ofNames r.2.2).names⟩
  else complain (.notRecord "Rule") v

end Rule

namespace Policy

/-- A policy read from data. -/
def check (v : Value) : Checked Policy :=
  if isRecord v then
    ((required v "name" checkFilledText).both
      ((optional v "rules" [] (checkSequence .notSequence Rule.check)).both
        (optional v "version" .null checkLabel))).map
      fun r => ⟨r.1, r.2.1, r.2.2⟩
  else complain (.notRecord "Policy") v

end Policy

namespace Token

/-- A token read from data. -/
def check (v : Value) : Checked Token :=
  if isRecord v then
    ((optional v "policies" [] (checkSequence .notSequence checkText)).both
      ((optional v "accessor" none checkOptionalText).both
        (optional v "description" ("" : Text) checkText))).map
      fun r => ⟨r.1, r.2.1, r.2.2⟩
  else complain (.notRecord "Token") v

end Token

end Gatehouse
