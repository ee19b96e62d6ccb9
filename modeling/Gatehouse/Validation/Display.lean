import Gatehouse.Text.Clipped
import Gatehouse.Validation.Report

/-!
# The text of a report

How a message shows a report of invalid data: a line that counts the issues, and for each issue the
way to the data, what is wrong with it, the data itself as far as there is room for it, and where
more is said about complaints of its kind if the report comes with a guide to them.
-/

namespace Gatehouse.Validation

/-- A step as a message shows it. -/
def Step.display : Step → Text
  | field name => name
  | item index => toString index

/-- The number of bytes in which a message shows a piece of data. -/
def shownBytes : Nat := 50

namespace Issue

/-- The kind of an issue and the data that it is about. -/
def facts (i : Issue) : List Text :=
  ("type=" ++ i.complaint.tag) :: match i.found with
    | none => []
    | some v => ["input_value=" ++ Text.clipped shownBytes v.literal, "input_type=" ++ v.shapeName]

/-- The lines of an issue, with the page of a guide on complaints of its kind if there is a guide; an
issue of the data as a whole does not show the way to it. -/
def lines (guide : Option Text) (i : Issue) : List Text :=
  (if i.path.isEmpty then [] else [Text.intercalate "." (i.path.map Step.display)]) ++
    ("  " ++ i.complaint.message ++ " [" ++ Text.intercalate ", " i.facts ++ "]") ::
      (guide.map fun g => "    For further information visit " ++ g ++ i.complaint.tag).toList

end Issue

namespace Report

/-- The line that counts the issues. -/
def heading (r : Report) : Text :=
  toString r.issues.length ++ " validation error" ++ (if r.issues.length = 1 then "" else "s") ++
    " for " ++ r.title

/-- A report as a message shows it. -/
def display (r : Report) : Text :=
  Text.intercalate "\n" (r.heading :: r.issues.flatMap (Issue.lines r.guide))

end Report

end Gatehouse.Validation
