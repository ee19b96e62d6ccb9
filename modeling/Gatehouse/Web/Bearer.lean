import Gatehouse.Problem
import Gatehouse.Text.Blank

/-!
# Bearer secrets

The value of an authorization header that carries a secret is the word `Bearer`, one space, and the
secret, around which blanks may stand.
-/

namespace Gatehouse.Web

/-- What a header that carries a secret begins with. -/
def bearerScheme : Text := "Bearer "

/-- The secret in the value of an authorization header. -/
def bearerSecret (header : Text) : Option Text :=
  match bearerScheme.points.isPrefixOf? header.points with
  | none => none
  | some rest =>
    let secret := Text.stripPoints rest
    if secret.isEmpty then none else some ⟨secret⟩

/-- The secret in data that is offered as such a value: only a text begins with anything. -/
def bearerSecretOf : Value → Except Problem (Option Text)
  | .text header => .ok (bearerSecret header)
  | v => .error (.lacks v.shapeName "startswith")

end Gatehouse.Web
