import Gatehouse.Collections.Named
import Gatehouse.Digest.Sha256
import Gatehouse.Text.Canonical
import Gatehouse.Value.Normal

/-!
# Policies, rules and tokens

A rule grants requested names of one resource, on every instance or on one exact instance.  A policy
is a named list of rules; a token names the policies that a secret is bound to.  The digest of a
policy identifies its content and serves as its version where its store supplies none.
-/

namespace Gatehouse

/-- The instance filter that matches every instance. -/
def wildcard : Text := "*"

/-- A grant of requested names on one resource. -/
structure Rule where
  /-- The resource. -/
  resource : Text
  /-- The instances: all of them, or the one of this name. -/
  filter : Text
  /-- The requested names, of capabilities or aliases. -/
  capabilities : List Text
deriving DecidableEq

/-- Whether a rule is about every instance. -/
def Rule.isWildcard (r : Rule) : Bool := r.filter == wildcard

/-- A named list of rules. -/
structure Policy where
  /-- The name in the host's store. -/
  name : Text
  /-- The rules, as authored. -/
  rules : List Rule
  /-- The version that the store supplies; the absent value if there is none. -/
  version : Value
deriving DecidableEq

/-- The names of the policies that a secret is bound to. -/
structure Token where
  /-- The names of the policies. -/
  policies : List Text
  /-- An identifier that is no secret. -/
  accessor : Option Text
  /-- A description. -/
  description : Text
deriving DecidableEq

namespace Policy

/-- The content of a policy as a document: its name, and for each rule the resource, the filter and
the requested names in order. -/
def document (p : Policy) : Text.Document :=
  .array [.text p.name, .array (p.rules.map fun r =>
    .array [.text r.resource, .text r.filter, Text.Document.texts (sortNames r.capabilities)])]

/-- The text that identifies the content of a policy. -/
def digestText (p : Policy) : Text := p.document.render

/-- The digest of the content. -/
def digest (p : Policy) : Text := Digest.ofText p.digestText

/-- The version under which a compiled form is kept: the store's, or the digest where what the store
supplies counts as nothing. -/
def cacheVersion (p : Policy) : Value := if p.version.isVacant then .text p.digest else p.version

end Policy

end Gatehouse
