import Gatehouse.Model.Basic
import Gatehouse.Policy.Basic

/-!
# Compiled policies

Compiling a policy against a validated model replaces the requested names of every rule by the
capabilities that they stand for, and groups the rules by resource, each group in policy order.  A
rule about an unknown resource, or one that requests an unknown name, makes the compilation fail;
the first faulty rule is reported, and in it the least faulty name.  The result depends on the
policy's name and rules and on the model only.
-/

namespace Gatehouse

/-- One rule after the expansion of its requested names. -/
structure CompiledRule where
  /-- The instances: all of them, or the one of this name. -/
  filter : Text
  /-- The granted capabilities. -/
  capabilities : NameSet
deriving DecidableEq

namespace CompiledRule

/-- Whether the rule is about every instance. -/
def isWildcard (r : CompiledRule) : Bool := r.filter == wildcard

/-- Whether the rule is about an instance. -/
def isAbout (r : CompiledRule) (item : Text) : Bool := r.isWildcard || r.filter == item

end CompiledRule

/-- A compiled policy: its rules by resource, each group in policy order. -/
structure CompiledPolicy where
  /-- The name of the policy. -/
  name : Text
  /-- The fingerprint of the model it was compiled against. -/
  modelFingerprint : Text
  /-- The rules by resource. -/
  rules : NameMap (List CompiledRule)
deriving DecidableEq

namespace CompiledPolicy

/-- The rules for a resource. -/
def rulesFor (p : CompiledPolicy) (resource : Text) : List CompiledRule :=
  (p.rules.find? resource).getD []

/-- The content as a document: the name, the model's fingerprint, and the rules by resource. -/
def document (p : CompiledPolicy) : Text.Document :=
  .array [.text p.name, .text p.modelFingerprint, .object (p.rules.entries.map fun e =>
    (e.1, .array (e.2.map fun r =>
      .array [.text r.filter, Text.Document.texts r.capabilities.names])))]

/-- The text that identifies the content. -/
def fingerprintText (p : CompiledPolicy) : Text := p.document.render

/-- The digest of the content. -/
def fingerprint (p : CompiledPolicy) : Text := Digest.ofText p.fingerprintText

/-- The number of rules. -/
def ruleCount (p : CompiledPolicy) : Nat :=
  p.rules.entries.foldl (fun n e => n + e.2.length) 0

/-- A compiled policy in one line. -/
def summary (p : CompiledPolicy) : Text :=
  "CompiledPolicy(" ++ Text.quoted p.name ++ ", resources=" ++ Text.quotedList p.rules.names ++
    ", rules=" ++ toString p.ruleCount ++ ")"

end CompiledPolicy

namespace Rule

/-- A rule with its requested names expanded, in increasing order of the names. -/
def compile (m : ValidModel) (policy : Text) (r : Rule) : Except Fault CompiledRule :=
  match m.resources.find? r.resource with
  | none => .error (.unknownResource r.resource policy)
  | some d =>
    match d.expandNames ((m.expansions.find? r.resource).getD ∅) r.resource
        (sortNames r.capabilities) ∅ with
    | .ok found => .ok ⟨r.filter, found⟩
    | .error (.unknownCapability resource name _) =>
      .error (.unknownCapability resource name policy)
    | .error f => .error f

/-- Rules compiled in order, each with its resource; the first faulty one is reported. -/
def compileEach (m : ValidModel) (policy : Text) :
    List Rule → Except Fault (List (Text × CompiledRule))
  | [] => .ok []
  | r :: rest =>
    match r.compile m policy with
    | .error f => .error f
    | .ok c =>
      match compileEach m policy rest with
      | .error f => .error f
      | .ok more => .ok ((r.resource, c) :: more)

end Rule

namespace Policy

/-- Compiles a policy against a validated model. -/
def compile (m : ValidModel) (p : Policy) : Except Fault CompiledPolicy :=
  match Rule.compileEach m p.name p.rules with
  | .error f => .error f
  | .ok rules => .ok ⟨p.name, m.fingerprint, NameMap.group rules⟩

end Policy

end Gatehouse
