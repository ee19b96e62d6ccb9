import Gatehouse.Policy.Compiled
import Gatehouse.Value.Document

/-!
# Compiled policies with names of any shape

The name of a policy and the filters of its rules are texts, but a host can offer other data in
their places, and it is carried along; and a host can take the fingerprint of a model away.  A
`LooseCompiledPolicy` is a compiled policy of which some of these are no texts.  `AnyCompiled` is a
compiled policy of either sort.  Resources and capabilities are always texts, as a model knows no
others.
-/

namespace Gatehouse

/-- One rule after the expansion of its requested names, with a filter of any shape. -/
structure LooseCompiledRule where
  /-- The instances: all of them, or those that are equal to this. -/
  filter : Value
  /-- The granted capabilities. -/
  capabilities : NameSet
deriving DecidableEq

/-- A rule whose filter happens to be a text. -/
def CompiledRule.loosen (r : CompiledRule) : LooseCompiledRule := ⟨r.filter, r.capabilities⟩

/-- Whether a rule is about an instance that is given as data of any shape. -/
def CompiledRule.isAboutDatum (r : CompiledRule) : Value → Bool
  | .text item => r.isAbout item
  | _ => r.isWildcard

namespace LooseCompiledRule

/-- Whether the rule is about every instance. -/
def isWildcard (r : LooseCompiledRule) : Bool := r.filter == .text wildcard

/-- Whether the rule is about an instance. -/
def isAbout (r : LooseCompiledRule) (item : Value) : Bool := r.isWildcard || r.filter.same item

/-- Whether two rules are equal. -/
def same (r s : LooseCompiledRule) : Bool :=
  r.filter.same s.filter && decide (r.capabilities = s.capabilities)

/-- A rule as a document. -/
def document (r : LooseCompiledRule) : Text.Document :=
  .array [r.filter.document, Text.Document.texts r.capabilities.names]

end LooseCompiledRule

/-- A compiled policy of which the name and the filters are of any shape. -/
structure LooseCompiledPolicy where
  /-- The name of the policy. -/
  name : Value
  /-- The fingerprint of the model it was compiled against; the absent value if it has none. -/
  modelFingerprint : Value
  /-- The rules in order, each with its resource. -/
  authored : List (Text × LooseCompiledRule)
deriving DecidableEq

namespace LooseCompiledPolicy

/-- The rules by resource. -/
def rules (p : LooseCompiledPolicy) : NameMap (List LooseCompiledRule) := NameMap.group p.authored

/-- The rules, those of one resource side by side, in the order in which the resources come up. -/
def gathered (p : LooseCompiledPolicy) : List LooseCompiledRule :=
  (OrderedMap.distinct (p.authored.map (·.1))).flatMap fun resource =>
    (p.authored.filter fun e => e.1 == resource).map (·.2)

/-- The content as a document: the name, the model's fingerprint, and the rules by resource. -/
def document (p : LooseCompiledPolicy) : Text.Document :=
  .array [p.name.document, p.modelFingerprint.document, .object (p.rules.entries.map fun e =>
    (e.1, .array (e.2.map LooseCompiledRule.document)))]

/-- The digest of the content. -/
def fingerprint (p : LooseCompiledPolicy) : Text := Digest.ofText p.document.render

/-- A compiled policy in one line. -/
def summary (p : LooseCompiledPolicy) : Text :=
  "CompiledPolicy(" ++ p.name.literal ++ ", resources=" ++ Text.quotedList p.rules.names ++
    ", rules=" ++ toString p.authored.length ++ ")"

/-- Whether two lists of rules are equal. -/
def sameRules : List LooseCompiledRule → List LooseCompiledRule → Bool
  | [], [] => true
  | r :: rest, s :: more => r.same s && sameRules rest more
  | _, _ => false

/-- Whether two compiled policies are equal. -/
def same (p q : LooseCompiledPolicy) : Bool :=
  p.name.same q.name && p.modelFingerprint.same q.modelFingerprint &&
    p.rules.names == q.rules.names &&
    (p.rules.entries.zip q.rules.entries).all fun e => sameRules e.1.2 e.2.2

end LooseCompiledPolicy

/-- A compiled policy whose name and filters are all texts. -/
def CompiledPolicy.loosen (p : CompiledPolicy) : LooseCompiledPolicy :=
  ⟨p.name, p.modelFingerprint, p.rules.entries.flatMap fun e => e.2.map fun r => (e.1, r.loosen)⟩

/-- A compiled policy. -/
inductive AnyCompiled where
  /-- Its name and its filters are texts. -/
  | strict (p : CompiledPolicy)
  /-- Its name or a filter is other data. -/
  | loose (p : LooseCompiledPolicy)
deriving DecidableEq

namespace AnyCompiled

/-- The policy with its name and filters as data. -/
def loosen : AnyCompiled → LooseCompiledPolicy
  | strict p => p.loosen
  | loose p => p

/-- The name. -/
def name : AnyCompiled → Value
  | strict p => p.name
  | loose p => p.name

/-- The fingerprint of the model that the policy was compiled against. -/
def modelFingerprint : AnyCompiled → Value
  | strict p => p.modelFingerprint
  | loose p => p.modelFingerprint

/-- The policy with another fingerprint of its model. -/
def withModel (p : AnyCompiled) (modelFingerprint : Value) : AnyCompiled :=
  match p, modelFingerprint with
  | strict p, .text s => strict { p with modelFingerprint := s }
  | p, m => loose { p.loosen with modelFingerprint := m }

/-- The digest of the content. -/
def fingerprint : AnyCompiled → Text
  | strict p => p.fingerprint
  | loose p => p.fingerprint

/-- A compiled policy in one line. -/
def summary : AnyCompiled → Text
  | strict p => p.summary
  | loose p => p.summary

/-- The names of the resources that there are rules for. -/
def resources : AnyCompiled → List Text
  | strict p => p.rules.names
  | loose p => p.rules.names

/-- The rules for a resource, and whether each of them is about an instance. -/
def rulesAbout (p : AnyCompiled) (resource : Text) (item : Value) :
    List (LooseCompiledRule × Bool) :=
  match p with
  | strict p => (p.rulesFor resource).map fun r => (r.loosen, r.isAboutDatum item)
  | loose p => ((p.rules.find? resource).getD []).map fun r => (r, r.isAbout item)

/-- Whether two compiled policies are equal.  One with other data is equal to none with texts. -/
def same : AnyCompiled → AnyCompiled → Bool
  | strict p, strict q => decide (p = q)
  | loose p, loose q => p.same q
  | _, _ => false

/-- The rules by resource. -/
def rules : AnyCompiled → NameMap (List LooseCompiledRule)
  | strict p => p.rules.mapValues (List.map CompiledRule.loosen)
  | loose p => p.rules

/-- The strict policies that a list consists of, if it does. -/
def allStrict? : List AnyCompiled → Option (List CompiledPolicy)
  | [] => some []
  | strict p :: rest => (allStrict? rest).map (p :: ·)
  | loose _ :: _ => none

/-- Compiled policies of texts are read as these. -/
theorem allStrict?_map_strict (l : List CompiledPolicy) : allStrict? (l.map strict) = some l := by
  induction l with
  | nil => rfl
  | cons p rest ih => simp [allStrict?, ih]

/-- A compiled rule is the same as itself. -/
theorem LooseCompiledRule.same_self (r : LooseCompiledRule) : r.same r = true := by
  simp [LooseCompiledRule.same, Value.same_self]

/-- Rules are the same as themselves, one by one. -/
theorem sameRules_self (l : List LooseCompiledRule) :
    LooseCompiledPolicy.sameRules l l = true := by
  induction l with
  | nil => rfl
  | cons r rest ih => simp [LooseCompiledPolicy.sameRules, LooseCompiledRule.same_self, ih]

/-- Every compiled policy is equal to itself. -/
theorem same_self (p : AnyCompiled) : p.same p = true := by
  cases p with
  | strict p => simp [same]
  | loose p =>
    simp only [same, LooseCompiledPolicy.same, Value.same_self, beq_self_eq_true, Bool.true_and,
      Bool.and_self, List.all_eq_true]
    intro e he
    have : e.1 = e.2 := by
      rw [List.mem_iff_getElem] at he
      obtain ⟨i, hi, rfl⟩ := he
      simp
    rw [this, sameRules_self]

end AnyCompiled

end Gatehouse
