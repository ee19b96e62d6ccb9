import Gatehouse.Proofs.Policy.Agreement
import Mathlib

/-!
# What a digest is a digest of

A policy may be offered as a checked record or as an object of the host's own kind; what counts is
the texts that it consists of (`OfferedPolicy.ConsistsOf`).  The text that is digested forgets the
version and the order of the requested names of a rule, and it is written in units of UTF-16
(`Policy.digestText_eq_iff_alike`).  Main statement: policies of whole texts have the same digested
text exactly if they agree, and then every model compiles the one as the other
(`OfferedPolicy.digest_identifies`), so that the digest may stand for a version.  With a pair of
surrogates in it, it may not (`OfferedPolicy.digest_readingOf`).
-/

namespace Gatehouse

/-! ### Policies as they are offered -/

/-- **An offered rule consists of the texts of a rule.** -/
structure OfferedRule.ConsistsOf (r : OfferedRule) (s : Rule) : Prop where
  /-- Its resource is a text. -/
  resource : r.resource = .ok (.text s.resource)
  /-- Its filter is a text. -/
  filter : r.filter = .ok (.text s.filter)
  /-- Going through its capabilities gives texts, some of them repeated perhaps. -/
  capabilities : ∃ data, r.attributeOf "capabilities" = .ok data ∧
    data.elements = .ok (s.capabilities.map .text)

/-- **An offered policy consists of the texts of a policy.** -/
structure OfferedPolicy.ConsistsOf (o : OfferedPolicy) (p : Policy) : Prop where
  /-- Its name is a text. -/
  name : o.name = .text p.name
  /-- Its version is the version. -/
  version : o.version = p.version
  /-- Going through its rules gives rules of texts. -/
  rules : ∃ l, o.rules = .ok l ∧ List.Forall₂ OfferedRule.ConsistsOf l p.rules

/-- A rule has an attribute exactly if it is found among its attributes. -/
theorem OfferedRule.attributeOf_eq_ok_iff {r : OfferedRule} {name : Text} {v : Value} :
    r.attributeOf name = .ok v ↔ r.attributes.lookup name = some v := by
  unfold attributeOf
  cases r.attributes.lookup name <;> simp

/-- A rule that consists of texts is read as such. -/
theorem OfferedRule.ConsistsOf.strict?_eq {r : OfferedRule} {s : Rule} (h : r.ConsistsOf s) :
    r.strict? = some s := by
  have hresource := attributeOf_eq_ok_iff.1 h.resource
  have hfilter := attributeOf_eq_ok_iff.1 h.filter
  obtain ⟨data, hdata, helements⟩ := h.capabilities
  rw [attributeOf_eq_ok_iff] at hdata
  have htexts : data.elements? = some (s.capabilities.map .text) := by
    unfold Value.elements at helements
    split at helements
    · next l hl => rw [hl, Except.ok.inj helements]
    · cases helements
  rw [strict?, hresource, hfilter, hdata]
  simp only [htexts, Option.bind_some, Value.allTexts?_texts, Option.map_some]

namespace OfferedPolicy

variable {o o' : OfferedPolicy} {p p' : Policy}

/-- Rules that consist of texts are read as these, one by one. -/
theorem allStrict?_eq {l : List OfferedRule} {rules : List Rule}
    (h : List.Forall₂ OfferedRule.ConsistsOf l rules) : allStrict? l = some rules := by
  induction h with
  | nil => rfl
  | cons hr _ ih => rw [allStrict?, hr.strict?_eq, ih]

/-- A policy that consists of texts is read as such. -/
theorem ConsistsOf.strict?_eq (h : o.ConsistsOf p) : o.strict? = some p := by
  obtain ⟨l, hl, hrules⟩ := h.rules
  have hall := allStrict?_eq hrules
  rw [strict?, h.name, hl]
  simp only [hall, Option.map_some, h.version]

/-- The digest of a policy that consists of texts is that of these texts. -/
theorem ConsistsOf.digest_eq (h : o.ConsistsOf p) : o.digest = .ok p.digest := by
  rw [digest, h.strict?_eq]

/-- A checked policy consists of its texts. -/
theorem consistsOf_ofPolicy (p : Policy) : (ofPolicy p).ConsistsOf p := by
  refine ⟨rfl, rfl, _, rfl, ?_⟩
  rw [List.forall₂_map_left_iff]
  exact List.forall₂_same.2 fun r _ => ⟨rfl, rfl, _, rfl, rfl⟩

/-- **What a digest is a digest of.**  Of two policies that consist of texts, checked or of the
host's own kind,
* the digests are those of their digested texts;
* these texts are the same exactly if, in units of UTF-16, the policies have the same name and, one
  by one, rules with the same resource, the same filter and the same requested names in order,
  repetitions included;
* they are the same if the policies have the same name and such rules, and then every validated
  model compiles both to the same, or finds the same fault in both;
* and if no text of the policies holds a pair of surrogates, they are the same only then. -/
theorem digest_identifies (ho : o.ConsistsOf p) (ho' : o'.ConsistsOf p') :
    (o.digest = .ok (Digest.ofText p.digestText) ∧
      o'.digest = .ok (Digest.ofText p'.digestText)) ∧
    (p.digestText = p'.digestText ↔ p.name.split = p'.name.split ∧
      List.Forall₂ (fun r r' => r.resource.split = r'.resource.split ∧
        r.filter.split = r'.filter.split ∧
        (sortNames r.capabilities).map Text.split = (sortNames r'.capabilities).map Text.split)
        p.rules p'.rules) ∧
    (p.name = p'.name ∧
      List.Forall₂ (fun r r' => r.resource = r'.resource ∧ r.filter = r'.filter ∧
        sortNames r.capabilities = sortNames r'.capabilities) p.rules p'.rules →
      p.digestText = p'.digestText ∧
        ∀ m : ValidModel, m.IsValidated → o.compile m = o'.compile m) ∧
    (p.IsWhole → p'.IsWhole → p.digestText = p'.digestText →
      p.name = p'.name ∧
      List.Forall₂ (fun r r' => r.resource = r'.resource ∧ r.filter = r'.filter ∧
        sortNames r.capabilities = sortNames r'.capabilities) p.rules p'.rules) := by
  have hstrict := ho.strict?_eq
  have hstrict' := ho'.strict?_eq
  refine ⟨⟨ho.digest_eq, ho'.digest_eq⟩, ?_, ?_, ?_⟩
  · rw [Policy.digestText_eq_iff_alike]
    constructor
    · intro h
      exact ⟨h.name, h.rules.imp fun _ _ hr => ⟨hr.resource, hr.filter, hr.capabilities⟩⟩
    · rintro ⟨hname, hrules⟩
      exact ⟨hname, hrules.imp fun _ _ hr => ⟨hr.1, hr.2.1, hr.2.2⟩⟩
  · rintro ⟨hname, hrules⟩
    have hagree : p.Agrees p' := ⟨hname, hrules.imp fun _ _ hr => ⟨hr.1, hr.2.1, hr.2.2⟩⟩
    refine ⟨Policy.digestText_eq_iff_alike.2 hagree.alike, fun m hm => ?_⟩
    have hcompile : p.compile m = p'.compile m :=
      Policy.compile_congr hm hm (.refl m.resources) rfl hagree
    rw [compile_of_strict hstrict, compile_of_strict hstrict', hcompile]
  · intro hp hp' h
    have hagree := (Policy.digestText_eq_iff hp hp').1 h
    exact ⟨hagree.name, hagree.rules.imp fun _ _ hr => ⟨hr.resource, hr.filter, hr.capabilities⟩⟩

/-- Readers, as a checked policy of a store that keeps versions. -/
def visitors : Policy := ⟨"visitors", [⟨"book", "*", ["list", "list", "read"]⟩], .text "v1"⟩

/-- The same readers, as an object of a host's own kind. -/
def visiting : PlainObject :=
  ⟨.object [("name", .text "visitors"), ("rules", .list [.object
    [("resource", .text "book"), ("instance", .text "*"),
      ("capabilities", .list [.text "read", .text "list", .text "list"])]])], true⟩

/-- The object compiles as the checked policy does, and they have the same digest. -/
theorem digest_visiting : ∃ o, ofObject? visiting = some o ∧
    o.digest = (ofPolicy visitors).digest ∧
      ∀ m : ValidModel, m.IsValidated → o.compile m = (ofPolicy visitors).compile m := by
  obtain ⟨o, ho, hvisiting⟩ : ∃ o, ofObject? visiting = some o ∧
      o.ConsistsOf ⟨"visitors", [⟨"book", "*", ["read", "list", "list"]⟩], .null⟩ :=
    ⟨_, rfl, rfl, rfl, _, rfl, .cons ⟨rfl, rfl, _, rfl, rfl⟩ .nil⟩
  refine ⟨o, ho, ?_⟩
  obtain ⟨⟨hdigest, hdigest'⟩, -, hsame, -⟩ :=
    digest_identifies hvisiting (consistsOf_ofPolicy visitors)
  obtain ⟨htext, hcompile⟩ :=
    hsame ⟨rfl, .cons ⟨rfl, rfl, sortNames_eq_of_perm (by decide)⟩ .nil⟩
  exact ⟨by rw [hdigest, hdigest', htext], hcompile⟩

/-- Readers of one book. -/
def readersOf (book : Text) : Policy := ⟨"readers", [⟨"book", book, ["read"]⟩], .null⟩

/-- The same readers, as an object of a host's own kind. -/
def readingOf (book : Text) : PlainObject :=
  ⟨.object [("name", .text "readers"), ("rules", .list [.object
    [("resource", .text "book"), ("instance", .text book), ("capabilities", .list [.text "read"])]])],
    true⟩

/-- Books that may be read. -/
def shelf : Registry := OrderedMap.ofList [("book", ⟨["read"], ∅⟩)]

/-- The model of such books. -/
def shelfModel : ValidModel := ⟨shelf, NameMap.ofList [("book", ∅)], shelf.fingerprint⟩

/-- The draft of the shelf is validated. -/
theorem validate_shelf : (Model.draft shelf).validate = .ok shelfModel := by
  have h : Registry.expansionsOf shelf.entries = .ok (NameMap.ofList [("book", ∅)]) := by cbv
  rw [Model.validate, h]
  rfl

/-- What the readers of one book may do there. -/
theorem compile_readersOf (book : Text) : (readersOf book).compile shelfModel = .ok
    ⟨"readers", shelf.fingerprint, NameMap.ofList [("book", [⟨book, NameSet.ofNames ["read"]⟩])]⟩ := by
  unfold shelfModel
  generalize shelf.fingerprint = f
  cbv

/-- **A digest does not tell a pair of surrogates from the character that it stands for.**  Objects of
a host's own kind for readers of the one book and of the other have the same digest, though their
rules differ, and they compile to what does not grant the same. -/
theorem digest_readingOf : ∃ o o', ofObject? (readingOf .pair) = some o ∧
    ofObject? (readingOf .face) = some o' ∧
    o.ConsistsOf (readersOf .pair) ∧ o'.ConsistsOf (readersOf .face) ∧
    (readersOf .pair).digestText = (readersOf .face).digestText ∧ o.digest = o'.digest ∧
    ¬ ((readersOf .pair).name = (readersOf .face).name ∧
      List.Forall₂ (fun r r' => r.resource = r'.resource ∧ r.filter = r'.filter ∧
        sortNames r.capabilities = sortNames r'.capabilities)
        (readersOf .pair).rules (readersOf .face).rules) ∧
    shelfModel.IsValidated ∧ o.compile shelfModel ≠ o'.compile shelfModel := by
  have hconsists : ∀ book, ∃ o, ofObject? (readingOf book) = some o ∧
      o.ConsistsOf (readersOf book) := fun book =>
    ⟨_, rfl, rfl, rfl, _, rfl, .cons ⟨rfl, rfl, _, rfl, rfl⟩ .nil⟩
  obtain ⟨o, ho, hpair⟩ := hconsists .pair
  obtain ⟨o', ho', hface⟩ := hconsists .face
  have htext : (readersOf .pair).digestText = (readersOf .face).digestText :=
    Policy.digestText_eq_iff_alike.2 ⟨rfl, .cons ⟨rfl, Text.split_pair, rfl⟩ .nil⟩
  refine ⟨o, o', ho, ho', hpair, hface, htext, ?_, ?_,
    (ValidModel.isValidated_of_validate validate_shelf).1, ?_⟩
  · rw [hpair.digest_eq, hface.digest_eq, Policy.digest, Policy.digest, htext]
  · rintro ⟨-, hrules⟩
    exact Text.pair_ne_face (List.forall₂_cons.1 hrules).1.2.1
  · rw [compile_of_strict hpair.strict?_eq, compile_of_strict hface.strict?_eq,
      compile_readersOf, compile_readersOf]
    decide +kernel

end OfferedPolicy

end Gatehouse
