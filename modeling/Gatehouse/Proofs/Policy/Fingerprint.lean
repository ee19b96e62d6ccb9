import Gatehouse.Proofs.Collections.Outcome
import Gatehouse.Proofs.Policy.Compilation

/-!
# What a compiled policy's fingerprint is a fingerprint of

The text that is digested into the fingerprint of a compiled policy has its name, the fingerprint of
its model, and its rules by resource, and nothing else is compared when compiled policies are
compared: if its texts are whole, it can be read back (`CompiledPolicy.fingerprintText_eq_iff`).  No
resource of a compiled policy is without rules, so the rules of each resource tell which resources
there are (`CompiledPolicy.IsOf.eq_iff`), and in which order the resources come up in a policy is not
kept (`Policy.Regroups.compile_eq`).  Main statement: the fingerprinted texts of compiled policies are
the same exactly if the compiled policies are equal, as long as all texts are whole
(`OfferedPolicy.fingerprint_decides`).  Names that are no texts may be equal and yet written
differently, and texts that are not whole may differ and yet be written alike
(`OfferedPolicy.fingerprint_unnamed`).
-/

namespace Gatehouse

/-- A set of names can be read off the list of its names. -/
theorem NameSet.names_injective {a b : NameSet} (h : a.names = b.names) : a = b :=
  NameSet.ext fun name => by rw [← NameMap.mem_names_iff, h, NameMap.mem_names_iff]

namespace CompiledRule

/-- Two compiled rules have the same filter and grant the same capabilities. -/
structure SameGrant (c c' : CompiledRule) : Prop where
  /-- The filter. -/
  filter : c.filter = c'.filter
  /-- The capabilities. -/
  capabilities : ∀ cap, cap ∈ c.capabilities ↔ cap ∈ c'.capabilities

variable {m : ValidModel} {r r' : Rule} {c c' : CompiledRule}

/-- Compiled rules grant the same exactly if they are equal. -/
theorem sameGrant_iff_eq : c.SameGrant c' ↔ c = c' := by
  constructor
  · rintro ⟨hfilter, hcaps⟩
    cases c
    cases c'
    exact congrArg₂ _ hfilter (NameSet.ext hcaps)
  · rintro rfl
    exact ⟨rfl, fun _ => .rfl⟩

/-- Rules that request the same names have the same compiled rule. -/
theorem IsOf.eq_of_sameRequest (h : c.IsOf m r) (h' : c'.IsOf m r') (hr : r.SameRequest r') :
    c = c' := by
  refine sameGrant_iff_eq.1 ⟨by rw [h.filter, h'.filter, hr.filter], fun cap => ?_⟩
  rw [h.capabilities, h'.capabilities, hr.resource]
  simp only [hr.capabilities]

/-- Lists of rules that request the same names have the same compiled rules. -/
theorem eq_of_forall₂_isOf {rules rules' : List Rule} {l l' : List CompiledRule}
    (hr : List.Forall₂ Rule.SameRequest rules rules') (h : List.Forall₂ (IsOf m) rules l)
    (h' : List.Forall₂ (IsOf m) rules' l') : l = l' := by
  induction hr generalizing l l' with
  | nil => rw [List.forall₂_nil_left_iff.1 h, List.forall₂_nil_left_iff.1 h']
  | cons hr _ ih =>
    obtain ⟨c, rest, hc, hrest, rfl⟩ := List.forall₂_cons_left_iff.1 h
    obtain ⟨c', rest', hc', hrest', rfl⟩ := List.forall₂_cons_left_iff.1 h'
    rw [hc.eq_of_sameRequest hc' hr, ih hrest hrest']

/-- A compiled rule as a document. -/
def document (c : CompiledRule) : Text.Document :=
  .array [.text c.filter, Text.Document.texts c.capabilities.names]

/-- A compiled rule is known by its document. -/
theorem document_injective : Function.Injective document := by
  intro c c' h
  simp only [document, Text.Document.array.injEq, List.cons.injEq, Text.Document.text.injEq,
    and_true] at h
  have hcaps := NameSet.names_injective (Text.Document.texts_injective h.2)
  cases c
  cases c'
  exact congrArg₂ _ h.1 hcaps

end CompiledRule

namespace CompiledPolicy

variable {m m' : ValidModel} {p p' : Policy} {c c' : CompiledPolicy} {resource : Text}

/-! ### The text -/

/-- The compiled rules of a resource as a document. -/
def rulesDocument (rules : List CompiledRule) : Text.Document :=
  .array (rules.map CompiledRule.document)

/-- The document of a compiled policy is that of its name, its model and its rules by resource. -/
theorem document_eq (c : CompiledPolicy) : c.document =
    .array [.text c.name, .text c.modelFingerprint,
      .object (c.rules.mapValues rulesDocument).entries] := rfl

/-- The document of a compiled policy holds no words. -/
theorem isWordless_document (c : CompiledPolicy) : c.document.IsWordless := by
  refine ⟨trivial, trivial, ?_, trivial⟩
  simp only [Text.Document.IsWordless, Text.Document.haveWordless_iff, List.mem_map]
  rintro _ ⟨e, -, rfl⟩
  simp only [Text.Document.IsWordless, Text.Document.areWordless_iff, List.mem_map]
  rintro _ ⟨r, -, rfl⟩
  exact ⟨trivial, Text.Document.isWordless_texts _, trivial⟩

/-- The texts of a compiled policy are whole. -/
structure IsWhole (c : CompiledPolicy) : Prop where
  /-- The name is whole. -/
  name : c.name.IsWhole
  /-- The fingerprint of the model is whole. -/
  model : c.modelFingerprint.IsWhole
  /-- The resources are whole, and the filters and capabilities of their rules. -/
  rules : ∀ e ∈ c.rules.entries, e.1.IsWhole ∧ ∀ r ∈ e.2, r.filter.IsWhole ∧
    ∀ cap ∈ r.capabilities, cap.IsWhole

/-- The document of a compiled policy of whole texts is whole. -/
theorem IsWhole.document (h : c.IsWhole) : c.document.IsWhole := by
  refine ⟨h.name, h.model, ?_, trivial⟩
  simp only [Text.Document.IsWhole, Text.Document.haveWhole_iff, List.mem_map]
  rintro _ ⟨e, he, rfl⟩
  obtain ⟨hresource, hrules⟩ := h.rules e he
  refine ⟨hresource, ?_⟩
  simp only [Text.Document.IsWhole, Text.Document.areWhole_iff, List.mem_map]
  rintro _ ⟨r, hr, rfl⟩
  obtain ⟨hfilter, hcaps⟩ := hrules r hr
  exact ⟨hfilter, Text.Document.isWhole_texts fun cap hcap =>
    hcaps cap (NameMap.mem_names_iff.1 hcap), trivial⟩

/-- The rules for a resource are known by their document. -/
theorem rulesDocument_injective : Function.Injective rulesDocument := by
  intro rules rules' h
  exact (List.map_inj_right fun _ _ e => CompiledRule.document_injective e).1
    (Text.Document.array.inj h)

/-- **A compiled policy of whole texts can be read off its text.** -/
theorem fingerprintText_eq_iff (hc : c.IsWhole) (hc' : c'.IsWhole) :
    c.fingerprintText = c'.fingerprintText ↔ c = c' := by
  refine ⟨fun h => ?_, fun h => by rw [h]⟩
  have hdoc := Text.Document.eq_of_render_eq c.isWordless_document c'.isWordless_document
    hc.document hc'.document h
  simp only [document_eq, Text.Document.array.injEq, List.cons.injEq, Text.Document.text.injEq,
    Text.Document.object.injEq, and_true] at hdoc
  obtain ⟨hname, hmodel, hentries⟩ := hdoc
  have hrules : c.rules = c'.rules := by
    refine NameMap.ext_find? fun name => Option.map_injective rulesDocument_injective ?_
    rw [← NameMap.find?_mapValues, ← NameMap.find?_mapValues, NameMap.find?, hentries,
      NameMap.find?]
  cases c
  cases c'
  cases hname
  cases hmodel
  cases hrules
  rfl

/-! ### The rules of each resource -/

namespace IsOf

/-- No resource of a compiled policy is without rules. -/
theorem ne_nil (h : c.IsOf m p) {rules : List CompiledRule}
    (hrules : c.rules.find? resource = some rules) : rules ≠ [] := by
  have hmem : resource ∈ c.rules.names :=
    NameMap.mem_names_iff.2 (NameMap.mem_iff_exists.2 ⟨rules, hrules⟩)
  obtain ⟨r, hr, hresource⟩ := (h.resources resource).1 hmem
  have hrel := h.rules resource
  rw [rulesFor, hrules] at hrel
  rintro rfl
  have hnone := List.filter_eq_nil_iff.1 (List.forall₂_nil_right_iff.1 hrel)
  exact hnone r hr (beq_iff_eq.2 hresource)

/-- What rules there are for a resource tells whether the resource is there. -/
theorem find?_eq (h : c.IsOf m p) : c.rules.find? resource =
    if c.rulesFor resource = [] then none else some (c.rulesFor resource) := by
  rw [rulesFor]
  cases hrules : c.rules.find? resource with
  | none => rfl
  | some rules => exact (if_neg (h.ne_nil hrules)).symm

/-- **Compiled policies are equal exactly if** they have the same name and the same fingerprint of
their models, and their rules for each resource grant the same, one by one. -/
theorem eq_iff (h : c.IsOf m p) (h' : c'.IsOf m' p') :
    c = c' ↔ c.name = c'.name ∧ c.modelFingerprint = c'.modelFingerprint ∧
      ∀ resource, List.Forall₂ CompiledRule.SameGrant (c.rulesFor resource)
        (c'.rulesFor resource) := by
  have hsame : ∀ l l' : List CompiledRule,
      List.Forall₂ CompiledRule.SameGrant l l' ↔ l = l' := by
    intro l l'
    rw [← List.forall₂_eq_eq_eq]
    exact ⟨fun hl => hl.imp fun _ _ => CompiledRule.sameGrant_iff_eq.1,
      fun hl => hl.imp fun _ _ => CompiledRule.sameGrant_iff_eq.2⟩
  simp only [hsame]
  constructor
  · rintro rfl
    exact ⟨rfl, rfl, fun _ => rfl⟩
  · rintro ⟨hname, hmodel, hrules⟩
    have hmaps : c.rules = c'.rules := NameMap.ext_find? fun resource => by
      rw [h.find?_eq, h'.find?_eq, hrules]
    cases c
    cases c'
    cases hname
    cases hmodel
    cases hmaps
    rfl

/-- **What a policy of whole texts is compiled to consists of whole texts,** if the names of the
model are whole. -/
theorem isWhole (hm : m.IsValidated) (hnames : m.resources.IsWhole) (hp : p.IsWhole)
    (hfits : ∀ r ∈ p.rules, r.Fits m.resources) (h : c.IsOf m p) : c.IsWhole := by
  refine ⟨h.name ▸ hp.name, ?_, fun e he => ?_⟩
  · rw [h.model, hm.fingerprint_eq]
    exact Text.isWhole_of_isUnicode (Text.isUnicode_ofChars _)
  · have hfind : c.rules.find? e.1 = some e.2 := NameMap.find?_eq_some_iff.2 he
    have hrules := h.rules e.1
    rw [rulesFor, hfind] at hrules
    have hmem : e.1 ∈ c.rules.names :=
      NameMap.mem_names_iff.2 (NameMap.mem_iff_exists.2 ⟨e.2, hfind⟩)
    obtain ⟨r, hr, hresource⟩ := (h.resources e.1).1 hmem
    refine ⟨hresource ▸ (hp.rules r hr).resource, fun cr hcr => ?_⟩
    obtain ⟨s, hs, hof⟩ := exists_mem_of_forall₂ hrules.flip cr hcr
    obtain ⟨hs, -⟩ := List.mem_filter.1 hs
    refine ⟨hof.filter ▸ (hp.rules s hs).filter, fun cap hcap => ?_⟩
    -- a granted capability is declared by the model
    obtain ⟨d, hd, -⟩ := hfits s hs
    obtain ⟨n, -, found, hfound, hcap⟩ := (hof.capabilities cap).1 hcap
    have hspec := hm.expandName_spec hd n
    rw [← Model.expandName_of_find? hd, hfound] at hspec
    exact (hnames _ (OrderedMap.mem_of_find?_eq_some hd)).2.capabilities cap
      (hm.mem_capabilities_of_means hd ((hspec.2 cap).1 hcap))

end IsOf

end CompiledPolicy

/-! ### The order of resources -/

namespace Policy

/-- Two policies of one name request the same for each resource, rule by rule, in whatever order the
resources come up. -/
structure Regroups (p p' : Policy) : Prop where
  /-- The name. -/
  name : p.name = p'.name
  /-- The rules of each resource. -/
  rules : ∀ resource, List.Forall₂ Rule.SameRequest
    (p.rules.filter fun r => r.resource == resource)
    (p'.rules.filter fun r => r.resource == resource)

variable {m : ValidModel} {p p' : Policy}

/-- Each rule has its like in the other policy. -/
theorem Regroups.exists_sameRequest (h : p.Regroups p') {r' : Rule} (hr' : r' ∈ p'.rules) :
    ∃ r ∈ p.rules, r.SameRequest r' := by
  have hmem : r' ∈ p'.rules.filter fun r => r.resource == r'.resource :=
    List.mem_filter.2 ⟨hr', beq_self_eq_true _⟩
  obtain ⟨r, hr, hsame⟩ := exists_mem_of_forall₂ (h.rules r'.resource).flip r' hmem
  exact ⟨r, (List.mem_filter.1 hr).1, hsame⟩

/-- **In which order the resources come up makes no difference** to what a policy compiles to. -/
theorem Regroups.compile_eq (hm : m.IsValidated) (h : p.Regroups p') {c : CompiledPolicy}
    (hc : p.compile m = .ok c) : p'.compile m = .ok c := by
  have houtcome := p.compile_outcome hm
  rw [hc] at houtcome
  obtain ⟨hfits, hof⟩ := houtcome
  have houtcome' := p'.compile_outcome hm
  rcases hc' : p'.compile m with f | c' <;> rw [hc'] at houtcome'
  · obtain ⟨before, r', after, hsplit, -, hfault⟩ := houtcome'
    have hr' : r' ∈ p'.rules := hsplit ▸ List.mem_append_right _ List.mem_cons_self
    obtain ⟨r, hr, hsame⟩ := h.exists_sameRequest hr'
    exact absurd (hsame.fits (hfits r hr)) hfault.not_fits
  · obtain ⟨-, hof'⟩ := houtcome'
    have heq : c = c' := by
      refine (hof.eq_iff hof').2 ⟨?_, by rw [hof.model, hof'.model], fun resource => ?_⟩
      · rw [hof.name, hof'.name, h.name]
      · rw [CompiledRule.eq_of_forall₂_isOf (h.rules resource) (hof.rules resource)
          (hof'.rules resource)]
        exact List.forall₂_same.2 fun c _ => CompiledRule.sameGrant_iff_eq.2 rfl
    rw [heq]

end Policy

namespace OfferedPolicy

/-- **A fingerprint tells compiled policies apart as comparing them does.**  Let two policies that
consist of texts, checked or of the host's own kind, be compiled, each against a validated model.
Then
* the fingerprints are the digests of the fingerprinted texts of what they are compiled to;
* these texts are the same if the compiled policies are equal, and if no text of the policies and
  no name of the models holds a pair of surrogates, they are the same only then;
* the compiled policies are equal exactly if they have the same name and the same fingerprint of
  their models, and their rules for each resource have the same filters and grant the same
  capabilities, one by one;
* and a policy that requests the same for each resource, rule by rule, in whatever order the
  resources come up, is compiled to an equal compiled policy with the same text. -/
theorem fingerprint_decides {resources resources' : Registry} {m m' : ValidModel}
    (hm : (Model.draft resources).validate = .ok m)
    (hm' : (Model.draft resources').validate = .ok m') {o o' : OfferedPolicy} {p p' : Policy}
    (ho : o.ConsistsOf p) (ho' : o'.ConsistsOf p') {c c' : AnyCompiled}
    (hc : o.compile m = .ok c) (hc' : o'.compile m' = .ok c') :
    ∃ d d' : CompiledPolicy, c = .strict d ∧ c' = .strict d' ∧
      (c.fingerprint = Digest.ofText d.fingerprintText ∧
        c'.fingerprint = Digest.ofText d'.fingerprintText) ∧
      (c.same c' = true → d.fingerprintText = d'.fingerprintText) ∧
      (p.IsWhole → p'.IsWhole → m.resources.IsWhole → m'.resources.IsWhole →
        d.fingerprintText = d'.fingerprintText → c.same c' = true) ∧
      (c.same c' = true ↔ d.name = d'.name ∧ d.modelFingerprint = d'.modelFingerprint ∧
        ∀ resource, List.Forall₂ CompiledRule.SameGrant (d.rulesFor resource)
          (d'.rulesFor resource)) ∧
      ∀ other q, OfferedPolicy.ConsistsOf other q → p.Regroups q → ∃ e : CompiledPolicy,
        other.compile m = .ok (.strict e) ∧ c.same (.strict e) = true ∧
          d.fingerprintText = e.fingerprintText := by
  obtain ⟨hvalid, rfl⟩ := ValidModel.isValidated_of_validate hm
  obtain ⟨hvalid', rfl⟩ := ValidModel.isValidated_of_validate hm'
  obtain ⟨d, hd, rfl⟩ := (compile_strict_eq_ok_iff ho.strict?_eq).1 hc
  obtain ⟨d', hd', rfl⟩ := (compile_strict_eq_ok_iff ho'.strict?_eq).1 hc'
  have hof := p.compile_outcome hvalid
  have hof' := p'.compile_outcome hvalid'
  rw [hd] at hof
  rw [hd'] at hof'
  have hsame : (AnyCompiled.strict d).same (.strict d') = true ↔ d = d' := decide_eq_true_iff
  refine ⟨d, d', rfl, rfl, ⟨rfl, rfl⟩, fun h => ?_, fun hp hp' hnames hnames' h => ?_, ?_,
    fun other q hq hregroups => ⟨d, ?_, ?_, rfl⟩⟩
  · rw [hsame.1 h]
  · have hwhole := hof.2.isWhole hvalid hnames hp hof.1
    have hwhole' := hof'.2.isWhole hvalid' hnames' hp' hof'.1
    exact hsame.2 ((CompiledPolicy.fingerprintText_eq_iff hwhole hwhole').1 h)
  · rw [hsame, hof.2.eq_iff hof'.2]
  · exact (compile_strict_eq_ok_iff hq.strict?_eq).2 ⟨d, hregroups.compile_eq hvalid hd, rfl⟩
  · exact AnyCompiled.same_self _

/-- Books that may be viewed, and shelves that may be listed. -/
def hall : Registry :=
  OrderedMap.ofList
    [("book", ⟨["list", "read"], OrderedMap.ofList [("view", ["list", "read"])]⟩),
      ("shelf", ⟨["list"], ∅⟩)]

/-- The model of such a hall. -/
def hallModel : ValidModel :=
  ⟨hall,
    NameMap.ofList
      [("book", NameMap.ofList [("view", NameSet.ofNames ["list", "read"])]), ("shelf", ∅)],
    hall.fingerprint⟩

/-- The draft of the hall is validated. -/
theorem validate_hall : (Model.draft hall).validate = .ok hallModel := by
  have h : Registry.expansionsOf hall.entries = .ok (NameMap.ofList
      [("book", NameMap.ofList [("view", NameSet.ofNames ["list", "read"])]), ("shelf", ∅)]) := by
    cbv
  rw [Model.validate, h]
  rfl

/-- Guests, first of all books. -/
def guests : Policy :=
  ⟨"guests", [⟨"book", "*", ["view"]⟩, ⟨"shelf", "*", ["list"]⟩, ⟨"book", "lotr", []⟩], .null⟩

/-- The same guests, first of all shelves. -/
def guestsOfShelves : Policy :=
  ⟨"guests", [⟨"shelf", "*", ["list", "list"]⟩, ⟨"book", "*", ["view"]⟩, ⟨"book", "lotr", []⟩],
    .null⟩

/-- Guests that read by other words, and the one book first. -/
def guestsOfOneBook : Policy :=
  ⟨"guests", [⟨"book", "lotr", []⟩, ⟨"book", "*", ["read", "list"]⟩, ⟨"shelf", "*", ["list"]⟩],
    .null⟩

/-- What the guests are compiled to, with the rules about books in some order. -/
def guestsCompiled (books : List CompiledRule) : CompiledPolicy :=
  ⟨"guests", hall.fingerprint,
    NameMap.ofList [("book", books), ("shelf", [⟨"*", NameSet.ofNames ["list"]⟩])]⟩

/-- The rule about all books. -/
def everyBook : CompiledRule := ⟨"*", NameSet.ofNames ["list", "read"]⟩

/-- The rule about one book. -/
def oneBook : CompiledRule := ⟨"lotr", ∅⟩

/-- What the policy of guests is compiled to. -/
theorem compile_guests :
    guests.compile hallModel = .ok (guestsCompiled [everyBook, oneBook]) := by
  unfold hallModel guestsCompiled
  -- the digest of the definitions need not be worked out
  generalize hall.fingerprint = f
  cbv

/-- What the policy of guests of one book is compiled to. -/
theorem compile_guestsOfOneBook :
    guestsOfOneBook.compile hallModel = .ok (guestsCompiled [oneBook, everyBook]) := by
  unfold hallModel guestsCompiled
  generalize hall.fingerprint = f
  cbv

/-- Guests and guests of shelves request the same for each resource. -/
theorem regroups_guests : guests.Regroups guestsOfShelves := by
  refine ⟨rfl, fun resource => ?_⟩
  have hself : ∀ r : Rule, r.SameRequest r := fun r => ⟨rfl, rfl, fun _ => .rfl⟩
  by_cases hbook : resource = "book"
  · subst hbook
    exact .cons (hself _) (.cons (hself _) .nil)
  by_cases hshelf : resource = "shelf"
  · subst hshelf
    exact .cons ⟨rfl, rfl, by simp⟩ .nil
  · have hnone : ∀ l : List Rule, (∀ r ∈ l, r.resource = "book" ∨ r.resource = "shelf") →
        (l.filter fun r => r.resource == resource) = [] := by
      intro l hl
      refine List.filter_eq_nil_iff.2 fun r hr heq => ?_
      have hr := hl r hr
      rw [beq_iff_eq.1 heq] at hr
      exact hr.elim hbook hshelf
    rw [hnone guests.rules (by decide), hnone guestsOfShelves.rules (by decide)]
    exact .nil

/-- The order of resources does not show, and the order of the rules of a resource does. -/
theorem fingerprint_guests :
    (∃ e : CompiledPolicy, (ofPolicy guestsOfShelves).compile hallModel = .ok (.strict e) ∧
      (guestsCompiled [everyBook, oneBook]).fingerprintText = e.fingerprintText) ∧
    (guestsCompiled [everyBook, oneBook]).fingerprintText ≠
      (guestsCompiled [oneBook, everyBook]).fingerprintText := by
  have hc : (ofPolicy guests).compile hallModel =
      .ok (.strict (guestsCompiled [everyBook, oneBook])) := by
    rw [compile_ofPolicy, compile_guests]
    rfl
  have hc' : (ofPolicy guestsOfOneBook).compile hallModel =
      .ok (.strict (guestsCompiled [oneBook, everyBook])) := by
    rw [compile_ofPolicy, compile_guestsOfOneBook]
    rfl
  obtain ⟨d, d', hd, hd', -, -, htexts, hsame, hother⟩ := fingerprint_decides validate_hall
    validate_hall (consistsOf_ofPolicy guests) (consistsOf_ofPolicy guestsOfOneBook) hc hc'
  obtain rfl := AnyCompiled.strict.inj hd
  obtain rfl := AnyCompiled.strict.inj hd'
  constructor
  · obtain ⟨e, he, -, htext⟩ := hother _ _ (consistsOf_ofPolicy guestsOfShelves) regroups_guests
    exact ⟨e, he, htext⟩
  · intro htext
    have hwhole : hall.IsWhole := by decide +kernel
    obtain ⟨-, -, hrules⟩ := hsame.1 (htexts (by decide) (by decide) hwhole hwhole htext)
    have hbooks : List.Forall₂ CompiledRule.SameGrant [everyBook, oneBook]
        [oneBook, everyBook] := hrules "book"
    exact absurd (List.forall₂_cons.1 hbooks).1.filter (by decide)

/-- A policy without rules, as an object of a host's own kind, with anything for a name. -/
def unnamed (name : Value) : PlainObject := ⟨.object [("name", name), ("rules", .list [])], true⟩

/-- What such a policy is compiled to, unless its name is a text. -/
def unnamedCompiled (name : Value) : LooseCompiledPolicy := ⟨name, .text hall.fingerprint, []⟩

/-- What readers of one book are compiled to. -/
def readersCompiled (book : Text) : CompiledPolicy :=
  ⟨"readers", shelf.fingerprint, NameMap.ofList [("book", [⟨book, NameSet.ofNames ["read"]⟩])]⟩

/-- **Where the names or the filters are no whole texts, a fingerprint tells too much or too little.**
Of the policies named by the number one and by the truth value, the compiled forms are equal, and
their fingerprinted texts are not; of readers of the one book and of the other, which a pair of
surrogates and its character stand for, the texts are the same, and the compiled forms are not. -/
theorem fingerprint_unnamed :
    (∃ o o', ofObject? (unnamed (.int 1)) = some o ∧ ofObject? (unnamed (.bool true)) = some o' ∧
      o.compile hallModel = .ok (.loose (unnamedCompiled (.int 1))) ∧
      o'.compile hallModel = .ok (.loose (unnamedCompiled (.bool true))) ∧
      (AnyCompiled.loose (unnamedCompiled (.int 1))).same
        (.loose (unnamedCompiled (.bool true))) = true ∧
      (unnamedCompiled (.int 1)).document.render ≠
        (unnamedCompiled (.bool true)).document.render) ∧
    ∃ o o', ofObject? (readingOf .pair) = some o ∧ ofObject? (readingOf .face) = some o' ∧
      o.compile shelfModel = .ok (.strict (readersCompiled .pair)) ∧
      o'.compile shelfModel = .ok (.strict (readersCompiled .face)) ∧
      (readersCompiled .pair).fingerprintText = (readersCompiled .face).fingerprintText ∧
      (AnyCompiled.strict (readersCompiled .pair)).same (.strict (readersCompiled .face)) = false := by
  constructor
  · refine ⟨_, _, rfl, rfl, rfl, rfl, ?_, fun htext => ?_⟩
    · have hname : (Value.int 1).same (.bool true) = true := by decide +kernel
      simp only [AnyCompiled.same, LooseCompiledPolicy.same, LooseCompiledPolicy.rules,
        unnamedCompiled, hname, Value.same_self, Bool.true_and]
      decide +kernel
    · -- the second character is that of the number, or the first one of the word
      have hnumber : (unnamedCompiled (.int 1)).document.render.points[1]? =
        some (CodePoint.ofChar '1') := rfl
      have hword : (unnamedCompiled (.bool true)).document.render.points[1]? =
        some (CodePoint.ofChar 't') := rfl
      rw [htext, hword] at hnumber
      exact absurd hnumber (by decide)
  · have hcompile : ∀ book, ∃ o, ofObject? (readingOf book) = some o ∧
        o.compile shelfModel = .ok (.strict (readersCompiled book)) := fun book => by
      refine ⟨_, rfl, ?_⟩
      rw [compile_of_strict (p := readersOf book) rfl, compile_readersOf]
      rfl
    obtain ⟨o, ho, hpair⟩ := hcompile .pair
    obtain ⟨o', ho', hface⟩ := hcompile .face
    refine ⟨o, o', ho, ho', hpair, hface, ?_, decide_eq_false fun hsame => ?_⟩
    · refine (Text.Document.render_eq_iff (CompiledPolicy.isWordless_document _)
        (CompiledPolicy.isWordless_document _)).2 ?_
      unfold readersCompiled
      generalize shelf.fingerprint = f
      rfl
    · have hrules : (readersCompiled .pair).rulesFor "book" =
          (readersCompiled .face).rulesFor "book" := by rw [hsame]
      exact Text.pair_ne_face (congrArg CompiledRule.filter (List.cons.inj hrules).1)

end OfferedPolicy

end Gatehouse
