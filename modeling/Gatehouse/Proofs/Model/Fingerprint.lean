import Gatehouse.Proofs.Model.Agreement
import Gatehouse.Proofs.Model.Lifecycle
import Mathlib

/-!
# What a fingerprint is a fingerprint of

The text that is digested into a fingerprint forgets in which order resources, capabilities and
aliases were defined, and, as long as the names are whole, nothing else.  Registries of whole names
have the same text exactly if they agree (`Registry.definitionText_eq_iff`), and where nothing is
listed twice, as in every model made by calls, to agree is to have the same content
(`Registry.agrees_iff_sameContent`).  Main statement: models of whole names have the same
fingerprinted text exactly if they define the same, and then whatever is asked of the one is
expanded as by the other (`HeldModel.after_fingerprint`).
-/

namespace Gatehouse

/-- Lists of different names that show the same at each name have sorted forms that show the
same. -/
theorem NameMap.entries_map_eq {α β : Type} {f : α → β} {l l' : List (Text × α)}
    (hl : (l.map Prod.fst).Nodup) (hl' : (l'.map Prod.fst).Nodup)
    (h : ∀ name, (l.lookup name).map f = (l'.lookup name).map f) :
    ((ofList l).entries.map fun e => (e.1, f e.2)) =
      (ofList l').entries.map fun e => (e.1, f e.2) := by
  have hmaps : (ofList l).mapValues f = (ofList l').mapValues f := by
    refine ext_find? fun name => ?_
    rw [find?_mapValues, find?_mapValues, find?_ofList hl, find?_ofList hl', h]
  exact congrArg NameMap.entries hmaps

/-! ### What definitions say -/

/-- **Two definitions have the same content,** in whatever order it was defined. -/
structure Definition.SameContent (d d' : Definition) : Prop where
  /-- The same names are capabilities. -/
  capabilities : ∀ c, c ∈ d.capabilities ↔ c ∈ d'.capabilities
  /-- The same names are aliases, each with the same targets in the same order. -/
  aliases : ∀ name, d.aliases.find? name = d'.aliases.find? name

/-- **Two registries have the same content,** in whatever order it was defined. -/
structure Registry.SameContent (r r' : Registry) : Prop where
  /-- The same names are resources. -/
  resources : ∀ name, name ∈ r.keys ↔ name ∈ r'.keys
  /-- The definitions of each have the same content. -/
  definitions : ∀ name d d', r.find? name = some d → r'.find? name = some d' → d.SameContent d'

/-- Definitions in which nothing is listed twice agree exactly if they have the same content. -/
theorem Definition.NoneTwice.agrees_iff {d d' : Definition} (hd : d.NoneTwice)
    (hd' : d'.NoneTwice) : d.Agrees d' ↔ d.SameContent d' := by
  constructor
  · intro h
    exact ⟨h.mem_capabilities_iff, h.aliases⟩
  · intro h
    have hsorted : sortNames d.capabilities = sortNames d'.capabilities :=
      sortNames_eq_of_perm
        ((List.perm_ext_iff_of_nodup hd.capabilities hd'.capabilities).2 h.capabilities)
    exact ⟨hsorted, h.aliases⟩

namespace Registry

variable {r r' : Registry}

/-- Of registries that agree, neither defines a resource or both do, by definitions that agree. -/
theorem Agrees.find?_cases (h : r.Agrees r') (resource : Text) :
    (r.find? resource = none ∧ r'.find? resource = none) ∨
      ∃ d d', r.find? resource = some d ∧ r'.find? resource = some d' ∧ d.Agrees d' := by
  have hd := h resource
  rcases hfind : r.find? resource with _ | d <;> rcases hfind' : r'.find? resource with _ | d' <;>
    rw [hfind, hfind'] at hd
  · exact .inl ⟨rfl, rfl⟩
  · cases hd
  · cases hd
  · exact .inr ⟨d, d', rfl, rfl, Option.rel_some_some.1 hd⟩

/-- Definitions that agree have the same document. -/
theorem definitionDocument_congr {d d' : Definition} (h : d.Agrees d') :
    definitionDocument d = definitionDocument d' := by
  have haliases := NameMap.entries_map_eq (f := Text.Document.texts) d.aliases.keys_nodup
    d'.aliases.keys_nodup fun name => congrArg (Option.map _) (h.aliases name)
  rw [definitionDocument, haliases, h.capabilities, definitionDocument]

/-- **Registries of whole names have the same text exactly if they agree.** -/
theorem definitionText_eq_iff (hr : r.IsWhole) (hr' : r'.IsWhole) :
    r.definitionText = r'.definitionText ↔ r.Agrees r' := by
  refine ⟨agrees_of_definitionText hr hr', fun h => ?_⟩
  have hlookup : ∀ resource, (r.find? resource).map definitionDocument =
      (r'.find? resource).map definitionDocument := by
    intro resource
    rcases h.find?_cases resource with ⟨hd, hd'⟩ | ⟨d, d', hd, hd', hagree⟩
    · rw [hd, hd']
    · rw [hd, hd', Option.map_some, Option.map_some, definitionDocument_congr hagree]
  have hdoc : r.document = r'.document := by
    rw [document_eq, document_eq, NameMap.entries_map_eq r.keys_nodup r'.keys_nodup hlookup]
  rw [definitionText, hdoc, definitionText]

/-- Registries in which nothing is listed twice agree exactly if they have the same content. -/
theorem agrees_iff_sameContent (hr : ∀ resource d, r.find? resource = some d → d.NoneTwice)
    (hr' : ∀ resource d, r'.find? resource = some d → d.NoneTwice) :
    r.Agrees r' ↔ r.SameContent r' := by
  have hiff : ∀ resource d d', r.find? resource = some d → r'.find? resource = some d' →
      (d.Agrees d' ↔ d.SameContent d') := fun resource d d' hd hd' =>
    (hr resource d hd).agrees_iff (hr' resource d' hd')
  constructor
  · intro h
    constructor
    · intro resource
      rw [← OrderedMap.isSome_find?_iff, ← OrderedMap.isSome_find?_iff]
      rcases h.find?_cases resource with ⟨hd, hd'⟩ | ⟨d, d', hd, hd', -⟩
      · rw [hd, hd']
      · rw [hd, hd']
        rfl
    · intro resource d d' hd hd'
      have hagree := h resource
      rw [hd, hd', Option.rel_some_some] at hagree
      exact (hiff resource d d' hd hd').1 hagree
  · intro h resource
    have hsome := h.resources resource
    rw [← OrderedMap.isSome_find?_iff, ← OrderedMap.isSome_find?_iff] at hsome
    rcases hd : r.find? resource with _ | d <;> rcases hd' : r'.find? resource with _ | d' <;>
      rw [hd, hd'] at hsome
    · exact .none
    · exact absurd (hsome.2 rfl) Bool.false_ne_true
    · exact absurd (hsome.1 rfl) Bool.false_ne_true
    · exact .some ((hiff resource d d' hd hd').2 (h.definitions resource d d' hd hd'))

end Registry

/-! ### What is asked of models that agree -/

namespace ValidModel.IsValidated

variable {m m' : ValidModel}

/-- Names of a resource are expanded alike by models that agree. -/
theorem expand_congr (hm : m.IsValidated) (hm' : m'.IsValidated)
    (h : m.resources.Agrees m'.resources) (resource : Text) (names : List Text) :
    m.expand resource names = m'.expand resource names := by
  unfold expand Model.definition
  simp only [Model.resources]
  rcases h.find?_cases resource with ⟨hd, hd'⟩ | ⟨d, d', hd, hd', hagree⟩
  · rw [hd, hd']
  · rw [hd, hd']
    exact hm.expandNames_congr hm' hd hd' hagree names ∅

/-- Requested data is expanded alike by definitions that agree. -/
theorem expandData_congr (hm : m.IsValidated) (hm' : m'.IsValidated) {resource : Text}
    {d d' : Definition} (hd : m.resources.find? resource = some d)
    (hd' : m'.resources.find? resource = some d') (h : d.Agrees d') (requested : List Value)
    (found : NameSet) :
    d.expandData (m.expansionsFor resource) resource requested found =
      d'.expandData (m'.expansionsFor resource) resource requested found := by
  have hdatum : ∀ v, d.expandDatum (m.expansionsFor resource) resource v =
      d'.expandDatum (m'.expansionsFor resource) resource v := by
    intro v
    simp only [Definition.expandDatum, Definition.expandName, hm.expansionsFor_congr hm' hd hd' h,
      h.mem_capabilities_iff]
  induction requested generalizing found with
  | nil => rfl
  | cons v rest ih => simp only [Definition.expandData, hdatum, ih]

/-- **Whatever is asked of models that agree is expanded alike.** -/
theorem expandAsked_congr (hm : m.IsValidated) (hm' : m'.IsValidated)
    (h : m.resources.Agrees m'.resources) (resource names : Value) :
    m.expandAsked resource names = m'.expandAsked resource names := by
  have hdata : ∀ v : Value,
      ((Model.validated m).definitionAsked v >>= fun found => names.elements >>= fun requested =>
        found.2.expandData (m.expansionsFor found.1) found.1 requested ∅) =
      ((Model.validated m').definitionAsked v >>= fun found => names.elements >>= fun requested =>
        found.2.expandData (m'.expansionsFor found.1) found.1 requested ∅) := by
    intro v
    unfold Model.definitionAsked Model.definition
    simp only [Model.resources]
    rcases v.asName with p | _ | name
    · rfl
    · rfl
    rcases h.find?_cases name with ⟨hd, hd'⟩ | ⟨d, d', hd, hd', hagree⟩
    · simp only [bind, Except.bind, hd, hd']
      rfl
    · simp only [bind, Except.bind, hd, hd']
      rcases names.elements with p | requested
      · rfl
      · exact hm.expandData_congr hm' hd hd' hagree requested ∅
  unfold expandAsked
  split
  · rw [hm.expand_congr hm' h]
  · exact hdata _

end ValidModel.IsValidated

/-! ### Models made by calls -/

namespace HeldModel

/-- What may be asked of a model made by calls that validates: the fingerprint is the digest of the
text of its definitions, data is expanded as the valid model does it, and nothing in the definitions
is listed twice. -/
theorem after_of_validate (calls : List ModelCall) {m : ValidModel}
    (hm : (after calls).model.validate = .ok m) :
    m.IsValidated ∧ (∀ resource d, m.resources.find? resource = some d → d.NoneTwice) ∧
      ((after calls).exec .fingerprint).1 =
        .ok (.fingerprint (.text (Digest.ofText m.resources.definitionText))) ∧
      ∀ resource names, ((after calls).exec (.expand resource names)).1 =
        (m.expandAsked resource names).map .capabilities := by
  obtain ⟨held, hheld, hcoherent⟩ := after_spec calls
  rw [hheld] at hm ⊢
  cases held with
  | draft r =>
    change (Model.draft r).validate = .ok m at hm
    obtain ⟨hvalid, rfl⟩ := ValidModel.isValidated_of_validate hm
    have hfingerprint : m.fingerprint = Digest.ofText m.resources.definitionText :=
      hvalid.fingerprint_eq
    refine ⟨hvalid, hcoherent.noneTwice, ?_, fun resource names => ?_⟩
    · simp only [exec, closing, ofModel, hm]
      rw [← hfingerprint]
      rfl
    · simp only [exec, closing, ofModel, hm]
  | validated v =>
    obtain rfl : v = m := Except.ok.inj hm
    have hvalid := hcoherent.valid v rfl
    have hfingerprint : v.fingerprint = Digest.ofText v.resources.definitionText :=
      hvalid.fingerprint_eq
    refine ⟨hvalid, hcoherent.noneTwice, ?_, fun resource names => rfl⟩
    rw [← hfingerprint]
    rfl

/-- **What a fingerprint is a fingerprint of.**  Of two models made by any calls that validate, and
in whose names no high surrogate stands before a low one,
* the fingerprints are the digests of the texts of their definitions;
* these texts are the same exactly if the models define the same resources, each with the same
  capabilities and with the same aliases for the same targets in the same order, in whatever order
  resources, capabilities and aliases were defined; a repeated target was dropped when the alias was
  added, so that no list of targets has repetitions;
* if the two texts have different digests or are the same, then models with the same fingerprint
  expand whatever is asked alike, and fail alike where they fail. -/
theorem after_fingerprint (calls calls' : List ModelCall) {m m' : ValidModel}
    (hm : (after calls).model.validate = .ok m) (hm' : (after calls').model.validate = .ok m')
    (hwhole : m.resources.IsWhole) (hwhole' : m'.resources.IsWhole) :
    (((after calls).exec .fingerprint).1 =
        .ok (.fingerprint (.text (Digest.ofText m.resources.definitionText))) ∧
      ((after calls').exec .fingerprint).1 =
        .ok (.fingerprint (.text (Digest.ofText m'.resources.definitionText)))) ∧
    (m.resources.definitionText = m'.resources.definitionText ↔
      m.resources.SameContent m'.resources) ∧
    (∀ resource d, m.resources.find? resource = some d →
      ∀ a targets, d.aliases.find? a = some targets → targets.Nodup) ∧
    (Set.InjOn Digest.ofText {m.resources.definitionText, m'.resources.definitionText} →
      ((after calls).exec .fingerprint).1 = ((after calls').exec .fingerprint).1 →
      ∀ resource names, ((after calls).exec (.expand resource names)).1 =
        ((after calls').exec (.expand resource names)).1) := by
  obtain ⟨hvalid, hnone, hfingerprint, hexpand⟩ := after_of_validate calls hm
  obtain ⟨hvalid', hnone', hfingerprint', hexpand'⟩ := after_of_validate calls' hm'
  refine ⟨⟨hfingerprint, hfingerprint'⟩, ?_, fun resource d hd => (hnone resource d hd).targets, ?_⟩
  · exact (Registry.definitionText_eq_iff hwhole hwhole').trans
      (Registry.agrees_iff_sameContent hnone hnone')
  · intro hdigests hsame resource names
    rw [hfingerprint, hfingerprint'] at hsame
    injection hsame with hsame
    injection hsame with hsame
    have htexts := hdigests (Set.mem_insert _ _) (Set.mem_insert_of_mem _ rfl)
      (Value.text.inj hsame)
    have hagree := (Registry.definitionText_eq_iff hwhole hwhole').1 htexts
    rw [hexpand, hexpand', hvalid.expandAsked_congr hvalid' hagree]

/-- Books that may be read, written and edited, and then shelves. -/
def booksFirst : List ModelCall :=
  [.define (.text "book"), .capabilities "book" [.text "read", .text "write"],
    .addAlias "book" (.text "edit") [.text "write", .text "read", .text "write"],
    .define (.text "shelf"), .capabilities "shelf" [.text "list"]]

/-- The same the other way round. -/
def shelvesFirst : List ModelCall :=
  [.define (.text "shelf"), .define (.text "book"),
    .addAlias "book" (.text "edit") [.text "write", .text "read"],
    .capabilities "book" [.text "write"], .capabilities "shelf" [.text "list"],
    .capabilities "book" [.text "read"]]

/-- Books with an alias for their capabilities. -/
def edited (capabilities : List Text) : Definition :=
  ⟨capabilities, OrderedMap.ofList [("edit", ["write", "read"])]⟩

/-- What is defined first. -/
def booksEntries : List (Text × Definition) :=
  [("book", edited ["read", "write"]), ("shelf", ⟨["list"], ∅⟩)]

/-- What is defined the other way round. -/
def shelvesEntries : List (Text × Definition) :=
  [("shelf", ⟨["list"], ∅⟩), ("book", edited ["write", "read"])]

/-- Books come first. -/
theorem after_booksFirst :
    (after booksFirst).model = .draft (OrderedMap.ofList booksEntries) := by
  decide +kernel

/-- Shelves come first, and the capabilities of books the other way round. -/
theorem after_shelvesFirst :
    (after shelvesFirst).model = .draft (OrderedMap.ofList shelvesEntries) := by
  decide +kernel

/-- What both come to is the same but for the order. -/
theorem sameContent_shelvesFirst :
    (after booksFirst).model.resources.SameContent (after shelvesFirst).model.resources := by
  have hbooks : (after booksFirst).model.resources.entries = booksEntries := by
    rw [after_booksFirst]
    decide +kernel
  have hshelves : (after shelvesFirst).model.resources.entries = shelvesEntries := by
    rw [after_shelvesFirst]
    decide +kernel
  constructor
  · intro name
    simp only [OrderedMap.keys, hbooks, hshelves, booksEntries, shelvesEntries, List.map_cons,
      List.map_nil, List.mem_cons]
    exact or_left_comm
  · intro name d d' hd hd'
    have hmem := OrderedMap.mem_of_find?_eq_some hd
    have hmem' := OrderedMap.mem_of_find?_eq_some hd'
    rw [hbooks] at hmem
    rw [hshelves] at hmem'
    simp only [booksEntries, shelvesEntries, List.mem_cons, List.not_mem_nil, or_false,
      Prod.mk.injEq] at hmem hmem'
    rcases hmem with ⟨rfl, rfl⟩ | ⟨rfl, rfl⟩ <;> rcases hmem' with ⟨hname, rfl⟩ | ⟨hname, rfl⟩
    · exact absurd hname (by decide)
    · exact ⟨by simp [edited, or_comm], fun _ => rfl⟩
    · exact ⟨fun _ => .rfl, fun _ => rfl⟩
    · exact absurd hname (by decide)

/-- The order of definitions does not show. -/
theorem fingerprint_shelvesFirst :
    ((after booksFirst).exec .fingerprint).1 = ((after shelvesFirst).exec .fingerprint).1 ∧
      ∀ resource names, ((after booksFirst).exec (.expand resource names)).1 =
        ((after shelvesFirst).exec (.expand resource names)).1 := by
  let found : NameMap (NameMap NameSet) := NameMap.ofList
    [("book", NameMap.ofList [("edit", NameSet.ofNames ["read", "write"])]), ("shelf", ∅)]
  have hbooks : Registry.expansionsOf (OrderedMap.ofList booksEntries).entries = .ok found := by
    cbv
  have hshelves : Registry.expansionsOf (OrderedMap.ofList shelvesEntries).entries =
      .ok found := by
    cbv
  obtain ⟨m, hm, hr⟩ : ∃ m, (after booksFirst).model.validate = .ok m ∧
      m.resources = (after booksFirst).model.resources := by
    rw [after_booksFirst, Model.validate, hbooks]
    exact ⟨_, rfl, rfl⟩
  obtain ⟨m', hm', hr'⟩ : ∃ m, (after shelvesFirst).model.validate = .ok m ∧
      m.resources = (after shelvesFirst).model.resources := by
    rw [after_shelvesFirst, Model.validate, hshelves]
    exact ⟨_, rfl, rfl⟩
  have hwhole : m.resources.IsWhole := by
    rw [hr, after_booksFirst]
    decide +kernel
  have hwhole' : m'.resources.IsWhole := by
    rw [hr', after_shelvesFirst]
    decide +kernel
  obtain ⟨⟨hfirst, hlast⟩, htexts, -, hexpand⟩ :=
    after_fingerprint booksFirst shelvesFirst hm hm' hwhole hwhole'
  have htext : m.resources.definitionText = m'.resources.definitionText := by
    rw [htexts, hr, hr']
    exact sameContent_shelvesFirst
  have hsame : ((after booksFirst).exec .fingerprint).1 =
      ((after shelvesFirst).exec .fingerprint).1 := by
    rw [hfirst, hlast, htext]
  refine ⟨hsame, hexpand ?_ hsame⟩
  rw [htext, Set.pair_eq_singleton]
  exact Set.injOn_singleton _ _

end HeldModel

end Gatehouse
