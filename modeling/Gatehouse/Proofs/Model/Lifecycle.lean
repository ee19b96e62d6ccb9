import Gatehouse.Proofs.Collections.Combining
import Gatehouse.Proofs.Model.Validated
import Gatehouse.Session.Held

/-!
# The life of a model

A model that a host holds is a draft first.  It is changed through its builders until a validation
succeeds, whether it was called for or made on the way to a fingerprint, an expansion or a compiled
policy; from then on it stays as it is, however often it is called and whatever fails.  What may
become of a model in one call is written down once (`Model.Step`), and every call is such a step
(`HeldModel.exec_step`); so what holds after all calls follows by going through the steps.

Main statement: after any calls a model is a draft that stores nothing derived, or it stores just
what its definitions expand to and their digest; nothing in it is listed twice; a valid one never
changes; and whether and how the validation of a draft fails is a matter of its definitions only
(`HeldModel.after_lifecycle`).
-/

namespace Gatehouse

/-! ### Calls -/

/-- A call to a model that a host holds.  The builder of a resource goes by the name of the
resource: there is one for each, from the call that defines the resource. -/
inductive ModelCall where
  /-- Defines a resource. -/
  | define (name : Value)
  /-- Adds capabilities through a builder. -/
  | capabilities (resource : Text) (names : List Value)
  /-- Adds an alias through a builder. -/
  | addAlias (resource : Text) (name : Value) (targets : List Value)
  /-- Validates the model. -/
  | validate
  /-- Asks for the fingerprint. -/
  | fingerprint
  /-- Asks what requested data of a resource stands for. -/
  | expand (resource names : Value)
  /-- Compiles a policy. -/
  | compile (policy : OfferedPolicy)

/-- The answer to a call. -/
inductive ModelAnswer where
  /-- The builder of a resource. -/
  | builder (resource : Text)
  /-- The model is valid. -/
  | valid
  /-- The fingerprint. -/
  | fingerprint (v : Value)
  /-- The capabilities that data stands for. -/
  | capabilities (found : NameSet)
  /-- The compiled policy. -/
  | compiled (c : AnyCompiled)

namespace HeldModel

/-- Changes the model through a builder, unless that is a fault. -/
def changing (h : HeldModel) (resource : Text) :
    Except Fault Model → Except Problem ModelAnswer × HeldModel
  | .error f => (.error (.fault f), h)
  | .ok m => (.ok (.builder resource), h.change m)

/-- Validates the model, if that is not done yet, and goes on with it. -/
def closing (h : HeldModel) (answer : HeldModel → ValidModel → Except Problem ModelAnswer) :
    Except Problem ModelAnswer × HeldModel :=
  match h.model with
  | .validated v => (answer h v, h)
  | .draft r =>
    match (Model.draft r).validate with
    | .error f => (.error (.fault f), h)
    | .ok v => (answer (h.validated v) v, h.validated v)

/-- The answer to a call, and the model after it. -/
def exec (h : HeldModel) : ModelCall → Except Problem ModelAnswer × HeldModel
  | .define name => h.changing name.display (h.model.define name)
  | .capabilities resource names =>
    let r := h.model.addCapabilities resource names
    (match r.2 with
      | none => .ok (.builder resource)
      | some f => .error (.fault f), h.change r.1)
  | .addAlias resource name targets =>
    h.changing resource (h.model.addAlias resource name targets)
  | .validate => h.closing fun _ _ => .ok .valid
  | .fingerprint => h.closing fun h v => .ok (.fingerprint (h.fingerprint v))
  | .expand resource names => h.closing fun _ v => (v.expandAsked resource names).map .capabilities
  | .compile o => h.closing fun h v =>
    (o.compile h.asValid).map fun c => .compiled (c.withModel (h.fingerprint v))

/-- A new model after some calls. -/
def after (calls : List ModelCall) : HeldModel :=
  calls.foldl (fun h call => (h.exec call).2) (ofModel .empty)

end HeldModel

/-! ### Steps -/

/-- **What may become of a model in one call.** -/
inductive Model.Step : Model → Model → Prop where
  /-- It stays as it is. -/
  | stay (m : Model) : Step m m
  /-- A new resource is defined. -/
  | define {r : Registry} (resource : Text) (hnew : r.find? resource = none) :
      Step (.draft r) (.draft (r.insert resource .empty))
  /-- Capabilities are added to a resource. -/
  | capabilities {r : Registry} {resource : Text} {d : Definition} (names : List Value)
      (hd : r.find? resource = some d) :
      Step (.draft r)
        (.draft (r.insert resource ⟨(Model.addEach resource names d.capabilities).1, d.aliases⟩))
  /-- A new alias is added to a resource. -/
  | addAlias {r : Registry} {resource : Text} {d : Definition} (name : Text)
      (targets : List Text) (hd : r.find? resource = some d) :
      Step (.draft r) (.draft (r.insert resource
        ⟨d.capabilities, d.aliases.insert name (OrderedMap.distinct targets)⟩))
  /-- The model is closed. -/
  | close {r : Registry} {v : ValidModel} (hv : (Model.draft r).validate = .ok v) :
      Step (.draft r) (.validated v)

namespace Model

variable {m m' : Model} {r : Registry} {v : ValidModel}

/-- Defining a resource is a step. -/
theorem step_of_define {name : Value} (h : m.define name = .ok m') : Step m m' := by
  unfold define at h
  split at h
  · cases h
  split at h
  · cases h
  · next r _ resource hname =>
    split at h
    · cases h
    · next hnew =>
      obtain rfl := Except.ok.inj h
      refine .define resource (OrderedMap.find?_eq_none_iff.2 fun hmem => hnew ?_)
      exact List.contains_iff_mem.2 hmem

/-- Adding capabilities is a step, and so is adding the first few of them. -/
theorem step_addCapabilities (m : Model) (resource : Text) (names : List Value) :
    Step m (m.addCapabilities resource names).1 := by
  unfold addCapabilities
  split
  · exact .stay _
  split
  · exact .stay _
  · next hd => exact .capabilities names hd

/-- Adding an alias is a step. -/
theorem step_of_addAlias {resource : Text} {name : Value} {targets : List Value}
    (h : m.addAlias resource name targets = .ok m') : Step m m' := by
  unfold addAlias at h
  split at h
  · cases h
  split at h
  · cases h
  next hd =>
  split at h
  · cases h
  split at h
  · cases h
  split at h
  · cases h
  · obtain rfl := Except.ok.inj h
    exact .addAlias _ _ hd

/-- A valid model stays as it is. -/
theorem Step.eq_of_validated (h : Step (.validated v) m') : m' = .validated v := by
  cases h
  rfl

end Model

namespace HeldModel

/-- What is done on the way to an answer is a step. -/
theorem closing_step (m : Model)
    (answer : HeldModel → ValidModel → Except Problem ModelAnswer) :
    ∃ m', ((ofModel m).closing answer).2 = ofModel m' ∧ m.Step m' := by
  cases m with
  | validated v => exact ⟨_, rfl, .stay _⟩
  | draft r =>
    rcases hv : (Model.draft r).validate with f | v
    · refine ⟨.draft r, ?_, .stay _⟩
      simp only [closing, ofModel, hv]
    · refine ⟨.validated v, ?_, .close hv⟩
      simp only [closing, ofModel, hv]
      rfl

/-- A change of a model that is held is a step of it. -/
theorem changing_step {m : Model} {outcome : Except Fault Model} (resource : Text)
    (h : ∀ m', outcome = .ok m' → m.Step m') :
    ∃ m', ((ofModel m).changing resource outcome).2 = ofModel m' ∧ m.Step m' := by
  cases outcome with
  | error f => exact ⟨m, rfl, .stay m⟩
  | ok m' => exact ⟨m', rfl, h m' rfl⟩

/-- **Every call is a step,** and leaves nothing behind but the model. -/
theorem exec_step (m : Model) (call : ModelCall) :
    ∃ m', ((ofModel m).exec call).2 = ofModel m' ∧ m.Step m' := by
  cases call with
  | define name => exact changing_step _ fun _ => Model.step_of_define
  | capabilities resource names => exact ⟨_, rfl, m.step_addCapabilities resource names⟩
  | addAlias resource name targets => exact changing_step _ fun _ => Model.step_of_addAlias
  | validate => exact closing_step m _
  | fingerprint => exact closing_step m _
  | expand resource names => exact closing_step m _
  | compile policy => exact closing_step m _

end HeldModel

/-! ### What every step keeps -/

/-- Nothing in a definition is listed twice. -/
structure Definition.NoneTwice (d : Definition) : Prop where
  /-- No capability. -/
  capabilities : d.capabilities.Nodup
  /-- No alias. -/
  aliases : d.aliases.keys.Nodup
  /-- No target of an alias. -/
  targets : ∀ a targets, d.aliases.find? a = some targets → targets.Nodup

/-- The empty definition has nothing twice. -/
theorem Definition.noneTwice_empty : empty.NoneTwice :=
  ⟨List.nodup_nil, List.nodup_nil, fun _ _ h => nomatch h⟩

/-- Capabilities that are added are not there yet. -/
theorem Model.nodup_addEach {resource : Text} {names : List Value} {present : List Text}
    (h : present.Nodup) : (addEach resource names present).1.Nodup := by
  induction names generalizing present with
  | nil => exact h
  | cons v rest ih =>
    unfold addEach
    split
    · exact h
    · next name _ =>
      split
      · exact h
      · next hnew =>
        refine ih (List.nodup_append.2 ⟨h, List.nodup_singleton name, ?_⟩)
        rintro _ hmem _ hname rfl
        exact hnew (List.mem_singleton.1 hname ▸ hmem)

/-- **A model is coherent:** nothing in its definitions is listed twice, and if it is valid, it is
what validating its definitions gives. -/
structure Model.Coherent (m : Model) : Prop where
  /-- The definitions. -/
  noneTwice : ∀ resource d, m.resources.find? resource = some d → d.NoneTwice
  /-- What is derived from them. -/
  valid : ∀ v, m = .validated v → v.IsValidated

namespace Model.Coherent

variable {m m' : Model} {r : Registry}

/-- The empty model is coherent. -/
theorem empty : Model.empty.Coherent := ⟨nofun, nofun⟩

/-- A draft stays coherent when a definition in which nothing is listed twice is written. -/
theorem insert {resource : Text} {d : Definition} (h : (Model.draft r).Coherent)
    (hd : d.NoneTwice) : (Model.draft (r.insert resource d)).Coherent := by
  refine ⟨fun other d' hfind => ?_, fun _ h => nomatch h⟩
  change (r.insert resource d).find? other = some d' at hfind
  rw [OrderedMap.find?_insert] at hfind
  split at hfind
  · exact Option.some.inj hfind ▸ hd
  · exact h.noneTwice other d' hfind

/-- **A step keeps a model coherent.** -/
theorem step (h : m.Coherent) (hstep : m.Step m') : m'.Coherent := by
  cases hstep with
  | stay => exact h
  | define resource _ => exact h.insert Definition.noneTwice_empty
  | capabilities names hd =>
    have hold := h.noneTwice _ _ hd
    exact h.insert ⟨nodup_addEach hold.capabilities, hold.aliases, hold.targets⟩
  | addAlias name targets hd =>
    have hold := h.noneTwice _ _ hd
    refine h.insert ⟨hold.capabilities, OrderedMap.keys_nodup _, fun a found hfind => ?_⟩
    change (OrderedMap.insert _ name _).find? a = some found at hfind
    rw [OrderedMap.find?_insert] at hfind
    split at hfind
    · exact Option.some.inj hfind ▸ OrderedMap.nodup_distinct targets
    · exact hold.targets a found hfind
  | close hv =>
    obtain ⟨hvalid, rfl⟩ := ValidModel.isValidated_of_validate hv
    refine ⟨h.noneTwice, fun v hv => ?_⟩
    obtain rfl := Model.validated.inj hv
    exact hvalid

end Model.Coherent

/-! ### Validation -/

namespace Registry

/-- A resource is expanded exactly if its definition is sound. -/
theorem exists_expansions_eq_error_iff {resource : Text} {d : Definition} :
    (∃ f, d.expansions resource = .error f) ↔ ¬ d.Sound := by
  have hspec := d.expansions_spec resource
  rcases hx : d.expansions resource with f | found <;> rw [hx] at hspec
  · exact iff_of_true ⟨f, rfl⟩ hspec
  · exact iff_of_false nofun (not_not_intro hspec.1)

/-- A fault is that of the first resource, or else that of the others. -/
theorem expansionsOf_cons_eq_error_iff {resource : Text} {d : Definition}
    {rest : List (Text × Definition)} {f : Fault} :
    expansionsOf ((resource, d) :: rest) = .error f ↔
      d.expansions resource = .error f ∨ d.Sound ∧ expansionsOf rest = .error f := by
  have hfirst : (∃ f, d.expansions resource = .error f) ↔ ¬ d.Sound :=
    exists_expansions_eq_error_iff
  rw [expansionsOf]
  rcases hx : d.expansions resource with f' | found <;> rw [hx] at hfirst
  · have hbad : ¬ d.Sound := hfirst.1 ⟨f', rfl⟩
    simp [hbad]
  · have hgood : d.Sound := not_not.1 fun hbad => nomatch hfirst.2 hbad
    rcases expansionsOf rest with f' | more <;> simp [hgood]

/-- **The first faulty resource is reported:** all resources before it are sound. -/
theorem expansionsOf_eq_error_iff {l : List (Text × Definition)} {f : Fault} :
    expansionsOf l = .error f ↔ ∃ before resource d rest, l = before ++ (resource, d) :: rest ∧
      (∀ e ∈ before, e.2.Sound) ∧ d.expansions resource = .error f := by
  induction l with
  | nil => exact iff_of_false nofun fun ⟨before, _, _, _, h, _⟩ => by cases before <;> cases h
  | cons e l ih =>
    obtain ⟨first, d₁⟩ := e
    rw [expansionsOf_cons_eq_error_iff, ih]
    constructor
    · rintro (hf | ⟨hgood, before, resource, d, rest, rfl, hsound, hf⟩)
      · exact ⟨[], first, d₁, l, rfl, nofun, hf⟩
      · exact ⟨(first, d₁) :: before, resource, d, rest, rfl,
          List.forall_mem_cons.2 ⟨hgood, hsound⟩, hf⟩
    · rintro ⟨_ | ⟨e, before⟩, resource, d, rest, hl, hsound, hf⟩
      · obtain ⟨⟨rfl, rfl⟩, rfl⟩ := (List.cons.inj hl).imp_left Prod.mk.inj
        exact .inl hf
      · obtain ⟨rfl, rfl⟩ := List.cons.inj hl
        obtain ⟨hgood, hsound⟩ := List.forall_mem_cons.1 hsound
        exact .inr ⟨hgood, before, resource, d, rest, rfl, hsound, hf⟩

/-- Some resource is reported exactly if the definition of one is faulty. -/
theorem exists_expansionsOf_eq_error_iff {l : List (Text × Definition)} :
    (∃ f, expansionsOf l = .error f) ↔ ∃ e ∈ l, ¬ e.2.Sound := by
  induction l with
  | nil => exact iff_of_false nofun nofun
  | cons e l ih =>
    obtain ⟨first, d⟩ := e
    simp only [expansionsOf_cons_eq_error_iff, exists_or, exists_and_left, ih,
      exists_expansions_eq_error_iff, List.mem_cons, exists_eq_or_imp]
    tauto

end Registry

/-! ### After any calls -/

namespace HeldModel

variable {m : Model} {r : Registry} {v : ValidModel}

/-- **After any calls there is a coherent model, and nothing else.** -/
theorem after_spec (calls : List ModelCall) :
    ∃ m : Model, after calls = ofModel m ∧ m.Coherent := by
  suffices h : ∀ m : Model, m.Coherent →
      ∃ m' : Model, calls.foldl (fun h call => (h.exec call).2) (ofModel m) = ofModel m' ∧
        m'.Coherent from h .empty .empty
  induction calls with
  | nil => exact fun m hm => ⟨m, rfl, hm⟩
  | cons call rest ih =>
    intro m hm
    obtain ⟨m', hm', hstep⟩ := exec_step m call
    rw [List.foldl_cons, hm']
    exact ih m' (hm.step hstep)

/-- No call changes a valid model. -/
theorem foldl_exec_validated (calls : List ModelCall) :
    calls.foldl (fun h call => (h.exec call).2) (ofModel (.validated v)) =
      ofModel (.validated v) := by
  induction calls with
  | nil => rfl
  | cons call rest ih =>
    obtain ⟨m', hm', hstep⟩ := exec_step (.validated v) call
    rw [List.foldl_cons, hm', hstep.eq_of_validated, ih]

/-- A validation that was called for: it fails and leaves the draft as it is, or closes it. -/
theorem exec_validate_draft (r : Registry) :
    (ofModel (.draft r)).exec .validate =
      match (Model.draft r).validate with
      | .error f => (.error (.fault f), ofModel (.draft r))
      | .ok v => (.ok .valid, ofModel (.validated v)) := by
  unfold exec closing
  change (match (Model.draft r).validate with | .error f => _ | .ok v => _) = _
  rcases (Model.draft r).validate with f | v <;> rfl

/-- A validation that was called for fails with a fault of the definitions. -/
theorem exec_validate_eq_error_iff {p : Problem} :
    ((ofModel (.draft r)).exec .validate).1 = .error p ↔
      ∃ f, Registry.expansionsOf r.entries = .error f ∧ p = .fault f := by
  rw [exec_validate_draft]
  unfold Model.validate
  dsimp only
  rcases Registry.expansionsOf r.entries with f | expansions
  · simp [eq_comm]
  · exact iff_of_false nofun nofun

/-- The validation of a draft fails exactly if the definition of a resource is faulty. -/
theorem exists_exec_validate_eq_error_iff :
    (∃ p, ((ofModel (.draft r)).exec .validate).1 = .error p) ↔
      ∃ resource d, r.find? resource = some d ∧ ¬ d.Sound := by
  simp only [exec_validate_eq_error_iff, OrderedMap.find?_eq_some_iff]
  rw [exists_comm]
  simp only [exists_and_left, exists_eq, and_true, Registry.exists_expansionsOf_eq_error_iff,
    Prod.exists]

/-- **The validation of a draft reports the first faulty resource.** -/
theorem exec_validate_eq_first_error_iff {p : Problem} :
    ((ofModel (.draft r)).exec .validate).1 = .error p ↔ ∃ before resource d rest f,
      r.entries = before ++ (resource, d) :: rest ∧ (∀ e ∈ before, e.2.Sound) ∧
        d.expansions resource = .error f ∧ p = .fault f := by
  simp only [exec_validate_eq_error_iff, Registry.expansionsOf_eq_error_iff]
  constructor
  · rintro ⟨f, ⟨before, resource, d, rest, hl, hsound, hf⟩, rfl⟩
    exact ⟨before, resource, d, rest, f, hl, hsound, hf, rfl⟩
  · rintro ⟨before, resource, d, rest, f, hl, hsound, hf, rfl⟩
    exact ⟨f, ⟨before, resource, d, rest, hl, hsound, hf⟩, rfl⟩

/-- A validation that fails leaves the draft as it is. -/
theorem exec_validate_of_error {p : Problem}
    (h : ((ofModel (.draft r)).exec .validate).1 = .error p) :
    ((ofModel (.draft r)).exec .validate).2 = ofModel (.draft r) := by
  rw [exec_validate_draft] at h ⊢
  rcases hv : (Model.draft r).validate with f | v
  · rfl
  · rw [hv] at h
    cases h

/-- A validation that succeeds closes the model and keeps the definitions. -/
theorem exec_validate_of_ok {answer : ModelAnswer}
    (h : ((ofModel (.draft r)).exec .validate).1 = .ok answer) :
    ∃ v, ((ofModel (.draft r)).exec .validate).2.model = .validated v ∧ v.resources = r := by
  rw [exec_validate_draft] at h ⊢
  rcases hv : (Model.draft r).validate with f | v
  · rw [hv] at h
    cases h
  · exact ⟨v, rfl, (ValidModel.isValidated_of_validate hv).2⟩

/-- **The life of a model.**  After any calls, whatever failed among them,
* the model is a draft, which stores nothing that is derived, or it is valid, and then it stores the
  digest of its definitions and for every resource what the aliases of it stand for;
* no resource, capability or alias of a resource, or target of an alias is listed twice;
* if it is valid, every further change is refused, and no call changes anything;
* if it is a draft, calling for its validation fails exactly if the definition of a resource is
  faulty, with the fault of the first of these, and then leaves it as it is; or else it closes the
  model.  All of this depends on the definitions only: other calls that lead to the same ones make
  no difference. -/
theorem after_lifecycle (calls : List ModelCall) :
    ((after calls).retained = ∅ ∧
      ((∃ r, (after calls).model = .draft r) ∨
        ∃ v, (after calls).model = .validated v ∧
          v.fingerprint = Digest.ofText v.resources.definitionText ∧
          ∀ resource d, v.resources.find? resource = some d → ∃ found,
            v.expansions.find? resource = some found ∧ d.expansions resource = .ok found)) ∧
    ((after calls).model.resources.keys.Nodup ∧
      ∀ resource d, (after calls).model.resources.find? resource = some d → d.NoneTwice) ∧
    (∀ v, (after calls).model = .validated v →
      (∀ name, ((after calls).exec (.define name)).1 = .error (.fault .modelFrozen)) ∧
      (∀ resource names,
        ((after calls).exec (.capabilities resource names)).1 = .error (.fault .modelFrozen)) ∧
      (∀ resource name targets,
        ((after calls).exec (.addAlias resource name targets)).1 = .error (.fault .modelFrozen)) ∧
      ∀ more, after (calls ++ more) = after calls) ∧
    ∀ r, (after calls).model = .draft r →
      ((∃ p, ((after calls).exec .validate).1 = .error p) ↔
        ∃ resource d, r.find? resource = some d ∧ ¬ d.Sound) ∧
      (∀ p, ((after calls).exec .validate).1 = .error p ↔ ∃ before resource d rest f,
        r.entries = before ++ (resource, d) :: rest ∧ (∀ e ∈ before, e.2.Sound) ∧
          d.expansions resource = .error f ∧ p = .fault f) ∧
      (∀ p, ((after calls).exec .validate).1 = .error p →
        ((after calls).exec .validate).2 = after calls) ∧
      (∀ answer, ((after calls).exec .validate).1 = .ok answer →
        ∃ v, ((after calls).exec .validate).2.model = .validated v ∧ v.resources = r) ∧
      ∀ others, (after others).model = .draft r →
        (after others).exec .validate = (after calls).exec .validate := by
  obtain ⟨m, hm, hcoherent⟩ := after_spec calls
  have happend : ∀ more, after (calls ++ more) =
      more.foldl (fun h call => (h.exec call).2) (ofModel m) := by
    intro more
    rw [after, List.foldl_append, ← after, hm]
  rw [hm]
  refine ⟨⟨rfl, ?_⟩, ⟨m.resources.keys_nodup, hcoherent.noneTwice⟩, ?_, ?_⟩
  · cases m with
    | draft r => exact .inl ⟨r, rfl⟩
    | validated v =>
      have hvalid := hcoherent.valid v rfl
      exact .inr ⟨v, rfl, hvalid.fingerprint_eq, fun resource d hd =>
        Registry.find?_of_expansionsOf v.resources.keys_nodup hvalid.parts.1
          (OrderedMap.find?_eq_some_iff.1 hd)⟩
  · rintro v rfl
    refine ⟨fun _ => rfl, fun _ _ => rfl, fun _ _ _ => rfl, fun more => ?_⟩
    rw [happend, foldl_exec_validated]
  · rintro r rfl
    refine ⟨exists_exec_validate_eq_error_iff, fun p => exec_validate_eq_first_error_iff,
      fun p => exec_validate_of_error, fun answer => exec_validate_of_ok, fun others hothers => ?_⟩
    obtain ⟨other, hother, -⟩ := after_spec others
    rw [hother] at hothers ⊢
    rw [show other = .draft r from hothers]

end HeldModel

end Gatehouse
