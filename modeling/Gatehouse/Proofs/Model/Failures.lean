import Gatehouse.Proofs.Model.Lifecycle

/-!
# What a failed call leaves behind

A call that defines a resource, adds an alias or validates a model does all that it is to do or
nothing (`ModelCall.AllOrNothing`).  Only a call that adds several capabilities to a draft may stop
halfway.  It checks and adds one name after the other, so it leaves the names before the first that
it refuses, be it no name or one that is there already, perhaps from earlier in the same call
(`Model.Refusal`).  Main statement: a failed call leaves this trace and no other, and whatever is
called later goes as if just these names had been added, or nothing (`HeldModel.exec_failed`).
-/

namespace Gatehouse

namespace Model

/-! ### Adding one name after the other -/

/-- Names that can all be added to the capabilities that are present. -/
structure Addable (present names : List Text) : Prop where
  /-- None of them holds blanks only. -/
  named : ∀ n ∈ names, Text.allBlank n = false
  /-- None is there yet. -/
  new : ∀ n ∈ names, n ∉ present
  /-- None occurs twice. -/
  once : names.Nodup

/-- **Why a value is not added** to the capabilities that are present. -/
inductive Refusal (resource : Text) (present : List Text) : Value → Fault → Prop where
  /-- It is not a text, or holds blanks only. -/
  | unnamed {v : Value} (h : ∀ n, v = .text n → Text.allBlank n = true) :
      Refusal resource present v (.invalidName "capability" v)
  /-- It is there already. -/
  | present {n : Text} (hnamed : Text.allBlank n = false) (hmem : n ∈ present) :
      Refusal resource present (.text n) (.duplicateCapability resource n)

/-- **Where adding values stops:** `names` can be added, and the next value is refused. -/
def StopsAfter (resource : Text) (present : List Text) (values : List Value)
    (names : List Text) (f : Fault) : Prop :=
  Addable present names ∧ ∃ v rest, values = names.map .text ++ v :: rest ∧
    Refusal resource (present ++ names) v f

variable {resource : Text} {present names : List Text} {n : Text} {values : List Value}
  {v : Value} {f : Fault}

/-- Adding nothing is always possible. -/
theorem Addable.nil : Addable present [] := ⟨nofun, nofun, .nil⟩

/-- Names can be added after one that can be. -/
theorem addable_cons :
    Addable present (n :: names) ↔
      (Text.allBlank n = false ∧ n ∉ present) ∧ Addable (present ++ [n]) names := by
  constructor
  · rintro ⟨hnamed, hnew, honce⟩
    obtain ⟨hn, hrest⟩ := List.nodup_cons.1 honce
    refine ⟨⟨hnamed n List.mem_cons_self, hnew n List.mem_cons_self⟩, ?_, ?_, hrest⟩
    · exact fun m hm => hnamed m (List.mem_cons_of_mem _ hm)
    · intro m hm
      rw [List.mem_append, List.mem_singleton, not_or]
      exact ⟨hnew m (List.mem_cons_of_mem _ hm), fun e => hn (e ▸ hm)⟩
  · rintro ⟨⟨hnamed, hnew⟩, h⟩
    refine ⟨List.forall_mem_cons.2 ⟨hnamed, h.named⟩, List.forall_mem_cons.2 ⟨hnew, fun m hm => ?_⟩,
      List.nodup_cons.2 ⟨fun hm => ?_, h.once⟩⟩
    · exact fun hmem => h.new m hm (List.mem_append_left _ hmem)
    · exact h.new n hm (List.mem_append_right _ (List.mem_singleton_self n))

/-- Adding values stops at once if the first one is refused. -/
theorem Refusal.stopsAfter (h : Refusal resource present v f) (rest : List Value) :
    StopsAfter resource present (v :: rest) [] f :=
  ⟨.nil, v, rest, rfl, by simpa using h⟩

/-- A name that is added goes before those that are added after it. -/
theorem StopsAfter.cons (hnamed : Text.allBlank n = false) (hnew : n ∉ present)
    (h : StopsAfter resource (present ++ [n]) values names f) :
    StopsAfter resource present (.text n :: values) (n :: names) f := by
  obtain ⟨hadd, v, rest, rfl, href⟩ := h
  exact ⟨addable_cons.2 ⟨⟨hnamed, hnew⟩, hadd⟩, v, rest, rfl, by simpa using href⟩

/-- A value is a name, or it is refused. -/
theorem checkName_cases (v : Value) :
    (∃ n, v = .text n ∧ Text.allBlank n = false ∧ checkName "capability" v = .ok n) ∨
      (∀ n, v = .text n → Text.allBlank n = true) ∧
        checkName "capability" v = .error (.invalidName "capability" v) := by
  unfold checkName
  split
  · next n =>
    split
    · next h => exact .inr ⟨fun m e => Value.text.inj e ▸ h, rfl⟩
    · next h => exact .inl ⟨n, rfl, by simpa using h, rfl⟩
  · next h => exact .inr ⟨fun n e => absurd e (h n), rfl⟩

/-- **What adding values does:** all are added, or those before the first that is refused. -/
theorem addEach_spec (resource : Text) (values : List Value) (present : List Text) :
    (addEach resource values present).2 = none ∨
      ∃ names f, StopsAfter resource present values names f ∧
        addEach resource values present = (present ++ names, some f) := by
  induction values generalizing present with
  | nil => exact .inl rfl
  | cons v rest ih =>
    rcases checkName_cases v with ⟨n, rfl, hnamed, hcheck⟩ | ⟨hunnamed, hcheck⟩
    · by_cases hmem : n ∈ present
      · exact .inr ⟨[], _, (Refusal.present hnamed hmem).stopsAfter rest,
          by simp [addEach, hcheck, hmem]⟩
      · have hstep : addEach resource (.text n :: rest) present =
            addEach resource rest (present ++ [n]) := by
          simp [addEach, hcheck, hmem]
        rw [hstep]
        refine (ih (present ++ [n])).imp_right ?_
        rintro ⟨names, f, hstop, heq⟩
        exact ⟨n :: names, f, hstop.cons hnamed hmem, by simpa using heq⟩
    · exact .inr ⟨[], _, (Refusal.unnamed hunnamed).stopsAfter rest, by simp [addEach, hcheck]⟩

/-- Names that can be added are all added. -/
theorem addEach_of_addable (h : Addable present names) :
    addEach resource (names.map .text) present = (present ++ names, none) := by
  induction names generalizing present with
  | nil => simp [addEach]
  | cons n rest ih =>
    obtain ⟨⟨hnamed, hnew⟩, hrest⟩ := addable_cons.1 h
    simp [addEach, checkName, hnamed, hnew, ih hrest]

end Model

/-! ### Failed calls -/

/-- The calls that change a model as a whole or not at all. -/
inductive ModelCall.AllOrNothing : ModelCall → Prop where
  | define (name : Value) : AllOrNothing (.define name)
  | addAlias (resource : Text) (name : Value) (targets : List Value) :
      AllOrNothing (.addAlias resource name targets)
  | validate : AllOrNothing .validate

namespace HeldModel

open Model (Addable StopsAfter)

variable {calls : List ModelCall} {call : ModelCall} {h : HeldModel} {p : Problem}

/-- A model after further calls. -/
theorem after_append_cons (calls : List ModelCall) (call : ModelCall) (later : List ModelCall) :
    after (calls ++ call :: later) =
      later.foldl (fun h call => (h.exec call).2) ((after calls).exec call).2 := by
  rw [after, List.foldl_append, List.foldl_cons, after]

/-- A change that is refused leaves the model that is held. -/
theorem changing_of_error {resource : Text} {outcome : Except Fault Model}
    (hp : (h.changing resource outcome).1 = .error p) : (h.changing resource outcome).2 = h := by
  cases outcome with
  | error f => rfl
  | ok m => cases hp

/-- A call that does all or nothing and fails leaves the model as it is. -/
theorem exec_of_error (hcall : call.AllOrNothing) (hp : (h.exec call).1 = .error p) :
    (h.exec call).2 = h := by
  cases hcall with
  | define name => exact changing_of_error hp
  | addAlias resource name targets => exact changing_of_error hp
  | validate =>
    simp only [exec, closing] at hp ⊢
    split at hp
    · cases hp
    · split at hp
      · rfl
      · cases hp

/-- What a builder answers: itself, unless there was a fault. -/
def builderAnswer (resource : Text) : Option Fault → Except Problem ModelAnswer
  | none => .ok (.builder resource)
  | some f => .error (.fault f)

/-- A call that adds capabilities to a resource of a draft. -/
theorem exec_capabilities_draft {r : Registry} {resource : Text} {d : Definition}
    (hd : r.find? resource = some d) (values : List Value) :
    (ofModel (.draft r)).exec (.capabilities resource values) =
      (builderAnswer resource (Model.addEach resource values d.capabilities).2,
        ofModel (.draft (r.insert resource
          ⟨(Model.addEach resource values d.capabilities).1, d.aliases⟩))) := by
  simp only [exec, ofModel, Model.addCapabilities, hd, change]
  rfl

/-- Names that can be added to a resource of a draft are added. -/
theorem exec_capabilities_of_addable {r : Registry} {resource : Text} {d : Definition}
    {names : List Text} (hd : r.find? resource = some d) (h : Addable d.capabilities names) :
    (ofModel (.draft r)).exec (.capabilities resource (names.map .text)) =
      (.ok (.builder resource),
        ofModel (.draft (r.insert resource ⟨d.capabilities ++ names, d.aliases⟩))) := by
  rw [exec_capabilities_draft hd, Model.addEach_of_addable h]
  rfl

/-- A failed call that was to add capabilities. -/
theorem exec_capabilities_of_error {m : Model} {resource : Text} {values : List Value}
    (hp : ((ofModel m).exec (.capabilities resource values)).1 = .error p) :
    ((∃ v, m = .validated v) ∧ p = .fault .modelFrozen ∨ m.resources.find? resource = none) ∧
        ((ofModel m).exec (.capabilities resource values)).2 = ofModel m ∨
      ∃ r d names f, m = .draft r ∧ r.find? resource = some d ∧
        StopsAfter resource d.capabilities values names f ∧ p = .fault f ∧
        ((ofModel m).exec (.capabilities resource values)).2 =
          ofModel (.draft (r.insert resource ⟨d.capabilities ++ names, d.aliases⟩)) := by
  cases m with
  | validated v => exact .inl ⟨.inl ⟨⟨v, rfl⟩, (Except.error.inj hp).symm⟩, rfl⟩
  | draft r =>
    rcases hd : r.find? resource with _ | d
    · refine .inl ⟨.inr hd, ?_⟩
      simp only [exec, ofModel, Model.addCapabilities, hd, change]
    · rw [exec_capabilities_draft hd] at hp ⊢
      rcases Model.addEach_spec resource values d.capabilities with hnone |
        ⟨names, f, hstop, heq⟩
      · rw [hnone] at hp
        cases hp
      · rw [heq] at hp ⊢
        exact .inr ⟨r, d, names, f, rfl, hd, hstop, (Except.error.inj hp).symm, rfl⟩

/-- **What a failed call leaves behind.**  After any calls,
* a call that defines a resource, adds an alias or validates the model, and fails, leaves the model
  as it is, and later calls go as if it had not been made;
* so does a call that was to add capabilities to a valid model, which is frozen, or to a resource
  that is not there;
* a call that was to add capabilities to a resource of a draft fails at the first value that is no
  name or is there already, be it from before or from earlier in the call.  The resource then has
  the names before that value, in order, and nothing else is changed.  Later calls go as if a
  call had added just these names, which succeeds. -/
theorem exec_failed (calls : List ModelCall) :
    (∀ call p, call.AllOrNothing → ((after calls).exec call).1 = .error p →
      ((after calls).exec call).2 = after calls ∧
        ∀ later, after (calls ++ call :: later) = after (calls ++ later)) ∧
    ∀ resource values p, ((after calls).exec (.capabilities resource values)).1 = .error p →
      ((∃ v, (after calls).model = .validated v) ∧ p = .fault .modelFrozen ∨
          (after calls).model.resources.find? resource = none) ∧
        ((after calls).exec (.capabilities resource values)).2 = after calls ∧
        (∀ later,
          after (calls ++ .capabilities resource values :: later) = after (calls ++ later)) ∨
      ∃ r d names f, after calls = ofModel (.draft r) ∧ r.find? resource = some d ∧
        StopsAfter resource d.capabilities values names f ∧ p = .fault f ∧
        ((after calls).exec (.capabilities resource values)).2 =
          ofModel (.draft (r.insert resource ⟨d.capabilities ++ names, d.aliases⟩)) ∧
        ((after calls).exec (.capabilities resource (names.map .text))).1 =
          .ok (.builder resource) ∧
        ∀ later, after (calls ++ .capabilities resource values :: later) =
          after (calls ++ .capabilities resource (names.map .text) :: later) := by
  obtain ⟨m, hm, -⟩ := after_spec calls
  have hunchanged : ∀ call, ((after calls).exec call).2 = after calls →
      ∀ later, after (calls ++ call :: later) = after (calls ++ later) := by
    intro call hcall later
    rw [after_append_cons, hcall, after, after, List.foldl_append]
  constructor
  · intro call p hcall hp
    have heq := exec_of_error hcall hp
    exact ⟨heq, hunchanged call heq⟩
  · intro resource values p hp
    rw [hm] at hp
    rcases exec_capabilities_of_error hp with ⟨hrefused, heq⟩ |
      ⟨r, d, names, f, rfl, hd, hstop, hpf, heq⟩
    · rw [← hm] at heq
      refine .inl ⟨?_, heq, hunchanged _ heq⟩
      rw [hm]
      exact hrefused
    · have hnames := exec_capabilities_of_addable hd hstop.1
      refine .inr ⟨r, d, names, f, hm, hd, hstop, hpf, hm ▸ heq, ?_, ?_⟩
      · rw [hm, hnames]
      · intro later
        rw [after_append_cons, after_append_cons, hm, heq, hnames]

/-- A shelf whose capability `read` is defined. -/
def shelfCalls : List ModelCall := [.define "shelf", .capabilities "shelf" ["read"]]

/-- Two capabilities more, and `read` again between them. -/
def doubled : List Value := ["write", "read", "lend"]

/-- The shelf cannot be defined again, which leaves it as it is; and where the three names were to
be added, those before the doubled one are there afterwards. -/
theorem exec_failed_shelf :
    ((after shelfCalls).exec (.define "shelf")).2 = after shelfCalls ∧
      ∃ names, StopsAfter "shelf" ["read"] doubled names (.duplicateCapability "shelf" "read") ∧
        ∀ later, after (shelfCalls ++ .capabilities "shelf" doubled :: later) =
          after (shelfCalls ++ .capabilities "shelf" (names.map .text) :: later) := by
  have hshelf : after shelfCalls =
      ofModel (.draft (.ofList [("shelf", ⟨["read"], ∅⟩)])) := by rfl
  have hdefine : ((after shelfCalls).exec (.define "shelf")).1 =
      .error (.fault (.duplicateResource "shelf")) := by rfl
  have hdoubled : ((after shelfCalls).exec (.capabilities "shelf" doubled)).1 =
      .error (.fault (.duplicateCapability "shelf" "read")) := by rfl
  refine ⟨((exec_failed shelfCalls).1 _ _ (.define "shelf") hdefine).1, ?_⟩
  rcases (exec_failed shelfCalls).2 "shelf" doubled _ hdoubled with
    ⟨⟨_, hfrozen⟩ | hnone, -⟩ | ⟨r, d, names, f, hr, hd, hstop, hf, -, -, hlater⟩
  · cases hfrozen
  · cases hnone
  · obtain rfl : r = .ofList [("shelf", ⟨["read"], ∅⟩)] := by
      simpa [ofModel] using hr.symm.trans hshelf
    obtain rfl : d = ⟨["read"], ∅⟩ := Option.some.inj (hd.symm.trans rfl)
    exact ⟨names, Problem.fault.inj hf ▸ hstop, hlater⟩

end HeldModel

end Gatehouse
