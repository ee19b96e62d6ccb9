import Gatehouse.Proofs.Acl.Declared
import Gatehouse.Proofs.Model.Growth

/-!
# Policies against growing models

Where a model has grown, a rule that compiled still does, to a rule about the same instances that
grants no less (`LooseCompiledRule.Grows`), and so does a policy, rule by rule
(`AnyCompiled.Grows`).  Main statement: `OfferedPolicy.exists_compile_grows`.
-/

namespace Gatehouse

/-- **A compiled rule grows:** it is about the same instances, and grants no less. -/
structure LooseCompiledRule.Grows (r r' : LooseCompiledRule) : Prop where
  /-- The filter is the same. -/
  filter : r.filter = r'.filter
  /-- The capabilities stay. -/
  capabilities : ∀ c ∈ r.capabilities, c ∈ r'.capabilities

/-- **A compiled policy grows,** rule by rule. -/
inductive AnyCompiled.Grows : AnyCompiled → AnyCompiled → Prop where
  /-- Its name and its filters are texts. -/
  | strict {p p' : CompiledPolicy} (name : p.name = p'.name)
      (rules : p.rules.Rel (List.Forall₂ fun r r' => r.loosen.Grows r'.loosen) p'.rules) :
      Grows (.strict p) (.strict p')
  /-- Its name or a filter is other data. -/
  | loose {p p' : LooseCompiledPolicy} (name : p.name = p'.name)
      (authored : List.Forall₂ (fun e e' => e.1 = e'.1 ∧ e.2.Grows e'.2) p.authored p'.authored) :
      Grows (.loose p) (.loose p')

namespace AnyCompiled.Grows

variable {c c' : AnyCompiled}

/-- What has grown has the same name. -/
theorem name_eq (h : c.Grows c') : c.name = c'.name := by
  cases h with
  | strict name _ => exact congrArg Value.text name
  | loose name _ => exact name

/-- What has grown has rules that have grown, resource by resource. -/
theorem rules (h : c.Grows c') : c.rules.Rel (List.Forall₂ LooseCompiledRule.Grows) c'.rules := by
  cases h with
  | strict _ rules =>
    exact rules.mapValues fun _ _ hr =>
      List.forall₂_map_left_iff.2 (List.forall₂_map_right_iff.2 hr)
  | loose _ authored => exact NameMap.rel_group authored

end AnyCompiled.Grows

section Compiling

variable {m m' : ValidModel} (hm : m.IsValidated) (hm' : m'.IsValidated)
  (h : m.resources.Grows m'.resources)
include hm hm' h

/-- A rule that compiles still does, and grants no less. -/
theorem Rule.exists_compile_grows {r : Rule} {policy : Text} {c : CompiledRule}
    (hc : r.compile m policy = .ok c) :
    ∃ c', r.compile m' policy = .ok c' ∧ c.loosen.Grows c'.loosen := by
  unfold compile at hc ⊢
  rcases hd : m.resources.find? r.resource with _ | d <;> rw [hd] at hc
  · cases hc
  obtain ⟨d', hd', hgrows⟩ := h r.resource d hd
  rw [hd']
  dsimp only at hc ⊢
  split at hc
  · next found hfound =>
    obtain rfl := Except.ok.inj hc
    obtain ⟨found', hfound', hsub⟩ := hm.expandNames_grows hm' hd hd' hgrows (fun _ hc => hc) hfound
    refine ⟨⟨r.filter, found'⟩, ?_, rfl, hsub⟩
    unfold ValidModel.expansionsFor at hfound'
    rw [hfound']
  · cases hc
  · cases hc

/-- An offered rule that compiles still does, and grants no less. -/
theorem OfferedRule.exists_compile_grows {r : OfferedRule} {policy : Value}
    {e : Text × LooseCompiledRule} (he : r.compile m policy = .ok e) :
    ∃ e', r.compile m' policy = .ok e' ∧ e.1 = e'.1 ∧ e.2.Grows e'.2 := by
  obtain ⟨resource, hresource, he⟩ := Outcome.bind_eq_ok_iff.1 he
  obtain ⟨⟨name, d⟩, hasked, he⟩ := Outcome.bind_eq_ok_iff.1 he
  obtain ⟨requested, hrequested, he⟩ := Outcome.bind_eq_ok_iff.1 he
  obtain ⟨found, hfound, he⟩ := Outcome.bind_eq_ok_iff.1 he
  obtain ⟨filter, hfilter, he⟩ := Outcome.bind_eq_ok_iff.1 he
  obtain rfl := Except.ok.inj he
  obtain ⟨rfl, hd⟩ := Model.definitionAsked_eq_ok_iff.1 (Outcome.mapError_eq_ok_iff.1 hasked)
  obtain ⟨d', hd', hgrows⟩ := h name d hd
  obtain ⟨found', hfound', hsub⟩ := hm.expandData_grows hm' hd hd' hgrows (fun _ hc => hc)
    (Outcome.mapError_eq_ok_iff.1 hfound)
  have hasked' := Model.definitionAsked_eq_ok_iff (m := .validated m').2 ⟨rfl, hd'⟩
  refine ⟨(name, ⟨filter, found'⟩), ?_, rfl, rfl, hsub⟩
  refine Outcome.bind_eq_ok_iff.2 ⟨_, hresource, ?_⟩
  refine Outcome.bind_eq_ok_iff.2 ⟨_, Outcome.mapError_eq_ok_iff.2 hasked', ?_⟩
  refine Outcome.bind_eq_ok_iff.2 ⟨_, hrequested, ?_⟩
  refine Outcome.bind_eq_ok_iff.2 ⟨_, Outcome.mapError_eq_ok_iff.2 hfound', ?_⟩
  exact Outcome.bind_eq_ok_iff.2 ⟨_, hfilter, rfl⟩

/-- Rules that compile still do, and grant no less. -/
theorem Rule.exists_compileEach_grows {rules : List Rule} {policy : Text}
    {l : List (Text × CompiledRule)}
    (hl : List.Forall₂ (fun r e => e.1 = r.resource ∧ r.compile m policy = .ok e.2) rules l) :
    ∃ l' : List (Text × CompiledRule),
      List.Forall₂ (fun r e => e.1 = r.resource ∧ r.compile m' policy = .ok e.2) rules l' ∧
      List.Forall₂ (fun e e' => e.1 = e'.1 ∧ e.2.loosen.Grows e'.2.loosen) l l' := by
  induction hl with
  | nil => exact ⟨[], .nil, .nil⟩
  | @cons r e _ _ hr _ ih =>
    obtain ⟨c', hc', hgrows⟩ := r.exists_compile_grows hm hm' h hr.2
    obtain ⟨l', hl', hall⟩ := ih
    exact ⟨(r.resource, c') :: l', .cons ⟨rfl, hc'⟩ hl', .cons ⟨hr.1, hgrows⟩ hall⟩

/-- Offered rules that compile still do, and grant no less. -/
theorem OfferedPolicy.exists_compileEach_grows {rules : List OfferedRule} {policy : Value}
    {l : List (Text × LooseCompiledRule)} (hl : compileEach m policy rules = .ok l) :
    ∃ l', compileEach m' policy rules = .ok l' ∧
      List.Forall₂ (fun e e' => e.1 = e'.1 ∧ e.2.Grows e'.2) l l' := by
  induction rules generalizing l with
  | nil =>
    obtain rfl := Except.ok.inj hl
    exact ⟨[], rfl, .nil⟩
  | cons r rest ih =>
    obtain ⟨e, he, hl⟩ := Outcome.bind_eq_ok_iff.1 hl
    obtain ⟨more, hmore, hl⟩ := Outcome.bind_eq_ok_iff.1 hl
    obtain rfl := Except.ok.inj hl
    obtain ⟨e', he', hgrows⟩ := r.exists_compile_grows hm hm' h he
    obtain ⟨more', hmore', hall⟩ := ih hmore
    refine ⟨e' :: more', ?_, .cons hgrows hall⟩
    exact Outcome.bind_eq_ok_iff.2 ⟨e', he', Outcome.bind_eq_ok_iff.2 ⟨more', hmore', rfl⟩⟩

/-- **A policy that compiles still does, and grants no less.** -/
theorem OfferedPolicy.exists_compile_grows {o : OfferedPolicy} {c : AnyCompiled}
    (hc : o.compile m = .ok c) : ∃ c', o.compile m' = .ok c' ∧ c.Grows c' := by
  rcases hstrict : o.strict? with _ | p
  · rw [compile, hstrict] at hc
    obtain ⟨rules, hrules, hc⟩ := Outcome.bind_eq_ok_iff.1 hc
    obtain ⟨l, hl, hc⟩ := Outcome.bind_eq_ok_iff.1 hc
    obtain rfl := Except.ok.inj hc
    obtain ⟨l', hl', hall⟩ := exists_compileEach_grows hm hm' h hl
    refine ⟨.loose ⟨o.name, m'.fingerprint, l'⟩, ?_, .loose rfl hall⟩
    rw [compile, hstrict]
    exact Outcome.bind_eq_ok_iff.2 ⟨rules, hrules, Outcome.bind_eq_ok_iff.2 ⟨l', hl', rfl⟩⟩
  · obtain ⟨_, hcompiled, rfl⟩ := (compile_strict_eq_ok_iff hstrict).1 hc
    obtain ⟨l, hl, rfl⟩ := Policy.compile_eq_ok_iff.1 hcompiled
    obtain ⟨l', hl', hall⟩ := Rule.exists_compileEach_grows hm hm' h hl
    refine ⟨.strict ⟨p.name, m'.fingerprint, NameMap.group l'⟩, ?_, ?_⟩
    · exact (compile_strict_eq_ok_iff hstrict).2 ⟨_, Policy.compile_eq_ok_iff.2 ⟨l', hl', rfl⟩, rfl⟩
    · exact .strict rfl (NameMap.rel_group hall)

/-- Policies that compile still do, and grant no less. -/
theorem OfferedPolicy.exists_map_compile_grows {offered : List OfferedPolicy}
    {compiled : List AnyCompiled} (hc : offered.map (·.compile m) = compiled.map .ok) :
    ∃ compiled', offered.map (·.compile m') = compiled'.map .ok ∧
      List.Forall₂ AnyCompiled.Grows compiled compiled' := by
  induction offered generalizing compiled with
  | nil =>
    obtain rfl : compiled = [] := by simpa using hc.symm
    exact ⟨[], rfl, .nil⟩
  | cons o rest ih =>
    obtain _ | ⟨c, compiled⟩ := compiled
    · cases hc
    · obtain ⟨hfirst, hrest⟩ := List.cons.inj hc
      obtain ⟨c', hc', hgrows⟩ := o.exists_compile_grows hm hm' h hfirst
      obtain ⟨compiled', hcompiled', hall⟩ := ih hrest
      exact ⟨c' :: compiled', congrArg₂ List.cons hc' hcompiled', .cons hgrows hall⟩

end Compiling

end Gatehouse
