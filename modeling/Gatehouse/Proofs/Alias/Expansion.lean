import Gatehouse.Model.Expansion
import Gatehouse.Proofs.Alias.Graph
import Gatehouse.Proofs.Collections.NameSet

/-!
# The expansion of aliases is exact

The search of `Definition.expandAlias` remembers expansions and keeps the path of aliases under
expansion.  What carries it is that everything remembered is right (`Definition.Remembered`) and
that every alias on the path reaches the alias under expansion.  So it is on the path itself only if
it lies on a circle, and a remembered alias never does.

Main statement: expansion succeeds exactly for sound definitions, and its result has the aliases as
names, each with the capabilities that it stands for (`Definition.expansions_exact`).
-/

namespace Gatehouse

open Relation (ReflTransGen TransGen)

namespace Definition

/-- The set of capabilities that an alias stands for is the right one. -/
def IsExpansion (d : Definition) (a : Text) (found : NameSet) : Prop :=
  d.Expandable a ∧ ∀ c, c ∈ found ↔ d.StandsFor a c

/-- Everything that is remembered is right. -/
def Remembered (d : Definition) (memo : NameMap NameSet) : Prop :=
  ∀ a found, memo.find? a = some found → d.IsExpansion a found

/-- What was remembered before is remembered still. -/
def Extends (memo memo' : NameMap NameSet) : Prop :=
  ∀ a found, memo.find? a = some found → memo'.find? a = some found

/-- A target of an alias is fit for expansion. -/
def Fit (d : Definition) (name target : Text) : Prop :=
  if target = name then target ∈ d.capabilities
  else d.Expandable target ∨ target ∉ d.aliases.keys ∧ target ∈ d.capabilities

/-- A target of an alias contributes a capability. -/
def Offers (d : Definition) (name target c : Text) : Prop :=
  if target ≠ name ∧ target ∈ d.aliases.keys then d.StandsFor target c else c = target

variable {d : Definition} {resource name target c : Text} {path targets rest : List Text}
  {memo memo' : NameMap NameSet} {found : NameSet}

/-- A memo extends itself. -/
theorem Extends.refl (memo : NameMap NameSet) : Extends memo memo := fun _ _ h => h

/-- What is extended twice is extended. -/
theorem Extends.trans {memo'' : NameMap NameSet} (h : Extends memo memo')
    (h' : Extends memo' memo'') : Extends memo memo'' := fun a found hf => h' a found (h a found hf)

/-- An alias that is not remembered yet is added to what is remembered. -/
theorem Extends.insert (h : Extends memo memo') (hnone : memo.find? name = none) (found : NameSet) :
    Extends memo (memo'.insert name found) := by
  intro a known ha
  have hne : a ≠ name := fun e => by rw [e, hnone] at ha; cases ha
  rw [NameMap.find?_insert, if_neg hne]
  exact h a known ha

/-- Nothing is remembered in the beginning. -/
theorem Remembered.empty : d.Remembered ∅ := fun _ _ h => by simp at h

/-- An expansion may be remembered. -/
theorem Remembered.insert (h : d.Remembered memo) (hfound : d.IsExpansion name found) :
    d.Remembered (memo.insert name found) := by
  intro a known ha
  rw [NameMap.find?_insert] at ha
  split at ha
  · next e =>
    obtain rfl := Option.some.inj ha
    exact e ▸ hfound
  · exact h a known ha

/-! ### Targets -/

/-- An alias is expandable exactly if all its targets are fit. -/
theorem expandable_iff (hname : d.aliases.find? name = some targets) :
    d.Expandable name ↔ ∀ t ∈ targets, d.Fit name t := by
  constructor
  · intro h t ht
    unfold Fit
    split
    · next e => exact e ▸ h.own_mem hname (e ▸ ht)
    · next hne =>
      by_cases hkeys : t ∈ d.aliases.keys
      · exact .inl (h.of_leads ((leads_iff hname).2 ⟨ht, hne, hkeys⟩))
      · exact .inr ⟨hkeys, (h.target_known hname ht).resolve_left hkeys⟩
  · intro h
    refine .intro hname (fun hown => ?_) (fun t ht => ?_) fun b hb => ?_
    · simpa [Fit] using h name hown
    · by_cases e : t = name
      · exact .inl (e ▸ mem_keys_of_find? hname)
      · have hfit := h t ht
        rw [Fit, if_neg e] at hfit
        exact hfit.imp Expandable.mem_keys And.right
    · obtain ⟨hmem, hne, hkeys⟩ := (leads_iff hname).1 hb
      have hfit := h b hmem
      rw [Fit, if_neg hne] at hfit
      exact hfit.resolve_right fun h => h.1 hkeys

/-- An alias with fit targets stands for what its targets contribute. -/
theorem standsFor_iff_offers (hname : d.aliases.find? name = some targets)
    (hfit : ∀ t ∈ targets, d.Fit name t) :
    d.StandsFor name c ↔ ∃ t ∈ targets, d.Offers name t c := by
  rw [standsFor_iff, brings_iff hname]
  constructor
  · rintro (⟨hc, h⟩ | ⟨b, hb, hbc⟩)
    · refine ⟨c, hc, ?_⟩
      have : ¬ (c ≠ name ∧ c ∈ d.aliases.keys) := by
        rcases h with h | h <;> simp [h]
      simp [Offers, this]
    · obtain ⟨hmem, hne, hkeys⟩ := (leads_iff hname).1 hb
      exact ⟨b, hmem, by simpa [Offers, hne, hkeys] using hbc⟩
  · rintro ⟨t, ht, h⟩
    unfold Offers at h
    split at h
    · next hlead => exact .inr ⟨t, (leads_iff hname).2 ⟨ht, hlead.1, hlead.2⟩, h⟩
    · next hlead =>
      subst h
      refine .inl ⟨ht, ?_⟩
      by_cases e : c = name
      · exact .inr e
      · have hkeys : c ∉ d.aliases.keys := fun hk => hlead ⟨e, hk⟩
        have hc := hfit c ht
        rw [Fit, if_neg e] at hc
        exact .inl ⟨(hc.resolve_left fun h => hkeys h.mem_keys).2, hkeys⟩

/-- The contribution of a target that is no further alias is the target. -/
theorem offers_self (h : target = name ∨ target ∉ d.aliases.keys) :
    d.Offers name target c ↔ c = target := by
  have : ¬ (target ≠ name ∧ target ∈ d.aliases.keys) := by
    rcases h with h | h <;> simp [h]
  simp [Offers, this]

/-! ### The search -/

/-- What is said of the expansion of an alias: it remembers the right set, or the alias is not
expandable. -/
def AliasResult (d : Definition) (memo : NameMap NameSet) (name : Text) :
    Except Fault (NameSet × NameMap NameSet) → Prop
  | .ok (found, memo') =>
    d.Remembered memo' ∧ Extends memo memo' ∧ memo'.find? name = some found
  | .error _ => ¬ d.Expandable name

/-- What is said of the expansion of targets: all are fit and their contributions are added, or one
is not fit. -/
def TargetsResult (d : Definition) (memo : NameMap NameSet) (name : Text) (found : NameSet)
    (targets : List Text) : Except Fault (NameSet × NameMap NameSet) → Prop
  | .ok (found', memo') =>
    d.Remembered memo' ∧ Extends memo memo' ∧ (∀ t ∈ targets, d.Fit name t) ∧
      ∀ c, c ∈ found' ↔ c ∈ found ∨ ∃ t ∈ targets, d.Offers name t c
  | .error _ => ∃ t ∈ targets, ¬ d.Fit name t

/-- A fit target before other targets. -/
theorem TargetsResult.cons {found₁ : NameSet}
    {x : Except Fault (NameSet × NameMap NameSet)} (hfit : d.Fit name target)
    (hext : Extends memo memo') (hfound : ∀ c, c ∈ found₁ ↔ c ∈ found ∨ d.Offers name target c)
    (h : d.TargetsResult memo' name found₁ rest x) :
    d.TargetsResult memo name found (target :: rest) x := by
  rcases x with f | ⟨found', memo''⟩
  · obtain ⟨t, ht, hbad⟩ := h
    exact ⟨t, List.mem_cons_of_mem _ ht, hbad⟩
  · obtain ⟨hmemo, hext', hfits, hmem⟩ := h
    refine ⟨hmemo, hext.trans hext', List.forall_mem_cons.2 ⟨hfit, hfits⟩, fun c => ?_⟩
    rw [hmem, hfound]
    simp [or_assoc]

/-- With the alias under expansion at its end, the path still reaches that alias. -/
theorem reach_path (hreach : ∀ p ∈ path, TransGen d.Leads p name) :
    ∀ p ∈ path ++ [name], ReflTransGen d.Leads p name := by
  intro p hp
  rcases List.mem_append.1 hp with hp | hp
  · exact (hreach p hp).to_reflTransGen
  · exact List.mem_singleton.1 hp ▸ .refl

/-- A target that is another alias is expanded before the targets behind it. -/
theorem expandTargets_further {further : List Text} (hne : target ≠ name)
    (htarget : d.aliases.find? target = some further) :
    d.expandTargets resource name path memo found (target :: rest) =
      match d.expandAlias resource path memo target further htarget with
      | .error f => .error f
      | .ok (more, memo) => d.expandTargets resource name path memo (found ∪ more) rest := by
  rw [expandTargets, if_neg hne]
  split
  · next further' h =>
    obtain rfl := Option.some.inj (htarget.symm.trans h)
    rfl
  · next h => rw [htarget] at h; cases h

/-- A target that is no alias has to be a capability. -/
theorem expandTargets_leaf (hne : target ≠ name) (htarget : d.aliases.find? target = none) :
    d.expandTargets resource name path memo found (target :: rest) =
      if target ∈ d.capabilities then
        d.expandTargets resource name path memo (found.add target) rest
      else .error (.undefinedAliasTarget resource name target) := by
  rw [expandTargets, if_neg hne]
  split
  · next further h => rw [htarget] at h; cases h
  · rfl

/-- An alias is expanded before the names behind it. -/
theorem expandEach_cons {names : List Text} (hname : d.aliases.find? name = some targets) :
    d.expandEach resource (name :: names) memo =
      match d.expandAlias resource [] memo name targets hname with
      | .error f => .error f
      | .ok (_, memo) => d.expandEach resource names memo := by
  rw [expandEach]
  split
  · next h => rw [hname] at h; cases h
  · next targets' h =>
    obtain rfl := Option.some.inj (hname.symm.trans h)
    rfl

/-- **The search is right:** it remembers right sets only, and it fails only where an alias is not
expandable.  The induction is on the search itself; the invariant is that what is remembered is
right and that all of the path reaches the alias under expansion. -/
theorem expand_spec (d : Definition) (resource : Text) :
    (∀ path memo name targets (hname : d.aliases.find? name = some targets),
      d.Remembered memo → (∀ p ∈ path, TransGen d.Leads p name) →
        d.AliasResult memo name (d.expandAlias resource path memo name targets hname)) ∧
    ∀ name path memo found targets, d.Remembered memo →
      (∀ p ∈ path, ReflTransGen d.Leads p name) → (∀ t ∈ targets, t ≠ name →
        t ∈ d.aliases.keys → d.Leads name t) →
        d.TargetsResult memo name found targets
          (d.expandTargets resource name path memo found targets) := by
  refine Definition.expandAlias.mutual_induct d resource
    (fun path memo name targets hname => d.Remembered memo →
      (∀ p ∈ path, TransGen d.Leads p name) →
        d.AliasResult memo name (d.expandAlias resource path memo name targets hname))
    (fun name path memo found targets => d.Remembered memo →
      (∀ p ∈ path, ReflTransGen d.Leads p name) → (∀ t ∈ targets, t ≠ name →
        t ∈ d.aliases.keys → d.Leads name t) →
        d.TargetsResult memo name found targets
          (d.expandTargets resource name path memo found targets))
    ?known ?circle ?failed ?expanded ?done ?own ?ownMissing ?furtherFailed ?further ?leaf ?unknown
  case known =>
    intro path memo name targets hname known hknown hmemo _
    rw [expandAlias, hknown]
    exact ⟨hmemo, .refl memo, hknown⟩
  case circle =>
    intro path memo name targets hname hnone hpath _ hreach
    simp only [expandAlias, hnone, hpath, dite_true]
    exact fun h => h.not_transGen (hreach name hpath)
  case failed =>
    intro path memo name targets hname hnone hpath f hf ih hmemo hreach
    simp only [expandAlias, hnone, hpath, dite_false, hf]
    have hbad := ih hmemo (reach_path hreach) fun t ht hne hkeys =>
      (leads_iff hname).2 ⟨ht, hne, hkeys⟩
    rw [hf] at hbad
    obtain ⟨t, ht, hunfit⟩ := hbad
    exact fun h => hunfit ((expandable_iff hname).1 h t ht)
  case expanded =>
    intro path memo name targets hname hnone hpath found memo' hok ih hmemo hreach
    simp only [expandAlias, hnone, hpath, dite_false, hok]
    have hgood := ih hmemo (reach_path hreach) fun t ht hne hkeys =>
      (leads_iff hname).2 ⟨ht, hne, hkeys⟩
    rw [hok] at hgood
    obtain ⟨hmemo', hext, hfit, hmem⟩ := hgood
    have hfound : d.IsExpansion name found := by
      refine ⟨(expandable_iff hname).2 hfit, fun c => ?_⟩
      rw [hmem, standsFor_iff_offers hname hfit]
      simp [NameSet.not_mem_empty]
    exact ⟨hmemo'.insert hfound, hext.insert hnone found, by simp [NameMap.find?_insert]⟩
  case done =>
    intro name path memo found hmemo _ _
    rw [expandTargets]
    exact ⟨hmemo, .refl memo, by simp, by simp⟩
  case own =>
    intro path memo found target rest hcap ih hmemo hreach hlead
    rw [expandTargets, if_pos rfl, if_pos hcap]
    refine TargetsResult.cons (by simp [Fit, hcap]) (.refl memo) (fun c => ?_)
      (ih hmemo hreach fun t ht => hlead t (List.mem_cons_of_mem _ ht))
    rw [NameSet.mem_add, offers_self (.inl rfl), or_comm]
  case ownMissing =>
    intro path memo found target rest hcap _ _ _
    rw [expandTargets, if_pos rfl, if_neg hcap]
    exact ⟨target, List.mem_cons_self, by simp [Fit, hcap]⟩
  case furtherFailed =>
    intro name path memo found target rest hne further htarget f hf ih hmemo hreach hlead
    have hkeys := mem_keys_of_find? htarget
    have hbad := ih hmemo fun p hp =>
      TransGen.tail' (hreach p hp) (hlead target List.mem_cons_self hne hkeys)
    rw [hf] at hbad
    rw [expandTargets_further hne htarget, hf]
    refine ⟨target, List.mem_cons_self, ?_⟩
    rw [Fit, if_neg hne]
    exact fun h => h.elim hbad fun h => h.1 hkeys
  case further =>
    intro name path memo found target rest hne further htarget more memo' hok ih ihrest hmemo
      hreach hlead
    have hkeys := mem_keys_of_find? htarget
    have hgood := ih hmemo fun p hp =>
      TransGen.tail' (hreach p hp) (hlead target List.mem_cons_self hne hkeys)
    rw [hok] at hgood
    obtain ⟨hmemo', hext, hmore⟩ := hgood
    obtain ⟨hexp, hstands⟩ := hmemo' target more hmore
    rw [expandTargets_further hne htarget, hok]
    refine TargetsResult.cons (by rw [Fit, if_neg hne]; exact .inl hexp) hext (fun c => ?_)
      (ihrest hmemo' hreach fun t ht => hlead t (List.mem_cons_of_mem _ ht))
    rw [NameSet.mem_union, hstands, Offers, if_pos ⟨hne, hkeys⟩]
  case leaf =>
    intro name path memo found target rest hne htarget hcap ih hmemo hreach hlead
    have hkeys : target ∉ d.aliases.keys := OrderedMap.find?_eq_none_iff.1 htarget
    rw [expandTargets_leaf hne htarget, if_pos hcap]
    refine TargetsResult.cons (by rw [Fit, if_neg hne]; exact .inr ⟨hkeys, hcap⟩) (.refl memo)
      (fun c => ?_) (ih hmemo hreach fun t ht => hlead t (List.mem_cons_of_mem _ ht))
    rw [NameSet.mem_add, offers_self (.inr hkeys), or_comm]
  case unknown =>
    intro name path memo found target rest hne htarget hcap _ _ _
    have hkeys : target ∉ d.aliases.keys := OrderedMap.find?_eq_none_iff.1 htarget
    rw [expandTargets_leaf hne htarget, if_neg hcap]
    refine ⟨target, List.mem_cons_self, ?_⟩
    rw [Fit, if_neg hne]
    exact fun h => h.elim (fun h => hkeys h.mem_keys) fun h => hcap h.2

/-! ### All aliases -/

/-- What is said of the expansion of several aliases. -/
theorem expandEach_spec (d : Definition) (resource : Text) (names : List Text)
    (memo : NameMap NameSet) (hmemo : d.Remembered memo)
    (hnames : ∀ name ∈ names, name ∈ d.aliases.keys) :
    match d.expandEach resource names memo with
    | .ok memo' => d.Remembered memo' ∧ Extends memo memo' ∧ ∀ name ∈ names, name ∈ memo'
    | .error _ => ∃ name ∈ names, ¬ d.Expandable name := by
  induction names generalizing memo with
  | nil => exact ⟨hmemo, .refl memo, by simp⟩
  | cons name rest ih =>
    obtain ⟨targets, hname⟩ := exists_find?_of_mem_keys (hnames name List.mem_cons_self)
    have hrest := fun t ht => hnames t (List.mem_cons_of_mem _ ht)
    have hspec := (d.expand_spec resource).1 [] memo name targets hname hmemo (by simp)
    rw [expandEach_cons hname]
    rcases hx : d.expandAlias resource [] memo name targets hname with f | ⟨found, memo₁⟩
    · rw [hx] at hspec
      exact ⟨name, List.mem_cons_self, hspec⟩
    · rw [hx] at hspec
      obtain ⟨hmemo₁, hext, hfound⟩ := hspec
      have hih := ih memo₁ hmemo₁ hrest
      dsimp only
      split at hih
      · next memo' heq =>
        obtain ⟨hmemo', hext', hall⟩ := hih
        rw [heq]
        refine ⟨hmemo', hext.trans hext', List.forall_mem_cons.2 ⟨?_, hall⟩⟩
        exact NameMap.mem_iff_exists.2 ⟨found, hext' name found hfound⟩
      · next f heq =>
        obtain ⟨t, ht, hbad⟩ := hih
        rw [heq]
        exact ⟨t, List.mem_cons_of_mem _ ht, hbad⟩

/-- No alias hides a capability exactly if none is found that does. -/
theorem shadowing?_eq_none_iff : d.shadowing? = none ↔ d.HidesNone := by
  simp only [shadowing?, Option.map_eq_none_iff, List.find?_eq_none, HidesNone,
    OrderedMap.find?_eq_some_iff, Prod.forall]
  refine forall_congr' fun a => forall_congr' fun targets => forall_congr' fun _ => ?_
  simp

/-- Expansion succeeds exactly for a definition that hides no capability and whose aliases are
expandable, and what it gives is right. -/
theorem expansions_spec (d : Definition) (resource : Text) :
    match d.expansions resource with
    | .ok m => d.Sound ∧ d.Remembered m ∧ ∀ name ∈ d.aliases.keys, name ∈ m
    | .error _ => ¬ d.Sound := by
  unfold expansions
  rcases hshadow : d.shadowing? with _ | name
  · have hspec := d.expandEach_spec resource d.aliases.keys ∅ Remembered.empty fun _ h => h
    dsimp only
    split
    · next m heq =>
      rw [heq] at hspec
      obtain ⟨hmemo, -, hall⟩ := hspec
      refine ⟨sound_iff.2 ⟨shadowing?_eq_none_iff.1 hshadow, fun a ha => ?_⟩, hmemo, hall⟩
      obtain ⟨found, hfound⟩ := NameMap.mem_iff_exists.1 (hall a ha)
      exact (hmemo a found hfound).1
    · next f heq =>
      rw [heq] at hspec
      obtain ⟨name, hname, hbad⟩ := hspec
      exact fun h => hbad ((sound_iff.1 h).2 name hname)
  · have hsome : d.shadowing? ≠ none := by simp [hshadow]
    exact fun h => hsome (shadowing?_eq_none_iff.2 h.hides)

/-- **The expansion of aliases is exact.**  It succeeds exactly if every alias of the name of a
capability lists itself, every alias that lists itself has the name of a capability, every target is
an alias or a capability, and no alias leads back to itself.  Its result has exactly the aliases as
names, each with exactly the capabilities that the aliases reached from it bring. -/
theorem expansions_exact (d : Definition) (resource : Text) :
    ((∃ m, d.expansions resource = .ok m) ↔
      (∀ a targets, (a, targets) ∈ d.aliases.entries → a ∈ d.capabilities → a ∈ targets) ∧
      (∀ a targets, (a, targets) ∈ d.aliases.entries → a ∈ targets → a ∈ d.capabilities) ∧
      (∀ a targets, (a, targets) ∈ d.aliases.entries →
        ∀ t ∈ targets, t ∈ d.aliases.keys ∨ t ∈ d.capabilities) ∧
      ∀ a, ¬ TransGen d.Leads a a) ∧
    ∀ m, d.expansions resource = .ok m →
      (∀ a, a ∈ m ↔ a ∈ d.aliases.keys) ∧
      ∀ a found, m.find? a = some found →
        ∀ c, c ∈ found ↔ ∃ b, ReflTransGen d.Leads a b ∧ d.Brings b c := by
  have hspec := d.expansions_spec resource
  constructor
  · have hsound : (∃ m, d.expansions resource = .ok m) ↔ d.Sound := by
      rcases hx : d.expansions resource with f | m
      · rw [hx] at hspec
        simpa using hspec
      · rw [hx] at hspec
        simpa using hspec.1
    rw [hsound]
    simp only [← OrderedMap.find?_eq_some_iff]
    refine ⟨fun h => ⟨h.hides, h.own, h.known, h.acyclic⟩, ?_⟩
    rintro ⟨hhides, hown, hknown, hacyclic⟩
    exact ⟨hhides, hown, hknown, hacyclic⟩
  · intro m hm
    rw [hm] at hspec
    obtain ⟨-, hmemo, hall⟩ := hspec
    refine ⟨fun a => ⟨fun ha => ?_, hall a⟩, fun a found ha => (hmemo a found ha).2⟩
    obtain ⟨found, hfound⟩ := NameMap.mem_iff_exists.1 ha
    exact (hmemo a found hfound).1.mem_keys

end Definition

end Gatehouse
