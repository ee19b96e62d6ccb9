import Gatehouse.Proofs.Alias.Expansion
import Mathlib.Data.List.Chain

/-!
# The faults of aliases

Whatever the expansion of aliases reports is really there.  An alias that hides a capability is
looked for before anything is expanded, and the first one is reported.  The search itself reports a
target that is no name of the resource, or a circle (`Definition.Flaw`): either one alias that lists
itself in vain, or a closed walk through different aliases (`Definition.IsCircle`).  The walk is cut
out of the path of the search, and what makes it one is that the path runs along the aliases with
nothing on it twice.  Main statement: every reported fault is a genuine one, and hidden capabilities
are reported before all else (`Definition.expansions_faults`).
-/

namespace Gatehouse

open Relation (TransGen)

namespace Definition

/-- Alias `a` has `b` among its targets. -/
def Lists (d : Definition) (a b : Text) : Prop :=
  ∃ targets, d.aliases.find? a = some targets ∧ b ∈ targets

/-- **Names that lead in a circle,** from the first one back to it. -/
inductive IsCircle (d : Definition) : List Text → Prop where
  /-- An alias lists itself, but there is no capability of its name. -/
  | own {a : Text} (hlists : d.Lists a a) (hcap : a ∉ d.capabilities) : IsCircle d [a, a]
  /-- Two or more different aliases, each of them a target of the one before it. -/
  | walk {a : Text} {rest : List Text} (hrest : rest ≠ []) (hnodup : (a :: rest).Nodup)
      (haliases : ∀ b ∈ a :: rest, b ∈ d.aliases.keys)
      (hchain : (a :: rest ++ [a]).IsChain d.Lists) : IsCircle d (a :: rest ++ [a])

/-- What the search for the capabilities of aliases may report. -/
inductive Flaw (d : Definition) (resource : Text) : Fault → Prop where
  /-- An alias has a target that is neither an alias nor a capability. -/
  | unknown {a t : Text} (hlists : d.Lists a t) (halias : t ∉ d.aliases.keys)
      (hcap : t ∉ d.capabilities) : Flaw d resource (.undefinedAliasTarget resource a t)
  /-- Aliases lead in a circle. -/
  | circle {names : List Text} (h : d.IsCircle names) :
      Flaw d resource (.aliasCycle resource names)

/-- An alias with its targets hides a capability: it has the name of one, but does not list
itself. -/
def Hides (d : Definition) (entry : Text × List Text) : Prop :=
  entry.1 ∈ d.capabilities ∧ entry.1 ∉ entry.2

/-- The first alias, in order of definition, that hides a capability. -/
def FirstHiding (d : Definition) (name : Text) : Prop :=
  ∃ before targets after, d.aliases.entries = before ++ (name, targets) :: after ∧
    d.Hides (name, targets) ∧ ∀ entry ∈ before, ¬ d.Hides entry

variable {d : Definition} {resource name : Text} {path targets : List Text}
  {memo memo' : NameMap NameSet} {f : Fault}

/-- Whatever leads somewhere lists it. -/
theorem Leads.lists {a b : Text} (h : d.Leads a b) : d.Lists a b := by
  obtain ⟨targets, hfind, hmem, -⟩ := h
  exact ⟨targets, hfind, hmem⟩

/-- Only an alias leads anywhere. -/
theorem Leads.mem_keys {a b : Text} (h : d.Leads a b) : a ∈ d.aliases.keys := by
  obtain ⟨targets, hfind, -⟩ := h
  exact mem_keys_of_find? hfind

/-- An alias that lists itself does not lead to itself. -/
theorem not_leads_self (a : Text) : ¬ d.Leads a a := by
  rintro ⟨_, _, _, hne, _⟩
  exact hne rfl

/-- An alias leads to the other aliases that it lists. -/
theorem Lists.leads {a b : Text} (h : d.Lists a b) (hne : b ≠ a) (hb : b ∈ d.aliases.keys) :
    d.Leads a b := by
  obtain ⟨targets, hfind, hmem⟩ := h
  exact (leads_iff hfind).2 ⟨hmem, hne, hb⟩

/-! ### Circles on the path -/

/-- All of a walk but its last name are aliases. -/
theorem mem_keys_of_isChain (hchain : (path ++ [name]).IsChain d.Leads) :
    ∀ a ∈ path, a ∈ d.aliases.keys := by
  intro a ha
  obtain ⟨front, back, rfl⟩ := List.append_of_mem ha
  rw [List.append_assoc, List.cons_append] at hchain
  have htail := hchain.right_of_append
  rcases back with _ | ⟨b, back⟩
  · exact (List.isChain_pair.1 htail).mem_keys
  · exact (List.isChain_cons_cons.1 htail).1.mem_keys

/-- **The path from an alias back to it is a circle,** where the path runs along aliases that lead
from each to the next and none is on it twice. -/
theorem isCircle_dropWhile (hchain : (path ++ [name]).IsChain d.Leads) (hnodup : path.Nodup)
    (hmem : name ∈ path) : d.IsCircle (path.dropWhile (· ≠ name) ++ [name]) := by
  obtain ⟨front, rest, rfl, hfront⟩ := List.eq_append_cons_of_mem hmem
  have hdrop : (front ++ name :: rest).dropWhile (· ≠ name) = name :: rest := by
    rw [List.dropWhile_append_of_pos]
    · simp
    · intro b hb
      simpa using fun e : b = name => hfront (e ▸ hb)
  have hwalk : (name :: rest ++ [name]).IsChain d.Leads := by
    rw [List.append_assoc] at hchain
    exact hchain.right_of_append
  rw [hdrop]
  refine .walk ?_ (List.nodup_append.1 hnodup).2.1 (mem_keys_of_isChain hwalk)
    (hwalk.imp fun _ _ => Leads.lists)
  rintro rfl
  exact not_leads_self name (List.isChain_pair.1 hwalk)

/-- A further alias among the targets of the last alias on the path goes on with it. -/
theorem isChain_concat {target : Text} (hchain : path.IsChain d.Leads)
    (hlast : path.getLast? = some name) (hlead : d.Leads name target) :
    (path ++ [target]).IsChain d.Leads := by
  refine hchain.append (.singleton _) ?_
  intro a ha b hb
  rw [hlast] at ha
  obtain rfl := Option.some.inj ha
  obtain rfl : target = b := by simpa using hb
  exact hlead

/-! ### The search -/

/-- **What the search reports is really there.**  The induction is on the search itself; the
invariant is that the path runs along aliases, up to the one under expansion, with none on it
twice. -/
theorem flaw_of_expand (d : Definition) (resource : Text) :
    (∀ path memo name targets (hname : d.aliases.find? name = some targets),
      (path ++ [name]).IsChain d.Leads → path.Nodup → ∀ f,
        d.expandAlias resource path memo name targets hname = .error f → d.Flaw resource f) ∧
    ∀ name path memo found targets, path.IsChain d.Leads → path.Nodup →
      path.getLast? = some name → (∀ t ∈ targets, d.Lists name t) → ∀ f,
        d.expandTargets resource name path memo found targets = .error f → d.Flaw resource f := by
  refine Definition.expandAlias.mutual_induct d resource
    (fun path memo name targets hname => (path ++ [name]).IsChain d.Leads → path.Nodup → ∀ f,
      d.expandAlias resource path memo name targets hname = .error f → d.Flaw resource f)
    (fun name path memo found targets => path.IsChain d.Leads → path.Nodup →
      path.getLast? = some name → (∀ t ∈ targets, d.Lists name t) → ∀ f,
        d.expandTargets resource name path memo found targets = .error f → d.Flaw resource f)
    ?known ?circle ?failed ?expanded ?done ?own ?ownMissing ?furtherFailed ?further ?leaf ?unknown
  case known =>
    intro path memo name targets hname known hknown _ _ f hf
    simp [expandAlias, hknown] at hf
  case circle =>
    intro path memo name targets hname hnone hpath hchain hnodup f hf
    simp only [expandAlias, hnone, hpath, dite_true, Except.error.injEq] at hf
    exact hf ▸ .circle (isCircle_dropWhile hchain hnodup hpath)
  case failed =>
    intro path memo name targets hname hnone hpath f hbad ih hchain hnodup f' hf
    simp only [expandAlias, hnone, hpath, dite_false, hbad, Except.error.injEq] at hf
    have hnodup' : (path ++ [name]).Nodup := by
      simpa [List.nodup_append] using ⟨hnodup, fun a ha e => hpath (e ▸ ha)⟩
    exact ih hchain hnodup' (by simp) (fun t ht => ⟨targets, hname, ht⟩) f' (hf ▸ hbad)
  case expanded =>
    intro path memo name targets hname hnone hpath found memo' hok _ _ _ f hf
    simp [expandAlias, hnone, hpath, hok] at hf
  case done =>
    intro name path memo found _ _ _ _ f hf
    simp [expandTargets] at hf
  case own =>
    intro path memo found target rest hcap ih hchain hnodup hlast hlists f hf
    rw [expandTargets, if_pos rfl, if_pos hcap] at hf
    exact ih hchain hnodup hlast (fun t ht => hlists t (List.mem_cons_of_mem _ ht)) f hf
  case ownMissing =>
    intro path memo found target rest hcap _ _ _ hlists f hf
    rw [expandTargets, if_pos rfl, if_neg hcap, Except.error.injEq] at hf
    exact hf ▸ .circle (.own (hlists target List.mem_cons_self) hcap)
  case furtherFailed =>
    intro name path memo found target rest hne further htarget f hbad ih hchain hnodup hlast hlists
      f' hf
    rw [expandTargets_further hne htarget, hbad] at hf
    have hlead := (hlists target List.mem_cons_self).leads hne (mem_keys_of_find? htarget)
    exact ih (isChain_concat hchain hlast hlead) hnodup f' (Except.error.inj hf ▸ hbad)
  case further =>
    intro name path memo found target rest hne further htarget more memo' hok _ ih hchain hnodup
      hlast hlists f hf
    rw [expandTargets_further hne htarget, hok] at hf
    exact ih hchain hnodup hlast (fun t ht => hlists t (List.mem_cons_of_mem _ ht)) f hf
  case leaf =>
    intro name path memo found target rest hne htarget hcap ih hchain hnodup hlast hlists f hf
    rw [expandTargets_leaf hne htarget, if_pos hcap] at hf
    exact ih hchain hnodup hlast (fun t ht => hlists t (List.mem_cons_of_mem _ ht)) f hf
  case unknown =>
    intro name path memo found target rest hne htarget hcap _ _ _ hlists f hf
    rw [expandTargets_leaf hne htarget, if_neg hcap, Except.error.injEq] at hf
    exact hf ▸ .unknown (hlists target List.mem_cons_self)
      (OrderedMap.find?_eq_none_iff.1 htarget) hcap

/-- What the expansion of several aliases reports is really there. -/
theorem flaw_of_expandEach {names : List Text}
    (hf : d.expandEach resource names memo = .error f) : d.Flaw resource f := by
  induction names generalizing memo with
  | nil => cases hf
  | cons name rest ih =>
    rcases hname : d.aliases.find? name with _ | targets
    · rw [expandEach] at hf
      split at hf
      · exact ih hf
      · next h => rw [hname] at h; cases h
    · rw [expandEach_cons hname] at hf
      split at hf
      · next f' hbad =>
        exact (d.flaw_of_expand resource).1 [] memo name targets hname (.singleton _) .nil f
          (Except.error.inj hf ▸ hbad)
      · exact ih hf

/-! ### All aliases -/

/-- The search for an alias that hides a capability finds the first one. -/
theorem shadowing?_eq_some_iff : d.shadowing? = some name ↔ d.FirstHiding name := by
  have hhides : ∀ entry : Text × List Text,
      (d.capabilities.contains entry.1 && !entry.2.contains entry.1) = true ↔ d.Hides entry := by
    simp [Hides]
  simp only [shadowing?, Option.map_eq_some_iff, List.find?_eq_some_iff_append, FirstHiding,
    Bool.not_eq_true', ← Bool.not_eq_true, hhides]
  constructor
  · rintro ⟨⟨a, targets⟩, ⟨hfound, before, after, hsplit, hbefore⟩, rfl⟩
    exact ⟨before, targets, after, hsplit, hfound, hbefore⟩
  · rintro ⟨before, targets, after, hsplit, hfound, hbefore⟩
    exact ⟨(name, targets), ⟨hfound, before, after, hsplit, hbefore⟩, rfl⟩

/-- Some alias hides a capability exactly if there is a first one. -/
theorem exists_firstHiding_iff :
    (∃ name, d.FirstHiding name) ↔ ∃ entry ∈ d.aliases.entries, d.Hides entry := by
  have hsome : (∃ name, d.FirstHiding name) ↔ d.shadowing? ≠ none := by
    simp only [← shadowing?_eq_some_iff, Option.ne_none_iff_exists']
  rw [hsome, Ne, shadowing?_eq_none_iff]
  simp [HidesNone, Hides, OrderedMap.find?_eq_some_iff]

/-- Expansion looks for a hidden capability first, and then for other flaws. -/
theorem flaw_of_expansions (hf : d.expansions resource = .error f) :
    (∃ name : Text, f = .shadowedCapability resource name ∧ d.FirstHiding name) ∨
      d.HidesNone ∧ d.Flaw resource f := by
  unfold expansions at hf
  split at hf
  · next name hname =>
    exact .inl ⟨name, (Except.error.inj hf).symm, shadowing?_eq_some_iff.1 hname⟩
  · next hnone => exact .inr ⟨shadowing?_eq_none_iff.1 hnone, flaw_of_expandEach hf⟩

/-- A hidden capability is reported before all else. -/
theorem expansions_eq_shadowed_iff :
    d.expansions resource = .error (.shadowedCapability resource name) ↔ d.FirstHiding name := by
  constructor
  · intro hf
    rcases flaw_of_expansions hf with ⟨first, heq, hfirst⟩ | ⟨-, hflaw⟩
    · simp only [Fault.shadowedCapability.injEq, Value.text.injEq, true_and] at heq
      exact heq ▸ hfirst
    · nomatch hflaw
  · intro hfirst
    rw [expansions, shadowing?_eq_some_iff.2 hfirst]

/-- **Where no capability is hidden and every target is known, aliases in a circle are all that can
be reported,** and they are. -/
theorem circle_reported_iff (hhides : d.HidesNone)
    (hknown : ∀ a t, d.Lists a t → t ∈ d.aliases.keys ∨ t ∈ d.capabilities) :
    (∃ names, d.IsCircle names ∧
        d.expansions resource = .error (.aliasCycle resource names)) ↔
      ∃ a, d.Lists a a ∧ a ∉ d.capabilities ∨ TransGen d.Leads a a := by
  have hspec := d.expansions_spec resource
  constructor
  · rintro ⟨names, -, hf⟩
    rw [hf] at hspec
    by_contra! hnone
    exact hspec ⟨hhides, fun a targets ha hmem => (hnone a).1 ⟨targets, ha, hmem⟩,
      fun a targets ha t ht => hknown a t ⟨targets, ha, ht⟩, fun a => (hnone a).2⟩
  · rintro ⟨a, ha⟩
    have hunsound : ¬ d.Sound := fun h => by
      rcases ha with ⟨⟨targets, hfind, hmem⟩, hcap⟩ | hcircle
      · exact hcap (h.own a targets hfind hmem)
      · exact h.acyclic a hcircle
    rcases hf : d.expansions resource with f | m
    · rcases flaw_of_expansions hf with ⟨name, rfl, hfirst⟩ | ⟨-, hflaw⟩
      · exact absurd (shadowing?_eq_none_iff.2 hhides) (by simp [shadowing?_eq_some_iff.2 hfirst])
      · cases hflaw with
        | unknown hlists halias hcap => exact absurd (hknown _ _ hlists) (by simp [halias, hcap])
        | circle hcircle => exact ⟨_, hcircle, rfl⟩
    · rw [hf] at hspec
      exact absurd hspec.1 hunsound

/-- **Every fault of the aliases is a genuine one.**  A hidden capability is reported exactly if
there is one, before all else, and it is the first.  Otherwise an undefined target is one that the
alias lists and that is neither an alias nor a capability, and the names of a circle do lead in a
circle.  So where no capability is hidden and every target is known, aliases that lead in a circle
are always reported as one. -/
theorem expansions_faults (d : Definition) (resource : Text) :
    (∀ name : Text, d.expansions resource = .error (.shadowedCapability resource name) ↔
      d.FirstHiding name) ∧
    ((∃ name : Text, d.expansions resource = .error (.shadowedCapability resource name)) ↔
      ∃ entry ∈ d.aliases.entries, d.Hides entry) ∧
    (∀ f, d.expansions resource = .error f →
      (∃ name : Text, f = .shadowedCapability resource name ∧ d.FirstHiding name) ∨
        d.HidesNone ∧ d.Flaw resource f) ∧
    (d.HidesNone → (∀ a t, d.Lists a t → t ∈ d.aliases.keys ∨ t ∈ d.capabilities) →
      ((∃ names, d.IsCircle names ∧
          d.expansions resource = .error (.aliasCycle resource names)) ↔
        ∃ a, d.Lists a a ∧ a ∉ d.capabilities ∨ TransGen d.Leads a a)) := by
  refine ⟨fun _ => expansions_eq_shadowed_iff, ?_, fun f => flaw_of_expansions,
    circle_reported_iff⟩
  simp only [expansions_eq_shadowed_iff, exists_firstHiding_iff]

/-- A shelf on which `all` stands for `most` too, and `most` for `all`. -/
def tangled : Definition :=
  ⟨["read", "write"], .ofList [("all", ["read", "most"]), ("most", ["all", "write"])]⟩

/-- The two aliases of the shelf are reported as a circle. -/
theorem expansions_tangled : ∃ names, tangled.IsCircle names ∧
    tangled.expansions "shelf" = .error (.aliasCycle "shelf" names) := by
  have hhides : ∀ entry ∈ tangled.aliases.entries, entry.1 ∈ tangled.capabilities →
      entry.1 ∈ entry.2 := by decide
  have hknown : ∀ entry ∈ tangled.aliases.entries, ∀ t ∈ entry.2,
      t ∈ tangled.aliases.keys ∨ t ∈ tangled.capabilities := by decide
  have hall : tangled.Leads "all" "most" := ⟨["read", "most"], rfl, by decide, by decide, by decide⟩
  have hmost : tangled.Leads "most" "all" :=
    ⟨["all", "write"], rfl, by decide, by decide, by decide⟩
  refine ((expansions_faults tangled "shelf").2.2.2 ?_ ?_).2
    ⟨"all", .inr (.tail (.single hall) hmost)⟩
  · exact fun a targets ha => hhides (a, targets) (OrderedMap.find?_eq_some_iff.1 ha)
  · rintro a t ⟨targets, ha, ht⟩
    exact hknown (a, targets) (OrderedMap.find?_eq_some_iff.1 ha) t ht

end Definition

end Gatehouse
