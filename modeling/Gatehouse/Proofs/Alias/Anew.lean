import Gatehouse.Proofs.Alias.Expansion

/-!
# Expansion of aliases without memory

What the expansion of aliases is meant to give is said by a search that remembers nothing: every
alias is expanded anew wherever it is met, and only the path of aliases under expansion is kept
(`Definition.expandAliasAnew`).  The search that remembers looks a remembered alias up before it
looks at the path.  That this makes no difference is due to what is remembered being expandable: an
expandable alias leads to none that leads to it, so on every path that leads to it the search anew
succeeds, with the same capabilities (`Definition.Expandable.expandAliasAnew_eq_ok`).  Main
statement: remembering does not show, neither in the expansions nor in what is reported
(`Definition.expansions_eq_anew`).
-/

namespace Gatehouse

open Relation (ReflTransGen TransGen)

namespace Definition

mutual

/-- The capabilities that an alias stands for, with nothing remembered. -/
def expandAliasAnew (d : Definition) (resource : Text) (path : List Text) (name : Text)
    (targets : List Text) (_hname : d.aliases.find? name = some targets) : Except Fault NameSet :=
  if _hpath : name ∈ path then
    .error (.aliasCycle resource (path.dropWhile (· ≠ name) ++ [name]))
  else expandTargetsAnew d resource name (path ++ [name]) ∅ targets
termination_by ((d.fresh path).length, 0)
decreasing_by
  exact Prod.Lex.left _ _ (length_fresh_lt _hname _hpath)

/-- Adds to `found` what the targets of an alias stand for, with nothing remembered. -/
def expandTargetsAnew (d : Definition) (resource name : Text) (path : List Text)
    (found : NameSet) (targets : List Text) : Except Fault NameSet :=
  match targets with
  | [] => .ok found
  | target :: rest =>
    if target = name then
      if target ∈ d.capabilities then
        expandTargetsAnew d resource name path (found.add target) rest
      else .error (.aliasCycle resource [name, name])
    else
      match htarget : d.aliases.find? target with
      | some further =>
        match expandAliasAnew d resource path target further htarget with
        | .error f => .error f
        | .ok more => expandTargetsAnew d resource name path (found ∪ more) rest
      | none =>
        if target ∈ d.capabilities then
          expandTargetsAnew d resource name path (found.add target) rest
        else .error (.undefinedAliasTarget resource name target)
termination_by ((d.fresh path).length, targets.length + 1)
decreasing_by
  all_goals
    apply Prod.Lex.right
    simp only [List.length_cons]
    omega

end

/-- Expands the given aliases one after the other, each with an empty path, and puts down what each
stands for. -/
def expandEachAnew (d : Definition) (resource : Text) :
    List Text → NameMap NameSet → Except Fault (NameMap NameSet)
  | [], m => .ok m
  | name :: rest, m =>
    match hname : d.aliases.find? name with
    | none => expandEachAnew d resource rest m
    | some targets =>
      match expandAliasAnew d resource [] name targets hname with
      | .error f => .error f
      | .ok found => expandEachAnew d resource rest (m.insert name found)

/-- What every alias of a resource stands for, with nothing remembered. -/
def expansionsAnew (d : Definition) (resource : Text) : Except Fault (NameMap NameSet) :=
  match d.shadowing? with
  | some name => .error (.shadowedCapability resource name)
  | none => d.expandEachAnew resource d.aliases.keys ∅

variable {d : Definition} {resource name target c : Text} {path targets rest : List Text}
  {memo memo' : NameMap NameSet} {found : NameSet}

/-! ### Targets -/

/-- A target that is another alias is expanded before the targets behind it. -/
theorem expandTargetsAnew_further {further : List Text} (hne : target ≠ name)
    (htarget : d.aliases.find? target = some further) :
    d.expandTargetsAnew resource name path found (target :: rest) =
      match d.expandAliasAnew resource path target further htarget with
      | .error f => .error f
      | .ok more => d.expandTargetsAnew resource name path (found ∪ more) rest := by
  rw [expandTargetsAnew, if_neg hne]
  split
  · next further' h =>
    obtain rfl := Option.some.inj (htarget.symm.trans h)
    rfl
  · next h => rw [htarget] at h; cases h

/-- A target that is no alias has to be a capability. -/
theorem expandTargetsAnew_leaf (hne : target ≠ name) (htarget : d.aliases.find? target = none) :
    d.expandTargetsAnew resource name path found (target :: rest) =
      if target ∈ d.capabilities then
        d.expandTargetsAnew resource name path (found.add target) rest
      else .error (.undefinedAliasTarget resource name target) := by
  rw [expandTargetsAnew, if_neg hne]
  split
  · next further h => rw [htarget] at h; cases h
  · rfl

/-- An alias is expanded before the names behind it. -/
theorem expandEachAnew_cons {names : List Text} {m : NameMap NameSet}
    (hname : d.aliases.find? name = some targets) :
    d.expandEachAnew resource (name :: names) m =
      match d.expandAliasAnew resource [] name targets hname with
      | .error f => .error f
      | .ok found => d.expandEachAnew resource names (m.insert name found) := by
  rw [expandEachAnew]
  split
  · next h => rw [hname] at h; cases h
  · next targets' h =>
    obtain rfl := Option.some.inj (hname.symm.trans h)
    rfl

/-- Fit targets are all expanded, and what they contribute is added up, if this is so for every
further alias among them. -/
theorem expandTargetsAnew_eq_ok (hfit : ∀ t ∈ targets, d.Fit name t)
    (hfurther : ∀ t ∈ targets, t ≠ name → ∀ further (ht : d.aliases.find? t = some further),
      ∃ more, d.expandAliasAnew resource path t further ht = .ok more ∧ d.IsExpansion t more) :
    ∃ found', d.expandTargetsAnew resource name path found targets = .ok found' ∧
      ∀ c, c ∈ found' ↔ c ∈ found ∨ ∃ t ∈ targets, d.Offers name t c := by
  induction targets generalizing found with
  | nil => exact ⟨found, by rw [expandTargetsAnew], by simp⟩
  | cons target rest ih =>
    obtain ⟨hfirst, hrest⟩ := List.forall_mem_cons.1 hfit
    -- one more target is added to what was found
    have hcons : ∀ found₁ : NameSet, (∀ c, c ∈ found₁ ↔ c ∈ found ∨ d.Offers name target c) →
        ∃ found', d.expandTargetsAnew resource name path found₁ rest = .ok found' ∧
          ∀ c, c ∈ found' ↔ c ∈ found ∨ ∃ t ∈ target :: rest, d.Offers name t c := by
      intro found₁ hfound₁
      obtain ⟨found', hok, hmem⟩ := @ih found₁ hrest fun t ht =>
        hfurther t (List.mem_cons_of_mem _ ht)
      exact ⟨found', hok, fun c => by rw [hmem, hfound₁]; simp [or_assoc]⟩
    by_cases hown : target = name
    · subst hown
      have hcap : target ∈ d.capabilities := by simpa [Fit] using hfirst
      rw [expandTargetsAnew, if_pos rfl, if_pos hcap]
      exact hcons _ fun c => by rw [NameSet.mem_add, offers_self (.inl rfl), or_comm]
    · rw [Fit, if_neg hown] at hfirst
      rcases htarget : d.aliases.find? target with _ | further
      · have hkeys : target ∉ d.aliases.keys := OrderedMap.find?_eq_none_iff.1 htarget
        have hcap := (hfirst.resolve_left fun h => hkeys h.mem_keys).2
        rw [expandTargetsAnew_leaf hown htarget, if_pos hcap]
        exact hcons _ fun c => by rw [NameSet.mem_add, offers_self (.inr hkeys), or_comm]
      · obtain ⟨more, hok, -, hmore⟩ := hfurther target List.mem_cons_self hown further htarget
        rw [expandTargetsAnew_further hown htarget, hok]
        refine hcons _ fun c => ?_
        rw [NameSet.mem_union, hmore, Offers, if_pos ⟨hown, mem_keys_of_find? htarget⟩]

/-! ### Expandable aliases -/

/-- **An expandable alias is expanded alike on every path that leads to it.**  The induction is on
how the alias is expandable: it is not on the path, as it would lead back to itself, and the path
that goes on with it leads to the aliases among its targets. -/
theorem Expandable.expandAliasAnew_eq_ok (h : d.Expandable name)
    (hname : d.aliases.find? name = some targets) (hreach : ∀ p ∈ path, TransGen d.Leads p name) :
    ∃ found, d.expandAliasAnew resource path name targets hname = .ok found ∧
      d.IsExpansion name found := by
  induction h generalizing path targets with
  | @intro name own find hown hknown hnext ih =>
    have hexp : d.Expandable name := .intro find hown hknown hnext
    have hpath : name ∉ path := fun hmem => hexp.not_transGen (hreach name hmem)
    have hfit := (expandable_iff hname).1 hexp
    have hfurther : ∀ t ∈ targets, t ≠ name → ∀ further (ht : d.aliases.find? t = some further),
        ∃ more, d.expandAliasAnew resource (path ++ [name]) t further ht = .ok more ∧
          d.IsExpansion t more := by
      intro t ht hne further hfind
      have hlead := (leads_iff hname).2 ⟨ht, hne, mem_keys_of_find? hfind⟩
      exact ih t hlead hfind fun p hp => TransGen.tail' (reach_path hreach p hp) hlead
    obtain ⟨found, hok, hmem⟩ : ∃ found,
        d.expandTargetsAnew resource name (path ++ [name]) ∅ targets = .ok found ∧
          ∀ c, c ∈ found ↔ c ∈ (∅ : NameSet) ∨ ∃ t ∈ targets, d.Offers name t c :=
      expandTargetsAnew_eq_ok hfit hfurther
    refine ⟨found, ?_, hexp, fun c => ?_⟩
    · rw [expandAliasAnew, dif_neg hpath, hok]
    · rw [hmem, standsFor_iff_offers hname hfit]
      simp [NameSet.not_mem_empty]

/-- There is one set of capabilities that an alias stands for. -/
theorem IsExpansion.unique {found' : NameSet} (h : d.IsExpansion name found)
    (h' : d.IsExpansion name found') : found = found' :=
  NameSet.ext fun c => (h.2 c).trans (h'.2 c).symm

/-- What an alias stands for is found anew on every path that leads to the alias. -/
theorem IsExpansion.expandAliasAnew_eq (h : d.IsExpansion name found)
    (hname : d.aliases.find? name = some targets) (hreach : ∀ p ∈ path, TransGen d.Leads p name) :
    d.expandAliasAnew resource path name targets hname = .ok found := by
  obtain ⟨found', hok, hfound'⟩ := h.1.expandAliasAnew_eq_ok hname hreach
  rw [hok, h.unique hfound']

/-! ### Remembering does not show -/

/-- **The search that remembers does what the search anew does.**  The induction is on the search
that remembers; the invariant is that what is remembered is right and that all of the path leads to
the alias under expansion. -/
theorem map_fst_expand (d : Definition) (resource : Text) :
    (∀ path memo name targets (hname : d.aliases.find? name = some targets),
      d.Remembered memo → (∀ p ∈ path, TransGen d.Leads p name) →
        (d.expandAlias resource path memo name targets hname).map Prod.fst =
          d.expandAliasAnew resource path name targets hname) ∧
    ∀ name path memo found targets, d.Remembered memo →
      (∀ p ∈ path, ReflTransGen d.Leads p name) → (∀ t ∈ targets, t ≠ name →
        t ∈ d.aliases.keys → d.Leads name t) →
        (d.expandTargets resource name path memo found targets).map Prod.fst =
          d.expandTargetsAnew resource name path found targets := by
  refine Definition.expandAlias.mutual_induct d resource
    (fun path memo name targets hname => d.Remembered memo →
      (∀ p ∈ path, TransGen d.Leads p name) →
        (d.expandAlias resource path memo name targets hname).map Prod.fst =
          d.expandAliasAnew resource path name targets hname)
    (fun name path memo found targets => d.Remembered memo →
      (∀ p ∈ path, ReflTransGen d.Leads p name) → (∀ t ∈ targets, t ≠ name →
        t ∈ d.aliases.keys → d.Leads name t) →
        (d.expandTargets resource name path memo found targets).map Prod.fst =
          d.expandTargetsAnew resource name path found targets)
    ?known ?circle ?failed ?expanded ?done ?own ?ownMissing ?furtherFailed ?further ?leaf ?unknown
  case known =>
    intro path memo name targets hname known hknown hmemo hreach
    rw [(hmemo name known hknown).expandAliasAnew_eq hname hreach, expandAlias, hknown]
    rfl
  case circle =>
    intro path memo name targets hname hnone hpath _ _
    rw [expandAlias, hnone, expandAliasAnew, dif_pos hpath]
    simp only [hpath, dite_true]
    rfl
  case failed =>
    intro path memo name targets hname hnone hpath f hf ih hmemo hreach
    have hanew := ih hmemo (reach_path hreach) fun t ht hne hkeys =>
      (leads_iff hname).2 ⟨ht, hne, hkeys⟩
    rw [expandAliasAnew, dif_neg hpath, ← hanew]
    simp only [expandAlias, hnone, hpath, dite_false, hf]
  case expanded =>
    intro path memo name targets hname hnone hpath found memo' hok ih hmemo hreach
    have hanew := ih hmemo (reach_path hreach) fun t ht hne hkeys =>
      (leads_iff hname).2 ⟨ht, hne, hkeys⟩
    rw [expandAliasAnew, dif_neg hpath, ← hanew]
    simp only [expandAlias, hnone, hpath, dite_false, hok]
    rfl
  case done =>
    intro name path memo found _ _ _
    rw [expandTargets, expandTargetsAnew]
    rfl
  case own =>
    intro path memo found target rest hcap ih hmemo hreach hlead
    rw [expandTargets, if_pos rfl, if_pos hcap, expandTargetsAnew, if_pos rfl, if_pos hcap]
    exact ih hmemo hreach fun t ht => hlead t (List.mem_cons_of_mem _ ht)
  case ownMissing =>
    intro path memo found target rest hcap _ _ _
    rw [expandTargets, if_pos rfl, if_neg hcap, expandTargetsAnew, if_pos rfl, if_neg hcap]
    rfl
  case furtherFailed =>
    intro name path memo found target rest hne further htarget f hf ih hmemo hreach hlead
    have hkeys := mem_keys_of_find? htarget
    have hanew := ih hmemo fun p hp =>
      TransGen.tail' (hreach p hp) (hlead target List.mem_cons_self hne hkeys)
    rw [hf] at hanew
    rw [expandTargets_further hne htarget, hf, expandTargetsAnew_further hne htarget, ← hanew]
    rfl
  case further =>
    intro name path memo found target rest hne further htarget more memo' hok ih ihrest hmemo
      hreach hlead
    have hkeys := mem_keys_of_find? htarget
    have hreach' := fun p hp =>
      TransGen.tail' (hreach p hp) (hlead target List.mem_cons_self hne hkeys)
    have hanew := ih hmemo hreach'
    have hmemo' := (d.expand_spec resource).1 path memo target further htarget hmemo hreach'
    rw [hok] at hanew hmemo'
    rw [expandTargets_further hne htarget, hok, expandTargetsAnew_further hne htarget, ← hanew]
    exact ihrest hmemo'.1 hreach fun t ht => hlead t (List.mem_cons_of_mem _ ht)
  case leaf =>
    intro name path memo found target rest hne htarget hcap ih hmemo hreach hlead
    rw [expandTargets_leaf hne htarget, if_pos hcap, expandTargetsAnew_leaf hne htarget,
      if_pos hcap]
    exact ih hmemo hreach fun t ht => hlead t (List.mem_cons_of_mem _ ht)
  case unknown =>
    intro name path memo found target rest hne htarget hcap _ _ _
    rw [expandTargets_leaf hne htarget, if_neg hcap, expandTargetsAnew_leaf hne htarget,
      if_neg hcap]
    rfl

/-- Several aliases are expanded anew as they are with what is remembered on the way: the same fault
ends it, and each of them gets what is remembered for it in the end. -/
theorem expandEachAnew_of_expandEach (resource : Text) {names : List Text}
    (hmemo : d.Remembered memo) (hnames : ∀ name ∈ names, name ∈ d.aliases.keys)
    (m : NameMap NameSet) :
    match d.expandEach resource names memo with
    | .error f => d.expandEachAnew resource names m = .error f
    | .ok memo' => ∃ m', d.expandEachAnew resource names m = .ok m' ∧
        ∀ a, m'.find? a = if a ∈ names then memo'.find? a else m.find? a := by
  induction names generalizing memo m with
  | nil => exact ⟨m, by rw [expandEachAnew], by simp⟩
  | cons name rest ih =>
    obtain ⟨targets, hname⟩ := exists_find?_of_mem_keys (hnames name List.mem_cons_self)
    have hrest : ∀ t ∈ rest, t ∈ d.aliases.keys := fun t ht => hnames t (List.mem_cons_of_mem _ ht)
    have hspec := (d.expand_spec resource).1 [] memo name targets hname hmemo (by simp)
    have hanew := (d.map_fst_expand resource).1 [] memo name targets hname hmemo (by simp)
    rw [expandEach_cons hname, expandEachAnew_cons hname, ← hanew]
    rcases hx : d.expandAlias resource [] memo name targets hname with f | ⟨found, memo₁⟩ <;>
      rw [hx] at hspec
    · rfl
    obtain ⟨hmemo₁, -, hfound⟩ := hspec
    have hih := ih hmemo₁ hrest (m.insert name found)
    have hlater := d.expandEach_spec resource rest memo₁ hmemo₁ hrest
    dsimp only [Except.map]
    rcases hy : d.expandEach resource rest memo₁ with f | memo' <;> rw [hy] at hih hlater
    · exact hih
    obtain ⟨m', hok, hfind⟩ := hih
    refine ⟨m', hok, fun a => ?_⟩
    rw [hfind, NameMap.find?_insert]
    by_cases ha : a = name
    · subst ha
      simp [hlater.2.1 a found hfound]
    · simp [ha]

/-- **Remembering does not show.**  The aliases of a resource are expanded as if each was expanded
anew, in order, with nothing remembered: with the same result, or with the same report. -/
theorem expansions_eq_anew (d : Definition) (resource : Text) :
    d.expansions resource = d.expansionsAnew resource := by
  unfold expansions expansionsAnew
  rcases d.shadowing? with _ | name
  · have hanew := expandEachAnew_of_expandEach resource Remembered.empty
      (fun name (h : name ∈ d.aliases.keys) => h) ∅
    have hspec := d.expandEach_spec resource d.aliases.keys ∅ Remembered.empty fun _ h => h
    dsimp only
    rcases hx : d.expandEach resource d.aliases.keys ∅ with f | memo' <;> rw [hx] at hanew hspec
    · exact hanew.symm
    · obtain ⟨m', hok, hfind⟩ := hanew
      rw [hok]
      refine congrArg _ (NameMap.ext_find? fun a => ?_)
      rw [hfind]
      by_cases ha : a ∈ d.aliases.keys
      · rw [if_pos ha]
      · rw [if_neg ha]
        exact NameMap.not_mem_iff.1 fun hmem => by
          obtain ⟨found, hfound⟩ := NameMap.mem_iff_exists.1 hmem
          exact ha (hspec.1 a found hfound).1.mem_keys
  · rfl

end Definition

end Gatehouse
