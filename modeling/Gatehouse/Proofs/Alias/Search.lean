import Gatehouse.Proofs.Alias.Anew

/-!
# The search for what aliases stand for, moment by moment

To speak of what is on the path and what is remembered in the middle of a search, the search is taken
apart into single moves (`Search.move`).  The aliases whose targets are gone through lie one within
another, and the path and what is remembered are kept beside them and changed by one move after the
other.  The moves do what the expansion of aliases does (`Search.endsAs_expand`,
`Search.endsAs_expandEach`).  What holds at every moment is that the path names the opened aliases,
that nothing on it is remembered, and that all that is remembered is right (`Search.Orderly`); it is
kept by every move (`Search.Orderly.move`).  Main statement: remembering does not show in what is
found or reported, an alias that is expanded leaves the path as it was, and what is remembered only
grows, by what the search anew finds, and is never on the path (`Definition.expansions_unseen`).
-/

namespace Gatehouse

open Relation (ReflTransGen TransGen)

/-- An alias whose targets are gone through. -/
structure Opened where
  /-- The alias. -/
  name : Text
  /-- What was found so far. -/
  found : NameSet
  /-- The targets that are not done with. -/
  ahead : List Text

/-- What comes next in a search. -/
inductive Turn where
  /-- The next alias is taken up. -/
  | next
  /-- An alias is expanded. -/
  | expand (name : Text)
  /-- The innermost opened alias goes on with its targets. -/
  | goOn
  /-- An alias has been expanded. -/
  | answer (found : NameSet)
  /-- A fault was found. -/
  | fail (f : Fault)

/-- A moment of a search. -/
structure Search where
  /-- The aliases that are not taken up yet. -/
  names : List Text
  /-- What comes next. -/
  turn : Turn
  /-- The opened aliases, innermost first. -/
  opened : List Opened
  /-- The path: the aliases under expansion, outermost first. -/
  path : List Text
  /-- What is remembered. -/
  memo : NameMap NameSet

namespace Search

/-- The beginning of a search. -/
def start (d : Definition) : Search := ⟨d.aliases.keys, .next, [], [], ∅⟩

/-- The end of a search that finds no fault. -/
def finished (memo : NameMap NameSet) : Search := ⟨[], .next, [], [], memo⟩

/-- Takes up the next alias, on a path of its own. -/
def takeUp (s : Search) : Option Search :=
  match s.names with
  | [] => none
  | name :: names => some { s with names := names, turn := .expand name, path := [] }

/-- Expands an alias: what is remembered is the answer, what is on the path is a circle, and else the
alias is put on the path and opened. -/
def enter (d : Definition) (resource : Text) (s : Search) (name : Text) : Search :=
  match s.memo.find? name with
  | some known => { s with turn := .answer known }
  | none =>
    if name ∈ s.path then
      { s with turn := .fail (.aliasCycle resource (s.path.dropWhile (· ≠ name) ++ [name])) }
    else
      { s with
        turn := .goOn
        opened := ⟨name, ∅, (d.aliases.find? name).getD []⟩ :: s.opened
        path := s.path ++ [name] }

/-- Goes on with the innermost opened alias.  When all of its targets are done with, it is taken from
the path and remembered. -/
def goOn (d : Definition) (resource : Text) (s : Search) (o : Opened) (rest : List Opened) :
    Search :=
  match o.ahead with
  | [] =>
    { s with
      turn := .answer o.found
      opened := rest
      path := s.path.dropLast
      memo := s.memo.insert o.name o.found }
  | target :: ahead =>
    if target = o.name then
      if target ∈ d.capabilities then
        { s with opened := ⟨o.name, o.found.add target, ahead⟩ :: rest }
      else { s with turn := .fail (.aliasCycle resource [o.name, o.name]) }
    else if target ∈ d.aliases.keys then { s with turn := .expand target }
    else if target ∈ d.capabilities then
      { s with opened := ⟨o.name, o.found.add target, ahead⟩ :: rest }
    else { s with turn := .fail (.undefinedAliasTarget resource o.name target) }

/-- Hands over what was found for an alias to the alias that it is a target of. -/
def receive (s : Search) (found : NameSet) : Search :=
  match s.opened with
  | [] => { s with turn := .next }
  | o :: rest => { s with turn := .goOn, opened := ⟨o.name, o.found ∪ found, o.ahead.tail⟩ :: rest }

/-- The next move of a search, unless it is over. -/
def move (d : Definition) (resource : Text) (s : Search) : Option Search :=
  match s.turn, s.opened with
  | .next, _ => s.takeUp
  | .expand name, _ => some (s.enter d resource name)
  | .goOn, o :: rest => some (s.goOn d resource o rest)
  | .goOn, [] => none
  | .answer found, _ => some (s.receive found)
  | .fail _, _ => none

/-- Some moves lead from one moment to another. -/
def Reaches (d : Definition) (resource : Text) : Search → Search → Prop :=
  ReflTransGen fun s t => s.move d resource = some t

/-- **How a search goes on from a moment:** to another moment, or to a fault. -/
def EndsAs (d : Definition) (resource : Text) (s : Search) : Except Fault Search → Prop
  | .ok t => s.Reaches d resource t
  | .error f => ∃ t, s.Reaches d resource t ∧ t.turn = .fail f

variable {d : Definition} {resource name target : Text} {s t : Search}
  {path targets names ahead : List Text} {memo memo' : NameMap NameSet} {found : NameSet}
  {opened rest : List Opened} {o : Opened}

/-! ### The moves are those of the expansion -/

/-- A search ends as it does after its next move. -/
theorem EndsAs.head {x : Except Fault Search} (h : s.move d resource = some t)
    (ht : t.EndsAs d resource x) : s.EndsAs d resource x := by
  cases x with
  | ok u => exact ReflTransGen.head h ht
  | error f =>
    obtain ⟨u, hu, hfail⟩ := ht
    exact ⟨u, ReflTransGen.head h hu, hfail⟩

/-- A search ends as it does from any state that it reaches. -/
theorem EndsAs.trans {x : Except Fault Search} (h : s.EndsAs d resource (.ok t))
    (ht : t.EndsAs d resource x) : s.EndsAs d resource x := by
  cases x with
  | ok u => exact ReflTransGen.trans h ht
  | error f =>
    obtain ⟨u, hu, hfail⟩ := ht
    exact ⟨u, ReflTransGen.trans h hu, hfail⟩

/-- A fault is the end. -/
theorem EndsAs.fail {f : Fault} (h : s.move d resource = some t) (hfail : t.turn = .fail f) :
    s.EndsAs d resource (.error f) := ⟨t, .single h, hfail⟩

/-- An alias among the targets is expanded. -/
theorem move_further (hne : target ≠ name) (hkeys : target ∈ d.aliases.keys) :
    (⟨names, .goOn, ⟨name, found, target :: ahead⟩ :: opened, path, memo⟩ : Search).move d
        resource =
      some ⟨names, .expand target, ⟨name, found, target :: ahead⟩ :: opened, path, memo⟩ := by
  simp [move, goOn, hne, hkeys]

/-- A target that is no alias is a capability or a fault. -/
theorem move_leaf (hne : target ≠ name) (hkeys : target ∉ d.aliases.keys) :
    (⟨names, .goOn, ⟨name, found, target :: ahead⟩ :: opened, path, memo⟩ : Search).move d
        resource =
      some (if target ∈ d.capabilities then
        ⟨names, .goOn, ⟨name, found.add target, ahead⟩ :: opened, path, memo⟩
      else ⟨names, .fail (.undefinedAliasTarget resource name target),
        ⟨name, found, target :: ahead⟩ :: opened, path, memo⟩) := by
  simp only [move, goOn, if_neg hne, if_neg hkeys]

/-- The own name of an alias among its targets is a capability or a fault. -/
theorem move_own :
    (⟨names, .goOn, ⟨name, found, name :: ahead⟩ :: opened, path, memo⟩ : Search).move d
        resource =
      some (if name ∈ d.capabilities then
        ⟨names, .goOn, ⟨name, found.add name, ahead⟩ :: opened, path, memo⟩
      else ⟨names, .fail (.aliasCycle resource [name, name]),
        ⟨name, found, name :: ahead⟩ :: opened, path, memo⟩) := by
  simp only [move, goOn, if_true]

/-- An alias that is neither remembered nor on the path is opened. -/
theorem move_expand (hnone : memo.find? name = none) (hpath : name ∉ path)
    (hname : d.aliases.find? name = some targets) :
    (⟨names, .expand name, opened, path, memo⟩ : Search).move d resource =
      some ⟨names, .goOn, ⟨name, ∅, targets⟩ :: opened, path ++ [name], memo⟩ := by
  simp only [move, enter, hnone, if_neg hpath, hname, Option.getD_some]

/-- **The moves of a search are those of the expansion.**  From the moment when an alias is expanded
they lead to the moment when it has been expanded, with the same aliases opened, the same path and
what is remembered then, or to the same fault; and so do those that go through its targets.  The
induction is on the expansion. -/
theorem endsAs_expand (d : Definition) (resource : Text) :
    (∀ path memo name targets (hname : d.aliases.find? name = some targets), ∀ names opened,
      (⟨names, .expand name, opened, path, memo⟩ : Search).EndsAs d resource
        ((d.expandAlias resource path memo name targets hname).map fun r =>
          ⟨names, .answer r.1, opened, path, r.2⟩)) ∧
    ∀ name path memo found targets, ∀ names opened,
      (⟨names, .goOn, ⟨name, found, targets⟩ :: opened, path, memo⟩ : Search).EndsAs d resource
        ((d.expandTargets resource name path memo found targets).map fun r =>
          ⟨names, .goOn, ⟨name, r.1, []⟩ :: opened, path, r.2⟩) := by
  refine Definition.expandAlias.mutual_induct d resource
    (fun path memo name targets hname => ∀ names opened,
      (⟨names, .expand name, opened, path, memo⟩ : Search).EndsAs d resource
        ((d.expandAlias resource path memo name targets hname).map fun r =>
          ⟨names, .answer r.1, opened, path, r.2⟩))
    (fun name path memo found targets => ∀ names opened,
      (⟨names, .goOn, ⟨name, found, targets⟩ :: opened, path, memo⟩ : Search).EndsAs d resource
        ((d.expandTargets resource name path memo found targets).map fun r =>
          ⟨names, .goOn, ⟨name, r.1, []⟩ :: opened, path, r.2⟩))
    ?known ?circle ?failed ?expanded ?done ?own ?ownMissing ?furtherFailed ?further ?leaf ?unknown
  case known =>
    intro path memo name targets hname known hknown names opened
    rw [Definition.expandAlias, hknown]
    exact .single (by simp [move, enter, hknown])
  case circle =>
    intro path memo name targets hname hnone hpath names opened
    simp only [Definition.expandAlias, hnone, hpath, dite_true]
    have hmove : (⟨names, .expand name, opened, path, memo⟩ : Search).move d resource =
        some ⟨names, .fail (.aliasCycle resource (path.dropWhile (· ≠ name) ++ [name])), opened, path,
          memo⟩ := by
      simp only [move, enter, hnone, if_pos hpath]
    exact .fail hmove rfl
  case failed =>
    intro path memo name targets hname hnone hpath f hf ih names opened
    simp only [Definition.expandAlias, hnone, hpath, dite_false, hf]
    have htargets := ih names opened
    rw [hf] at htargets
    exact .head (move_expand hnone hpath hname) htargets
  case expanded =>
    intro path memo name targets hname hnone hpath found memo' hok ih names opened
    simp only [Definition.expandAlias, hnone, hpath, dite_false, hok]
    have htargets := ih names opened
    rw [hok] at htargets
    refine .head (move_expand hnone hpath hname) (htargets.trans (.single ?_))
    simp [move, goOn]
  case done =>
    intro name path memo found names opened
    rw [Definition.expandTargets]
    exact .refl
  case own =>
    intro path memo found target rest hcap ih names opened
    rw [Definition.expandTargets, if_pos rfl, if_pos hcap]
    exact .head (move_own.trans (by rw [if_pos hcap])) (ih names opened)
  case ownMissing =>
    intro path memo found target rest hcap names opened
    rw [Definition.expandTargets, if_pos rfl, if_neg hcap]
    exact .fail (move_own.trans (by rw [if_neg hcap])) rfl
  case furtherFailed =>
    intro name path memo found target rest hne further htarget f hf ih names opened
    rw [Definition.expandTargets_further hne htarget, hf]
    have hinside := ih names (⟨name, found, target :: rest⟩ :: opened)
    rw [hf] at hinside
    exact .head (move_further hne (Definition.mem_keys_of_find? htarget)) hinside
  case further =>
    intro name path memo found target rest hne further htarget more memo' hok ih ihrest names opened
    rw [Definition.expandTargets_further hne htarget, hok]
    have hinside := ih names (⟨name, found, target :: rest⟩ :: opened)
    rw [hok] at hinside
    refine .head (move_further hne (Definition.mem_keys_of_find? htarget)) (hinside.trans ?_)
    exact .head (by simp [move, receive]) (ihrest names opened)
  case leaf =>
    intro name path memo found target rest hne htarget hcap ih names opened
    rw [Definition.expandTargets_leaf hne htarget, if_pos hcap]
    exact .head ((move_leaf hne (OrderedMap.find?_eq_none_iff.1 htarget)).trans
      (by rw [if_pos hcap])) (ih names opened)
  case unknown =>
    intro name path memo found target rest hne htarget hcap names opened
    rw [Definition.expandTargets_leaf hne htarget, if_neg hcap]
    exact .fail ((move_leaf hne (OrderedMap.find?_eq_none_iff.1 htarget)).trans
      (by rw [if_neg hcap])) rfl

/-- **A search expands the aliases one after the other.** -/
theorem endsAs_expandEach (hnames : ∀ name ∈ names, name ∈ d.aliases.keys) :
    (⟨names, .next, [], [], memo⟩ : Search).EndsAs d resource
      ((d.expandEach resource names memo).map finished) := by
  induction names generalizing memo with
  | nil => exact .refl
  | cons name rest ih =>
    obtain ⟨targets, hname⟩ :=
      Definition.exists_find?_of_mem_keys (hnames name List.mem_cons_self)
    have hfirst := (endsAs_expand d resource).1 [] memo name targets hname rest []
    rw [Definition.expandEach_cons hname]
    refine .head (t := ⟨rest, .expand name, [], [], memo⟩) rfl ?_
    rcases hx : d.expandAlias resource [] memo name targets hname with f | ⟨found, memo₁⟩ <;>
      rw [hx] at hfirst
    · exact hfirst
    · refine hfirst.trans (.head (t := ⟨rest, .next, [], [], memo₁⟩) rfl ?_)
      exact ih fun t ht => hnames t (List.mem_cons_of_mem _ ht)

end Search

/-! ### What holds at every moment -/

/-- **An opened alias is gone through rightly:** the targets that are done with are fit, and what
they contribute was found. -/
def Opened.IsRight (d : Definition) (o : Opened) : Prop :=
  ∃ before, d.aliases.find? o.name = some (before ++ o.ahead) ∧
    (∀ t ∈ before, d.Fit o.name t) ∧ ∀ c, c ∈ o.found ↔ ∃ t ∈ before, d.Offers o.name t c

/-- Opened aliases lie one within another, and the innermost one waits for an alias to be
expanded. -/
inductive Awaits (d : Definition) : List Opened → Text → Prop where
  /-- No alias is opened. -/
  | outside (name : Text) : Awaits d [] name
  /-- The innermost one waits for its next target. -/
  | within {o : Opened} {rest : List Opened} {name : Text} {ahead : List Text}
    (right : o.IsRight d) (next : o.ahead = name :: ahead) (further : name ≠ o.name)
    (outer : Awaits d rest o.name) : Awaits d (o :: rest) name

namespace Search

/-- What comes next fits what is opened. -/
def IsInTurn (d : Definition) (s : Search) : Prop :=
  match s.turn with
  | .next => s.opened = []
  | .expand name => name ∈ d.aliases.keys ∧ Awaits d s.opened name
  | .goOn => ∃ o rest, s.opened = o :: rest ∧ o.IsRight d ∧ Awaits d rest o.name
  | .answer found => ∃ name, d.IsExpansion name found ∧ Awaits d s.opened name
  | .fail _ => True

/-- **What holds at every moment of a search.** -/
structure Orderly (d : Definition) (s : Search) : Prop where
  /-- Only aliases are taken up. -/
  names : ∀ name ∈ s.names, name ∈ d.aliases.keys
  /-- The path names the opened aliases. -/
  path : s.path = (s.opened.map Opened.name).reverse
  /-- None is on the path twice. -/
  nodup : s.path.Nodup
  /-- Nothing on the path is remembered. -/
  apart : ∀ a ∈ s.path, a ∉ s.memo
  /-- What is remembered is right. -/
  right : d.Remembered s.memo
  /-- What comes next. -/
  turn : s.IsInTurn d

end Search

namespace Opened.IsRight

variable {d : Definition} {o : Opened} {target : Text} {ahead : List Text} {found : NameSet}

/-- A further target is done with. -/
theorem step (h : o.IsRight d) (hahead : o.ahead = target :: ahead) (hfit : d.Fit o.name target)
    (hfound : ∀ c, c ∈ found ↔ c ∈ o.found ∨ d.Offers o.name target c) :
    (⟨o.name, found, ahead⟩ : Opened).IsRight d := by
  obtain ⟨before, hfind, hfits, hmem⟩ := h
  refine ⟨before ++ [target], ?_, ?_, fun c => ?_⟩
  · rw [List.append_assoc, List.singleton_append, ← hahead]
    exact hfind
  · exact List.forall_mem_append.2 ⟨hfits, List.forall_mem_singleton.2 hfit⟩
  · rw [hfound, hmem]
    simp [or_and_right, exists_or]

/-- What was found for an alias whose targets are all done with is what it stands for. -/
theorem isExpansion (h : o.IsRight d) (hahead : o.ahead = []) : d.IsExpansion o.name o.found := by
  obtain ⟨before, hfind, hfits, hmem⟩ := h
  rw [hahead, List.append_nil] at hfind
  refine ⟨(Definition.expandable_iff hfind).2 hfits, fun c => ?_⟩
  rw [hmem, Definition.standsFor_iff_offers hfind hfits]

/-- What a right opened alias belongs to is an alias. -/
theorem mem_keys (h : o.IsRight d) : o.name ∈ d.aliases.keys := by
  obtain ⟨before, hfind, -⟩ := h
  exact Definition.mem_keys_of_find? hfind

/-- An opened alias leads to the alias that it waits for. -/
theorem leads (h : o.IsRight d) (hahead : o.ahead = target :: ahead) (hne : target ≠ o.name)
    (hkeys : target ∈ d.aliases.keys) : d.Leads o.name target := by
  obtain ⟨before, hfind, -⟩ := h
  rw [hahead] at hfind
  exact (Definition.leads_iff hfind).2 ⟨by simp, hne, hkeys⟩

end Opened.IsRight

/-- All opened aliases lead to the one that is waited for. -/
theorem Awaits.transGen {d : Definition} {opened : List Opened} {name : Text}
    (h : Awaits d opened name) (hkeys : name ∈ d.aliases.keys) :
    ∀ o ∈ opened, TransGen d.Leads o.name name := by
  induction h with
  | outside => exact List.forall_mem_nil _
  | within right next further outer ih =>
    have hlead := right.leads next further hkeys
    refine List.forall_mem_cons.2 ⟨.single hlead, fun o ho => ?_⟩
    exact .tail (ih right.mem_keys o ho) hlead

namespace Search

variable {d : Definition} {resource name : Text} {s t : Search} {found : NameSet} {o : Opened}
  {rest : List Opened}

/-- At the beginning nothing is opened and nothing remembered. -/
theorem orderly_start (d : Definition) : (start d).Orderly d :=
  ⟨fun _ h => h, rfl, List.nodup_nil, List.forall_mem_nil _, .empty, rfl⟩

namespace Orderly

/-- A search is orderly after it has taken up its next alias. -/
theorem takeUp (h : s.Orderly d) (hturn : s.turn = .next) (ht : s.takeUp = some t) :
    t.Orderly d := by
  have hopened : s.opened = [] := by simpa [IsInTurn, hturn] using h.turn
  unfold Search.takeUp at ht
  split at ht
  · cases ht
  · next name names hnames =>
    obtain rfl := Option.some.inj ht
    obtain ⟨hfirst, hrest⟩ := List.forall_mem_cons.1 (hnames ▸ h.names)
    refine ⟨hrest, ?_, List.nodup_nil, List.forall_mem_nil _, h.right, hfirst, ?_⟩
    · rw [hopened]
      rfl
    · rw [hopened]
      exact .outside name

/-- A search is orderly after it has entered a name. -/
theorem enter (h : s.Orderly d) (hturn : s.turn = .expand name) :
    (s.enter d resource name).Orderly d := by
  obtain ⟨hkeys, hawaits⟩ : name ∈ d.aliases.keys ∧ Awaits d s.opened name := by
    simpa [IsInTurn, hturn] using h.turn
  unfold Search.enter
  split
  · next known hknown =>
    exact ⟨h.names, h.path, h.nodup, h.apart, h.right, name, h.right name known hknown, hawaits⟩
  · next hnone =>
    split
    · exact ⟨h.names, h.path, h.nodup, h.apart, h.right, trivial⟩
    · next hpath =>
      obtain ⟨targets, hname⟩ := Definition.exists_find?_of_mem_keys hkeys
      refine ⟨h.names, ?_, ?_, ?_, h.right, _, s.opened, rfl, ⟨[], ?_, ?_, ?_⟩, hawaits⟩
      · rw [List.map_cons, List.reverse_cons, h.path]
      · simpa [List.nodup_append] using ⟨h.nodup, fun a ha e => hpath (e ▸ ha)⟩
      · exact List.forall_mem_append.2
          ⟨h.apart, List.forall_mem_singleton.2 (NameMap.not_mem_iff.2 hnone)⟩
      · rw [hname]
        rfl
      · exact List.forall_mem_nil _
      · simp [NameSet.not_mem_empty]

/-- The innermost opened alias is closed: it goes from the path into what is remembered. -/
theorem close (h : s.Orderly d) (hopened : s.opened = o :: rest) (hright : o.IsRight d)
    (hawaits : Awaits d rest o.name) (hahead : o.ahead = []) :
    Orderly d
      { s with
        turn := .answer o.found
        opened := rest
        path := s.path.dropLast
        memo := s.memo.insert o.name o.found } := by
  have hpath : s.path = (rest.map Opened.name).reverse ++ [o.name] := by
    rw [h.path, hopened, List.map_cons, List.reverse_cons]
  have hlast : s.path.dropLast = (rest.map Opened.name).reverse := by
    rw [hpath, List.dropLast_concat]
  have hexpansion := hright.isExpansion hahead
  have hnodup := h.nodup
  rw [hpath, List.nodup_append] at hnodup
  obtain ⟨hnodup, -, hapart⟩ := hnodup
  refine ⟨h.names, hlast, hlast ▸ hnodup, ?_, h.right.insert hexpansion, o.name, hexpansion,
    hawaits⟩
  intro a ha hmem
  rw [hlast] at ha
  rcases NameMap.mem_insert.1 hmem with heq | hmem
  · exact hapart a ha o.name List.mem_cons_self heq
  · exact h.apart a (hpath ▸ List.mem_append_left _ ha) hmem

/-- A target that is no further alias is done with at once. -/
theorem gather (h : s.Orderly d) (hopened : s.opened = o :: rest) (hright : o.IsRight d)
    (hawaits : Awaits d rest o.name) (hturn : s.turn = .goOn) {target : Text}
    {ahead : List Text} (hahead : o.ahead = target :: ahead) (hfit : d.Fit o.name target)
    (hself : target = o.name ∨ target ∉ d.aliases.keys) :
    Orderly d { s with opened := ⟨o.name, o.found.add target, ahead⟩ :: rest } := by
  refine ⟨h.names, ?_, h.nodup, h.apart, h.right, ?_⟩
  · rw [h.path, hopened]
    rfl
  · have hnext : (⟨o.name, o.found.add target, ahead⟩ : Opened).IsRight d :=
      hright.step hahead hfit fun c => by
        rw [NameSet.mem_add, Definition.offers_self hself, or_comm]
    simp only [IsInTurn, hturn]
    exact ⟨_, rest, rfl, hnext, hawaits⟩

/-- A search is orderly after it has gone on with the alias that was opened last. -/
theorem goOn (h : s.Orderly d) (hturn : s.turn = .goOn) (hopened : s.opened = o :: rest) :
    (s.goOn d resource o rest).Orderly d := by
  obtain ⟨hright, hawaits⟩ : o.IsRight d ∧ Awaits d rest o.name := by
    obtain ⟨o', rest', heq, hinside⟩ : ∃ o' rest', s.opened = o' :: rest' ∧ o'.IsRight d ∧
        Awaits d rest' o'.name := by
      simpa [IsInTurn, hturn] using h.turn
    obtain ⟨rfl, rfl⟩ := List.cons.inj (hopened.symm.trans heq)
    exact hinside
  have hfault : ∀ f, Orderly d { s with turn := .fail f } := fun f =>
    ⟨h.names, h.path, h.nodup, h.apart, h.right, trivial⟩
  unfold Search.goOn
  split
  · next hahead => exact h.close hopened hright hawaits hahead
  · next target ahead hahead =>
    split
    · next hown =>
      split
      · next hcap =>
        refine h.gather hopened hright hawaits hturn hahead ?_ (.inl hown)
        rwa [Definition.Fit, if_pos hown]
      · exact hfault _
    · next hne =>
      split
      · next hkeys =>
        refine ⟨h.names, h.path, h.nodup, h.apart, h.right, hkeys, ?_⟩
        rw [hopened]
        exact .within hright hahead hne hawaits
      · next hkeys =>
        split
        · next hcap =>
          refine h.gather hopened hright hawaits hturn hahead ?_ (.inr hkeys)
          rw [Definition.Fit, if_neg hne]
          exact .inr ⟨hkeys, hcap⟩
        · exact hfault _

/-- A search is orderly after it has received an answer. -/
theorem receive (h : s.Orderly d) (hturn : s.turn = .answer found) : (s.receive found).Orderly d := by
  obtain ⟨name, hexpansion, hawaits⟩ : ∃ name, d.IsExpansion name found ∧
      Awaits d s.opened name := by
    simpa [IsInTurn, hturn] using h.turn
  unfold Search.receive
  split
  · next hopened => exact ⟨h.names, h.path, h.nodup, h.apart, h.right, hopened⟩
  · next o rest hopened =>
    rw [hopened] at hawaits
    cases hawaits with
    | @within _ _ _ ahead hright hnext hfurther houter =>
      have hkeys := hexpansion.1.mem_keys
      have hstep : (⟨o.name, o.found ∪ found, ahead⟩ : Opened).IsRight d := by
        refine hright.step hnext ?_ fun c => ?_
        · rw [Definition.Fit, if_neg hfurther]
          exact .inl hexpansion.1
        · rw [NameSet.mem_union, hexpansion.2, Definition.Offers, if_pos ⟨hfurther, hkeys⟩]
      refine ⟨h.names, ?_, h.nodup, h.apart, h.right, _, rest, rfl, ?_, houter⟩
      · rw [h.path, hopened]
        rfl
      · rw [hnext]
        exact hstep

/-- **Every move keeps what holds at every moment.** -/
theorem move (h : s.Orderly d) (ht : s.move d resource = some t) : t.Orderly d := by
  unfold Search.move at ht
  split at ht
  · next hturn => exact h.takeUp hturn ht
  · next name hturn => exact Option.some.inj ht ▸ h.enter hturn
  · next o rest hturn hopened => exact Option.some.inj ht ▸ h.goOn hturn hopened
  · cases ht
  · next found hturn => exact Option.some.inj ht ▸ h.receive hturn
  · cases ht

/-- Whatever an orderly search reaches is orderly. -/
theorem reaches (h : s.Orderly d) (ht : s.Reaches d resource t) : t.Orderly d := by
  induction ht with
  | refl => exact h
  | tail _ hmove ih => exact ih.move hmove

/-- Every alias on the path leads to the one that is expanded. -/
theorem leads_of_expand (h : s.Orderly d) (hturn : s.turn = .expand name) :
    ∀ p ∈ s.path, TransGen d.Leads p name := by
  obtain ⟨hkeys, hawaits⟩ : name ∈ d.aliases.keys ∧ Awaits d s.opened name := by
    simpa [IsInTurn, hturn] using h.turn
  intro p hp
  rw [h.path, List.mem_reverse] at hp
  obtain ⟨o, ho, rfl⟩ := List.mem_map.1 hp
  exact hawaits.transGen hkeys o ho

/-- **What is remembered only grows:** an alias that is remembered anew was on the path, where nothing
is remembered. -/
theorem extends_move (h : s.Orderly d) (ht : s.move d resource = some t) :
    Definition.Extends s.memo t.memo := by
  unfold Search.move at ht
  split at ht
  · unfold Search.takeUp at ht
    split at ht
    · cases ht
    · exact Option.some.inj ht ▸ .refl _
  · rw [← Option.some.inj ht, Search.enter]
    split
    · exact .refl _
    · split <;> exact .refl _
  · next o rest hturn hopened =>
    rw [← Option.some.inj ht, Search.goOn]
    split
    · have hmem : o.name ∈ s.path := by
        rw [h.path, hopened]
        simp
      exact (Definition.Extends.refl _).insert (NameMap.not_mem_iff.1 (h.apart _ hmem)) _
    · split
      · split <;> exact .refl _
      · split
        · exact .refl _
        · split <;> exact .refl _
  · cases ht
  · rw [← Option.some.inj ht, Search.receive]
    split <;> exact .refl _
  · cases ht

/-- What was remembered stays so while a search goes on. -/
theorem extends_reaches (h : s.Orderly d) (ht : s.Reaches d resource t) :
    Definition.Extends s.memo t.memo := by
  induction ht with
  | refl => exact .refl _
  | tail hbefore hmove ih => exact ih.trans ((h.reaches hbefore).extends_move hmove)

end Orderly

end Search

namespace Definition

/-- What the search anew finds for an alias, with an empty path. -/
def FindsAnew (d : Definition) (resource a : Text) (found : NameSet) : Prop :=
  ∃ targets, ∃ ha : d.aliases.find? a = some targets,
    d.expandAliasAnew resource [] a targets ha = .ok found

/-- What an alias expands to is what is found anew for it. -/
theorem IsExpansion.findsAnew {d : Definition} {a : Text} {found : NameSet}
    (h : d.IsExpansion a found) (resource : Text) : d.FindsAnew resource a found := by
  obtain ⟨targets, ha⟩ := h.1.exists_find?
  exact ⟨targets, ha, h.expandAliasAnew_eq ha (List.forall_mem_nil _)⟩

/-- **Remembering cannot be seen.**  The aliases of a resource are expanded as if each was expanded
anew, with the same result or the same report.  At every moment of the search, nothing is both on the
path and remembered, and what is remembered is what the search anew finds.  When an alias is expanded
in the middle of the search, it is expanded as it is anew on this path; if that succeeds, the path is
as it was and what is remembered has only grown, and else the search ends with the fault. -/
theorem expansions_unseen (d : Definition) (resource : Text) :
    d.expansions resource = d.expansionsAnew resource ∧
    (Search.start d).EndsAs d resource
      ((d.expandEach resource d.aliases.keys ∅).map Search.finished) ∧
    ∀ s, (Search.start d).Reaches d resource s →
      (∀ a ∈ s.path, a ∉ s.memo) ∧
      (∀ a found, s.memo.find? a = some found → d.FindsAnew resource a found) ∧
      ∀ name targets (hname : d.aliases.find? name = some targets), s.turn = .expand name →
        s.EndsAs d resource ((d.expandAlias resource s.path s.memo name targets hname).map
          fun r => { s with turn := .answer r.1, memo := r.2 }) ∧
        (d.expandAlias resource s.path s.memo name targets hname).map Prod.fst =
          d.expandAliasAnew resource s.path name targets hname ∧
        ∀ t found, s.Reaches d resource t → t.turn = .answer found → t.opened = s.opened →
          t.path = s.path ∧ Extends s.memo t.memo ∧
            ∀ a known, t.memo.find? a = some known → d.FindsAnew resource a known := by
  refine ⟨d.expansions_eq_anew resource, Search.endsAs_expandEach fun _ h => h, fun s hs => ?_⟩
  have hord := (Search.orderly_start d).reaches hs
  refine ⟨hord.apart, fun a found ha => (hord.right a found ha).findsAnew resource, ?_⟩
  intro name targets hname hturn
  obtain ⟨names, turn, opened, path, memo⟩ := s
  obtain rfl : turn = .expand name := hturn
  refine ⟨(Search.endsAs_expand d resource).1 path memo name targets hname names opened,
    (d.map_fst_expand resource).1 path memo name targets hname hord.right
      (hord.leads_of_expand rfl), fun t found ht _ hopened => ?_⟩
  have hlater := hord.reaches ht
  refine ⟨?_, hord.extends_reaches ht,
    fun a known ha => (hlater.right a known ha).findsAnew resource⟩
  rw [hlater.path, hopened]
  exact hord.path.symm

end Definition

end Gatehouse
