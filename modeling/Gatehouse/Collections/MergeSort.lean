/-!
# Sorting by comparisons that may fail

A stable sort for items that cannot always be compared.  The first comparison that fails ends it, so
the comparisons made and their order are part of the rule: runs of items that already are in order
are found and, if short, lengthened by binary insertion; neighbouring runs are merged, pairs that
halve the items early last; and a merge in which one run keeps winning looks for the place where
that ends by doubling steps and then by halving (`leading`).

A merge compares the heads of two runs.  It starts with the shorter run at its near end, which is
the beginning if that is the left run, and else the end (`Direction`); from there on both cases are
one.
-/

namespace Gatehouse.MergeSort

variable {α ε : Type}

/-- Whether items are gone through from the least on or from the greatest on. -/
inductive Direction where
  /-- From the least on. -/
  | upward
  /-- From the greatest on. -/
  | downward

/-- The item to look at when the items from `low` to before `high` are halved: of two in the middle
the greater one. -/
def Direction.middle : Direction → Nat → Nat → Nat
  | .upward, low, high => low + (high - low) / 2
  | .downward, low, high => high - 1 - (high - low) / 2

/-- The middle of a range is in it. -/
theorem Direction.le_middle (d : Direction) {low high : Nat} (h : low < high) :
    low ≤ d.middle low high := by
  cases d <;> simp only [middle] <;> omega

/-- The middle of a range is not its end. -/
theorem Direction.middle_lt (d : Direction) {low high : Nat} (h : low < high) :
    d.middle low high < high := by
  cases d <;> simp only [middle] <;> omega

/-- The items of a run, in the order in which they are gone through. -/
def Direction.along : Direction → List α → List α
  | .upward, l => l
  | .downward, l => l.reverse

/-- The place from `low` to `high` where the items that are to go first end, by halving. -/
def halved (goes : α → Except ε Bool) (d : Direction) (items : Array α) (low high : Nat) :
    Except ε Nat :=
  if h : low < high ∧ high ≤ items.size then do
    let m := d.middle low high
    have := d.middle_lt h.1
    if ← goes items[m] then halved goes d items (m + 1) high else halved goes d items low m
  else .ok low
termination_by high - low
decreasing_by
  all_goals
    have := d.le_middle h.1
    omega

/-- The place where the items that are to go first end, if the one at `last` is one of them, by
doubling steps. -/
def doubled (goes : α → Except ε Bool) (d : Direction) (items : Array α) (last next : Nat) :
    Except ε Nat :=
  if h : last < next ∧ next < items.size then do
    if ← goes items[next] then doubled goes d items next (2 * next + 1)
    else halved goes d items (last + 1) next
  else halved goes d items (last + 1) items.size
termination_by items.size - next

/-- The number of items, from the first on, that are to go first. -/
def leading (goes : α → Except ε Bool) (d : Direction) (items : Array α) : Except ε Nat :=
  if h : 0 < items.size then do
    if ← goes items[0] then doubled goes d items 0 1 else return 0
  else .ok 0

/-- A merge under way. -/
structure Merge (α : Type) where
  /-- What is left of the shorter run. -/
  short : List α
  /-- What is left of the longer run. -/
  long : List α
  /-- What has been merged, latest first. -/
  merged : List α

namespace Merge

/-- The number of items that are left. -/
def left (m : Merge α) : Nat := m.short.length + m.long.length

/-- Whether the last item of the shorter run is known to come after all that is left. -/
def isOver (m : Merge α) : Bool := m.short.length ≤ 1 || m.long.isEmpty

/-- Moves items of the shorter run. -/
def moveShort (n : Nat) (m : Merge α) : Merge α :=
  ⟨m.short.drop n, m.long, (m.short.take n).reverse ++ m.merged⟩

/-- Moves items of the longer run. -/
def moveLong (n : Nat) (m : Merge α) : Merge α :=
  ⟨m.short, m.long.drop n, (m.long.take n).reverse ++ m.merged⟩

/-- All items, in the order in which they are gone through. -/
def finish (m : Merge α) : List α := m.merged.reverse ++ m.long ++ m.short

end Merge

/-- How a merge goes on. -/
inductive Pace where
  /-- Item by item; so many items in a row came from the shorter and from the longer run. -/
  | stepping (shorts longs : Nat)
  /-- Many items at once; whether this is the first time in a row. -/
  | leaping (first : Bool)

section

variable (less : α → α → Except ε Bool) (d : Direction)

/-- Whether an item of the longer run goes before one of the shorter run. -/
def longFirst (short long : α) : Except ε Bool :=
  match d with
  | .upward => less long short
  | .downward => less short long

/-- Moves all items of the shorter run that go before the longer one, and the item they go before;
the number of the former. -/
def leapShort (m : Merge α) : Except ε (Merge α × Nat) :=
  match m.isOver, m.long with
  | false, l :: _ => do
    let n ← leading (fun s => (longFirst less d s l).map not) d m.short.toArray
    let m := m.moveShort n
    return (if m.isOver then m else m.moveLong 1, n)
  | _, _ => .ok (m, 0)

/-- Moves all items of the longer run that go before the shorter one, and the item they go before;
the number of the former. -/
def leapLong (m : Merge α) : Except ε (Merge α × Nat) :=
  match m.isOver, m.short with
  | false, s :: _ => do
    let n ← leading (longFirst less d s) d m.long.toArray
    let m := m.moveLong n
    return (if m.isOver then m else m.moveShort 1, n)
  | _, _ => .ok (m, 0)

/-- Moves items of both runs; whether there were many of one of them. -/
def leap (m : Merge α) : Except ε (Merge α × Bool) :=
  match d with
  | .upward => do
    let (m, i) ← leapShort less d m
    let (m, j) ← leapLong less d m
    return (m, decide (7 ≤ i ∨ 7 ≤ j))
  | .downward => do
    let (m, i) ← leapLong less d m
    let (m, j) ← leapShort less d m
    return (m, decide (7 ≤ i ∨ 7 ≤ j))

/-- Merges what is left; `patience` is the number of items in a row that one run has to give before
many are moved at once.  The merged items, and the patience afterwards. -/
def Merge.run (patience : Nat) (pace : Pace) (m : Merge α) : Except ε (List α × Nat) :=
  match m, pace with
  | ⟨s :: t :: short, l :: long, merged⟩, .stepping shorts longs => do
    if ← longFirst less d s l then
      let pace := if patience ≤ longs + 1 then .leaping true else .stepping 0 (longs + 1)
      Merge.run patience pace ⟨s :: t :: short, long, l :: merged⟩
    else
      let pace := if patience ≤ shorts + 1 then .leaping true else .stepping (shorts + 1) 0
      Merge.run patience pace ⟨t :: short, l :: long, s :: merged⟩
  | ⟨s :: t :: short, l :: long, merged⟩, .leaping first => do
    let m : Merge α := ⟨s :: t :: short, l :: long, merged⟩
    let patience := if first then patience else max 1 (patience - 1)
    let (next, many) ← leap less d m
    if _ : next.left < m.left then
      if next.isOver then return (next.finish, patience)
      else if many then Merge.run patience (.leaping false) next
      else Merge.run (patience + 1) (.stepping 0 0) next
    else return (m.finish, patience)
  | m, _ => .ok (m.finish, patience)
termination_by m.left
decreasing_by
  all_goals
    simp_all only [Merge.left, List.length_cons]
    omega

end

variable (less : α → α → Except ε Bool)

/-- Merges two runs whose heads are already known to belong at the near end of the longer one. -/
def mergeTrimmed (patience : Nat) (a b : List α) : Except ε (List α × Nat) :=
  let d : Direction := if a.length ≤ b.length then .upward else .downward
  let (short, long) := if a.length ≤ b.length then (a, b) else (b, a)
  let m : Merge α := (Merge.mk (d.along short) (d.along long) []).moveLong 1
  (m.run less d patience (.stepping 0 0)).map fun e => (d.along e.1, e.2)

/-- Merges two neighbouring runs.  What comes before the head of the second run, and after the last
item of the first one, stays in its place. -/
def merge (patience : Nat) (a b : List α) : Except ε (List α × Nat) :=
  match b with
  | [] => .ok (a, patience)
  | head :: _ => do
    let i ← leading (fun x => (less head x).map not) .upward a.toArray
    match (a.drop i).getLast? with
    | none => return (a ++ b, patience)
    | some last =>
      let n ← leading (fun x => (less x last).map not) .downward b.reverse.toArray
      let j := b.length - n
      if j = 0 then return (a ++ b, patience)
      let (merged, patience) ← mergeTrimmed less patience (a.drop i) (b.take j)
      return (a.take i ++ merged ++ b.drop j, patience)

/-- Inserts items into sorted ones, each behind those that are not greater. -/
def insertEach (sorted : Array α) : List α → Except ε (Array α)
  | [] => .ok sorted
  | x :: rest => do
    let i ← halved (fun y => (less x y).map not) .upward sorted 0 sorted.size
    insertEach (sorted.insertIdxIfInBounds i x) rest

/-- Lengthens a run, given latest first, as long as each further item is less than the one before it
exactly if the run is falling; the run and what is left. -/
def extendRun (falling : Bool) (last : α) (run : List α) : List α → Except ε (List α × List α)
  | [] => .ok (last :: run, [])
  | x :: rest => do
    if (← less x last) == falling then extendRun falling x (last :: run) rest
    else return (last :: run, x :: rest)

/-- The first run, rising or strictly falling, in rising order; and what is left. -/
def firstRun : List α → Except ε (List α × List α)
  | x :: y :: rest => do
    let falling ← less y x
    let (run, others) ← extendRun less falling y [x] rest
    return (if falling then run else run.reverse, others)
  | l => .ok (l, [])

/-- The length that runs of so many items should have: all of them, or from 32 to 64. -/
def leastRun (n : Nat) : Nat :=
  if n < 64 then n
  else
    let part := 1 <<< (Nat.log2 n - 5)
    (n + part - 1) / part

/-- The first run, lengthened to `least` items by those that follow it; and what is left. -/
def nextRun (least : Nat) (l : List α) : Except ε (List α × List α) := do
  let (run, others) ← firstRun less l
  let sorted ← insertEach less run.toArray (others.take (least - run.length))
  return (sorted.toList, others.drop (least - run.length))

/-- A run among the items to be sorted. -/
structure Run (α : Type) where
  /-- The number of items before it. -/
  start : Nat
  /-- The items of the run. -/
  items : List α

/-- The number of times that `n` items have to be halved until the middles of a run and of the run
of some length that follows it lie in different parts. -/
def Run.depth (n : Nat) (a : Run α) (length : Nat) : Nat :=
  let x := 2 * a.start + a.items.length
  let y := x + a.items.length + length
  ((List.range n).find? fun k => (x <<< k) / n != (y <<< k) / n).getD n

/-- Merges the latest run with those before it that are parted deeper than it will be; the depth is
given with each run that has another one behind it. -/
def settle (depth patience : Nat) (latest : Run α) :
    List (Run α × Nat) → Except ε (Run α × List (Run α × Nat) × Nat)
  | [] => .ok (latest, [], patience)
  | (before, k) :: rest =>
    if depth < k then do
      let (items, patience) ← merge less patience before.items latest.items
      settle depth patience ⟨before.start, items⟩ rest
    else .ok (latest, (before, k) :: rest, patience)

/-- Merges all runs, given latest first. -/
def mergeAll (patience : Nat) : List (List α) → Except ε (List α)
  | [] => .ok []
  | [z] => .ok z
  | [z, y] => (merge less patience y z).map (·.1)
  | z :: y :: x :: rest => do
    if x.length < z.length then
      let (items, patience) ← merge less patience x y
      mergeAll patience (z :: items :: rest)
    else
      let (items, patience) ← merge less patience y z
      mergeAll patience (items :: x :: rest)
termination_by l => l.length

/-- Finds the runs of the items that follow the latest run, and merges all runs. -/
def sortBehind (n least patience : Nat) (pending : List (Run α × Nat)) (latest : Run α)
    (l : List α) : Except ε (List α) := do
  if l.isEmpty then mergeAll less patience (latest.items :: pending.map (·.1.items))
  else
    let (run, others) ← nextRun less least l
    let depth := latest.depth n run.length
    let (latest, pending, patience) ← settle less depth patience latest pending
    if _ : others.length < l.length then
      sortBehind n least patience ((latest, depth) :: pending) ⟨n - l.length, run⟩ others
    else .ok l
termination_by l.length

/-- Items in increasing order, or the first comparison that failed. -/
def sort (l : List α) : Except ε (List α) := do
  let least := leastRun l.length
  let (run, others) ← nextRun less least l
  sortBehind less l.length least 7 [] ⟨0, run⟩ others

end Gatehouse.MergeSort
