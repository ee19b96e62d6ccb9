import Gatehouse.Proofs.Text.Surrogates
import Gatehouse.Text.Canonical
import Mathlib.Tactic.IntervalCases

/-!
# Canonical texts are unambiguous

A document without words can be read off its canonical text, and the text ends where the document
does.  For the units of a quoted text this is seen by reading them back (`Text.readChar`); for
arrays and objects by what may follow an item.  Main statements: documents without words have the
same text exactly if they have the same units of UTF-16 (`Text.Document.render_eq_iff`), and then
they are the same if their texts are whole (`Text.Document.eq_of_render_eq`).
-/

namespace Gatehouse.Text

/-! ### Hexadecimal digits -/

/-- The value of a digit. -/
def digitValue (c : Char) : Nat := if c.toNat < 58 then c.toNat - 48 else c.toNat - 87

/-- The number that digits stand for. -/
def hexValue (l : List Char) : Nat := l.foldl (fun n c => n * 16 + digitValue c) 0

/-- A digit below sixteen is read as what it was written for. -/
theorem digitValue_hexDigit {n : Nat} (h : n < 16) : digitValue (hexDigit n) = n := by
  interval_cases n <;> decide

/-- The digits of a number that is small enough stand for it. -/
theorem hexValue_hexDigits {width n : Nat} (h : n < 16 ^ width) :
    hexValue (hexDigits width n) = n := by
  induction width generalizing n with
  | zero => simp [hexDigits, hexValue, Nat.lt_one_iff.1 h]
  | succ width ih =>
    have hdiv : n / 16 < 16 ^ width := Nat.div_lt_of_lt_mul (by rw [Nat.pow_succ'] at h; exact h)
    have hrest := ih hdiv
    unfold hexValue at hrest ⊢
    rw [hexDigits, List.foldl_append, hrest, List.foldl_cons, List.foldl_nil,
      digitValue_hexDigit (Nat.mod_lt n (by decide)), Nat.mul_comm, Nat.div_add_mod]

/-! ### Quoted texts -/

/-- The number that the first four digits stand for. -/
def readUnit (l : List Char) : Nat := hexValue (l.take 4)

/-- The number of the character that stands behind a backslash. -/
def readShort (c : Char) : Nat :=
  match c with
  | 'n' => 0x0a
  | 'r' => 0x0d
  | 't' => 0x09
  | 'f' => 0x0c
  | 'b' => 0x08
  | c => c.toNat

/-- Reads one unit of UTF-16 of a quoted text, and what follows it. -/
def readChar : List Char → Option (Nat × List Char)
  | [] => none
  | '\\' :: 'u' :: rest => some (readUnit rest, rest.drop 4)
  | '\\' :: c :: rest => some (readShort c, rest)
  | c :: rest => some (c.toNat, rest)

/-- Four digits are read as what they were written for, whatever follows. -/
theorem readUnit_append {n : Nat} (h : n < 0x10000) (rest : List Char) :
    readUnit (hexDigits 4 n ++ rest) = n := by
  rw [readUnit, List.take_append_of_le_length (by simp [length_hexDigits]),
    List.take_of_length_le (by simp [length_hexDigits]), hexValue_hexDigits h]

/-- Behind four digits comes what followed them. -/
theorem drop_hexDigits_append (n : Nat) (rest : List Char) :
    (hexDigits 4 n ++ rest).drop 4 = rest := by
  rw [List.drop_append, length_hexDigits, List.drop_eq_nil_of_le (by simp [length_hexDigits])]
  simp

/-- A character other than the backslash is read as itself. -/
theorem readChar_plain {c : Char} (h : c ≠ '\\') (rest : List Char) :
    readChar (c :: rest) = some (c.toNat, rest) := by
  unfold readChar
  split <;> simp_all

/-- An escaped unit is read as that unit. -/
theorem readChar_unitEscape {n : Nat} (h : n < 0x10000) (rest : List Char) :
    readChar (unitEscape n ++ rest) = some (n, rest) := by
  change readChar ('\\' :: 'u' :: (hexDigits 4 n ++ rest)) = _
  rw [readChar, readUnit_append h, drop_hexDigits_append]

/-- A unit between the quotes is read as it was written. -/
theorem readChar_escapedUnit {c : CodePoint} (hunit : c.toNat < 0x10000) (rest : List Char) :
    readChar (escapedUnit c ++ rest) = some (c.toNat, rest) := by
  unfold escapedUnit
  split_ifs with h1 h2 h3 h4 h5 h6 h7 h8
  · subst h1; rfl
  · subst h2; rfl
  · subst h3; rfl
  · subst h4; rfl
  · subst h5; rfl
  · rw [h6]; rfl
  · rw [h7]; rfl
  · -- a printable character stands for itself
    have hchar : c.toChar.toNat = c.toNat := by
      refine CodePoint.toNat_toChar ?_
      rw [← Bool.not_eq_true, CodePoint.isSurrogate_iff]
      omega
    rw [List.singleton_append, readChar_plain, hchar]
    intro h
    rw [h] at hchar
    exact h2 (CodePoint.ext hchar.symm)
  · exact readChar_unitEscape hunit rest

/-- Where a quoted text ends, no unit is written. -/
theorem escapedUnit_append_ne {c : CodePoint} (hunit : c.toNat < 0x10000) (x y : List Char) :
    escapedUnit c ++ x ≠ '\x22' :: y := by
  intro h
  have hread := readChar_escapedUnit hunit x
  rw [h, readChar_plain (by decide)] at hread
  obtain rfl : c = CodePoint.ofChar '\x22' :=
    CodePoint.ext (Prod.mk.inj (Option.some.inj hread)).1.symm
  simp [escapedUnit] at h

/-- Units can be read off what is written, which shows where they end. -/
theorem flatMap_escapedUnit_append_inj {l l' : List CodePoint} {x y : List Char}
    (hl : ∀ c ∈ l, c.toNat < 0x10000) (hl' : ∀ c ∈ l', c.toNat < 0x10000)
    (h : l.flatMap escapedUnit ++ '\x22' :: x = l'.flatMap escapedUnit ++ '\x22' :: y) :
    l = l' ∧ x = y := by
  induction l generalizing l' with
  | nil =>
    cases l' with
    | nil => exact ⟨rfl, (List.cons.inj h).2⟩
    | cons c' l' =>
      rw [List.flatMap_cons, List.append_assoc] at h
      exact absurd h.symm (escapedUnit_append_ne (hl' c' List.mem_cons_self) _ _)
  | cons c l ih =>
    rw [List.forall_mem_cons] at hl
    cases l' with
    | nil =>
      rw [List.flatMap_cons, List.append_assoc] at h
      exact absurd h (escapedUnit_append_ne hl.1 _ _)
    | cons c' l' =>
      rw [List.forall_mem_cons] at hl'
      rw [List.flatMap_cons, List.flatMap_cons, List.append_assoc, List.append_assoc] at h
      have hread := congrArg readChar h
      rw [readChar_escapedUnit hl.1, readChar_escapedUnit hl'.1] at hread
      obtain ⟨hunit, hrest⟩ := Prod.mk.inj (Option.some.inj hread)
      obtain ⟨rfl, rfl⟩ := ih hl.2 hl'.2 hrest
      rw [CodePoint.ext hunit]
      exact ⟨rfl, rfl⟩

/-- **A quoted text can be read off as far as its units go,** and it shows where it ends. -/
theorem escapedChars_append_inj {s t : Text} {x y : List Char}
    (h : escapedChars s.points ++ x = escapedChars t.points ++ y) : s.split = t.split ∧ x = y := by
  simp only [escapedChars, List.cons_append, List.append_assoc, List.cons.injEq, true_and,
    List.nil_append] at h
  obtain ⟨hunits, hxy⟩ := flatMap_escapedUnit_append_inj CodePoint.lt_of_mem_flatMap_split
    CodePoint.lt_of_mem_flatMap_split h
  exact ⟨ext hunits, hxy⟩

/-- Texts with the same units are quoted alike. -/
theorem escapedChars_congr {s t : Text} (h : s.split = t.split) :
    escapedChars s.points = escapedChars t.points := by
  have hunits : s.points.flatMap CodePoint.split = t.points.flatMap CodePoint.split :=
    congrArg points h
  rw [escapedChars, hunits, escapedChars]

/-! ### Documents -/

namespace Document

mutual

/-- Whether a document has no words: it then consists of texts, arrays and objects. -/
def IsWordless : Document → Prop
  | .text _ => True
  | .word _ => False
  | .array items => AreWordless items
  | .object members => HaveWordless members

/-- Whether all items are without words. -/
def AreWordless : List Document → Prop
  | [] => True
  | d :: rest => d.IsWordless ∧ AreWordless rest

/-- Whether all members are without words. -/
def HaveWordless : List (Text × Document) → Prop
  | [] => True
  | (_, d) :: rest => d.IsWordless ∧ HaveWordless rest

end

/-- Documents hold no words exactly if none of them does. -/
theorem areWordless_iff {l : List Document} : AreWordless l ↔ ∀ d ∈ l, d.IsWordless := by
  induction l with
  | nil => simp [AreWordless]
  | cons d rest ih => simp [AreWordless, ih]

/-- Members hold no words exactly if none of their documents does. -/
theorem haveWordless_iff {l : List (Text × Document)} :
    HaveWordless l ↔ ∀ e ∈ l, e.2.IsWordless := by
  induction l with
  | nil => simp [HaveWordless]
  | cons e rest ih => simp [HaveWordless, ih]

/-- A list of texts holds no words. -/
theorem isWordless_texts (names : List Text) : (texts names).IsWordless := by
  simp only [texts, IsWordless, areWordless_iff, List.mem_map]
  rintro _ ⟨name, -, rfl⟩
  exact trivial

mutual

/-- A document with its texts in units of UTF-16. -/
def split : Document → Document
  | .text s => .text s.split
  | .word w => .word w
  | .array items => .array (splitItems items)
  | .object members => .object (splitMembers members)

/-- Items with their texts in units of UTF-16. -/
def splitItems : List Document → List Document
  | [] => []
  | d :: rest => d.split :: splitItems rest

/-- Members with their texts in units of UTF-16. -/
def splitMembers : List (Text × Document) → List (Text × Document)
  | [] => []
  | (key, d) :: rest => (key.split, d.split) :: splitMembers rest

end

mutual

/-- Whether all texts of a document are whole. -/
def IsWhole : Document → Prop
  | .text s => s.IsWhole
  | .word _ => True
  | .array items => AreWhole items
  | .object members => HaveWhole members

/-- Whether all texts of items are whole. -/
def AreWhole : List Document → Prop
  | [] => True
  | d :: rest => d.IsWhole ∧ AreWhole rest

/-- Whether all texts of members, and their keys, are whole. -/
def HaveWhole : List (Text × Document) → Prop
  | [] => True
  | (key, d) :: rest => key.IsWhole ∧ d.IsWhole ∧ HaveWhole rest

end

/-- Documents are taken apart one by one. -/
theorem splitItems_eq_map (l : List Document) : splitItems l = l.map split := by
  induction l with
  | nil => rfl
  | cons d rest ih => simp [splitItems, ih]

/-- A list of texts is taken apart text by text. -/
theorem split_texts (names : List Text) : (texts names).split = texts (names.map Text.split) := by
  simp [texts, split, splitItems_eq_map]

/-- Documents are whole exactly if each of them is. -/
theorem areWhole_iff {l : List Document} : AreWhole l ↔ ∀ d ∈ l, d.IsWhole := by
  induction l with
  | nil => simp [AreWhole]
  | cons d rest ih => simp [AreWhole, ih]

/-- Members are whole exactly if each key and each document is. -/
theorem haveWhole_iff {l : List (Text × Document)} :
    HaveWhole l ↔ ∀ e ∈ l, e.1.IsWhole ∧ e.2.IsWhole := by
  induction l with
  | nil => simp [HaveWhole]
  | cons e rest ih => simp [HaveWhole, ih, and_assoc]

/-- A list of whole texts is whole. -/
theorem isWhole_texts {names : List Text} (h : ∀ name ∈ names, name.IsWhole) :
    (texts names).IsWhole := by
  simp only [texts, IsWhole, areWhole_iff, List.mem_map]
  rintro _ ⟨name, hname, rfl⟩
  exact h name hname

/-- A list of texts is known by its document. -/
theorem texts_injective : Function.Injective texts := by
  intro names names' h
  exact (List.map_inj_right fun _ _ e => Document.text.inj e).1 (Document.array.inj h)

mutual

/-- **A document whose texts are whole is known by its units.** -/
theorem eq_of_split_eq : ∀ {d d' : Document}, d.IsWhole → d'.IsWhole → d.split = d'.split → d = d'
  | .text s, .text s', hd, hd', h => by
    rw [Text.eq_of_split_eq hd hd' (Document.text.inj h)]
  | .word w, .word w', _, _, h => by rw [Document.word.inj h]
  | .array items, .array items', hd, hd', h => by
    rw [eq_of_splitItems_eq hd hd' (Document.array.inj h)]
  | .object members, .object members', hd, hd', h => by
    rw [eq_of_splitMembers_eq hd hd' (Document.object.inj h)]
  | .text _, .word _, _, _, h | .text _, .array _, _, _, h | .text _, .object _, _, _, h
  | .word _, .text _, _, _, h | .word _, .array _, _, _, h | .word _, .object _, _, _, h
  | .array _, .text _, _, _, h | .array _, .word _, _, _, h | .array _, .object _, _, _, h
  | .object _, .text _, _, _, h | .object _, .word _, _, _, h
  | .object _, .array _, _, _, h => by simp [split] at h

/-- Items whose texts are whole are known by their units. -/
theorem eq_of_splitItems_eq : ∀ {l l' : List Document}, AreWhole l → AreWhole l' →
    splitItems l = splitItems l' → l = l'
  | [], [], _, _, _ => rfl
  | [], _ :: _, _, _, h | _ :: _, [], _, _, h => by simp [splitItems] at h
  | d :: rest, d' :: rest', hl, hl', h => by
    obtain ⟨hd, hrest⟩ := List.cons.inj h
    rw [eq_of_split_eq hl.1 hl'.1 hd, eq_of_splitItems_eq hl.2 hl'.2 hrest]

/-- Members whose texts are whole are known by their units. -/
theorem eq_of_splitMembers_eq : ∀ {l l' : List (Text × Document)}, HaveWhole l → HaveWhole l' →
    splitMembers l = splitMembers l' → l = l'
  | [], [], _, _, _ => rfl
  | [], _ :: _, _, _, h | _ :: _, [], _, _, h => by simp [splitMembers] at h
  | (key, d) :: rest, (key', d') :: rest', hl, hl', h => by
    obtain ⟨he, hrest⟩ := List.cons.inj h
    obtain ⟨hkey, hd⟩ := Prod.mk.inj he
    rw [Text.eq_of_split_eq hl.1 hl'.1 hkey, eq_of_split_eq hl.2.1 hl'.2.1 hd,
      eq_of_splitMembers_eq hl.2.2 hl'.2.2 hrest]

end

/-- What follows the first item of an array. -/
def itemsTail : List Document → List Char
  | [] => []
  | d :: rest => ',' :: ' ' :: itemsChars (d :: rest)

/-- What follows the first member of an object. -/
def membersTail : List (Text × Document) → List Char
  | [] => []
  | e :: rest => ',' :: ' ' :: membersChars (e :: rest)

/-- Items are written one after the other. -/
theorem itemsChars_cons (d : Document) (rest : List Document) :
    itemsChars (d :: rest) = d.chars ++ itemsTail rest := by
  cases rest <;> simp [itemsChars, itemsTail]

/-- Members are written one after the other, each behind its key. -/
theorem membersChars_cons (key : Text) (d : Document) (rest : List (Text × Document)) :
    membersChars ((key, d) :: rest) =
      escapedChars key.points ++ ':' :: ' ' :: (d.chars ++ membersTail rest) := by
  cases rest <;> simp [membersChars, membersTail]

/-- A document does not begin like the end of an array. -/
theorem chars_append_ne {d : Document} (hd : d.IsWordless) (x y : List Char) :
    d.chars ++ x ≠ ']' :: y := by
  cases d with
  | text s => simp [chars, escapedChars]
  | word w => exact hd.elim
  | array items => simp [chars]
  | object members => simp [chars]

mutual

/-- **A document without words can be read off its text,** which shows where it ends. -/
theorem chars_append_inj : ∀ {d d' : Document} {x y : List Char}, d.IsWordless → d'.IsWordless →
    d.chars ++ x = d'.chars ++ y → d.split = d'.split ∧ x = y
  | .text s, .text s', x, y, _, _, h => by
    simp only [chars] at h
    obtain ⟨hs, hxy⟩ := escapedChars_append_inj h
    exact ⟨by rw [split, split, hs], hxy⟩
  | .array items, .array items', x, y, hd, hd', h => by
    simp only [chars, List.cons_append, List.append_assoc, List.cons.injEq, true_and,
      List.nil_append] at h
    obtain ⟨hitems, hxy⟩ := itemsChars_append_inj hd hd' h
    exact ⟨by rw [split, split, hitems], hxy⟩
  | .object members, .object members', x, y, hd, hd', h => by
    simp only [chars, List.cons_append, List.append_assoc, List.cons.injEq, true_and,
      List.nil_append] at h
    obtain ⟨hmembers, hxy⟩ := membersChars_append_inj hd hd' h
    exact ⟨by rw [split, split, hmembers], hxy⟩
  | .text _, .array _, x, y, _, _, h | .text _, .object _, x, y, _, _, h
  | .array _, .text _, x, y, _, _, h | .array _, .object _, x, y, _, _, h
  | .object _, .text _, x, y, _, _, h | .object _, .array _, x, y, _, _, h => by
    simp [chars, escapedChars] at h

/-- The items of an array can be read off its text. -/
theorem itemsChars_append_inj : ∀ {l l' : List Document} {x y : List Char},
    AreWordless l → AreWordless l' → itemsChars l ++ ']' :: x = itemsChars l' ++ ']' :: y →
    splitItems l = splitItems l' ∧ x = y
  | [], [], x, y, _, _, h => ⟨rfl, (List.cons.inj h).2⟩
  | [], d' :: rest', x, y, _, hl', h => by
    rw [itemsChars_cons, List.append_assoc] at h
    exact absurd h.symm (chars_append_ne hl'.1 _ _)
  | d :: rest, [], x, y, hl, _, h => by
    rw [itemsChars_cons, List.append_assoc] at h
    exact absurd h (chars_append_ne hl.1 _ _)
  | d :: rest, d' :: rest', x, y, hl, hl', h => by
    rw [itemsChars_cons, itemsChars_cons, List.append_assoc, List.append_assoc] at h
    obtain ⟨hd, htail⟩ := chars_append_inj hl.1 hl'.1 h
    cases rest with
    | nil =>
      cases rest' with
      | nil => exact ⟨by simp only [splitItems, hd], (List.cons.inj htail).2⟩
      | cons => simp [itemsTail] at htail
    | cons e rest =>
      cases rest' with
      | nil => simp [itemsTail] at htail
      | cons e' rest' =>
        simp only [itemsTail, List.cons_append, List.cons.injEq, true_and] at htail
        obtain ⟨hrest, hxy⟩ := itemsChars_append_inj hl.2 hl'.2 htail
        exact ⟨by rw [splitItems, hd, hrest, ← splitItems], hxy⟩

/-- The members of an object can be read off its text. -/
theorem membersChars_append_inj : ∀ {l l' : List (Text × Document)} {x y : List Char},
    HaveWordless l → HaveWordless l' →
    membersChars l ++ '\x7d' :: x = membersChars l' ++ '\x7d' :: y →
    splitMembers l = splitMembers l' ∧ x = y
  | [], [], x, y, _, _, h => ⟨rfl, (List.cons.inj h).2⟩
  | [], (key', d') :: rest', x, y, _, _, h => by
    simp [membersChars_cons, membersChars, escapedChars] at h
  | (key, d) :: rest, [], x, y, _, _, h => by
    simp [membersChars_cons, membersChars, escapedChars] at h
  | (key, d) :: rest, (key', d') :: rest', x, y, hl, hl', h => by
    rw [membersChars_cons, membersChars_cons, List.append_assoc, List.append_assoc] at h
    obtain ⟨hkey, hvalue⟩ := escapedChars_append_inj h
    simp only [List.cons_append, List.cons.injEq, true_and, List.append_assoc] at hvalue
    obtain ⟨hd, htail⟩ := chars_append_inj hl.1 hl'.1 hvalue
    cases rest with
    | nil =>
      cases rest' with
      | nil => exact ⟨by simp only [splitMembers, hkey, hd], (List.cons.inj htail).2⟩
      | cons => simp [membersTail] at htail
    | cons e rest =>
      cases rest' with
      | nil => simp [membersTail] at htail
      | cons e' rest' =>
        simp only [membersTail, List.cons_append, List.cons.injEq, true_and] at htail
        obtain ⟨hrest, hxy⟩ := membersChars_append_inj hl.2 hl'.2 htail
        exact ⟨by rw [splitMembers, hkey, hd, hrest, ← splitMembers], hxy⟩

end

mutual

/-- Documents with the same units have the same text. -/
theorem chars_congr : ∀ {d d' : Document}, d.split = d'.split → d.chars = d'.chars
  | .text s, .text s', h => by rw [chars, chars, escapedChars_congr (Document.text.inj h)]
  | .word w, .word w', h => by rw [Document.word.inj h]
  | .array items, .array items', h => by
    rw [chars, chars, itemsChars_congr (Document.array.inj h)]
  | .object members, .object members', h => by
    rw [chars, chars, membersChars_congr (Document.object.inj h)]
  | .text _, .word _, h | .text _, .array _, h | .text _, .object _, h
  | .word _, .text _, h | .word _, .array _, h | .word _, .object _, h
  | .array _, .text _, h | .array _, .word _, h | .array _, .object _, h
  | .object _, .text _, h | .object _, .word _, h | .object _, .array _, h => by
    simp [split] at h

/-- Items with the same units have the same text. -/
theorem itemsChars_congr : ∀ {l l' : List Document}, splitItems l = splitItems l' →
    itemsChars l = itemsChars l'
  | [], [], _ => rfl
  | [], _ :: _, h | _ :: _, [], h => by simp [splitItems] at h
  | d :: rest, d' :: rest', h => by
    obtain ⟨hd, hrest⟩ := List.cons.inj h
    have hitems := itemsChars_congr hrest
    rw [itemsChars_cons, itemsChars_cons, chars_congr hd]
    cases rest <;> cases rest' <;> simp_all [splitItems, itemsTail]

/-- Members with the same units have the same text. -/
theorem membersChars_congr : ∀ {l l' : List (Text × Document)}, splitMembers l = splitMembers l' →
    membersChars l = membersChars l'
  | [], [], _ => rfl
  | [], _ :: _, h | _ :: _, [], h => by simp [splitMembers] at h
  | (key, d) :: rest, (key', d') :: rest', h => by
    obtain ⟨he, hrest⟩ := List.cons.inj h
    obtain ⟨hkey, hd⟩ := Prod.mk.inj he
    have hmembers := membersChars_congr hrest
    rw [membersChars_cons, membersChars_cons, chars_congr hd, escapedChars_congr hkey]
    cases rest <;> cases rest' <;> simp_all [splitMembers, membersTail]

end

/-- **Documents without words have the same text exactly if they have the same units.** -/
theorem render_eq_iff {d d' : Document} (hd : d.IsWordless) (hd' : d'.IsWordless) :
    d.render = d'.render ↔ d.split = d'.split := by
  constructor
  · intro h
    have hchars : d.chars = d'.chars := ofChars_inj.1 h
    exact (chars_append_inj (x := []) (y := []) hd hd' (by rw [hchars])).1
  · intro h
    rw [render, chars_congr h, render]

/-- **Documents without words, whose texts are whole, are the same if they have the same text.** -/
theorem eq_of_render_eq {d d' : Document} (hd : d.IsWordless) (hd' : d'.IsWordless)
    (hwhole : d.IsWhole) (hwhole' : d'.IsWhole) (h : d.render = d'.render) : d = d' :=
  eq_of_split_eq hwhole hwhole' ((render_eq_iff hd hd').1 h)

end Document

end Gatehouse.Text
