import Gatehouse.Problem
import Gatehouse.Value.Normal

/-!
# Cache keys

A key is a text, a tuple of keys, or a piece of other data.  Two keys are the same key if they only
differ in how a number is written; they then have one normal form (`CacheKey.normal`).  A key with a
sequence or a record in it is no key for a cache in memory (`CacheKey.unfit?`).  The components of a
key are its characters or its items; asking a key for a component that it does not have is a problem
(`CacheKey.component`).  The engine keeps compiled policies and access control lists under tuples of
its own (`CacheKey.ofPolicy`, `CacheKey.ofAcl`), whose first item tells the two apart.
-/

namespace Gatehouse

/-- A key of a cache. -/
inductive CacheKey where
  /-- A text. -/
  | text (s : Text)
  /-- A tuple. -/
  | tuple (items : List CacheKey)
  /-- Other data. -/
  | datum (v : Value)

namespace CacheKey

instance : Inhabited CacheKey := ⟨.text ""⟩

mutual

/-- Decides equality of two keys. -/
def decEq : (a b : CacheKey) → Decidable (a = b)
  | .text a, .text b => decidable_of_iff (a = b) (by simp)
  | .tuple a, .tuple b => @decidable_of_iff _ (a = b) (by simp) (decEqItems a b)
  | .datum a, .datum b => decidable_of_iff (a = b) (by simp)
  | .text _, .tuple _ | .text _, .datum _ | .tuple _, .text _ | .tuple _, .datum _
  | .datum _, .text _ | .datum _, .tuple _ => .isFalse nofun

/-- Decides equality of two tuples of keys. -/
def decEqItems : (a b : List CacheKey) → Decidable (a = b)
  | [], [] => .isTrue rfl
  | [], _ :: _ => .isFalse nofun
  | _ :: _, [] => .isFalse nofun
  | a :: as, b :: bs =>
    match decEq a b, decEqItems as bs with
    | .isTrue h, .isTrue h' => .isTrue (by rw [h, h'])
    | .isFalse h, _ => .isFalse fun e => h (List.cons.inj e).1
    | _, .isFalse h => .isFalse fun e => h (List.cons.inj e).2

end

instance : DecidableEq CacheKey := decEq

mutual

/-- The key that a piece of data is: a sequence is a tuple. -/
def ofValue : Value → CacheKey
  | .text s => .text s
  | .list items => .tuple (ofItems items)
  | v => .datum v

/-- The keys that the items of a sequence are. -/
def ofItems : List Value → List CacheKey
  | [] => []
  | v :: rest => ofValue v :: ofItems rest

end

mutual

/-- A key as a piece of data. -/
def toValue : CacheKey → Value
  | .text s => .text s
  | .tuple items => .list (itemValues items)
  | .datum v => v

/-- The items of a tuple as pieces of data. -/
def itemValues : List CacheKey → List Value
  | [] => []
  | k :: rest => toValue k :: itemValues rest

end

mutual

/-- A key with its numbers written in one way. -/
def normal : CacheKey → CacheKey
  | .text s => .text s
  | .tuple items => .tuple (normalItems items)
  | .datum v => .datum v.normal

/-- The items of a tuple with their numbers written in one way. -/
def normalItems : List CacheKey → List CacheKey
  | [] => []
  | k :: rest => normal k :: normalItems rest

end

/-- Whether two keys are the same key. -/
def same (k l : CacheKey) : Bool := decide (k.normal = l.normal)

/-- A key is the same as itself. -/
theorem same_self (k : CacheKey) : same k k = true := by simp [same]

mutual

/-- The shape of the first sequence or record in a key. -/
def unfit? : CacheKey → Option Text
  | .text _ => none
  | .tuple items => unfitItem? items
  | .datum v => if v.isNested then some v.shapeName else none

/-- The shape of the first sequence or record in the items of a tuple. -/
def unfitItem? : List CacheKey → Option Text
  | [] => none
  | k :: rest => (unfit? k).or (unfitItem? rest)

end

/-- The number of characters or items. -/
def length : CacheKey → Except Problem Nat
  | .text s => .ok s.length
  | .tuple items => .ok items.length
  | .datum v => .error (.noLength v.shapeName)

/-- The character or the item at a place. -/
def component (k : CacheKey) (i : Nat) : Except Problem CacheKey :=
  match k with
  | .text s =>
    match s.points[i]? with
    | none => .error (.keyTooShort "string")
    | some c => .ok (.text (Text.singleton c))
  | .tuple items =>
    match items[i]? with
    | none => .error (.keyTooShort "tuple")
    | some item => .ok item
  | .datum v => .error (.noComponents v.shapeName)

/-- The first item of a tuple. -/
def first? : CacheKey → Option CacheKey
  | .tuple items => items.head?
  | _ => none

/-- The key that a name or a version is: a text, or data as it is. -/
def ofDatum : Value → CacheKey
  | .text s => .text s
  | v => .datum v

/-- The key of a compiled policy. -/
def ofPolicy (name version modelFingerprint : Value) : CacheKey :=
  .tuple [.text "policy", ofDatum name, ofDatum version, ofDatum modelFingerprint]

/-- The key of the access control list of a secret. -/
def ofAcl (modelFingerprint : Value) (secretDigest : Text) : CacheKey :=
  .tuple [.text "acl", ofDatum modelFingerprint, .text secretDigest]

/-- Whether a key is a piece of data.  A tuple is no sequence of data. -/
def isDatum (v : Value) (k : CacheKey) : Bool := !v.isNested && same k (ofDatum v)

/-- A key is a text exactly if it is that text. -/
theorem isDatum_text (s : Text) (k : CacheKey) : isDatum (.text s) k = true ↔ k = .text s := by
  cases k <;> simp [isDatum, Value.isNested, same, ofDatum, normal]

/-- Whether a key begins with a text and a piece of data.  The second component is looked at only
if the first one fits. -/
def beginsWith (first : Text) (second : Value) (k : CacheKey) : Except Problem Bool :=
  match k.component 0 with
  | .error p => .error p
  | .ok a =>
    if a = .text first then
      match k.component 1 with
      | .error p => .error p
      | .ok b => .ok (b.isDatum second)
    else .ok false

end CacheKey

end Gatehouse
