import Mathlib.Algebra.Order.Ring.Int
import Mathlib.Data.List.Nodup
import SynchrotronCD.Lib.Json

/-!
# YAML values

The parsed tree of a manifest (`serde_yaml_ng::Value`): scalars, sequences,
mappings in insertion order, and tagged values. Mapping keys are themselves
values. Accessors look through tags, as the library's do.

Equality of two values (`Value.beq`, the library's `PartialEq`) does not look at
the order of a mapping's entries. Their JSON text does: `toJson` keeps the
entries where they are.
-/

namespace SynchrotronCD

open Lib

/-- An IEEE double, by its bits. -/
structure F64 where
  bits : UInt64
deriving DecidableEq, Repr

namespace F64

def exponent (x : F64) : Nat := x.bits.toNat / 2 ^ 52 % 2 ^ 11

def isFinite (x : F64) : Bool := x.exponent != 2047

def isNan (x : F64) : Bool := x.exponent == 2047 && x.bits.toNat % 2 ^ 52 != 0

/-- Positive or negative zero. -/
def isZero (x : F64) : Bool := x.bits.toNat % 2 ^ 63 == 0

/-- Equality of numbers: all NaNs are one value to YAML, and the two zeros are equal. -/
def beq (x y : F64) : Bool :=
  (x.isNan && y.isNan) || (!x.isNan && !y.isNan && (x == y || (x.isZero && y.isZero)))

theorem beq_self (x : F64) : x.beq x = true := by
  unfold beq
  cases x.isNan <;> simp

end F64

/-- A double JSON can write. -/
abbrev FiniteF64 := { x : F64 // x.isFinite = true }

/-- A YAML number. -/
inductive Number where
  | posInt (n : UInt64)
  /-- The integer `-(k + 1)`. -/
  | negInt (k : Fin (2 ^ 63))
  | float (x : F64)
deriving DecidableEq, Repr

def Number.beq : Number → Number → Bool
  | .posInt a, .posInt b => a == b
  | .negInt a, .negInt b => a == b
  | .float a, .float b => a.beq b
  | _, _ => false

inductive Value where
  | null
  | bool (b : Bool)
  | number (n : Number)
  | string (s : String)
  | sequence (xs : List Value)
  | mapping (kvs : List (Value × Value))
  | tagged (tag : String) (v : Value)

namespace Value

/-! ## Equality -/

mutual

/-- Value equality: entries of a mapping are found by key, wherever they stand. -/
def beq : Value → Value → Bool
  | .null, .null => true
  | .bool a, .bool b => a == b
  | .number a, .number b => a.beq b
  | .string a, .string b => a == b
  | .sequence xs, .sequence ys => beqList xs ys
  | .mapping xs, .mapping ys => xs.length == ys.length && subMapping xs ys
  | .tagged s a, .tagged t b => s == t && beq a b
  | _, _ => false

def beqList : List Value → List Value → Bool
  | [], [] => true
  | x :: xs, y :: ys => beq x y && beqList xs ys
  | _, _ => false

/-- Every entry of the first mapping has an equal one in the second. -/
def subMapping : List (Value × Value) → List (Value × Value) → Bool
  | [], _ => true
  | (k, v) :: xs, ys =>
    (match ys.find? (fun p => beq k p.1) with
      | some p => beq v p.2
      | none => false) && subMapping xs ys

end

/-! ## Accessors -/

def untag : Value → Value
  | .tagged _ v => untag v
  | v => v

def isNull (v : Value) : Bool :=
  match v.untag with
  | .null => true
  | _ => false

def asStr (v : Value) : Option String :=
  match v.untag with
  | .string s => some s
  | _ => none

def asI64 (v : Value) : Option Int :=
  match v.untag with
  | .number (.posInt n) => if n.toNat < 2 ^ 63 then some n.toNat else none
  | .number (.negInt k) => some (-(k.val + 1))
  | _ => none

/-- `value.get(key)`: the entry of a mapping under a string key. -/
def get (v : Value) (key : String) : Option Value :=
  match v.untag with
  | .mapping kvs => (kvs.find? (fun p => beq (.string key) p.1)).map Prod.snd
  | _ => none

/-! ## JSON -/

/-- A number JSON can write. -/
inductive JsonNumber where
  | posInt (n : UInt64)
  | negInt (k : Fin (2 ^ 63))
  | float (x : FiniteF64)
deriving DecidableEq

/-- A JSON document. -/
abbrev Doc := Json JsonNumber

/-- JSON has no NaN and no infinity; the serializer writes `null` for them. -/
def numberToJson : Number → Doc
  | .posInt n => .num (.posInt n)
  | .negInt k => .num (.negInt k)
  | .float x => if h : x.isFinite = true then .num (.float ⟨x, h⟩) else .null

end Value

/-- How the serializer writes finite doubles: the shortest decimal that reads back
as the same double, always with a fraction or an exponent. -/
class FloatText where
  print : FiniteF64 → List Char
  chars : ∀ x, ∀ c ∈ print x, isNumberChar c = true
  inj : Function.Injective print
  notInt : ∀ x, ∃ c ∈ print x, c ∈ ['.', 'e']

theorem toDigits_inj {n m : Nat} (h : Nat.toDigits 10 n = Nat.toDigits 10 m) : n = m := by
  have := congrArg (fun l => Nat.ofDigitChars 10 l 0) h
  simpa only [Nat.ofDigitChars_ten_toDigits] using this

/-- A printer for runs in which no document holds a float. -/
@[reducible] def FloatText.ofBits : FloatText where
  print x := Nat.toDigits 10 x.val.bits.toNat ++ ['.', '0']
  chars x c hc := by
    rcases List.mem_append.mp hc with hc | hc
    · have := Nat.isDigit_of_mem_toDigits (by decide) (by decide) hc
      simp [isNumberChar, this]
    · rcases List.mem_pair.mp hc with rfl | rfl <;> decide
  inj x y h := by
    have hd := (List.append_left_inj ['.', '0']).mp h
    have hb : x.val = y.val := congrArg F64.mk (UInt64.toNat_inj.mp (toDigits_inj hd))
    exact Subtype.ext hb
  notInt x := ⟨'.', by simp, by simp⟩

namespace Value

theorem isDigit_toDigits {n : Nat} {c : Char} (h : c ∈ Nat.toDigits 10 n) : c.isDigit = true :=
  Nat.isDigit_of_mem_toDigits (by decide) (by decide) h

theorem notInt_toDigits {n : Nat} {c : Char} (h : c ∈ Nat.toDigits 10 n) : c ∉ ['-', '.', 'e'] := by
  have hd := isDigit_toDigits h
  intro hm
  simp only [List.mem_cons, List.not_mem_nil, or_false] at hm
  rcases hm with rfl | rfl | rfl <;> exact absurd hd (by decide)

section

variable [FloatText]

def JsonNumber.print : JsonNumber → List Char
  | .posInt n => Nat.toDigits 10 n.toNat
  | .negInt k => '-' :: Nat.toDigits 10 (k.val + 1)
  | .float x => FloatText.print x

/-- An integer's text is not a float's. -/
theorem intText_ne_float {l : List Char} (x : FiniteF64)
    (h : ∀ c ∈ l, c = '-' ∨ c.isDigit = true) : l ≠ FloatText.print x := by
  intro he
  obtain ⟨c, hc, hm⟩ := FloatText.notInt x
  rw [← he] at hc
  have hother : ∀ d ∈ ['.', 'e'], d ≠ '-' ∧ d.isDigit = false :=
    List.forall_mem_cons.mpr ⟨by decide, List.forall_mem_cons.mpr ⟨by decide, nofun⟩⟩
  rcases h c hc with h | h
  · exact (hother c hm).1 h
  · exact Bool.noConfusion (h.symm.trans (hother c hm).2)

theorem JsonNumber.int_chars : ∀ n : JsonNumber, (∀ x, n ≠ .float x) →
    ∀ c ∈ n.print, c = '-' ∨ c.isDigit = true
  | .posInt n, _, c, hc => Or.inr (isDigit_toDigits hc)
  | .negInt k, _, c, hc => by
      rcases List.mem_cons.mp hc with h | h
      · exact Or.inl h
      · exact Or.inr (isDigit_toDigits h)
  | .float x, h, _, _ => absurd rfl (h x)

theorem JsonNumber.print_injective : Function.Injective JsonNumber.print := by
  intro a b h
  cases a with
  | posInt n =>
      cases b with
      | posInt m => exact congrArg _ (UInt64.toNat_inj.mp (toDigits_inj h))
      | negInt k =>
          exfalso
          have hm : '-' ∈ Nat.toDigits 10 n.toNat := by
            have : Nat.toDigits 10 n.toNat = '-' :: Nat.toDigits 10 (k.val + 1) := h
            rw [this]; exact List.mem_cons_self
          exact notInt_toDigits hm (by simp)
      | float x => exact absurd h (intText_ne_float x (int_chars (.posInt n) (by simp)))
  | negInt k =>
      cases b with
      | posInt m =>
          exfalso
          have hm : '-' ∈ Nat.toDigits 10 m.toNat := by
            have : '-' :: Nat.toDigits 10 (k.val + 1) = Nat.toDigits 10 m.toNat := h
            rw [← this]; exact List.mem_cons_self
          exact notInt_toDigits hm (by simp)
      | negInt l =>
          have hd : k.val + 1 = l.val + 1 := toDigits_inj (List.cons.inj h).2
          exact congrArg _ (Fin.ext (by omega))
      | float x => exact absurd h (intText_ne_float x (int_chars (.negInt k) (by simp)))
  | float x =>
      cases b with
      | posInt m => exact absurd h.symm (intText_ne_float x (int_chars (.posInt m) (by simp)))
      | negInt l => exact absurd h.symm (intText_ne_float x (int_chars (.negInt l) (by simp)))
      | float y => exact congrArg _ (FloatText.inj h)

instance : NumberText JsonNumber where
  print := JsonNumber.print
  ne_nil n := by
    cases n with
    | posInt n => exact Nat.toDigits_ne_nil
    | negInt k => exact List.cons_ne_nil _ _
    | float x =>
        obtain ⟨c, hc, _⟩ := FloatText.notInt x
        exact List.ne_nil_of_mem hc
  chars n c hc := by
    cases n with
    | float x => exact FloatText.chars x c hc
    | posInt _ | negInt _ =>
        rcases JsonNumber.int_chars _ (by simp) c hc with h | h
        · rw [h]; decide
        · simp [isNumberChar, h]
  inj := JsonNumber.print_injective

/-- The text of a scalar mapping key; JSON has no other keys. -/
def keyText : Value → Option String
  | .string s => some s
  | .bool true => some "true"
  | .bool false => some "false"
  | .number (.float x) =>
    if h : x.isFinite = true then some (String.ofList (FloatText.print ⟨x, h⟩)) else none
  | .number (.posInt n) => some (String.ofList (JsonNumber.posInt n).print)
  | .number (.negInt k) => some (String.ofList (JsonNumber.negInt k).print)
  | _ => none

mutual

/-- The JSON document of a value, if every mapping key has a text. A tagged value
becomes an object with the tag as its only key. -/
def toJson : Value → Option Doc
  | .null => some .null
  | .bool b => some (.bool b)
  | .number n => some (numberToJson n)
  | .string s => some (.str s)
  | .sequence xs => (listToJson xs).map .arr
  | .mapping kvs => (entriesToJson kvs).map .obj
  | .tagged tag v => (toJson v).map (fun j => .obj [("!" ++ tag, j)])

def listToJson : List Value → Option (List Doc)
  | [] => some []
  | x :: xs => do
    let j ← toJson x
    let js ← listToJson xs
    return j :: js

def entriesToJson : List (Value × Value) → Option (List (String × Doc))
  | [] => some []
  | (k, v) :: kvs => do
    let key ← keyText k
    let j ← toJson v
    let js ← entriesToJson kvs
    return (key, j) :: js

end

end

/-! ## JSON-compatible values -/

def JsonNumber.toNumber : JsonNumber → Number
  | .posInt n => .posInt n
  | .negInt k => .negInt k
  | .float x => .float x.val

mutual

/-- The value a JSON document stands for. -/
def ofJson : Doc → Value
  | .null => .null
  | .bool b => .bool b
  | .num n => .number n.toNumber
  | .str s => .string s
  | .arr xs => .sequence (ofJsonList xs)
  | .obj kvs => .mapping (ofJsonEntries kvs)

def ofJsonList : List Doc → List Value
  | [] => []
  | x :: xs => ofJson x :: ofJsonList xs

def ofJsonEntries : List (String × Doc) → List (Value × Value)
  | [] => []
  | (k, v) :: kvs => (.string k, ofJson v) :: ofJsonEntries kvs

end

def Number.isFinite : Number → Bool
  | .float x => x.isFinite
  | _ => true

mutual

/-- What JSON can express: no tags, finite numbers, distinct string keys. -/
def jsonCompatible : Value → Bool
  | .null => true
  | .bool _ => true
  | .number n => Number.isFinite n
  | .string _ => true
  | .sequence xs => jsonCompatibleList xs
  | .mapping kvs => jsonCompatibleEntries kvs && decide (kvs.filterMap (fun p => p.1.asStr)).Nodup
  | .tagged _ _ => false

def jsonCompatibleList : List Value → Bool
  | [] => true
  | x :: xs => jsonCompatible x && jsonCompatibleList xs

def jsonCompatibleEntries : List (Value × Value) → Bool
  | [] => true
  | (.string _, v) :: kvs => jsonCompatible v && jsonCompatibleEntries kvs
  | _ :: _ => false

end

theorem jsonCompatibleEntries_mem : ∀ {kvs : List (Value × Value)},
    jsonCompatibleEntries kvs = true → ∀ p ∈ kvs, ∃ s, p.1 = .string s
  | [], _, p, hp => absurd hp (by simp)
  | (.string s, v) :: kvs, h, p, hp => by
      rw [jsonCompatibleEntries, Bool.and_eq_true] at h
      rcases List.mem_cons.mp hp with rfl | hp
      · exact ⟨s, rfl⟩
      · exact jsonCompatibleEntries_mem h.2 p hp

/-- With distinct keys, a lookup by key finds the entry itself. -/
theorem find_entry {kvs : List (Value × Value)} (hc : jsonCompatibleEntries kvs = true)
    (hnd : (kvs.filterMap (fun p => p.1.asStr)).Nodup) {s : String} {v : Value}
    (hm : (.string s, v) ∈ kvs) :
    kvs.find? (fun p => beq (.string s) p.1) = some (.string s, v) := by
  induction kvs with
  | nil => exact absurd hm (by simp)
  | cons p kvs ih =>
      obtain ⟨t, ht⟩ := jsonCompatibleEntries_mem hc p List.mem_cons_self
      obtain ⟨k, w⟩ := p
      dsimp only at ht
      subst ht
      rw [jsonCompatibleEntries, Bool.and_eq_true] at hc
      simp only [List.filterMap_cons, asStr, untag, List.nodup_cons] at hnd
      by_cases hst : s = t
      · subst hst
        rcases List.mem_cons.mp hm with he | hm
        · rw [he]; simp [beq]
        · refine absurd ?_ hnd.1
          exact List.mem_filterMap.mpr ⟨_, hm, rfl⟩
      · rcases List.mem_cons.mp hm with he | hm
        · exact absurd (Value.string.inj (Prod.mk.inj he).1) hst
        · rw [List.find?_cons_of_neg (by simp [beq, hst])]
          exact ih hc.2 hnd.2 hm

/-- Entries found in a mapping with distinct keys, wherever they stand there. -/
theorem subMapping_of_subset {ys : List (Value × Value)} (hc : jsonCompatibleEntries ys = true)
    (hnd : (ys.filterMap (fun p => p.1.asStr)).Nodup) :
    ∀ {xs : List (Value × Value)}, (∀ p ∈ xs, p ∈ ys) → (∀ p ∈ xs, beq p.2 p.2 = true) →
      subMapping xs ys = true
  | [], _, _ => rfl
  | (k, v) :: xs, hsub, hself => by
      have hm := hsub (k, v) List.mem_cons_self
      obtain ⟨s, hs⟩ := jsonCompatibleEntries_mem hc _ hm
      dsimp only at hs
      subst hs
      rw [subMapping, find_entry hc hnd hm]
      rw [Bool.and_eq_true]
      exact ⟨hself _ List.mem_cons_self,
        subMapping_of_subset hc hnd (fun p hp => hsub p (List.mem_cons_of_mem _ hp))
          (fun p hp => hself p (List.mem_cons_of_mem _ hp))⟩

mutual

/-- A JSON-compatible value equals itself. -/
theorem beq_self : ∀ {v : Value}, v.jsonCompatible = true → beq v v = true
  | .null, _ => rfl
  | .bool b, _ => by simp [beq]
  | .number n, _ => by
      cases n with
      | posInt n => simp [beq, Number.beq]
      | negInt k => simp [beq, Number.beq]
      | float x => exact F64.beq_self x
  | .string s, _ => by simp [beq]
  | .sequence xs, h => @beqList_self xs h
  | .mapping kvs, h => by
      rw [jsonCompatible, Bool.and_eq_true, decide_eq_true_eq] at h
      rw [beq, Bool.and_eq_true]
      exact ⟨by simp, subMapping_of_subset h.1 h.2 (fun _ hp => hp) (entries_beq_self h.1)⟩
  | .tagged t v, h => by simp [jsonCompatible] at h

theorem beqList_self : ∀ {xs : List Value}, jsonCompatibleList xs = true → beqList xs xs = true
  | [], _ => rfl
  | x :: xs, h => by
      rw [jsonCompatibleList, Bool.and_eq_true] at h
      rw [beqList, Bool.and_eq_true]
      exact ⟨beq_self h.1, beqList_self h.2⟩

theorem entries_beq_self : ∀ {kvs : List (Value × Value)}, jsonCompatibleEntries kvs = true →
    ∀ p ∈ kvs, beq p.2 p.2 = true
  | [], _, p, hp => absurd hp (by simp)
  | (.string s, v) :: kvs, h, p, hp => by
      rw [jsonCompatibleEntries, Bool.and_eq_true] at h
      rcases List.mem_cons.mp hp with rfl | hp
      · exact beq_self h.1
      · exact entries_beq_self h.2 p hp

end

/-- **Value equality ignores the order of a mapping's entries.** -/
theorem beq_of_perm {xs ys : List (Value × Value)} (h : (Value.mapping ys).jsonCompatible = true)
    (hp : xs.Perm ys) : beq (.mapping xs) (.mapping ys) = true := by
  rw [jsonCompatible, Bool.and_eq_true, decide_eq_true_eq] at h
  rw [beq, Bool.and_eq_true]
  exact ⟨by simpa using hp.length_eq, subMapping_of_subset h.1 h.2 (fun p hm => hp.subset hm)
    (fun p hm => entries_beq_self h.1 p (hp.subset hm))⟩

section

variable [FloatText]

mutual

/-- A JSON-compatible value is the value of its JSON document. -/
theorem toJson_of_compatible : ∀ {v : Value}, v.jsonCompatible = true →
    ∃ j, v.toJson = some j ∧ ofJson j = v
  | .null, _ => ⟨_, rfl, rfl⟩
  | .bool b, _ => ⟨_, rfl, rfl⟩
  | .number n, h => by
      cases n with
      | posInt n => exact ⟨_, rfl, rfl⟩
      | negInt k => exact ⟨_, rfl, rfl⟩
      | float x =>
          have hx : x.isFinite = true := h
          exact ⟨.num (.float ⟨x, hx⟩), by simp [toJson, numberToJson, hx], rfl⟩
  | .string s, _ => ⟨_, rfl, rfl⟩
  | .sequence xs, h => by
      obtain ⟨js, h1, h2⟩ := @listToJson_of_compatible xs h
      exact ⟨.arr js, by rw [toJson, h1]; rfl, by rw [ofJson, h2]⟩
  | .mapping kvs, h => by
      have h' : jsonCompatibleEntries kvs = true := by
        rw [jsonCompatible, Bool.and_eq_true] at h; exact h.1
      obtain ⟨js, h1, h2⟩ := entriesToJson_of_compatible h'
      exact ⟨.obj js, by rw [toJson, h1]; rfl, by rw [ofJson, h2]⟩
  | .tagged t v, h => by simp [jsonCompatible] at h

theorem listToJson_of_compatible : ∀ {xs : List Value}, jsonCompatibleList xs = true →
    ∃ js, listToJson xs = some js ∧ ofJsonList js = xs
  | [], _ => ⟨[], rfl, rfl⟩
  | x :: xs, h => by
      rw [jsonCompatibleList, Bool.and_eq_true] at h
      obtain ⟨j, h1, h2⟩ := toJson_of_compatible h.1
      obtain ⟨js, h3, h4⟩ := listToJson_of_compatible h.2
      exact ⟨j :: js, by simp [listToJson, h1, h3], by rw [ofJsonList, h2, h4]⟩

theorem entriesToJson_of_compatible : ∀ {kvs : List (Value × Value)},
    jsonCompatibleEntries kvs = true →
    ∃ js, entriesToJson kvs = some js ∧ ofJsonEntries js = kvs
  | [], _ => ⟨[], rfl, rfl⟩
  | (.string k, v) :: kvs, h => by
      rw [jsonCompatibleEntries, Bool.and_eq_true] at h
      obtain ⟨j, h1, h2⟩ := toJson_of_compatible h.1
      obtain ⟨js, h3, h4⟩ := entriesToJson_of_compatible h.2
      exact ⟨(k, j) :: js, by simp [entriesToJson, keyText, h1, h3], by rw [ofJsonEntries, h2, h4]⟩

end

mutual

/-- A JSON document is written as itself. -/
theorem toJson_ofJson : ∀ j : Doc, (ofJson j).toJson = some j
  | .null => rfl
  | .bool _ => rfl
  | .num (.posInt _) => rfl
  | .num (.negInt _) => rfl
  | .num (.float ⟨x, hx⟩) => by
      have hf : numberToJson (.float x) = .num (.float ⟨x, hx⟩) := dif_pos hx
      exact congrArg some hf
  | .str _ => rfl
  | .arr xs => by rw [ofJson, toJson, listToJson_ofJsonList xs]; rfl
  | .obj kvs => by rw [ofJson, toJson, entriesToJson_ofJsonEntries kvs]; rfl

theorem listToJson_ofJsonList : ∀ xs : List Doc, listToJson (ofJsonList xs) = some xs
  | [] => rfl
  | x :: xs => by
      rw [ofJsonList, listToJson, toJson_ofJson x, listToJson_ofJsonList xs]
      rfl

theorem entriesToJson_ofJsonEntries : ∀ kvs : List (String × Doc),
    entriesToJson (ofJsonEntries kvs) = some kvs
  | [] => rfl
  | (k, v) :: kvs => by
      rw [ofJsonEntries, entriesToJson, toJson_ofJson v, entriesToJson_ofJsonEntries kvs]
      rfl

end

end

/-! ## Bytes -/

/-- The text of a document, as bytes. -/
def jsonBytes [FloatText] (j : Doc) : List UInt8 := (String.ofList j.print).toUTF8.data.toList

/-- The text determines the document. -/
theorem jsonBytes_injective [FloatText] : Function.Injective jsonBytes := by
  intro i j h
  have hbytes : (String.ofList i.print).toUTF8 = (String.ofList j.print).toUTF8 :=
    ByteArray.ext (Array.toList_inj.mp h)
  exact Json.print_injective (String.ofList_inj.mp (String.toByteArray_inj.mp hbytes))

end Value

end SynchrotronCD
