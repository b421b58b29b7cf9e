import Mathlib.Algebra.Order.BigOperators.Group.List
import Mathlib.Algebra.Order.Ring.Nat
import SynchrotronCD.Lib.Json

/-!
# Objects written without escaping

A program that writes an object of strings by putting quotes around keys and values
gets the object's text only if nothing in it had to be escaped, and nothing but
strings was to be written (`unescaped_eq_print_iff`).

The argument counts. Escaping neither adds nor removes a quote, so every value that is
not a string leaves the written text two quotes ahead; and it never makes a
text shorter, so every character that is escaped leaves it behind in length. Neither
count depends on the order of the members.
-/

namespace Lib.Json

/-! ## Texts that are not escaped -/

/-- Nothing in the text has to be escaped. -/
def Plain (s : String) : Prop := ∀ c ∈ s.toList, escape c = [c]

theorem hexDigit_ne_quote (n : Nat) : hexDigit n ≠ '"' := by
  unfold hexDigit
  cases h : (['0', '1', '2', '3', '4', '5', '6', '7', '8', '9', 'a', 'b', 'c', 'd', 'e', 'f'])[n]? with
  | none => decide
  | some d =>
      have hmem := List.mem_of_getElem? h
      rintro rfl
      exact absurd hmem (by decide)

/-- Escaping neither adds nor removes a quote. -/
theorem count_escape (c : Char) : (escape c).count '"' = [c].count '"' := by
  by_cases hc : c = '"'
  · rw [hc]
    decide
  · have hzero : [c].count '"' = 0 := by simp [List.count_eq_zero, Ne.symm hc]
    rw [hzero, List.count_eq_zero]
    unfold escape
    grind [hexDigit_ne_quote]

theorem length_escape (c : Char) : 1 ≤ (escape c).length := by
  unfold escape
  grind

theorem escape_of_length {c : Char} (h : (escape c).length ≤ 1) : escape c = [c] := by
  unfold escape at h ⊢
  grind

theorem count_flatMap_escape (cs : List Char) :
    (cs.flatMap escape).count '"' = cs.count '"' := by
  induction cs with
  | nil => rfl
  | cons c cs ih =>
      rw [List.flatMap_cons, List.count_append, count_escape, ih, ← List.count_append]
      rfl

theorem length_flatMap_escape (cs : List Char) : cs.length ≤ (cs.flatMap escape).length := by
  induction cs with
  | nil => exact le_refl _
  | cons c cs ih =>
      have hc := length_escape c
      rw [List.flatMap_cons, List.length_append, List.length_cons]
      omega

/-- A text that got no longer was not escaped. -/
theorem plain_of_length {s : String} (h : (s.toList.flatMap escape).length ≤ s.toList.length) :
    Plain s := by
  have hall : ∀ cs : List Char, (cs.flatMap escape).length ≤ cs.length →
      ∀ c ∈ cs, escape c = [c] := by
    intro cs
    induction cs with
    | nil => simp
    | cons c cs ih =>
        intro h d hd
        rw [List.flatMap_cons, List.length_append, List.length_cons] at h
        have hc := length_escape c
        have hcs := length_flatMap_escape cs
        rcases List.mem_cons.mp hd with rfl | hd
        · exact escape_of_length (by omega)
        · exact ih (by omega) d hd
  exact hall s.toList h

theorem Plain.flatMap_escape {s : String} (h : Plain s) : s.toList.flatMap escape = s.toList := by
  rw [List.flatMap_congr h, List.flatMap_singleton']

/-! ## Objects -/

variable {N : Type} [NumberText N]

/-- Members between braces. -/
def braced : List (List Char) → List Char
  | [] => ['{', '}']
  | m :: ms => '{' :: (m ++ (ms.flatMap (',' :: ·) ++ ['}']))

/-- The text of a member. -/
def member (kv : String × Json N) : List Char := quote kv.1 ++ ':' :: print kv.2

/-- A member with a string for its value, with nothing escaped. -/
def unescapedMember (k s : String) : List Char :=
  '"' :: (k.toList ++ '"' :: ':' :: '"' :: (s.toList ++ ['"']))

theorem printMembers_eq (kvs : List (String × Json N)) :
    printMembers kvs = (kvs.map member).flatMap (',' :: ·) ++ ['}'] := by
  induction kvs with
  | nil => rfl
  | cons kv kvs ih =>
      obtain ⟨k, v⟩ := kv
      rw [printMembers, ih]
      simp [member]

theorem print_obj (kvs : List (String × Json N)) : print (.obj kvs) = braced (kvs.map member) := by
  cases kvs with
  | nil => rfl
  | cons kv kvs =>
      obtain ⟨k, v⟩ := kv
      rw [print, printMembers_eq]
      simp [member, braced]

theorem count_braced (ms : List (List Char)) :
    (braced ms).count '"' = (ms.map (·.count '"')).sum := by
  have hjoin : ∀ ms : List (List Char),
      (ms.flatMap (',' :: ·)).count '"' = (ms.map (·.count '"')).sum := by
    intro ms
    induction ms with
    | nil => rfl
    | cons m ms ih => simp [List.flatMap_cons, List.count_append, ih]
  cases ms with
  | nil => rfl
  | cons m ms => simp [braced, List.count_append, hjoin]

theorem length_braced (ms : List (List Char)) :
    (braced ms).length = 1 + max 1 ms.length + (ms.map List.length).sum := by
  have hjoin : ∀ ms : List (List Char),
      (ms.flatMap (',' :: ·)).length = ms.length + (ms.map List.length).sum := by
    intro ms
    induction ms with
    | nil => rfl
    | cons m ms ih =>
        rw [List.flatMap_cons, List.length_append, ih]
        simp
        omega
  cases ms with
  | nil => rfl
  | cons m ms =>
      rw [braced, List.length_cons, List.length_append, List.length_append, hjoin]
      simp
      omega

/-- Two sums that are equal though no term of one is more than that of the other. -/
theorem eq_of_sum_eq {α : Type} {f g : α → Nat} {xs : List α} (hle : ∀ x ∈ xs, f x ≤ g x)
    (hsum : (xs.map f).sum = (xs.map g).sum) : ∀ x ∈ xs, f x = g x := by
  intro x hx
  by_contra hne
  have hlt := List.sum_lt_sum f g hle ⟨x, hx, lt_of_le_of_ne (hle x hx) hne⟩
  exact absurd hsum (ne_of_lt hlt)

theorem count_unescapedMember (k s : String) :
    (unescapedMember k s).count '"' = 4 + k.toList.count '"' + s.toList.count '"' := by
  simp [unescapedMember, List.count_append]
  omega

theorem count_quote (s : String) : (quote s).count '"' = 2 + s.toList.count '"' := by
  simp [quote, List.count_append, count_flatMap_escape]
  omega

theorem length_quote (s : String) : (quote s).length = 2 + (s.toList.flatMap escape).length := by
  simp only [quote, List.length_cons, List.length_append, List.length_nil]
  omega

theorem unescapedMember_plain {k s : String} (hk : Plain k) (hs : Plain s) :
    unescapedMember k s = member (k, (.str s : Json N)) := by
  simp [unescapedMember, member, print, quote, hk.flatMap_escape, hs.flatMap_escape]

/-- An object written with `text` in quotes for every value, and nothing escaped. -/
def unescaped (text : Json N → String) (kvs : List (String × Json N)) : List Char :=
  braced (kvs.map fun kv => unescapedMember kv.1 (text kv.2))

section

variable {text : Json N → String} {kvs kvs' : List (String × Json N)}

/-- By the number of quotes, every value was a string. -/
theorem strings_of_unescaped_eq (htext : ∀ s, text (.str s) = s) (hperm : kvs'.Perm kvs)
    (hquotes : ∀ kv ∈ kvs, (∃ s, kv.2 = .str s) ∨ (print kv.2).count '"' = 0)
    (h : unescaped text kvs' = print (.obj kvs)) : ∀ kv ∈ kvs, ∃ s, kv.2 = .str s := by
  have hcount := congrArg (List.count '"') h
  rw [unescaped, print_obj, count_braced, count_braced, List.map_map, List.map_map,
    (hperm.map _).sum_eq] at hcount
  have hmember : ∀ kv : String × Json N, (member kv).count '"'
      = 2 + kv.1.toList.count '"' + (print kv.2).count '"' := by
    intro kv
    simp [member, List.count_append, count_quote]
  have hle : ∀ kv ∈ kvs, (member kv).count '"' ≤ (unescapedMember kv.1 (text kv.2)).count '"' := by
    intro kv hkv
    rw [count_unescapedMember, hmember]
    rcases hquotes kv hkv with ⟨s, hs⟩ | hnone
    · rw [hs, htext, print, count_quote]
      omega
    · omega
  intro kv hkv
  have heq : (member kv).count '"' = (unescapedMember kv.1 (text kv.2)).count '"' :=
    eq_of_sum_eq hle hcount.symm kv hkv
  refine (hquotes kv hkv).resolve_right fun hnone => ?_
  rw [count_unescapedMember, hmember] at heq
  omega

/-- By the length, nothing was escaped. -/
theorem plain_of_unescaped_eq (htext : ∀ s, text (.str s) = s) (hperm : kvs'.Perm kvs)
    (hstr : ∀ kv ∈ kvs, ∃ s, kv.2 = .str s) (h : unescaped text kvs' = print (.obj kvs)) :
    ∀ kv ∈ kvs, Plain kv.1 ∧ Plain (text kv.2) := by
  have hlength := congrArg List.length h
  rw [unescaped, print_obj, length_braced, length_braced, List.length_map, List.length_map,
    hperm.length_eq, List.map_map, List.map_map, (hperm.map _).sum_eq] at hlength
  have hunescaped : ∀ kv ∈ kvs, (unescapedMember kv.1 (text kv.2)).length
      = 5 + kv.1.toList.length + (text kv.2).toList.length := by
    intro kv _
    simp only [unescapedMember, List.length_cons, List.length_append, List.length_nil]
    omega
  have hmember : ∀ kv ∈ kvs, (member kv).length
      = 5 + (kv.1.toList.flatMap escape).length + ((text kv.2).toList.flatMap escape).length := by
    intro kv hkv
    obtain ⟨s, hs⟩ := hstr kv hkv
    rw [member, hs, htext, print, List.length_append, List.length_cons, length_quote, length_quote]
    omega
  have hle : ∀ kv ∈ kvs, (unescapedMember kv.1 (text kv.2)).length ≤ (member kv).length := by
    intro kv hkv
    have hk := length_flatMap_escape kv.1.toList
    have ht := length_flatMap_escape (text kv.2).toList
    rw [hunescaped kv hkv, hmember kv hkv]
    omega
  intro kv hkv
  have heq : (unescapedMember kv.1 (text kv.2)).length = (member kv).length :=
    eq_of_sum_eq hle (Nat.add_left_cancel hlength) kv hkv
  have hk := length_flatMap_escape kv.1.toList
  have ht := length_flatMap_escape (text kv.2).toList
  rw [hunescaped kv hkv, hmember kv hkv] at heq
  exact ⟨plain_of_length (by omega), plain_of_length (by omega)⟩

theorem unescaped_plain (htext : ∀ s, text (.str s) = s)
    (h : ∀ kv ∈ kvs, Plain kv.1 ∧ ∃ s, kv.2 = .str s ∧ Plain s) :
    unescaped text kvs = print (.obj kvs) := by
  rw [unescaped, print_obj]
  refine congrArg braced (List.map_congr_left fun kv hkv => ?_)
  obtain ⟨k, v⟩ := kv
  obtain ⟨hk, s, rfl, hs⟩ := h _ hkv
  rw [htext]
  exact unescapedMember_plain hk hs

/-- **Writing an object of texts without escaping gives the text of the object exactly when its
values are strings, nothing is escaped, and the members are in the same order.** -/
theorem unescaped_eq_print_iff (htext : ∀ s, text (.str s) = s) (hperm : kvs'.Perm kvs)
    (hquotes : ∀ kv ∈ kvs, (∃ s, kv.2 = .str s) ∨ (print kv.2).count '"' = 0) :
    unescaped text kvs' = print (.obj kvs) ↔
      kvs' = kvs ∧ ∀ kv ∈ kvs, Plain kv.1 ∧ ∃ s, kv.2 = .str s ∧ Plain s := by
  refine ⟨fun h => ?_, ?_⟩
  · have hstr := strings_of_unescaped_eq htext hperm hquotes h
    have hplain := plain_of_unescaped_eq htext hperm hstr h
    have hall : ∀ kv ∈ kvs, Plain kv.1 ∧ ∃ s, kv.2 = .str s ∧ Plain s := by
      intro kv hkv
      obtain ⟨s, hs⟩ := hstr kv hkv
      obtain ⟨hk, ht⟩ := hplain kv hkv
      rw [hs, htext] at ht
      exact ⟨hk, s, hs, ht⟩
    -- so what was written is the text of an object as well, and that determines the object
    have hobj := unescaped_plain htext fun kv hkv => hall kv (hperm.mem_iff.mp hkv)
    have hinj := print_injective (hobj.symm.trans h)
    exact ⟨Json.obj.inj hinj, hall⟩
  · rintro ⟨rfl, hall⟩
    exact unescaped_plain htext hall

end

end Lib.Json
