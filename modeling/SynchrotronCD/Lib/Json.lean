import Mathlib.Logic.Function.Basic
import Mathlib.Data.List.Basic

/-!
# Compact JSON text

A JSON tree over an arbitrary type of numbers, its compact text, and the fact
that the text determines the tree. The text has no white space; strings escape
the quote, the backslash and the control characters and nothing else; object
members are printed in the order the tree holds them.

How numbers look is a parameter (`NumberText`): any injective printer into the
characters a JSON number is made of will do. Since no structural character is a
number character, a printed value always ends where the next structural
character begins, and `print_inj_of_ends` follows by induction on the tree.
-/

namespace Lib

/-- A JSON tree with numbers from `N`. -/
inductive Json (N : Type) where
  | null
  | bool (b : Bool)
  | num (n : N)
  | str (s : String)
  | arr (xs : List (Json N))
  | obj (kvs : List (String × Json N))

/-- The characters a JSON number is made of. -/
def isNumberChar (c : Char) : Bool := c.isDigit || c ∈ ['-', '+', '.', 'e', 'E']

/-- A printer for numbers whose text tells them apart. -/
class NumberText (N : Type) where
  print : N → List Char
  ne_nil : ∀ n, print n ≠ []
  chars : ∀ n, ∀ c ∈ print n, isNumberChar c = true
  inj : Function.Injective print

namespace Json

/-! ## Strings -/

def hexDigit (n : Nat) : Char := (['0', '1', '2', '3', '4', '5', '6', '7', '8', '9', 'a', 'b', 'c',
  'd', 'e', 'f'][n]?).getD '0'

/-- The text of one character inside a string. -/
def escape (c : Char) : List Char :=
  if c = '"' then ['\\', '"']
  else if c = '\\' then ['\\', '\\']
  else if c.toNat = 8 then ['\\', 'b']
  else if c.toNat = 9 then ['\\', 't']
  else if c.toNat = 10 then ['\\', 'n']
  else if c.toNat = 12 then ['\\', 'f']
  else if c.toNat = 13 then ['\\', 'r']
  else if c.toNat < 32 then
    ['\\', 'u', '0', '0', hexDigit (c.toNat / 16), hexDigit (c.toNat % 16)]
  else [c]

/-- A string literal. -/
def quote (s : String) : List Char := '"' :: (s.toList.flatMap escape ++ ['"'])

/-! ## Trees -/

variable {N : Type} [NumberText N]

mutual

/-- The compact text of a tree. -/
def print : Json N → List Char
  | .null => ['n', 'u', 'l', 'l']
  | .bool true => ['t', 'r', 'u', 'e']
  | .bool false => ['f', 'a', 'l', 's', 'e']
  | .num n => NumberText.print n
  | .str s => quote s
  | .arr [] => ['[', ']']
  | .arr (x :: xs) => '[' :: (print x ++ printElems xs)
  | .obj [] => ['{', '}']
  | .obj ((k, v) :: kvs) => '{' :: (quote k ++ ':' :: (print v ++ printMembers kvs))

/-- The elements after the first, and the closing bracket. -/
def printElems : List (Json N) → List Char
  | [] => [']']
  | x :: xs => ',' :: (print x ++ printElems xs)

/-- The members after the first, and the closing brace. -/
def printMembers : List (String × Json N) → List Char
  | [] => ['}']
  | (k, v) :: kvs => ',' :: (quote k ++ ':' :: (print v ++ printMembers kvs))

end

/-! ## Strings are read back -/

def hexValue (c : Char) : Nat := if c.isDigit then c.toNat - 48 else c.toNat - 87

/-- Read one escaped character off the front of a text. -/
def unescape : List Char → Option (Char × List Char)
  | '\\' :: '"' :: r => some ('"', r)
  | '\\' :: '\\' :: r => some ('\\', r)
  | '\\' :: 'b' :: r => some (Char.ofNat 8, r)
  | '\\' :: 't' :: r => some (Char.ofNat 9, r)
  | '\\' :: 'n' :: r => some (Char.ofNat 10, r)
  | '\\' :: 'f' :: r => some (Char.ofNat 12, r)
  | '\\' :: 'r' :: r => some (Char.ofNat 13, r)
  | '\\' :: 'u' :: _ :: _ :: h :: l :: r => some (Char.ofNat (16 * hexValue h + hexValue l), r)
  | c :: r => some (c, r)
  | [] => none

theorem hexValue_hexDigit : ∀ n : Fin 16, hexValue (hexDigit n) = n := by decide

theorem unescape_escape (c : Char) (r : List Char) : unescape (escape c ++ r) = some (c, r) := by
  have hc : ∀ n, c.toNat = n → c = Char.ofNat n := fun n h => by rw [← h, Char.ofNat_toNat]
  unfold escape
  split
  · rename_i h; rw [h]; rfl
  split
  · rename_i h; rw [h]; rfl
  split
  · rename_i h; rw [hc _ h]; rfl
  split
  · rename_i h; rw [hc _ h]; rfl
  split
  · rename_i h; rw [hc _ h]; rfl
  split
  · rename_i h; rw [hc _ h]; rfl
  split
  · rename_i h; rw [hc _ h]; rfl
  split
  · -- a control character without a short form: its code in two hexadecimal digits
    rename_i h
    have h1 := hexValue_hexDigit ⟨c.toNat / 16, by omega⟩
    have h2 := hexValue_hexDigit ⟨c.toNat % 16, by omega⟩
    dsimp only at h1 h2
    have : 16 * (c.toNat / 16) + c.toNat % 16 = c.toNat := by omega
    simp [unescape, h1, h2, this]
  · rename_i h1 h2 _ _ _ _ _ _
    rw [List.singleton_append]
    unfold unescape
    split <;> simp_all

theorem escape_head (c : Char) : ∃ d ds, escape c = d :: ds ∧ d ≠ '"' := by
  unfold escape
  split
  · exact ⟨_, _, rfl, by decide⟩
  rename_i h
  repeat' split
  all_goals first | exact ⟨_, _, rfl, by decide⟩ | exact ⟨_, _, rfl, h⟩

/-- A string ends at its first unescaped quote. -/
theorem escapeAll_inj : ∀ {cs ds r s : List Char},
    cs.flatMap escape ++ '"' :: r = ds.flatMap escape ++ '"' :: s → cs = ds ∧ r = s := by
  intro cs
  induction cs with
  | nil =>
      intro ds r s h
      cases ds with
      | nil => exact ⟨rfl, by simpa using h⟩
      | cons d ds =>
          obtain ⟨x, xs, hx, hq⟩ := escape_head d
          rw [List.flatMap_cons, hx] at h
          simp only [List.flatMap_nil, List.nil_append, List.cons_append] at h
          exact absurd (List.cons.inj h).1.symm hq
  | cons c cs ih =>
      intro ds r s h
      cases ds with
      | nil =>
          obtain ⟨x, xs, hx, hq⟩ := escape_head c
          rw [List.flatMap_cons, hx] at h
          simp only [List.flatMap_nil, List.nil_append, List.cons_append] at h
          exact absurd (List.cons.inj h).1 hq
      | cons d ds =>
          -- read one character back from both sides
          rw [List.flatMap_cons, List.flatMap_cons, List.append_assoc, List.append_assoc] at h
          have hread := congrArg unescape h
          rw [unescape_escape, unescape_escape] at hread
          simp only [Option.some.injEq, Prod.mk.injEq] at hread
          obtain ⟨hcs, hr⟩ := ih hread.2
          exact ⟨by rw [hread.1, hcs], hr⟩

theorem quote_inj {s t : String} {r r' : List Char} (h : quote s ++ r = quote t ++ r') :
    s = t ∧ r = r' := by
  unfold quote at h
  simp only [List.cons_append, List.append_assoc, List.cons.injEq, true_and, List.nil_append] at h
  obtain ⟨hs, hr⟩ := escapeAll_inj h
  exact ⟨String.toList_inj.mp hs, hr⟩

/-! ## Trees are determined by their text -/

/-- The rest of a text does not continue a number. -/
def Ends (r : List Char) : Prop := ∀ c ∈ r.head?, isNumberChar c = false

theorem ends_cons {c : Char} {r : List Char} (h : isNumberChar c = false) : Ends (c :: r) := by
  intro d hd
  obtain rfl : c = d := by simpa using hd
  exact h

/-- Two runs of number characters, each followed by something else, end together. -/
theorem numberChars_inj : ∀ {a b r s : List Char}, (∀ c ∈ a, isNumberChar c = true) →
    (∀ c ∈ b, isNumberChar c = true) → Ends r → Ends s → a ++ r = b ++ s → a = b ∧ r = s := by
  intro a
  induction a with
  | nil =>
      intro b r s _ hb hr _ h
      cases b with
      | nil => exact ⟨rfl, by simpa using h⟩
      | cons d b =>
          have hd : isNumberChar d = false := hr d (by rw [List.nil_append] at h; simp [h])
          rw [hb d List.mem_cons_self] at hd
          exact absurd hd (by simp)
  | cons c a ih =>
      intro b r s ha hb hr hs h
      cases b with
      | nil =>
          have hc : isNumberChar c = false := hs c (by rw [List.nil_append] at h; simp [← h])
          rw [ha c List.mem_cons_self] at hc
          exact absurd hc (by simp)
      | cons d b =>
          simp only [List.cons_append, List.cons.injEq] at h
          have ha' : ∀ c ∈ a, isNumberChar c = true := fun c hc => ha c (List.mem_cons_of_mem _ hc)
          have hb' : ∀ c ∈ b, isNumberChar c = true := fun c hc => hb c (List.mem_cons_of_mem _ hc)
          obtain ⟨h1, h2⟩ := ih ha' hb' hr hs h.2
          exact ⟨by rw [h.1, h1], h2⟩

/-- A number ends at the first character no number contains. -/
theorem number_inj {n m : N} {r s : List Char} (hr : Ends r) (hs : Ends s)
    (h : NumberText.print n ++ r = NumberText.print m ++ s) : n = m ∧ r = s := by
  obtain ⟨h1, h2⟩ := numberChars_inj (NumberText.chars n) (NumberText.chars m) hr hs h
  exact ⟨NumberText.inj h1, h2⟩

/-- What the first character of a text says about the tree. -/
def lead : Json N → Nat
  | .null => 0
  | .bool true => 1
  | .bool false => 2
  | .num _ => 3
  | .str _ => 4
  | .arr _ => 5
  | .obj _ => 6

def leadChar (c : Char) : Nat :=
  if c = 'n' then 0 else if c = 't' then 1 else if c = 'f' then 2 else if c = '"' then 4
  else if c = '[' then 5 else if c = '{' then 6 else 3

theorem leadChar_number {c : Char} (h : isNumberChar c = true) : leadChar c = 3 := by
  have hne : ∀ d, isNumberChar d = false → c ≠ d := by
    intro d hd hm
    subst hm
    rw [h] at hd
    exact absurd hd (by simp)
  simp [leadChar, hne 'n' (by decide), hne 't' (by decide), hne 'f' (by decide),
    hne '"' (by decide), hne '[' (by decide), hne '{' (by decide)]

theorem print_lead (v : Json N) (r : List Char) :
    ((print v ++ r).head?).map leadChar = some (lead v) := by
  match v with
  | .null => rfl
  | .bool true => rfl
  | .bool false => rfl
  | .num n =>
      rw [print]
      cases hp : NumberText.print n with
      | nil => exact absurd hp (NumberText.ne_nil n)
      | cons c cs =>
          have hc := NumberText.chars n c (by rw [hp]; exact List.mem_cons_self)
          simp [lead, leadChar_number hc]
  | .str s => rfl
  | .arr [] => rfl
  | .arr (x :: xs) => rw [print]; rfl
  | .obj [] => rfl
  | .obj ((k, w) :: kvs) => rw [print]; rfl

/-- A value does not begin with a closing bracket. -/
theorem print_ne_bracket (v : Json N) {r s : List Char} (h : print v ++ r = ']' :: s) : False := by
  have hl := print_lead v r
  rw [h] at hl
  have : lead v = 3 := by simpa [leadChar] using hl.symm
  match v with
  | .num n =>
      rw [print] at h
      cases hp : NumberText.print n with
      | nil => exact NumberText.ne_nil n hp
      | cons c cs =>
          rw [hp, List.cons_append] at h
          have hc := NumberText.chars n c (by rw [hp]; exact List.mem_cons_self)
          rw [(List.cons.inj h).1] at hc
          exact absurd hc (by decide)
  | .null | .bool true | .bool false | .str _ | .arr _ | .obj _ => simp [lead] at this

theorem ends_elems (xs : List (Json N)) (r : List Char) : Ends (printElems xs ++ r) := by
  cases xs with
  | nil => exact ends_cons (by decide)
  | cons x xs => rw [printElems]; exact ends_cons (by decide)

theorem ends_members (kvs : List (String × Json N)) (r : List Char) :
    Ends (printMembers kvs ++ r) := by
  cases kvs with
  | nil => exact ends_cons (by decide)
  | cons x xs => obtain ⟨k, v⟩ := x; rw [printMembers]; exact ends_cons (by decide)

mutual

/-- **The text of a tree determines the tree, and where it ends**, unless it is a number that
what follows could continue. -/
theorem print_inj_of_ends : ∀ (v w : Json N) {r s : List Char},
    (∀ n m, v = .num n → w = .num m → Ends r ∧ Ends s) → print v ++ r = print w ++ s →
    v = w ∧ r = s
  | v, w, r, s, hends, h => by
      -- the first character settles the constructor
      have hl : lead v = lead w := by
        have h1 := print_lead v r
        rw [h, print_lead w s] at h1
        exact (Option.some.inj h1).symm
      match v, w with
      | .null, .null => exact ⟨rfl, by simpa [print] using h⟩
      | .bool true, .bool true => exact ⟨rfl, by simpa [print] using h⟩
      | .bool false, .bool false => exact ⟨rfl, by simpa [print] using h⟩
      | .num n, .num m =>
          rw [print, print] at h
          obtain ⟨hr, hs⟩ := hends n m rfl rfl
          obtain ⟨h1, h2⟩ := number_inj hr hs h
          exact ⟨by rw [h1], h2⟩
      | .str a, .str b =>
          rw [print, print] at h
          obtain ⟨h1, h2⟩ := quote_inj h
          exact ⟨by rw [h1], h2⟩
      | .arr [], .arr [] => exact ⟨rfl, by simpa [print] using h⟩
      | .arr [], .arr (y :: ys) =>
          -- an empty array closes at once, and no element begins like that
          exfalso
          simp only [print, List.cons_append, List.nil_append, List.cons.injEq, true_and,
            List.append_assoc] at h
          exact print_ne_bracket y h.symm
      | .arr (x :: xs), .arr [] =>
          exfalso
          simp only [print, List.cons_append, List.nil_append, List.cons.injEq, true_and,
            List.append_assoc] at h
          exact print_ne_bracket x h
      | .arr (x :: xs), .arr (y :: ys) =>
          simp only [print, List.cons_append, List.cons.injEq, true_and, List.append_assoc] at h
          obtain ⟨h1, h2⟩ :=
            print_inj_of_ends x y (fun _ _ _ _ => ⟨ends_elems xs r, ends_elems ys s⟩) h
          obtain ⟨h3, h4⟩ := printElems_inj xs ys h2
          exact ⟨by rw [h1, h3], h4⟩
      | .obj [], .obj [] => exact ⟨rfl, by simpa [print] using h⟩
      | .obj [], .obj ((k, y) :: ys) =>
          -- a member begins with the quote of its key
          exfalso
          simp [print, quote] at h
      | .obj ((k, x) :: xs), .obj [] =>
          exfalso
          simp [print, quote] at h
      | .obj ((k, x) :: xs), .obj ((l, y) :: ys) =>
          simp only [print, List.cons_append, List.cons.injEq, true_and, List.append_assoc] at h
          obtain ⟨hk, h⟩ := quote_inj h
          simp only [List.cons.injEq, true_and] at h
          obtain ⟨h1, h2⟩ :=
            print_inj_of_ends x y (fun _ _ _ _ => ⟨ends_members xs r, ends_members ys s⟩) h
          obtain ⟨h3, h4⟩ := printMembers_inj xs ys h2
          exact ⟨by rw [hk, h1, h3], h4⟩

theorem printElems_inj : ∀ (xs ys : List (Json N)) {r s : List Char},
    printElems xs ++ r = printElems ys ++ s → xs = ys ∧ r = s
  | [], [], r, s, h => ⟨rfl, by simpa [printElems] using h⟩
  | [], y :: ys, r, s, h => by simp [printElems] at h
  | x :: xs, [], r, s, h => by simp [printElems] at h
  | x :: xs, y :: ys, r, s, h => by
      simp only [printElems, List.cons_append, List.cons.injEq, true_and, List.append_assoc] at h
      obtain ⟨h1, h2⟩ := print_inj_of_ends x y (fun _ _ _ _ => ⟨ends_elems xs r, ends_elems ys s⟩) h
      obtain ⟨h3, h4⟩ := printElems_inj xs ys h2
      exact ⟨by rw [h1, h3], h4⟩

theorem printMembers_inj : ∀ (xs ys : List (String × Json N)) {r s : List Char},
    printMembers xs ++ r = printMembers ys ++ s → xs = ys ∧ r = s
  | [], [], r, s, h => ⟨rfl, by simpa [printMembers] using h⟩
  | [], (k, y) :: ys, r, s, h => by simp [printMembers] at h
  | (k, x) :: xs, [], r, s, h => by simp [printMembers] at h
  | (k, x) :: xs, (l, y) :: ys, r, s, h => by
      simp only [printMembers, List.cons_append, List.cons.injEq, true_and, List.append_assoc] at h
      obtain ⟨hk, h⟩ := quote_inj h
      simp only [List.cons.injEq, true_and] at h
      obtain ⟨h1, h2⟩ :=
        print_inj_of_ends x y (fun _ _ _ _ => ⟨ends_members xs r, ends_members ys s⟩) h
      obtain ⟨h3, h4⟩ := printMembers_inj xs ys h2
      exact ⟨by rw [hk, h1, h3], h4⟩

end

theorem print_injective : Function.Injective (print : Json N → List Char) := by
  intro v w h
  have hnil : Ends [] := by intro c hc; simp at hc
  exact (print_inj_of_ends v w (fun _ _ _ _ => ⟨hnil, hnil⟩) (by rw [h])).1

end Json

end Lib
