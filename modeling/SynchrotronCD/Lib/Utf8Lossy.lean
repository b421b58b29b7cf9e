import Mathlib.Data.List.Induction
import SynchrotronCD.Lib.Utf8

/-!
# UTF-8 that may be broken

Bytes read as a text although they may be none: every maximal piece that no character
begins with, or that breaks off, is read as one replacement character. Where the bytes
are those of a text the reading is that text (`lossy_utf8`).

A text that arrives in chunks, each read on its own, is the text if no chunk begins inside
a character (`flatMap_lossy`), and what breaks off is the front of it.
-/

namespace Lib

/-- What stands for bytes that are no character. -/
def replacement : Char := '\uFFFD'

/-- A character that was begun: the number its bytes say so far, how many are missing, and
between which bounds the next one is. -/
structure Begun where
  acc : Nat
  missing : Nat
  lo : Nat
  hi : Nat
  /-- Only a continuation byte goes on. -/
  lo_ge : 128 ≤ lo
  hi_lt : hi < 192

/-- What a byte begins that is no character of its own. -/
def beginWide (b : Nat) : Option Begun :=
  if 0xC2 ≤ b ∧ b ≤ 0xDF then some ⟨b - 0xC0, 1, 0x80, 0xBF, by omega, by omega⟩
  else if b = 0xE0 then some ⟨0, 2, 0xA0, 0xBF, by omega, by omega⟩
  else if b = 0xED then some ⟨0xD, 2, 0x80, 0x9F, by omega, by omega⟩
  else if 0xE1 ≤ b ∧ b ≤ 0xEF then some ⟨b - 0xE0, 2, 0x80, 0xBF, by omega, by omega⟩
  else if b = 0xF0 then some ⟨0, 3, 0x90, 0xBF, by omega, by omega⟩
  else if b = 0xF4 then some ⟨4, 3, 0x80, 0x8F, by omega, by omega⟩
  else if 0xF1 ≤ b ∧ b ≤ 0xF3 then some ⟨b - 0xF0, 3, 0x80, 0xBF, by omega, by omega⟩
  else none

/-- The characters a byte completes where none was begun, and what it begins. -/
def first (b : UInt8) : List Char × Option Begun :=
  if b.toNat < 0x80 then ([Char.ofNat b.toNat], none)
  else
    match beginWide b.toNat with
    | some p => ([], some p)
    | none => ([replacement], none)

/-- The reading of bytes, after those of a character that was begun. -/
def lossyFrom : Option Begun → List UInt8 → List Char
  | none, [] => []
  | some _, [] => [replacement]
  | none, b :: bs => (first b).1 ++ lossyFrom (first b).2 bs
  | some p, b :: bs =>
    if p.lo ≤ b.toNat ∧ b.toNat ≤ p.hi then
      if p.missing ≤ 1 then Char.ofNat (p.acc * 64 + (b.toNat - 0x80)) :: lossyFrom none bs
      else
        lossyFrom (some ⟨p.acc * 64 + (b.toNat - 0x80), p.missing - 1, 0x80, 0xBF, by omega,
          by omega⟩) bs
    else replacement :: ((first b).1 ++ lossyFrom (first b).2 bs)

def lossy (bs : List UInt8) : List Char := lossyFrom none bs

/-! ## The bytes of a text -/

theorem utf8_cons (c : Char) (cs : List Char) :
    utf8 (c :: cs) = String.utf8EncodeChar c ++ utf8 cs := by
  simp [utf8_eq, List.utf8Encode]

theorem toNat_ofNat {n : Nat} (h : n < 256) : (UInt8.ofNat n).toNat = n := by
  rw [UInt8.toNat_ofNat']
  omega

/-- The begun character with one more byte. -/
def Begun.next (p : Begun) (v : Nat) : Begun :=
  ⟨p.acc * 64 + v % 64, p.missing - 1, 0x80, 0xBF, by omega, by omega⟩

theorem lossyFrom_next {p : Begun} {v : Nat} (hm : 2 ≤ p.missing) (hlo : p.lo ≤ v % 64 + 128)
    (hhi : v % 64 + 128 ≤ p.hi) (bs : List UInt8) :
    lossyFrom (some p) (UInt8.ofNat (v % 64 + 128) :: bs) = lossyFrom (some (p.next v)) bs := by
  have hb : (UInt8.ofNat (v % 64 + 128)).toNat = v % 64 + 128 := toNat_ofNat (by omega)
  have hv : v % 64 + 128 - 0x80 = v % 64 := by omega
  rw [lossyFrom]
  simp only [hb, hv]
  rw [if_pos ⟨hlo, hhi⟩, if_neg (by omega)]
  rfl

theorem lossyFrom_last {p : Begun} {v : Nat} (hm : p.missing = 1) (hlo : p.lo ≤ v % 64 + 128)
    (hhi : v % 64 + 128 ≤ p.hi) (bs : List UInt8) :
    lossyFrom (some p) (UInt8.ofNat (v % 64 + 128) :: bs)
      = Char.ofNat (p.acc * 64 + v % 64) :: lossyFrom none bs := by
  have hb : (UInt8.ofNat (v % 64 + 128)).toNat = v % 64 + 128 := toNat_ofNat (by omega)
  have hv : v % 64 + 128 - 0x80 = v % 64 := by omega
  rw [lossyFrom]
  simp only [hb, hv]
  rw [if_pos ⟨hlo, hhi⟩, if_pos (by omega)]

theorem lossyFrom_begin {n : Nat} (hn : n < 256) (h : 0x80 ≤ n) {p : Begun}
    (hp : beginWide n = some p) (bs : List UInt8) :
    lossyFrom none (UInt8.ofNat n :: bs) = lossyFrom (some p) bs := by
  have hb : (UInt8.ofNat n).toNat = n := toNat_ofNat hn
  rw [lossyFrom, first, hb, if_neg (by omega), hp]
  rfl

/-- What the first byte of a character of three bytes begins: the bounds of the second exclude
what needs fewer bytes, and the surrogates. -/
theorem beginWide_three {v : Nat} (h : 0x7FF < v) (h' : v ≤ 0xFFFF)
    (hs : v < 0xD800 ∨ 0xDFFF < v) :
    ∃ p, beginWide (v / 4096 % 16 + 0xE0) = some p ∧ p.acc = v / 4096 ∧ p.missing = 2 ∧
      p.lo ≤ v / 64 % 64 + 128 ∧ v / 64 % 64 + 128 ≤ p.hi := by
  have hlead : v / 4096 % 16 = v / 4096 := by omega
  rw [hlead]
  unfold beginWide
  rw [if_neg (by omega)]
  by_cases h0 : v / 4096 = 0
  · rw [if_pos (by omega)]
    exact ⟨_, rfl, h0.symm, rfl, by simp only; omega, by simp only; omega⟩
  · rw [if_neg (by omega)]
    by_cases hd : v / 4096 = 13
    · rw [if_pos (by omega)]
      exact ⟨_, rfl, hd.symm, rfl, by simp only; omega, by simp only; omega⟩
    · rw [if_neg (by omega), if_pos (by omega)]
      exact ⟨_, rfl, by simp only; omega, rfl, by simp only; omega, by simp only; omega⟩

theorem beginWide_four {v : Nat} (h : 0xFFFF < v) (h' : v < 0x110000) :
    ∃ p, beginWide (v / 262144 % 8 + 0xF0) = some p ∧ p.acc = v / 262144 ∧ p.missing = 3 ∧
      p.lo ≤ v / 4096 % 64 + 128 ∧ v / 4096 % 64 + 128 ≤ p.hi := by
  have hlead : v / 262144 % 8 = v / 262144 := by omega
  rw [hlead]
  unfold beginWide
  rw [if_neg (by omega), if_neg (by omega), if_neg (by omega), if_neg (by omega)]
  by_cases h0 : v / 262144 = 0
  · rw [if_pos (by omega)]
    exact ⟨_, rfl, h0.symm, rfl, by simp only; omega, by simp only; omega⟩
  · rw [if_neg (by omega)]
    by_cases h4 : v / 262144 = 4
    · rw [if_pos (by omega)]
      exact ⟨_, rfl, h4.symm, rfl, by simp only; omega, by simp only; omega⟩
    · rw [if_neg (by omega), if_pos (by omega)]
      exact ⟨_, rfl, by simp only; omega, rfl, by simp only; omega, by simp only; omega⟩

/-- **A character is read back,** whatever follows it. -/
theorem lossyFrom_char (c : Char) (bs : List UInt8) :
    lossyFrom none (String.utf8EncodeChar c ++ bs) = c :: lossyFrom none bs := by
  have hvalid : c.val.toNat < 0xD800 ∨ (0xDFFF < c.val.toNat ∧ c.val.toNat < 0x110000) := c.valid
  have hback : ∀ n, n = c.val.toNat → Char.ofNat n = c := by
    rintro n rfl
    exact Char.ofNat_toNat c
  unfold String.utf8EncodeChar
  generalize c.val.toNat = v at hvalid hback ⊢
  by_cases h1 : v ≤ 0x7f
  · have hb : (UInt8.ofNat v).toNat = v := toNat_ofNat (by omega)
    have hfirst : first (UInt8.ofNat v) = ([c], none) := by
      rw [first, hb, if_pos (by omega), hback v rfl]
    simp only [if_pos h1, List.cons_append, List.nil_append]
    rw [lossyFrom, hfirst]
    simp only [List.cons_append, List.nil_append]
  · simp only [if_neg h1]
    by_cases h2 : v ≤ 0x7ff
    · simp only [if_pos h2, List.cons_append, List.nil_append]
      have hlead : beginWide (v / 64 % 32 + 0xc0)
          = some ⟨v / 64, 1, 0x80, 0xBF, by omega, by omega⟩ := by
        have hacc : v / 64 % 32 + 0xc0 - 0xC0 = v / 64 := by omega
        rw [beginWide, if_pos (by omega)]
        simp only [hacc]
      rw [lossyFrom_begin (by omega) (by omega) hlead,
        lossyFrom_last rfl (by simp only; omega) (by simp only; omega)]
      simp only
      rw [hback _ (by omega)]
    · simp only [if_neg h2]
      by_cases h3 : v ≤ 0xffff
      · simp only [if_pos h3, List.cons_append, List.nil_append]
        obtain ⟨p, hlead, hacc, hm, hlo, hhi⟩ :=
          beginWide_three (v := v) (by omega) h3 (by omega)
        rw [lossyFrom_begin (by omega) (by omega) hlead,
          lossyFrom_next (by omega) hlo hhi,
          lossyFrom_last (by simp only [Begun.next]; omega) (by simp only [Begun.next]; omega)
            (by simp only [Begun.next]; omega)]
        simp only [Begun.next]
        rw [hback _ (by omega)]
      · simp only [if_neg h3, List.cons_append, List.nil_append]
        obtain ⟨p, hlead, hacc, hm, hlo, hhi⟩ :=
          beginWide_four (v := v) (by omega) (by omega)
        rw [lossyFrom_begin (by omega) (by omega) hlead,
          lossyFrom_next (by omega) hlo hhi,
          lossyFrom_next (by simp only [Begun.next]; omega) (by simp only [Begun.next]; omega)
            (by simp only [Begun.next]; omega),
          lossyFrom_last (by simp only [Begun.next]; omega) (by simp only [Begun.next]; omega)
            (by simp only [Begun.next]; omega)]
        simp only [Begun.next]
        rw [hback _ (by omega)]

theorem lossy_utf8_append (cs : List Char) (bs : List UInt8) :
    lossy (utf8 cs ++ bs) = cs ++ lossy bs := by
  induction cs with
  | nil => rfl
  | cons c cs ih =>
      rw [utf8_cons, List.append_assoc]
      exact (lossyFrom_char c _).trans (congrArg _ ih)

/-- **The bytes of a text are read as that text.** -/
@[simp] theorem lossy_utf8 (cs : List Char) : lossy (utf8 cs) = cs := by
  have h := lossy_utf8_append cs []
  rwa [List.append_nil, show lossy [] = [] from rfl, List.append_nil] at h

/-! ## Chunks -/

/-- Whether a byte is one that goes on with a character. -/
def continues (b : UInt8) : Bool := decide (0x80 ≤ b.toNat ∧ b.toNat < 0xC0)

/-- The chunk does not begin inside a character. -/
def Whole (chunk : List UInt8) : Prop := ∀ b ∈ chunk.head?, continues b = false

instance (chunk : List UInt8) : Decidable (Whole chunk) :=
  inferInstanceAs (Decidable (∀ b ∈ chunk.head?, continues b = false))

/-- The bytes of a character: only the first one does not go on. -/
theorem utf8EncodeChar_shape (c : Char) : ∃ b tail, String.utf8EncodeChar c = b :: tail ∧
    continues b = false ∧ ∀ t ∈ tail, continues t = true := by
  have hvalid : c.val.toNat < 0xD800 ∨ (0xDFFF < c.val.toNat ∧ c.val.toNat < 0x110000) := c.valid
  have htail : ∀ v, continues (UInt8.ofNat (v % 64 + 128)) = true := by
    intro v
    rw [continues, toNat_ofNat (by omega), decide_eq_true_iff]
    omega
  have hlead : ∀ v, v < 256 → (v < 0x80 ∨ 0xC0 ≤ v) → continues (UInt8.ofNat v) = false := by
    intro v hv h
    rw [continues, toNat_ofNat hv, decide_eq_false_iff_not]
    omega
  unfold String.utf8EncodeChar
  generalize c.val.toNat = v at hvalid ⊢
  by_cases h1 : v ≤ 0x7f
  · exact ⟨_, _, if_pos h1, hlead v (by omega) (by omega), by simp⟩
  · simp only [if_neg h1]
    by_cases h2 : v ≤ 0x7ff
    · refine ⟨_, _, if_pos h2, hlead _ (by omega) (by omega), ?_⟩
      simp only [List.mem_cons, List.not_mem_nil, or_false]
      rintro t rfl
      exact htail _
    · simp only [if_neg h2]
      by_cases h3 : v ≤ 0xffff
      · refine ⟨_, _, if_pos h3, hlead _ (by omega) (by omega), ?_⟩
        simp only [List.mem_cons, List.not_mem_nil, or_false]
        rintro t (rfl | rfl) <;> exact htail _
      · refine ⟨_, _, if_neg h3, hlead _ (by omega) (by omega), ?_⟩
        simp only [List.mem_cons, List.not_mem_nil, or_false]
        rintro t (rfl | rfl | rfl) <;> exact htail _

/-- Bytes that end where no character is under way are those of a text. -/
theorem utf8_split {cs : List Char} {as bs : List UInt8} (h : as ++ bs = utf8 cs)
    (hbs : Whole bs) : ∃ ds es, cs = ds ++ es ∧ as = utf8 ds ∧ bs = utf8 es := by
  induction cs generalizing as with
  | nil =>
      obtain ⟨rfl, rfl⟩ := List.append_eq_nil_iff.mp h
      exact ⟨[], [], rfl, rfl, rfl⟩
  | cons c cs ih =>
      obtain ⟨b, tail, henc, -, htail⟩ := utf8EncodeChar_shape c
      rw [utf8_cons] at h
      rcases List.append_eq_append_iff.mp h with ⟨mid, hc, hmid⟩ | ⟨mid, has, hrest⟩
      · cases as with
        | nil => exact ⟨[], c :: cs, rfl, rfl, by rw [utf8_cons]; exact h⟩
        | cons a as =>
            -- the character's bytes go on past `as`, so `bs` begins with one that goes on
            cases mid with
            | nil =>
                rw [List.append_nil] at hc
                rw [List.nil_append] at hmid
                exact ⟨[c], cs, rfl, by rw [utf8_cons, hc, utf8_nil, List.append_nil], hmid⟩
            | cons t mid =>
                have ht : t ∈ tail := by
                  rw [henc, List.cons_append] at hc
                  rw [(List.cons.inj hc).2]
                  exact List.mem_append_right _ List.mem_cons_self
                have hfalse := hbs t (by rw [hmid]; rfl)
                rw [htail t ht] at hfalse
                exact absurd hfalse (by simp)
      · obtain ⟨ds, es, rfl, rfl, rfl⟩ := ih hrest.symm
        exact ⟨c :: ds, es, rfl, by rw [has, utf8_cons], rfl⟩

/-- **A text read chunk by chunk is the text,** if no chunk begins inside a character. -/
theorem flatMap_lossy {chunks : List (List UInt8)} (hw : ∀ chunk ∈ chunks, Whole chunk) :
    ∀ {cs : List Char}, chunks.flatten = utf8 cs → chunks.flatMap lossy = cs := by
  induction chunks using List.reverseRecOn with
  | nil =>
      intro cs h
      cases cs with
      | nil => rfl
      | cons c cs =>
          obtain ⟨b, tail, henc, -⟩ := utf8EncodeChar_shape c
          rw [utf8_cons, henc] at h
          exact absurd h (by simp)
  | append_singleton chunks chunk ih =>
      intro cs h
      rw [List.flatten_append, List.flatten_singleton] at h
      obtain ⟨ds, es, rfl, hds, rfl⟩ :=
        utf8_split h (hw chunk (List.mem_append_right _ List.mem_cons_self))
      rw [List.flatMap_append, List.flatMap_singleton, lossy_utf8,
        ih (fun c hc => hw c (List.mem_append_left _ hc)) hds]

/-! ## Bytes that break off -/

/-- What has been read of bytes does not depend on those that follow. -/
theorem lossyFrom_append (as : List UInt8) : ∀ st, ∃ ds st',
    ∀ bs, lossyFrom st (as ++ bs) = ds ++ lossyFrom st' bs := by
  induction as with
  | nil => exact fun st => ⟨[], st, fun bs => rfl⟩
  | cons a as ih =>
      intro st
      cases st with
      | none =>
          obtain ⟨ds, st', h⟩ := ih (first a).2
          refine ⟨(first a).1 ++ ds, st', fun bs => ?_⟩
          rw [List.cons_append, lossyFrom, h, List.append_assoc]
      | some p =>
          by_cases hr : p.lo ≤ a.toNat ∧ a.toNat ≤ p.hi
          · by_cases hm : p.missing ≤ 1
            · obtain ⟨ds, st', h⟩ := ih none
              refine ⟨Char.ofNat (p.acc * 64 + (a.toNat - 0x80)) :: ds, st', fun bs => ?_⟩
              rw [List.cons_append, lossyFrom, if_pos hr, if_pos hm, h, List.cons_append]
            · obtain ⟨ds, st', h⟩ := ih (some ⟨p.acc * 64 + (a.toNat - 0x80), p.missing - 1, 0x80,
                0xBF, by omega, by omega⟩)
              refine ⟨ds, st', fun bs => ?_⟩
              rw [List.cons_append, lossyFrom, if_pos hr, if_neg hm, h]
          · obtain ⟨ds, st', h⟩ := ih (first a).2
            refine ⟨replacement :: ((first a).1 ++ ds), st', fun bs => ?_⟩
            rw [List.cons_append, lossyFrom, if_neg hr, h, List.cons_append, List.append_assoc]

/-- The first bytes of a text: its first characters, and at most one that is replaced. -/
theorem lossy_prefix {as bs : List UInt8} {cs : List Char} (h : as ++ bs = utf8 cs) :
    ∃ ds, ds <+: cs ∧ (lossy as = ds ∨ lossy as = ds ++ [replacement]) := by
  obtain ⟨ds, st, hread⟩ := lossyFrom_append as none
  refine ⟨ds, ⟨lossyFrom st bs, ?_⟩, ?_⟩
  · rw [← hread bs, h]
    exact lossy_utf8 cs
  · have hend := hread []
    rw [List.append_nil] at hend
    cases st with
    | none => exact .inl (hend.trans (List.append_nil ds))
    | some p => exact .inr hend

/-- **The first chunks of a text.** -/
theorem flatMap_lossy_prefix {chunks : List (List UInt8)} (hw : ∀ chunk ∈ chunks, Whole chunk)
    {bs : List UInt8} {cs : List Char} (h : chunks.flatten ++ bs = utf8 cs) :
    ∃ ds, ds <+: cs ∧ (chunks.flatMap lossy = ds ∨ chunks.flatMap lossy = ds ++ [replacement]) := by
  induction chunks using List.reverseRecOn with
  | nil => exact ⟨[], List.nil_prefix, .inl rfl⟩
  | append_singleton init chunk ih =>
    have hinit := fun c hc => hw c (List.mem_append_left _ hc)
    have hchunk := hw chunk (List.mem_append_right _ List.mem_cons_self)
    rw [List.flatten_append, List.flatten_singleton, List.append_assoc] at h
    rw [List.flatMap_append, List.flatMap_singleton]
    by_cases hnil : chunk = []
    · -- an empty chunk says nothing
      subst hnil
      obtain ⟨ds, hds, hread⟩ := ih hinit h
      rw [show lossy [] = [] from rfl, List.append_nil]
      exact ⟨ds, hds, hread⟩
    · have hrest : Whole (chunk ++ bs) := by
        intro b hb
        rw [List.head?_append_of_ne_nil _ hnil] at hb
        exact hchunk b hb
      obtain ⟨ds, es, rfl, hds, hes⟩ := utf8_split h hrest
      obtain ⟨fs, hfs, hread⟩ := lossy_prefix hes
      rw [flatMap_lossy hinit hds]
      refine ⟨ds ++ fs, (List.prefix_append_right_inj ds).mpr hfs, ?_⟩
      rcases hread with hread | hread
      · exact .inl (by rw [hread])
      · exact .inr (by rw [hread, List.append_assoc])

/-- Bytes that are no text: each maximal piece of a character is replaced. -/
example : lossy [0x68, 0xC3, 0x28, 0xE2, 0x82, 0x21] = ['h', replacement, '(', replacement, '!'] := by
  decide

end Lib
