import SynchrotronCD.Lib.Utf8
import SynchrotronCD.Plugins.Cache

/-!
# Which inputs share a cache key

The hash of a plugin's inputs is taken over the commit, the text of the parameters
and the extra bytes, one after the other with nothing in between. So what is hashed
does not say where one ends and the next begins. Two different inputs are hashed alike
when the end of a commit can be read as the beginning of the parameters, or the last
digits of a number as extra bytes (`hashedBytes_ne_iff`).

Between commits of one length and parameters that are no numbers there is no such
doubt (`hashedBytes_inj`).
-/

namespace SynchrotronCD.Render

open Lib

/-- What a plugin render is keyed by. -/
structure RenderInputs where
  sourceCommit : String
  params : Value.Doc
  extra : List UInt8

section

variable [FloatText]

def RenderInputs.hashedBytes (i : RenderInputs) : List UInt8 :=
  CacheKey.hashedBytes i.sourceCommit i.params i.extra

theorem hashedBytes_eq (i : RenderInputs) : i.hashedBytes
    = utf8 i.sourceCommit.toList ++ (utf8 i.params.print ++ i.extra) := by
  rw [RenderInputs.hashedBytes, CacheKey.hashedBytes, List.append_assoc, utf8, String.ofList_toList]
  rfl

/-! ## Parameters followed by extra bytes -/

/-- Two numbers, the text of the second being that of the first and some digits more, which
stand at the front of the first one's extra bytes. -/
structure DigitsMoved (v : Value.Doc) (x : List UInt8) (w : Value.Doc) (y : List UInt8) : Prop where
  numbers : ∃ n m, v = .num n ∧ w = .num m
  moved : ∃ ds, ds ≠ [] ∧ w.print = v.print ++ ds ∧ x = utf8 ds ++ y

/-- A document whose text is the beginning of another one's, and shorter, is a number. -/
theorem number_of_print_append {v w : Value.Doc} {ds : List Char} (hds : ds ≠ [])
    (h : w.print = v.print ++ ds) : ∃ n m, v = .num n ∧ w = .num m := by
  by_contra hnot
  have hends : ∀ n m, v = .num n → w = .num m → Json.Ends ds ∧ Json.Ends [] :=
    fun n m hv hw => absurd ⟨n, m, hv, hw⟩ hnot
  have hinj := Json.print_inj_of_ends v w hends (by rw [List.append_nil, h])
  exact hds hinj.2

/-- **Parameters and extra bytes are read off their bytes**, unless digits can be moved. -/
theorem params_extra_eq {v w : Value.Doc} {x y : List UInt8} :
    utf8 v.print ++ x = utf8 w.print ++ y ↔
      (v = w ∧ x = y) ∨ DigitsMoved v x w y ∨ DigitsMoved w y v x := by
  rw [utf8_append_eq_append]
  refine ⟨?_, ?_⟩
  · rintro (⟨ds, hprint, hx⟩ | ⟨ds, hprint, hy⟩)
    · by_cases hds : ds = []
      · subst hds
        rw [List.append_nil] at hprint
        exact .inl ⟨(Json.print_injective hprint).symm, hx⟩
      · exact .inr (.inl ⟨number_of_print_append hds hprint, ds, hds, hprint, hx⟩)
    · by_cases hds : ds = []
      · subst hds
        rw [List.append_nil] at hprint
        exact .inl ⟨Json.print_injective hprint, hy.symm⟩
      · exact .inr (.inr ⟨number_of_print_append hds hprint, ds, hds, hprint, hy⟩)
  · rintro (⟨rfl, rfl⟩ | ⟨-, ds, -, hprint, hx⟩ | ⟨-, ds, -, hprint, hy⟩)
    · exact .inl ⟨[], by rw [List.append_nil], rfl⟩
    · exact .inl ⟨ds, hprint, hx⟩
    · exact .inr ⟨ds, hprint, hy⟩

/-! ## Aliases -/

/-- The second inputs are the first with what comes first grown at the cost of what follows. -/
inductive Shifted (i j : RenderInputs) : Prop
  /-- One commit; the last digits of a number are extra bytes of the other. -/
  | digits (hcommit : i.sourceCommit = j.sourceCommit)
      (hmoved : DigitsMoved i.params i.extra j.params j.extra)
  /-- The longer commit has taken the beginning of the parameters; the rest of their text, with
  the extra bytes, reads as other parameters and extra bytes. -/
  | intoParams (ds rest : List Char) (hds : ds ≠ [])
      (hcommit : j.sourceCommit.toList = i.sourceCommit.toList ++ ds)
      (hparams : i.params.print = ds ++ rest)
      (hrest : utf8 rest ++ i.extra = utf8 j.params.print ++ j.extra)
  /-- The longer commit has taken all of the parameters, and of the extra bytes those in front of
  others that begin with a document. -/
  | pastParams (es : List Char) (hes : es ≠ [])
      (hcommit : j.sourceCommit.toList = i.sourceCommit.toList ++ i.params.print ++ es)
      (hextra : i.extra = utf8 es ++ utf8 j.params.print ++ j.extra)

theorem Shifted.ne {i j : RenderInputs} (h : Shifted i j) : i ≠ j := by
  rintro rfl
  cases h with
  | digits _ hmoved =>
      obtain ⟨ds, hds, hprint, -⟩ := hmoved.moved
      exact hds (List.append_right_eq_self.mp hprint.symm)
  | intoParams ds rest hds hcommit => exact hds (List.append_right_eq_self.mp hcommit.symm)
  | pastParams es hes hcommit =>
      rw [List.append_assoc] at hcommit
      have hnil := List.append_right_eq_self.mp hcommit.symm
      exact hes (List.append_eq_nil_iff.mp hnil).2

theorem Shifted.hashedBytes_eq {i j : RenderInputs} (h : Shifted i j) :
    i.hashedBytes = j.hashedBytes := by
  rw [Render.hashedBytes_eq, Render.hashedBytes_eq]
  cases h with
  | digits hcommit hmoved => rw [hcommit, params_extra_eq.mpr (.inr (.inl hmoved))]
  | intoParams ds rest _ hcommit hparams hrest =>
      rw [hcommit, hparams, utf8_append, utf8_append, List.append_assoc, List.append_assoc, hrest]
  | pastParams es _ hcommit hextra =>
      rw [hcommit, hextra]
      simp only [utf8_append, List.append_assoc]

/-- Where a commit is longer by some characters, the parameters begin with these or they begin
with all of the parameters. -/
theorem shifted_of_longer {i j : RenderInputs} {ds : List Char} (hds : ds ≠ [])
    (hcommit : j.sourceCommit.toList = i.sourceCommit.toList ++ ds)
    (h : utf8 i.params.print ++ i.extra = utf8 ds ++ (utf8 j.params.print ++ j.extra)) :
    Shifted i j := by
  rcases utf8_append_eq_append.mp h with ⟨es, hes, hextra⟩ | ⟨rest, hparams, hrest⟩
  · by_cases hnil : es = []
    · subst hnil
      rw [List.append_nil] at hes
      refine .intoParams ds [] hds hcommit (by rw [List.append_nil, hes]) ?_
      exact hextra
    · refine .pastParams es hnil (by rw [hcommit, hes, List.append_assoc]) ?_
      rw [hextra, List.append_assoc]
  · exact .intoParams ds rest hds hcommit hparams hrest.symm

theorem shifted_of_commit_eq {i j : RenderInputs} (hcommit : i.sourceCommit = j.sourceCommit)
    (h : utf8 i.params.print ++ i.extra = utf8 j.params.print ++ j.extra) :
    i = j ∨ Shifted i j ∨ Shifted j i := by
  rcases params_extra_eq.mp h with ⟨hparams, hextra⟩ | hmoved | hmoved
  · obtain ⟨c, v, x⟩ := i
    obtain ⟨c', w, y⟩ := j
    dsimp only at hcommit hparams hextra
    exact .inl (by rw [hcommit, hparams, hextra])
  · exact .inr (.inl (.digits hcommit hmoved))
  · exact .inr (.inr (.digits hcommit.symm hmoved))

theorem shifted_of_hashedBytes_eq {i j : RenderInputs} (h : i.hashedBytes = j.hashedBytes) :
    i = j ∨ Shifted i j ∨ Shifted j i := by
  rw [hashedBytes_eq, hashedBytes_eq] at h
  rcases utf8_append_eq_append.mp h with ⟨ds, hcommit, hrest⟩ | ⟨ds, hcommit, hrest⟩
  · by_cases hds : ds = []
    · subst hds
      rw [List.append_nil, String.toList_inj] at hcommit
      exact shifted_of_commit_eq hcommit.symm hrest
    · exact .inr (.inl (shifted_of_longer hds hcommit hrest))
  · by_cases hds : ds = []
    · subst hds
      rw [List.append_nil, String.toList_inj] at hcommit
      exact shifted_of_commit_eq hcommit hrest.symm
    · exact .inr (.inr (shifted_of_longer hds hcommit hrest))

/--
**When cache keys do not alias.**

Two inputs that differ are hashed as different bytes if and only if neither is the other
with the commit grown into the parameters, or a number into the extra bytes.
-/
theorem hashedBytes_ne_iff (i j : RenderInputs) :
    (i ≠ j → i.hashedBytes ≠ j.hashedBytes) ↔ ¬(Shifted i j ∨ Shifted j i) := by
  refine ⟨?_, fun h hne heq => ?_⟩
  · rintro h (hs | hs)
    · exact h hs.ne hs.hashedBytes_eq
    · exact h hs.ne.symm hs.hashedBytes_eq.symm
  · rcases shifted_of_hashedBytes_eq heq with rfl | hs
    · exact hne rfl
    · exact h hs

/-- Commits of one length and parameters that are no numbers: nothing is hashed alike. -/
theorem hashedBytes_inj {i j : RenderInputs}
    (hlen : i.sourceCommit.toList.length = j.sourceCommit.toList.length)
    (hi : ∀ n, i.params ≠ .num n) (h : i.hashedBytes = j.hashedBytes) : i = j := by
  have hnot : ∀ {a b : RenderInputs}, a.sourceCommit.toList.length = b.sourceCommit.toList.length →
      (∀ n m, a.params = .num n → b.params = .num m → False) → ¬Shifted a b := by
    intro a b hlen hnum hs
    cases hs with
    | digits _ hmoved =>
        obtain ⟨n, m, ha, hb⟩ := hmoved.numbers
        exact hnum n m ha hb
    | intoParams ds rest hds hcommit =>
        rw [hcommit, List.length_append] at hlen
        have hpos := List.length_pos_of_ne_nil hds
        omega
    | pastParams es hes hcommit =>
        rw [hcommit, List.length_append, List.length_append] at hlen
        have hpos := List.length_pos_of_ne_nil hes
        omega
  rcases shifted_of_hashedBytes_eq h with heq | hs | hs
  · exact heq
  · exact absurd hs (hnot hlen fun n _ ha _ => hi n ha)
  · exact absurd hs (hnot hlen.symm fun _ m _ hb => hi m hb)

end

/-- Commit `a` with parameter `12` is hashed like commit `a1` with parameter `2`. -/
theorem hashedBytes_alias : ∃ i j : RenderInputs, i ≠ j
    ∧ @RenderInputs.hashedBytes .ofBits i = @RenderInputs.hashedBytes .ofBits j :=
  ⟨⟨"a", .num (.posInt 12), []⟩, ⟨"a1", .num (.posInt 2), []⟩, by simp, by decide⟩

end SynchrotronCD.Render
