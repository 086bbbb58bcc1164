import Mathlib.Data.List.Basic

/-!
# Text between quotes

A literal stands between two quotes; inside of it a backslash takes the next symbol out of its role.
What the symbols behind a backslash stand for is up to the writer.

* `Place`, `place`       where a reader is behind a text;
* `Whole`                every quote of the text is escaped, and its last escape is complete;
* `literal_iff`          a literal ends at the first quote behind a whole text;
* `Escaper`              a way to write symbols in literals, and its inverse;
* `Escaper.fill`         a loop that escapes until a bound is reached;
* `Escaper.fill_cases`   it escapes all, or it stops behind a complete escape at the bound.
-/

namespace Quoted

/-- the two symbols with a role -/
structure Marks (α : Type*) where
  quote : α
  backslash : α
  ne : quote ≠ backslash

/-- where a reader is -/
inductive Place where
  | outside
  | inside      -- of a literal
  | behind      -- a backslash of a literal
  deriving DecidableEq, Repr

variable {α : Type*}

/-! ## where a literal ends -/

namespace Marks
variable [DecidableEq α] (M : Marks α)

def next : Place → α → Place
  | .outside, c => if c = M.quote then .inside else .outside
  | .inside, c => if c = M.quote then .outside else if c = M.backslash then .behind else .inside
  | .behind, _ => .inside

/-- where a reader is behind a text -/
def place (p : Place) (text : List α) : Place := text.foldl M.next p

/-- a text that neither ends the literal it stands in nor ends inside an escape -/
structure Whole (text : List α) : Prop where
  noQuote : ∀ a b, text = a ++ M.quote :: b → M.place .inside a = .behind
  complete : M.place .inside text = .inside

/-- from a place in a literal: the text up to the quote that ends it, and what stands behind -/
def literalFrom : Place → List α → Option (List α × List α)
  | _, [] => none
  | p, c :: rest =>
    if M.next p c = .outside then some ([], rest)
    else (literalFrom (M.next p c) rest).map fun r => (c :: r.1, r.2)

/-- behind the quote that opens a literal: the text of the literal, and what stands behind it -/
def literal (text : List α) : Option (List α × List α) := M.literalFrom .inside text

theorem place_cons (p : Place) (c : α) (text : List α) :
    M.place p (c :: text) = M.place (M.next p c) text := rfl

theorem place_append (p : Place) (a b : List α) :
    M.place p (a ++ b) = M.place (M.place p a) b := by
  unfold place
  rw [List.foldl_append]

/-- Inside of a literal only a quote that is not escaped ends it. -/
theorem next_outside {p : Place} (hp : p ≠ .outside) (c : α) :
    M.next p c = .outside ↔ p = .inside ∧ c = M.quote := by
  cases p with
  | outside => exact absurd rfl hp
  | inside =>
    show (if c = M.quote then Place.outside else if c = M.backslash then .behind else .inside) =
      .outside ↔ _
    by_cases hq : c = M.quote
    · simp [hq]
    · by_cases hb : c = M.backslash
      · simp [hb, M.ne.symm]
      · simp [hq, hb]
  | behind =>
    show Place.inside = .outside ↔ _
    simp

theorem literalFrom_iff {p : Place} (hp : p ≠ .outside) (input text rest : List α) :
    M.literalFrom p input = some (text, rest) ↔
      input = text ++ M.quote :: rest ∧
        (∀ a b, text = a ++ M.quote :: b → M.place p a = .behind) ∧ M.place p text = .inside := by
  induction input generalizing p text with
  | nil => simp [literalFrom]
  | cons c input ih =>
    unfold literalFrom
    by_cases hend : M.next p c = .outside
    · -- the quote that ends the literal
      obtain ⟨rfl, rfl⟩ := (M.next_outside hp c).mp hend
      rw [if_pos hend, Option.some.injEq, Prod.mk.injEq]
      constructor
      · rintro ⟨rfl, rfl⟩
        exact ⟨rfl, by simp, rfl⟩
      · rintro ⟨hinput, hquote, -⟩
        cases text with
        | nil => exact ⟨rfl, (List.cons.inj hinput).2⟩
        | cons d text =>
          obtain ⟨rfl, -⟩ := List.cons.inj hinput
          cases hquote [] text rfl
    · rw [if_neg hend]
      constructor
      · intro h
        obtain ⟨⟨t, r⟩, ht, he⟩ := Option.map_eq_some_iff.mp h
        obtain ⟨rfl, rfl⟩ := Prod.mk.inj he
        obtain ⟨rfl, hquote, hplace⟩ := (ih hend t).mp ht
        refine ⟨rfl, fun a b hab => ?_, hplace⟩
        cases a with
        | nil =>
          obtain ⟨rfl, -⟩ := List.cons.inj hab
          cases p with
          | outside => exact absurd rfl hp
          | inside => exact absurd ((M.next_outside hp _).mpr ⟨rfl, rfl⟩) hend
          | behind => rfl
        | cons d a =>
          obtain ⟨rfl, htail⟩ := List.cons.inj hab
          exact hquote a b htail
      · rintro ⟨hinput, hquote, hplace⟩
        cases text with
        | nil =>
          obtain ⟨rfl, -⟩ := List.cons.inj hinput
          exact absurd ((M.next_outside hp _).mpr ⟨hplace, rfl⟩) hend
        | cons d text =>
          obtain ⟨rfl, rfl⟩ := List.cons.inj hinput
          have ht := (ih hend text).mpr
            ⟨rfl, fun a b hab => hquote (c :: a) b (by rw [hab, List.cons_append]), hplace⟩
          rw [ht, Option.map_some]

/-- **Where a literal ends**: at the quote behind a whole text, and nowhere else. -/
theorem literal_iff (input text rest : List α) :
    M.literal input = some (text, rest) ↔ input = text ++ M.quote :: rest ∧ M.Whole text := by
  unfold literal
  rw [M.literalFrom_iff (by decide)]
  exact and_congr_right fun _ => ⟨fun h => ⟨h.1, h.2⟩, fun h => ⟨h.1, h.2⟩⟩

variable {M}

theorem Whole.nil : M.Whole [] := ⟨by simp, rfl⟩

theorem Whole.append {s t : List α} (hs : M.Whole s) (ht : M.Whole t) : M.Whole (s ++ t) := by
  refine ⟨fun a b h => ?_, by rw [M.place_append, hs.complete, ht.complete]⟩
  rcases List.append_eq_append_iff.mp h with ⟨a', rfl, h'⟩ | ⟨b', hs', ht'⟩
  · rw [M.place_append, hs.complete]
    exact ht.noQuote a' b h'
  · cases b' with
    | nil =>
      rw [List.append_nil] at hs'
      rw [← hs', hs.complete]
      have hnil : M.place .inside [] = .behind := ht.noQuote [] b ht'.symm
      exact hnil
    | cons c b' =>
      obtain ⟨rfl, -⟩ := List.cons.inj ht'
      exact hs.noQuote a b' hs'

/-! ## escapes -/

variable (M)

/-- the text that a literal stands for; a backslash and `c` stand for `stands c` -/
def unescape (stands : α → Option α) : List α → Option (List α)
  | [] => some []
  | [c] => if c = M.quote ∨ c = M.backslash then none else some [c]
  | c :: d :: rest =>
    if c = M.quote then none
    else if c = M.backslash then
      (stands d).bind fun x => (unescape stands rest).map (x :: ·)
    else (unescape stands (d :: rest)).map (c :: ·)

theorem unescape_plain (stands : α → Option α) {c : α} (hq : c ≠ M.quote)
    (hb : c ≠ M.backslash) (rest : List α) :
    M.unescape stands (c :: rest) = (M.unescape stands rest).map (c :: ·) := by
  cases rest with
  | nil =>
    unfold unescape
    rw [if_neg (not_or.mpr ⟨hq, hb⟩)]
    rfl
  | cons d rest => rw [unescape, if_neg hq, if_neg hb]

theorem unescape_backslash {stands : α → Option α} {d x : α}
    (hd : stands d = some x) (rest : List α) :
    M.unescape stands (M.backslash :: d :: rest) = (M.unescape stands rest).map (x :: ·) := by
  rw [unescape, if_neg M.ne.symm, if_pos rfl, hd, Option.bind_some]

end Marks

/-- a way to write symbols in literals: as they are, or as a backslash and one more symbol -/
structure Escaper (M : Marks α) where
  esc : α → List α
  stands : α → Option α
  cases : ∀ c, (esc c = [c] ∧ c ≠ M.quote ∧ c ≠ M.backslash) ∨
    ∃ d, esc c = [M.backslash, d] ∧ stands d = some c

namespace Escaper
variable {M : Marks α} (E : Escaper M)

def text (s : List α) : List α := s.flatMap E.esc

theorem text_cons (c : α) (s : List α) : E.text (c :: s) = E.esc c ++ E.text s :=
  List.flatMap_cons

theorem length_esc (c : α) : 1 ≤ (E.esc c).length ∧ (E.esc c).length ≤ 2 := by
  rcases E.cases c with ⟨h, -⟩ | ⟨d, h, -⟩
  · rw [h]
    simp
  · rw [h]
    simp

theorem whole_esc [DecidableEq α] (c : α) : M.Whole (E.esc c) := by
  rcases E.cases c with ⟨h, hq, hb⟩ | ⟨d, h, -⟩
  · rw [h]
    refine ⟨fun a b hab => ?_, ?_⟩
    · have hmem : M.quote ∈ [c] := by
        rw [hab]
        simp
      exact absurd (List.mem_singleton.mp hmem).symm hq
    · show (if c = M.quote then Place.outside else if c = M.backslash then .behind else .inside) = _
      rw [if_neg hq, if_neg hb]
  · have hback : M.next .inside M.backslash = .behind := by
      show (if M.backslash = M.quote then Place.outside else _) = _
      rw [if_neg M.ne.symm, if_pos rfl]
    rw [h]
    refine ⟨fun a b hab => ?_, ?_⟩
    · -- a quote can only be the second symbol
      cases a with
      | nil => exact absurd (List.cons.inj hab).1.symm M.ne
      | cons e a =>
        obtain ⟨rfl, htail⟩ := List.cons.inj hab
        cases a with
        | nil => exact hback
        | cons f a => simp at htail
    · rw [M.place_cons, hback]
      rfl

/-- **An escaped text is whole**, whatever the text. -/
theorem whole_text [DecidableEq α] (s : List α) : M.Whole (E.text s) := by
  induction s with
  | nil => exact Marks.Whole.nil
  | cons c s ih =>
    rw [text_cons]
    exact (E.whole_esc c).append ih

/-- **An escaped text stands for the text.** -/
theorem unescape_text [DecidableEq α] (s : List α) : M.unescape E.stands (E.text s) = some s := by
  induction s with
  | nil => rfl
  | cons c s ih =>
    rw [text_cons]
    rcases E.cases c with ⟨h, hq, hb⟩ | ⟨d, h, hd⟩
    · rw [h, List.singleton_append, M.unescape_plain _ hq hb, ih]
      rfl
    · rw [h, List.cons_append, List.singleton_append, M.unescape_backslash hd, ih]
      rfl

/-! ## a loop with a bound -/

/-- escapes one symbol after the other as long as fewer than `bound` are written -/
def fill (bound : Nat) : List α → List α → List α
  | dst, [] => dst
  | dst, c :: src => if dst.length < bound then fill bound (dst ++ E.esc c) src else dst

/-- **What the loop writes**: the escapes of all symbols, or those of the first ones up to the
bound. -/
theorem fill_cases (bound : Nat) (dst src : List α) :
    ∃ p q, src = p ++ q ∧ E.fill bound dst src = dst ++ E.text p ∧
      (q = [] ∨ bound ≤ (dst ++ E.text p).length) := by
  induction src generalizing dst with
  | nil => exact ⟨[], [], rfl, (List.append_nil dst).symm, .inl rfl⟩
  | cons c src ih =>
    unfold fill
    by_cases hroom : dst.length < bound
    · obtain ⟨p, q, rfl, hfill, hstop⟩ := ih (dst ++ E.esc c)
      rw [List.append_assoc, ← text_cons] at hfill hstop
      rw [if_pos hroom]
      exact ⟨c :: p, q, rfl, hfill, hstop⟩
    · rw [if_neg hroom]
      refine ⟨[], c :: src, rfl, (List.append_nil dst).symm, .inr ?_⟩
      rw [show E.text [] = [] from rfl, List.append_nil]
      omega

/-- The last escape goes at most one symbol beyond the bound. -/
theorem length_fill (bound : Nat) (dst src : List α) (h : dst.length ≤ bound + 1) :
    (E.fill bound dst src).length ≤ bound + 1 := by
  induction src generalizing dst with
  | nil => exact h
  | cons c src ih =>
    unfold fill
    by_cases hroom : dst.length < bound
    · have hc := (E.length_esc c).2
      rw [if_pos hroom]
      apply ih
      rw [List.length_append]
      omega
    · rw [if_neg hroom]
      exact h

/-- The loop does not stop in front of a symbol when the escapes of all symbols stay within the
bound. -/
theorem rest_nil {bound : Nat} {dst p q : List α}
    (hstop : q = [] ∨ bound ≤ (dst ++ E.text p).length)
    (hfits : dst.length + (E.text (p ++ q)).length ≤ bound) : q = [] := by
  rcases hstop with h | h
  · exact h
  · cases q with
    | nil => rfl
    | cons c q =>
      have hc := (E.length_esc c).1
      unfold text at h hfits
      rw [List.flatMap_append, List.flatMap_cons] at hfits
      simp only [List.length_append] at h hfits
      omega

end Escaper

end Quoted
