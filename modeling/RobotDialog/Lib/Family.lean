import Mathlib.Algebra.BigOperators.Group.Finset.Basic
import Mathlib.Algebra.BigOperators.Ring.Multiset
import Mathlib.Algebra.BigOperators.Ring.Finset
import Mathlib.Tactic.Abel

/-!
# Totals over a family of threads

A family `f : ℕ → M` gives each thread its contribution; the threads that exist are those below a
bound.

* `total_move`     one member of the family changes;
* `total_grow`     new members that contribute nothing;
* `total_le_add`   every member grows by at most a constant;
* `jobs`           the multiset of what the members hold, at most one item each;
* `count_jobs`, `jobs_unique`   how often an item is held, and by whom;
* `Balance`        items that pass from an owner through a queue and a member back;
* `Balance.place`  every issued item is in exactly one place.
-/

namespace Family
open Finset

variable {M α : Type*} [AddCommMonoid M]

def total (n : ℕ) (f : ℕ → M) : M := ∑ v ∈ range n, f v

/-- **One member changes.** -/
theorem total_move {n w : ℕ} {f f' : ℕ → M} (hw : w < n) (h : ∀ v, v ≠ w → f' v = f v) :
    total n f' + f w = total n f + f' w := by
  have hmem : w ∈ range n := mem_range.mpr hw
  have hrest : ∑ v ∈ (range n).erase w, f' v = ∑ v ∈ (range n).erase w, f v :=
    sum_congr rfl fun v hv => h v (ne_of_mem_erase hv)
  unfold total
  rw [← add_sum_erase _ f hmem, ← add_sum_erase _ f' hmem, hrest]
  abel

theorem total_grow {n n' : ℕ} {f f' : ℕ → M} (hn : n ≤ n') (h : ∀ v, f' v = f v)
    (h0 : ∀ v, n ≤ v → f v = 0) : total n' f' = total n f := by
  unfold total
  rw [sum_congr rfl fun v _ => h v]
  symm
  refine sum_subset (range_subset_range.mpr hn) fun v _ hv => h0 v ?_
  rw [mem_range] at hv
  omega

theorem total_zero {n : ℕ} {f : ℕ → M} (h : ∀ v, f v = 0) : total n f = 0 :=
  sum_eq_zero fun v _ => h v

theorem total_succ (n : ℕ) (f : ℕ → M) : total (n + 1) f = total n f + f n :=
  sum_range_succ f n

theorem total_congr {n : ℕ} {f f' : ℕ → M} (h : ∀ v, v < n → f' v = f v) :
    total n f' = total n f :=
  sum_congr rfl fun v hv => h v (mem_range.mp hv)

/-- Every member grows by at most `c`. -/
theorem total_le_add {n c : ℕ} {f f' : ℕ → ℕ} (h : ∀ v, f' v ≤ f v + c) :
    total n f' ≤ total n f + c * n := by
  induction n with
  | zero => exact Nat.zero_le _
  | succ n ih =>
    have hn := h n
    rw [total_succ, total_succ, Nat.mul_succ]
    omega

/-! ## what the members hold -/

/-- the contribution of a member that holds at most one item -/
def item (o : Option α) : Multiset α := o.elim 0 fun a => {a}

@[simp] theorem item_none : item (none : Option α) = 0 := rfl
@[simp] theorem item_some (a : α) : item (some a) = {a} := rfl

/-- what the members below `n` hold -/
def jobs (n : ℕ) (f : ℕ → Option α) : Multiset α := total n fun v => item (f v)

theorem card_jobs (n : ℕ) (f : ℕ → Option α) :
    Multiset.card (jobs n f) = total n fun v => if (f v).isSome then 1 else 0 := by
  induction n with
  | zero => rfl
  | succ n ih =>
    unfold jobs at ih ⊢
    rw [total_succ, total_succ, Multiset.card_add, ih]
    cases f n <;> rfl

variable [DecidableEq α]

theorem count_item (o : Option α) (a : α) : (item o).count a = if o = some a then 1 else 0 := by
  cases o with
  | none => simp
  | some b => simp [Multiset.count_singleton, eq_comm]

theorem count_jobs (n : ℕ) (f : ℕ → Option α) (a : α) :
    (jobs n f).count a = ((range n).filter fun v => f v = some a).card := by
  unfold jobs total
  rw [Multiset.count_sum', card_filter]
  exact sum_congr rfl fun v _ => count_item (f v) a

theorem jobs_none {n : ℕ} {f : ℕ → Option α} {a : α} (h : (jobs n f).count a = 0) :
    ∀ v, v < n → f v ≠ some a := by
  rw [count_jobs, card_eq_zero, filter_eq_empty_iff] at h
  exact fun v hv => h (mem_range.mpr hv)

theorem jobs_unique {n : ℕ} {f : ℕ → Option α} {a : α} (h : (jobs n f).count a = 1) :
    ∃ v, v < n ∧ f v = some a ∧ ∀ u, u < n → f u = some a → u = v := by
  rw [count_jobs, card_eq_one] at h
  obtain ⟨v, hv⟩ := h
  have hmem : v ∈ (range n).filter fun v => f v = some a := by rw [hv]; exact mem_singleton_self v
  rw [mem_filter, mem_range] at hmem
  refine ⟨v, hmem.1, hmem.2, fun u hu hfu => ?_⟩
  have hu' : u ∈ (range n).filter fun v => f v = some a := by
    rw [mem_filter, mem_range]
    exact ⟨hu, hfu⟩
  rwa [hv, mem_singleton] at hu'

/-! ## items that are handed on -/

section
variable {β : Type*} {issued taken given returned : Multiset β} {owner : Option β} {n : ℕ}
  {f : ℕ → Option β}

/-- **No item is lost or duplicated**: what was issued is with the owner, or was given into the queue
and not taken out of it, or is with a member, or was returned -/
def Balance (issued taken : Multiset β) (owner : Option β) (given : Multiset β) (n : ℕ)
    (f : ℕ → Option β) (returned : Multiset β) : Prop :=
  issued + taken = item owner + given + jobs n f + returned

theorem Balance.move (h : Balance issued taken owner given n f returned) (owner' : Option β)
    (di dg dr : Multiset β) (hmove : item owner' + dg + dr = item owner + di) :
    Balance (issued + di) taken owner' (given + dg) n f (returned + dr) := by
  unfold Balance at h ⊢
  calc issued + di + taken = issued + taken + di := by abel
    _ = (item owner + di) + (given + jobs n f + returned) := by rw [h]; abel
    _ = item owner' + (given + dg) + jobs n f + (returned + dr) := by rw [← hmove]; abel

theorem Balance.member (h : Balance issued taken owner given n f returned) {w : ℕ}
    {f' : ℕ → Option β} {dt dr : Multiset β} (hw : w < n) (hf : ∀ v, v ≠ w → f' v = f v)
    (hmove : item (f' w) + dr = item (f w) + dt) :
    Balance issued (taken + dt) owner given n f' (returned + dr) := by
  have ht : jobs n f' + item (f w) = jobs n f + item (f' w) := by
    refine total_move (f := fun v => item (f v)) hw fun v hv => ?_
    show item (f' v) = item (f v)
    rw [hf v hv]
  unfold Balance at h ⊢
  apply add_right_cancel (b := item (f w))
  calc issued + (taken + dt) + item (f w) = issued + taken + (item (f w) + dt) := by abel
    _ = item owner + given + (jobs n f + item (f' w)) + returned + dr := by rw [h, ← hmove]; abel
    _ = item owner + given + jobs n f' + (returned + dr) + item (f w) := by rw [← ht]; abel

theorem Balance.grow (h : Balance issued taken owner given n f returned) {n' : ℕ}
    {f' : ℕ → Option β} (hn : n ≤ n') (hf : ∀ v, f' v = f v) (h0 : ∀ v, n ≤ v → f v = none) :
    Balance issued taken owner given n' f' returned := by
  have hj : jobs n' f' = jobs n f :=
    total_grow hn (fun v => by rw [hf v]) fun v hv => by rw [h0 v hv]; rfl
  unfold Balance
  rw [hj]
  exact h

/-- the places an item can be in -/
inductive Place where
  | owner
  | queue
  | member (v : ℕ)
  | returned
  deriving DecidableEq

/-- item `a` is in place `p`, `waiting` is what is in the queue -/
def Place.Holds (owner : Option β) (waiting : Multiset β) (n : ℕ) (f : ℕ → Option β)
    (returned : Multiset β) (p : Place) (a : β) : Prop :=
  match p with
  | .owner => owner = some a
  | .queue => a ∈ waiting
  | .member v => v < n ∧ f v = some a
  | .returned => a ∈ returned

variable {waiting : Multiset β}

theorem Balance.card (h : Balance issued taken owner (taken + waiting) n f returned) :
    Multiset.card issued = Multiset.card (item owner) + Multiset.card waiting +
      total n (fun v => if (f v).isSome then 1 else 0) + Multiset.card returned := by
  unfold Balance at h
  have hcard := congrArg Multiset.card h
  simp only [Multiset.card_add, card_jobs] at hcard
  omega

variable [DecidableEq β]

/-- how often item `a` is in place `p`, the members taken together -/
def Place.count (owner : Option β) (waiting : Multiset β) (n : ℕ) (f : ℕ → Option β)
    (returned : Multiset β) (p : Place) (a : β) : ℕ :=
  match p with
  | .owner => (item owner).count a
  | .queue => waiting.count a
  | .member _ => (jobs n f).count a
  | .returned => returned.count a

theorem Place.Holds.count_pos {p : Place} {a : β} (h : p.Holds owner waiting n f returned a) :
    0 < p.count owner waiting n f returned a := by
  cases p with
  | owner =>
    have h : owner = some a := h
    show 0 < (item owner).count a
    rw [count_item, if_pos h]
    exact Nat.zero_lt_one
  | queue => exact Multiset.count_pos.mpr h
  | member v => exact Nat.pos_of_ne_zero fun h0 => jobs_none h0 v h.1 h.2
  | returned => exact Multiset.count_pos.mpr h

theorem Balance.counts (h : Balance issued taken owner (taken + waiting) n f returned) (a : β) :
    issued.count a =
      (item owner).count a + waiting.count a + (jobs n f).count a + returned.count a := by
  unfold Balance at h
  have hcount := congrArg (Multiset.count a) h
  simp only [Multiset.count_add] at hcount
  omega

theorem Balance.issued_of_holds (h : Balance issued taken owner (taken + waiting) n f returned)
    {a : β} {p : Place} (hp : p.Holds owner waiting n f returned a) : a ∈ issued := by
  have hpos := hp.count_pos
  rw [← Multiset.count_pos, h.counts a]
  cases p <;> simp only [Place.count] at hpos <;> omega

/-- **Every issued item is in exactly one place.** -/
theorem Balance.place (h : Balance issued taken owner (taken + waiting) n f returned)
    (hnodup : issued.Nodup) {a : β} (ha : a ∈ issued) :
    ∃! p : Place, p.Holds owner waiting n f returned a := by
  have hone := h.counts a
  rw [Multiset.count_eq_one_of_mem hnodup ha] at hone
  refine existsUnique_of_exists_of_unique ?_ fun p q hp hq => ?_
  · by_cases hown : owner = some a
    · exact ⟨.owner, hown⟩
    by_cases hq : a ∈ waiting
    · exact ⟨.queue, hq⟩
    by_cases hr : a ∈ returned
    · exact ⟨.returned, hr⟩
    rw [count_item, if_neg hown, Multiset.count_eq_zero.mpr hq, Multiset.count_eq_zero.mpr hr]
      at hone
    obtain ⟨v, hv, hf, -⟩ := jobs_unique (n := n) (f := f) (a := a) (by omega)
    exact ⟨.member v, hv, hf⟩
  · have hp' := hp.count_pos
    have hq' := hq.count_pos
    by_cases hm : ∃ u v, p = .member u ∧ q = .member v
    · obtain ⟨u, v, rfl, rfl⟩ := hm
      have hjobs : 0 < (jobs n f).count a := hp'
      obtain ⟨w, -, -, hw⟩ := jobs_unique (n := n) (f := f) (a := a) (by omega)
      rw [hw u hp.1 hp.2, hw v hq.1 hq.2]
    · cases p <;> cases q <;> simp only [Place.count] at hp' hq' <;> first
        | rfl
        | omega
        | exact absurd ⟨_, _, rfl, rfl⟩ hm

theorem Balance.returned_nodup (h : Balance issued taken owner (taken + waiting) n f returned)
    (hnodup : issued.Nodup) : returned.Nodup := by
  rw [Multiset.nodup_iff_count_le_one]
  intro a
  have hle := Multiset.nodup_iff_count_le_one.mp hnodup a
  have hcount := h.counts a
  omega

end

end Family
