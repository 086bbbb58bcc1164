import Mathlib.Order.Bounds.Basic
import Mathlib.Order.MinMax
import Mathlib.Data.List.Induction
import Mathlib.Algebra.Order.BigOperators.Group.List
import Mathlib.Algebra.Module.NatInt

/-!
# Running extrema that start at a legal value

An accumulator starts at `z` and is updated by one value after the other.  The accumulator of the
minimum takes `z` for "no value yet", although `z` may be a value itself.

* `minStep`, `maxStep`   one update;
* `runMin`, `runMax`     the accumulator after a list of values;
* `runMax_isGreatest`    over values not below `z` the running maximum is the maximum;
* `runMin_isLeast_iff`   over values not below `z` the running minimum is the minimum exactly if `z`
                         is not among them or came last;
* `sum_between`          a sum is between the bounds of its terms, times their number.
-/

namespace Running

variable {α : Type*} [LinearOrder α] {z c x : α} {l : List α}

/-- the next minimum; `z` stands for no value -/
def minStep (z current x : α) : α := if current = z ∨ x < current then x else current

def maxStep (current x : α) : α := if x > current then x else current

def runMin (z : α) (l : List α) : α := l.foldl (minStep z) z
def runMax (z : α) (l : List α) : α := l.foldl maxStep z

theorem runMin_nil (z : α) : runMin z [] = z := rfl

theorem runMin_concat (z : α) (l : List α) (x : α) :
    runMin z (l ++ [x]) = minStep z (runMin z l) x := List.foldl_concat ..

theorem runMax_concat (z : α) (l : List α) (x : α) :
    runMax z (l ++ [x]) = maxStep (runMax z l) x := List.foldl_concat ..

/-! ## the maximum -/

theorem maxStep_eq (c x : α) : maxStep c x = max c x := by
  unfold maxStep
  split
  · exact (max_eq_right (le_of_lt ‹_›)).symm
  · exact (max_eq_left (not_lt.mp ‹_›)).symm

theorem le_runMax (z : α) (h : x ∈ l) : x ≤ runMax z l := by
  induction l using List.reverseRecOn with
  | nil => cases h
  | append_singleton l y ih =>
    rw [runMax_concat, maxStep_eq]
    rcases List.mem_append.mp h with h | h
    · exact (ih h).trans (le_max_left ..)
    · rw [List.mem_singleton.mp h]
      exact le_max_right ..

theorem runMax_mem_or (z : α) (l : List α) : runMax z l = z ∨ runMax z l ∈ l := by
  induction l using List.reverseRecOn with
  | nil => exact .inl rfl
  | append_singleton l x ih =>
    rw [runMax_concat, maxStep_eq]
    rcases max_choice (runMax z l) x with h | h
    · rw [h]
      exact ih.imp_right (List.mem_append_left _)
    · rw [h]
      exact .inr List.mem_concat_self

/-- **The running maximum is the maximum.** -/
theorem runMax_isGreatest (hz : ∀ x ∈ l, z ≤ x) (hne : l ≠ []) :
    IsGreatest {x | x ∈ l} (runMax z l) := by
  refine ⟨?_, fun x hx => le_runMax z hx⟩
  rcases runMax_mem_or z l with h | h
  · obtain ⟨x, hx⟩ := List.exists_mem_of_ne_nil l hne
    have hge : runMax z l ≤ x := by
      rw [h]
      exact hz x hx
    show runMax z l ∈ l
    rwa [le_antisymm hge (le_runMax z hx)]
  · exact h

/-! ## the minimum -/

theorem minStep_start (z x : α) : minStep z z x = x := if_pos (.inl rfl)

theorem minStep_of_ne (hc : c ≠ z) (x : α) : minStep z c x = min c x := by
  unfold minStep
  split
  · exact (min_eq_right (le_of_lt (Or.resolve_left ‹_› hc))).symm
  · exact (min_eq_left (not_lt.mp (not_or.mp ‹_›).2)).symm

theorem minStep_choice (z c x : α) : minStep z c x = x ∨ minStep z c x = c := by
  unfold minStep
  split
  · exact .inl rfl
  · exact .inr rfl

/-- The accumulator is back at the start exactly after the value `z`. -/
theorem minStep_eq_start_iff (hc : z ≤ c) : minStep z c x = z ↔ x = z := by
  by_cases e : c = z
  · rw [e, minStep_start]
  · rw [minStep_of_ne e, min_eq_iff]
    constructor
    · rintro (⟨h, _⟩ | ⟨h, _⟩)
      · exact absurd h e
      · exact h
    · intro h
      exact .inr ⟨h, h ▸ hc⟩

theorem runMin_mem (z : α) (hne : l ≠ []) : runMin z l ∈ l := by
  induction l using List.reverseRecOn with
  | nil => exact absurd rfl hne
  | append_singleton l x ih =>
    rw [runMin_concat]
    by_cases hl : l = []
    · rw [hl, runMin_nil, minStep_start]
      exact List.mem_concat_self
    · rcases minStep_choice z (runMin z l) x with h | h
      · rw [h]
        exact List.mem_concat_self
      · rw [h]
        exact List.mem_append_left _ (ih hl)

theorem runMin_le (hz : z ∉ l) (h : x ∈ l) : runMin z l ≤ x := by
  induction l using List.reverseRecOn with
  | nil => cases h
  | append_singleton l y ih =>
    have hz' : z ∉ l := fun hm => hz (List.mem_append_left _ hm)
    rw [runMin_concat]
    by_cases hl : l = []
    · rw [hl] at h ⊢
      rw [runMin_nil, minStep_start, List.mem_singleton.mp h]
    · have hne : runMin z l ≠ z := fun e => hz' (e ▸ runMin_mem z hl)
      rw [minStep_of_ne hne]
      rcases List.mem_append.mp h with h | h
      · exact (min_le_left ..).trans (ih hz' h)
      · rw [List.mem_singleton.mp h]
        exact min_le_right ..

theorem start_le_runMin (hz : ∀ x ∈ l, z ≤ x) : z ≤ runMin z l := by
  by_cases hl : l = []
  · rw [hl, runMin_nil]
  · exact hz _ (runMin_mem z hl)

theorem runMin_eq_start_iff (hz : ∀ x ∈ l, z ≤ x) (hne : l ≠ []) :
    runMin z l = z ↔ l.getLast? = some z := by
  induction l using List.reverseRecOn with
  | nil => exact absurd rfl hne
  | append_singleton l x _ =>
    have hl : ∀ y ∈ l, z ≤ y := fun y hy => hz y (List.mem_append_left _ hy)
    rw [runMin_concat, minStep_eq_start_iff (start_le_runMin hl),
      List.getLast?_concat, Option.some.injEq]

/-- **The running minimum is the minimum** exactly if `z` is not among the values or came last. -/
theorem runMin_isLeast_iff (hz : ∀ x ∈ l, z ≤ x) (hne : l ≠ []) :
    IsLeast {x | x ∈ l} (runMin z l) ↔ (z ∈ l → l.getLast? = some z) := by
  rw [← runMin_eq_start_iff hz hne]
  constructor
  · intro h hmem
    exact le_antisymm (h.2 hmem) (start_le_runMin hz)
  · intro h
    refine ⟨runMin_mem z hne, fun x hx => ?_⟩
    by_cases hmem : z ∈ l
    · rw [h hmem]
      exact hz x hx
    · exact runMin_le hmem hx

/-! ## the sum -/

theorem sum_between {a b : ℤ} {l : List ℤ} (ha : IsLeast {x | x ∈ l} a)
    (hb : IsGreatest {x | x ∈ l} b) : l.length * a ≤ l.sum ∧ l.sum ≤ l.length * b := by
  have hlow := List.card_nsmul_le_sum l a fun x hx => ha.2 hx
  have hhigh := List.sum_le_card_nsmul l b fun x hx => hb.2 hx
  rw [nsmul_eq_mul] at hlow hhigh
  exact ⟨hlow, hhigh⟩

end Running
