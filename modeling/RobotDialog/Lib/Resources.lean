import Mathlib.Data.Finset.Basic
import RobotDialog.Lib.Runs

/-!
# Resources that are acquired, used and released

A sequence of events, as the statements of a function leave them behind, and the set of the
resources that are held.

* `step`             one event: only what is not held can be acquired, only what is held can be used
                     or released;
* `Clean`            a sequence that begins and ends with nothing held;
* `exec_uses`        what is held stays held while it is only used;
* `exec_count`       how often a resource is acquired and released;
* `Clean.released`   in a clean sequence each acquisition has its release.
-/

namespace Resources
open Lts

inductive Event (ρ : Type*) where
  | acquire (r : ρ)
  | use (r : ρ)
  | release (r : ρ)
  deriving DecidableEq, Repr

variable {ρ : Type*} [DecidableEq ρ]

/-- one event; `none` is a resource that is lost, or used or released without being held -/
def step (e : Event ρ) (held : Finset ρ) : Option (Finset ρ) :=
  match e with
  | .acquire r => if r ∈ held then none else some (insert r held)
  | .use r => if r ∈ held then some held else none
  | .release r => if r ∈ held then some (held.erase r) else none

/-- nothing is lost, used too late or released twice, and in the end everything is released -/
def Clean (events : List (Event ρ)) : Prop := exec step ∅ events = some ∅

instance (events : List (Event ρ)) : Decidable (Clean events) :=
  inferInstanceAs (Decidable (_ = _))

theorem exec_uses {held : Finset ρ} {events : List (Event ρ)}
    (h : ∀ e ∈ events, ∃ x ∈ held, e = .use x) : exec step held events = some held := by
  induction events with
  | nil => rfl
  | cons e events ih =>
    obtain ⟨x, hx, rfl⟩ := h e List.mem_cons_self
    have hstep : step (.use x) held = some held := if_pos hx
    rw [exec_cons, hstep, Option.bind_some]
    exact ih fun e he => h e (List.mem_cons_of_mem _ he)

theorem exec_count {held held' : Finset ρ} {events : List (Event ρ)}
    (h : exec step held events = some held') (r : ρ) :
    events.count (.acquire r) + (if r ∈ held then 1 else 0) =
      events.count (.release r) + if r ∈ held' then 1 else 0 := by
  induction events generalizing held with
  | nil =>
    obtain rfl := Option.some.inj h
    rfl
  | cons e events ih =>
    rw [exec_cons, Option.bind_eq_some_iff] at h
    obtain ⟨next, hstep, h⟩ := h
    have hrest := ih h
    cases e with
    | acquire s =>
      simp only [step] at hstep
      split at hstep
      · cases hstep
      · obtain rfl := Option.some.inj hstep
        rename_i hs
        rw [List.count_cons, List.count_cons_of_ne (by simp)]
        by_cases e : s = r
        · subst e
          rw [if_neg hs]
          rw [if_pos (Finset.mem_insert_self s held)] at hrest
          rw [if_pos (beq_self_eq_true _)]
          omega
        · have hmem : r ∈ insert s held ↔ r ∈ held := by
            rw [Finset.mem_insert]
            exact or_iff_right fun h => e h.symm
          have hne : ¬ (Event.acquire s == Event.acquire r) = true := by simpa using e
          rw [if_neg hne]
          simp only [hmem] at hrest
          omega
    | use s =>
      simp only [step] at hstep
      split at hstep
      · obtain rfl := Option.some.inj hstep
        rw [List.count_cons_of_ne (by simp), List.count_cons_of_ne (by simp)]
        exact hrest
      · cases hstep
    | release s =>
      simp only [step] at hstep
      split at hstep
      · obtain rfl := Option.some.inj hstep
        rename_i hs
        rw [List.count_cons_of_ne (by simp), List.count_cons]
        by_cases e : s = r
        · subst e
          rw [if_pos hs, if_pos (beq_self_eq_true _)]
          rw [if_neg (Finset.notMem_erase s held)] at hrest
          omega
        · have hmem : r ∈ held.erase s ↔ r ∈ held := by
            rw [Finset.mem_erase]
            exact and_iff_right fun h => e h.symm
          have hne : ¬ (Event.release s == Event.release r) = true := by simpa using e
          rw [if_neg hne]
          simp only [hmem] at hrest
          omega
      · cases hstep

/-- **In a clean sequence each acquisition has its release.** -/
theorem Clean.released {events : List (Event ρ)} (h : Clean events) (r : ρ) :
    events.count (.acquire r) = events.count (.release r) := by
  have hcount := exec_count h r
  rw [if_neg (Finset.notMem_empty r)] at hcount
  omega

end Resources
