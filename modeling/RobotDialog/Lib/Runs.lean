import Mathlib.Logic.Function.Basic
import Mathlib.Order.Basic

/-!
# Runs of a labelled step function

A system is a partial step function `step : ℓ → σ → Option σ`: the label fixes every choice that
the system itself leaves open (which thread moves, what a call returns), `none` means that the
label is not enabled.

* `exec step s ls`       the state after the labels `ls`;
* `Reach step G s₀ s`    `s` is reached from `s₀` by a run whose every step satisfies the guard `G`
                         in the state before it;
* `Reach.inv`            the invariant rule: what holds first and is kept by a step holds always;
* `Reach.of_exec`        an executed list of labels is a run;
* `Reach.simulate`       a step-by-step simulation with stuttering matches runs with runs;
* `update_cases`         a step that changes one member of a family;
* `Inevitable`           every run reaches a state with a property and cannot avoid it;
* `Inevitable.of_rank`   the rule: no run is stuck before, and every step lowers a rank;
* `logged`               the system with a log of what its steps do.
-/

namespace Lts

variable {σ τ ℓ κ : Type*}

/-- the state after a list of labels, `none` as soon as a label is not enabled -/
def exec (step : ℓ → σ → Option σ) : σ → List ℓ → Option σ
  | s, [] => some s
  | s, l :: ls => (step l s).bind fun s' => exec step s' ls

/-- the guard that allows every step -/
def Any : σ → ℓ → Prop := fun _ _ => True

/-- the states reached by the runs whose every step satisfies `G` -/
inductive Reach (step : ℓ → σ → Option σ) (G : σ → ℓ → Prop) (s₀ : σ) : σ → Prop
  | start : Reach step G s₀ s₀
  | next {s s' : σ} (l : ℓ) : Reach step G s₀ s → G s l → step l s = some s' →
      Reach step G s₀ s'

theorem exec_nil (step : ℓ → σ → Option σ) (s : σ) : exec step s [] = some s := rfl

theorem exec_cons (step : ℓ → σ → Option σ) (s : σ) (l : ℓ) (ls : List ℓ) :
    exec step s (l :: ls) = (step l s).bind fun s' => exec step s' ls := rfl

theorem exec_append (step : ℓ → σ → Option σ) (s : σ) (ls ms : List ℓ) :
    exec step s (ls ++ ms) = (exec step s ls).bind fun s' => exec step s' ms := by
  induction ls generalizing s with
  | nil => rfl
  | cons l ls ih =>
    rw [List.cons_append, exec_cons, exec_cons, Option.bind_assoc]
    congr 1
    funext s'
    exact ih s'

theorem Reach.of_exec_from {step : ℓ → σ → Option σ} {G : σ → ℓ → Prop} {s₀ s s' : σ}
    (ls : List ℓ) (hs : Reach step G s₀ s) (hG : ∀ s l, l ∈ ls → G s l)
    (h : exec step s ls = some s') : Reach step G s₀ s' := by
  induction ls generalizing s with
  | nil =>
    rw [exec_nil, Option.some.injEq] at h
    exact h ▸ hs
  | cons l ls ih =>
    rw [exec_cons, Option.bind_eq_some_iff] at h
    obtain ⟨m, hm, h⟩ := h
    exact ih (hs.next l (hG s l List.mem_cons_self) hm)
      (fun s l' hl' => hG s l' (List.mem_cons_of_mem _ hl')) h

theorem Reach.of_exec {step : ℓ → σ → Option σ} {s₀ s : σ} (ls : List ℓ)
    (h : exec step s₀ ls = some s) : Reach step Any s₀ s :=
  Reach.of_exec_from ls .start (fun _ _ _ => trivial) h

/-- `step` where the test `g` holds, disabled elsewhere -/
def guarded (g : σ → ℓ → Bool) (step : ℓ → σ → Option σ) (l : ℓ) (s : σ) : Option σ :=
  if g s l then step l s else none

/-- An executed list of labels whose steps all pass a test `g` is a run with the guard `G`, if the
test implies the guard in the states that satisfy `J`, and the steps keep `J`. -/
theorem Reach.of_guarded {step : ℓ → σ → Option σ} {G : σ → ℓ → Prop} (J : σ → Prop)
    (g : σ → ℓ → Bool) (hg : ∀ s l, J s → g s l = true → G s l)
    (hJ : ∀ s l s', J s → g s l = true → step l s = some s' → J s') {s₀ s : σ} (h0 : J s₀)
    (ls : List ℓ) (h : exec (guarded g step) s₀ ls = some s) : Reach step G s₀ s := by
  suffices H : ∀ m, Reach step G s₀ m → J m → exec (guarded g step) m ls = some s →
      Reach step G s₀ s from H s₀ .start h0 h
  clear h h0
  intro m hm hJm h
  induction ls generalizing m with
  | nil =>
    rw [exec_nil, Option.some.injEq] at h
    exact h ▸ hm
  | cons l ls ih =>
    rw [exec_cons, Option.bind_eq_some_iff] at h
    obtain ⟨m', hm', h⟩ := h
    unfold guarded at hm'
    split at hm'
    · rename_i hgl
      exact ih m' (hm.next l (hg m l hJm hgl) hm') (hJ m l m' hJm hgl hm') h
    · cases hm'

theorem Reach.of_decide {step : ℓ → σ → Option σ} {G : σ → ℓ → Prop}
    [∀ s l, Decidable (G s l)] {s₀ s : σ} (ls : List ℓ)
    (h : exec (guarded (fun s l => decide (G s l)) step) s₀ ls = some s) : Reach step G s₀ s :=
  Reach.of_guarded (fun _ => True) _ (fun _ _ _ hg => of_decide_eq_true hg)
    (fun _ _ _ _ _ _ => trivial) trivial ls h

section
variable {step : ℓ → σ → Option σ} {G : σ → ℓ → Prop} {s₀ s : σ}

/-- **The invariant rule.**  The step may use that the state before it is reached by the run, and
with it every invariant proved earlier. -/
theorem Reach.inv (I : σ → Prop) (h0 : I s₀)
    (hstep : ∀ s l s', Reach step G s₀ s → I s → G s l → step l s = some s' → I s')
    (h : Reach step G s₀ s) : I s := by
  induction h with
  | start => exact h0
  | next l hr hG hst ih => exact hstep _ l _ hr ih hG hst

/-- A run whose steps satisfy another guard too. -/
theorem Reach.guard {G' : σ → ℓ → Prop}
    (hG : ∀ s l s', Reach step G s₀ s → G s l → step l s = some s' → G' s l)
    (h : Reach step G s₀ s) : Reach step G' s₀ s := by
  induction h with
  | start => exact .start
  | next l hr hl hst ih => exact ih.next l (hG _ l _ hr hl hst) hst

theorem Reach.mono {G' : σ → ℓ → Prop} (hG : ∀ s l, G s l → G' s l) (h : Reach step G s₀ s) :
    Reach step G' s₀ s :=
  h.guard fun s l _ _ hl _ => hG s l hl

/-- **Simulation with stuttering.**  If every step of a run is matched by at most one step of the
system `step'` that satisfies `G'`, the run is matched by a run of `step'` with the guard `G'`. -/
theorem Reach.simulate {step' : κ → τ → Option τ} {G' : τ → κ → Prop} {R : σ → τ → Prop} {t₀ : τ}
    (h0 : R s₀ t₀)
    (hstep : ∀ s l s' t, Reach step G s₀ s → R s t → step l s = some s' →
      R s' t ∨ ∃ k t', G' t k ∧ step' k t = some t' ∧ R s' t')
    (h : Reach step G s₀ s) : ∃ t, Reach step' G' t₀ t ∧ R s t := by
  induction h with
  | start => exact ⟨t₀, .start, h0⟩
  | next l hr _ hst ih =>
    obtain ⟨t, ht, hR⟩ := ih
    rcases hstep _ l _ t hr hR hst with hR' | ⟨k, t', hk, hst', hR'⟩
    · exact ⟨t, ht, hR'⟩
    · exact ⟨t', ht.next k hk hst', hR'⟩

/-- **One member of a family changes**: what holds of a member afterwards holds of its new value, or
it held before of a member that has not changed. -/
theorem update_cases {ι β : Type*} [DecidableEq ι] {f : ι → β} {k i : ι} {x : β} (P : β → Prop)
    (h : P (Function.update f k x i)) : (i = k ∧ P x) ∨ (i ≠ k ∧ P (f i)) := by
  by_cases e : i = k
  · subst e
    rw [Function.update_self] at h
    exact .inl ⟨rfl, h⟩
  · rw [Function.update_of_ne e] at h
    exact .inr ⟨e, h⟩

/-- every run from here reaches a state with `P`: no run is stuck before, none goes on for ever
without -/
inductive Inevitable (step : ℓ → σ → Option σ) (G : σ → ℓ → Prop) (P : σ → Prop) : σ → Prop
  | done {s : σ} : P s → Inevitable step G P s
  | next {s : σ} : (∃ l s', G s l ∧ step l s = some s') →
      (∀ l s', G s l → step l s = some s' → Inevitable step G P s') → Inevitable step G P s

/-- **The rule of the falling rank.**  Among the states with `I`, a state without `P` has a step,
and every step from it keeps `I` and lowers the rank. -/
theorem Inevitable.of_rank {P : σ → Prop} (I : σ → Prop) (rank : σ → ℕ)
    (hsome : ∀ s, I s → ¬ P s → ∃ l s', G s l ∧ step l s = some s')
    (hstep : ∀ s l s', I s → ¬ P s → G s l → step l s = some s' → I s' ∧ rank s' < rank s)
    (h : I s) : Inevitable step G P s := by
  induction hr : rank s using Nat.strongRecOn generalizing s with
  | ind r ih =>
    by_cases hP : P s
    · exact .done hP
    · refine .next (hsome s h hP) fun l s' hG hst => ?_
      obtain ⟨hI, hlt⟩ := hstep s l s' h hP hG hst
      exact ih (rank s') (hr ▸ hlt) hI rfl

end

/-! ## runs with a log -/

section
variable {α : Type*} {step : ℓ → σ → Option σ} {emit : σ → ℓ → List α} {G : σ → ℓ → Prop}

/-- `step` with a log, to which a step appends what `emit` gives in the state before it -/
def logged (step : ℓ → σ → Option σ) (emit : σ → ℓ → List α) (l : ℓ) (p : σ × List α) :
    Option (σ × List α) :=
  (step l p.1).map fun s' => (s', p.2 ++ emit p.1 l)

theorem Reach.of_logged {s₀ : σ} {log₀ : List α} {p : σ × List α}
    (h : Reach (logged step emit) (fun p => G p.1) (s₀, log₀) p) : Reach step G s₀ p.1 := by
  induction h with
  | start => exact .start
  | next l _ hG hst ih =>
    obtain ⟨s', hs, rfl⟩ := Option.map_eq_some_iff.mp hst
    exact ih.next l hG hs

end

end Lts
