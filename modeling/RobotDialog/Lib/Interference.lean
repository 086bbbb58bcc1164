import RobotDialog.Lib.Runs

/-!
# Runs in which the environment acts finitely often

Some steps of a system are not its own: a spurious wakeup, a signal, a new request.  Nothing gets
done in a run that consists of such steps, so each of them is paid for from a budget.

* `budgeted env step`     `step` on states that carry what is left of the budget;
* `Settles`               every run with a given budget reaches a state with a property;
* `Settles.of_rank`       the rule: the system's own steps lower a rank, a step of the environment
                          raises it by a bounded amount.
-/

namespace Lts

variable {σ ℓ : Type*}

/-- the labels in `env` cost one unit of the budget, which is the first component -/
def budgeted (env : ℓ → Bool) (step : ℓ → σ → Option σ) (l : ℓ) (b : ℕ × σ) : Option (ℕ × σ) :=
  if env l then
    match b.1 with
    | 0 => none
    | k + 1 => (step l b.2).map fun s => (k, s)
  else (step l b.2).map fun s => (b.1, s)

/-- every run from `s` whose steps satisfy `G`, with at most `k` of them in `env`, reaches `P`: it
is not stuck before, and it does not go on for ever without -/
def Settles (env : ℓ → Bool) (step : ℓ → σ → Option σ) (G : σ → ℓ → Prop) (P : σ → Prop) (k : ℕ)
    (s : σ) : Prop :=
  Inevitable (budgeted env step) (fun b l => G b.2 l) (fun b => P b.2) (k, s)

section
variable {env : ℓ → Bool} {step : ℓ → σ → Option σ} {G : σ → ℓ → Prop} {P : σ → Prop} {s : σ}

theorem budgeted_own {l : ℓ} (h : env l = false) (b : ℕ × σ) :
    budgeted env step l b = (step l b.2).map fun s => (b.1, s) := by
  unfold budgeted
  rw [h]
  rfl

theorem budgeted_cases {l : ℓ} {b b' : ℕ × σ} (h : budgeted env step l b = some b') :
    step l b.2 = some b'.2 ∧
      ((env l = false ∧ b'.1 = b.1) ∨ (env l = true ∧ b.1 = b'.1 + 1)) := by
  obtain ⟨k, s⟩ := b
  cases he : env l with
  | false =>
    rw [budgeted_own he] at h
    obtain ⟨s', hs', rfl⟩ := Option.map_eq_some_iff.mp h
    exact ⟨hs', .inl ⟨rfl, rfl⟩⟩
  | true =>
    unfold budgeted at h
    rw [he, if_pos rfl] at h
    cases k with
    | zero => cases h
    | succ k =>
      obtain ⟨s', hs', rfl⟩ := Option.map_eq_some_iff.mp h
      exact ⟨hs', .inr ⟨rfl, rfl⟩⟩

/-- **The rule of the falling rank, with an environment.**  Among the states with `I`, a state
without `P` has a step of the system; the system's own steps keep `I` and lower the rank, a step of
the environment keeps `I` and raises the rank by at most `c`. -/
theorem Settles.of_rank (I : σ → Prop) (rank : σ → ℕ) (c : ℕ)
    (hsome : ∀ s, I s → ¬ P s → ∃ l s', env l = false ∧ G s l ∧ step l s = some s')
    (hown : ∀ s l s', I s → ¬ P s → G s l → env l = false → step l s = some s' →
      I s' ∧ rank s' < rank s)
    (henv : ∀ s l s', I s → ¬ P s → G s l → env l = true → step l s = some s' →
      I s' ∧ rank s' ≤ rank s + c)
    (h : I s) (k : ℕ) : Settles env step G P k s := by
  refine Inevitable.of_rank (fun b => I b.2) (fun b => rank b.2 + (c + 1) * b.1) ?_ ?_ h
  · intro b hI hP
    obtain ⟨l, s', he, hG, hst⟩ := hsome b.2 hI hP
    exact ⟨l, (b.1, s'), hG, by rw [budgeted_own he, hst]; rfl⟩
  · intro b l b' hI hP hG hst
    obtain ⟨hst, ⟨he, hk⟩ | ⟨he, hk⟩⟩ := budgeted_cases hst
    · obtain ⟨hI', hlt⟩ := hown b.2 l b'.2 hI hP hG he hst
      refine ⟨hI', ?_⟩
      show rank b'.2 + (c + 1) * b'.1 < rank b.2 + (c + 1) * b.1
      rw [hk]
      omega
    · obtain ⟨hI', hle⟩ := henv b.2 l b'.2 hI hP hG he hst
      refine ⟨hI', ?_⟩
      show rank b'.2 + (c + 1) * b'.1 < rank b.2 + (c + 1) * b.1
      rw [hk, Nat.mul_succ]
      omega

end

end Lts
