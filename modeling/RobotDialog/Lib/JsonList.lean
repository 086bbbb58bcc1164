import RobotDialog.Lib.JsonContext

/-!
# Comma-separated lists of JSON values

* `Elements`          a text that stands for these values when brackets are put around it;
* `elements_iff`      what the reader does with such a text behind the bracket;
* `elements_value`    and behind a comma;
* `close_ws`          white space in front of the closing bracket plays no role.
-/

namespace Json
open CString

/-- the text is a list of these values, separated by commas -/
def Elements (text : Bytes) (vs : List Value) : Prop :=
  read (91 :: (text ++ [93])) = some (.array vs)

/-- the text is a list of at least one object -/
def ObjectList (text : Bytes) (vs : List Value) : Prop :=
  Elements text vs ∧ vs ≠ [] ∧ ∀ v ∈ vs, v.isObject = true

theorem append_last {text a b : Bytes} {c d : UInt8} (h : text ++ [d] = a ++ c :: b)
    (hb : b.all isWs = true) (hd : isWs d = false) : text = a ∧ d = c ∧ b = [] := by
  induction b using List.reverseRecOn with
  | nil =>
    obtain ⟨h1, h2⟩ := List.append_inj' h rfl
    exact ⟨h1, List.singleton_inj.mp h2, rfl⟩
  | append_singleton b e =>
    have hassoc : a ++ c :: (b ++ [e]) = (a ++ c :: b) ++ [e] := by simp
    rw [hassoc] at h
    have he : d = e := List.singleton_inj.mp (List.append_inj' h rfl).2
    have hws : isWs e = true := List.all_eq_true.mp hb e (by simp)
    rw [← he, hd] at hws
    cases hws

theorem elements_iff {text : Bytes} {vs : List Value} :
    Elements text vs ↔ ∃ s₁, run ⟨.first, [.array []]⟩ text = some s₁ ∧ s₁.stack ≠ [] ∧
      step s₁ 93 = some ⟨.done (.array vs), []⟩ := by
  have hread : Elements text vs ↔
      (run ⟨.first, [.array []]⟩ (text ++ [93])).bind finish = some (.array vs) := Iff.rfl
  rw [hread, finish_run (List.cons_ne_nil _ _)]
  constructor
  · rintro ⟨a, c, b, s₁, he, ha, h₁, hc, hb⟩
    obtain ⟨rfl, rfl, -⟩ := append_last he hb (by decide)
    exact ⟨s₁, ha, h₁, hc⟩
  · rintro ⟨s₁, ha, h₁, hc⟩
    exact ⟨text, 93, [], s₁, rfl, ha, h₁, hc, rfl⟩

/-- Behind the bracket and behind a comma the reader does the same, but for the end of the list. -/
theorem run_first_value (text : Bytes) {s₁ : State} (h₁ : s₁.stack ≠ []) :
    (run ⟨.first, [.array []]⟩ text = some s₁ →
      s₁ = ⟨.first, [.array []]⟩ ∨ run ⟨.value, [.array []]⟩ text = some s₁) ∧
    (run ⟨.value, [.array []]⟩ text = some s₁ →
      s₁ = ⟨.value, [.array []]⟩ ∨ run ⟨.first, [.array []]⟩ text = some s₁) := by
  induction text with
  | nil =>
    exact ⟨fun h => .inl (Option.some.inj h).symm, fun h => .inl (Option.some.inj h).symm⟩
  | cons c text ih =>
    have hfirst : step ⟨.first, [.array []]⟩ c =
        if isWs c then some ⟨.first, [.array []]⟩
        else if c = 93 then some ⟨.done (.array []), []⟩
        else startValue c [.array []] := rfl
    have hvalue : step ⟨.value, [.array []]⟩ c =
        if isWs c then some ⟨.value, [.array []]⟩ else startValue c [.array []] := rfl
    rw [run_cons, run_cons, hfirst, hvalue]
    by_cases hws : isWs c = true
    · rw [if_pos hws, if_pos hws]
      exact ih
    rw [if_neg hws, if_neg hws]
    by_cases hc : c = 93
    · subst hc
      have hno : startValue 93 [.array []] = none := rfl
      rw [if_pos rfl, hno]
      refine ⟨fun h => ?_, fun h => by cases h⟩
      rw [Option.bind_some, run_done] at h
      split at h
      · rw [← Option.some.inj h] at h₁
        exact absurd rfl h₁
      · cases h
    · rw [if_neg hc]
      exact ⟨fun h => .inr h, fun h => .inr h⟩

theorem elements_value {text : Bytes} {vs : List Value} (h : Elements text vs) (hne : vs ≠ []) :
    ∃ s₁, run ⟨.value, [.array []]⟩ text = some s₁ ∧ s₁.stack ≠ [] ∧
      step s₁ 93 = some ⟨.done (.array vs), []⟩ := by
  obtain ⟨s₁, hrun, h₁, hc⟩ := elements_iff.mp h
  rcases (run_first_value text h₁).1 hrun with rfl | h
  · have hempty : step ⟨.first, [.array []]⟩ 93 = some ⟨.done (.array []), []⟩ := rfl
    rw [hempty, Option.some.injEq, State.mk.injEq, Mode.done.injEq, Value.array.injEq] at hc
    exact absurd hc.1.symm hne
  · exact ⟨s₁, h, h₁, hc⟩

theorem elements_of_value {text : Bytes} {vs : List Value} {s₁ : State}
    (hrun : run ⟨.value, [.array []]⟩ text = some s₁) (h₁ : s₁.stack ≠ [])
    (hc : step s₁ 93 = some ⟨.done (.array vs), []⟩) : Elements text vs := by
  rw [elements_iff]
  rcases (run_first_value text h₁).2 hrun with rfl | h
  · cases hc
  · exact ⟨s₁, h, h₁, hc⟩

theorem close_ws {s : State} {v : Value} (hs : s.stack ≠ [])
    (h : step s 93 = some ⟨.done v, []⟩) :
    ∃ s₁, step s 32 = some s₁ ∧ s₁.stack ≠ [] ∧ step s₁ 93 = some ⟨.done v, []⟩ := by
  obtain ⟨mode, fs⟩ := s
  cases mode with
  | first => exact ⟨_, rfl, hs, h⟩
  | after => exact ⟨_, rfl, hs, h⟩
  | number phase text =>
    have hstep : ∀ c, phase.next c = none → step ⟨.number phase text, fs⟩ c =
        if phase.final then follow (deliver (.number text) fs) c else none := by
      intro c hc
      simp only [step, hc]
    have h93 : phase.next 93 = none := by cases phase <;> rfl
    have h32 : phase.next 32 = none := by cases phase <;> rfl
    rw [hstep 93 h93] at h
    split at h
    · rename_i hfinal
      refine ⟨deliver (.number text) fs, ?_, deliver_ne_nil _ hs, ?_⟩
      · rw [hstep 32 h32, if_pos hfinal]
        rfl
      · obtain ⟨f, fs, rfl⟩ := List.exists_cons_of_ne_nil hs
        cases f with
        | array items => exact h
        | member members name => exact h
        | object members => cases h
    · cases h
  | escape t => cases h
  | hex t more n => cases h
  | literal rest w =>
    cases rest with
    | nil => cases h
    | cons b rest =>
      simp only [step] at h
      split at h
      · split at h
        · have hdeliver := deliver_ne_nil w hs
          rw [Option.some.inj h] at hdeliver
          exact absurd rfl hdeliver
        · cases h
      · cases h
  | done w =>
    obtain ⟨f, fs, rfl⟩ := List.exists_cons_of_ne_nil hs
    cases h
  | _ => cases h

/-! ## the rest of an array or object -/

/-- the text is what may stand in an array between a comma and the closing bracket -/
def ContinuesArray (text : Bytes) : Prop :=
  (read (ascii "[null," ++ (text ++ [93]))).isSome = true

/-- the text is what may stand in an object between a member and the closing brace -/
def ContinuesObject (text : Bytes) : Prop :=
  (read (ascii "\x7b\"\":null" ++ (text ++ [125]))).isSome = true

theorem continuesArray_iff {text : Bytes} :
    ContinuesArray text ↔ ∃ s₁ vs, run ⟨.value, [.array []]⟩ text = some s₁ ∧ s₁.stack ≠ [] ∧
      step s₁ 93 = some ⟨.done (.array vs), []⟩ := by
  have hne : (⟨.value, [.array []]⟩ : State).stack ≠ [] := List.cons_ne_nil _ _
  have hread : ContinuesArray text ↔ ((run (Context.state ⟨[.null], [], []⟩ ⟨.value, [.array []]⟩)
      (text ++ [93])).bind finish).isSome = true := Iff.rfl
  rw [hread, Option.isSome_iff_exists]
  simp only [finish_context (K := ⟨[.null], [], []⟩) rfl hne, finish_run hne]
  constructor
  · rintro ⟨w, v, ⟨a, c, b, s₁, he, ha, h₁, hc, hb⟩, -⟩
    obtain ⟨rfl, rfl, -⟩ := append_last he hb (by decide)
    rcases closed_value h₁ hc with ⟨-, -, items, rfl⟩ | ⟨hbad, -⟩
    · exact ⟨s₁, items, ha, h₁, hc⟩
    · exact absurd hbad (by decide)
  · rintro ⟨s₁, vs, ha, h₁, hc⟩
    exact ⟨_, _, ⟨text, 93, [], s₁, rfl, ha, h₁, hc, rfl⟩, rfl⟩

theorem continuesObject_iff {text : Bytes} :
    ContinuesObject text ↔ ∃ s₁ more, run ⟨.after, [.object []]⟩ text = some s₁ ∧ s₁.stack ≠ [] ∧
      step s₁ 125 = some ⟨.done (.object more), []⟩ := by
  have hne : (⟨.after, [.object []]⟩ : State).stack ≠ [] := List.cons_ne_nil _ _
  have hread : ContinuesObject text ↔
      ((run (Context.state ⟨[], [([], .null)], []⟩ ⟨.after, [.object []]⟩)
        (text ++ [125])).bind finish).isSome = true := Iff.rfl
  rw [hread, Option.isSome_iff_exists]
  simp only [finish_context (K := ⟨[], [([], .null)], []⟩) rfl hne, finish_run hne]
  constructor
  · rintro ⟨w, v, ⟨a, c, b, s₁, he, ha, h₁, hc, hb⟩, -⟩
    obtain ⟨rfl, rfl, -⟩ := append_last he hb (by decide)
    rcases closed_value h₁ hc with ⟨hbad, -⟩ | ⟨-, -, members, rfl⟩
    · exact absurd hbad (by decide)
    · exact ⟨s₁, members, ha, h₁, hc⟩
  · rintro ⟨s₁, more, ha, h₁, hc⟩
    exact ⟨_, _, ⟨text, 125, [], s₁, rfl, ha, h₁, hc, rfl⟩, rfl⟩

/-- A bracket completes an array, or it is a character of a string or of a literal. -/
theorem step_bracket {s s' : State} (h : step s 93 = some s') :
    (∃ v fs, s' = deliver v fs) ∨ (∃ t fs, s' = ⟨.string t, fs⟩) ∨
      ∃ rest v fs, s' = ⟨.literal rest v, fs⟩ := by
  have hclose : ∀ {fs : List Frame}, closeArray fs = some s' → ∃ v gs, s' = deliver v gs := by
    intro fs hc
    rcases fs with - | ⟨f, fs⟩
    · cases hc
    · cases f with
      | array items => exact ⟨_, _, (Option.some.inj hc).symm⟩
      | object members => cases hc
      | member members name => cases hc
  have hfollow : ∀ {r : State}, follow r 93 = some s' → ∃ v gs, s' = deliver v gs := by
    intro r hr
    unfold follow at hr
    rw [if_neg (by decide)] at hr
    split at hr
    · rw [if_neg (by decide), if_pos rfl] at hr
      exact hclose hr
    · rw [if_neg (by decide), if_neg (by decide)] at hr
      cases hr
    · cases hr
  obtain ⟨mode, fs⟩ := s
  cases mode with
  | first => exact .inl (hclose h)
  | after => exact .inl (hfollow h)
  | done v => exact .inl (hfollow h)
  | string t => exact .inr (.inl ⟨_, _, (Option.some.inj h).symm⟩)
  | number phase text =>
    have h93 : phase.next 93 = none := by cases phase <;> rfl
    simp only [step, h93] at h
    split at h
    · exact .inl (hfollow h)
    · cases h
  | literal rest v =>
    cases rest with
    | nil => cases h
    | cons b rest =>
      simp only [step] at h
      split at h
      · split at h
        · exact .inl ⟨_, _, (Option.some.inj h).symm⟩
        · exact .inr (.inr ⟨_, _, _, (Option.some.inj h).symm⟩)
      · cases h
  | _ => cases h

/-- **An object that ends behind a bracket has a member.** -/
theorem close_bracket {s s' : State} {v : Value} (h : step s 93 = some s') (hs : s'.stack ≠ [])
    (hc : step s' 125 = some ⟨.done v, []⟩) : ∃ members m, v = .object (members ++ [m]) := by
  rcases step_bracket h with ⟨w, fs, rfl⟩ | ⟨t, fs, rfl⟩ | ⟨rest, w, fs, rfl⟩
  · rcases fs with - | ⟨f, fs⟩
    · cases hc
    · cases f with
      | array items => cases hc
      | object members => cases hc
      | member members name =>
        have hgo : step (deliver w (.member members name :: fs)) 125 =
            some (deliver (.object (members ++ [(name, w)])) fs) := rfl
        rw [hgo] at hc
        rcases fs with - | ⟨g, fs⟩
        · have he := Option.some.inj hc
          exact ⟨members, (name, w), by
            have hdone : deliver (.object (members ++ [(name, w)])) [] =
                ⟨.done (.object (members ++ [(name, w)])), []⟩ := rfl
            rw [hdone, State.mk.injEq, Mode.done.injEq] at he
            exact he.1.symm⟩
        · have hopen := deliver_ne_nil (.object (members ++ [(name, w)])) (List.cons_ne_nil g fs)
          rw [Option.some.inj hc] at hopen
          exact absurd rfl hopen
  · cases hc
  · have hopen := deliver_ne_nil w hs
    rcases rest with - | ⟨b, rest⟩
    · cases hc
    · simp only [step] at hc
      split at hc
      · split at hc
        · rw [Option.some.inj hc] at hopen
          exact absurd rfl hopen
        · cases hc
      · cases hc

end Json
