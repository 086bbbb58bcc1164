import RobotDialog.Lib.CString

/-!
# What `strtol` reads

A number is an optional sign and decimal digits, with white space around them.

* `Sign`, `IsNumber`   numbers as text, with their values;
* `trim_split`         a string is its trimmed part between white space;
* `strtol_number`      a number is read whole;
* `strtol_whole`       what is read whole is a number or empty;
* `strtol_trim`        a trimmed string is read whole when the string is a number or blank.
-/

namespace CString

/-- the sign in front of a number -/
inductive Sign where
  | none
  | plus
  | minus
  deriving DecidableEq, Repr

def Sign.text : Sign → Bytes
  | .none => []
  | .plus => [43]
  | .minus => [45]

/-- the value of a number with the magnitude `n` -/
def Sign.value : Sign → Nat → Int
  | .none, n => n
  | .plus, n => n
  | .minus, n => -n

/-- nothing but white space -/
def Blank (s : Bytes) : Prop := ∀ c ∈ s, isspace c = true

/-- `t` is a number with the value `z`, with white space around it -/
def IsNumber (t : Bytes) (z : Int) : Prop :=
  ∃ before sign ds after, t = before ++ (Sign.text sign ++ ds) ++ after ∧
    Blank before ∧ Blank after ∧ ds ≠ [] ∧ (∀ c ∈ ds, isdigit c = true) ∧
    z = sign.value (digitsValue ds)

/-! ## white space -/

theorem Blank.append {s t : Bytes} (hs : Blank s) (ht : Blank t) : Blank (s ++ t) := by
  intro c hc
  rcases List.mem_append.mp hc with h | h
  · exact hs c h
  · exact ht c h

theorem Blank.trim {s : Bytes} (h : Blank s) : trim s = [] := by
  show (s.dropWhile isspace).rdropWhile isspace = []
  rw [List.dropWhile_eq_nil_iff.mpr h]
  rfl

theorem trim_split (s : Bytes) :
    ∃ before after, Blank before ∧ Blank after ∧ s = before ++ trim s ++ after := by
  refine ⟨s.takeWhile isspace, (s.dropWhile isspace).rtakeWhile isspace, ?_, ?_, ?_⟩
  · intro c hc
    exact List.mem_takeWhile_imp hc
  · intro c hc
    exact List.mem_rtakeWhile_imp hc
  · show s = s.takeWhile isspace ++ (s.dropWhile isspace).rdropWhile isspace ++ _
    rw [List.append_assoc, List.rdropWhile_append_rtakeWhile, List.takeWhile_append_dropWhile]

theorem trim_between {before core after : Bytes} (hb : Blank before) (ha : Blank after)
    (hne : core ≠ []) (hhead : isspace (core.head hne) = false)
    (hlast : isspace (core.getLast hne) = false) : trim (before ++ core ++ after) = core := by
  have hfront : (before ++ core ++ after).dropWhile isspace = core ++ after := by
    obtain ⟨c, core', rfl⟩ := List.exists_cons_of_ne_nil hne
    rw [List.append_assoc, List.dropWhile_append_of_pos hb, List.cons_append,
      List.dropWhile_cons_of_neg]
    simpa using hhead
  show ((before ++ core ++ after).dropWhile isspace).rdropWhile isspace = core
  rw [hfront]
  unfold List.rdropWhile
  rw [List.reverse_append, List.dropWhile_append_of_pos (by simpa [Blank] using ha)]
  obtain ⟨pre, c, rfl⟩ : ∃ pre c, core = pre ++ [c] :=
    ⟨_, _, (List.dropLast_append_getLast hne).symm⟩
  have hc : isspace c = false := by simpa using hlast
  rw [List.reverse_append, List.reverse_singleton, List.singleton_append,
    List.dropWhile_cons_of_neg (by simpa using hc)]
  simp

/-! ## numbers -/

/-- What `strtol` does behind white space and a sign. -/
theorem strtol_sign {s u : Bytes} (sign : Sign) (hs : s.dropWhile isspace = sign.text ++ u)
    (hfirst : sign = .none → ∀ c r, u = c :: r → c ≠ 45 ∧ c ≠ 43) :
    strtol s =
      if u.takeWhile isdigit = [] then (0, s)
      else (sign.value (digitsValue (u.takeWhile isdigit)), u.dropWhile isdigit) := by
  cases sign with
  | plus =>
    unfold strtol
    rw [hs]
    rfl
  | minus =>
    unfold strtol
    rw [hs]
    rfl
  | none =>
    cases u with
    | nil =>
      unfold strtol
      rw [hs]
      rfl
    | cons c r =>
      obtain ⟨hminus, hplus⟩ := hfirst rfl c r rfl
      have hm : (c == 45) = false := beq_eq_false_iff_ne.mpr hminus
      have hp : (c == 43) = false := beq_eq_false_iff_ne.mpr hplus
      unfold strtol
      rw [hs]
      simp only [Sign.text, List.nil_append, hm, hp, Bool.false_eq_true, if_false]
      rfl

theorem sign_split (t : Bytes) :
    ∃ sign u, t = Sign.text sign ++ u ∧
      (sign = .none → ∀ c r, u = c :: r → c ≠ 45 ∧ c ≠ 43) := by
  cases t with
  | nil => exact ⟨.none, [], rfl, fun _ c r h => by cases h⟩
  | cons c r =>
    by_cases hminus : c = 45
    · exact ⟨.minus, r, by rw [hminus]; rfl, fun h => by cases h⟩
    · by_cases hplus : c = 43
      · exact ⟨.plus, r, by rw [hplus]; rfl, fun h => by cases h⟩
      · refine ⟨.none, c :: r, rfl, fun _ d r' h => ?_⟩
        rw [List.cons.injEq] at h
        rw [← h.1]
        exact ⟨hminus, hplus⟩

theorem strtol_suffix (s : Bytes) : (strtol s).2 <:+ s := by
  obtain ⟨sign, u, hsign, hfirst⟩ := sign_split (s.dropWhile isspace)
  rw [strtol_sign sign hsign hfirst]
  split
  · exact List.suffix_refl s
  · have hu : u <:+ s.dropWhile isspace := hsign ▸ List.suffix_append _ _
    exact ((List.dropWhile_suffix _).trans hu).trans (List.dropWhile_suffix _)

theorem strtol_signed (sign : Sign) {ds : Bytes} (hne : ds ≠ [])
    (hds : ∀ c ∈ ds, isdigit c = true) :
    strtol (sign.text ++ ds) = (sign.value (digitsValue ds), []) := by
  have hspace : (sign.text ++ ds).dropWhile isspace = sign.text ++ ds := by
    obtain ⟨d, ds', rfl⟩ := List.exists_cons_of_ne_nil hne
    have hd : isspace d = false := isspace_of_isdigit (hds d List.mem_cons_self)
    cases sign with
    | none => exact List.dropWhile_cons_of_neg (by simp [hd])
    | plus => rfl
    | minus => rfl
  have hfirst : sign = .none → ∀ c r, ds = c :: r → c ≠ 45 ∧ c ≠ 43 := by
    rintro - c r rfl
    have hc : isdigit c = true := hds c List.mem_cons_self
    constructor
    all_goals
      rintro rfl
      exact absurd hc (by decide)
  rw [strtol_sign sign hspace hfirst, List.takeWhile_eq_self_iff.mpr hds,
    List.dropWhile_eq_nil_iff.mpr hds, if_neg hne]

/-- **A number is read whole.** -/
theorem strtol_number {t : Bytes} {z : Int} (h : IsNumber t z) : strtol (trim t) = (z, []) := by
  obtain ⟨before, sign, ds, after, rfl, hb, ha, hne, hds, rfl⟩ := h
  have hcore : sign.text ++ ds ≠ [] := by simp [hne]
  have hhead : isspace ((sign.text ++ ds).head hcore) = false := by
    cases sign with
    | none => exact isspace_of_isdigit (hds _ (List.head_mem hne))
    | plus => rfl
    | minus => rfl
  have hlast : isspace ((sign.text ++ ds).getLast hcore) = false := by
    rw [List.getLast_append_of_ne_nil _ hne]
    exact isspace_of_isdigit (hds _ (List.getLast_mem hne))
  rw [trim_between hb ha hcore hhead hlast, strtol_signed sign hne hds]

/-- **What is read whole is a number or empty.** -/
theorem strtol_whole {s : Bytes} (h : (strtol s).2 = []) :
    s = [] ∨ IsNumber s (strtol s).1 := by
  obtain ⟨sign, u, hu, hfirst⟩ := sign_split (s.dropWhile isspace)
  rw [strtol_sign sign hu hfirst] at h ⊢
  by_cases hds : u.takeWhile isdigit = []
  · rw [if_pos hds] at h
    exact .inl h
  · right
    rw [if_neg hds] at h ⊢
    have hall : u.takeWhile isdigit = u := by
      rw [List.takeWhile_eq_self_iff]
      exact List.dropWhile_eq_nil_iff.mp h
    show IsNumber s (sign.value (digitsValue (u.takeWhile isdigit)))
    rw [hall] at hds ⊢
    refine ⟨s.takeWhile isspace, sign, u, [], ?_, fun c hc => List.mem_takeWhile_imp hc,
      fun c hc => absurd hc List.not_mem_nil, hds, List.takeWhile_eq_self_iff.mp hall, rfl⟩
    rw [List.append_nil, ← hu, List.takeWhile_append_dropWhile]

theorem IsNumber.pad {t before after : Bytes} {z : Int} (h : IsNumber t z) (hb : Blank before)
    (ha : Blank after) : IsNumber (before ++ t ++ after) z := by
  obtain ⟨b, sign, ds, a, rfl, hb', ha', hne, hds, rfl⟩ := h
  exact ⟨before ++ b, sign, ds, a ++ after, by simp, hb.append hb', ha'.append ha, hne, hds, rfl⟩

/-- **A trimmed string is read whole when the string is a number or blank.** -/
theorem strtol_trim (t : Bytes) (z : Int) :
    strtol (trim t) = (z, []) ↔ IsNumber t z ∨ (Blank t ∧ z = 0) := by
  constructor
  · intro h
    obtain ⟨before, after, hb, ha, ht⟩ := trim_split t
    rcases strtol_whole (s := trim t) (by rw [h]) with hnil | hnum
    · right
      rw [hnil] at ht h
      rw [List.append_nil] at ht
      exact ⟨by rw [ht]; exact hb.append ha, (congrArg Prod.fst h).symm⟩
    · left
      rw [h] at hnum
      rw [ht]
      exact hnum.pad hb ha
  · rintro (h | ⟨h, rfl⟩)
    · exact strtol_number h
    · rw [h.trim]
      rfl

theorem IsNumber.not_blank {t : Bytes} {z : Int} (h : IsNumber t z) : ¬ Blank t := by
  obtain ⟨before, sign, ds, after, rfl, -, -, hne, hds, -⟩ := h
  intro hblank
  obtain ⟨d, ds', rfl⟩ := List.exists_cons_of_ne_nil hne
  have hd : isspace d = true := hblank d (by simp)
  rw [isspace_of_isdigit (hds d List.mem_cons_self)] at hd
  cases hd

theorem IsNumber.not_mem {t : Bytes} {z : Int} (h : IsNumber t z) {c : UInt8}
    (hspace : isspace c = false) (hdigit : isdigit c = false) (hplus : c ≠ 43)
    (hminus : c ≠ 45) : c ∉ t := by
  obtain ⟨before, sign, ds, after, rfl, hb, ha, -, hds, -⟩ := h
  intro hc
  rcases List.mem_append.mp hc with hc | hc
  · rcases List.mem_append.mp hc with hc | hc
    · rw [hb c hc] at hspace
      cases hspace
    · rcases List.mem_append.mp hc with hc | hc
      · cases sign with
        | none => exact List.not_mem_nil hc
        | plus => exact hplus (List.mem_singleton.mp hc)
        | minus => exact hminus (List.mem_singleton.mp hc)
      · rw [hds c hc] at hdigit
        cases hdigit
  · rw [ha c hc] at hspace
    cases hspace

end CString
