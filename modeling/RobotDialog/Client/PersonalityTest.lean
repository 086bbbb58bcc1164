import Mathlib.Algebra.BigOperators.Group.List.Basic
import Mathlib.Data.List.Perm.Lattice
import Mathlib.Data.Rat.Cast.Order
import RobotDialog.Client.Personality

/-!
# The personality test

`TestCore` draws the ten questions in any order, `textAnswerToNum` makes a number of each answer and
`ComputePersonalityUseCase` makes a vector of the numbers.

* `textAnswerToNum`                 the number of an answer, in any language;
* `computePersonality`              the vector of a map of answers;
* `testCore`                        the loop over the questions, for an order of the draws;
* `computePersonalityVector_perm`   the order of the answers does not matter;
* `testCore_eq_some_iff`            every order gives the TIPI scores;
* `testCore_sound_iff`              they are scores from 1 to 7 unless two answers conflict.
-/

namespace Client

/-! ## answers -/

/-- the keys of `PersonalityTest.questions` -/
def questionNumbers : List UInt32 := [1, 2, 3, 4, 5, 6, 7, 8, 9, 10]

def possibleAnswers : List (UInt32 × String) :=
  [(1, "answer.1"), (2, "answer.2"), (3, "answer.3"), (4, "answer.4"), (5, "answer.5"),
    (6, "answer.6"), (7, "answer.7")]

/-- an answer, and `getLocalizedString` in the language of that moment -/
structure GivenAnswer where
  getLocalizedString : String → String
  answer : String

variable (lowercase : String → String)

/-- the text of the entry `e`, in any case -/
def isAnswer (heard : GivenAnswer) (e : UInt32 × String) : Bool :=
  lowercase (heard.getLocalizedString e.2) == lowercase heard.answer

def textAnswerToNum (heard : GivenAnswer) : UInt32 :=
  ((possibleAnswers.find? (isAnswer lowercase heard)).map Prod.fst).getD 0

/-! ## scores -/

def average (l : List ℚ) : ℚ := l.sum / l.length

/-- the value of the key `g` after `groupBy { it.key % 5u }` and `average`; `none` is null -/
def groupAverage (entries : List (UInt32 × UInt32)) (g : UInt32) : Option ℚ :=
  let group := (entries.filter fun e => e.1 % 5 = g).map fun e => (e.2.toNat : ℚ)
  if group = [] then none else some (average group)

def computePersonalityVector (answers : List (UInt32 × UInt32)) : PersonalityVector :=
  let entries := answers.map fun e => (e.1, if e.1 % 2 = 0 then 8 - e.2 else e.2)
  { extroversion := (groupAverage entries (1 % 5)).getD 0
    agreeableness := (groupAverage entries (2 % 5)).getD 0
    conscientiousness := (groupAverage entries (3 % 5)).getD 0
    emotionalStability := (groupAverage entries (4 % 5)).getD 0
    opennessToExperiences := (groupAverage entries (5 % 5)).getD 0 }

/-- `ComputePersonalityUseCase` -/
def computePersonality (answers : List (UInt32 × UInt32)) : PersonalityVector :=
  if answers = [] then PersonalityVector.median else computePersonalityVector answers

/-! ## the loop over the questions -/

/-- `responses[k] = v`, in a map that keeps the order of insertion -/
def put (responses : List (UInt32 × UInt32)) (k v : UInt32) : List (UInt32 × UInt32) :=
  if k ∈ responses.map Prod.fst then
    responses.map fun e => if e.1 = k then (k, v) else e
  else responses ++ [(k, v)]

/-- the loop of `TestCore` when `random` draws the questions in this order and `answer` gives the
number of an answer; `none` if a question is not left, or if some are left at the end -/
def testLoop (answer : UInt32 → UInt32) :
    List UInt32 → List (UInt32 × UInt32) → List UInt32 → Option (List (UInt32 × UInt32))
  | questionsToAsk, responses, [] => if questionsToAsk = [] then some responses else none
  | questionsToAsk, responses, q :: order =>
    if q ∈ questionsToAsk then
      testLoop answer (questionsToAsk.erase q) (put responses q (answer q)) order
    else none

/-- the vector that `TestCore` hands on -/
def testCore (heard : UInt32 → GivenAnswer) (order : List UInt32) : Option PersonalityVector :=
  (testLoop (fun q => textAnswerToNum lowercase (heard q)) questionNumbers [] order).map
    computePersonality

/-! ## the score of a test -/

/-- the mean of the direct item and of 8 minus the reversed item -/
def itemScore (number : UInt32 → UInt32) (direct rev : UInt32) : ℚ :=
  (((number direct).toNat : ℚ) + (8 - ((number rev).toNat : ℚ))) / 2

/-- the direct item and the reversed item of each trait -/
def items : List (UInt32 × UInt32) := [(1, 6), (7, 2), (3, 8), (9, 4), (5, 10)]

/-- the TIPI scores of these answers -/
def tipi (number : UInt32 → UInt32) : PersonalityVector :=
  ⟨itemScore number 1 6, itemScore number 7 2, itemScore number 3 8, itemScore number 9 4,
    itemScore number 5 10⟩

def OnScale (score : ℚ) : Prop := 1 ≤ score ∧ score ≤ 7

/-- every trait lies between 1 and 7 -/
structure InRange (v : PersonalityVector) : Prop where
  extroversion : OnScale v.extroversion
  agreeableness : OnScale v.agreeableness
  conscientiousness : OnScale v.conscientiousness
  emotionalStability : OnScale v.emotionalStability
  opennessToExperiences : OnScale v.opennessToExperiences

/-- the answer is none of the possible answers -/
def Unrecognised (heard : GivenAnswer) : Prop :=
  ∀ e ∈ possibleAnswers, isAnswer lowercase heard e = false

/-- the answer is the last of the possible answers, and none before it -/
def Strongest (heard : GivenAnswer) : Prop :=
  isAnswer lowercase heard (7, "answer.7") = true ∧
    ∀ e ∈ possibleAnswers.take 6, isAnswer lowercase heard e = false

/-- one of the two answers is not recognised and the other one is the strongest -/
def Conflict (h h' : GivenAnswer) : Prop :=
  (Unrecognised lowercase h ∧ Strongest lowercase h') ∨
    (Strongest lowercase h ∧ Unrecognised lowercase h')

/-- **The scoring is sound** for these answers: the vector does not depend on the order of the
draws, it has the TIPI scores, and they lie between 1 and 7. -/
structure SoundScoring (heard : UInt32 → GivenAnswer) : Prop where
  order : ∀ o o' v v', testCore lowercase heard o = some v → testCore lowercase heard o' = some v' →
    v = v'
  score : ∀ o v, testCore lowercase heard o = some v →
    v = tipi fun q => textAnswerToNum lowercase (heard q)
  range : ∀ o v, testCore lowercase heard o = some v → InRange v

/-! ## the order of the draws -/

theorem groupAverage_perm {l l' : List (UInt32 × UInt32)} (h : l.Perm l') (g : UInt32) :
    groupAverage l g = groupAverage l' g := by
  have hgroup := (h.filter fun e => e.1 % 5 = g).map fun e => (e.2.toNat : ℚ)
  unfold groupAverage average
  simp only [hgroup.sum_eq, hgroup.length_eq]
  by_cases hnil : ((l.filter fun e => e.1 % 5 = g).map fun e => (e.2.toNat : ℚ)) = []
  · rw [if_pos hnil, if_pos (List.nil_perm.mp (hnil ▸ hgroup))]
  · have hnil' : ((l'.filter fun e => e.1 % 5 = g).map fun e => (e.2.toNat : ℚ)) ≠ [] := by
      intro e
      rw [e] at hgroup
      exact hnil (List.perm_nil.mp hgroup)
    rw [if_neg hnil, if_neg hnil']

/-- **The order of the answers does not matter.** -/
theorem computePersonalityVector_perm {l l' : List (UInt32 × UInt32)} (h : l.Perm l') :
    computePersonalityVector l = computePersonalityVector l' := by
  have hentries := h.map fun e => (e.1, if e.1 % 2 = 0 then 8 - e.2 else e.2)
  unfold computePersonalityVector
  simp only [groupAverage_perm hentries]

theorem computePersonality_perm {l l' : List (UInt32 × UInt32)} (h : l.Perm l') :
    computePersonality l = computePersonality l' := by
  unfold computePersonality
  rw [computePersonalityVector_perm h]
  by_cases hnil : l = []
  · subst hnil
    rw [List.nil_perm.mp h]
  · have hnil' : l' ≠ [] := by
      rintro rfl
      exact hnil (List.perm_nil.mp h)
    rw [if_neg hnil, if_neg hnil']

theorem testLoop_iff (answer : UInt32 → UInt32) (questionsToAsk order : List UInt32)
    (responses result : List (UInt32 × UInt32)) (hnodup : questionsToAsk.Nodup)
    (hfresh : ∀ q ∈ questionsToAsk, q ∉ responses.map Prod.fst) :
    testLoop answer questionsToAsk responses order = some result ↔
      order.Perm questionsToAsk ∧ result = responses ++ order.map fun q => (q, answer q) := by
  induction order generalizing questionsToAsk responses with
  | nil =>
    unfold testLoop
    by_cases hnil : questionsToAsk = []
    · rw [if_pos hnil, hnil, Option.some.injEq, List.map_nil, List.append_nil]
      exact ⟨fun h => ⟨List.Perm.refl _, h.symm⟩, fun h => h.2.symm⟩
    · rw [if_neg hnil]
      refine iff_of_false (fun h => by cases h) fun h => hnil ?_
      exact List.nil_perm.mp h.1
  | cons q order ih =>
    unfold testLoop
    by_cases hq : q ∈ questionsToAsk
    · rw [if_pos hq]
      have hput : put responses q (answer q) = responses ++ [(q, answer q)] := if_neg (hfresh q hq)
      have hfresh' : ∀ r ∈ questionsToAsk.erase q,
          r ∉ (responses ++ [(q, answer q)]).map Prod.fst := by
        intro r hr hmem
        obtain ⟨hne, hr⟩ := hnodup.mem_erase_iff.mp hr
        rw [List.map_append, List.mem_append] at hmem
        rcases hmem with hmem | hmem
        · exact hfresh r hr hmem
        · exact hne (List.mem_singleton.mp hmem)
      rw [hput, ih _ _ (hnodup.erase q) hfresh', List.cons_perm_iff_perm_erase, List.map_cons,
        List.append_assoc, List.singleton_append]
      exact ⟨fun h => ⟨⟨hq, h.1⟩, h.2⟩, fun h => ⟨h.1.2, h.2⟩⟩
    · rw [if_neg hq]
      refine iff_of_false (fun h => by cases h) fun h => hq ?_
      exact h.1.subset List.mem_cons_self

/-! ## the numbers of the answers -/

section
variable {lowercase} {heard : GivenAnswer}

theorem textAnswerToNum_le (heard : GivenAnswer) : (textAnswerToNum lowercase heard).toNat ≤ 7 := by
  have hall : ∀ e ∈ possibleAnswers, e.1.toNat ≤ 7 := by decide
  unfold textAnswerToNum
  rcases hfind : possibleAnswers.find? (isAnswer lowercase heard) with - | e
  · exact Nat.zero_le 7
  · exact hall e (List.mem_of_find?_eq_some hfind)

/-- **Which answers are counted as 0.** -/
theorem textAnswerToNum_zero_iff :
    (textAnswerToNum lowercase heard).toNat = 0 ↔ Unrecognised lowercase heard := by
  have hall : ∀ e ∈ possibleAnswers, e.1.toNat ≠ 0 := by decide
  unfold textAnswerToNum
  rcases hfind : possibleAnswers.find? (isAnswer lowercase heard) with - | e
  · refine iff_of_true rfl fun e he => ?_
    exact (Bool.not_eq_true _).mp (List.find?_eq_none.mp hfind e he)
  · have he := List.mem_of_find?_eq_some hfind
    refine iff_of_false (hall e he) fun h => ?_
    have hno := h e he
    rw [List.find?_some hfind] at hno
    cases hno

/-- **Which answers are counted as 7.** -/
theorem textAnswerToNum_seven_iff :
    (textAnswerToNum lowercase heard).toNat = 7 ↔ Strongest lowercase heard := by
  have hsplit : possibleAnswers = possibleAnswers.take 6 ++ [(7, "answer.7")] := rfl
  have hweaker : ∀ e ∈ possibleAnswers.take 6, e.1.toNat ≠ 7 := by decide
  unfold textAnswerToNum Strongest
  rw [hsplit, List.find?_append, ← hsplit]
  rcases hfind : (possibleAnswers.take 6).find? (isAnswer lowercase heard) with - | e
  · -- none of the weaker answers: it is the last one, or none at all
    have hnone : ∀ e ∈ possibleAnswers.take 6, isAnswer lowercase heard e = false := fun e he =>
      (Bool.not_eq_true _).mp (List.find?_eq_none.mp hfind e he)
    rw [Option.none_or]
    by_cases hlast : isAnswer lowercase heard (7, "answer.7") = true
    · rw [List.find?_cons_of_pos hlast]
      exact iff_of_true rfl ⟨hlast, hnone⟩
    · rw [List.find?_cons_of_neg hlast]
      exact iff_of_false (fun h => by cases h) fun h => hlast h.1
  · have he := List.mem_of_find?_eq_some hfind
    rw [Option.some_or]
    refine iff_of_false (hweaker e he) fun h => ?_
    have hno := h.2 e he
    rw [List.find?_some hfind] at hno
    cases hno

end

/-! ## the scores -/

theorem groupAverage_pair {entries : List (UInt32 × UInt32)} {g : UInt32} {a b : UInt32 × UInt32}
    (h : (entries.filter fun e => e.1 % 5 = g) = [a, b]) :
    (groupAverage entries g).getD 0 = ((a.2.toNat : ℚ) + (b.2.toNat : ℚ)) / 2 := by
  unfold groupAverage average
  simp only [h, List.map_cons, List.map_nil]
  rw [if_neg (List.cons_ne_nil _ _)]
  show List.sum [(a.2.toNat : ℚ), (b.2.toNat : ℚ)] / ((2 : Nat) : ℚ) = _
  rw [List.sum_cons, List.sum_singleton, Nat.cast_ofNat]

/-- A reversed answer. -/
theorem reversed_eq {v : UInt32} (h : v.toNat ≤ 7) : ((8 - v).toNat : ℚ) = 8 - (v.toNat : ℚ) := by
  have hle : v ≤ 8 := by
    rw [UInt32.le_iff_toNat_le]
    exact h.trans (by decide)
  rw [UInt32.toNat_sub_of_le _ _ hle, Nat.cast_sub (UInt32.le_iff_toNat_le.mp hle)]
  rfl

/-- **The vector of all answers has the TIPI scores.** -/
theorem computePersonality_questions {number : UInt32 → UInt32} (h : ∀ q, (number q).toNat ≤ 7) :
    computePersonality (questionNumbers.map fun q => (q, number q)) = tipi number := by
  have hscore : ∀ {a b : UInt32 × UInt32} {d r : UInt32},
      (a.2 = number d ∧ b.2 = 8 - number r) ∨ (a.2 = 8 - number r ∧ b.2 = number d) →
      ((a.2.toNat : ℚ) + (b.2.toNat : ℚ)) / 2 = itemScore number d r := by
    intro a b d r hab
    unfold itemScore
    rcases hab with ⟨ha, hb⟩ | ⟨ha, hb⟩
    · rw [ha, hb, reversed_eq (h r)]
    · rw [ha, hb, reversed_eq (h r), add_comm]
  have hentries : ((questionNumbers.map fun q => (q, number q)).map fun e =>
      (e.1, if e.1 % 2 = 0 then 8 - e.2 else e.2)) =
      [(1, number 1), (2, 8 - number 2), (3, number 3), (4, 8 - number 4), (5, number 5),
        (6, 8 - number 6), (7, number 7), (8, 8 - number 8), (9, number 9), (10, 8 - number 10)] := by
    simp [questionNumbers]
  show computePersonalityVector (questionNumbers.map fun q => (q, number q)) = _
  unfold computePersonalityVector tipi
  rw [hentries, PersonalityVector.mk.injEq]
  refine ⟨?_, ?_, ?_, ?_, ?_⟩
  · rw [groupAverage_pair (a := (1, number 1)) (b := (6, 8 - number 6)) (by simp)]
    exact hscore (.inl ⟨rfl, rfl⟩)
  · rw [groupAverage_pair (a := (2, 8 - number 2)) (b := (7, number 7)) (by simp)]
    exact hscore (.inr ⟨rfl, rfl⟩)
  · rw [groupAverage_pair (a := (3, number 3)) (b := (8, 8 - number 8)) (by simp)]
    exact hscore (.inl ⟨rfl, rfl⟩)
  · rw [groupAverage_pair (a := (4, 8 - number 4)) (b := (9, number 9)) (by simp)]
    exact hscore (.inr ⟨rfl, rfl⟩)
  · rw [groupAverage_pair (a := (5, number 5)) (b := (10, 8 - number 10)) (by simp)]
    exact hscore (.inl ⟨rfl, rfl⟩)

/-- **Every order of the draws gives the TIPI scores.** -/
theorem testCore_eq_some_iff (heard : UInt32 → GivenAnswer) (order : List UInt32)
    (v : PersonalityVector) :
    testCore lowercase heard order = some v ↔
      order.Perm questionNumbers ∧ v = tipi fun q => textAnswerToNum lowercase (heard q) := by
  have hloop := fun result => testLoop_iff (fun q => textAnswerToNum lowercase (heard q))
    questionNumbers order [] result (by decide) fun _ _ h => absurd h List.not_mem_nil
  have hvector : ∀ h : order.Perm questionNumbers,
      computePersonality (order.map fun q => (q, textAnswerToNum lowercase (heard q))) =
        tipi fun q => textAnswerToNum lowercase (heard q) := by
    intro h
    rw [← computePersonality_questions fun q => textAnswerToNum_le (heard q)]
    exact computePersonality_perm (h.map _)
  unfold testCore
  rw [Option.map_eq_some_iff]
  constructor
  · rintro ⟨result, hresult, rfl⟩
    obtain ⟨hperm, rfl⟩ := (hloop result).mp hresult
    exact ⟨hperm, hvector hperm⟩
  · rintro ⟨hperm, rfl⟩
    exact ⟨_, (hloop _).mpr ⟨hperm, rfl⟩, hvector hperm⟩

/-! ## the range -/

/-- A score is off the scale when one of its answers is 0 and the other one 7. -/
theorem onScale_iff {number : UInt32 → UInt32} (h : ∀ q, (number q).toNat ≤ 7) (d r : UInt32) :
    OnScale (itemScore number d r) ↔
      ¬ (((number d).toNat = 0 ∧ (number r).toNat = 7) ∨
        ((number d).toNat = 7 ∧ (number r).toNat = 0)) := by
  have hd := h d
  have hr := h r
  unfold OnScale itemScore
  generalize (number d).toNat = n at hd
  generalize (number r).toNat = m at hr
  have hlow : 1 ≤ ((n : ℚ) + (8 - (m : ℚ))) / 2 ↔ m ≤ n + 6 := by
    rw [le_div_iff₀ (by norm_num), ← Nat.cast_le (α := ℚ), Nat.cast_add]
    constructor
    · intro hle
      norm_num
      linarith
    · intro hle
      norm_num at hle
      linarith
  have hhigh : ((n : ℚ) + (8 - (m : ℚ))) / 2 ≤ 7 ↔ n ≤ m + 6 := by
    rw [div_le_iff₀ (by norm_num), ← Nat.cast_le (α := ℚ), Nat.cast_add]
    constructor
    · intro hle
      norm_num
      linarith
    · intro hle
      norm_num at hle
      linarith
  rw [hlow, hhigh]
  omega

theorem onScale_conflict_iff (heard : UInt32 → GivenAnswer) (d r : UInt32) :
    OnScale (itemScore (fun q => textAnswerToNum lowercase (heard q)) d r) ↔
      ¬ Conflict lowercase (heard d) (heard r) := by
  rw [onScale_iff fun q => textAnswerToNum_le (heard q)]
  unfold Conflict
  rw [← textAnswerToNum_zero_iff, ← textAnswerToNum_zero_iff, ← textAnswerToNum_seven_iff,
    ← textAnswerToNum_seven_iff]

theorem inRange_iff (heard : UInt32 → GivenAnswer) :
    InRange (tipi fun q => textAnswerToNum lowercase (heard q)) ↔
      ∀ i ∈ items, ¬ Conflict lowercase (heard i.1) (heard i.2) := by
  unfold items
  simp only [List.forall_mem_cons, List.not_mem_nil, false_imp_iff, implies_true, and_true]
  simp only [← onScale_conflict_iff]
  exact ⟨fun ⟨h1, h2, h3, h4, h5⟩ => ⟨h1, h2, h3, h4, h5⟩,
    fun ⟨h1, h2, h3, h4, h5⟩ => ⟨h1, h2, h3, h4, h5⟩⟩

/-- **When the scoring is sound.** For any answers in any language: every order of the draws gives
the TIPI scores, whatever the answers are; and they lie between 1 and 7 if and only if in no pair of
items one answer is not recognised and the other one is the strongest. -/
theorem testCore_sound_iff (heard : UInt32 → GivenAnswer) :
    (∀ order v, testCore lowercase heard order = some v ↔
      order.Perm questionNumbers ∧ v = tipi fun q => textAnswerToNum lowercase (heard q)) ∧
    (SoundScoring lowercase heard ↔
      ∀ i ∈ items, ¬ Conflict lowercase (heard i.1) (heard i.2)) := by
  have hrun := testCore_eq_some_iff lowercase heard
  refine ⟨hrun, ?_⟩
  rw [← inRange_iff]
  constructor
  · intro h
    exact h.range questionNumbers _ ((hrun _ _).mpr ⟨List.Perm.refl _, rfl⟩)
  · intro h
    refine ⟨fun o o' v v' hv hv' => ?_, fun o v hv => ((hrun o v).mp hv).2, fun o v hv => ?_⟩
    · rw [((hrun o v).mp hv).2, ((hrun o' v').mp hv').2]
    · rw [((hrun o v).mp hv).2]
      exact h

/-! ## an answer that is not recognised -/

/-- the texts of the bundle `string_en` -/
def englishBundle : List (String × String) :=
  [("answer.1", "Strongly disagree"), ("answer.2", "Moderately disagree"),
    ("answer.3", "Slightly disagree"), ("answer.4", "Neither agree nor disagree"),
    ("answer.5", "Slightly agree"), ("answer.6", "Moderately agree"), ("answer.7", "Strongly agree")]

/-- an answer in English -/
def inEnglish (answer : String) : GivenAnswer where
  getLocalizedString := fun key => (englishBundle.lookup key).getD ""
  answer := answer

def asciiLowercase (s : String) : String := String.ofList (s.toList.map Char.toLower)

/-- The first answer is not recognised, the others are `strongly agree`. -/
theorem testCore_off_scale :
    ¬ SoundScoring asciiLowercase fun q =>
      if q = 1 then inEnglish "null" else inEnglish "strongly agree" := by
  intro h
  have hrange := h.range questionNumbers _
    ((testCore_eq_some_iff _ _ _ _).mpr ⟨List.Perm.refl _, rfl⟩)
  have hnull : Unrecognised asciiLowercase (inEnglish "null") := by
    unfold Unrecognised
    decide +kernel
  have hagree : Strongest asciiLowercase (inEnglish "strongly agree") := by
    unfold Strongest
    decide +kernel
  exact (inRange_iff _ _).mp hrange (1, 6) List.mem_cons_self (.inl ⟨hnull, hagree⟩)

end Client
