import Mathlib.Algebra.Order.Field.Basic
import Mathlib.Algebra.Order.Field.Rat
import Mathlib.Tactic.Linarith
import Mathlib.Tactic.NormNum
import Mathlib.Tactic.NormNum.OfScientific
import Mathlib.Tactic.Ring
import RobotDialog.Wire.Request

/-!
# Personalities and their mirror images

`PersonalityVector` and `PersonalityDisplacement` of the client, with exact numbers: how far each
trait is from its median, and the vector on the other side of the medians.

* `PersonalityVector`, `symmetricVector`      five traits, and their mirror image;
* `computeDisplacement`, `ofVector`           the displacement of a trait, and of all of them;
* `computeDisplacement_reflect`               it is odd about the median;
* `symmetric_conscientiousness`               the one trait that is not reflected;
* `symmetricVector_iff`                       when all traits are mirrored; when twice is nothing.
-/

namespace Client
open Wire

/-! ## vectors -/

structure PersonalityVector where
  extroversion : ℚ
  agreeableness : ℚ
  conscientiousness : ℚ
  emotionalStability : ℚ
  opennessToExperiences : ℚ
  deriving DecidableEq, Repr

namespace PersonalityVector

def median : PersonalityVector := ⟨4.44, 5.23, 5.4, 4.83, 5.38⟩

def stdDev : PersonalityVector := ⟨1.45, 1.11, 1.32, 1.42, 1.07⟩

def symmetricVector (vector : PersonalityVector) : PersonalityVector where
  extroversion := 2 * median.extroversion - vector.extroversion
  agreeableness := 2 * median.agreeableness - vector.agreeableness
  conscientiousness := 2 * median.conscientiousness
  emotionalStability := 2 * median.emotionalStability - vector.emotionalStability
  opennessToExperiences := 2 * median.opennessToExperiences - vector.opennessToExperiences

end PersonalityVector

/-! ## displacements -/

/-- the `code` of an enum constant -/
def code : PersonalityDisplacementValues → Int
  | .veryLow => -2
  | .low => -1
  | .medium => 0
  | .high => 1
  | .veryHigh => 2

/-- `displacementFromCode`: the constant with this code, else MEDIUM -/
def displacementFromCode (c : Int) : PersonalityDisplacementValues :=
  ([.veryLow, .low, .medium, .high, .veryHigh].find? (code · = c)).getD .medium

def computeDisplacement (value stdDev median : ℚ) : PersonalityDisplacementValues :=
  let sign : Int := if value > median then 1 else -1
  let delta := |value - median|
  if delta < stdDev then displacementFromCode 0
  else if delta < 2 * stdDev then displacementFromCode (sign * 1)
  else displacementFromCode (sign * 2)

open PersonalityVector in
/-- `PersonalityDisplacement(personalityVector)` -/
def ofVector (v : PersonalityVector) : PersonalityDisplacement where
  extroversion := computeDisplacement v.extroversion stdDev.extroversion median.extroversion
  agreeableness := computeDisplacement v.agreeableness stdDev.agreeableness median.agreeableness
  conscientiousness :=
    computeDisplacement v.conscientiousness stdDev.conscientiousness median.conscientiousness
  emotionalStability :=
    computeDisplacement v.emotionalStability stdDev.emotionalStability median.emotionalStability
  opennessToExperiences :=
    computeDisplacement v.opennessToExperiences stdDev.opennessToExperiences
      median.opennessToExperiences

/-! ## one trait -/

section
variable {s m x : ℚ}

theorem computeDisplacement_near (h : |x - m| < s) : computeDisplacement x s m = .medium := by
  unfold computeDisplacement
  rw [if_pos h]
  rfl

theorem code_above (hgt : m < x) (hfar : ¬ |x - m| < s) :
    code (computeDisplacement x s m) = if |x - m| < 2 * s then 1 else 2 := by
  unfold computeDisplacement
  rw [if_neg hfar, if_pos hgt]
  split <;> rfl

theorem code_below (hle : x ≤ m) (hfar : ¬ |x - m| < s) :
    code (computeDisplacement x s m) = if |x - m| < 2 * s then -1 else -2 := by
  unfold computeDisplacement
  rw [if_neg hfar, if_neg (not_lt.mpr hle)]
  split <;> rfl

/-- **The displacement is odd about the median**: the trait on the other side has the code with the
other sign. -/
theorem computeDisplacement_reflect (hs : 0 < s) (m x : ℚ) :
    code (computeDisplacement (2 * m - x) s m) = -code (computeDisplacement x s m) := by
  have hdelta : |2 * m - x - m| = |x - m| := by
    rw [abs_sub_comm x m]
    congr 1
    ring
  by_cases hnear : |x - m| < s
  · rw [computeDisplacement_near hnear, computeDisplacement_near (hdelta ▸ hnear)]
    rfl
  have hne : x ≠ m := by
    rintro rfl
    rw [sub_self, abs_zero] at hnear
    exact hnear hs
  have hfar : ¬ |2 * m - x - m| < s := hdelta ▸ hnear
  rcases lt_or_gt_of_ne hne with hlt | hgt
  · rw [code_above (by linarith) hfar, code_below hlt.le hnear, hdelta]
    split <;> rfl
  · rw [code_below (by linarith) hfar, code_above hgt hnear, hdelta]
    split <;> rfl

theorem code_eq_veryLow_iff (hs : 0 < s) (m x : ℚ) :
    code (computeDisplacement x s m) = -2 ↔ x ≤ m - 2 * s := by
  constructor
  · intro h
    by_cases hnear : |x - m| < s
    · rw [computeDisplacement_near hnear] at h
      cases h
    · rcases lt_or_ge m x with hgt | hle
      · rw [code_above hgt hnear] at h
        split at h <;> cases h
      · rw [code_below hle hnear] at h
        split at h
        · cases h
        · rename_i hfar
          rw [abs_of_nonpos (by linarith)] at hfar
          linarith
  · intro h
    have hdelta : |x - m| = m - x := by
      rw [abs_of_nonpos (by linarith)]
      ring
    rw [code_below (by linarith) (by rw [hdelta]; linarith), hdelta, if_neg (by linarith)]

end

/-! ## all traits -/

/-- the codes of a trait and of its mirror image -/
def Opposite (d d' : PersonalityDisplacementValues) : Prop := code d = -code d'

/-- the displacement of the mirror image has the opposite of each trait, conscientiousness apart -/
structure OthersMirrored (v : PersonalityVector) : Prop where
  extroversion : Opposite (ofVector v.symmetricVector).extroversion (ofVector v).extroversion
  agreeableness : Opposite (ofVector v.symmetricVector).agreeableness (ofVector v).agreeableness
  emotionalStability :
    Opposite (ofVector v.symmetricVector).emotionalStability (ofVector v).emotionalStability
  opennessToExperiences :
    Opposite (ofVector v.symmetricVector).opennessToExperiences (ofVector v).opennessToExperiences

/-- the displacement of the mirror image has the opposite of each trait -/
structure Mirrored (v : PersonalityVector) : Prop extends OthersMirrored v where
  conscientiousness :
    Opposite (ofVector v.symmetricVector).conscientiousness (ofVector v).conscientiousness

theorem others_mirrored (v : PersonalityVector) : OthersMirrored v where
  extroversion := computeDisplacement_reflect (by norm_num [PersonalityVector.stdDev]) _ _
  agreeableness := computeDisplacement_reflect (by norm_num [PersonalityVector.stdDev]) _ _
  emotionalStability := computeDisplacement_reflect (by norm_num [PersonalityVector.stdDev]) _ _
  opennessToExperiences := computeDisplacement_reflect (by norm_num [PersonalityVector.stdDev]) _ _

/-- **The conscientiousness of the mirror image is very high**, whatever it was. -/
theorem symmetric_conscientiousness (v : PersonalityVector) :
    code (ofVector v.symmetricVector).conscientiousness = 2 := by
  have hreflect := computeDisplacement_reflect (s := PersonalityVector.stdDev.conscientiousness)
    (by norm_num [PersonalityVector.stdDev]) PersonalityVector.median.conscientiousness 0
  have hlow : code (computeDisplacement 0 PersonalityVector.stdDev.conscientiousness
      PersonalityVector.median.conscientiousness) = -2 := by
    rw [code_eq_veryLow_iff (by norm_num [PersonalityVector.stdDev])]
    norm_num [PersonalityVector.stdDev, PersonalityVector.median]
  rw [hlow, sub_zero] at hreflect
  exact hreflect

theorem mirrored_iff (v : PersonalityVector) : Mirrored v ↔ v.conscientiousness ≤ 2.76 := by
  have hlow : code (ofVector v).conscientiousness = -2 ↔ v.conscientiousness ≤ 2.76 := by
    have h := code_eq_veryLow_iff (s := PersonalityVector.stdDev.conscientiousness)
      (by norm_num [PersonalityVector.stdDev]) PersonalityVector.median.conscientiousness
      v.conscientiousness
    have hvalue : PersonalityVector.median.conscientiousness -
        2 * PersonalityVector.stdDev.conscientiousness = 2.76 := by
      norm_num [PersonalityVector.stdDev, PersonalityVector.median]
    rw [hvalue] at h
    exact h
  have hopposite : Opposite (ofVector v.symmetricVector).conscientiousness
      (ofVector v).conscientiousness ↔ code (ofVector v).conscientiousness = -2 := by
    unfold Opposite
    rw [symmetric_conscientiousness]
    omega
  rw [← hlow, ← hopposite]
  exact ⟨fun h => h.conscientiousness, fun h => ⟨others_mirrored v, h⟩⟩

theorem symmetric_symmetric_iff (v : PersonalityVector) :
    v.symmetricVector.symmetricVector = v ↔ v.conscientiousness = 10.8 := by
  have hvalue : 2 * PersonalityVector.median.conscientiousness = 10.8 := by
    norm_num [PersonalityVector.median]
  constructor
  · intro h
    have hc : 2 * PersonalityVector.median.conscientiousness = v.conscientiousness :=
      congrArg PersonalityVector.conscientiousness h
    rw [← hc, hvalue]
  · intro h
    obtain ⟨e, a, c, s, o⟩ := v
    have hc : c = 2 * PersonalityVector.median.conscientiousness := by
      rw [hvalue]
      exact h
    unfold PersonalityVector.symmetricVector
    simp only [PersonalityVector.mk.injEq]
    refine ⟨by ring, by ring, hc.symm, by ring, by ring⟩

/-- **What the symmetric vector mirrors.** Four traits are mirrored for every vector; all five are
if and only if the conscientiousness is two standard deviations below its median, twice the mirror
is the vector again if and only if the conscientiousness is twice the median, and never both. -/
theorem symmetricVector_iff (v : PersonalityVector) :
    OthersMirrored v ∧ (Mirrored v ↔ v.conscientiousness ≤ 2.76) ∧
      (v.symmetricVector.symmetricVector = v ↔ v.conscientiousness = 10.8) ∧
      ¬ (Mirrored v ∧ v.symmetricVector.symmetricVector = v) := by
  refine ⟨others_mirrored v, mirrored_iff v, symmetric_symmetric_iff v, ?_⟩
  rintro ⟨hmirror, htwice⟩
  rw [mirrored_iff] at hmirror
  rw [symmetric_symmetric_iff] at htwice
  rw [htwice] at hmirror
  norm_num at hmirror

theorem median_not_mirrored :
    ¬ (Mirrored PersonalityVector.median ∧
      PersonalityVector.median.symmetricVector.symmetricVector = PersonalityVector.median) := by
  rintro ⟨hmirror, -⟩
  rw [mirrored_iff] at hmirror
  norm_num [PersonalityVector.median] at hmirror

end Client
