import RobotDialog.Lib.JsonC
import RobotDialog.Server.OneReply

/-!
# The answer of the AI

What `call_gemini_api` makes of the body of an answer with HTTP status 200, as a JSON value.

* `callGeminiApi`       the part of the function behind the parser;
* `Handled`             the body is handled safely: no crash, and success for a text only;
* `firstOf_iff`         the block that takes the first element of an array, used twice;
* `answer_handled_iff`  the bodies that are handled safely;
* `answer_text`         a text that is handed on fits its buffer.
-/

namespace Server
open CString Wire JsonC

/-! ## the function -/

/-- `ai_response_t` -/
structure AiResponse where
  response : Bytes
  success : Int
  deriving DecidableEq, Repr

/-- `ai_response_t` after the `memset` of `generate_ai_response` -/
def AiResponse.cleared : AiResponse := ⟨[], 0⟩

/-- the ways in which the function kills the process -/
inductive Crash where
  | notArray      -- the assertion of json_object_array_get_idx
  | nullText      -- safe_strncpy of a null pointer
  deriving DecidableEq, Repr

section
variable (toJsonString : Value → Bytes)

/-- the block that takes the first element of `items`, with `next` as its inner block -/
def takeFirst (items : Value) (next : Value → Except Crash AiResponse) : Except Crash AiResponse :=
  match arrayGetIdx items 0 with
  | none => .error .notArray
  | some first => if first.isNull then .ok .cleared else next first

/-- the block that takes the first element of the member `key` -/
def firstOf (v : Value) (key : Bytes) (next : Value → Except Crash AiResponse) :
    Except Crash AiResponse :=
  match objectGetEx v key with
  | none => .ok .cleared
  | some items => takeFirst items next

/-- the block of `first_part` -/
def takeText (firstPart : Value) : Except Crash AiResponse :=
  match objectGetEx firstPart (ascii "text") with
  | none => .ok .cleared
  | some text =>
    match getString toJsonString text with
    | none => .error .nullText
    | some aiText => .ok { response := cut maxAiResponseSize (cstr aiText), success := 1 }

/-- the block of `first_candidate` -/
def takeContent (firstCandidate : Value) : Except Crash AiResponse :=
  match objectGetEx firstCandidate (ascii "content") with
  | none => .ok .cleared
  | some content => firstOf content (ascii "parts") (takeText toJsonString)

/-- the block of `resp_root`, which the parser gives as null for a body `null`; that a body without
candidates is also searched for an error has no effect -/
def takeCandidates (respRoot : Value) : Except Crash AiResponse :=
  if respRoot.isNull then .ok .cleared
  else firstOf respRoot (ascii "candidates") (takeContent toJsonString)

/-- `call_gemini_api` behind the parser: the return value and the response -/
def callGeminiApi (respRoot : Value) : Except Crash (Int × AiResponse) :=
  (takeCandidates toJsonString respRoot).map fun response =>
    (if response.success ≠ 0 then 0 else -1, response)

end

/-! ## what is asked of it -/

/-- `candidates` -/
def candidatesPath : List Step := [.key (ascii "candidates")]

/-- `candidates[0].content.parts` -/
def partsPath : List Step :=
  candidatesPath ++ [.index 0, .key (ascii "content"), .key (ascii "parts")]

/-- `candidates[0].content.parts[0].text` -/
def textPath : List Step := partsPath ++ [.index 0, .key (ascii "text")]

/-- the text that a body holds -/
def HasText (root : Value) (s : Bytes) : Prop := root.find textPath = some (.string s)

/-- **The body is handled safely.** The function returns; it returns 0 with `success` 1 and the text
of the body, cut at its buffer, if the body has one, and -1 with `success` 0 if it has none. -/
def Handled (toJsonString : Value → Bytes) (root : Value) : Prop :=
  ∃ rc response, callGeminiApi toJsonString root = .ok (rc, response) ∧
    ((rc = 0 ∧ response.success = 1) ↔ ∃ s, HasText root s) ∧
    (∀ s, HasText root s → response.response = s.take (maxAiResponseSize - 1)) ∧
    ((¬ ∃ s, HasText root s) → rc = -1 ∧ response.success = 0)

/-- a string without a NUL where it is copied -/
def PlainText (v : Value) : Prop :=
  ∃ s, v = .string s ∧ 0 ∉ s.take (maxAiResponseSize - 1)

/-- what stands at the places of the two arrays and of the text is of their kind -/
structure WellShaped (root : Value) : Prop where
  candidates : ∀ v, root.find candidatesPath = some v → v.IsArray
  parts : ∀ v, root.find partsPath = some v → v.IsArray
  text : ∀ v, root.find textPath = some v → PlainText v

/-! ## one block -/

/-- the response to what stands at the place of the text -/
def responseTo (found : Option Value) : AiResponse :=
  match found with
  | some (.string s) => { response := s.take (maxAiResponseSize - 1), success := 1 }
  | _ => .cleared

theorem cut_cstr_iff (s : Bytes) :
    cut maxAiResponseSize (cstr s) = s.take (maxAiResponseSize - 1) ↔
      0 ∉ s.take (maxAiResponseSize - 1) := by
  unfold cut cstr
  rw [List.take_takeWhile]
  constructor
  · intro h hmem
    rw [← h] at hmem
    exact nul_not_mem_cstr _ hmem
  · intro h
    exact cstr_eq_self h

section
variable {toJsonString : Value → Bytes}

theorem takeText_iff (firstPart : Value) :
    takeText toJsonString firstPart = .ok (responseTo (firstPart.find [.key (ascii "text")])) ↔
      ∀ v, firstPart.find [.key (ascii "text")] = some v → PlainText v := by
  have hnone : ∀ r : Bytes,
      (.ok ⟨r, 1⟩ : Except Crash AiResponse) ≠ .ok AiResponse.cleared := by
    intro r h
    cases h
  have hplain : ∀ v, (∀ s, v ≠ .string s) → ¬ PlainText v := by
    rintro v hv ⟨s, rfl, -⟩
    exact hv s rfl
  rw [find_single]
  unfold takeText
  cases objectGetEx firstPart (ascii "text") with
  | none => exact iff_of_true rfl fun v h => by cases h
  | some v =>
    have hall : (∀ w, some v = some w → PlainText w) ↔ PlainText v :=
      ⟨fun h => h v rfl, fun h w hw => Option.some.inj hw ▸ h⟩
    rw [hall]
    cases v with
    | null => exact iff_of_false (fun h => by cases h) (hplain _ fun s h => by cases h)
    | boolean b => exact iff_of_false (hnone _) (hplain _ fun s h => by cases h)
    | number text => exact iff_of_false (hnone _) (hplain _ fun s h => by cases h)
    | array items => exact iff_of_false (hnone _) (hplain _ fun s h => by cases h)
    | object members => exact iff_of_false (hnone _) (hplain _ fun s h => by cases h)
    | string s =>
      have hcopy : PlainText (.string s) ↔ 0 ∉ s.take (maxAiResponseSize - 1) :=
        ⟨fun ⟨t, ht, h⟩ => by cases ht; exact h, fun h => ⟨s, rfl, h⟩⟩
      rw [hcopy, ← cut_cstr_iff]
      show Except.ok (AiResponse.mk _ 1) = Except.ok (AiResponse.mk _ 1) ↔ _
      rw [Except.ok.injEq, AiResponse.mk.injEq, and_iff_left rfl]

/-- **The block that takes the first element of an array.** It gives the response to what stands at
the end of the path if the place of the array holds one, and the inner block does for its first
element. -/
theorem firstOf_iff {next : Value → Except Crash AiResponse} (key : Bytes) (s : Step)
    (path : List Step) (v : Value) :
    firstOf v key next = .ok (responseTo (v.find (.key key :: .index 0 :: s :: path))) ↔
      (∀ items, v.find [.key key] = some items → items.IsArray) ∧
        ∀ first, FirstElement v key first →
          next first = .ok (responseTo (first.find (s :: path))) := by
  rw [find_single, find_key]
  unfold firstOf
  rcases hkey : objectGetEx v key with - | items
  · refine iff_of_true rfl ⟨by simp, ?_⟩
    rintro first ⟨items, hitems, -⟩
    rw [hkey] at hitems
    cases hitems
  unfold takeFirst
  rw [Option.bind_some]
  have helement : ∀ first, FirstElement v key first ↔
      arrayGetIdx items 0 = some first ∧ first.isNull = false := by
    intro first
    unfold FirstElement
    simp only [hkey, Option.some.injEq, exists_eq_left']
  simp only [Option.some.injEq, forall_eq', helement]
  rcases hfirst : arrayGetIdx items 0 with - | first
  · have hnot := (arrayGetIdx_none_iff items 0).mp hfirst
    exact iff_of_false (fun h => by cases h) fun h => hnot h.1
  · have harray : items.IsArray := by
      by_contra hnot
      rw [(arrayGetIdx_none_iff items 0).mpr hnot] at hfirst
      cases hfirst
    rw [find_index hfirst]
    simp only [Option.some.injEq, and_imp, forall_eq', harray, true_and]
    cases hnull : first.isNull with
    | true =>
      rw [Value.eq_null hnull, find_null]
      exact iff_of_true rfl fun h => by cases h
    | false => simp

/-! ## the body -/

theorem takeContent_iff (candidate : Value) :
    takeContent toJsonString candidate = .ok (responseTo (candidate.find
        [.key (ascii "content"), .key (ascii "parts"), .index 0, .key (ascii "text")])) ↔
      (∀ v, candidate.find [.key (ascii "content"), .key (ascii "parts")] = some v → v.IsArray) ∧
      ∀ v, candidate.find
          [.key (ascii "content"), .key (ascii "parts"), .index 0, .key (ascii "text")] = some v →
        PlainText v := by
  rw [find_key, find_key]
  unfold takeContent
  cases objectGetEx candidate (ascii "content") with
  | none => exact iff_of_true rfl ⟨by simp, by simp⟩
  | some content =>
    simp only [Option.bind_some, firstOf_iff, takeText_iff, forall_find_first]

/-- **What the blocks do together.** -/
theorem takeCandidates_iff (root : Value) :
    takeCandidates toJsonString root = .ok (responseTo (root.find textPath)) ↔
      WellShaped root := by
  have hshape : WellShaped root ↔ (∀ v, root.find candidatesPath = some v → v.IsArray) ∧
      (∀ v, root.find partsPath = some v → v.IsArray) ∧
      ∀ v, root.find textPath = some v → PlainText v :=
    ⟨fun h => ⟨h.candidates, h.parts, h.text⟩, fun h => ⟨h.1, h.2.1, h.2.2⟩⟩
  have hparts : partsPath = [.key (ascii "candidates"), .index 0, .key (ascii "content"),
      .key (ascii "parts")] := rfl
  have htext : textPath = [.key (ascii "candidates"), .index 0, .key (ascii "content"),
      .key (ascii "parts"), .index 0, .key (ascii "text")] := rfl
  rw [hshape, hparts, htext]
  unfold takeCandidates candidatesPath
  cases hnull : root.isNull with
  | true =>
    obtain rfl := Value.eq_null hnull
    simp only [find_null]
    exact iff_of_true rfl ⟨by simp, by simp, by simp⟩
  | false =>
    simp only [Bool.false_eq_true, if_false, firstOf_iff, takeContent_iff, forall_find_first]
    constructor
    · rintro ⟨harray, h⟩
      exact ⟨harray, fun c hc => (h c hc).1, fun c hc => (h c hc).2⟩
    · rintro ⟨harray, hp, ht⟩
      exact ⟨harray, fun c hc => ⟨hp c hc, ht c hc⟩⟩

/-! ## a body with a text -/

theorem firstOf_first {next : Value → Except Crash AiResponse} {v first : Value} {key : Bytes}
    (h : FirstElement v key first) : firstOf v key next = next first := by
  obtain ⟨items, hitems, hfirst, hnull⟩ := h
  have hnot : ¬ first.isNull = true := by
    rw [hnull]
    exact Bool.false_ne_true
  unfold firstOf takeFirst
  simp only [hitems, hfirst, if_neg hnot]

/-- **A text is taken wherever there is one**, up to its first NUL. -/
theorem takeCandidates_text {root : Value} {s : Bytes} (h : HasText root s) :
    takeCandidates toJsonString root = .ok ⟨cut maxAiResponseSize (cstr s), 1⟩ := by
  have hpath : textPath = [.key (ascii "candidates"), .index 0, .key (ascii "content"),
      .key (ascii "parts"), .index 0, .key (ascii "text")] := rfl
  unfold HasText at h
  rw [hpath] at h
  have hroot : ¬ root.isNull = true := by
    intro hnull
    rw [Value.eq_null hnull, find_null] at h
    cases h
  obtain ⟨candidate, hcandidate, h⟩ := (find_first_iff root _ _ _ _).mp h
  rw [find_key, Option.bind_eq_some_iff] at h
  obtain ⟨content, hcontent, h⟩ := h
  obtain ⟨part, hpart, h⟩ := (find_first_iff content _ _ _ _).mp h
  rw [find_single] at h
  have htake : takeText toJsonString part = .ok ⟨cut maxAiResponseSize (cstr s), 1⟩ := by
    unfold takeText
    rw [h]
    rfl
  unfold takeCandidates
  rw [if_neg hroot, firstOf_first hcandidate, takeContent, hcontent]
  exact (firstOf_first hpart).trans htake

/-! ## what the function returns -/

/-- the response has been left alone, or it holds a string in its buffer -/
def Left (r : AiResponse) : Prop :=
  r = .cleared ∨ (r.success = 1 ∧ 0 ∉ r.response ∧ r.response.length ≤ maxAiResponseSize - 1)

theorem takeText_left {firstPart : Value} {r : AiResponse}
    (h : takeText toJsonString firstPart = .ok r) : Left r := by
  unfold takeText at h
  cases hkey : objectGetEx firstPart (ascii "text") with
  | none =>
    rw [hkey] at h
    exact .inl (Except.ok.inj h).symm
  | some text =>
    simp only [hkey] at h
    cases htext : getString toJsonString text with
    | none =>
      rw [htext] at h
      cases h
    | some aiText =>
      simp only [htext, Except.ok.injEq] at h
      rw [← h]
      refine .inr ⟨rfl, fun hmem => ?_, List.length_take_le _ _⟩
      exact nul_not_mem_cstr _ (List.mem_of_mem_take hmem)

theorem firstOf_left {v : Value} {key : Bytes} {next : Value → Except Crash AiResponse}
    {r : AiResponse} (hnext : ∀ first r, next first = .ok r → Left r)
    (h : firstOf v key next = .ok r) : Left r := by
  unfold firstOf takeFirst at h
  cases hkey : objectGetEx v key with
  | none =>
    rw [hkey] at h
    exact .inl (Except.ok.inj h).symm
  | some items =>
    simp only [hkey] at h
    cases hfirst : arrayGetIdx items 0 with
    | none =>
      rw [hfirst] at h
      cases h
    | some first =>
      simp only [hfirst] at h
      by_cases hnull : first.isNull = true
      · rw [if_pos hnull] at h
        exact .inl (Except.ok.inj h).symm
      · rw [if_neg hnull] at h
        exact hnext first r h

theorem takeContent_left {candidate : Value} {r : AiResponse}
    (h : takeContent toJsonString candidate = .ok r) : Left r := by
  unfold takeContent at h
  cases hkey : objectGetEx candidate (ascii "content") with
  | none =>
    rw [hkey] at h
    exact .inl (Except.ok.inj h).symm
  | some content =>
    rw [hkey] at h
    exact firstOf_left (fun _ _ => takeText_left) h

theorem takeCandidates_left {root : Value} {r : AiResponse}
    (h : takeCandidates toJsonString root = .ok r) : Left r := by
  unfold takeCandidates at h
  by_cases hnull : root.isNull = true
  · rw [if_pos hnull] at h
    exact .inl (Except.ok.inj h).symm
  · rw [if_neg hnull] at h
    exact firstOf_left (fun _ _ => takeContent_left) h

theorem callGeminiApi_ok_iff (root : Value) (rc : Int) (r : AiResponse) :
    callGeminiApi toJsonString root = .ok (rc, r) ↔
      takeCandidates toJsonString root = .ok r ∧ rc = if r.success ≠ 0 then 0 else -1 := by
  unfold callGeminiApi
  cases takeCandidates toJsonString root with
  | error e => exact iff_of_false (fun h => by cases h) fun h => by cases h.1
  | ok response =>
    show Except.ok (_, response) = Except.ok (rc, r) ↔ _
    rw [Except.ok.injEq, Except.ok.injEq, Prod.mk.injEq]
    constructor
    · rintro ⟨rfl, rfl⟩
      exact ⟨rfl, rfl⟩
    · rintro ⟨rfl, rfl⟩
      exact ⟨rfl, rfl⟩

/-- **A text that is handed on is a string that fits its buffer.** -/
theorem answer_text {root : Value} {r : AiResponse}
    (h : callGeminiApi toJsonString root = .ok (0, r)) : ∃ t : AiText, t.text = r.response := by
  obtain ⟨htake, hrc⟩ := (callGeminiApi_ok_iff root 0 r).mp h
  rcases takeCandidates_left htake with rfl | ⟨-, h0, hlen⟩
  · cases hrc
  · exact ⟨⟨r.response, h0, hlen⟩, rfl⟩

theorem responseTo_text (s : Bytes) :
    responseTo (some (.string s)) = ⟨s.take (maxAiResponseSize - 1), 1⟩ := rfl

theorem responseTo_other {found : Option Value} (h : ∀ s, found ≠ some (.string s)) :
    responseTo found = .cleared := by
  rcases found with - | v
  · rfl
  · cases v with
    | string s => exact absurd rfl (h s)
    | null => rfl
    | boolean b => rfl
    | number text => rfl
    | array items => rfl
    | object members => rfl

/-- The body is handled safely when the response is the one to its text. -/
theorem handled_iff (root : Value) :
    Handled toJsonString root ↔
      takeCandidates toJsonString root = .ok (responseTo (root.find textPath)) := by
  unfold Handled HasText
  by_cases htext : ∃ s, root.find textPath = some (.string s)
  · obtain ⟨s, hs⟩ := htext
    rw [hs, responseTo_text]
    constructor
    · rintro ⟨rc, r, hcall, hsuccess, hcopy, -⟩
      obtain ⟨htake, -⟩ := (callGeminiApi_ok_iff root rc r).mp hcall
      obtain ⟨-, hone⟩ := hsuccess.mpr ⟨s, rfl⟩
      rw [htake, ← hcopy s rfl, ← hone]
    · intro htake
      refine ⟨0, _, (callGeminiApi_ok_iff root 0 _).mpr ⟨htake, rfl⟩,
        iff_of_true ⟨rfl, rfl⟩ ⟨s, rfl⟩, fun t ht => ?_, fun h => absurd ⟨s, rfl⟩ h⟩
      rw [Option.some.injEq, Value.string.injEq] at ht
      rw [ht]
  · have hnone : ∀ s, root.find textPath ≠ some (.string s) := fun s hs => htext ⟨s, hs⟩
    rw [responseTo_other hnone]
    constructor
    · rintro ⟨rc, r, hcall, -, -, hfail⟩
      obtain ⟨htake, -⟩ := (callGeminiApi_ok_iff root rc r).mp hcall
      rcases takeCandidates_left htake with rfl | ⟨hone, -⟩
      · exact htake
      · rw [(hfail htext).2] at hone
        cases hone
    · intro htake
      refine ⟨-1, .cleared, (callGeminiApi_ok_iff root (-1) _).mpr ⟨htake, rfl⟩,
        iff_of_false (fun h => by cases h.1) htext, fun s hs => absurd hs (hnone s),
        fun _ => ⟨rfl, rfl⟩⟩

end

/-- **The bodies that are handled safely.** For every JSON value: those where what stands at
`candidates`, if anything does, is an array, what stands at `candidates[0].content.parts` is one,
and what stands at `candidates[0].content.parts[0].text` is a string with no NUL in the bytes that
are copied. -/
theorem answer_handled_iff (toJsonString : Value → Bytes) (root : Value) :
    Handled toJsonString root ↔ WellShaped root := by
  rw [handled_iff, takeCandidates_iff]

/-- A body whose candidates are a number: the assertion fails. -/
theorem answer_crashes :
    ¬ Handled (fun _ => []) (.object [(ascii "candidates", .number (ascii "5"))]) := by
  rintro ⟨rc, response, hcall, -⟩
  have hcrash : callGeminiApi (fun _ => []) (.object [(ascii "candidates", .number (ascii "5"))]) =
      .error .notArray := by rfl
  rw [hcrash] at hcall
  cases hcall

end Server
