import RobotDialog.Lib.Quoted
import RobotDialog.Server.Gemini

/-!
# The escape loop of the premise

The loop of `generate_gemini_request_json` over its two buffers, for a premise of any length, and the
string literal that its result stands in.

* `escapePremise`         the loop with its pointers, and the NUL behind it;
* `escapePremise_eq`      no store is outside of `escaped_premise`, which then holds `escapeLoop`;
* `premiseEscaper`        the escapes of the loop as a way to write bytes in literals;
* `escapePremise_whole`   the literal ends at the quote of the template, and stands for as much of the
                          premise as the buffer takes.
-/

namespace Server
open CString Wire

/-! ## the loop -/

/-- `sizeof(escaped_premise)` -/
def escapedPremiseSize : Nat := 4096

/-- the loop: `buf` is `escaped_premise`, `dst` the offset of the next store in it, and the list is
the buffer `premise` from `src` on -/
def escapePremiseLoop : Buffer escapedPremiseSize → Nat → Bytes →
    Option (Buffer escapedPremiseSize × Nat)
  | buf, dst, [] => some (buf, dst)
  | buf, dst, c :: src =>
    if c ≠ 0 ∧ dst < escapedPremiseSize - 2 then
      (buf.storeAll dst (escapeChar c)).bind fun buf' =>
        escapePremiseLoop buf' (dst + (escapeChar c).length) src
    else some (buf, dst)

/-- the loop from the start of both buffers, and the NUL behind it; `none` is a store outside of
`escaped_premise` -/
def escapePremise (premise : Bytes) (buf : Buffer escapedPremiseSize) :
    Option (Buffer escapedPremiseSize) :=
  (escapePremiseLoop buf 0 premise).bind fun r => r.1.store r.2 0

/-- the symbols of a JSON string with a role -/
def jsonMarks : Quoted.Marks UInt8 := ⟨Json.quote, Json.backslash, by decide⟩

/-- the escapes of the loop -/
def premiseEscaper : Quoted.Escaper jsonMarks where
  esc := escapeChar
  stands := Json.unescape
  cases c := by
    unfold escapeChar
    by_cases hq : c = Json.quote
    · subst hq
      exact .inr ⟨_, rfl, rfl⟩
    by_cases hb : c = Json.backslash
    · subst hb
      exact .inr ⟨_, rfl, rfl⟩
    by_cases hlf : c = lf
    · subst hlf
      exact .inr ⟨_, rfl, rfl⟩
    by_cases hcr : c = cr
    · subst hcr
      exact .inr ⟨_, rfl, rfl⟩
    rw [if_neg hq, if_neg hb, if_neg hlf, if_neg hcr]
    exact .inl ⟨rfl, hq, hb⟩

theorem escapeLoop_fill (size : Nat) (dst src : Bytes) :
    escapeLoop size dst src = premiseEscaper.fill (size - 2) dst src := by
  induction src generalizing dst with
  | nil => rfl
  | cons c src ih =>
    unfold escapeLoop Quoted.Escaper.fill
    rw [ih]
    rfl

theorem length_escapeLoop (src : Bytes) :
    (escapeLoop escapedPremiseSize [] src).length ≤ escapedPremiseSize - 1 := by
  rw [escapeLoop_fill]
  exact premiseEscaper.length_fill (escapedPremiseSize - 2) [] src (Nat.zero_le _)

/-- **The loop with its pointers.** Behind what it has written into the buffer it goes on as
`escapeLoop` does, and no store is outside of the buffer. -/
theorem escapePremiseLoop_eq {buf : Buffer escapedPremiseSize} {text : Bytes}
    (h : text <+: buf.bytes) (premise : Bytes) :
    ∃ buf', escapePremiseLoop buf text.length premise =
        some (buf', (escapeLoop escapedPremiseSize text (cstr premise)).length) ∧
      escapeLoop escapedPremiseSize text (cstr premise) <+: buf'.bytes := by
  induction premise generalizing buf text with
  | nil => exact ⟨buf, rfl, h⟩
  | cons c src ih =>
    unfold escapePremiseLoop
    by_cases hc : c = 0
    · -- the end of the premise
      subst hc
      rw [if_neg (by simp)]
      exact ⟨buf, rfl, h⟩
    · have hcstr : cstr (c :: src) = c :: cstr src := by
        unfold cstr
        rw [List.takeWhile_cons, if_pos (by simpa using hc)]
      rw [hcstr]
      unfold escapeLoop
      by_cases hroom : text.length < escapedPremiseSize - 2
      · -- an escape has two bytes at most, and there is room for them
        have hlen := length_escapeChar c
        obtain ⟨buf₁, hstore, h₁⟩ := Buffer.storeAll_holds h (escapeChar c) (by omega)
        obtain ⟨buf₂, hloop, h₂⟩ := ih h₁
        rw [if_pos ⟨hc, hroom⟩, if_pos hroom, hstore, Option.bind_some, ← List.length_append]
        exact ⟨buf₂, hloop, h₂⟩
      · rw [if_neg (fun hand => hroom hand.2), if_neg hroom]
        exact ⟨buf, rfl, h⟩

/-- What the loop writes: the escapes of a first part of the premise, which is all of it unless the
bound is reached. -/
theorem escapeLoop_cases (src : Bytes) :
    ∃ p, p <+: src ∧ escapeLoop escapedPremiseSize [] src = p.flatMap escapeChar ∧
      ((src.flatMap escapeChar).length ≤ escapedPremiseSize - 2 → p = src) := by
  obtain ⟨p, q, rfl, hfill, hstop⟩ :=
    premiseEscaper.fill_cases (escapedPremiseSize - 2) [] src
  rw [escapeLoop_fill, hfill, List.nil_append]
  refine ⟨p, List.prefix_append p q, rfl, fun hfits => ?_⟩
  have hq : q = [] := premiseEscaper.rest_nil hstop (by rwa [List.length_nil, Nat.zero_add])
  rw [hq, List.append_nil]

/-- The bound is exceeded by one byte at most, here by exactly one. -/
example : escapeLoop 6 [] (ascii "a\"\"\"") = ascii "a\\\"\\\"" := by decide

theorem nul_not_mem_escaped {src : Bytes} (h : 0 ∉ src) : 0 ∉ src.flatMap escapeChar := by
  intro hm
  obtain ⟨c, hc, h0⟩ := List.mem_flatMap.mp hm
  unfold escapeChar at h0
  have hne : (0 : UInt8) ≠ c := fun e => h (e ▸ hc)
  split at h0
  · exact absurd h0 (by decide)
  split at h0
  · exact absurd h0 (by decide)
  split at h0
  · exact absurd h0 (by decide)
  split at h0
  · exact absurd h0 (by decide)
  · exact hne (List.mem_singleton.mp h0)

/-- **The loop is `escapeLoop`**: for every content of both buffers no store is outside of
`escaped_premise`, and the string in it is then the escaped premise. -/
theorem escapePremise_eq (premise : Bytes) (buf : Buffer escapedPremiseSize) :
    ∃ buf', escapePremise premise buf = some buf' ∧
      cstr buf'.bytes = escapeLoop escapedPremiseSize [] (cstr premise) := by
  obtain ⟨buf₁, hloop, h₁⟩ := escapePremiseLoop_eq (List.nil_prefix (l := buf.bytes)) premise
  have hlen := length_escapeLoop (cstr premise)
  have hsize : escapedPremiseSize = 4096 := rfl
  obtain ⟨buf₂, hstore, h₂⟩ := Buffer.store_holds h₁ 0 (by omega)
  refine ⟨buf₂, ?_, ?_⟩
  · unfold escapePremise
    rw [show (0 : Nat) = ([] : Bytes).length from rfl, hloop, Option.bind_some]
    exact hstore
  · apply Buffer.cstr_holds _ h₂
    obtain ⟨p, hp, hout, -⟩ := escapeLoop_cases (cstr premise)
    rw [hout]
    exact nul_not_mem_escaped fun hm => nul_not_mem_cstr premise (hp.subset hm)

/-! ## the literal -/

/-- `json_output` around an escaped premise and a conversation -/
def spliced (escaped conversation : Bytes) : Bytes :=
  requestHead ++ escaped ++ requestMiddle ++ conversation ++ requestTail

theorem generate_spliced (personality language conversation : Bytes) (outputSize : Nat) :
    generateGeminiRequestJson personality language conversation outputSize =
      let json := spliced (escapeLoop escapedPremiseSize [] (premise personality language))
        conversation
      if json.length ≥ outputSize then none else some json := rfl

set_option maxRecDepth 100000 in
theorem place_requestHead : jsonMarks.place .outside requestHead = .inside := by
  decide +kernel

theorem requestMiddle_quote : requestMiddle = jsonMarks.quote :: requestMiddle.drop 1 := by
  rfl

/-- **The literal of a whole text ends at the quote of the template.** -/
theorem literal_spliced {escaped : Bytes} (h : jsonMarks.Whole escaped) (conversation : Bytes) :
    jsonMarks.literal ((spliced escaped conversation).drop requestHead.length) =
      some (escaped, requestMiddle.drop 1 ++ conversation ++ requestTail) := by
  have hdrop : (spliced escaped conversation).drop requestHead.length =
      escaped ++ (requestMiddle ++ conversation ++ requestTail) := by
    unfold spliced
    simp only [List.append_assoc]
    rw [List.drop_left]
  rw [hdrop, jsonMarks.literal_iff]
  refine ⟨?_, h⟩
  conv_lhs => rw [requestMiddle_quote]
  rfl

/-- **The premise in a request.** In every request that the function writes, the literal of the
premise ends at the quote of the template and stands for the whole premise. -/
theorem generate_literal {personality language conversation json : Bytes} {outputSize : Nat}
    (h : generateGeminiRequestJson personality language conversation outputSize = some json) :
    ∃ text, jsonMarks.literal (json.drop requestHead.length) =
        some (text, requestMiddle.drop 1 ++ conversation ++ requestTail) ∧
      jsonMarks.unescape Json.unescape text = some (premise personality language) := by
  rw [generate_spliced] at h
  simp only at h
  split at h
  · cases h
  obtain rfl := Option.some.inj h
  obtain ⟨p, -, hout, hall⟩ := escapeLoop_cases (premise personality language)
  have hlen : (premise personality language).length ≤ 1023 := List.length_take_le _ _
  have hescaped := length_escaped (premise personality language)
  have hp : p = premise personality language := hall (by unfold escapedPremiseSize; omega)
  rw [hout, hp]
  exact ⟨_, literal_spliced (premiseEscaper.whole_text _) conversation,
    premiseEscaper.unescape_text _⟩

/-- **The premise cannot break out of its literal.** For every premise and whatever stood in
`escaped_premise` before: no store of the loop is outside of the buffer, and the string in it is then
the complete escapes of a first part of the premise. It has at most 4095 bytes, every quote in it is
escaped and it does not end inside an escape; in every request the literal that the template opens
in front of it ends at the quote of the template behind it; it stands for the first part; and that
is the whole premise if the escapes of the premise have at most `sizeof(escaped_premise) - 2`
bytes. -/
theorem escapePremise_whole (premise : Bytes) (buf : Buffer escapedPremiseSize) :
    ∃ buf' p, escapePremise premise buf = some buf' ∧ p <+: cstr premise ∧
      cstr buf'.bytes = p.flatMap escapeChar ∧
      (cstr buf'.bytes).length ≤ 4095 ∧
      (∀ a b, cstr buf'.bytes = a ++ Json.quote :: b → jsonMarks.place .inside a = .behind) ∧
      jsonMarks.place .inside (cstr buf'.bytes) = .inside ∧
      jsonMarks.place .outside requestHead = .inside ∧
      (∀ conversation,
        jsonMarks.literal ((spliced (cstr buf'.bytes) conversation).drop requestHead.length) =
          some (cstr buf'.bytes, requestMiddle.drop 1 ++ conversation ++ requestTail)) ∧
      jsonMarks.unescape Json.unescape (cstr buf'.bytes) = some p ∧
      (((cstr premise).flatMap escapeChar).length ≤ escapedPremiseSize - 2 → p = cstr premise) := by
  obtain ⟨buf', hrun, hbuf⟩ := escapePremise_eq premise buf
  obtain ⟨p, hp, hout, hall⟩ := escapeLoop_cases (cstr premise)
  have hlen := length_escapeLoop (cstr premise)
  rw [← hbuf] at hout hlen
  have hwhole : jsonMarks.Whole (cstr buf'.bytes) := by
    rw [hout]
    exact premiseEscaper.whole_text p
  have hunescape : jsonMarks.unescape Json.unescape (cstr buf'.bytes) = some p := by
    rw [hout]
    exact premiseEscaper.unescape_text p
  exact ⟨buf', p, hrun, hp, hout, hlen, hwhole.noQuote, hwhole.complete, place_requestHead,
    literal_spliced hwhole, hunescape, hall⟩

end Server
