import RobotDialog.Lib.CString

/-!
# `strtok`

One call of `strtok` with a single delimiter on a buffer, as in the C library: it skips delimiters
from the resume offset on, finds the end of the token, overwrites the delimiter there with NUL and
returns the buffer, the next resume offset and the offset of the token (`none` is the null pointer).

* `strtok_token`   a token that a delimiter ends;
* `strtok_last`    a token that the end of the buffer ends;
* `strtok_end`     no token is left;
* `strtok_skip`    delimiters in front of a token;
* `strtok_keeps`   a call changes nothing in front of its resume offset;
* `tokens`         the tokens that calls until the end find, and `tokens_cases`: the first of them.
-/

namespace CString

/-- `strtok` on the buffer `b` from the resume offset `s` on -/
def strtok (d : UInt8) (b : Bytes) (s : Nat) : Bytes × Nat × Option Nat :=
  if cstrAt b s = [] then (b, s, none)
  else
    let start := s + ((cstrAt b s).takeWhile (· == d)).length
    if cstrAt b start = [] then (b, start, none)
    else
      let stop := start + ((cstrAt b start).takeWhile (· != d)).length
      if cstrAt b stop = [] then (b, stop, some start)
      else (b.set stop 0, stop + 1, some start)

variable {d : UInt8} {pre t : Bytes}

theorem takeWhile_delim_nil {s : Bytes} (h : ∀ c r, s = c :: r → c ≠ d) :
    s.takeWhile (· == d) = [] := by
  cases s with
  | nil => rfl
  | cons c r =>
    have hc := h c r rfl
    simp [hc]

theorem head_ne_of_token (hd : d ∉ t) (hne : t ≠ []) (rest : Bytes) :
    ∀ c r, t ++ rest = c :: r → c ≠ d := by
  intro c r h e
  cases t with
  | nil => exact hne rfl
  | cons x t' =>
    rw [List.cons_append, List.cons.injEq] at h
    exact hd (by rw [← e, ← h.1]; exact List.mem_cons_self)

/-- **A token that a delimiter ends.** -/
theorem strtok_token (pre : Bytes) (hd0 : d ≠ 0) (hd : d ∉ t) (h0 : 0 ∉ t) (hne : t ≠ [])
    (rest : Bytes) :
    strtok d (pre ++ (t ++ d :: rest)) pre.length =
      (pre ++ (t ++ 0 :: rest), pre.length + t.length + 1, some pre.length) := by
  have hstr : cstrAt (pre ++ (t ++ d :: rest)) pre.length = t ++ d :: cstr rest := by
    rw [cstrAt_append]
    unfold cstr
    have hall : ∀ a ∈ t, (a != 0) = true := by
      intro a ha
      have hne : a ≠ 0 := fun e => h0 (e ▸ ha)
      simpa using hne
    rw [List.takeWhile_append_of_pos hall, List.takeWhile_cons]
    simp [hd0]
  have hskip : (t ++ d :: cstr rest).takeWhile (· == d) = [] :=
    takeWhile_delim_nil (head_ne_of_token hd hne _)
  have htok : (t ++ d :: cstr rest).takeWhile (· != d) = t := takeWhile_delim hd _
  have hstop : cstrAt (pre ++ (t ++ d :: rest)) (pre.length + t.length) ≠ [] := by
    rw [← List.append_assoc, ← List.length_append, cstrAt_append]
    unfold cstr
    rw [List.takeWhile_cons]
    simp [hd0]
  have hset : (pre ++ (t ++ d :: rest)).set (pre.length + t.length) 0 =
      pre ++ (t ++ 0 :: rest) := by
    rw [← List.append_assoc, ← List.length_append, List.set_append_right _ _ le_rfl,
      Nat.sub_self, List.set_cons_zero, List.append_assoc]
  unfold strtok
  rw [hstr]
  simp only [hskip, List.length_nil, Nat.add_zero, hstr, htok, hstop, hset, if_false]
  simp

/-- **A token that the end of the buffer ends.** -/
theorem strtok_last (hd : d ∉ t) (h0 : 0 ∉ t) (hne : t ≠ []) :
    strtok d (pre ++ t) pre.length =
      (pre ++ t, pre.length + t.length, some pre.length) := by
  have hstr : cstrAt (pre ++ t) pre.length = t := cstrAt_end pre h0
  have hskip : t.takeWhile (· == d) = [] := by
    have h := head_ne_of_token hd hne []
    rw [List.append_nil] at h
    exact takeWhile_delim_nil h
  have htok : t.takeWhile (· != d) = t := takeWhile_no_delim hd
  have hstop : cstrAt (pre ++ t) (pre.length + t.length) = [] := by
    rw [← List.length_append, cstrAt_length]
  unfold strtok
  rw [hstr]
  simp only [hskip, List.length_nil, Nat.add_zero, hstr, htok, hstop, hne, if_true, if_false]

/-- **Delimiters in front of a token are skipped.** -/
theorem strtok_skip (pre : Bytes) {ds : Bytes} (hd0 : d ≠ 0) (hds : ∀ c ∈ ds, c = d) (r : Bytes) :
    strtok d (pre ++ (ds ++ r)) pre.length = strtok d (pre ++ (ds ++ r)) (pre ++ ds).length := by
  by_cases hnil : ds = []
  · subst hnil
    rw [List.append_nil]
  have hstr : cstrAt (pre ++ (ds ++ r)) pre.length = ds ++ cstr r := by
    rw [cstrAt_append]
    unfold cstr
    have hall : ∀ a ∈ ds, (a != 0) = true := by
      intro a ha
      rw [hds a ha]
      simpa using hd0
    rw [List.takeWhile_append_of_pos hall]
  have hnext : cstrAt (pre ++ (ds ++ r)) (pre ++ ds).length = cstr r := by
    rw [← List.append_assoc, cstrAt_append]
  have hne : ds ++ cstr r ≠ [] := by
    intro h
    exact hnil (List.append_eq_nil_iff.mp h).1
  have htake : ((ds ++ cstr r).takeWhile (· == d)).length =
      ds.length + ((cstr r).takeWhile (· == d)).length := by
    have hall : ∀ a ∈ ds, (a == d) = true := by
      intro a ha
      simpa using hds a ha
    rw [List.takeWhile_append_of_pos hall, List.length_append]
  have hstart : pre.length + ((ds ++ cstr r).takeWhile (· == d)).length =
      (pre ++ ds).length + ((cstr r).takeWhile (· == d)).length := by
    rw [htake, List.length_append, Nat.add_assoc]
  unfold strtok
  rw [hstr, hnext, if_neg hne]
  simp only [hstart]
  by_cases hr : cstr r = []
  · rw [if_pos hr, hr, List.takeWhile_nil, List.length_nil, Nat.add_zero, hnext, if_pos hr]
  · rw [if_neg hr]

/-- A call leaves the buffer in front of its resume offset alone. -/
theorem strtok_keeps (pre b : Bytes) : ∃ b', (strtok d (pre ++ b) pre.length).1 = pre ++ b' := by
  unfold strtok
  split
  · exact ⟨b, rfl⟩
  · dsimp only
    split
    · exact ⟨b, rfl⟩
    · split
      · exact ⟨b, rfl⟩
      · refine ⟨_, List.set_append_right _ _ ?_⟩
        omega

theorem strtok_end (b : Bytes) : strtok d b b.length = (b, b.length, none) := by
  unfold strtok
  rw [cstrAt_length]
  rfl

/-! ## all tokens -/

/-- the tokens of a string: what stands between delimiters and is not empty -/
def tokens (d : UInt8) (s : Bytes) : List Bytes := (s.splitOn d).filter (· ≠ [])

theorem tokens_delim (d : UInt8) (s : Bytes) : tokens d (d :: s) = tokens d s := by
  have h : (d :: s).splitOn d = [] :: s.splitOn d := by
    have hsplit := List.splitOn_append_cons_self (a := d) [] s
    simpa using hsplit
  unfold tokens
  rw [h]
  rfl

theorem tokens_token (hd : d ∉ t) (hne : t ≠ []) (rest : Bytes) :
    tokens d (t ++ d :: rest) = t :: tokens d rest := by
  unfold tokens
  rw [List.splitOn_append_cons_self, List.splitOn_eq_singleton hd, List.filter_append,
    List.filter_cons_of_pos (by simpa using hne)]
  rfl

theorem tokens_last (hd : d ∉ t) (hne : t ≠ []) : tokens d t = [t] := by
  unfold tokens
  rw [List.splitOn_eq_singleton hd, List.filter_cons_of_pos (by simpa using hne)]
  rfl

/-- A string without tokens, or its first token with what follows it. -/
theorem tokens_cases (d : UInt8) (s : Bytes) :
    (tokens d s = [] ∧ ∀ c ∈ s, c = d) ∨
    ∃ ds t, (∀ c ∈ ds, c = d) ∧ d ∉ t ∧ t ≠ [] ∧
      ((s = ds ++ t ∧ tokens d s = [t]) ∨
        ∃ rest, s = ds ++ (t ++ d :: rest) ∧ tokens d s = t :: tokens d rest) := by
  induction s with
  | nil => exact .inl ⟨rfl, fun c hc => absurd hc List.not_mem_nil⟩
  | cons c s ih =>
    by_cases hc : c = d
    · subst hc
      rw [tokens_delim]
      rcases ih with ⟨hnil, hall⟩ | ⟨ds, t, hds, ht, hne, htok⟩
      · refine .inl ⟨hnil, fun b hb => ?_⟩
        rcases List.mem_cons.mp hb with h | h
        · exact h
        · exact hall b h
      · refine .inr ⟨c :: ds, t, fun b hb => ?_, ht, hne, ?_⟩
        · rcases List.mem_cons.mp hb with h | h
          · exact h
          · exact hds b h
        · rcases htok with ⟨hs, htok⟩ | ⟨rest, hs, htok⟩
          · exact .inl ⟨by rw [hs, List.cons_append], htok⟩
          · exact .inr ⟨rest, by rw [hs, List.cons_append], htok⟩
    · right
      rcases delim_cases d (c :: s) with h | ⟨as, rest, hs, has⟩
      · exact ⟨[], c :: s, by simp, h, by simp, .inl ⟨rfl, tokens_last h (by simp)⟩⟩
      · have hne : as ≠ [] := by
          intro e
          rw [e, List.nil_append, List.cons.injEq] at hs
          exact hc hs.1
        refine ⟨[], as, by simp, has, hne, .inr ⟨rest, hs, ?_⟩⟩
        rw [hs, tokens_token has hne]

theorem mem_tokens {s : Bytes} (h : t ∈ tokens d s) : t ≠ [] ∧ d ∉ t ∧ ∀ c ∈ t, c ∈ s := by
  induction hn : s.length using Nat.strong_induction_on generalizing s with
  | _ n ih =>
    rcases tokens_cases d s with ⟨hnil, -⟩ | ⟨ds, u, -, hu, hne, hs⟩
    · rw [hnil] at h
      exact absurd h List.not_mem_nil
    · rcases hs with ⟨hs, htok⟩ | ⟨rest, hs, htok⟩
      · rw [htok, List.mem_singleton] at h
        subst h
        exact ⟨hne, hu, fun c hc => by rw [hs]; exact List.mem_append_right _ hc⟩
      · rw [htok, List.mem_cons] at h
        rcases h with h | h
        · subst h
          refine ⟨hne, hu, fun c hc => ?_⟩
          rw [hs]
          exact List.mem_append_right _ (List.mem_append_left _ hc)
        · have hshort : rest.length < n := by
            rw [← hn, hs]
            simp only [List.length_append, List.length_cons]
            omega
          obtain ⟨h1, h2, h3⟩ := ih _ hshort h rfl
          refine ⟨h1, h2, fun c hc => ?_⟩
          rw [hs]
          exact List.mem_append_right _ (List.mem_append_right _ (List.mem_cons_of_mem _ (h3 c hc)))

end CString
