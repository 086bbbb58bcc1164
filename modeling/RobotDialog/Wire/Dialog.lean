import Mathlib.Data.List.Forall2
import RobotDialog.Lib.Strtok
import RobotDialog.Wire.Protocol

/-!
# Splitting a dialogue request

`parse_client_dialog_message` of `protocol.c`, run without interference: `strtok` cuts a copy of the
payload at every '|', the first three tokens are the personality, the language and the conversation.

* `tokenLoop`                  the loop over the tokens;
* `parseClientDialogMessage`   the function;
* `parse_eq`                   it accepts three tokens or more, and copies the first three;
* `parse_fields`               what it returns for three fields that contain no '|', and more.
-/

namespace Wire
open CString

/-! ## constants of config.h -/

def maxPersonalitySize : Nat := 512
def maxLanguageSize : Nat := 16
def maxConversationSize : Nat := 2048

/-- `client_message_t` -/
structure ClientMessage where
  personality : Bytes
  language : Bytes
  conversation : Bytes
  isValid : Bool
  deriving DecidableEq, Repr

/-- the loop of `parse_client_dialog_message`: it may store `room` more tokens, `token` is the last
token found; the result is the buffer and the offsets of the stored tokens -/
def tokenLoop : Nat → Bytes → Nat → Option Nat → List Nat → Bytes × List Nat
  | 0, buf, _, _, parts => (buf, parts)
  | _ + 1, buf, _, none, parts => (buf, parts)
  | room + 1, buf, cursor, some t, parts =>
    let (buf', cursor', token') := strtok bar buf cursor
    tokenLoop room buf' cursor' token' (parts ++ [t])

/-- the part of `parse_client_dialog_message` behind its loop -/
def copyParts (buf : Bytes) (parts : List Nat) : Option ClientMessage :=
  match parts with
  | [p, l, c] =>
    some
      { personality := cut maxPersonalitySize (cstrAt buf p)
        language := cut maxLanguageSize (cstrAt buf l)
        conversation := cut maxConversationSize (cstrAt buf c)
        isValid := true }
  | _ => none

/-- `parse_client_dialog_message`; `none` is the return value -1, `strdupOk` the result of
`strdup` -/
def parseClientDialogMessage (strdupOk : Bool) (data : Bytes) : Option ClientMessage :=
  if cstr data = [] then none
  else if strdupOk then
    let (buf, cursor, token) := strtok bar (cstr data) 0
    let (buf', parts) := tokenLoop 3 buf cursor token []
    copyParts buf' parts
  else none

theorem bar_ne_zero : bar ≠ 0 := by decide

/-- the strings at the offsets `parts`, in every buffer that begins with `pre` -/
def Found (pre : Bytes) (parts : List Nat) (toks : List Bytes) : Prop :=
  List.Forall₂ (fun p t => ∀ z, cstrAt (pre ++ z) p = t) parts toks

theorem Found.append {pre : Bytes} {parts : List Nat} {toks : List Bytes}
    (h : Found pre parts toks) (z : Bytes) : Found (pre ++ z) parts toks := by
  refine List.Forall₂.imp (fun p t hp y => ?_) h
  rw [List.append_assoc]
  exact hp _

theorem Found.concat {pre ds t : Bytes} {parts : List Nat} {toks : List Bytes}
    (h : Found pre parts toks) (h0 : 0 ∉ t) :
    Found (pre ++ (ds ++ (t ++ [0]))) (parts ++ [(pre ++ ds).length]) (toks ++ [t]) := by
  refine List.rel_append (h.append _) ?_
  refine List.Forall₂.cons (fun z => ?_) List.Forall₂.nil
  have hshape : pre ++ (ds ++ (t ++ [0])) ++ z = (pre ++ ds) ++ (t ++ 0 :: z) := by simp
  rw [hshape, cstrAt_nul _ h0]

/-- **The loop over the tokens.** Behind `pre` it finds the next tokens of the string, as many as
there is room for, and keeps those found before. -/
theorem tokenLoop_tokens (room : Nat) (pre r : Bytes) (h0 : 0 ∉ r) (parts : List Nat)
    (toks : List Bytes) (h : Found pre parts toks) :
    List.Forall₂ (fun p t =>
        cstrAt (tokenLoop room (strtok bar (pre ++ r) pre.length).1
          (strtok bar (pre ++ r) pre.length).2.1 (strtok bar (pre ++ r) pre.length).2.2 parts).1 p
          = t)
      (tokenLoop room (strtok bar (pre ++ r) pre.length).1
        (strtok bar (pre ++ r) pre.length).2.1 (strtok bar (pre ++ r) pre.length).2.2 parts).2
      (toks ++ (tokens bar r).take room) := by
  induction room generalizing pre r parts toks with
  | zero =>
    obtain ⟨b', hb'⟩ := strtok_keeps (d := bar) pre r
    unfold tokenLoop
    rw [List.take_zero, List.append_nil, hb']
    exact List.Forall₂.imp (fun p t hp => hp b') h
  | succ room ih =>
    rcases tokens_cases bar r with ⟨hnil, hall⟩ | ⟨ds, t, hds, ht, hne, hr⟩
    · -- only delimiters are left
      have hstop : strtok bar (pre ++ r) pre.length = (pre ++ r, (pre ++ r).length, none) := by
        have hskip := strtok_skip pre bar_ne_zero hall []
        rw [List.append_nil] at hskip
        rw [hskip, strtok_end]
      rw [hstop, hnil, List.take_nil, List.append_nil]
      exact List.Forall₂.imp (fun p t hp => hp r) h
    · rcases hr with ⟨rfl, htok⟩ | ⟨rest, rfl, htok⟩
      · -- the last token
        have ht0 : 0 ∉ t := fun hm => h0 (List.mem_append_right _ hm)
        have hfind : strtok bar (pre ++ (ds ++ t)) pre.length =
            (pre ++ (ds ++ t), (pre ++ (ds ++ t)).length, some (pre ++ ds).length) := by
          rw [strtok_skip pre bar_ne_zero hds t, ← List.append_assoc, strtok_last ht ht0 hne,
            ← List.length_append]
        have hend := strtok_end (d := bar) (pre ++ (ds ++ t))
        have hloop : tokenLoop room (pre ++ (ds ++ t)) (pre ++ (ds ++ t)).length none
            (parts ++ [(pre ++ ds).length]) =
            (pre ++ (ds ++ t), parts ++ [(pre ++ ds).length]) := by
          cases room <;> rfl
        have hstep : tokenLoop (room + 1) (pre ++ (ds ++ t)) (pre ++ (ds ++ t)).length
            (some (pre ++ ds).length) parts =
            (pre ++ (ds ++ t), parts ++ [(pre ++ ds).length]) := by
          rw [tokenLoop, hend]
          exact hloop
        rw [hfind]
        simp only [hstep, htok, List.take_succ_cons, List.take_nil]
        refine List.rel_append (List.Forall₂.imp (fun p t hp => hp _) h) ?_
        refine List.Forall₂.cons ?_ List.Forall₂.nil
        rw [← List.append_assoc, cstrAt_end _ ht0]
      · -- a token with a delimiter behind it
        have ht0 : 0 ∉ t := fun hm => h0 (List.mem_append_right _ (List.mem_append_left _ hm))
        have hrest0 : 0 ∉ rest := fun hm =>
          h0 (List.mem_append_right _ (List.mem_append_right _ (List.mem_cons_of_mem _ hm)))
        have hlen : (pre ++ ds).length + t.length + 1 = (pre ++ (ds ++ (t ++ [0]))).length := by
          simp only [List.length_append, List.length_cons, List.length_nil]
          omega
        have hshape : (pre ++ ds) ++ (t ++ 0 :: rest) = (pre ++ (ds ++ (t ++ [0]))) ++ rest := by
          simp
        have hfind : strtok bar (pre ++ (ds ++ (t ++ bar :: rest))) pre.length =
            ((pre ++ (ds ++ (t ++ [0]))) ++ rest, (pre ++ (ds ++ (t ++ [0]))).length,
              some (pre ++ ds).length) := by
          rw [strtok_skip pre bar_ne_zero hds _, ← List.append_assoc,
            strtok_token _ bar_ne_zero ht ht0 hne, hlen, hshape]
        have hnext := ih (pre ++ (ds ++ (t ++ [0]))) rest hrest0
          (parts ++ [(pre ++ ds).length]) (toks ++ [t]) (h.concat ht0)
        rw [hfind, htok]
        simp only [tokenLoop, List.take_succ_cons]
        rw [List.append_assoc toks, List.singleton_append] at hnext
        exact hnext

/-- **What `parse_client_dialog_message` accepts**: a payload with at least three tokens, of which
it copies the first three, each into its buffer. -/
theorem parse_eq (data : Bytes) :
    parseClientDialogMessage true data =
      match tokens bar (cstr data) with
      | p :: l :: c :: _ =>
        some ⟨cut maxPersonalitySize p, cut maxLanguageSize l, cut maxConversationSize c, true⟩
      | _ => none := by
  have h0 : 0 ∉ cstr data := nul_not_mem_cstr data
  have hloop := tokenLoop_tokens 3 [] (cstr data) h0 [] [] List.Forall₂.nil
  unfold parseClientDialogMessage
  by_cases hdata : cstr data = []
  · rw [if_pos hdata, hdata]
    rfl
  · rw [if_neg hdata, if_pos rfl]
    rw [List.nil_append, List.nil_append, List.length_nil] at hloop
    obtain ⟨⟨buf, cursor, token⟩, hs⟩ : ∃ st, strtok bar (cstr data) 0 = st := ⟨_, rfl⟩
    obtain ⟨⟨buf', parts⟩, hl⟩ : ∃ l, tokenLoop 3 buf cursor token [] = l := ⟨_, rfl⟩
    simp only [hs, hl] at hloop ⊢
    generalize tokens bar (cstr data) = toks at hloop
    unfold copyParts
    rcases toks with - | ⟨p, - | ⟨l, - | ⟨c, rest⟩⟩⟩
    · rw [List.forall₂_nil_right_iff.mp hloop]
    · obtain ⟨a, as, ha, has, he⟩ := List.forall₂_cons_right_iff.mp hloop
      rw [he, List.forall₂_nil_right_iff.mp has]
    · obtain ⟨a, as, ha, has, he⟩ := List.forall₂_cons_right_iff.mp hloop
      obtain ⟨b, bs, hb, hbs, he'⟩ := List.forall₂_cons_right_iff.mp has
      rw [he, he', List.forall₂_nil_right_iff.mp hbs]
    · obtain ⟨a, as, ha, has, he⟩ := List.forall₂_cons_right_iff.mp hloop
      obtain ⟨b, bs, hb, hbs, he'⟩ := List.forall₂_cons_right_iff.mp has
      obtain ⟨e, es, hc, hes, he''⟩ := List.forall₂_cons_right_iff.mp hbs
      rw [he, he', he'', List.forall₂_nil_right_iff.mp hes]
      simp only [ha, hb, hc]

/-- Without memory for the copy nothing is accepted. -/
theorem parse_no_memory (data : Bytes) : parseClientDialogMessage false data = none := by
  unfold parseClientDialogMessage
  simp

theorem parse_some {data : Bytes} {m : ClientMessage}
    (h : parseClientDialogMessage true data = some m) :
    ∃ p ∈ tokens bar (cstr data), ∃ l ∈ tokens bar (cstr data), ∃ c ∈ tokens bar (cstr data),
      m = ⟨cut maxPersonalitySize p, cut maxLanguageSize l, cut maxConversationSize c, true⟩ := by
  rw [parse_eq] at h
  rcases htok : tokens bar (cstr data) with - | ⟨p, - | ⟨l, - | ⟨c, rest⟩⟩⟩
  all_goals rw [htok] at h
  · cases h
  · cases h
  · cases h
  · exact ⟨p, by simp, l, by simp, c, by simp, (Option.some.inj h).symm⟩

theorem parse_fits {data : Bytes} {m : ClientMessage}
    (h : parseClientDialogMessage true data = some m) :
    m.personality.length ≤ maxPersonalitySize - 1 ∧ m.language.length ≤ maxLanguageSize - 1 ∧
      m.conversation.length ≤ maxConversationSize - 1 := by
  obtain ⟨p, -, l, -, c, -, rfl⟩ := parse_some h
  exact ⟨List.length_take_le _ _, List.length_take_le _ _, List.length_take_le _ _⟩

theorem parse_ne_nil {data : Bytes} {m : ClientMessage}
    (h : parseClientDialogMessage true data = some m) :
    m.personality ≠ [] ∧ m.language ≠ [] ∧ m.conversation ≠ [] := by
  have hcut : ∀ {t : Bytes} {size : Nat}, t ∈ tokens bar (cstr data) → 2 ≤ size →
      cut size t ≠ [] := by
    intro t size ht hsize
    obtain ⟨b, t', rfl⟩ := List.exists_cons_of_ne_nil (mem_tokens ht).1
    obtain ⟨n, rfl⟩ : ∃ n, size = n + 2 := ⟨size - 2, by omega⟩
    show (b :: t').take (n + 1) ≠ []
    rw [List.take_succ_cons]
    exact List.cons_ne_nil _ _
  obtain ⟨p, hp, l, hl, c, hc, rfl⟩ := parse_some h
  exact ⟨hcut hp (by decide), hcut hl (by decide), hcut hc (by decide)⟩

/-- **Three fields and whatever follows a third '|'.** -/
theorem parse_fields {p l c rest : Bytes} (hp : bar ∉ p ∧ 0 ∉ p ∧ p ≠ [])
    (hl : bar ∉ l ∧ 0 ∉ l ∧ l ≠ []) (hc : bar ∉ c ∧ 0 ∉ c ∧ c ≠ [])
    (hrest : rest = [] ∨ ∃ post, rest = bar :: post) (hrest0 : 0 ∉ rest) :
    parseClientDialogMessage true (p ++ bar :: (l ++ bar :: (c ++ rest))) =
      some ⟨cut maxPersonalitySize p, cut maxLanguageSize l, cut maxConversationSize c, true⟩ := by
  obtain ⟨hpb, hp0, hpne⟩ := hp
  obtain ⟨hlb, hl0, hlne⟩ := hl
  obtain ⟨hcb, hc0, hcne⟩ := hc
  have hnul : 0 ∉ p ++ bar :: (l ++ bar :: (c ++ rest)) := by
    simp only [List.mem_append, List.mem_cons, not_or]
    exact ⟨hp0, bar_ne_zero.symm, hl0, bar_ne_zero.symm, hc0, hrest0⟩
  obtain ⟨more, hmore⟩ : ∃ more, tokens bar (c ++ rest) = c :: more := by
    rcases hrest with rfl | ⟨post, rfl⟩
    · rw [List.append_nil]
      exact ⟨[], tokens_last hcb hcne⟩
    · exact ⟨_, tokens_token hcb hcne post⟩
  rw [parse_eq, cstr_eq_self hnul, tokens_token hpb hpne, tokens_token hlb hlne, hmore]

example : parseClientDialogMessage true (ascii "kind|it|hi|you") =
    some ⟨ascii "kind", ascii "it", ascii "hi", true⟩ := by decide

end Wire
