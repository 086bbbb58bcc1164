import Mathlib.Data.List.Forall2
import RobotDialog.Lib.JsonList

/-!
# What is written is read back

The texts of `Json` in the compact layout, as the reader sees them.

* `Reads`                        a text that is one value, whatever stands around it;
* `Escape.Valid`                 an encoder that writes escape sequences of JSON;
* `reads_string`, `reads_array`, `reads_object`   strings, arrays and objects;
* `prefix_objectList`            where a list of objects can be cut.
-/

namespace Json
open CString

/-- a value may stand here -/
def TakesValue : List Frame → Prop
  | .object _ :: _ => False
  | _ => True

/-- the text is read as this value; it begins with a byte that begins no other thing -/
def Reads (text : Bytes) (v : Value) : Prop :=
  (∃ c r, text = c :: r ∧ isWs c = false ∧ c ≠ 93) ∧
  ∀ fs, TakesValue fs → run ⟨.value, fs⟩ text = some (deliver v fs)

theorem Reads.first {text : Bytes} {v : Value} (h : Reads text v) {fs : List Frame}
    (hfs : TakesValue fs) : run ⟨.first, fs⟩ text = some (deliver v fs) := by
  obtain ⟨⟨c, r, rfl, hws, hc⟩, hrun⟩ := h
  rw [← hrun fs hfs, run_cons, run_cons]
  have hfirst : step ⟨.first, fs⟩ c =
      if isWs c then some ⟨.first, fs⟩ else if c = 93 then closeArray fs else startValue c fs := rfl
  have hvalue : step ⟨.value, fs⟩ c =
      if isWs c then some ⟨.value, fs⟩ else startValue c fs := rfl
  rw [hfirst, hvalue, hws, if_neg hc]
  rfl

/-! ## strings -/

/-- an escape sequence of JSON -/
def isEscape : Bytes → Bool
  | [b, c] => b == backslash && (unescape c).isSome
  | [b, u, h₁, h₂, h₃, h₄] =>
    b == backslash && u == 117 && [h₁, h₂, h₃, h₄].all fun h => (hexValue h).isSome
  | _ => false

/-- the encoder escapes as JSON wants it -/
def Escape.Valid (E : Escape) : Prop := ∀ c, mustEscape c = true → isEscape (E.esc c) = true

theorem shortEscape_isEscape (c : UInt8) :
    mustEscape c = true → isEscape (shortEscape c) = true := by
  apply forall_byte (P := fun c => mustEscape c = true → isEscape (shortEscape c) = true)
  decide +kernel

theorem shortEscapes_valid : shortEscapes.Valid := by
  intro c h
  show isEscape (if mustEscape c then shortEscape c else [c]) = true
  rw [if_pos h]
  exact shortEscape_isEscape c h

theorem run_isEscape {e : Bytes} (h : isEscape e = true) :
    ∃ s, ∀ t fs, run ⟨.string t, fs⟩ e = some ⟨.string (t ++ [s]), fs⟩ := by
  have hback : ∀ t fs, step ⟨.string t, fs⟩ backslash = some ⟨.escape t, fs⟩ := fun _ _ => rfl
  unfold isEscape at h
  split at h
  · rename_i b c
    rw [Bool.and_eq_true, beq_iff_eq, Option.isSome_iff_exists] at h
    obtain ⟨rfl, x, hx⟩ := h
    have hc : c ≠ 117 := by
      rintro rfl
      cases hx
    refine ⟨.byte x, fun t fs => ?_⟩
    rw [run_cons, hback, Option.bind_some, run_cons]
    simp only [step, hc, if_false, hx, Option.map_some, Option.bind_some, run_nil]
  · rename_i b u h₁ h₂ h₃ h₄
    simp only [Bool.and_eq_true, beq_iff_eq, List.all_cons, List.all_nil, Option.isSome_iff_exists,
      and_true] at h
    obtain ⟨⟨rfl, rfl⟩, ⟨d₁, e₁⟩, ⟨d₂, e₂⟩, ⟨d₃, e₃⟩, ⟨d₄, e₄⟩⟩ := h
    have hu : ∀ t fs, step ⟨.escape t, fs⟩ 117 = some ⟨.hex t 3 0, fs⟩ := fun _ _ => rfl
    refine ⟨.unit (16 * (16 * (16 * (16 * 0 + d₁) + d₂) + d₃) + d₄), fun t fs => ?_⟩
    rw [run_cons, hback, Option.bind_some, run_cons, hu, Option.bind_some]
    simp only [run_cons, step, e₁, e₂, e₃, e₄, Option.map_some, Option.bind_some, run_nil]
  · cases h

theorem run_plain {b : UInt8} (h : mustEscape b = false) (t : List Sym) (fs : List Frame) :
    step ⟨.string t, fs⟩ b = some ⟨.string (t ++ [.byte b]), fs⟩ := by
  unfold mustEscape at h
  simp only [Bool.or_eq_false_iff, beq_eq_false_iff_ne, decide_eq_false_iff_not] at h
  simp only [step, h.1.1, h.1.2, h.2, if_false]

/-- **The text of a string.** -/
theorem run_text {E : Escape} (hE : E.Valid) (s : Bytes) :
    ∃ u, ∀ t fs, run ⟨.string t, fs⟩ (E.text s) = some ⟨.string (t ++ u), fs⟩ := by
  induction s with
  | nil => exact ⟨[], fun t fs => by rw [List.append_nil]; rfl⟩
  | cons c s ih =>
    obtain ⟨u, hu⟩ := ih
    have hcons : E.text (c :: s) = E.esc c ++ E.text s := rfl
    by_cases hc : mustEscape c = true
    · obtain ⟨x, hx⟩ := run_isEscape (hE c hc)
      refine ⟨x :: u, fun t fs => ?_⟩
      rw [hcons, run_append, hx, Option.bind_some, hu, List.append_assoc]
      rfl
    · have hplain : mustEscape c = false := by simpa using hc
      refine ⟨.byte c :: u, fun t fs => ?_⟩
      rw [hcons, run_append, E.plain c hplain, run_cons, run_plain hplain, Option.bind_some,
        run_nil, Option.bind_some, hu, List.append_assoc]
      rfl

theorem endString_value (t : List Sym) {fs : List Frame} (h : TakesValue fs) :
    endString t fs = deliver (.string t) fs := by
  rcases fs with - | ⟨f, fs⟩
  · rfl
  · cases f with
    | object members => exact absurd h id
    | _ => rfl

theorem reads_string {E : Escape} (hE : E.Valid) (s : Bytes) : ∃ v, Reads (string E s) v := by
  obtain ⟨u, hu⟩ := run_text hE s
  refine ⟨.string u, ⟨quote, _, rfl, rfl, by decide⟩, fun fs hfs => ?_⟩
  have hopen : step ⟨.value, fs⟩ quote = some ⟨.string [], fs⟩ := rfl
  have hclose : run ⟨.string u, fs⟩ [quote] = some (endString u fs) := rfl
  unfold string
  rw [run_cons, hopen, Option.bind_some, run_append, hu, Option.bind_some, List.nil_append, hclose,
    endString_value u hfs]

theorem run_plainText {s : Bytes} (h : ∀ b ∈ s, mustEscape b = false) (t : List Sym)
    (fs : List Frame) : run ⟨.string t, fs⟩ s = some ⟨.string (t ++ s.map .byte), fs⟩ := by
  induction s generalizing t with
  | nil =>
    rw [List.map_nil, List.append_nil]
    rfl
  | cons b s ih =>
    rw [run_cons, run_plain (h b List.mem_cons_self), Option.bind_some,
      ih fun c hc => h c (List.mem_cons_of_mem _ hc), List.map_cons, List.append_assoc]
    rfl

theorem plain_of_all {s : Bytes} (h : s.all (fun b => !mustEscape b) = true) :
    ∀ b ∈ s, mustEscape b = false := by
  intro b hb
  have hall := List.all_eq_true.mp h b hb
  simpa using hall

theorem reads_plain {s : Bytes} (h : ∀ b ∈ s, mustEscape b = false) :
    Reads (quote :: (s ++ [quote])) (.string (s.map .byte)) := by
  refine ⟨⟨quote, _, rfl, rfl, by decide⟩, fun fs hfs => ?_⟩
  have hopen : step ⟨.value, fs⟩ quote = some ⟨.string [], fs⟩ := rfl
  have hclose : run ⟨.string (s.map .byte), fs⟩ [quote] = some (endString (s.map .byte) fs) := rfl
  rw [run_cons, hopen, Option.bind_some, run_append, run_plainText h, Option.bind_some,
    List.nil_append, hclose, endString_value _ hfs]

/-! ## arrays -/

/-- the texts are read as these values -/
abbrev ReadsAll (texts : List Bytes) (vs : List Value) : Prop := List.Forall₂ Reads texts vs

theorem run_items {texts : List Bytes} {vs : List Value} (h : ReadsAll texts vs) (hne : texts ≠ [])
    (items : List Value) (fs : List Frame) :
    run ⟨.value, .array items :: fs⟩ (List.intercalate [comma] texts) =
      some ⟨.after, .array (items ++ vs) :: fs⟩ := by
  induction h generalizing items with
  | nil => exact absurd rfl hne
  | @cons text v texts vs hv hvs ih =>
    have hfirst := hv.2 (.array items :: fs) trivial
    have hdeliver : deliver v (.array items :: fs) = ⟨.after, .array (items ++ [v]) :: fs⟩ := rfl
    by_cases hn : texts = []
    · subst hn
      obtain rfl := List.forall₂_nil_left_iff.mp hvs
      rw [List.intercalate_singleton, hfirst, hdeliver]
    · have hcomma : run ⟨.after, .array (items ++ [v]) :: fs⟩ [comma] =
          some ⟨.value, .array (items ++ [v]) :: fs⟩ := rfl
      rw [List.intercalate_cons_of_ne_nil hn, run_append, run_append, hfirst, Option.bind_some,
        hdeliver, hcomma, Option.bind_some, ih hn, List.append_assoc]
      rfl

theorem reads_array {texts : List Bytes} {vs : List Value} (h : ReadsAll texts vs) :
    Reads (array texts) (.array vs) := by
  refine ⟨⟨91, _, rfl, rfl, by decide⟩, fun fs _ => ?_⟩
  have hopen : step ⟨.value, fs⟩ 91 = some ⟨.first, .array [] :: fs⟩ := rfl
  unfold array
  rw [run_cons, hopen, Option.bind_some, run_append]
  cases h with
  | nil => rfl
  | @cons text v texts vs hv hvs =>
    have hlist := run_items (List.Forall₂.cons hv hvs) (List.cons_ne_nil _ _) [] fs
    have htakes : TakesValue (.array [] :: fs) := trivial
    have hsame : run ⟨.first, .array [] :: fs⟩ (List.intercalate [comma] (text :: texts)) =
        run ⟨.value, .array [] :: fs⟩ (List.intercalate [comma] (text :: texts)) := by
      by_cases hn : texts = []
      · subst hn
        rw [List.intercalate_singleton, hv.first htakes, hv.2 _ htakes]
      · rw [List.intercalate_cons_of_ne_nil hn, List.append_assoc, run_append, run_append,
          hv.first htakes, hv.2 _ htakes]
    rw [hsame, hlist, Option.bind_some]
    rfl

/-! ## objects -/

/-- the text is read as this member of an object -/
def ReadsMember (text : Bytes) (m : Member) : Prop :=
  ∀ members fs, run ⟨.name, .object members :: fs⟩ text =
      some ⟨.after, .object (members ++ [m]) :: fs⟩ ∧
    run ⟨.firstName, .object members :: fs⟩ text =
      some ⟨.after, .object (members ++ [m]) :: fs⟩

theorem reads_member {name value : Bytes} {v : Value} (hname : ∀ b ∈ name, mustEscape b = false)
    (hv : Reads value v) : ReadsMember (member name value) (name.map .byte, v) := by
  intro members fs
  have hbody : run ⟨.string [], .object members :: fs⟩ (name ++ [quote, colon] ++ value) =
      some ⟨.after, .object (members ++ [(name.map .byte, v)]) :: fs⟩ := by
    have hend : run ⟨.string (name.map .byte), .object members :: fs⟩ [quote, colon] =
        some ⟨.value, .member members (name.map .byte) :: fs⟩ := rfl
    have htakes : TakesValue (.member members (name.map .byte) :: fs) := trivial
    rw [run_append, run_append, run_plainText hname, Option.bind_some, List.nil_append, hend,
      Option.bind_some, hv.2 _ htakes]
    rfl
  exact ⟨hbody, hbody⟩

theorem run_members {texts : List Bytes} {ms : List Member}
    (h : List.Forall₂ ReadsMember texts ms) (hne : texts ≠ []) (members : List Member)
    (fs : List Frame) :
    run ⟨.name, .object members :: fs⟩ (List.intercalate [comma] texts) =
      some ⟨.after, .object (members ++ ms) :: fs⟩ := by
  induction h generalizing members with
  | nil => exact absurd rfl hne
  | @cons text m texts ms hm hms ih =>
    have hfirst := (hm members fs).1
    by_cases hn : texts = []
    · subst hn
      obtain rfl := List.forall₂_nil_left_iff.mp hms
      rw [List.intercalate_singleton, hfirst]
    · have hcomma : run ⟨.after, .object (members ++ [m]) :: fs⟩ [comma] =
          some ⟨.name, .object (members ++ [m]) :: fs⟩ := rfl
      rw [List.intercalate_cons_of_ne_nil hn, run_append, run_append, hfirst, Option.bind_some,
        hcomma, Option.bind_some, ih hn, List.append_assoc]
      rfl

theorem reads_object {texts : List Bytes} {ms : List Member}
    (h : List.Forall₂ ReadsMember texts ms) : Reads (object texts) (.object ms) := by
  refine ⟨⟨123, _, rfl, rfl, by decide⟩, fun fs _ => ?_⟩
  have hopen : step ⟨.value, fs⟩ 123 = some ⟨.firstName, .object [] :: fs⟩ := rfl
  unfold object
  rw [run_cons, hopen, Option.bind_some, run_append]
  cases h with
  | nil => rfl
  | @cons text m texts ms hm hms =>
    have hlist := run_members (List.Forall₂.cons hm hms) (List.cons_ne_nil _ _) [] fs
    have hsame : run ⟨.firstName, .object [] :: fs⟩ (List.intercalate [comma] (text :: texts)) =
        run ⟨.name, .object [] :: fs⟩ (List.intercalate [comma] (text :: texts)) := by
      by_cases hn : texts = []
      · subst hn
        rw [List.intercalate_singleton, (hm [] fs).1, (hm [] fs).2]
      · rw [List.intercalate_cons_of_ne_nil hn, List.append_assoc, run_append, run_append,
          (hm [] fs).1, (hm [] fs).2]
    rw [hsame, hlist, Option.bind_some]
    rfl

/-! ## where a list of objects can be cut -/

/-- the text of one object, without white space around it -/
def ObjectText (text : Bytes) : Prop :=
  ∃ body ms, text = 123 :: (body ++ [125]) ∧ Reads text (.object ms)

theorem objectText_object {texts : List Bytes} {ms : List Member}
    (h : List.Forall₂ ReadsMember texts ms) : ObjectText (object texts) :=
  ⟨_, ms, rfl, reads_object h⟩

/-- the reader can close the array behind this text, which continues the list `items` -/
def EndsList (items : List Value) (text : Bytes) : Prop :=
  ∃ s₁ vs, run ⟨.value, [.array items]⟩ text = some s₁ ∧ s₁.stack ≠ [] ∧
    step s₁ 93 = some ⟨.done (.array vs), []⟩

/-- A text that is read up to an open array or object has been so all the time. -/
theorem run_open {s s₂ : State} {a b : Bytes} (hs : s.stack ≠ [])
    (h : run s (a ++ b) = some s₂) (h₂ : s₂.stack ≠ []) :
    ∃ s₁, run s a = some s₁ ∧ s₁.stack ≠ [] ∧ bottom s₁.stack = bottom s.stack := by
  rw [run_append] at h
  rcases ha : run s a with - | s₁
  · rw [ha] at h
    cases h
  rw [ha, Option.bind_some] at h
  rcases run_state ⟨[], [], []⟩ hs a with ⟨-, hopen⟩ | ⟨c, d, e, s₃, v, rfl, hc, -, -, hd⟩
  · exact ⟨s₁, rfl, hopen s₁ ha⟩
  · rw [run_append, hc, Option.bind_some, run_cons, hd, Option.bind_some, run_done] at ha
    split at ha
    · rw [← Option.some.inj ha, run_done] at h
      split at h
      · rw [← Option.some.inj h] at h₂
        exact absurd rfl h₂
      · cases h
    · cases ha

/-- **A list that is cut inside of an object does not end there.** -/
theorem cut_object {body p q : Bytes} {ms : List Member}
    (hread : Reads (123 :: (body ++ [125])) (.object ms)) (hbody : body = p ++ q)
    (items : List Value) : ¬ EndsList items (123 :: p) := by
  have hne : (⟨.firstName, [.object []]⟩ : State).stack ≠ [] := List.cons_ne_nil _ _
  have hfinish : (run ⟨.firstName, [.object []]⟩ (body ++ [125])).bind finish =
      some (.object ms) := by
    have hopen : step ⟨.value, []⟩ 123 = some ⟨.firstName, [.object []]⟩ := rfl
    have hrun := hread.2 [] trivial
    rw [run_cons, hopen, Option.bind_some] at hrun
    rw [hrun]
    rfl
  obtain ⟨a, c, b, s₂, he, ha, h₂, -, hws⟩ := (finish_run hne).mp hfinish
  obtain ⟨rfl, -, -⟩ := append_last he hws (by decide)
  rw [hbody] at ha
  obtain ⟨s₁, hp, h₁, hbot⟩ := run_open hne ha h₂
  -- the reader in front of the bracket: the object is still open
  have hcontext := (run_context ⟨[], [], [.array items]⟩ hne hp h₁).1
  have hstart : run ⟨.value, [.array items]⟩ (123 :: p) =
      some (Context.state ⟨[], [], [.array items]⟩ s₁) := hcontext
  rintro ⟨s, vs, hs, -, hc⟩
  rw [hstart] at hs
  obtain rfl := Option.some.inj hs
  rw [Context.step_state _ h₁] at hc
  obtain ⟨s₃, h₃, he₃⟩ := Option.map_eq_some_iff.mp hc
  rcases step_closes h₃ h₁ with ⟨hopen, -⟩ | ⟨-, hbad, -⟩ | ⟨hbad, -⟩
  · have hstack := Context.state_open ⟨[], [], [.array items]⟩ hopen
    rw [he₃] at hstack
    exact absurd rfl hstack
  · rw [hbot] at hbad
    cases hbad
  · exact absurd hbad (by decide)

/-- A prefix of a list of texts: it ends in the first text, behind it, or in the others. -/
theorem prefix_intercalate {o : Bytes} {rest : List Bytes} {t : Bytes}
    (h : t <+: List.intercalate [comma] (o :: rest)) :
    (∃ c q, o = t ++ c :: q) ∨ t = o ∨
      rest ≠ [] ∧ ∃ t', t = o ++ comma :: t' ∧ t' <+: List.intercalate [comma] rest := by
  have hfirst : ∀ a, o = t ++ a → (∃ c q, o = t ++ c :: q) ∨ t = o := by
    intro a ha
    cases a with
    | nil => exact .inr (by rw [ha, List.append_nil])
    | cons c q => exact .inl ⟨c, q, ha⟩
  obtain ⟨u, hu⟩ := h
  by_cases hn : rest = []
  · subst hn
    rw [List.intercalate_singleton] at hu
    rcases hfirst u hu.symm with h | h
    · exact .inl h
    · exact .inr (.inl h)
  · rw [List.intercalate_cons_of_ne_nil hn, List.append_assoc, List.append_eq_append_iff] at hu
    rcases hu with ⟨a, ha, -⟩ | ⟨a, ha, hrest⟩
    · rcases hfirst a ha with h | h
      · exact .inl h
      · exact .inr (.inl h)
    · rcases a with - | ⟨c, a⟩
      · exact .inr (.inl (by rw [ha, List.append_nil]))
      · rw [List.singleton_append, List.cons_append, List.cons.injEq] at hrest
        exact .inr (.inr ⟨hn, a, by rw [ha, hrest.1], u, hrest.2.symm⟩)

/-- The text of the first object stands in front of every list that begins with it. -/
theorem prefix_first (o : Bytes) (rest : List Bytes) {k : Nat} (hk : 0 < k) :
    o <+: List.intercalate [comma] ((o :: rest).take k) := by
  obtain ⟨n, rfl⟩ : ∃ n, k = n + 1 := ⟨k - 1, by omega⟩
  rw [List.take_succ_cons]
  by_cases hn : rest.take n = []
  · have hone : List.intercalate [comma] (o :: rest.take n) = o := by
      rw [hn, List.intercalate_singleton]
    exact ⟨[], by rw [hone, List.append_nil]⟩
  · rw [List.intercalate_cons_of_ne_nil hn, List.append_assoc]
    exact List.prefix_append _ _

/-- **A list of objects can be cut behind each of them**, and nowhere else. -/
theorem prefix_endsList {objs : List Bytes} (hobjs : ∀ o ∈ objs, ObjectText o)
    (items : List Value) {t : Bytes} (ht : t <+: List.intercalate [comma] objs) :
    EndsList items t ↔
      ∃ k, 0 < k ∧ k ≤ objs.length ∧ t = List.intercalate [comma] (objs.take k) := by
  induction objs generalizing items t with
  | nil =>
    rw [List.intercalate_nil, List.prefix_nil] at ht
    subst ht
    refine iff_of_false ?_ ?_
    · rintro ⟨s, vs, hs, -, hc⟩
      obtain rfl := Option.some.inj hs
      cases hc
    · rintro ⟨k, hk, hle, -⟩
      rw [List.length_nil] at hle
      omega
  | cons o rest ih =>
    obtain ⟨body, ms, ho, hread⟩ := hobjs o List.mem_cons_self
    have hrest : ∀ x ∈ rest, ObjectText x := fun x hx => hobjs x (List.mem_cons_of_mem _ hx)
    have hrun : run ⟨.value, [.array items]⟩ o =
        some ⟨.after, [.array (items ++ [.object ms])]⟩ := hread.2 [.array items] trivial
    rcases prefix_intercalate ht with ⟨c, q, hcut⟩ | rfl | ⟨hn, t', rfl, ht'⟩
    · -- inside of the first object
      refine iff_of_false ?_ ?_
      · rcases t with - | ⟨b, p⟩
        · rintro ⟨s, vs, hs, -, hc⟩
          obtain rfl := Option.some.inj hs
          cases hc
        · have hsplit := ho.symm.trans hcut
          rw [List.cons_append, List.cons.injEq] at hsplit
          obtain ⟨rfl, hsplit⟩ := hsplit
          rw [ho] at hread
          have hq : ∃ q', body = p ++ q' := by
            rcases List.eq_nil_or_concat (c :: q) with h | ⟨q', d, h⟩
            · cases h
            · rw [h, List.concat_eq_append, ← List.append_assoc] at hsplit
              exact ⟨q', (List.append_inj' hsplit rfl).1⟩
          obtain ⟨q', hbody⟩ := hq
          exact cut_object hread hbody items
      · rintro ⟨k, hk, -, he⟩
        have hle := (prefix_first o rest hk).length_le
        rw [← he, hcut, List.length_append, List.length_cons] at hle
        omega
    · -- behind the first object
      refine iff_of_true ⟨_, _, hrun, List.cons_ne_nil _ _, rfl⟩ ⟨1, by omega, by simp, ?_⟩
      rw [List.take_succ_cons, List.take_zero, List.intercalate_singleton]
    · -- in the others
      have hgo : EndsList items (o ++ comma :: t') ↔ EndsList (items ++ [.object ms]) t' := by
        have hcomma : step ⟨.after, [.array (items ++ [.object ms])]⟩ comma =
            some ⟨.value, [.array (items ++ [.object ms])]⟩ := rfl
        unfold EndsList
        rw [run_append, hrun, Option.bind_some, run_cons, hcomma, Option.bind_some]
      have htake : ∀ n, 0 < n → List.intercalate [comma] ((o :: rest).take (n + 1)) =
          o ++ comma :: List.intercalate [comma] (rest.take n) := by
        intro n hpos
        have hne : rest.take n ≠ [] := by
          obtain ⟨x, xs, rfl⟩ := List.exists_cons_of_ne_nil hn
          obtain ⟨m, rfl⟩ : ∃ m, n = m + 1 := ⟨n - 1, by omega⟩
          rw [List.take_succ_cons]
          exact List.cons_ne_nil _ _
        rw [List.take_succ_cons, List.intercalate_cons_of_ne_nil hne, List.append_assoc]
        rfl
      rw [hgo, ih hrest _ ht']
      constructor
      · rintro ⟨k, hk, hle, he⟩
        exact ⟨k + 1, by omega, by rw [List.length_cons]; omega, by rw [htake k hk, he]⟩
      · rintro ⟨k, hk, hle, he⟩
        rw [List.length_cons] at hle
        obtain ⟨n, rfl⟩ : ∃ n, k = n + 1 := ⟨k - 1, by omega⟩
        rcases Nat.eq_zero_or_pos n with rfl | hpos
        · rw [List.take_succ_cons, List.take_zero, List.intercalate_singleton] at he
          have hlen := congrArg List.length he
          rw [List.length_append, List.length_cons] at hlen
          omega
        · rw [htake n hpos] at he
          have htail := List.append_cancel_left he
          rw [List.cons.injEq] at htail
          exact ⟨n, hpos, by omega, htail.2⟩

theorem readsAll_objects {objs : List Bytes} (h : ∀ o ∈ objs, ObjectText o) :
    ∃ vs, ReadsAll objs vs ∧ ∀ v ∈ vs, v.isObject = true := by
  induction objs with
  | nil => exact ⟨[], List.Forall₂.nil, fun v hv => absurd hv List.not_mem_nil⟩
  | cons o objs ih =>
    obtain ⟨body, ms, -, hread⟩ := h o List.mem_cons_self
    obtain ⟨vs, hvs, hobject⟩ := ih fun x hx => h x (List.mem_cons_of_mem _ hx)
    refine ⟨.object ms :: vs, List.Forall₂.cons hread hvs, fun v hv => ?_⟩
    rcases List.mem_cons.mp hv with rfl | hv
    · rfl
    · exact hobject v hv

/-- **Which prefixes of a list of objects are lists of objects.** -/
theorem prefix_objectList {objs : List Bytes} (hobjs : ∀ o ∈ objs, ObjectText o) {t : Bytes}
    (ht : t <+: List.intercalate [comma] objs) :
    (∃ vs, ObjectList t vs) ↔
      ∃ k, 0 < k ∧ k ≤ objs.length ∧ t = List.intercalate [comma] (objs.take k) := by
  constructor
  · rintro ⟨vs, hlist, hne, -⟩
    obtain ⟨s₁, hrun, h₁, hc⟩ := elements_value hlist hne
    exact (prefix_endsList hobjs [] ht).mp ⟨s₁, vs, hrun, h₁, hc⟩
  · rintro ⟨k, hk, hle, rfl⟩
    obtain ⟨vs, hvs, hobject⟩ := readsAll_objects fun o ho => hobjs o (List.mem_of_mem_take ho)
    have hne : objs.take k ≠ [] := by
      intro e
      have hlen := congrArg List.length e
      rw [List.length_take, List.length_nil] at hlen
      omega
    have hvne : vs ≠ [] := by
      rintro rfl
      exact hne (List.forall₂_nil_right_iff.mp hvs)
    have hrun := run_items hvs hne [] []
    exact ⟨vs, elements_of_value hrun (List.cons_ne_nil _ _) rfl, hvne, hobject⟩

end Json
