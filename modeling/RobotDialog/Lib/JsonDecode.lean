import RobotDialog.Lib.JsonWriter

/-!
# What the strings of JSON stand for

The characters that the reader finds in a string, as the bytes that an encoder put in.

* `Sym.toByte`, `decode`   the bytes of a string;
* `escapeSym`              the character of an escape sequence;
* `Escape.Faithful`        an encoder whose escape sequences stand for what they replace;
* `reads_decode`           the text of a string is read, and decodes to the string;
* `mapM_of_forall₂`        a list that decodes element by element.
-/

namespace Json
open CString

/-- the byte that a character stands for; a code unit outside of ASCII is no byte -/
def Sym.toByte : Sym → Option UInt8
  | .byte b => some b
  | .unit n => if n < 128 then some n.toUInt8 else none

def decode : List Sym → Option Bytes
  | [] => some []
  | s :: ss => s.toByte.bind fun b => (decode ss).map fun bs => b :: bs

/-- the character of an escape sequence -/
def escapeSym : Bytes → Option Sym
  | [b, c] => if b = backslash then (unescape c).map .byte else none
  | [b, u, h₁, h₂, h₃, h₄] =>
    if b = backslash ∧ u = 117 then
      (hexValue h₁).bind fun d₁ => (hexValue h₂).bind fun d₂ => (hexValue h₃).bind fun d₃ =>
        (hexValue h₄).map fun d₄ => .unit (16 * (16 * (16 * (16 * 0 + d₁) + d₂) + d₃) + d₄)
    else none
  | _ => none

/-- what the encoder writes for a byte that must be escaped stands for this byte -/
def Escape.Faithful (E : Escape) : Prop :=
  ∀ c, mustEscape c = true → (escapeSym (E.esc c)).bind Sym.toByte = some c

theorem shortEscape_faithful (c : UInt8) :
    mustEscape c = true → (escapeSym (shortEscape c)).bind Sym.toByte = some c := by
  apply forall_byte (P := fun c =>
    mustEscape c = true → (escapeSym (shortEscape c)).bind Sym.toByte = some c)
  decide +kernel

theorem shortEscapes_faithful : shortEscapes.Faithful := by
  intro c h
  have hesc : shortEscapes.esc c = shortEscape c := if_pos h
  rw [hesc]
  exact shortEscape_faithful c h

theorem decode_bytes (s : Bytes) : decode (s.map .byte) = some s := by
  induction s with
  | nil => rfl
  | cons b s ih =>
    show (decode (s.map .byte)).map (fun bs => b :: bs) = some (b :: s)
    rw [ih]
    rfl

theorem run_escapeSym {e : Bytes} {s : Sym} (h : escapeSym e = some s) (t : List Sym)
    (fs : List Frame) : run ⟨.string t, fs⟩ e = some ⟨.string (t ++ [s]), fs⟩ := by
  have hback : step ⟨.string t, fs⟩ backslash = some ⟨.escape t, fs⟩ := rfl
  unfold escapeSym at h
  split at h
  · rename_i b c
    by_cases hb : b = backslash
    · rw [if_pos hb] at h
      obtain ⟨x, hx, rfl⟩ := Option.map_eq_some_iff.mp h
      have hc : c ≠ 117 := by
        rintro rfl
        cases hx
      rw [hb, run_cons, hback, Option.bind_some, run_cons]
      simp only [step, hc, if_false, hx, Option.map_some, Option.bind_some, run_nil]
    · rw [if_neg hb] at h
      cases h
  · rename_i b u h₁ h₂ h₃ h₄
    by_cases hb : b = backslash ∧ u = 117
    · rw [if_pos hb] at h
      obtain ⟨d₁, e₁, h⟩ := Option.bind_eq_some_iff.mp h
      obtain ⟨d₂, e₂, h⟩ := Option.bind_eq_some_iff.mp h
      obtain ⟨d₃, e₃, h⟩ := Option.bind_eq_some_iff.mp h
      obtain ⟨d₄, e₄, rfl⟩ := Option.map_eq_some_iff.mp h
      have hu : step ⟨.escape t, fs⟩ 117 = some ⟨.hex t 3 0, fs⟩ := rfl
      rw [hb.1, hb.2, run_cons, hback, Option.bind_some, run_cons, hu, Option.bind_some]
      simp only [run_cons, step, e₁, e₂, e₃, e₄, Option.map_some, Option.bind_some, run_nil]
    · rw [if_neg hb] at h
      cases h
  · cases h

/-- **The text of a string decodes to the string.** -/
theorem run_decode {E : Escape} (hE : E.Faithful) (s : Bytes) :
    ∃ u, decode u = some s ∧
      ∀ t fs, run ⟨.string t, fs⟩ (E.text s) = some ⟨.string (t ++ u), fs⟩ := by
  induction s with
  | nil => exact ⟨[], rfl, fun t fs => by rw [List.append_nil]; rfl⟩
  | cons c s ih =>
    obtain ⟨u, hu, hrun⟩ := ih
    have hcons : E.text (c :: s) = E.esc c ++ E.text s := rfl
    obtain ⟨x, hx, hstep⟩ : ∃ x : Sym, x.toByte = some c ∧
        ∀ t fs, run ⟨.string t, fs⟩ (E.esc c) = some ⟨.string (t ++ [x]), fs⟩ := by
      by_cases hc : mustEscape c = true
      · obtain ⟨x, hsym, hx⟩ := Option.bind_eq_some_iff.mp (hE c hc)
        exact ⟨x, hx, run_escapeSym hsym⟩
      · have hplain : mustEscape c = false := by simpa using hc
        refine ⟨.byte c, rfl, fun t fs => ?_⟩
        rw [E.plain c hplain, run_cons, run_plain hplain]
        rfl
    refine ⟨x :: u, ?_, fun t fs => ?_⟩
    · show x.toByte.bind (fun b => (decode u).map fun bs => b :: bs) = some (c :: s)
      rw [hx, hu]
      rfl
    · rw [hcons, run_append, hstep, Option.bind_some, hrun, List.append_assoc]
      rfl

theorem reads_decode {E : Escape} (hE : E.Faithful) (s : Bytes) :
    ∃ u, decode u = some s ∧ Reads (string E s) (.string u) := by
  obtain ⟨u, hu, hrun⟩ := run_decode hE s
  refine ⟨u, hu, ⟨quote, _, rfl, rfl, by decide⟩, fun fs hfs => ?_⟩
  have hopen : step ⟨.value, fs⟩ quote = some ⟨.string [], fs⟩ := rfl
  have hclose : run ⟨.string u, fs⟩ [quote] = some (endString u fs) := rfl
  unfold string
  rw [run_cons, hopen, Option.bind_some, run_append, hrun, Option.bind_some, List.nil_append,
    hclose, endString_value u hfs]

theorem mapM_of_forall₂ {α β : Type*} {f : α → Option β} {xs : List α} {ys : List β}
    (h : List.Forall₂ (fun x y => f x = some y) xs ys) : xs.mapM f = some ys := by
  induction h with
  | nil => rfl
  | cons hx hxs ih =>
    rw [List.mapM_cons, hx, ih]
    rfl

end Json
