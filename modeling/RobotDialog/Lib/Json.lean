import RobotDialog.Lib.CString

/-!
# JSON text

The text of JSON strings, arrays and objects, as bytes in a charset that is a superset of ASCII.

* `Escape`          how an encoder writes the bytes of a string;
* `shortEscapes`    the two-character escapes where JSON has them, `\u00XX` for the other control
                    characters;
* `string`, `array`, `member`, `object`   the compact layout;
* `mem_string`, `mem_array`   where a byte that is no syntax comes from.
-/

namespace Json
open CString

def quote : UInt8 := 34
def backslash : UInt8 := 92
def comma : UInt8 := 44
def colon : UInt8 := 58

/-- JSON wants these bytes escaped -/
def mustEscape (c : UInt8) : Bool := c == quote || c == backslash || c < 32

/-- the bytes that an escape sequence consists of -/
def escapeByte (c : UInt8) : Bool :=
  c == quote || c == backslash || c == 47 || isdigit c || (65 ≤ c && c ≤ 90) || (97 ≤ c && c ≤ 122)

/-- the way an encoder writes the bytes of a string -/
structure Escape where
  esc : UInt8 → Bytes
  plain : ∀ c, mustEscape c = false → esc c = [c]
  escaped : ∀ c, mustEscape c = true → (esc c).all escapeByte = true

def hexDigit (n : UInt8) : UInt8 := if n < 10 then 48 + n else 87 + n

/-- the escape sequence of a byte that must be escaped -/
def shortEscape (c : UInt8) : Bytes :=
  if c = quote then [backslash, quote]
  else if c = backslash then [backslash, backslash]
  else if c = 8 then ascii "\\b"
  else if c = 9 then ascii "\\t"
  else if c = 10 then ascii "\\n"
  else if c = 12 then ascii "\\f"
  else if c = 13 then ascii "\\r"
  else ascii "\\u00" ++ [hexDigit (c / 16), hexDigit (c % 16)]

theorem forall_byte {P : UInt8 → Prop} (h : ∀ n < 256, P (UInt8.ofNat n)) (b : UInt8) : P b := by
  have hb := h b.toNat (UInt8.toNat_lt b)
  rwa [UInt8.ofNat_toNat] at hb

theorem shortEscape_bytes (c : UInt8) :
    mustEscape c = true → (shortEscape c).all escapeByte = true := by
  apply forall_byte (P := fun c => mustEscape c = true → (shortEscape c).all escapeByte = true)
  decide +kernel

theorem escapeByte_not_control (c : UInt8) : escapeByte c = true → ¬ c < 32 := by
  apply forall_byte (P := fun c => escapeByte c = true → ¬ c < 32)
  decide +kernel

def shortEscapes : Escape where
  esc c := if mustEscape c then shortEscape c else [c]
  plain c h := by rw [h]; rfl
  escaped c h := by rw [if_pos h]; exact shortEscape_bytes c h

/-- the text of a string between its quotes -/
def Escape.text (E : Escape) (s : Bytes) : Bytes := s.flatMap E.esc

def string (E : Escape) (s : Bytes) : Bytes := quote :: (E.text s ++ [quote])

def array (items : List Bytes) : Bytes := 91 :: (List.intercalate [comma] items ++ [93])

/-- a member of an object, its name needs no escapes -/
def member (name value : Bytes) : Bytes := quote :: (name ++ [quote, colon]) ++ value

def object (members : List Bytes) : Bytes := 123 :: (List.intercalate [comma] members ++ [125])

/-! ## where a byte comes from -/

theorem Escape.mem_text (E : Escape) {b : UInt8} (hb : mustEscape b = false)
    (he : escapeByte b = false) (s : Bytes) : b ∈ E.text s ↔ b ∈ s := by
  unfold Escape.text
  rw [List.mem_flatMap]
  constructor
  · rintro ⟨c, hc, hbc⟩
    by_cases hm : mustEscape c = true
    · have h := List.all_eq_true.mp (E.escaped c hm) b hbc
      rw [he] at h
      cases h
    · rw [E.plain c (by simpa using hm), List.mem_singleton] at hbc
      exact hbc ▸ hc
  · intro h
    exact ⟨b, h, by rw [E.plain b hb]; exact List.mem_singleton_self b⟩

theorem Escape.control_not_mem (E : Escape) {b : UInt8} (hb : b < 32) (s : Bytes) :
    b ∉ E.text s := by
  intro h
  obtain ⟨c, hc, hbc⟩ := List.mem_flatMap.mp h
  by_cases hm : mustEscape c = true
  · exact escapeByte_not_control b (List.all_eq_true.mp (E.escaped c hm) b hbc) hb
  · rw [E.plain c (by simpa using hm), List.mem_singleton] at hbc
    subst hbc
    simp [mustEscape, hb] at hm

theorem mem_string {E : Escape} {b : UInt8} (hb : b ≠ quote) (s : Bytes) :
    b ∈ string E s ↔ b ∈ E.text s := by
  simp [string, hb]

theorem mem_intercalate {b : UInt8} (hb : b ≠ comma) (items : List Bytes) :
    b ∈ List.intercalate [comma] items ↔ ∃ x ∈ items, b ∈ x := by
  induction items with
  | nil => simp
  | cons x items ih =>
    by_cases hn : items = []
    · subst hn
      simp
    · rw [List.intercalate_cons_of_ne_nil hn, List.mem_append, List.mem_append, ih]
      simp [hb]

theorem mem_array {b : UInt8} (hb : b ≠ comma) (h1 : b ≠ 91) (h2 : b ≠ 93) (items : List Bytes) :
    b ∈ array items ↔ ∃ x ∈ items, b ∈ x := by
  unfold array
  rw [List.mem_cons, List.mem_append, mem_intercalate hb]
  simp [h1, h2]

theorem mem_object {b : UInt8} (hb : b ≠ comma) (h1 : b ≠ 123) (h2 : b ≠ 125)
    (members : List Bytes) : b ∈ object members ↔ ∃ x ∈ members, b ∈ x := by
  unfold object
  rw [List.mem_cons, List.mem_append, mem_intercalate hb]
  simp [h1, h2]

theorem mem_member {b : UInt8} (hb : b ≠ quote) (hc : b ≠ colon) {name : Bytes} (hn : b ∉ name)
    (value : Bytes) : b ∈ member name value ↔ b ∈ value := by
  simp [member, hb, hc, hn]

end Json
