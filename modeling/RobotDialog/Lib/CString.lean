import Mathlib.Data.List.TakeDrop
import Mathlib.Data.List.DropRight
import Mathlib.Data.List.TakeWhile

/-!
# C strings

A buffer is a list of bytes and reads as NUL behind its end.

* `cstr`                the string in a buffer: the bytes before the first NUL;
* `cstrAt`              the string at an offset of a buffer;
* `cut`                 what `strncpy` into a buffer of a given size keeps;
* `trim`, `strtol`      white space and decimal numbers, as in the C library;
* `cstrAt_nul`, `cstrAt_end`   a string inside a buffer;
* `trim_digits`, `strtol_digits`   a string of decimal digits is read back whole;
* `Buffer`, `store`     stores into a buffer of a given size, which fail outside of it.
-/

namespace CString

abbrev Bytes := List UInt8

/-- the bytes of an ASCII literal -/
def ascii (s : String) : Bytes := s.toList.map fun c => c.toNat.toUInt8

/-- the string in a buffer -/
def cstr (b : Bytes) : Bytes := b.takeWhile (· != 0)

/-- the string at offset `k` -/
def cstrAt (b : Bytes) (k : Nat) : Bytes := cstr (b.drop k)

/-- what a copy into a buffer of `size` bytes keeps of a string -/
def cut (size : Nat) (s : Bytes) : Bytes := s.take (size - 1)

/-- `isspace` in the C locale -/
def isspace (c : UInt8) : Bool := c == 32 || (9 ≤ c && c ≤ 13)

def isdigit (c : UInt8) : Bool := 48 ≤ c && c ≤ 57

/-- a string without its leading and trailing white space -/
def trim (s : Bytes) : Bytes := (s.dropWhile isspace).rdropWhile isspace

/-- the value of a list of decimal digits -/
def digitsValue (ds : Bytes) : Nat := ds.foldl (fun n d => 10 * n + (d.toNat - 48)) 0

/-- `strtol` with base 10: the value (without the saturation to `long`), and the string at `endptr`;
without a digit nothing is consumed -/
def strtol (s : Bytes) : Int × Bytes :=
  let t := s.dropWhile isspace
  let (neg, u) := match t with
    | c :: r => if c == 45 then (true, r) else if c == 43 then (false, r) else (false, t)
    | [] => (false, t)
  let ds := u.takeWhile isdigit
  if ds = [] then (0, s)
  else (if neg then -(digitsValue ds : Int) else digitsValue ds, u.dropWhile isdigit)

/-! ## strings without NUL -/

theorem nul_not_mem_cstr (b : Bytes) : 0 ∉ cstr b :=
  fun h => absurd (List.mem_takeWhile_imp h) (by simp)

theorem cstr_eq_self {b : Bytes} (h : 0 ∉ b) : cstr b = b := by
  unfold cstr
  rw [List.takeWhile_eq_self_iff]
  intro x hx
  have hne : x ≠ 0 := fun e => h (e ▸ hx)
  simpa using hne

theorem takeWhile_delim {α : Type*} [BEq α] [LawfulBEq α] {d : α} {xs : List α} (h : d ∉ xs)
    (ys : List α) : (xs ++ d :: ys).takeWhile (· != d) = xs := by
  have hall : ∀ a ∈ xs, (a != d) = true := by
    intro a ha
    have hne : a ≠ d := fun e => h (e ▸ ha)
    simpa using hne
  rw [List.takeWhile_append_of_pos hall, List.takeWhile_cons]
  simp

theorem dropWhile_delim {α : Type*} [BEq α] [LawfulBEq α] {d : α} {xs : List α} (h : d ∉ xs)
    (ys : List α) : (xs ++ d :: ys).dropWhile (· != d) = d :: ys := by
  have hall : ∀ a ∈ xs, (a != d) = true := by
    intro a ha
    have hne : a ≠ d := fun e => h (e ▸ ha)
    simpa using hne
  rw [List.dropWhile_append_of_pos hall, List.dropWhile_cons]
  simp

theorem takeWhile_no_delim {α : Type*} [BEq α] [LawfulBEq α] {d : α} {xs : List α} (h : d ∉ xs) :
    xs.takeWhile (· != d) = xs := by
  rw [List.takeWhile_eq_self_iff]
  intro a ha
  have hne : a ≠ d := fun e => h (e ▸ ha)
  simpa using hne

theorem delim_cases {α : Type*} [DecidableEq α] (d : α) (xs : List α) :
    d ∉ xs ∨ ∃ as bs, xs = as ++ d :: bs ∧ d ∉ as := by
  by_cases h : d ∈ xs
  · obtain ⟨as, bs, he, hd⟩ := List.eq_append_cons_of_mem h
    exact .inr ⟨as, bs, he, hd⟩
  · exact .inl h

theorem cut_eq_self {size : Nat} {s : Bytes} (h : s.length ≤ size - 1) : cut size s = s :=
  List.take_of_length_le h

theorem cstr_nul {s : Bytes} (h : 0 ∉ s) (rest : Bytes) : cstr (s ++ 0 :: rest) = s :=
  takeWhile_delim h rest

/-! ## decimal digits -/

theorem isspace_of_isdigit {c : UInt8} (h : isdigit c = true) : isspace c = false := by
  unfold isdigit at h
  unfold isspace
  rw [Bool.and_eq_true, decide_eq_true_eq, decide_eq_true_eq] at h
  have hlow : 48 ≤ c.toNat := UInt8.le_iff_toNat_le.mp h.1
  have hspace : c ≠ 32 := by
    intro e
    subst e
    exact absurd hlow (by decide)
  have hhigh : ¬ c ≤ 13 := by
    intro hle
    have hle' : c.toNat ≤ 13 := UInt8.le_iff_toNat_le.mp hle
    omega
  rw [Bool.or_eq_false_iff, Bool.and_eq_false_iff]
  exact ⟨by simpa using hspace, .inr (by simpa using hhigh)⟩

theorem trim_digits {ds : Bytes} (h : ∀ c ∈ ds, isdigit c = true) : trim ds = ds := by
  have hfront : ds.dropWhile isspace = ds := by
    cases ds with
    | nil => rfl
    | cons d ds =>
      rw [List.dropWhile_cons_of_neg]
      simp [isspace_of_isdigit (h d List.mem_cons_self)]
  unfold trim
  rw [hfront, List.rdropWhile_eq_self_iff]
  intro hne
  rw [isspace_of_isdigit (h _ (List.getLast_mem hne))]
  exact Bool.false_ne_true

/-- **A string of digits is a number.** -/
theorem strtol_digits {ds : Bytes} (hne : ds ≠ []) (h : ∀ c ∈ ds, isdigit c = true) :
    strtol ds = ((digitsValue ds : Int), []) := by
  obtain ⟨d, t, rfl⟩ := List.exists_cons_of_ne_nil hne
  have hd : isdigit d = true := h d List.mem_cons_self
  have hspace : (d :: t).dropWhile isspace = d :: t := by
    rw [List.dropWhile_cons_of_neg]
    simp [isspace_of_isdigit hd]
  have hminus : (d == 45) = false := by
    rw [beq_eq_false_iff_ne]
    intro e
    subst e
    exact absurd hd (by decide)
  have hplus : (d == 43) = false := by
    rw [beq_eq_false_iff_ne]
    intro e
    subst e
    exact absurd hd (by decide)
  have htake : (d :: t).takeWhile isdigit = d :: t := List.takeWhile_eq_self_iff.mpr h
  have hdrop : (d :: t).dropWhile isdigit = [] := List.dropWhile_eq_nil_iff.mpr h
  unfold strtol
  simp only [hspace, hminus, hplus, Bool.false_eq_true, if_false, htake, hdrop, hne]

/-! ## strings inside a buffer -/

theorem cstrAt_append (pre b : Bytes) : cstrAt (pre ++ b) pre.length = cstr b := by
  unfold cstrAt
  rw [List.drop_left]

theorem cstrAt_nul (pre : Bytes) {s : Bytes} (h : 0 ∉ s) (rest : Bytes) :
    cstrAt (pre ++ (s ++ 0 :: rest)) pre.length = s := by
  rw [cstrAt_append, cstr_nul h]

theorem cstrAt_end (pre : Bytes) {s : Bytes} (h : 0 ∉ s) : cstrAt (pre ++ s) pre.length = s := by
  rw [cstrAt_append, cstr_eq_self h]

theorem cstrAt_length (b : Bytes) : cstrAt b b.length = [] := by
  unfold cstrAt
  rw [List.drop_length]
  rfl

/-! ## stores -/

/-- a buffer of `size` bytes -/
structure Buffer (size : Nat) where
  bytes : Bytes
  length_eq : bytes.length = size

namespace Buffer
variable {size : Nat}

/-- a byte is stored at offset `k`; `none` is a store outside of the buffer -/
def store (b : Buffer size) (k : Nat) (c : UInt8) : Option (Buffer size) :=
  if k < size then some ⟨b.bytes.set k c, by rw [List.length_set, b.length_eq]⟩ else none

/-- bytes are stored one behind the other, from offset `k` on -/
def storeAll (b : Buffer size) (k : Nat) : Bytes → Option (Buffer size)
  | [] => some b
  | c :: cs => (b.store k c).bind fun b' => storeAll b' (k + 1) cs

theorem store_holds {b : Buffer size} {text : Bytes} (h : text <+: b.bytes) (c : UInt8)
    (hroom : text.length < size) :
    ∃ b', b.store text.length c = some b' ∧ text ++ [c] <+: b'.bytes := by
  obtain ⟨tail, ht⟩ := h
  have hlen := b.length_eq
  rw [← ht, List.length_append] at hlen
  obtain ⟨old, tail, rfl⟩ : ∃ old rest, tail = old :: rest :=
    List.exists_cons_of_length_pos (by omega)
  have hset : b.bytes.set text.length c = text ++ [c] ++ tail := by
    rw [← ht, List.set_append_right _ _ (Nat.le_refl _), Nat.sub_self, List.set_cons_zero,
      List.append_assoc, List.singleton_append]
  unfold store
  rw [if_pos hroom]
  exact ⟨_, rfl, tail, hset.symm⟩

/-- **Stores behind what the buffer holds**: as many as it has room for succeed. -/
theorem storeAll_holds {b : Buffer size} {text : Bytes} (h : text <+: b.bytes) (cs : Bytes)
    (hroom : text.length + cs.length ≤ size) :
    ∃ b', b.storeAll text.length cs = some b' ∧ text ++ cs <+: b'.bytes := by
  induction cs generalizing b text with
  | nil => exact ⟨b, rfl, by rwa [List.append_nil]⟩
  | cons c cs ih =>
    rw [List.length_cons] at hroom
    obtain ⟨b₁, hstore, h₁⟩ := store_holds h c (by omega)
    have hlen : (text ++ [c]).length = text.length + 1 := List.length_append
    obtain ⟨b₂, hall, h₂⟩ := ih h₁ (by omega)
    refine ⟨b₂, ?_, by rwa [List.append_assoc] at h₂⟩
    unfold storeAll
    rw [hstore, Option.bind_some, ← hlen, hall]

theorem cstr_holds {b : Buffer size} {text : Bytes} (h0 : 0 ∉ text) (h : text ++ [0] <+: b.bytes) :
    cstr b.bytes = text := by
  obtain ⟨rest, hrest⟩ := h
  rw [← hrest, List.append_assoc, List.singleton_append, cstr_nul h0]

end Buffer

end CString
