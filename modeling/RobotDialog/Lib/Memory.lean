import RobotDialog.Lib.CString

/-!
# Strings in memory

An object of the memory of a C program, byte by byte, with the functions of the string library as
loops of single reads and stores.  A read outside of the object or of a byte that nobody has
written is a fault, as is a store outside of the object; `none` is a fault everywhere.

* `load`, `store`              one byte;
* `scan`                       a loop `while (!p(*s)) s++`, as in `strlen`, `strchr`, `strcspn`;
* `text`                       the string at an offset;
* `loads`                      many bytes;
* `copy`, `strncpy`            the loops that copy;
* `snprintf`                   a text into an array;
* `scan_string`, `text_string` what they read in an object that holds a string there;
* `copy_over`, `strncpy_over`  what they leave behind, and that nothing else changes;
* `snprintf_over`              the array holds the text, cut, as a string.
-/

namespace Memory
open CString

/-- an object of the memory; `none` is a byte that nobody has written -/
abbrev Block := List (Option UInt8)

/-- `*s` -/
def load (m : Block) (s : Nat) : Option UInt8 := (m[s]?).join

/-- `*s = c` -/
def store (m : Block) (s : Nat) (c : UInt8) : Option Block :=
  if s < m.length then some (m.set s (some c)) else none

def written (b : Bytes) : Block := b.map some

/-- how many bytes the loop `while (!p(*s)) s++` passes -/
def passed (p : UInt8 → Bool) : Block → Option Nat
  | [] => none
  | none :: _ => none
  | some c :: m => if p c then some 0 else (passed p m).map (· + 1)

/-- `while (!p(*s)) s++`, and then `s` -/
def scan (p : UInt8 → Bool) (m : Block) (s : Nat) : Option Nat :=
  (passed p (m.drop s)).map (s + ·)

def strlen (m : Block) (s : Nat) : Option Nat := passed (· == 0) (m.drop s)

/-- the bytes in front of the first NUL -/
def string : Block → Option Bytes
  | [] => none
  | none :: _ => none
  | some c :: m => if c = 0 then some [] else (string m).map (c :: ·)

/-- the string at `s`, as a function of the library reads it -/
def text (m : Block) (s : Nat) : Option Bytes := string (m.drop s)

/-- `n` bytes from `s` on -/
def loads (m : Block) (s : Nat) : Nat → Option Bytes
  | 0 => some []
  | n + 1 => do return (← load m s) :: (← loads m (s + 1) n)

/-- `memcpy(d, s, n)` between two objects -/
def copy (src : Block) (s : Nat) (dst : Block) (d : Nat) : Nat → Option Block
  | 0 => some dst
  | n + 1 => do
    let dst' ← store dst d (← load src s)
    copy src (s + 1) dst' (d + 1) n

/-- `memset(d, 0, n)` -/
def zero (dst : Block) (d : Nat) : Nat → Option Block
  | 0 => some dst
  | n + 1 => do zero (← store dst d 0) (d + 1) n

/-- `strncpy(d, s, n)` between two objects -/
def strncpy (src : Block) (s : Nat) (dst : Block) (d : Nat) : Nat → Option Block
  | 0 => some dst
  | n + 1 => do
    let c ← load src s
    let dst' ← store dst d c
    if c = 0 then zero dst' (d + 1) n else strncpy src (s + 1) dst' (d + 1) n

/-- `snprintf(dst, size, ..)` with the text `s` -/
def snprintf (dst : Block) (size : Nat) (s : Bytes) : Option Block :=
  copy (written (cut size s ++ [0])) 0 dst 0 ((cut size s).length + 1)

/-! ## one byte -/

@[simp] theorem written_nil : written [] = [] := rfl

@[simp] theorem written_cons (c : UInt8) (b : Bytes) : written (c :: b) = some c :: written b := rfl

@[simp] theorem written_append (a b : Bytes) : written (a ++ b) = written a ++ written b :=
  List.map_append

@[simp] theorem length_written (b : Bytes) : (written b).length = b.length := List.length_map _

theorem load_at (pre : Block) (c : UInt8) (post : Block) :
    load (pre ++ some c :: post) pre.length = some c := by
  unfold load
  rw [List.getElem?_append_right (Nat.le_refl _), Nat.sub_self, List.getElem?_cons_zero]
  rfl

theorem store_at (pre : Block) (old : Option UInt8) (post : Block) (c : UInt8) :
    store (pre ++ old :: post) pre.length c = some (pre ++ some c :: post) := by
  unfold store
  rw [if_pos (by rw [List.length_append, List.length_cons]; omega),
    List.set_append_right _ _ (Nat.le_refl _), Nat.sub_self, List.set_cons_zero]

/-! ## reading -/

/-- A loop that stops at a NUL passes what it does not look for. -/
theorem passed_string {p : UInt8 → Bool} (hp : p 0 = true) (b : Bytes) (post : Block) :
    passed p (written b ++ some 0 :: post) = some (b.takeWhile fun c => !p c).length := by
  induction b with
  | nil => exact if_pos hp
  | cons x b ih =>
    show (if p x then some 0 else (passed p (written b ++ some 0 :: post)).map (· + 1)) = _
    by_cases hx : p x = true
    · rw [if_pos hx, List.takeWhile_cons_of_neg (by simp [hx])]
      rfl
    · rw [if_neg hx, ih, List.takeWhile_cons_of_pos (by simpa using hx)]
      rfl

theorem drop_pre (pre m : Block) : (pre ++ m).drop pre.length = m := List.drop_left ..

theorem scan_string {p : UInt8 → Bool} (hp : p 0 = true) (pre : Block) (b : Bytes) (post : Block) :
    scan p (pre ++ (written b ++ some 0 :: post)) pre.length =
      some (pre.length + (b.takeWhile fun c => !p c).length) := by
  unfold scan
  rw [drop_pre, passed_string hp]
  rfl

theorem scan_delim (d : UInt8) (pre : Block) {b : Bytes} (h0 : 0 ∉ b) (post : Block) :
    scan (fun c => c == d || c == 0) (pre ++ (written b ++ some 0 :: post)) pre.length =
      some (pre.length + (b.takeWhile (· != d)).length) := by
  rw [scan_string (Bool.or_true _)]
  have hsame : b.takeWhile (fun c => !(c == d || c == 0)) = b.takeWhile (· != d) := by
    induction b with
    | nil => rfl
    | cons c b ih =>
      rw [List.mem_cons, not_or] at h0
      have hc : (c == 0) = false := beq_eq_false_iff_ne.mpr (Ne.symm h0.1)
      rw [List.takeWhile_cons, List.takeWhile_cons, ih h0.2, hc, Bool.or_false]
      rfl
  rw [hsame]

theorem strlen_string (pre : Block) {b : Bytes} (h0 : 0 ∉ b) (post : Block) :
    strlen (pre ++ (written b ++ some 0 :: post)) pre.length = some b.length := by
  unfold strlen
  rw [drop_pre, passed_string rfl, List.takeWhile_eq_self_iff.mpr]
  intro c hc
  rw [Bool.not_eq_true', beq_eq_false_iff_ne]
  rintro rfl
  exact h0 hc

theorem text_string (pre : Block) {b : Bytes} (h0 : 0 ∉ b) (post : Block) :
    text (pre ++ (written b ++ some 0 :: post)) pre.length = some b := by
  unfold text
  rw [drop_pre]
  induction b with
  | nil => rfl
  | cons x b ih =>
    rw [List.mem_cons, not_or] at h0
    show (if x = 0 then some [] else (string (written b ++ some 0 :: post)).map (x :: ·)) = _
    rw [if_neg (Ne.symm h0.1), ih h0.2]
    rfl

theorem load_string (pre : Block) (x y : Bytes) (post : Block) :
    load (pre ++ (written (x ++ y) ++ some 0 :: post)) (pre.length + x.length) =
      some (y.headD 0) := by
  have hlen : (pre ++ written x).length = pre.length + x.length := by
    rw [List.length_append, length_written]
  rw [written_append, ← hlen, List.append_assoc, ← List.append_assoc pre]
  cases y with
  | nil => exact load_at _ _ _
  | cons c y => exact load_at _ _ _

theorem loads_written (pre : Block) (b : Bytes) (post : Block) :
    loads (pre ++ (written b ++ post)) pre.length b.length = some b := by
  induction b generalizing pre with
  | nil => rfl
  | cons c b ih =>
    have hnext : loads (pre ++ some c :: (written b ++ post)) (pre.length + 1) b.length = some b := by
      have h := ih (pre ++ [some c])
      rw [List.length_append, List.append_assoc] at h
      exact h
    simp only [loads, List.length_cons, written_cons, List.cons_append, load_at,
      Option.bind_eq_bind, Option.bind_some, hnext]
    rfl

theorem loads_drop (b : Bytes) (s : Nat) (hs : s ≤ b.length) (post : Block) :
    loads (written b ++ post) s (b.length - s) = some (b.drop s) := by
  have hsplit : written b ++ post = written (b.take s) ++ (written (b.drop s) ++ post) := by
    rw [← List.append_assoc, ← written_append, List.take_append_drop]
  have h := loads_written (written (b.take s)) (b.drop s) post
  rw [length_written, List.length_take_of_le hs, List.length_drop] at h
  rw [hsplit, h]

theorem written_cstr (b : Bytes) (post : Block) :
    ∃ rest, written b ++ some 0 :: post = written (cstr b) ++ some 0 :: rest := by
  induction b with
  | nil => exact ⟨post, rfl⟩
  | cons c b ih =>
    by_cases hc : c = 0
    · subst hc
      exact ⟨_, rfl⟩
    · obtain ⟨rest, hrest⟩ := ih
      refine ⟨rest, ?_⟩
      have hcstr : cstr (c :: b) = c :: cstr b := List.takeWhile_cons_of_pos (bne_iff_ne.mpr hc)
      rw [hcstr, written_cons, written_cons, List.cons_append, List.cons_append, hrest]

theorem written_cstrAt (b : Bytes) (s : Nat) (post : Block) :
    ∃ rest, written b ++ some 0 :: post =
      written (b.take s) ++ (written (cstrAt b s) ++ some 0 :: rest) := by
  obtain ⟨rest, hrest⟩ := written_cstr (b.drop s) post
  refine ⟨rest, ?_⟩
  have hsplit : written b = written (b.take s) ++ written (b.drop s) := by
    rw [← written_append, List.take_append_drop]
  rw [hsplit, List.append_assoc, hrest]
  rfl

variable {b : Bytes} {s : Nat}

theorem length_take_written (h : s ≤ b.length) : (written (b.take s)).length = s := by
  rw [length_written, List.length_take_of_le h]

theorem load_cstrAt (h : s ≤ b.length) (post : Block) :
    load (written b ++ some 0 :: post) s = some ((cstrAt b s).headD 0) := by
  obtain ⟨rest, hrest⟩ := written_cstrAt b s post
  have hload := load_string (written (b.take s)) [] (cstrAt b s) rest
  rw [List.length_nil, Nat.add_zero, List.nil_append, length_take_written h] at hload
  rw [hrest, hload]

theorem scan_cstrAt {p : UInt8 → Bool} (hp : p 0 = true) (h : s ≤ b.length) (post : Block) :
    scan p (written b ++ some 0 :: post) s =
      some (s + ((cstrAt b s).takeWhile fun c => !p c).length) := by
  obtain ⟨rest, hrest⟩ := written_cstrAt b s post
  have hscan := scan_string hp (written (b.take s)) (cstrAt b s) rest
  rw [length_take_written h] at hscan
  rw [hrest, hscan]

theorem scan_delim_cstrAt (d : UInt8) (h : s ≤ b.length) (post : Block) :
    scan (fun c => c == d || c == 0) (written b ++ some 0 :: post) s =
      some (s + ((cstrAt b s).takeWhile (· != d)).length) := by
  obtain ⟨rest, hrest⟩ := written_cstrAt b s post
  have hscan := scan_delim d (written (b.take s)) (nul_not_mem_cstr (b.drop s)) rest
  rw [length_take_written h] at hscan
  rw [hrest]
  exact hscan

theorem headD_eq_zero {b : Bytes} (h0 : 0 ∉ b) : b.headD 0 = 0 ↔ b = [] := by
  cases b with
  | nil => exact iff_of_true rfl rfl
  | cons c b =>
    rw [List.mem_cons, not_or] at h0
    exact iff_of_false (Ne.symm h0.1) (List.cons_ne_nil _ _)

/-! ## copying -/

theorem copy_over (spre : Block) (b : Bytes) (spost dpre : Block) {old : Block}
    (hold : old.length = b.length) (dpost : Block) :
    copy (spre ++ (written b ++ spost)) spre.length (dpre ++ (old ++ dpost)) dpre.length b.length =
      some (dpre ++ (written b ++ dpost)) := by
  induction b generalizing spre dpre old with
  | nil =>
    obtain rfl := List.length_eq_zero_iff.mp hold
    rfl
  | cons c b ih =>
    obtain ⟨o, old, rfl⟩ : ∃ o rest, old = o :: rest :=
      List.exists_cons_of_length_pos (by rw [hold]; exact Nat.succ_pos _)
    have hold' : old.length = b.length := Nat.succ.inj hold
    have hnext := ih (spre ++ [some c]) (dpre ++ [some c]) hold'
    rw [List.length_append, List.length_append, List.append_assoc, List.append_assoc,
      List.append_assoc] at hnext
    simp only [copy, List.length_cons, written_cons, List.cons_append, load_at, store_at,
      Option.bind_eq_bind, Option.bind_some]
    exact hnext

theorem zero_over (dpre : Block) (old dpost : Block) :
    zero (dpre ++ (old ++ dpost)) dpre.length old.length =
      some (dpre ++ (List.replicate old.length (some 0) ++ dpost)) := by
  induction old generalizing dpre with
  | nil => rfl
  | cons o old ih =>
    have hnext := ih (dpre ++ [some 0])
    rw [List.length_append, List.append_assoc, List.append_assoc] at hnext
    simp only [zero, List.length_cons, List.cons_append, store_at, Option.bind_eq_bind,
      Option.bind_some]
    exact hnext

/-- **`strncpy`** copies the string as far as there is room and fills the rest with zeros. -/
theorem strncpy_over (spre : Block) {b : Bytes} (h0 : 0 ∉ b) (spost dpre old dpost : Block) :
    strncpy (spre ++ (written b ++ some 0 :: spost)) spre.length (dpre ++ (old ++ dpost))
        dpre.length old.length =
      some (dpre ++ (written (b.take old.length) ++
        List.replicate (old.length - b.length) (some 0) ++ dpost)) := by
  induction old generalizing spre dpre b with
  | nil => rw [List.length_nil, List.take_zero, Nat.zero_sub]; rfl
  | cons o old ih =>
    cases b with
    | nil =>
      have hzero := zero_over (dpre ++ [some 0]) old dpost
      rw [List.length_append, List.append_assoc, List.append_assoc] at hzero
      simp only [strncpy, List.length_cons, written_nil, List.nil_append, List.cons_append, load_at,
        store_at, Option.bind_eq_bind, Option.bind_some, if_pos]
      exact hzero
    | cons c b =>
      rw [List.mem_cons, not_or] at h0
      have hnext := ih (spre ++ [some c]) h0.2 (dpre ++ [some c])
      rw [List.length_append, List.length_append, List.append_assoc, List.append_assoc,
        List.append_assoc] at hnext
      simp only [strncpy, List.length_cons, written_cons, List.cons_append, load_at, store_at,
        Option.bind_eq_bind, Option.bind_some, if_neg (Ne.symm h0.1), Nat.add_sub_add_right,
        List.take_succ_cons]
      exact hnext

/-- **`snprintf`** stores inside of the array, whatever the array held: the text, cut, and a NUL. -/
theorem snprintf_over {old : Block} (hold : 0 < old.length) (s : Bytes) :
    ∃ rest, snprintf old old.length s = some (written (cut old.length s) ++ some 0 :: rest) := by
  have hlen : (cut old.length s ++ [0]).length ≤ old.length := by
    unfold cut
    rw [List.length_append, List.length_take, List.length_singleton]
    omega
  have hfirst : (old.take (cut old.length s ++ [0]).length).length =
      (cut old.length s ++ [0]).length := List.length_take_of_le hlen
  have hcopy := copy_over [] (cut old.length s ++ [0]) [] [] hfirst
    (old.drop (cut old.length s ++ [0]).length)
  rw [List.nil_append, List.nil_append, List.nil_append, List.append_nil, List.take_append_drop,
    List.length_nil, List.length_append, List.length_singleton, written_append,
    List.append_assoc] at hcopy
  refine ⟨old.drop ((cut old.length s).length + 1), ?_⟩
  unfold snprintf
  rw [written_append]
  exact hcopy

end Memory
