import RobotDialog.Lib.CString

/-!
# UTF-8

* `next`, `Valid`       the byte sequences that are UTF-8, one byte after the other;
* `valid_split_iff`     a byte of ASCII separates two such sequences;
* `decode`              what a decoder that replaces malformed bytes by U+FFFD makes of a sequence, as
                        UTF-8 again;
* `decode_split`        it works on both sides of a byte of ASCII by itself;
* `decode_eq_self_iff`  nothing is replaced exactly in UTF-8.
-/

namespace Utf8
open CString

/-! ## one byte -/

/-- the length of a character with this first byte, 0 if there is none -/
def size (c : UInt8) : Nat :=
  if c < 128 then 1
  else if 194 ≤ c ∧ c ≤ 223 then 2
  else if 224 ≤ c ∧ c ≤ 239 then 3
  else if 240 ≤ c ∧ c ≤ 244 then 4
  else 0

/-- `c` may stand behind the bytes of a character that is not complete; surrogates are left to
`surrogate` -/
def follows (begun : Bytes) (c : UInt8) : Bool :=
  128 ≤ c && c ≤ 191 &&
    match begun with
    | [lead] => (lead != 224 || 160 ≤ c) && (lead != 240 || 144 ≤ c) && (lead != 244 || c ≤ 143)
    | _ => true

/-- the bytes begin a code point from U+D800 to U+DFFF -/
def surrogate : Bytes → Bool
  | lead :: c :: _ => lead == 237 && 160 ≤ c
  | _ => false

/-- the bytes of a character that is not complete, behind one more byte; `none` is not UTF-8 -/
def next (begun : Bytes) (c : UInt8) : Option Bytes :=
  match begun with
  | [] => if size c = 1 then some [] else if size c = 0 then none else some [c]
  | lead :: rest =>
    if follows (lead :: rest) c = true ∧ surrogate (lead :: rest ++ [c]) = false then
      some (if rest.length + 2 = size lead then [] else lead :: rest ++ [c])
    else none

def Valid (s : Bytes) : Prop := s.foldlM next [] = some []

instance (s : Bytes) : Decidable (Valid s) := inferInstanceAs (Decidable (_ = _))

theorem size_ascii {c : UInt8} (h : c < 128) : size c = 1 := if_pos h

theorem follows_ascii {c : UInt8} (h : c < 128) (begun : Bytes) : follows begun c = false := by
  have hlow : ¬ 128 ≤ c := UInt8.not_le.mpr h
  unfold follows
  rw [decide_eq_false hlow]
  rfl

theorem next_ascii {c : UInt8} (h : c < 128) (begun : Bytes) :
    next begun c = if begun = [] then some [] else none := by
  cases begun with
  | nil => exact if_pos (size_ascii h)
  | cons lead rest =>
    rw [next, follows_ascii h, if_neg (fun e => by cases e.1), if_neg (List.cons_ne_nil _ _)]

theorem surrogate_append {begun : Bytes} (h : surrogate begun = true) (rest : Bytes) :
    surrogate (begun ++ rest) = true := by
  match begun, h with
  | lead :: c :: more, h => exact h

/-! ## sequences -/

theorem Valid.nil : Valid [] := rfl

theorem Valid.append {a b : Bytes} (ha : Valid a) (hb : Valid b) : Valid (a ++ b) := by
  unfold Valid at ha ⊢
  rw [List.foldlM_append, ha]
  exact hb

/-- **A byte of ASCII is a character of its own.** -/
theorem valid_split_iff {c : UInt8} (h : c < 128) (a b : Bytes) :
    Valid (a ++ c :: b) ↔ Valid a ∧ Valid b := by
  unfold Valid
  rw [List.foldlM_append]
  cases ha : a.foldlM next [] with
  | none => exact iff_of_false (fun e => by cases e) fun e => by cases e.1
  | some begun =>
    show (next begun c).bind (fun begun => b.foldlM next begun) = some [] ↔ _
    rw [next_ascii h]
    by_cases hopen : begun = []
    · rw [if_pos hopen, hopen]
      exact (and_iff_right rfl).symm
    · rw [if_neg hopen]
      refine iff_of_false (fun e => by cases e) fun e => ?_
      exact hopen (Option.some.inj e.1)

theorem valid_ascii_append {a : Bytes} (ha : ∀ c ∈ a, c < 128) (b : Bytes) :
    Valid (a ++ b) ↔ Valid b := by
  induction a with
  | nil => rfl
  | cons c a ih =>
    rw [List.forall_mem_cons] at ha
    rw [List.cons_append, ← List.nil_append (c :: (a ++ b)), valid_split_iff ha.1, ih ha.2,
      and_iff_right Valid.nil]

theorem valid_ascii {a : Bytes} (ha : ∀ c ∈ a, c < 128) : Valid a := by
  have h := (valid_ascii_append ha []).mpr Valid.nil
  rwa [List.append_nil] at h

theorem valid_append_ascii {b : Bytes} (hb : ∀ c ∈ b, c < 128) (a : Bytes) :
    Valid (a ++ b) ↔ Valid a := by
  cases b with
  | nil => rw [List.append_nil]
  | cons c b =>
    rw [List.forall_mem_cons] at hb
    rw [valid_split_iff hb.1, and_iff_left (valid_ascii hb.2)]

theorem valid_between_iff {m : Bytes} (hm : ∀ c ∈ m, c < 128) (hne : m ≠ []) (a b : Bytes) :
    Valid (a ++ m ++ b) ↔ Valid a ∧ Valid b := by
  obtain ⟨c, m, rfl⟩ := List.exists_cons_of_ne_nil hne
  rw [List.forall_mem_cons] at hm
  rw [List.append_assoc, List.cons_append, valid_split_iff hm.1, valid_ascii_append hm.2]

theorem Valid.takeWhile {p : UInt8 → Bool} (hp : ∀ c, p c = false → c < 128) {s : Bytes}
    (h : Valid s) : Valid (s.takeWhile p) := by
  have hsplit := List.takeWhile_append_dropWhile (p := p) (l := s)
  cases hd : s.dropWhile p with
  | nil =>
    rw [hd, List.append_nil] at hsplit
    rwa [hsplit]
  | cons c rest =>
    have hstop : p c = false := by
      have hhead := List.head_dropWhile_not p (l := s) (by rw [hd]; exact List.cons_ne_nil _ _)
      simpa [hd] using hhead
    rw [hd] at hsplit
    rw [← hsplit] at h
    exact ((valid_split_iff (hp c hstop) _ _).mp h).1

/-! ## decoding -/

/-- U+FFFD -/
def replacement : Bytes := [239, 191, 189]

/-- a byte that no character is open for: what is put out, and what is open then -/
def begins (c : UInt8) : Bytes × Bytes :=
  if size c = 1 then ([c], []) else if size c = 0 then (replacement, []) else ([], [c])

/-- one byte: what is put out, and what is open then -/
def feed (begun : Bytes) (c : UInt8) : Bytes × Bytes :=
  match begun with
  | [] => begins c
  | lead :: rest =>
    if follows (lead :: rest) c then
      if rest.length + 2 = size lead then
        (if surrogate (lead :: rest ++ [c]) then replacement else lead :: rest ++ [c], [])
      else ([], lead :: rest ++ [c])
    else (replacement ++ (begins c).1, (begins c).2)

/-- the text behind the bytes of a character that is not complete -/
def decodeFrom (begun : Bytes) : Bytes → Bytes
  | [] => if begun = [] then [] else replacement
  | c :: s => (feed begun c).1 ++ decodeFrom (feed begun c).2 s

/-- a decoder that replaces the bytes of each malformed character by U+FFFD -/
def decode (s : Bytes) : Bytes := decodeFrom [] s

example : decode [99, 226, 130, 124] = [99, 239, 191, 189, 124] := by decide

theorem feed_ascii {c : UInt8} (h : c < 128) (begun : Bytes) :
    feed begun c = ((if begun = [] then [] else replacement) ++ [c], []) := by
  have hbegins : begins c = ([c], []) := if_pos (size_ascii h)
  cases begun with
  | nil => exact hbegins
  | cons lead rest =>
    rw [feed, follows_ascii h, if_neg Bool.false_ne_true, if_neg (List.cons_ne_nil _ _), hbegins]

theorem decodeFrom_split {c : UInt8} (h : c < 128) (begun a b : Bytes) :
    decodeFrom begun (a ++ c :: b) = decodeFrom begun a ++ c :: decode b := by
  induction a generalizing begun with
  | nil =>
    show (feed begun c).1 ++ decodeFrom (feed begun c).2 b = decodeFrom begun [] ++ c :: decode b
    rw [feed_ascii h, decodeFrom, List.append_assoc]
    rfl
  | cons d a ih => rw [List.cons_append, decodeFrom, decodeFrom, ih, List.append_assoc]

/-- **A byte of ASCII is decoded by itself.** -/
theorem decode_split {c : UInt8} (h : c < 128) (a b : Bytes) :
    decode (a ++ c :: b) = decode a ++ c :: decode b :=
  decodeFrom_split h [] a b

theorem decode_cons {c : UInt8} (h : c < 128) (s : Bytes) : decode (c :: s) = c :: decode s :=
  decode_split h [] s

/-! ## decoding UTF-8 -/

theorem surrogate_of_append {begun : Bytes} {c : UInt8}
    (h : surrogate (begun ++ [c]) = false) : surrogate begun = false := by
  cases hs : surrogate begun with
  | false => rfl
  | true => exact (surrogate_append hs [c]).symm.trans h

/-- Both machines do the same as long as the bytes are UTF-8. -/
theorem feed_next {begun begun' : Bytes} {c : UInt8} (h : next begun c = some begun') :
    (feed begun c).2 = begun' ∧ (feed begun c).1 ++ begun' = begun ++ [c] := by
  cases begun with
  | nil =>
    rw [next] at h
    rw [feed, begins]
    split at h
    · rw [if_pos ‹_›, ← Option.some.inj h]
      exact ⟨rfl, rfl⟩
    · split at h
      · cases h
      · rw [if_neg ‹_›, if_neg ‹_›, ← Option.some.inj h]
        exact ⟨rfl, rfl⟩
  | cons lead rest =>
    rw [next] at h
    split at h
    · rename_i hok
      rw [feed, if_pos hok.1, hok.2, ← Option.some.inj h]
      by_cases hfull : rest.length + 2 = size lead
      · rw [if_pos hfull, if_pos hfull]
        exact ⟨rfl, List.append_nil _⟩
      · rw [if_neg hfull, if_neg hfull]
        exact ⟨rfl, rfl⟩
    · cases h

theorem decodeFrom_valid {begun s : Bytes} (h : s.foldlM next begun = some []) :
    decodeFrom begun s = begun ++ s := by
  induction s generalizing begun with
  | nil =>
    obtain rfl := Option.some.inj h
    rfl
  | cons c s ih =>
    obtain ⟨begun', hnext, hrest⟩ := Option.bind_eq_some_iff.mp h
    obtain ⟨h2, h1⟩ := feed_next hnext
    rw [decodeFrom, h2, ih hrest, ← List.append_assoc, h1, List.append_assoc]
    rfl

/-- what is open is UTF-8 so far, or it will be replaced -/
def Sound (begun : Bytes) : Prop :=
  surrogate begun = true ∨ begun.foldlM next [] = some begun

theorem begins_sound (c : UInt8) : Valid (begins c).1 ∧ Sound (begins c).2 := by
  unfold begins
  split
  · rename_i h
    exact ⟨by rw [Valid, List.foldlM_cons, next, if_pos h]; rfl, .inr rfl⟩
  · split
    · exact ⟨by decide, .inr rfl⟩
    · rename_i h1 h0
      exact ⟨.nil, .inr (by rw [List.foldlM_cons, next, if_neg h1, if_neg h0]; rfl)⟩

theorem feed_sound {begun : Bytes} (h : Sound begun) (c : UInt8) :
    Valid (feed begun c).1 ∧ Sound (feed begun c).2 := by
  have hrep : Valid replacement := by decide
  cases begun with
  | nil => exact begins_sound c
  | cons lead rest =>
    rw [feed]
    split
    · rename_i hfollows
      -- the bytes with `c`, if they are no surrogate
      have hrun : surrogate (lead :: rest ++ [c]) = false →
          (lead :: rest ++ [c]).foldlM next [] =
            some (if rest.length + 2 = size lead then [] else lead :: rest ++ [c]) := by
        intro hs
        rcases h with h | h
        · rw [surrogate_of_append hs] at h
          cases h
        · rw [List.foldlM_append, h]
          show (next (lead :: rest) c).bind some = _
          rw [next, if_pos ⟨hfollows, hs⟩]
          rfl
      cases hs : surrogate (lead :: rest ++ [c]) with
      | true =>
        split
        · exact ⟨hrep, .inr rfl⟩
        · exact ⟨.nil, .inl hs⟩
      | false =>
        have hr := hrun hs
        split
        · rename_i hfull
          rw [if_pos hfull] at hr
          exact ⟨hr, .inr rfl⟩
        · rename_i hfull
          rw [if_neg hfull] at hr
          exact ⟨.nil, .inr hr⟩
    · exact ⟨hrep.append (begins_sound c).1, (begins_sound c).2⟩

theorem decodeFrom_sound {begun : Bytes} (h : Sound begun) (s : Bytes) :
    Valid (decodeFrom begun s) := by
  induction s generalizing begun with
  | nil =>
    unfold decodeFrom
    split
    · exact .nil
    · decide
  | cons c s ih =>
    obtain ⟨h1, h2⟩ := feed_sound h c
    exact h1.append (ih h2)

theorem valid_decode (s : Bytes) : Valid (decode s) := decodeFrom_sound (.inr rfl) s

/-- **Nothing is replaced exactly in UTF-8.** -/
theorem decode_eq_self_iff (s : Bytes) : decode s = s ↔ Valid s :=
  ⟨fun h => h ▸ valid_decode s, decodeFrom_valid⟩

end Utf8
