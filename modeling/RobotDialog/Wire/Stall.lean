import Mathlib.Algebra.BigOperators.Group.Finset.Basic
import Mathlib.Algebra.Order.BigOperators.Group.Finset
import Mathlib.Algebra.Order.Ring.Nat
import RobotDialog.Wire.Protocol

/-!
# How long the loops of a request run

`receive_line` and `send_message` on the endless sequence of results that `recv` and `send` may
give them.

* `recvLoop`                 the loop of `receive_line`, one result of `recv` after the other;
* `recvLoop_receiveLine`     on a stream with an end it is `receiveLine`;
* `recvLoop_running_iff`     when it still runs;
* `receiveLine_bounded_iff`  the number of reads is bounded when that of the carriage returns is;
* `sendLoop_running_iff`     when the loop of `send_message` still runs;
* `sendMessage_returns_iff`  it returns, unless `send` says EAGAIN for ever.
-/

namespace Wire
open CString

def firsts {α : Type} (f : Nat → α) (n : Nat) : List α := (List.range n).map f

section
variable {α : Type} (f : Nat → α)

@[simp] theorem length_firsts (n : Nat) : (firsts f n).length = n := by
  unfold firsts
  rw [List.length_map, List.length_range]

theorem firsts_sublist {m n : Nat} (h : m ≤ n) : List.Sublist (firsts f m) (firsts f n) :=
  List.Sublist.map f (List.range_sublist.mpr h)

theorem mem_firsts {n : Nat} {a : α} : a ∈ firsts f n ↔ ∃ k < n, f k = a := by
  unfold firsts
  rw [List.mem_map]
  simp only [List.mem_range]

end

/-! ## reading -/

/-- the loop of `receive_line` with `room` bytes left in the buffer, `none` a result 0 or -1 of
`recv`: `none` as long as it goes on, `some none` is the return value -1 -/
def recvLoop : Nat → List (Option UInt8) → Option (Option Bytes)
  | 0, _ => some (some [])
  | _ + 1, [] => none
  | _ + 1, none :: _ => some none
  | room + 1, some ch :: rs =>
    if ch = lf then some (some [])
    else if ch = cr then recvLoop (room + 1) rs
    else (recvLoop room rs).map fun line => line.map (ch :: ·)

/-- On a stream with an end the loop does what `receiveLine` says. -/
theorem recvLoop_receiveLine (room : Nat) (stream : Bytes) :
    recvLoop room (stream.map some ++ [none]) =
      some ((receiveLine room stream).map Prod.fst) := by
  induction stream generalizing room with
  | nil => cases room <;> rfl
  | cons ch stream ih =>
    cases room with
    | zero => rfl
    | succ room =>
      rw [List.map_cons, List.cons_append, recvLoop, receiveLine]
      by_cases hlf : ch = lf
      · rw [if_pos hlf, if_pos hlf]
        rfl
      · rw [if_neg hlf, if_neg hlf]
        by_cases hcr : ch = cr
        · rw [if_pos hcr, if_pos hcr, ih]
        · rw [if_neg hcr, if_neg hcr, ih]
          cases receiveLine room stream <;> rfl

/-- bytes of a line that has not ended, with room for another byte -/
structure InLine (room : Nat) (rs : List (Option UInt8)) : Prop where
  bytes : ∀ r ∈ rs, r ≠ none ∧ r ≠ some lf
  room : rs.countP (· ≠ some cr) < room

theorem InLine.sublist {room : Nat} {rs rs' : List (Option UInt8)} (h : InLine room rs)
    (hsub : List.Sublist rs' rs) : InLine room rs' :=
  ⟨fun r hr => h.bytes r (hsub.mem hr), lt_of_le_of_lt (hsub.countP_le) h.room⟩

theorem inLine_nil (room : Nat) : InLine (room + 1) [] :=
  ⟨fun _ h => absurd h List.not_mem_nil, Nat.succ_pos room⟩

theorem inLine_cr {room : Nat} {rs : List (Option UInt8)} :
    InLine room (some cr :: rs) ↔ InLine room rs := by
  constructor
  · intro h
    exact h.sublist (List.sublist_cons_self _ _)
  · intro h
    refine ⟨fun r hr => ?_, ?_⟩
    · rcases List.mem_cons.mp hr with rfl | hr
      · decide
      · exact h.bytes r hr
    · rw [List.countP_cons_of_neg (by simp)]
      exact h.room

theorem inLine_cons {room : Nat} {ch : UInt8} (hlf : ch ≠ lf) (hcr : ch ≠ cr)
    {rs : List (Option UInt8)} : InLine (room + 1) (some ch :: rs) ↔ InLine room rs := by
  have hkept : (some ch :: rs).countP (· ≠ some cr) = rs.countP (· ≠ some cr) + 1 :=
    List.countP_cons_of_pos (by simpa using hcr)
  constructor
  · intro h
    have hroom := h.room
    rw [hkept] at hroom
    exact ⟨fun r hr => h.bytes r (List.mem_cons_of_mem _ hr), Nat.lt_of_succ_lt_succ hroom⟩
  · intro h
    refine ⟨fun r hr => ?_, ?_⟩
    · rcases List.mem_cons.mp hr with rfl | hr
      · exact ⟨Option.some_ne_none ch, fun e => hlf (Option.some.inj e)⟩
      · exact h.bytes r hr
    · rw [hkept]
      exact Nat.succ_lt_succ h.room

/-- **When `receive_line` still reads**: no newline, no end of the stream, and the buffer is not
full; the carriage returns do not count. -/
theorem recvLoop_running_iff (room : Nat) (rs : List (Option UInt8)) :
    recvLoop room rs = none ↔ InLine room rs := by
  induction rs generalizing room with
  | nil =>
    cases room with
    | zero => exact iff_of_false (fun h => by cases h) fun h => Nat.not_lt_zero _ h.room
    | succ room => exact iff_of_true rfl (inLine_nil room)
  | cons r rs ih =>
    cases room with
    | zero => exact iff_of_false (fun h => by cases h) fun h => Nat.not_lt_zero _ h.room
    | succ room =>
      cases r with
      | none =>
        refine iff_of_false (fun h => by cases h) fun h => ?_
        exact (h.bytes none List.mem_cons_self).1 rfl
      | some ch =>
        rw [recvLoop]
        by_cases hlf : ch = lf
        · subst hlf
          rw [if_pos rfl]
          refine iff_of_false (fun h => by cases h) fun h => ?_
          exact (h.bytes _ List.mem_cons_self).2 rfl
        rw [if_neg hlf]
        by_cases hcr : ch = cr
        · subst hcr
          rw [if_pos rfl, ih, inLine_cr]
        · rw [if_neg hcr, Option.map_eq_none_iff, ih, inLine_cons hlf hcr]

/-- `receive_line` with a buffer of `bufferSize` bytes returns after at most `calls` calls of
`recv` -/
def ReturnsWithin (bufferSize calls : Nat) (recv : Nat → Option UInt8) : Prop :=
  recvLoop (bufferSize - 1) (firsts recv calls) ≠ none

/-- at most `most` carriage returns come before the line ends or the buffer is full -/
def CrBounded (bufferSize most : Nat) (recv : Nat → Option UInt8) : Prop :=
  ∀ n, InLine (bufferSize - 1) (firsts recv n) → (firsts recv n).count (some cr) ≤ most

/-- Each read is a carriage return or a byte in the buffer. -/
theorem CrBounded.returns {bufferSize most : Nat} {recv : Nat → Option UInt8}
    (h : CrBounded bufferSize most recv) :
    ReturnsWithin bufferSize (most + (bufferSize - 1)) recv := by
  intro hrun
  rw [recvLoop_running_iff] at hrun
  have hcr := h _ hrun
  have hroom := hrun.room
  have hall := List.length_eq_countP_add_countP (fun r => decide (r = some cr))
    (l := firsts recv (most + (bufferSize - 1)))
  have hcount : (firsts recv (most + (bufferSize - 1))).countP (fun r => decide (r = some cr)) =
      (firsts recv (most + (bufferSize - 1))).count (some cr) := by
    rw [List.count_eq_countP]
    refine List.countP_congr fun r _ => ?_
    simp
  have hrest : (firsts recv (most + (bufferSize - 1))).countP
        (fun a => decide ¬ decide (a = some cr) = true) =
      (firsts recv (most + (bufferSize - 1))).countP (· ≠ some cr) := by
    refine List.countP_congr fun r _ => ?_
    simp
  rw [length_firsts, hcount, hrest] at hall
  omega

theorem ReturnsWithin.crBounded {bufferSize calls : Nat} {recv : Nat → Option UInt8}
    (h : ReturnsWithin bufferSize calls recv) : CrBounded bufferSize calls recv := by
  intro n hline
  have hn : n ≤ calls := by
    by_contra hgt
    refine h ((recvLoop_running_iff _ _).mpr (hline.sublist (firsts_sublist recv ?_)))
    omega
  have hcount : (firsts recv n).count (some cr) ≤ (firsts recv n).length := List.count_le_length
  rw [length_firsts] at hcount
  exact hcount.trans hn

/-- **When reading a request is bounded.** For any set of sequences that a peer may send there is
a bound on the reads of `receive_line` if and only if there is one on the carriage returns in the
line. -/
theorem receiveLine_bounded_iff (bufferSize : Nat) (sequences : Set (Nat → Option UInt8)) :
    (∃ bound, ∀ recv ∈ sequences, ReturnsWithin bufferSize bound recv) ↔
      ∃ most, ∀ recv ∈ sequences, CrBounded bufferSize most recv := by
  constructor
  · rintro ⟨bound, h⟩
    exact ⟨bound, fun recv hrecv => (h recv hrecv).crBounded⟩
  · rintro ⟨most, h⟩
    exact ⟨most + (bufferSize - 1), fun recv hrecv => (h recv hrecv).returns⟩

theorem carriage_returns_unbounded :
    ¬ ∃ bound, ∀ recv : Nat → Option UInt8, ReturnsWithin (maxMessageSize + 64) bound recv := by
  rintro ⟨bound, h⟩
  refine h (fun _ => some cr) ((recvLoop_running_iff _ _).mpr ⟨fun r hr => ?_, ?_⟩)
  · obtain ⟨k, -, rfl⟩ := (mem_firsts _).mp hr
    decide
  · have hnone : (firsts (fun _ => some cr) bound).countP (· ≠ some cr) = 0 := by
      rw [List.countP_eq_zero]
      intro r hr
      obtain ⟨k, -, rfl⟩ := (mem_firsts _).mp hr
      simp
    rw [hnone]
    decide

/-! ## sending -/

/-- the number of bytes that a `send` takes -/
def SendResult.count : SendResult → Nat
  | .sent n => n
  | .again => 0
  | .error => 0

/-- a result after which `send_message` goes on, as long as bytes are left -/
def SendResult.goesOn : SendResult → Prop
  | .sent n => n ≠ 0
  | .again => True
  | .error => False

/-- **When `send_message` still runs**: no `send` has failed, and bytes are left. -/
theorem sendLoop_running_iff (rs : List SendResult) (msg : Bytes) :
    (sendLoop rs msg).2 = none ↔
      (∀ r ∈ rs, r.goesOn) ∧ (rs.map SendResult.count).sum < msg.length := by
  induction rs generalizing msg with
  | nil =>
    cases msg with
    | nil => simp [sendLoop]
    | cons b msg => simp [sendLoop]
  | cons r rs ih =>
    rw [List.forall_mem_cons, List.map_cons, List.sum_cons]
    cases msg with
    | nil => simp [sendLoop]
    | cons b msg =>
      cases r with
      | error => exact iff_of_false (fun h => by cases h) fun h => h.1.1
      | again =>
        show (sendLoop rs (b :: msg)).2 = none ↔ (True ∧ _) ∧ 0 + _ < _
        rw [ih, true_and, Nat.zero_add]
      | sent n =>
        unfold sendLoop
        by_cases hn : n = 0
        · rw [if_pos hn]
          exact iff_of_false (fun h => by cases h) fun h => h.1.1 hn
        · rw [if_neg hn]
          show (sendLoop rs ((b :: msg).drop n)).2 = none ↔ (n ≠ 0 ∧ _) ∧ n + _ < _
          rw [ih, List.length_drop]
          constructor
          · rintro ⟨h1, h2⟩
            exact ⟨⟨hn, h1⟩, by omega⟩
          · rintro ⟨⟨-, h1⟩, h2⟩
            exact ⟨h1, by omega⟩

theorem sendLoop_rc (rs : List SendResult) (msg : Bytes) {rc : Int}
    (h : (sendLoop rs msg).2 = some rc) : rc = 0 ∨ rc = -1 := by
  induction rs generalizing msg with
  | nil =>
    cases msg with
    | nil => exact .inl (Option.some.inj h).symm
    | cons b msg => cases h
  | cons r rs ih =>
    cases msg with
    | nil => cases r <;> exact .inl (Option.some.inj h).symm
    | cons b msg =>
      cases r with
      | again => exact ih _ h
      | error => exact .inr (Option.some.inj h).symm
      | sent n =>
        unfold sendLoop at h
        by_cases hn : n = 0
        · rw [if_pos hn] at h
          exact .inr (Option.some.inj h).symm
        · rw [if_neg hn] at h
          exact ih _ h

def taken (rs : Nat → SendResult) (n : Nat) : Nat := ((firsts rs n).map SendResult.count).sum

/-- the peer stops reading: from some result on `send` only says EAGAIN, no `send` before it has
failed, and they have not taken all of the `len` bytes -/
def Stalled (len : Nat) (rs : Nat → SendResult) : Prop :=
  ∃ n, (∀ k, n ≤ k → rs k = .again) ∧ (∀ k < n, (rs k).goesOn) ∧ taken rs n < len

theorem taken_succ (rs : Nat → SendResult) (n : Nat) :
    taken rs (n + 1) = taken rs n + (rs n).count := by
  unfold taken firsts
  rw [List.range_succ, List.map_append, List.map_append, List.sum_append]
  simp

theorem taken_mono (rs : Nat → SendResult) : Monotone (taken rs) := by
  refine monotone_nat_of_le_succ fun n => ?_
  rw [taken_succ]
  exact Nat.le_add_right _ _

theorem taken_again {rs : Nat → SendResult} {n : Nat} (h : ∀ k, n ≤ k → rs k = .again) (m : Nat) :
    taken rs (n + m) = taken rs n := by
  induction m with
  | zero => rfl
  | succ m ih =>
    rw [← Nat.add_assoc, taken_succ, ih, h (n + m) (Nat.le_add_right n m)]
    rfl

theorem eventually_constant {f : Nat → Nat} (hmono : Monotone f) {bound : Nat}
    (hbound : ∀ n, f n < bound) : ∃ n, ∀ k, n ≤ k → f k = f n := by
  induction bound with
  | zero => exact absurd (hbound 0) (Nat.not_lt_zero _)
  | succ bound ih =>
    by_cases hreach : ∃ n, f n = bound
    · obtain ⟨n, hn⟩ := hreach
      refine ⟨n, fun k hk => ?_⟩
      have hup : f n ≤ f k := hmono hk
      have hlow : f k < bound + 1 := hbound k
      omega
    · refine ih fun n => ?_
      have hlow : f n < bound + 1 := hbound n
      have hne : f n ≠ bound := fun e => hreach ⟨n, e⟩
      omega

/-- **A send that never ends is one whose peer stops reading.** -/
theorem stalled_iff (len : Nat) (rs : Nat → SendResult) :
    Stalled len rs ↔ ∀ n, (∀ r ∈ firsts rs n, r.goesOn) ∧ taken rs n < len := by
  constructor
  · rintro ⟨n, hagain, hbefore, hsum⟩ m
    constructor
    · intro r hr
      obtain ⟨k, -, rfl⟩ := (mem_firsts rs).mp hr
      by_cases hk : k < n
      · exact hbefore k hk
      · rw [hagain k (by omega)]
        exact True.intro
    · refine lt_of_le_of_lt ?_ hsum
      rw [← taken_again hagain m]
      exact taken_mono rs (Nat.le_add_left m n)
  · intro h
    obtain ⟨n, hconst⟩ := eventually_constant (taken_mono rs) fun n => (h n).2
    have hgoes : ∀ k, (rs k).goesOn := fun k =>
      (h (k + 1)).1 _ ((mem_firsts rs).mpr ⟨k, Nat.lt_succ_self k, rfl⟩)
    refine ⟨n, fun k hk => ?_, fun k _ => hgoes k, (h n).2⟩
    have hstep := taken_succ rs k
    rw [hconst k hk, hconst (k + 1) (Nat.le_succ_of_le hk)] at hstep
    have hok := hgoes k
    cases hr : rs k with
    | again => rfl
    | error =>
      rw [hr] at hok
      exact hok.elim
    | sent m =>
      rw [hr] at hok hstep
      have hzero : m = 0 := by
        show m = 0
        have hcount : (SendResult.sent m).count = m := rfl
        omega
      exact absurd hzero hok

/-- **When `send_message` returns.** For every message and every endless sequence of results of
`send`, it returns 0 or -1 after finitely many calls, unless the peer stops reading. -/
theorem sendMessage_returns_iff (rs : Nat → SendResult) (type : Nat) (data : Bytes) :
    (∃ n rc, (sendMessage (firsts rs n) type data).2 = some rc ∧ (rc = 0 ∨ rc = -1)) ↔
      ¬ Stalled (formatMessage type data).length rs := by
  rw [stalled_iff]
  constructor
  · rintro ⟨n, rc, hrc, -⟩ hrun
    have hnone := (sendLoop_running_iff (firsts rs n) (formatMessage type data)).mpr (hrun n)
    rw [sendMessage, hnone] at hrc
    cases hrc
  · intro h
    by_contra hnever
    refine h fun n => (sendLoop_running_iff (firsts rs n) (formatMessage type data)).mp ?_
    rcases hrc : (sendLoop (firsts rs n) (formatMessage type data)).2 with - | rc
    · rfl
    · exact absurd ⟨n, rc, hrc, sendLoop_rc _ _ hrc⟩ hnever

/-- A peer that never reads: `send` times out each time. -/
theorem send_times_out_forever :
    ¬ ∃ n rc, (sendMessage (firsts (fun _ => .again) n) msgTestDialogResponse (ascii "Hi")).2 =
      some rc := by
  rintro ⟨n, rc, hrc⟩
  have hrun : (sendLoop (firsts (fun _ => .again) n)
      (formatMessage msgTestDialogResponse (ascii "Hi"))).2 = none := by
    rw [sendLoop_running_iff]
    refine ⟨fun r hr => ?_, ?_⟩
    · obtain ⟨k, -, rfl⟩ := (mem_firsts _).mp hr
      exact True.intro
    · have hzero : ((firsts (fun _ => SendResult.again) n).map SendResult.count).sum = 0 := by
        rw [List.sum_eq_zero]
        intro c hc
        obtain ⟨r, hr, rfl⟩ := List.mem_map.mp hc
        obtain ⟨k, -, rfl⟩ := (mem_firsts _).mp hr
        rfl
      rw [hzero]
      decide
  rw [sendMessage, hrun] at hrc
  cases hrc

end Wire
