import RobotDialog.Wire.Dialog
import RobotDialog.Lib.Runs
import Mathlib.Logic.Function.Basic

/-!
# Requests parsed at the same time

Any number of executions of `parse_client_dialog_message`, one for each connection, interleaved call
by call of `strtok`.  `strtok` keeps its resume cursor in one variable of the process, so a call with
NULL goes on in whatever buffer was cut last.

* `RaceState`, `raceStep`   the process: the cursor, the copies, the executions;
* `OwnCursor`               the guard: a connection that calls `strtok(NULL, "|")` finds the cursor
                            in its own copy;
* `RaceInv`                 what is left to do for a connection does not depend on the others;
* `parse_isolated`          under the guard every connection gets what it gets alone;
* `parse_mixed`             without it, one user is handed another user's words.
-/

namespace Wire
open CString Lts

/-- a pointer: the connection whose copy it points into, and the offset -/
abbrev Loc := Nat × Nat

/-- the program points of `parse_client_dialog_message` -/
inductive ParsePc where
  | idle
  | strtokFirst                               -- strtok(data_copy, "|")
  | loop (token : Option Loc) (parts : List Loc)   -- while (token != NULL && part_count < 3)
  | returned (result : Option ClientMessage)
  deriving DecidableEq, Repr

/-- the process: `strtok`'s static variable, the copies made by `strdup` and not freed yet, and the
executions -/
structure RaceState where
  cursor : Option Loc
  heap : Nat → Option Bytes
  conns : Nat → ParsePc

def raceStart : RaceState := ⟨none, fun _ => none, fun _ => .idle⟩

namespace RaceState

/-- the string at a pointer, `none` if the copy has been freed -/
def read (s : RaceState) (p : Loc) : Option Bytes := (s.heap p.1).map fun b => cstrAt b p.2

/-- a call of `strtok` by connection `i` that starts at `p`; the token goes to `k` -/
def callStrtok (s : RaceState) (i : Nat) (p : Loc) (k : Option Loc → ParsePc) :
    Option RaceState :=
  match s.heap p.1 with
  | none => none                              -- freed copy: undefined
  | some b =>
    let (b', cursor', token) := strtok bar b p.2
    some
      { cursor := some (p.1, cursor')
        heap := Function.update s.heap p.1 (some b')
        conns := Function.update s.conns i (k (token.map fun o => (p.1, o))) }

def finish (s : RaceState) (i : Nat) (result : Option ClientMessage) : RaceState :=
  { s with
    heap := Function.update s.heap i none
    conns := Function.update s.conns i (.returned result) }

/-- the three `safe_strncpy` calls, `none` if one of them reads a freed copy -/
def copyOut (s : RaceState) (p l c : Loc) : Option ClientMessage :=
  match s.read p, s.read l, s.read c with
  | some personality, some language, some conversation =>
    some
      { personality := cut maxPersonalitySize personality
        language := cut maxLanguageSize language
        conversation := cut maxConversationSize conversation
        isValid := true }
  | _, _, _ => none

/-- the part of the function behind its loop -/
def leaveLoop (s : RaceState) (i : Nat) : List Loc → Option RaceState
  | [p, l, c] => (s.copyOut p l c).map fun m => s.finish i (some m)
  | _ => some (s.finish i none)

end RaceState

/-- connection `i` runs to behind its next `strtok` call, or to its end -/
def raceStep (data : Nat → Bytes) (strdupOk : Nat → Bool) (i : Nat) (s : RaceState) :
    Option RaceState :=
  match s.conns i with
  | .idle =>
    if cstr (data i) = [] then
      some { s with conns := Function.update s.conns i (.returned none) }
    else if strdupOk i then
      some
        { s with
          heap := Function.update s.heap i (some (cstr (data i)))
          conns := Function.update s.conns i .strtokFirst }
    else some { s with conns := Function.update s.conns i (.returned none) }
  | .strtokFirst => s.callStrtok i (i, 0) fun token => .loop token []
  | .loop (some token) parts =>
    if parts.length < 3 then
      match s.cursor with
      | none => none                          -- strtok(NULL) before any other call
      | some p => s.callStrtok i p fun token' => .loop token' (parts ++ [token])
    else s.leaveLoop i parts
  | .loop none parts => s.leaveLoop i parts
  | .returned _ => none

/-- the guard: `strtok(NULL, "|")` finds the cursor in the caller's own copy -/
def OwnCursor (s : RaceState) (i : Nat) : Prop :=
  ∀ token parts, s.conns i = .loop (some token) parts → parts.length < 3 →
    ∃ o, s.cursor = some (i, o)

/-! ## the invariant -/

variable {data : Nat → Bytes} {strdupOk : Nat → Bool} {s s' : RaceState} {i j : Nat}

/-- what the execution of connection `i` alone returns -/
abbrev alone (data : Nat → Bytes) (strdupOk : Nat → Bool) (i : Nat) : Option ClientMessage :=
  parseClientDialogMessage (strdupOk i) (data i)

/-- Connection `i` is inside its loop with the tokens `offs` stored: its copy is `buf`, it has to
go on at `cur`, and what is left to do gives the result of the execution alone. -/
structure LoopInv (data : Nat → Bytes) (strdupOk : Nat → Bool) (s : RaceState) (i : Nat)
    (token : Option Loc) (parts : List Loc) (buf : Bytes) (cur : Nat) (tok : Option Nat)
    (offs : List Nat) : Prop where
  copy : s.heap i = some buf
  token : token = tok.map fun o => (i, o)
  parts : parts = offs.map fun o => (i, o)
  cursor : ∀ o, s.cursor = some (i, o) → o = cur
  room : offs.length ≤ 3
  rest : copyParts (tokenLoop (3 - offs.length) buf cur tok offs).1
    (tokenLoop (3 - offs.length) buf cur tok offs).2 = alone data strdupOk i

/-- what holds of connection `i` at a program point -/
def PcInv (data : Nat → Bytes) (strdupOk : Nat → Bool) (s : RaceState) (i : Nat) : ParsePc → Prop
  | .idle => True
  | .strtokFirst => s.heap i = some (cstr (data i)) ∧ cstr (data i) ≠ [] ∧ strdupOk i = true
  | .loop token parts => ∃ buf cur tok offs, LoopInv data strdupOk s i token parts buf cur tok offs
  | .returned result => result = alone data strdupOk i

def RaceInv (data : Nat → Bytes) (strdupOk : Nat → Bool) (s : RaceState) : Prop :=
  ∀ i, PcInv data strdupOk s i (s.conns i)

theorem RaceInv.start : RaceInv data strdupOk raceStart := fun _ => trivial

/-- what the step of connection `i` leaves alone -/
structure OwnStep (s : RaceState) (i : Nat) (s' : RaceState) : Prop where
  conns : ∀ j, j ≠ i → s'.conns j = s.conns j
  heap : ∀ j, j ≠ i → s'.heap j = s.heap j
  cursor : s'.cursor = s.cursor ∨ ∃ o, s'.cursor = some (i, o)

/-- **The other connections** are not disturbed by a step on the mover's own copy. -/
theorem PcInv.other (hji : j ≠ i) (ho : OwnStep s i s') {pc : ParsePc}
    (h : PcInv data strdupOk s j pc) : PcInv data strdupOk s' j pc := by
  have hheap := ho.heap j hji
  cases pc with
  | idle => trivial
  | strtokFirst => exact ⟨hheap.trans h.1, h.2⟩
  | loop token parts =>
    obtain ⟨buf, cur, tok, offs, hl⟩ := h
    refine ⟨buf, cur, tok, offs, hheap.trans hl.copy, hl.token, hl.parts, fun o hc => ?_, hl.room,
      hl.rest⟩
    rcases ho.cursor with he | ⟨o', he⟩
    · exact hl.cursor o (he ▸ hc)
    · rw [he, Option.some.injEq, Prod.mk.injEq] at hc
      exact absurd hc.1.symm hji
  | returned result => exact h

theorem ownStep_update (s : RaceState) (i : Nat) (x : Option Bytes) (pc : ParsePc)
    {c : Option Loc} (hc : c = s.cursor ∨ ∃ o, c = some (i, o)) :
    OwnStep s i ⟨c, Function.update s.heap i x, Function.update s.conns i pc⟩ :=
  ⟨fun _ hj => Function.update_of_ne hj .., fun _ hj => Function.update_of_ne hj .., hc⟩

theorem callStrtok_own {k : Option Loc → ParsePc} {buf : Bytes} {o : Nat}
    (hcopy : s.heap i = some buf) (h : s.callStrtok i (i, o) k = some s') :
    s' = ⟨some (i, (strtok bar buf o).2.1), Function.update s.heap i (some (strtok bar buf o).1),
      Function.update s.conns i (k ((strtok bar buf o).2.2.map fun p => (i, p)))⟩ := by
  unfold RaceState.callStrtok at h
  rw [show s.heap (i, o).1 = some buf from hcopy] at h
  exact (Option.some.inj h).symm

/-- The strings at the stored tokens, as the code copies them out. -/
theorem copyOut_own {buf : Bytes} {p l c : Nat} (hcopy : s.heap i = some buf) :
    s.copyOut (i, p) (i, l) (i, c) = copyParts buf [p, l, c] := by
  simp [RaceState.copyOut, RaceState.read, hcopy, copyParts]

theorem leaveLoop_own {buf : Bytes} {offs : List Nat} (hcopy : s.heap i = some buf)
    (h : s.leaveLoop i (offs.map fun o => (i, o)) = some s') :
    s' = s.finish i (copyParts buf offs) := by
  match offs with
  | [] => exact (Option.some.inj h).symm
  | [_] => exact (Option.some.inj h).symm
  | [_, _] => exact (Option.some.inj h).symm
  | [p, l, c] =>
    simp only [List.map_cons, List.map_nil, RaceState.leaveLoop, copyOut_own hcopy] at h
    exact (Option.some.inj h).symm
  | _ :: _ :: _ :: _ :: _ => exact (Option.some.inj h).symm

theorem tokenLoop_done (room : Nat) (buf : Bytes) (cur : Nat) (tok : Option Nat) (offs : List Nat)
    (h : room = 0 ∨ tok = none) : tokenLoop room buf cur tok offs = (buf, offs) := by
  rcases h with rfl | rfl
  · rfl
  · cases room <;> rfl

/-- The first statements, up to the first call of `strtok`. -/
theorem begin_own (hpc : s.conns i = .idle) (hst : raceStep data strdupOk i s = some s') :
    PcInv data strdupOk s' i (s'.conns i) ∧ OwnStep s i s' := by
  have hreturn : alone data strdupOk i = none →
      s' = { s with conns := Function.update s.conns i (.returned none) } →
      PcInv data strdupOk s' i (s'.conns i) ∧ OwnStep s i s' := by
    rintro hnone rfl
    refine ⟨?_, fun j hj => Function.update_of_ne hj .., fun _ _ => rfl, .inl rfl⟩
    show PcInv data strdupOk _ i (Function.update s.conns i (.returned none) i)
    rw [Function.update_self]
    exact hnone.symm
  unfold raceStep at hst
  rw [hpc] at hst
  simp only at hst
  split at hst
  · rename_i hempty
    refine hreturn ?_ (Option.some.inj hst).symm
    unfold alone parseClientDialogMessage
    rw [if_pos hempty]
  · rename_i hdata
    split at hst
    · rename_i hok
      have hs := (Option.some.inj hst).symm
      subst hs
      refine ⟨?_, ownStep_update s i _ _ (.inl rfl)⟩
      show PcInv data strdupOk _ i (Function.update s.conns i .strtokFirst i)
      rw [Function.update_self]
      exact ⟨Function.update_self .., hdata, hok⟩
    · rename_i hok
      refine hreturn ?_ (Option.some.inj hst).symm
      unfold alone parseClientDialogMessage
      rw [if_neg hdata, if_neg hok]

/-- The first call of `strtok`. -/
theorem first_own (hpc : s.conns i = .strtokFirst) (h : PcInv data strdupOk s i .strtokFirst)
    (hst : raceStep data strdupOk i s = some s') :
    PcInv data strdupOk s' i (s'.conns i) ∧ OwnStep s i s' := by
  obtain ⟨hcopy, hdata, hok⟩ := h
  unfold raceStep at hst
  rw [hpc] at hst
  have hs := callStrtok_own hcopy hst
  subst hs
  refine ⟨?_, ownStep_update s i _ _ (.inr ⟨_, rfl⟩)⟩
  show PcInv data strdupOk _ i (Function.update s.conns i _ i)
  rw [Function.update_self]
  refine ⟨_, (strtok bar (cstr (data i)) 0).2.1, _, [], Function.update_self .., rfl, rfl,
    fun o ho => ?_, by simp, ?_⟩
  · rw [Option.some.injEq, Prod.mk.injEq] at ho
    exact ho.2.symm
  · show _ = parseClientDialogMessage (strdupOk i) (data i)
    unfold parseClientDialogMessage
    rw [if_neg hdata, if_pos hok]
    rfl

/-- **A round of the loop**, or its end. -/
theorem loop_own {token : Option Loc} {parts : List Loc} (hpc : s.conns i = .loop token parts)
    (h : PcInv data strdupOk s i (.loop token parts)) (hG : OwnCursor s i)
    (hst : raceStep data strdupOk i s = some s') :
    PcInv data strdupOk s' i (s'.conns i) ∧ OwnStep s i s' := by
  obtain ⟨buf, cur, tok, offs, hl⟩ := h
  have hparts := hl.parts
  have htoken := hl.token
  subst hparts htoken
  have hend : (3 - offs.length = 0 ∨ tok = none) →
      s.leaveLoop i (offs.map fun o => (i, o)) = some s' →
      PcInv data strdupOk s' i (s'.conns i) ∧ OwnStep s i s' := by
    intro hdone hleave
    have hs := leaveLoop_own hl.copy hleave
    subst hs
    refine ⟨?_, ownStep_update s i _ _ (.inl rfl)⟩
    show PcInv data strdupOk _ i (Function.update s.conns i _ i)
    rw [Function.update_self]
    have hrest := hl.rest
    rw [tokenLoop_done _ _ _ _ _ hdone] at hrest
    exact hrest
  unfold raceStep at hst
  rw [hpc] at hst
  cases tok with
  | none => exact hend (.inr rfl) hst
  | some t =>
    simp only [Option.map_some, List.length_map] at hst
    split at hst
    · rename_i hroom
      obtain ⟨o, ho⟩ := hG (i, t) _ hpc (by rw [List.length_map]; exact hroom)
      rw [hl.cursor o ho] at ho
      rw [ho] at hst
      have hs := callStrtok_own hl.copy hst
      subst hs
      refine ⟨?_, ownStep_update s i _ _ (.inr ⟨_, rfl⟩)⟩
      show PcInv data strdupOk _ i (Function.update s.conns i _ i)
      rw [Function.update_self]
      refine ⟨_, (strtok bar buf cur).2.1, _, offs ++ [t], Function.update_self .., rfl, ?_,
        fun o' ho' => ?_, ?_, ?_⟩
      · rw [List.map_append]
        rfl
      · rw [Option.some.injEq, Prod.mk.injEq] at ho'
        exact ho'.2.symm
      · rw [List.length_append, List.length_singleton]
        omega
      · have hrest := hl.rest
        obtain ⟨room, hr⟩ : ∃ room, 3 - offs.length = room + 1 := ⟨2 - offs.length, by omega⟩
        have hr' : 3 - (offs ++ [t]).length = room := by
          rw [List.length_append, List.length_singleton]
          omega
        rw [hr] at hrest
        rw [hr']
        exact hrest
    · rename_i hroom
      exact hend (.inl (by omega)) hst

theorem RaceInv.step (hG : OwnCursor s i) (h : RaceInv data strdupOk s)
    (hst : raceStep data strdupOk i s = some s') : RaceInv data strdupOk s' := by
  have hi := h i
  have hown : PcInv data strdupOk s' i (s'.conns i) ∧ OwnStep s i s' := by
    cases hpc : s.conns i with
    | idle => exact begin_own hpc hst
    | strtokFirst => exact first_own hpc (hpc ▸ hi) hst
    | loop token parts => exact loop_own hpc (hpc ▸ hi) hG hst
    | returned result =>
      unfold raceStep at hst
      rw [hpc] at hst
      cases hst
  intro j
  by_cases e : j = i
  · subst e; exact hown.1
  · rw [hown.2.conns j e]
    exact (h j).other e hown.2

/-- **Isolation.**  In every run in which each `strtok(NULL, "|")` finds the cursor in the caller's
own copy, every connection that has returned has the result of its execution alone: it depends on
its own bytes only. -/
theorem parse_isolated (data : Nat → Bytes) (strdupOk : Nat → Bool) (s : RaceState)
    (h : Reach (raceStep data strdupOk) OwnCursor raceStart s) (i : Nat)
    (result : Option ClientMessage) (hr : s.conns i = .returned result) :
    result = parseClientDialogMessage (strdupOk i) (data i) := by
  have hinv : RaceInv data strdupOk s :=
    h.inv (RaceInv data strdupOk) RaceInv.start fun _ _ _ _ hI hG hst => hI.step hG hst
  have hi := hinv i
  rw [hr] at hi
  exact hi

/-! ## two connections -/

def twoPayloads (i : Nat) : Bytes := if i = 0 then ascii "a|b|c" else ascii "x|y|z"

def ownCursor (s : RaceState) (i : Nat) : Bool :=
  match s.conns i with
  | .loop (some _) parts => decide (3 ≤ parts.length) || s.cursor.any fun p => p.1 == i
  | _ => true

theorem ownCursor_sound (s : RaceState) (i : Nat) (h : ownCursor s i = true) : OwnCursor s i := by
  intro token parts hpc hroom
  unfold ownCursor at h
  rw [hpc] at h
  have hno : decide (3 ≤ parts.length) = false := by
    rw [decide_eq_false_iff_not]
    omega
  simp only [hno, Bool.false_or, Option.any_eq_true] at h
  obtain ⟨p, hp, he⟩ := h
  have he' : p.1 = i := by simpa using he
  exact ⟨p.2, by rw [hp, ← he']⟩

/-- Connection 1 starts while connection 0 is inside the function, but between two of its own
executions of `strtok` nobody else calls it. -/
theorem parse_isolated_turns :
    ∃ s, Reach (raceStep twoPayloads fun _ => true) OwnCursor raceStart s ∧
      ∃ result, s.conns 1 = .returned result ∧
        result = parseClientDialogMessage true (twoPayloads 1) := by
  have hrun : (exec (guarded ownCursor (raceStep twoPayloads fun _ => true)) raceStart
      [0, 1, 0, 0, 0, 0, 1, 1, 0, 1, 1, 1]).map (fun s => s.conns 1) =
      some (.returned (some ⟨ascii "x", ascii "y", ascii "z", true⟩)) := by decide
  obtain ⟨s, hs, hc⟩ := Option.map_eq_some_iff.mp hrun
  have hreach : Reach (raceStep twoPayloads fun _ => true) OwnCursor raceStart s :=
    Reach.of_guarded (fun _ => True) ownCursor (fun s i _ => ownCursor_sound s i)
      (fun _ _ _ _ _ _ => trivial) trivial _ hs
  exact ⟨s, hreach, _, hc, parse_isolated twoPayloads (fun _ => true) s hreach 1 _ hc⟩

/-- **A mixed request.**  Connection 1 is cut between two calls of connection 0, which then returns
the language and the conversation of connection 1. -/
theorem parse_mixed :
    ∃ s, exec (raceStep twoPayloads fun _ => true) raceStart [0, 0, 1, 1, 0, 0, 0, 0] = some s ∧
      s.conns 0 = .returned (some ⟨ascii "a", ascii "y", ascii "z", true⟩) ∧
      parseClientDialogMessage true (twoPayloads 0) =
        some ⟨ascii "a", ascii "b", ascii "c", true⟩ := by
  have hrun : (exec (raceStep twoPayloads fun _ => true) raceStart [0, 0, 1, 1, 0, 0, 0, 0]).map
      (fun s => s.conns 0) = some (.returned (some ⟨ascii "a", ascii "y", ascii "z", true⟩)) := by
    decide
  obtain ⟨s, hs, hc⟩ := Option.map_eq_some_iff.mp hrun
  exact ⟨s, hs, hc, by decide⟩

end Wire
