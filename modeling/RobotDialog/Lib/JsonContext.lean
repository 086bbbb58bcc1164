import RobotDialog.Lib.JsonReader

/-!
# A piece of a JSON text

What the reader does with the inside of an array or object does not depend on what stands around it.

* `Context`         what is open around the piece, and what the array or object had before it;
* `step_state`      one byte in a context;
* `run_context`     a piece that leaves the array or object open;
* `run_closed`      a piece that closes it;
* `finish_context`  the value of the whole text.
-/

namespace Json
open CString

/-- the surroundings of an array or object that is read: the items or members in front of the piece,
and what is open around it -/
structure Context where
  items : List Value
  members : List Member
  base : List Frame

theorem deliver_ne_nil (v : Value) {fs : List Frame} (h : fs ≠ []) :
    (deliver v fs).stack ≠ [] := by
  obtain ⟨f, fs, rfl⟩ := List.exists_cons_of_ne_nil h
  cases f <;> simp [deliver]

namespace Context

def frame (K : Context) : Frame → Frame
  | .array items => .array (K.items ++ items)
  | .object members => .object (K.members ++ members)
  | .member members name => .member (K.members ++ members) name

/-- the whole stack, of which `fs` belongs to the piece -/
def stack (K : Context) : List Frame → List Frame
  | [] => K.base
  | [f] => K.frame f :: K.base
  | f :: g :: fs => f :: K.stack (g :: fs)

def value (K : Context) : Value → Value
  | .array items => .array (K.items ++ items)
  | .object members => .object (K.members ++ members)
  | v => v

def state (K : Context) : State → State
  | ⟨.done v, []⟩ => deliver (K.value v) K.base
  | ⟨mode, fs⟩ => ⟨mode, K.stack fs⟩

variable (K : Context)

theorem state_of_ne {mode : Mode} {fs : List Frame} (h : fs ≠ []) :
    K.state ⟨mode, fs⟩ = ⟨mode, K.stack fs⟩ := by
  unfold state
  split
  · rename_i heq
    rw [State.mk.injEq] at heq
    exact absurd heq.2 h
  · rename_i heq
    rw [State.mk.injEq] at heq
    rw [← heq.1, ← heq.2]

theorem stack_push (f : Frame) {fs : List Frame} (h : fs ≠ []) :
    K.stack (f :: fs) = f :: K.stack fs := by
  obtain ⟨g, fs, rfl⟩ := List.exists_cons_of_ne_nil h
  rfl

/-- A value goes into the innermost array or object, which belongs to the piece. -/
theorem deliver_stack (v : Value) {fs : List Frame} (h : fs ≠ []) :
    deliver v (K.stack fs) = K.state (deliver v fs) := by
  rcases fs with - | ⟨f, - | ⟨g, fs⟩⟩
  · exact absurd rfl h
  · cases f <;> simp [deliver, stack, frame, state]
  · cases f <;> rfl

theorem closeArray_stack {fs : List Frame} (h : fs ≠ []) :
    closeArray (K.stack fs) = (closeArray fs).map K.state := by
  rcases fs with - | ⟨f, - | ⟨g, fs⟩⟩
  · exact absurd rfl h
  · cases f <;> rfl
  · cases f with
    | array items => exact congrArg some (K.deliver_stack (.array items) (List.cons_ne_nil g fs))
    | object members => rfl
    | member members name => rfl

theorem closeObject_stack {fs : List Frame} (h : fs ≠ []) :
    closeObject (K.stack fs) = (closeObject fs).map K.state := by
  rcases fs with - | ⟨f, - | ⟨g, fs⟩⟩
  · exact absurd rfl h
  · cases f <;> rfl
  · cases f with
    | array items => rfl
    | object members =>
      exact congrArg some (K.deliver_stack (.object members) (List.cons_ne_nil g fs))
    | member members name => rfl

theorem endString_stack (s : List Sym) {fs : List Frame} (h : fs ≠ []) :
    endString s (K.stack fs) = K.state (endString s fs) := by
  rcases fs with - | ⟨f, - | ⟨g, fs⟩⟩
  · exact absurd rfl h
  · cases f <;> simp [endString, deliver, stack, frame, state]
  · cases f <;> rfl

theorem startValue_stack (c : UInt8) {fs : List Frame} (h : fs ≠ []) :
    startValue c (K.stack fs) = (startValue c fs).map K.state := by
  unfold startValue
  simp only [apply_ite (Option.map K.state), Option.map_some, Option.map_none,
    K.state_of_ne h, K.state_of_ne (List.cons_ne_nil _ _), K.stack_push _ h]

theorem stack_head (f : Frame) (fs : List Frame) : ∃ fs',
    K.stack (f :: fs) = f :: fs' ∨ K.stack (f :: fs) = K.frame f :: fs' := by
  cases fs with
  | nil => exact ⟨_, .inr rfl⟩
  | cons g fs => exact ⟨_, .inl rfl⟩

theorem follow_state {s : State} (h : s.stack ≠ []) (c : UInt8) :
    follow (K.state s) c = (follow s c).map K.state := by
  obtain ⟨mode, fs⟩ := s
  rw [K.state_of_ne h]
  by_cases hws : isWs c = true
  · unfold follow
    rw [if_pos hws, if_pos hws, Option.map_some, K.state_of_ne h]
  rcases fs with - | ⟨f, fs⟩
  · exact absurd rfl h
  cases mode with
  | after =>
    cases f with
    | array items =>
      have hout : ∀ {items' fs'}, K.stack (.array items :: fs) = .array items' :: fs' →
          follow ⟨.after, K.stack (.array items :: fs)⟩ c =
            if c = comma then some ⟨.value, K.stack (.array items :: fs)⟩
            else if c = 93 then closeArray (K.stack (.array items :: fs)) else none := by
        intro items' fs' he
        unfold follow
        rw [if_neg hws, he]
      have hin : follow ⟨.after, .array items :: fs⟩ c =
          if c = comma then some ⟨.value, .array items :: fs⟩
          else if c = 93 then closeArray (.array items :: fs) else none := by
        unfold follow
        rw [if_neg hws]
      obtain ⟨fs', he | he⟩ := K.stack_head (.array items) fs
      all_goals
        rw [hout he, hin, K.closeArray_stack h, apply_ite (Option.map K.state),
          apply_ite (Option.map K.state), Option.map_some, Option.map_none, K.state_of_ne h]
    | object members =>
      have hout : ∀ {members' fs'}, K.stack (.object members :: fs) = .object members' :: fs' →
          follow ⟨.after, K.stack (.object members :: fs)⟩ c =
            if c = comma then some ⟨.name, K.stack (.object members :: fs)⟩
            else if c = 125 then closeObject (K.stack (.object members :: fs)) else none := by
        intro members' fs' he
        unfold follow
        rw [if_neg hws, he]
      have hin : follow ⟨.after, .object members :: fs⟩ c =
          if c = comma then some ⟨.name, .object members :: fs⟩
          else if c = 125 then closeObject (.object members :: fs) else none := by
        unfold follow
        rw [if_neg hws]
      obtain ⟨fs', he | he⟩ := K.stack_head (.object members) fs
      all_goals
        rw [hout he, hin, K.closeObject_stack h, apply_ite (Option.map K.state),
          apply_ite (Option.map K.state), Option.map_some, Option.map_none, K.state_of_ne h]
    | member members name =>
      obtain ⟨fs', he | he⟩ := K.stack_head (.member members name) fs
      all_goals
        unfold follow
        rw [if_neg hws, if_neg hws, he]
        rfl
  | _ =>
    unfold follow
    rw [if_neg hws, if_neg hws]
    rfl

/-- **One byte in a context.** -/
theorem step_state {s : State} (h : s.stack ≠ []) (c : UInt8) :
    step (K.state s) c = (step s c).map K.state := by
  obtain ⟨mode, fs⟩ := s
  have hfs : fs ≠ [] := h
  clear h
  cases mode with
  | done v =>
    have hstep : step (K.state ⟨.done v, fs⟩) c = follow (K.state ⟨.done v, fs⟩) c := by
      rw [K.state_of_ne hfs]
      rfl
    rw [hstep]
    exact K.follow_state hfs c
  | after =>
    have hstep : step (K.state ⟨.after, fs⟩) c = follow (K.state ⟨.after, fs⟩) c := by
      rw [K.state_of_ne hfs]
      rfl
    rw [hstep]
    exact K.follow_state hfs c
  | literal rest v =>
    rw [K.state_of_ne hfs]
    cases rest with
    | nil => rfl
    | cons b rest =>
      have hgo : ∀ gs : List Frame, step ⟨.literal (b :: rest) v, gs⟩ c =
          if c = b then
            if rest = [] then some (deliver v gs) else some ⟨.literal rest v, gs⟩
          else none := fun _ => rfl
      rw [hgo, hgo]
      simp only [apply_ite (Option.map K.state), Option.map_some, Option.map_none,
        K.deliver_stack v hfs, K.state_of_ne hfs]
  | number phase text =>
    rw [K.state_of_ne hfs]
    rcases hnext : phase.next c with - | phase'
    · have hgo : ∀ gs : List Frame, step ⟨.number phase text, gs⟩ c =
          if phase.final then follow (deliver (.number text) gs) c else none := by
        intro gs
        simp only [step, hnext]
      rw [hgo, hgo]
      simp only [apply_ite (Option.map K.state), Option.map_none, K.deliver_stack _ hfs,
        K.follow_state (deliver_ne_nil _ hfs)]
    · have hgo : ∀ gs : List Frame, step ⟨.number phase text, gs⟩ c =
          some ⟨.number phase' (text ++ [c]), gs⟩ := by
        intro gs
        simp only [step, hnext]
      rw [hgo, hgo, Option.map_some, K.state_of_ne hfs]
  | escape t =>
    have hgo : ∀ gs : List Frame, step ⟨.escape t, gs⟩ c =
        if c = 117 then some ⟨.hex t 3 0, gs⟩
        else (unescape c).map fun b => ⟨.string (t ++ [.byte b]), gs⟩ := fun _ => rfl
    rw [K.state_of_ne hfs, hgo, hgo]
    rcases unescape c with - | b <;>
      simp only [apply_ite (Option.map K.state), Option.map_some, Option.map_none,
        K.state_of_ne hfs]
  | hex t more n =>
    rw [K.state_of_ne hfs]
    cases more with
    | zero =>
      have hgo : ∀ gs : List Frame, step ⟨.hex t 0 n, gs⟩ c =
          (hexValue c).map fun d => ⟨.string (t ++ [.unit (16 * n + d)]), gs⟩ := fun _ => rfl
      rw [hgo, hgo]
      rcases hexValue c with - | d
      · rfl
      · simp only [Option.map_some, K.state_of_ne hfs]
    | succ more =>
      have hgo : ∀ gs : List Frame, step ⟨.hex t (more + 1) n, gs⟩ c =
          (hexValue c).map fun d => ⟨.hex t more (16 * n + d), gs⟩ := fun _ => rfl
      rw [hgo, hgo]
      rcases hexValue c with - | d
      · rfl
      · simp only [Option.map_some, K.state_of_ne hfs]
  | _ =>
    rw [K.state_of_ne hfs]
    simp only [step, apply_ite (Option.map K.state), Option.map_some, Option.map_none,
      K.state_of_ne hfs, K.startValue_stack c hfs, K.closeArray_stack hfs, K.closeObject_stack hfs,
      K.endString_stack _ hfs]

end Context

/-! ## what a byte does to the stack -/

def Frame.isArray : Frame → Bool
  | .array _ => true
  | _ => false

/-- whether the outermost frame is an array -/
def bottom (fs : List Frame) : Option Bool := fs.getLast?.map Frame.isArray

theorem bottom_push (f : Frame) {fs : List Frame} (h : fs ≠ []) : bottom (f :: fs) = bottom fs := by
  obtain ⟨g, fs, rfl⟩ := List.exists_cons_of_ne_nil h
  unfold bottom
  rw [List.getLast?_cons_cons]

theorem deliver_bottom (v : Value) {fs : List Frame} (h : fs ≠ []) :
    bottom (deliver v fs).stack = bottom fs := by
  rcases fs with - | ⟨f, - | ⟨g, fs⟩⟩
  · exact absurd rfl h
  · cases f <;> rfl
  · cases f <;> simp [deliver, bottom]

/-- How a step leaves the stack: the outermost frame stays, or this byte closes it. -/
def Closes (fs : List Frame) (c : UInt8) (s : State) : Prop :=
  (s.stack ≠ [] ∧ bottom s.stack = bottom fs) ∨
  (c = 93 ∧ bottom fs = some true ∧ ∃ items, s = ⟨.done (.array items), []⟩) ∨
  (c = 125 ∧ bottom fs = some false ∧ ∃ members, s = ⟨.done (.object members), []⟩)

theorem Closes.stays {fs : List Frame} {c : UInt8} {mode : Mode} (h : fs ≠ []) :
    Closes fs c ⟨mode, fs⟩ := .inl ⟨h, rfl⟩

theorem Closes.deliver {v : Value} {fs : List Frame} {c : UInt8} (h : fs ≠ []) :
    Closes fs c (deliver v fs) := .inl ⟨deliver_ne_nil v h, deliver_bottom v h⟩

theorem closeArray_closes {fs : List Frame} {s : State} (h : closeArray fs = some s) :
    Closes fs 93 s := by
  rcases fs with - | ⟨f, - | ⟨g, fs⟩⟩
  · cases h
  · cases f with
    | array items => exact .inr (.inl ⟨rfl, rfl, items, (Option.some.inj h).symm⟩)
    | object members => cases h
    | member members name => cases h
  · cases f with
    | array items =>
      obtain rfl := Option.some.inj h
      have hg : g :: fs ≠ [] := List.cons_ne_nil _ _
      exact .inl ⟨deliver_ne_nil _ hg, by rw [deliver_bottom _ hg, bottom_push _ hg]⟩
    | object members => cases h
    | member members name => cases h

theorem closeObject_closes {fs : List Frame} {s : State} (h : closeObject fs = some s) :
    Closes fs 125 s := by
  rcases fs with - | ⟨f, - | ⟨g, fs⟩⟩
  · cases h
  · cases f with
    | array items => cases h
    | object members => exact .inr (.inr ⟨rfl, rfl, members, (Option.some.inj h).symm⟩)
    | member members name => cases h
  · cases f with
    | array items => cases h
    | object members =>
      obtain rfl := Option.some.inj h
      have hg : g :: fs ≠ [] := List.cons_ne_nil _ _
      exact .inl ⟨deliver_ne_nil _ hg, by rw [deliver_bottom _ hg, bottom_push _ hg]⟩
    | member members name => cases h

theorem endString_closes (t : List Sym) {fs : List Frame} (c : UInt8) (h : fs ≠ []) :
    Closes fs c (endString t fs) := by
  rcases fs with - | ⟨f, fs⟩
  · exact absurd rfl h
  · cases f with
    | array items => exact Closes.deliver h
    | object members =>
      refine .inl ⟨List.cons_ne_nil _ _, ?_⟩
      cases fs with
      | nil => rfl
      | cons g fs =>
        show bottom (.member members t :: g :: fs) = _
        rw [bottom_push _ (List.cons_ne_nil g fs), bottom_push _ (List.cons_ne_nil g fs)]
    | member members name => exact Closes.deliver h

theorem startValue_push {c : UInt8} {fs : List Frame} {s : State} (h : startValue c fs = some s) :
    s.stack = fs ∨ ∃ f, s.stack = f :: fs := by
  unfold startValue at h
  repeat' split at h
  all_goals first
    | (rw [← Option.some.inj h]; simp)
    | cases h

theorem startValue_closes {c : UInt8} {fs : List Frame} {s : State} (h : startValue c fs = some s)
    (hfs : fs ≠ []) : Closes fs c s := by
  rcases startValue_push h with he | ⟨f, he⟩
  · exact .inl ⟨by rw [he]; exact hfs, by rw [he]⟩
  · exact .inl ⟨by rw [he]; exact List.cons_ne_nil _ _, by rw [he]; exact bottom_push f hfs⟩

theorem follow_closes {s s' : State} {c : UInt8} (h : follow s c = some s') (hs : s.stack ≠ []) :
    Closes s.stack c s' := by
  unfold follow at h
  split at h
  · obtain rfl := Option.some.inj h
    exact Closes.stays hs
  · split at h
    · split at h
      · obtain rfl := Option.some.inj h
        exact Closes.stays hs
      · split at h
        · rename_i hc
          subst hc
          exact closeArray_closes h
        · cases h
    · split at h
      · obtain rfl := Option.some.inj h
        exact Closes.stays hs
      · split at h
        · rename_i hc
          subst hc
          exact closeObject_closes h
        · cases h
    · cases h

/-- **What one byte does to the stack.** -/
theorem step_closes {s s' : State} {c : UInt8} (h : step s c = some s') (hs : s.stack ≠ []) :
    Closes s.stack c s' := by
  obtain ⟨mode, fs⟩ := s
  have hfs : fs ≠ [] := hs
  clear hs
  cases mode with
  | value =>
    simp only [step] at h
    split at h
    · rw [← Option.some.inj h]
      exact Closes.stays hfs
    · exact startValue_closes h hfs
  | first =>
    simp only [step] at h
    split at h
    · rw [← Option.some.inj h]
      exact Closes.stays hfs
    · split at h
      · rename_i hc
        subst hc
        exact closeArray_closes h
      · exact startValue_closes h hfs
  | name =>
    simp only [step] at h
    split at h
    · rw [← Option.some.inj h]
      exact Closes.stays hfs
    · split at h
      · rw [← Option.some.inj h]
        exact Closes.stays hfs
      · cases h
  | firstName =>
    simp only [step] at h
    split at h
    · rw [← Option.some.inj h]
      exact Closes.stays hfs
    · split at h
      · rename_i hc
        subst hc
        exact closeObject_closes h
      · split at h
        · rw [← Option.some.inj h]
          exact Closes.stays hfs
        · cases h
  | colon =>
    simp only [step] at h
    split at h
    · rw [← Option.some.inj h]
      exact Closes.stays hfs
    · split at h
      · rw [← Option.some.inj h]
        exact Closes.stays hfs
      · cases h
  | after => exact follow_closes h hfs
  | string t =>
    simp only [step] at h
    split at h
    · rw [← Option.some.inj h]
      exact endString_closes t c hfs
    · split at h
      · rw [← Option.some.inj h]
        exact Closes.stays hfs
      · split at h
        · cases h
        · rw [← Option.some.inj h]
          exact Closes.stays hfs
  | escape t =>
    simp only [step] at h
    split at h
    · rw [← Option.some.inj h]
      exact Closes.stays hfs
    · obtain ⟨b, -, rfl⟩ := Option.map_eq_some_iff.mp h
      exact Closes.stays hfs
  | hex t more n =>
    obtain ⟨d, -, rfl⟩ := Option.map_eq_some_iff.mp h
    cases more with
    | zero => exact Closes.stays hfs
    | succ more => exact Closes.stays hfs
  | number phase text =>
    simp only [step] at h
    split at h
    · rw [← Option.some.inj h]
      exact Closes.stays hfs
    · split at h
      · have hc := follow_closes h (deliver_ne_nil _ hfs)
        unfold Closes at hc ⊢
        rwa [deliver_bottom _ hfs] at hc
      · cases h
  | literal rest v =>
    cases rest with
    | nil => cases h
    | cons b rest =>
      simp only [step] at h
      split at h
      · split at h
        · rw [← Option.some.inj h]
          exact Closes.deliver hfs
        · rw [← Option.some.inj h]
          exact Closes.stays hfs
      · cases h
  | done v => exact follow_closes h hfs

/-! ## a text in a context -/

theorem isWs_done (v : Value) (c : UInt8) :
    step ⟨.done v, []⟩ c = if isWs c then some ⟨.done v, []⟩ else none := rfl

/-- Behind a complete value there is only white space. -/
theorem run_done (v : Value) (text : Bytes) :
    run ⟨.done v, []⟩ text = if text.all isWs then some ⟨.done v, []⟩ else none := by
  induction text with
  | nil => rfl
  | cons c text ih =>
    rw [run_cons, isWs_done, List.all_cons]
    by_cases hc : isWs c = true
    · rw [if_pos hc, hc, Bool.true_and]
      exact ih
    · rw [if_neg hc, (Bool.not_eq_true _).mp hc, Bool.false_and]
      rfl

/-- **A text in a context**: it leaves the outermost frame of the piece open and is read as it is
without the context, or one of its bytes closes that frame. -/
theorem run_state (K : Context) {s : State} (hs : s.stack ≠ []) (text : Bytes) :
    (run (K.state s) text = (run s text).map K.state ∧
      ∀ s', run s text = some s' → s'.stack ≠ [] ∧ bottom s'.stack = bottom s.stack) ∨
    ∃ a c b s₁ v, text = a ++ c :: b ∧ run s a = some s₁ ∧ s₁.stack ≠ [] ∧
      bottom s₁.stack = bottom s.stack ∧ step s₁ c = some ⟨.done v, []⟩ := by
  induction text generalizing s with
  | nil =>
    refine .inl ⟨rfl, fun s' h => ?_⟩
    obtain rfl := Option.some.inj h
    exact ⟨hs, rfl⟩
  | cons c text ih =>
    have hstep := K.step_state hs c
    rw [run_cons, run_cons, hstep]
    rcases hc : step s c with - | s₁
    · exact .inl ⟨rfl, fun s' h => by cases h⟩
    have hdone : (∃ v, s₁ = ⟨.done v, []⟩) → ∃ a c' b s₂ v, c :: text = a ++ c' :: b ∧
        run s a = some s₂ ∧ s₂.stack ≠ [] ∧ bottom s₂.stack = bottom s.stack ∧
          step s₂ c' = some ⟨.done v, []⟩ := by
      rintro ⟨v, rfl⟩
      exact ⟨[], c, text, s, v, rfl, rfl, hs, rfl, hc⟩
    rcases step_closes hc hs with ⟨hne, hbot⟩ | ⟨-, -, items, rfl⟩ | ⟨-, -, members, rfl⟩
    · rcases ih hne with ⟨hrun, hopen⟩ | ⟨a, c', b, s₂, v, he, hrun, hne', hbot', hlast⟩
      · refine .inl ⟨hrun, fun s' h => ?_⟩
        obtain ⟨h1, h2⟩ := hopen s' h
        exact ⟨h1, h2.trans hbot⟩
      · refine .inr ⟨c :: a, c', b, s₂, v, by rw [he, List.cons_append], ?_, hne',
          hbot'.trans hbot, hlast⟩
        rw [run_cons, hc]
        exact hrun
    · exact .inr (hdone ⟨_, rfl⟩)
    · exact .inr (hdone ⟨_, rfl⟩)

/-- **A piece that leaves its array or object open.** -/
theorem run_context (K : Context) {s s₁ : State} {text : Bytes} (hs : s.stack ≠ [])
    (h : run s text = some s₁) (h₁ : s₁.stack ≠ []) :
    run (K.state s) text = some (K.state s₁) ∧ bottom s₁.stack = bottom s.stack := by
  rcases run_state K hs text with ⟨hrun, hopen⟩ | ⟨a, c, b, s₂, v, rfl, ha, -, -, hc⟩
  · exact ⟨by rw [hrun, h, Option.map_some], (hopen s₁ h).2⟩
  · rw [run_append, ha, Option.bind_some, run_cons, hc, Option.bind_some, run_done] at h
    split at h
    · rw [← Option.some.inj h] at h₁
      exact absurd rfl h₁
    · cases h

/-- **A piece that closes its array or object.** -/
theorem run_closed (K : Context) {s s₁ : State} {a b : Bytes} {c : UInt8} {v : Value}
    (hs : s.stack ≠ []) (h : run s a = some s₁) (h₁ : s₁.stack ≠ [])
    (hc : step s₁ c = some ⟨.done v, []⟩) :
    run (K.state s) (a ++ c :: b) = run (deliver (K.value v) K.base) b := by
  rw [run_append, (run_context K hs h h₁).1, Option.bind_some, run_cons, K.step_state h₁, hc]
  rfl

theorem finish_open {s : State} (h : s.stack ≠ []) : finish s = none := by
  obtain ⟨mode, fs⟩ := s
  obtain ⟨f, fs, rfl⟩ := List.exists_cons_of_ne_nil h
  cases mode <;> rfl

theorem Context.state_open (K : Context) {s : State} (h : s.stack ≠ []) :
    (K.state s).stack ≠ [] := by
  obtain ⟨mode, fs⟩ := s
  rw [K.state_of_ne h]
  obtain ⟨f, fs, rfl⟩ := List.exists_cons_of_ne_nil h
  obtain ⟨gs, he | he⟩ := K.stack_head f fs
  · show K.stack (f :: fs) ≠ []
    rw [he]
    exact List.cons_ne_nil _ _
  · show K.stack (f :: fs) ≠ []
    rw [he]
    exact List.cons_ne_nil _ _

/-- What a byte closes is an array or an object, as the byte says. -/
theorem closed_value {s : State} {c : UInt8} {v : Value} (hs : s.stack ≠ [])
    (h : step s c = some ⟨.done v, []⟩) :
    (c = 93 ∧ bottom s.stack = some true ∧ ∃ items, v = .array items) ∨
    (c = 125 ∧ bottom s.stack = some false ∧ ∃ members, v = .object members) := by
  rcases step_closes h hs with ⟨hne, -⟩ | ⟨rfl, hb, items, he⟩ | ⟨rfl, hb, members, he⟩
  · exact absurd rfl hne
  · rw [State.mk.injEq, Mode.done.injEq] at he
    exact .inl ⟨rfl, hb, items, he.1⟩
  · rw [State.mk.injEq, Mode.done.injEq] at he
    exact .inr ⟨rfl, hb, members, he.1⟩

/-- **The rest of a text**: where it closes the outermost array or object. -/
theorem finish_run {s : State} (hs : s.stack ≠ []) {text : Bytes} {v : Value} :
    (run s text).bind finish = some v ↔
      ∃ a c b s₁, text = a ++ c :: b ∧ run s a = some s₁ ∧ s₁.stack ≠ [] ∧
        step s₁ c = some ⟨.done v, []⟩ ∧ b.all isWs = true := by
  have hclosed : ∀ {a c b s₁ w}, run s a = some s₁ → step s₁ c = some ⟨.done w, []⟩ →
      (run s (a ++ c :: b)).bind finish = if b.all isWs then some w else none := by
    intro a c b s₁ w ha hc
    rw [run_append, ha, Option.bind_some, run_cons, hc, Option.bind_some, run_done]
    split <;> rfl
  constructor
  · intro h
    rcases run_state ⟨[], [], []⟩ hs text with ⟨-, hopen⟩ | ⟨a, c, b, s₁, w, rfl, ha, h₁, -, hc⟩
    · rcases hr : run s text with - | s'
      · rw [hr] at h
        cases h
      · rw [hr, Option.bind_some, finish_open (hopen s' hr).1] at h
        cases h
    · rw [hclosed ha hc] at h
      split at h
      · obtain rfl := Option.some.inj h
        exact ⟨a, c, b, s₁, rfl, ha, h₁, hc, ‹_›⟩
      · cases h
  · rintro ⟨a, c, b, s₁, rfl, ha, -, hc, hb⟩
    rw [hclosed ha hc, if_pos hb]

/-- **The value that a text gives in a context around which nothing is open.** -/
theorem finish_context {K : Context} (hK : K.base = []) {s : State} (hs : s.stack ≠ [])
    {text : Bytes} {w : Value} :
    (run (K.state s) text).bind finish = some w ↔
      ∃ v, (run s text).bind finish = some v ∧ w = K.value v := by
  rcases run_state K hs text with ⟨hrun, hopen⟩ | ⟨a, c, b, s₁, v, rfl, ha, h₁, -, hc⟩
  · have hnone : (run s text).bind finish = none := by
      rcases hr : run s text with - | s'
      · rfl
      · exact finish_open (hopen s' hr).1
    have hnone' : (run (K.state s) text).bind finish = none := by
      rw [hrun]
      rcases hr : run s text with - | s'
      · rfl
      · exact finish_open (K.state_open (hopen s' hr).1)
    rw [hnone, hnone']
    simp
  · rw [run_closed K hs ha h₁ hc, hK, run_append, ha, Option.bind_some, run_cons, hc,
      Option.bind_some, run_done]
    have hdeliver : deliver (K.value v) [] = ⟨.done (K.value v), []⟩ := rfl
    rw [hdeliver, run_done]
    by_cases hb : b.all isWs = true
    · rw [if_pos hb, if_pos hb]
      show some (K.value v) = some w ↔ ∃ v', some v = some v' ∧ w = K.value v'
      constructor
      · intro h
        exact ⟨v, rfl, (Option.some.inj h).symm⟩
      · rintro ⟨v', h, rfl⟩
        rw [Option.some.inj h]
    · rw [if_neg hb, if_neg hb]
      simp

end Json
