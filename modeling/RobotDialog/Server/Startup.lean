import Mathlib.Algebra.Group.Nat.Defs
import Mathlib.Algebra.Order.Group.Unbundled.Int
import RobotDialog.Server.Http

/-!
# The process: arguments, startup and cleanup

`main`, `init_server`, `run_server` and `cleanup_server` of `main.c`, for any arguments and any
results of the calls they make, with what they acquire and release.

* `parseArgs`       the loop over the arguments;
* `parseArgs_run`   it accepts pairs of `-p` and a port, and the last pair counts;
* `initServer`      the calls of the startup, each with its error path;
* `initServer_spec` it returns 0 with everything acquired, or -1 with nothing left;
* `main_spec`       what the process acquires it releases on every path, and when it serves.
-/

namespace Startup
open CString Wire Resources Lts

/-! ## the arguments -/

def defaultPort : Int := 8080

/-- `atoi`: the value of `strtol`, a `long`, in an `int` -/
def atoi (s : Bytes) : Int := (max (-2 ^ 63) (min (2 ^ 63 - 1) (strtol s).1)).bmod (2 ^ 32)

/-- how the loop over the arguments ends -/
inductive Args where
  | run (port : Int)
  | badPort                                   -- EXIT_FAILURE
  | help                                      -- the usage text, EXIT_SUCCESS
  | unknown                                   -- the usage text, EXIT_FAILURE
  deriving DecidableEq, Repr

/-- the loop over the arguments, from `argv[i]` on -/
def parseArgs (port : Int) : List Bytes → Args
  | [] => .run port
  | [arg] => if arg = ascii "-h" then .help else .unknown
  | arg :: value :: rest =>
    if arg = ascii "-p" then
      if atoi value ≤ 0 ∨ atoi value > 65535 then .badPort else parseArgs (atoi value) rest
    else if arg = ascii "-h" then .help
    else .unknown

/-- a text that `-p` takes as a port -/
def IsPort (value : Bytes) : Prop := 1 ≤ atoi value ∧ atoi value ≤ 65535

/-- `-p` and a value, for each value -/
def portOptions (values : List Bytes) : List Bytes :=
  values.flatMap fun value => [ascii "-p", value]

def lastPort (port : Int) (values : List Bytes) : Int := (values.getLast?.map atoi).getD port

theorem lastPort_cons (port : Int) (value : Bytes) (values : List Bytes) :
    lastPort port (value :: values) = lastPort (atoi value) values := by
  unfold lastPort
  cases values with
  | nil => rfl
  | cons v vs => rw [List.getLast?_cons_cons, List.getLast?_cons]; rfl

theorem portOptions_eq_cons {arg : Bytes} {rest values : List Bytes}
    (h : arg :: rest = portOptions values) :
    arg = ascii "-p" ∧ ∃ value rest' values', rest = value :: rest' ∧ values = value :: values' ∧
      rest' = portOptions values' := by
  cases values with
  | nil => cases h
  | cons value values =>
    have hcons : portOptions (value :: values) = ascii "-p" :: value :: portOptions values := rfl
    rw [hcons, List.cons.injEq] at h
    exact ⟨h.1, value, _, values, h.2, rfl, rfl⟩

/-- **The loop accepts pairs of `-p` and a port**, any number of them, and the last one counts. -/
theorem parseArgs_run (port p : Int) (args : List Bytes) :
    parseArgs port args = .run p ↔
      ∃ values, args = portOptions values ∧ (∀ value ∈ values, IsPort value) ∧
        p = lastPort port values := by
  have hno : ∀ {port : Int} {arg : Bytes} {rest : List Bytes} {a : Args}, arg ≠ ascii "-p" →
      (∀ p, a ≠ .run p) → (a = .run p ↔ ∃ values, arg :: rest = portOptions values ∧
        (∀ value ∈ values, IsPort value) ∧ p = lastPort port values) := by
    intro port arg rest a harg ha
    refine iff_of_false (ha p) ?_
    rintro ⟨values, h, -⟩
    exact harg (portOptions_eq_cons h).1
  fun_induction parseArgs port args with
  | case1 port =>
    constructor
    · intro h
      cases h
      exact ⟨[], rfl, fun _ h => absurd h List.not_mem_nil, rfl⟩
    · rintro ⟨values, h, -, rfl⟩
      cases values with
      | nil => rfl
      | cons value values => cases h
  | case2 port => exact hno (by decide) fun p h => by cases h
  | case3 port arg harg =>
    refine iff_of_false (fun h => by cases h) ?_
    rintro ⟨values, h, -⟩
    obtain ⟨-, value, rest', values', hrest, -, -⟩ := portOptions_eq_cons h
    cases hrest
  | case4 port value rest hbad =>
    refine iff_of_false (fun h => by cases h) ?_
    rintro ⟨values, h, hports, -⟩
    obtain ⟨-, value', rest', values', hrest, rfl, -⟩ := portOptions_eq_cons h
    obtain ⟨rfl, -⟩ := List.cons.injEq .. ▸ hrest
    obtain ⟨h1, h2⟩ := hports value List.mem_cons_self
    omega
  | case5 port value rest hgood ih =>
    refine Iff.trans ih ?_
    constructor
    · rintro ⟨values, rfl, hports, rfl⟩
      refine ⟨value :: values, rfl, ?_, (lastPort_cons _ _ _).symm⟩
      intro v hv
      rcases List.mem_cons.mp hv with rfl | hv
      · exact ⟨by omega, by omega⟩
      · exact hports v hv
    · rintro ⟨values, h, hports, rfl⟩
      obtain ⟨-, value', rest', values', hrest, rfl, hoptions⟩ := portOptions_eq_cons h
      rw [List.cons.injEq] at hrest
      obtain ⟨rfl, rfl⟩ := hrest
      exact ⟨values', hoptions, fun v hv => hports v (List.mem_cons_of_mem _ hv),
        lastPort_cons _ _ _⟩
  | case6 port value rest => exact hno (by decide) fun p h => by cases h
  | case7 port arg value rest harg hhelp => exact hno harg fun p h => by cases h

def AsksHelp (args : List Bytes) : Prop :=
  ∃ values rest, args = portOptions values ++ ascii "-h" :: rest ∧ ∀ value ∈ values, IsPort value

/-- The loop comes to the usage text exactly if it meets `-h` behind such pairs. -/
theorem parseArgs_help (port : Int) (args : List Bytes) :
    parseArgs port args = .help ↔ AsksHelp args := by
  have hno : ∀ {arg : Bytes} {rest : List Bytes}, arg ≠ ascii "-p" → arg ≠ ascii "-h" →
      ¬ AsksHelp (arg :: rest) := by
    rintro arg rest hp hh ⟨values, rest', h, -⟩
    cases values with
    | nil => exact hh (List.cons.inj h).1
    | cons value values => exact hp (List.cons.inj h).1
  fun_induction parseArgs port args with
  | case1 port =>
    refine iff_of_false (fun h => by cases h) ?_
    rintro ⟨values, rest, h, -⟩
    cases values <;> cases h
  | case2 port => exact iff_of_true rfl ⟨[], [], rfl, fun _ h => absurd h List.not_mem_nil⟩
  | case3 port arg harg =>
    refine iff_of_false (fun h => by cases h) ?_
    rintro ⟨values, rest, h, -⟩
    cases values with
    | nil => exact harg (List.cons.inj h).1
    | cons value values => cases (List.cons.inj h).2
  | case4 port value rest hbad =>
    refine iff_of_false (fun h => by cases h) ?_
    rintro ⟨values, rest', h, hports⟩
    cases values with
    | nil => exact absurd (List.cons.inj h).1 (by decide)
    | cons value' values =>
      obtain ⟨rfl, -⟩ := List.cons.inj (List.cons.inj h).2
      obtain ⟨h1, h2⟩ := hports value List.mem_cons_self
      omega
  | case5 port value rest hgood ih =>
    refine Iff.trans ih ?_
    constructor
    · rintro ⟨values, rest', rfl, hports⟩
      refine ⟨value :: values, rest', rfl, ?_⟩
      intro v hv
      rcases List.mem_cons.mp hv with rfl | hv
      · exact ⟨by omega, by omega⟩
      · exact hports v hv
    · rintro ⟨values, rest', h, hports⟩
      cases values with
      | nil => exact absurd (List.cons.inj h).1 (by decide)
      | cons value' values =>
        exact ⟨values, rest', (List.cons.inj (List.cons.inj h).2).2,
          fun v hv => hports v (List.mem_cons_of_mem _ hv)⟩
  | case6 port value rest =>
    exact iff_of_true rfl ⟨[], value :: rest, rfl, fun _ h => absurd h List.not_mem_nil⟩
  | case7 port arg value rest harg hhelp =>
    exact iff_of_false (fun h => by cases h) (hno harg hhelp)

/-! ## the startup -/

/-- what the process acquires -/
inductive Resource where
  | curl                                      -- curl_global_init
  | serverFd                                  -- socket
  | epollFd                                   -- epoll_create1
  | pool                                      -- thread_pool_create
  deriving DecidableEq, Repr

/-- which calls of `init_server` succeed -/
structure Results where
  globalInit : Bool                           -- curl_global_init
  socket : Bool
  reuseAddr : Bool                            -- setsockopt
  getFlags : Bool                             -- fcntl F_GETFL
  setFlags : Bool                             -- fcntl F_SETFL
  bind : Bool
  listen : Bool
  epollCreate : Bool                          -- epoll_create1
  epollAdd : Bool                             -- epoll_ctl
  poolCreate : Bool                           -- thread_pool_create

def makeSocketNonBlocking (r : Results) : Int :=
  if !r.getFlags then -1 else if !r.setFlags then -1 else 0

/-- `init_server`: the return value, and what it acquires, uses and releases -/
def initServer (r : Results) : Int × List (Event Resource) :=
  if !r.globalInit then (-1, [])
  else
    let events := [.acquire .curl]
    if !r.socket then (-1, events ++ [.release .curl])
    else
      let events := events ++ [.acquire .serverFd, .use .serverFd]         -- setsockopt
      if !r.reuseAddr then (-1, events ++ [.release .serverFd, .release .curl])
      else
        let events := events ++ [.use .serverFd]                           -- fcntl
        if makeSocketNonBlocking r < 0 then
          (-1, events ++ [.release .serverFd, .release .curl])
        else
          let events := events ++ [.use .serverFd]                         -- bind
          if !r.bind then (-1, events ++ [.release .serverFd, .release .curl])
          else
            let events := events ++ [.use .serverFd]                       -- listen
            if !r.listen then (-1, events ++ [.release .serverFd, .release .curl])
            else if !r.epollCreate then
              (-1, events ++ [.release .serverFd, .release .curl])
            else
              let events := events ++ [.acquire .epollFd, .use .epollFd]   -- epoll_ctl
              if !r.epollAdd then
                (-1, events ++ [.release .epollFd, .release .serverFd, .release .curl])
              else if !r.poolCreate then
                (-1, events ++ [.release .epollFd, .release .serverFd, .release .curl])
              else (0, events ++ [.acquire .pool])

/-- one round of the loop of `run_server`: `epoll_wait`, the calls of `accept_new_connection`, each
with whether it comes as far as `thread_pool_add_task`, and the statistics if they are due -/
structure Round where
  accepts : List Bool
  stats : Bool

def acceptNewConnection (adds : Bool) : List (Event Resource) :=
  .use .serverFd :: if adds then [.use .pool] else []

def runServer (rounds : List Round) : List (Event Resource) :=
  rounds.flatMap fun round =>
    .use .epollFd :: round.accepts.flatMap acceptNewConnection ++
      if round.stats then [.use .pool] else []

def cleanupServer : List (Event Resource) :=
  [.release .pool, .release .epollFd, .release .serverFd, .release .curl]

/-- how the process ends, what it did, and with which key and port it served -/
structure Process where
  exitCode : Int
  events : List (Event Resource)
  served : Option (Bytes × Int)

/-- `main`; `envKey` is what `getenv` returns -/
def main (envKey : Option Bytes) (args : List Bytes) (r : Results) (rounds : List Round) : Process :=
  let geminiApiKey := envKey.elim [] (cut 256)
  match parseArgs defaultPort args with
  | .badPort => ⟨1, [], none⟩
  | .help => ⟨0, [], none⟩
  | .unknown => ⟨1, [], none⟩
  | .run port =>
    if geminiApiKey = [] then ⟨1, [], none⟩
    else if (initServer r).1 < 0 then ⟨1, (initServer r).2, none⟩
    else ⟨0, (initServer r).2 ++ runServer rounds ++ cleanupServer, some (geminiApiKey, port)⟩

/-- every call of the startup succeeds -/
def Results.Good (r : Results) : Prop :=
  r.globalInit ∧ r.socket ∧ r.reuseAddr ∧ r.getFlags ∧ r.setFlags ∧ r.bind ∧ r.listen ∧
    r.epollCreate ∧ r.epollAdd ∧ r.poolCreate

instance (r : Results) : Decidable r.Good := inferInstanceAs (Decidable (_ ∧ _))

def everything : Finset Resource := {.curl, .serverFd, .epollFd, .pool}

/-- **Startup is all or nothing**: a call that fails releases everything before it. -/
theorem initServer_spec (r : Results) :
    (r.Good ∧ (initServer r).1 = 0 ∧ exec Resources.step ∅ (initServer r).2 = some everything) ∨
      (¬ r.Good ∧ (initServer r).1 = -1 ∧ Clean (initServer r).2) := by
  obtain ⟨b₁, b₂, b₃, b₄, b₅, b₆, b₇, b₈, b₉, b₁₀⟩ := r
  by_cases hgood : Results.Good ⟨b₁, b₂, b₃, b₄, b₅, b₆, b₇, b₈, b₉, b₁₀⟩
  · obtain ⟨rfl, rfl, rfl, rfl, rfl, rfl, rfl, rfl, rfl, rfl⟩ := hgood
    exact .inl (by decide)
  · refine .inr ⟨hgood, ?_⟩
    -- one case for each call that can be the first to fail
    cases b₁ with
    | false => exact ⟨rfl, of_decide_eq_true rfl⟩
    | true => cases b₂ with
      | false => exact ⟨rfl, of_decide_eq_true rfl⟩
      | true => cases b₃ with
        | false => exact ⟨rfl, of_decide_eq_true rfl⟩
        | true => cases b₄ with
          | false => exact ⟨rfl, of_decide_eq_true rfl⟩
          | true => cases b₅ with
            | false => exact ⟨rfl, of_decide_eq_true rfl⟩
            | true => cases b₆ with
              | false => exact ⟨rfl, of_decide_eq_true rfl⟩
              | true => cases b₇ with
                | false => exact ⟨rfl, of_decide_eq_true rfl⟩
                | true => cases b₈ with
                  | false => exact ⟨rfl, of_decide_eq_true rfl⟩
                  | true => cases b₉ with
                    | false => exact ⟨rfl, of_decide_eq_true rfl⟩
                    | true => cases b₁₀ with
                      | false => exact ⟨rfl, of_decide_eq_true rfl⟩
                      | true => exact absurd ⟨rfl, rfl, rfl, rfl, rfl, rfl, rfl, rfl, rfl, rfl⟩ hgood

/-! ## the process -/

theorem runServer_uses (rounds : List Round) :
    exec Resources.step everything (runServer rounds) = some everything := by
  refine exec_uses fun e he => ?_
  obtain ⟨round, -, he⟩ := List.mem_flatMap.mp he
  rw [List.cons_append, List.mem_cons, List.mem_append] at he
  rcases he with rfl | he | he
  · exact ⟨.epollFd, by decide, rfl⟩
  · obtain ⟨adds, -, he⟩ := List.mem_flatMap.mp he
    cases adds with
    | false => exact ⟨.serverFd, by decide, List.mem_singleton.mp he⟩
    | true =>
      rcases List.mem_cons.mp he with rfl | he
      · exact ⟨.serverFd, by decide, rfl⟩
      · exact ⟨.pool, by decide, List.mem_singleton.mp he⟩
  · cases hstats : round.stats with
    | false =>
      rw [hstats] at he
      cases he
    | true =>
      rw [hstats] at he
      exact ⟨.pool, by decide, List.mem_singleton.mp he⟩

/-- A call of the startup that fails ends the process with nothing held. -/
theorem main_failed (envKey : Option Bytes) (args : List Bytes) {r : Results} (rounds : List Round)
    (h : ¬ ((∃ port, parseArgs defaultPort args = .run port) ∧
      envKey.elim [] (cut 256) ≠ [] ∧ r.Good)) :
    Clean (main envKey args r rounds).events ∧ (main envKey args r rounds).served = none ∧
      ((main envKey args r rounds).exitCode = 0 ↔ parseArgs defaultPort args = .help) := by
  unfold main
  cases hargs : parseArgs defaultPort args with
  | badPort => exact ⟨rfl, rfl, by simp⟩
  | unknown => exact ⟨rfl, rfl, by simp⟩
  | help => exact ⟨rfl, rfl, by simp⟩
  | run port =>
    dsimp only
    by_cases hkey : envKey.elim [] (cut 256) = []
    · rw [if_pos hkey]
      exact ⟨rfl, rfl, by simp⟩
    · rcases initServer_spec r with ⟨hgood, -, -⟩ | ⟨-, hval, hclean⟩
      · exact absurd ⟨⟨port, hargs⟩, hkey, hgood⟩ h
      · rw [if_neg hkey, if_pos (by omega)]
        exact ⟨hclean, rfl, by simp⟩

theorem main_serves {envKey : Option Bytes} {args : List Bytes} {r : Results} (rounds : List Round)
    {port : Int} (hargs : parseArgs defaultPort args = .run port)
    (hkey : envKey.elim [] (cut 256) ≠ []) (hgood : r.Good) :
    Clean (main envKey args r rounds).events ∧
      (main envKey args r rounds).served = some (envKey.elim [] (cut 256), port) ∧
      (main envKey args r rounds).exitCode = 0 := by
  rcases initServer_spec r with ⟨-, hval, hexec⟩ | ⟨hbad, -, -⟩
  · unfold main
    rw [hargs]
    dsimp only
    rw [if_neg hkey, if_neg (by omega)]
    refine ⟨?_, rfl, rfl⟩
    show exec Resources.step ∅ ((initServer r).2 ++ runServer rounds ++ cleanupServer) = some ∅
    rw [exec_append, exec_append, hexec, Option.bind_some, runServer_uses, Option.bind_some]
    decide
  · exact absurd hgood hbad

theorem url_whole {key : Bytes} (h : key.length ≤ 255) :
    Http.url key = Http.geminiApiUrl ++ ascii "?key=" ++ cstr key := by
  refine cut_eq_self ?_
  have hcstr : (cstr key).length ≤ key.length := (List.takeWhile_prefix _).length_le
  have hurl : (Http.geminiApiUrl ++ ascii "?key=").length ≤ 256 := of_decide_eq_true rfl
  rw [List.length_append]
  omega

/-- **The process.**  Whatever the environment, the arguments and the results of the calls are, what
it acquires it releases once and uses only in between.  It serves exactly with a port from its
options, a key and a startup that succeeds, and the URL with that key is whole; its exit code is 0
exactly then and when it is asked for help. -/
theorem main_spec (envKey : Option Bytes) (args : List Bytes) (r : Results) (rounds : List Round) :
    Clean (main envKey args r rounds).events ∧
      (∀ key port, (main envKey args r rounds).served = some (key, port) ↔
        (∃ env, envKey = some env ∧ env ≠ [] ∧ key = cut 256 env) ∧
        (∃ values, args = portOptions values ∧ (∀ value ∈ values, IsPort value) ∧
          port = lastPort 8080 values) ∧ r.Good) ∧
      (∀ key port, (main envKey args r rounds).served = some (key, port) →
        Http.url key = Http.geminiApiUrl ++ ascii "?key=" ++ cstr key) ∧
      ((main envKey args r rounds).exitCode = 0 ↔
        (main envKey args r rounds).served.isSome = true ∨ AsksHelp args) := by
  have hkeys : ∀ key, (key = envKey.elim [] (cut 256) ∧ envKey.elim [] (cut 256) ≠ []) ↔
      ∃ env, envKey = some env ∧ env ≠ [] ∧ key = cut 256 env := by
    intro key
    cases envKey with
    | none => simp
    | some env =>
      have hcut : cut 256 env = [] ↔ env = [] := by simp [cut]
      simp [hcut, and_comm]
  by_cases h : (∃ port, parseArgs defaultPort args = .run port) ∧
      envKey.elim [] (cut 256) ≠ [] ∧ r.Good
  · obtain ⟨⟨port, hargs⟩, hkey, hgood⟩ := h
    obtain ⟨hclean, hserved, hexit⟩ := main_serves rounds hargs hkey hgood
    rw [hserved, hexit]
    refine ⟨hclean, fun key p => ?_, fun key p he => ?_, iff_of_true rfl (.inl rfl)⟩
    · rw [Option.some.injEq, Prod.mk.injEq, ← hkeys, ← parseArgs_run 8080 p args]
      constructor
      · rintro ⟨rfl, rfl⟩
        exact ⟨⟨rfl, hkey⟩, hargs, hgood⟩
      · rintro ⟨⟨rfl, -⟩, hp, -⟩
        exact ⟨rfl, Args.run.inj (hargs.symm.trans hp)⟩
    · obtain ⟨rfl, -⟩ := Prod.mk.inj (Option.some.inj he)
      refine url_whole ?_
      cases envKey with
      | none => exact Nat.zero_le _
      | some env => exact List.length_take_le _ _
  · obtain ⟨hclean, hserved, hexit⟩ := main_failed envKey args rounds h
    rw [hserved, hexit, parseArgs_help]
    refine ⟨hclean, fun key p => ?_, fun key p he => ?_, (or_iff_right Bool.false_ne_true).symm⟩
    · rw [← hkeys, ← parseArgs_run 8080 p args]
      refine iff_of_false (fun he => by cases he) ?_
      rintro ⟨⟨-, hkey⟩, hargs, hgood⟩
      exact h ⟨⟨p, hargs⟩, hkey, hgood⟩
    · cases he

end Startup
