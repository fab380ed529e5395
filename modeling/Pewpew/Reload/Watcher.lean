import Mathlib.Data.List.TakeWhile
import Mathlib.Tactic.Common
import Pewpew.Expression.Availability
import Pewpew.Library.Traced

/-! The watcher of the config file: one attempt to reload it while the load test runs. -/
namespace Pewpew.ConfigReload

open SelectParser Polling Effect

inductive Limit where
  | dynamic (n : Nat)
  | static (n : Nat)
  deriving DecidableEq

/-- A provider of the config file. What else is configured stands for itself. -/
inductive ConfigProvider (O : Type) where
  | file (path : String) (buffer : Limit) (options : O)
  | range (options : O)
  | response (buffer : Limit) (options : O)
  | list (options : O)
  deriving DecidableEq

/-- A running provider; channels differ by their numbers. -/
structure Provider (O : Type) where
  channel : Nat
  source : ConfigProvider O

inductive TestError where
  | config (e : String)
  | cannotOpenFile (path e : String)
  | fileReading (path e : String)
  | cannotCreateLoggerFile (logger e : String)
  | sslError (e : String)

/-- What the tasks of the running load test get to know. -/
inductive Message (O : Type) where
  | configUpdate (providers : List (String × Provider O))
  | error (e : TestError)

/-- `Endpoint`, as far as a reload looks into it: the providers and loggers that it sends to, the
expressions that it declares, and how long its load pattern is. -/
structure Endpoint where
  provides : List String
  logs : List String
  declare : List (String × ValueOrExpression)
  loadPattern : Option Nat

/-- `LoadTest`, as far as a reload looks into it. The providers and the loggers, of which this is
where they write to, are sorted by name. -/
structure LoadTest (O : Type) where
  providers : List (String × ConfigProvider O)
  autoBufferStartSize : Nat
  loadTestErrors : List String
  loggers : List (String × String)
  endpoints : List Endpoint

/-- The files and libraries that an attempt uses: the names of files beside the config file, whether
a file opens, whether its reader reports an error while the attempt goes on, whether the file of a
logger and a http client can be created, what the streams of the channels give, what expressions
call, and whether the clock can tell the time that is some duration ahead; how long the load test
has been running; and whether any task still listens. -/
structure Env where
  tweakPath : String → String
  openFile : String → Except String Unit
  readError : String → Option String
  createFile : String → Except String Unit
  tlsConnector : Except String Unit
  receive : Nat → PollStream (Item Json Unit)
  zip : Zip
  externals : Externals
  draws : Nat → Externals
  timerFits : Nat → Bool
  elapsed : Nat
  listening : Bool

variable {O : Type}

/-- `default_auto_buffer_start_size`. -/
def defaultAutoBufferStartSize : Nat := 5

/-- The buffers without a fixed limit start with the configured size. -/
def resize (autoSize : Nat) : Limit → Limit
  | .dynamic n => if autoSize ≠ defaultAutoBufferStartSize then .dynamic autoSize else .dynamic n
  | .static n => .static n

section Attempt

variable (env : Env)

/-- A new provider. The reader of a file provider can end the test. -/
def createProvider (autoSize channel : Nat) :
    ConfigProvider O → List (Message O) × Except TestError (Provider O)
  | .file path buffer options =>
    let path := env.tweakPath path
    match env.openFile path with
    | .error e => ([], .error (.cannotOpenFile path e))
    | .ok () =>
      ((env.readError path).toList.map fun e => .error (.fileReading path e),
        .ok ⟨channel, .file path (resize autoSize buffer) options⟩)
  | .response buffer options =>
    ([], .ok ⟨channel, .response (resize autoSize buffer) options⟩)
  | p => ([], .ok ⟨channel, p⟩)

/-- `get_providers_from_config`; the channels are numbered from `next` on. -/
def getProvidersFromConfig (autoSize : Nat) : List (String × ConfigProvider O) → (next : Nat) →
    List (Message O) × Except TestError (List (String × Provider O))
  | [], _ => ([], .ok [])
  | (name, p) :: ps, next =>
    match createProvider env autoSize next p with
    | (sent, .error e) => (sent, .error e)
    | (sent, .ok provider) =>
      let rest := getProvidersFromConfig autoSize ps (next + 1)
      (sent ++ rest.1, rest.2.map ((name, provider) :: ·))

/-- `ok_for_loadtest`. -/
def LoadTest.okForLoadtest (c : LoadTest O) : Except TestError Unit :=
  match c.loadTestErrors with
  | [] => .ok ()
  | e :: _ => .error (.config e)

/-- `get_loggers_from_config`. -/
def getLoggersFromConfig : List (String × String) → Except TestError Unit
  | [] => .ok ()
  | (name, file) :: loggers =>
    if file = "stdout" ∨ file = "stderr" then getLoggersFromConfig loggers
    else
      match env.createFile file with
      | .error e => .error (.cannotCreateLoggerFile name e)
      | .ok () => getLoggersFromConfig loggers

/-- `get_duration`. -/
def LoadTest.getDuration (c : LoadTest O) : Nat :=
  (c.endpoints.filterMap Endpoint.loadPattern).max?.getD 0

/-- The stream of a provider. -/
def Env.stream (providers : List (String × Provider O)) (name : String) :
    Option (PollStream (Item Json Unit)) :=
  (providers.lookup name).map fun p => env.receive p.channel

/-- `EndpointBuilder::build`, which has the streams of what is declared; it panics where a provider
or a logger is not there. -/
def Endpoint.build (loggers : List (String × String)) (providers : List (String × Provider O))
    (e : Endpoint) : Option (List (String × PollStream (Item Json Unit))) :=
  if e.provides.all (fun k => (providers.lookup k).isSome) ∧
      e.logs.all (fun k => (loggers.lookup k).isSome) then
    e.declare.mapM fun d =>
      (d.2.intoStream env.zip env.externals env.draws (env.stream providers) false).map
        fun s => (d.1, s)
  else none

/-- `create_load_test_future` until the endpoints are built. -/
def createClient (c : LoadTest O) : Except TestError Unit :=
  c.okForLoadtest.bind fun () =>
    (getLoggersFromConfig env c.loggers).bind fun () => env.tlsConnector.mapError .sslError

/-- `create_load_test_future`. `Delay::new` panics where the clock cannot tell the end of the
test. -/
def createLoadTestFuture (c : LoadTest O) (providers : List (String × Provider O)) :
    Ending TestError Unit :=
  match createClient env c with
  | .error e => .error e
  | .ok () =>
    match c.endpoints.mapM (Endpoint.build env c.loggers providers) with
    | none => .panicked
    | some _ => if env.timerFits (c.getDuration - env.elapsed) then .ok () else .panicked

/-- What the watcher remembers for its next attempt. -/
structure Watcher (O : Type) where
  previousConfigProviders : List (String × ConfigProvider O)
  previousProviders : List (String × Provider O)

/-- Providers that have not changed are reused. -/
def Watcher.reuse [DecidableEq O] (w : Watcher O) (config : List (String × ConfigProvider O))
    (providers : List (String × Provider O)) : List (String × Provider O) :=
  providers.map fun (name, provider) =>
    (name, if config.lookup name = w.previousConfigProviders.lookup name then
      (w.previousProviders.lookup name).getD provider else provider)

inductive Result where
  | failed (e : TestError)
  | panicked
  | stopped
  | started

def Result.Fails : Result → Prop
  | .failed _ | .panicked => True
  | .stopped | .started => False

/-- How an attempt ends, what it has sent and what is remembered after it. -/
structure Attempt (O : Type) where
  result : Result
  sent : List (Message O)
  watcher : Watcher O

/-- One round of `create_config_watcher`, once the changed file has been read. -/
def Watcher.reload [DecidableEq O] (w : Watcher O) (next : Nat)
    (config : Ending TestError (LoadTest O)) : Attempt O :=
  match config with
  | .error e => ⟨.failed e, [], w⟩
  | .panicked => ⟨.panicked, [], w⟩
  | .ok c =>
    match getProvidersFromConfig env c.autoBufferStartSize c.providers next with
    | (sent, .error e) => ⟨.failed e, sent, w⟩
    | (sent, .ok providers) =>
      let providers := w.reuse c.providers providers
      let after : Watcher O := ⟨c.providers, providers⟩
      if env.listening then
        let sent := sent ++ [.configUpdate providers]
        match createLoadTestFuture env c providers with
        | .error e => ⟨.failed e, sent, after⟩
        | .panicked => ⟨.panicked, sent, after⟩
        | .ok () => ⟨.started, sent, after⟩
      else ⟨.stopped, sent, after⟩

end Attempt

/-- An attempt that fails has sent nothing and is not remembered. -/
def Attempt.Atomic (a : Attempt O) (w : Watcher O) : Prop :=
  a.result.Fails → a.sent = [] ∧ a.watcher = w

section Atomic

variable {env : Env} {w : Watcher O} {c : LoadTest O} {ps : List (String × ConfigProvider O)}
  {autoSize next : Nat}

/-- A provider can be created. -/
def Opens (env : Env) : ConfigProvider O → Bool
  | .file path _ _ => (env.openFile (env.tweakPath path)).isOk
  | _ => true

/-- The reader of a provider reports no error. -/
def Quiet (env : Env) : ConfigProvider O → Prop
  | .file path _ _ => env.readError (env.tweakPath path) = none
  | _ => True

/-- What an endpoint refers to is configured, as far as its building looks it up. -/
structure Endpoint.Resolves (c : LoadTest O) (e : Endpoint) : Prop where
  provides : ∀ k ∈ e.provides, k ∈ c.providers.map Prod.fst
  logs : ∀ k ∈ e.logs, k ∈ c.loggers.map Prod.fst
  declare : ∀ d ∈ e.declare, ∀ k ∈ d.2.sources, k ∈ c.providers.map Prod.fst

/-- The file of a logger can be created, if it needs one. -/
def Writes (env : Env) (file : String) : Prop :=
  file = "stdout" ∨ file = "stderr" ∨ env.createFile file = .ok ()

/-- What the load test of a config needs to start. -/
structure LoadTest.Startable (env : Env) (c : LoadTest O) : Prop where
  valid : c.loadTestErrors = []
  loggers : ∀ l ∈ c.loggers, Writes env l.2
  client : env.tlsConnector = .ok ()
  endpoints : ∀ e ∈ c.endpoints, e.Resolves c
  timer : env.timerFits (c.getDuration - env.elapsed) = true

theorem createProvider_spec (env : Env) (autoSize channel : Nat) (p : ConfigProvider O) :
    (Opens env p = true ∧ (∃ provider, (createProvider env autoSize channel p).2 = .ok provider) ∧
        ((createProvider env autoSize channel p).1 = [] ↔ Quiet env p)) ∨
      (Opens env p = false ∧ (∃ e, (createProvider env autoSize channel p).2 = .error e) ∧
        (createProvider env autoSize channel p).1 = []) := by
  cases p with
  | file path buffer options =>
    cases ho : env.openFile (env.tweakPath path) with
    | error e =>
      refine .inr ⟨by simp [Opens, ho, Except.isOk, Except.toBool], ?_⟩
      simp only [createProvider, ho]
      exact ⟨⟨_, rfl⟩, trivial⟩
    | ok u =>
      refine .inl ⟨by simp [Opens, ho, Except.isOk, Except.toBool], ?_⟩
      simp only [createProvider, ho, Quiet]
      refine ⟨⟨_, rfl⟩, ?_⟩
      cases env.readError (env.tweakPath path) <;> simp
  | _ => exact .inl ⟨rfl, ⟨_, rfl⟩, iff_of_true rfl trivial⟩

/-- The providers can be built if each of them can; else the readers of those before the first one
that cannot have been started. -/
theorem getProvidersFromConfig_spec (env : Env) (autoSize : Nat)
    (ps : List (String × ConfigProvider O)) (next : Nat) :
    ((∀ p ∈ ps, Opens env p.2 = true) ∧
        ∃ providers, (getProvidersFromConfig env autoSize ps next).2 = .ok providers ∧
          providers.map Prod.fst = ps.map Prod.fst) ∨
      ((∃ p ∈ ps, Opens env p.2 = false) ∧
        (∃ e, (getProvidersFromConfig env autoSize ps next).2 = .error e) ∧
        ((getProvidersFromConfig env autoSize ps next).1 = [] ↔
          ∀ p ∈ ps.takeWhile (fun p => Opens env p.2), Quiet env p.2)) := by
  induction ps generalizing next with
  | nil => exact .inl ⟨by simp, [], rfl, rfl⟩
  | cons p ps ih =>
    obtain ⟨name, p⟩ := p
    rw [getProvidersFromConfig]
    cases hc : createProvider env autoSize next p with
    | mk sent result =>
      obtain ⟨ho, ⟨provider, hr⟩, hquiet⟩ | ⟨ho, ⟨e, hr⟩, hnil⟩ :=
        createProvider_spec env autoSize next p
      · obtain rfl : result = .ok provider := by simpa [hc] using hr
        rw [hc] at hquiet
        rcases ih (next + 1) with
          ⟨hall, providers, hok, hnames⟩ | ⟨⟨q, hq, hclosed⟩, ⟨e, herr⟩, hiff⟩
        · refine .inl ⟨by simpa [ho] using hall, (name, provider) :: providers, ?_, ?_⟩
          · simp [hok, Except.map]
          · rw [List.map_cons, List.map_cons, hnames]
        · refine .inr ⟨⟨q, List.mem_cons_of_mem _ hq, hclosed⟩, ⟨e, by simp [herr, Except.map]⟩, ?_⟩
          rw [List.takeWhile_cons, if_pos ho, List.forall_mem_cons, ← hiff, ← hquiet]
          exact List.append_eq_nil_iff
      · obtain rfl : result = .error e := by simpa [hc] using hr
        rw [hc] at hnil
        refine .inr ⟨⟨(name, p), List.mem_cons_self, ho⟩, ⟨e, rfl⟩, ?_⟩
        rw [List.takeWhile_cons, if_neg (by simp [ho])]
        exact iff_of_true hnil (by simp)

theorem reuse_names [DecidableEq O] (w : Watcher O) (config : List (String × ConfigProvider O))
    (providers : List (String × Provider O)) :
    (w.reuse config providers).map Prod.fst = providers.map Prod.fst := by
  rw [Watcher.reuse, List.map_map]
  rfl

theorem okForLoadtest_ok (c : LoadTest O) : c.okForLoadtest = .ok () ↔ c.loadTestErrors = [] := by
  rw [LoadTest.okForLoadtest]
  cases c.loadTestErrors <;> simp

theorem getLoggersFromConfig_ok (loggers : List (String × String)) :
    getLoggersFromConfig env loggers = .ok () ↔ ∀ l ∈ loggers, Writes env l.2 := by
  induction loggers with
  | nil => exact iff_of_true rfl (List.forall_mem_nil _)
  | cons l loggers ih =>
    obtain ⟨name, file⟩ := l
    rw [getLoggersFromConfig, List.forall_mem_cons, ← ih, Writes, ← or_assoc]
    by_cases hstd : file = "stdout" ∨ file = "stderr"
    · simp [hstd]
    · cases hc : env.createFile file <;> simp [hstd]

theorem lookup_isSome {α : Type} {k : String} (l : List (String × α)) :
    (l.lookup k).isSome ↔ k ∈ l.map Prod.fst := by
  simp [List.lookup_isSome_iff]

theorem mapM_isSome {α β : Type} {f : α → Option β} (l : List α) :
    (l.mapM f).isSome ↔ ∀ a ∈ l, (f a).isSome := by
  induction l with
  | nil => simp
  | cons a l ih =>
    rw [List.mapM_cons, List.forall_mem_cons, ← ih]
    cases f a <;> cases l.mapM f <;> simp

theorem build_isSome {providers : List (String × Provider O)}
    (h : providers.map Prod.fst = c.providers.map Prod.fst) (e : Endpoint) :
    (e.build env c.loggers providers).isSome ↔ e.Resolves c := by
  rw [Endpoint.build]
  split
  case isTrue hnames =>
    simp only [List.all_eq_true, lookup_isSome, h] at hnames
    simp only [mapM_isSome, Option.isSome_map, ValueOrExpression.intoStream_isSome, Available,
      Env.stream, lookup_isSome, h]
    exact ⟨fun hdeclare => ⟨hnames.1, hnames.2, hdeclare⟩, fun hr => hr.declare⟩
  case isFalse hnames =>
    simp only [List.all_eq_true, lookup_isSome, h] at hnames
    exact iff_of_false (by simp) fun hr => hnames ⟨hr.provides, hr.logs⟩

theorem createClient_ok (env : Env) (c : LoadTest O) :
    createClient env c = .ok () ↔
      c.loadTestErrors = [] ∧ (∀ l ∈ c.loggers, Writes env l.2) ∧ env.tlsConnector = .ok () := by
  rw [createClient, ← okForLoadtest_ok, ← getLoggersFromConfig_ok]
  cases c.okForLoadtest with
  | error e => simp [Except.bind]
  | ok u =>
    cases getLoggersFromConfig env c.loggers with
    | error e => simp [Except.bind]
    | ok u => cases env.tlsConnector <;> simp [Except.bind, Except.mapError]

/-- The future of a load test is there exactly where nothing that it needs is missing. -/
theorem createLoadTestFuture_ok (env : Env) {providers : List (String × Provider O)}
    (h : providers.map Prod.fst = c.providers.map Prod.fst) :
    createLoadTestFuture env c providers = .ok () ↔ c.Startable env := by
  have hbuild : (c.endpoints.mapM (Endpoint.build env c.loggers providers)).isSome ↔
      ∀ e ∈ c.endpoints, e.Resolves c := by simp only [mapM_isSome, build_isSome h]
  have hclient := createClient_ok env c
  rw [createLoadTestFuture]
  cases hc : createClient env c with
  | error e =>
    refine iff_of_false (by simp) fun hs => ?_
    simpa [hc] using hclient.mpr ⟨hs.valid, hs.loggers, hs.client⟩
  | ok u =>
    obtain ⟨hvalid, hloggers, hclient⟩ := hclient.mp hc
    cases hb : c.endpoints.mapM (Endpoint.build env c.loggers providers) with
    | none =>
      refine iff_of_false (by simp) fun hs => ?_
      simpa [hb] using hbuild.mpr hs.endpoints
    | some streams =>
      have hresolves := hbuild.mp (by rw [hb, Option.isSome_some])
      simp only [ite_eq_left_iff, reduceCtorEq, imp_false, not_not]
      exact ⟨fun ht => ⟨hvalid, hloggers, hclient, hresolves, ht⟩, fun hs => hs.timer⟩

/-- An attempt that fails leaves everything as it was exactly if the config is invalid; or some
provider cannot be created, and the readers before it are quiet; or all can be created, and the
load test has what it needs to start. -/
theorem reload_atomic_iff [DecidableEq O] {config : Ending TestError (LoadTest O)} :
    (w.reload env next config).Atomic w ↔ ∀ c, config = .ok c →
      ((∃ p ∈ c.providers, Opens env p.2 = false) →
        ∀ p ∈ c.providers.takeWhile (fun p => Opens env p.2), Quiet env p.2) ∧
      ((∀ p ∈ c.providers, Opens env p.2 = true) → env.listening = true → c.Startable env) := by
  cases config with
  | error e => exact iff_of_true (fun _ => ⟨rfl, rfl⟩) (by simp)
  | panicked => exact iff_of_true (fun _ => ⟨rfl, rfl⟩) (by simp)
  | ok c =>
    simp only [Ending.ok.injEq, forall_eq', Watcher.reload]
    cases hg : getProvidersFromConfig env c.autoBufferStartSize c.providers next with
    | mk sent result =>
      obtain ⟨hall, providers, hok, hnames⟩ | ⟨hclosed, ⟨e, herr⟩, hiff⟩ :=
        getProvidersFromConfig_spec env c.autoBufferStartSize c.providers next
      · obtain rfl : result = .ok providers := by simpa [hg] using hok
        have hopen : ¬∃ p ∈ c.providers, Opens env p.2 = false := by
          rintro ⟨p, hp, hno⟩
          simp [hall p hp] at hno
        have hstart := createLoadTestFuture_ok env
          ((reuse_names w c.providers providers).trans hnames)
        cases hl : env.listening with
        | false => simp [Attempt.Atomic, Result.Fails, hopen]
        | true =>
          cases hf : createLoadTestFuture env c (w.reuse c.providers providers) with
          | ok u =>
            have hs := hstart.mp hf
            simp [Attempt.Atomic, Result.Fails, hf, hopen, hs]
          | error e | panicked =>
            refine iff_of_false (fun h => ?_) (fun h => ?_)
            · simp [Attempt.Atomic, Result.Fails, hf] at h
            · have := hstart.mpr (h.2 hall rfl)
              rw [hf] at this
              cases this
      · obtain rfl : result = .error e := by simpa [hg] using herr
        rw [hg] at hiff
        obtain ⟨p, hp, hno⟩ := hclosed
        have hall : ¬∀ p ∈ c.providers, Opens env p.2 = true := by
          intro h
          simp [h p hp] at hno
        constructor
        · intro h
          exact ⟨fun _ => hiff.mp (h trivial).1, fun h => absurd h hall⟩
        · rintro ⟨h, -⟩ -
          exact ⟨hiff.mpr (h ⟨p, hp, hno⟩), rfl⟩

/-- Every attempt that fails leaves everything as it was. -/
def ReloadsAtomic : Prop :=
  ∀ (O : Type) (_ : DecidableEq O) (env : Env) (w : Watcher O) (next : Nat)
    (config : Ending TestError (LoadTest O)), (w.reload env next config).Atomic w

/-- All files can be opened, read and created, and all times be told. -/
def Env.plain : Env where
  tweakPath path := path
  openFile _ := .ok ()
  readError _ := none
  createFile _ := .ok ()
  tlsConnector := .ok ()
  receive _ := fun _ => .pending
  zip := queueZip
  externals := .plain
  draws _ := .plain
  timerFits _ := true
  elapsed := 60
  listening := true

/-- A config without a load pattern stops the running test, and no other one starts. -/
theorem not_reloadsAtomic : ¬ReloadsAtomic := by
  intro h
  have := (h Unit inferInstance .plain ⟨[], []⟩ 0
    (.ok ⟨[], 5, ["endpoint is missing a load_pattern at line 3 column 5"], [], []⟩) trivial).1
  simp [Watcher.reload, getProvidersFromConfig, Env.plain, createLoadTestFuture, createClient,
    LoadTest.okForLoadtest, Except.bind] at this

end Atomic

end Pewpew.ConfigReload
