import PullStream.Base.Trace
import PullStream.Config.RoundTrip
import PullStream.Config.Settings
/-!
# What a configuration makes of `pull`

`main` reads its settings one after another while it starts. `Pull.startWith` is the start with the settings given, and
for a file that has been printed they are those of the sections (`startUp_printed`). So whatever the calls come to, a
start makes only calls that the settings ask for (`Pull.Permitted`), and one that comes to its end has created the
configured number of workers, one after another, and has registered at the configured database the address of the
configured interface with the configured port (`started_as_configured`).
-/

namespace PullStream

open Prog Sections

/-! ### Settings -/

/-- The value of a key in the last section of that name. -/
def setting (doc : List (Str × List (Str × Str))) (s k : Str) : Str :=
  ((lastOf doc s).bind fun ps => lastOf ps k).getD []

instance (p : Str × Str) : Decidable (PairOk p) :=
  decidable_of_iff
    (clean p.1 = true ∧ equalsSign ∉ p.1 ∧ clean p.2 = true ∧ (pairLine p).length ≤ 254)
    ⟨fun h => ⟨h.1, h.2.1, h.2.2.1, h.2.2.2⟩, fun h => ⟨h.key, h.noEquals, h.value, h.length⟩⟩

instance (c : Str × List (Str × Str)) : Decidable (SectionOk c) :=
  decidable_of_iff
    (c.1 ≠ [] ∧ clean c.1 = true ∧ equalsSign ∉ c.1 ∧ (headerLine c.1).length ≤ 254 ∧ ∀ p ∈ c.2, PairOk p)
    ⟨fun h => ⟨h.1, h.2.1, h.2.2.1, h.2.2.2.1, h.2.2.2.2⟩, fun h => ⟨h.nonempty, h.name, h.noEquals, h.length, h.pairs⟩⟩

namespace Pull

/-- What `main` and `CRestApi::init` look up. -/
structure Settings where
  daemon : Bool
  netType : Str
  worker : Int32
  listen : Int32
  address : Str
  deriving DecidableEq, Repr

/-- The settings, where `get` gives the value of a key. -/
def Settings.of (get : Str → Str → Str) : Settings where
  daemon := isDaemon (some (get (lit "system") (lit "daemon")))
  netType := get (lit "system") (lit "net_type")
  worker := atoi (get (lit "system") (lit "worker"))
  listen := atoi (get (lit "system") (lit "listen"))
  address := get (lit "mongodb") (lit "address")

/-- `CRestApi::init` with its settings given. -/
def initWith (client : Str → Bool) (s : Settings) (host : Str) : StartAct Unit := do
  askStart .mongocInit
  if s.listen = 0 then do
    askStart (.log .error (lit "listen port unspecified"))
    exitWith 0
  else do
    askStart (.log .info (lit "get mongo address " ++ s.address))
    askStart (.log .info (lit "host: " ++ host ++ lit " register"))
    let registered ← (ServerBiz.hostRegister host s.listen.toInt).subst (MongoAdaptor.hostCall client s.address)
    if registered then pure ()
    else do
      askStart (.log .error (lit "duplicate host register"))
      exitWith 0

/-- `main` with its settings given. -/
def startWith (client : Str → Bool) (paths : Paths) (s : Settings) : StartAct Unit := do
  becomeDaemon s.daemon paths.pidPath
  askStart (.logInit paths.logPath s.daemon)
  askStart (.log .trace (lit "wanghuan log test"))
  let (_, localIp) ← CUtils.getLocalIp s.netType
  if s.worker = 0 then do
    askStart (.printf (lit "worker_num unspecified\n"))
    exitWith 0
  else do
    ServerBiz.init s.worker
    initWith client s localIp

end Pull

section

variable {client : Str → Bool} {paths : Paths} {file : Option Str} {r : IniReader} {res : IniRes} {host s k : Str}
  {doc : List (Str × List (Str × Str))} {ls : List (Str × Eol)}

/-- What `GetStr` gives for a key. -/
def IniReader.text (r : IniReader) (s k : Str) : Str := (r.getStr s k).1

theorem IniReader.text_after (r : IniReader) (look : IniLookup) : (look.after r).text = r.text :=
  funext fun _ => funext fun _ => getStr_after look

theorem Pull.init_eq : CRestApi.init client r host = initWith client (Settings.of r.text) host := by
  have haddress : ((r.getInt (lit "system") (lit "listen")).2.getStr (lit "mongodb") (lit "address")).1 =
      r.text (lit "mongodb") (lit "address") := getStr_after (.getInt _ _)
  simp only [CRestApi.init, IniReader.getStrPointer, haddress]
  rfl

/-- **The start of `pull` with a file is the start with the settings in it.** -/
theorem Pull.startUp_eq (h : IniReader.new.load file = (some res, r)) :
    startUp client paths file = startWith client paths (Settings.of r.text) := by
  have hnet : ((r.getStr (lit "system") (lit "daemon")).2.getStr (lit "system") (lit "net_type")).1 =
      r.text (lit "system") (lit "net_type") := getStr_after (.getStr _ _)
  have hworker : (((r.getStr (lit "system") (lit "daemon")).2.getStr (lit "system") (lit "net_type")).2.getInt
      (lit "system") (lit "worker")).1 = atoi (r.text (lit "system") (lit "worker")) :=
    (getInt_after (.getStr _ _)).trans (getInt_after (.getStr _ _))
  have hrest : (((r.getStr (lit "system") (lit "daemon")).2.getStr (lit "system") (lit "net_type")).2.getInt
      (lit "system") (lit "worker")).2.text = r.text :=
    calc
      _ = ((r.getStr (lit "system") (lit "daemon")).2.getStr (lit "system") (lit "net_type")).2.text :=
        IniReader.text_after _ (.getInt _ _)
      _ = (r.getStr (lit "system") (lit "daemon")).2.text := IniReader.text_after _ (.getStr _ _)
      _ = r.text := IniReader.text_after _ (.getStr _ _)
  simp only [startUp, h, IniReader.getStrPointer, init_eq, hnet, hworker, hrest]
  rfl

theorem settings_printed (hdoc : ∀ c ∈ doc, SectionOk c) (hls : ls.map Prod.fst = docLines [] (doc.map blockOf)) :
    ∃ r, IniReader.new.load (some (fileText ls)) = (some .success, r) ∧
      ∀ s k, cStr s = s → cStr k = k → r.text s k = setting doc s k := by
  have hbs : ∀ b ∈ doc.map blockOf, BlockOk b := List.forall_mem_map.mpr fun c hc => blockOk_blockOf (hdoc c hc)
  refine ⟨_, load_printed (List.forall_mem_nil _) hbs hls, fun s k hs hk => ?_⟩
  have hvalue := cStr_loaded (some (fileText ls)) s k
  rw [value_printed (List.forall_mem_nil _) hbs hls, docValue_doc hdoc] at hvalue
  have hget := @IniReader.getStr_fst (IniReader.new.load (some (fileText ls))).2 s k
  rw [hs, hk, value_printed (List.forall_mem_nil _) hbs hls, docValue_doc hdoc, hvalue,
    load_printed (List.forall_mem_nil _) hbs hls] at hget
  exact hget

/-- **The start of `pull` with a printed file is the start with the settings that have been printed.** -/
theorem Pull.startUp_printed (hdoc : ∀ c ∈ doc, SectionOk c)
    (hls : ls.map Prod.fst = docLines [] (doc.map blockOf)) :
    startUp client paths (some (fileText ls)) = startWith client paths (Settings.of (setting doc)) := by
  obtain ⟨r, hr, htext⟩ := settings_printed hdoc hls
  have hsettings : Settings.of r.text = Settings.of (setting doc) := by
    simp only [Settings.of]
    rw [htext _ _ (by decide) (by decide), htext _ _ (by decide) (by decide), htext _ _ (by decide) (by decide),
      htext _ _ (by decide) (by decide), htext _ _ (by decide) (by decide)]
  rw [startUp_eq hr, hsettings]

end

/-! ### Calls -/

/-- The calls by which a program puts itself into the background, with the pid file `file`, but for its reports. -/
def StartCall.Detaches (file : Str) : StartCall → Prop
  | .sys (.openFile f) => f = file ∨ f = lit "/dev/null"
  | .sys .socket | .sys (.createThread _) => False
  | .sys _ | .getpid | .printf _ | .exit _ => True
  | _ => False

/-- The calls by which the address of an interface is found. -/
def StartCall.Asks (ethInf : Str) : StartCall → Prop
  | .sys .socket | .sys (.close _) => True
  | .ioctl _ ifrName => ifrName = ethInf.take 15
  | _ => False

section

variable {α : Type} {P : StartCall → Prop} {err : Str → StartAct Unit} {file ethInf : Str} {status : Int}

theorem calls_sys {c : SysCall} {f : Except Str Int → StartAct α} (hc : P (.sys c))
    (herror : ∀ e, (f (.error e)).Calls P) (hok : ∀ v, (f (.ok v)).Calls P) : (askStart (.sys c) >>= f).Calls P := by
  refine ⟨hc, fun x => ?_⟩
  cases x with
  | error e => exact herror e
  | ok v => exact hok v

theorem calls_exit (h : P (.exit status)) : (exitWith status : StartAct α).Calls P := ⟨h, nofun⟩

variable (herr : ∀ t, (err t).Calls P)
include herr

theorem calls_fail {p : StartAct α} (hp : p.Calls P) (t : Str) : (err t >>= fun _ => p).Calls P :=
  calls_bind (herr t) fun _ => hp

theorem calls_fail_ret (a : α) (t : Str) : (err t >>= fun _ => (pure a : StartAct α)).Calls P :=
  calls_bind (herr t) fun _ => trivial

theorem calls_getLocalIp (hP : ∀ c : StartCall, c.Asks ethInf → P c) : (getLocalIp err ethInf).Calls P := by
  have hclose (sd a : _) : (askStart (.sys (.close sd)) >>= fun _ => (pure a : StartAct (Int × Str))).Calls P :=
    calls_perform (hP _ trivial) fun _ => trivial
  refine calls_sys (hP _ trivial) (fun _ => calls_fail_ret herr _ _) fun sd => calls_perform (hP _ rfl) fun x => ?_
  cases x with
  | error errno => exact calls_fail herr (hclose sd _) _
  | ok addr => exact hclose sd _

variable (hP : ∀ c : StartCall, c.Detaches file → P c)
include hP

theorem calls_writePid {hasRunned : StartAct Unit} (hrun : hasRunned.Calls P) :
    (writePid err hasRunned file).Calls P := by
  have hexit : (exitWith 0 : StartAct Unit).Calls P := calls_exit (hP _ trivial)
  refine calls_perform (hP _ trivial) fun pid => ?_
  refine calls_sys (hP _ (.inl rfl)) (fun _ => calls_fail herr hexit _) fun fd => ?_
  refine calls_sys (hP _ trivial) (fun _ => calls_fail herr (calls_bind hrun fun _ => hexit) _) fun _ => ?_
  exact calls_sys (hP _ trivial) (fun _ => calls_fail herr hexit _) fun _ => ⟨hP _ trivial, fun _ => trivial⟩

theorem calls_redirect (failed : Int) : (redirect err failed).Calls P := by
  have hfail := calls_fail_ret herr failed
  refine calls_sys (hP _ (.inr rfl)) (fun _ => hfail _) fun fd => ?_
  refine calls_sys (hP _ trivial) (fun _ => hfail _) fun _ => ?_
  refine calls_sys (hP _ trivial) (fun _ => hfail _) fun _ => ?_
  simp only
  split_ifs
  · exact calls_sys (hP _ trivial) (fun _ => hfail _) fun _ => trivial
  · trivial

theorem calls_daemon {write : StartAct Unit} {tell : Int → StartAct Unit} {failed : Int} (hwrite : write.Calls P)
    (htell : ∀ pid, (tell pid).Calls P) : (daemon err write tell failed).Calls P := by
  refine calls_sys (hP _ trivial) (fun _ => calls_fail_ret herr _ _) fun ppid => ?_
  simp only
  split_ifs
  · exact calls_exit (hP _ trivial)
  · refine calls_bind hwrite fun _ => calls_perform (hP _ trivial) fun pid => calls_bind (htell pid) fun _ => ?_
    exact calls_sys (hP _ trivial) (fun _ => calls_fail_ret herr _ _) fun _ => calls_redirect herr hP failed

end

theorem Pull.calls_becomeDaemon {P : StartCall → Prop} {on : Bool} {pidPath : Str} (hlog : ∀ lvl t, P (.log lvl t))
    (hP : on = true → ∀ c : StartCall, c.Detaches pidPath → P c) : (becomeDaemon on pidPath).Calls P := by
  cases on with
  | false => exact trivial
  | true =>
    have hP' := hP rfl
    have herr (t : Str) : (CUtils.logError t).Calls P := ⟨hlog _ _, fun _ => trivial⟩
    have hwrite : (CUtils.writePidToFile pidPath).Calls P := calls_writePid herr hP' (herr _)
    refine calls_bind (calls_daemon herr hP' hwrite fun _ => trivial) fun ret => ?_
    split_ifs
    · exact calls_perform (hlog _ _) fun _ => calls_exit (hP' _ trivial)
    · trivial

/-- The calls that both programs make. -/
def StartCall.Common (on : Bool) (pidPath netType : Str) : StartCall → Prop
  | .sys .socket | .sys (.close _) => True
  | .sys c => on = true ∧ (StartCall.sys c).Detaches pidPath
  | .ioctl _ ifrName => ifrName = netType.take 15
  | .getpid | .printf _ | .mongocInit | .exit _ | .abort => True
  | _ => False

section

variable {on : Bool} {pidPath netType : Str} {c : StartCall}

theorem common_of_detaches (hon : on = true) (hc : c.Detaches pidPath) : c.Common on pidPath netType := by
  cases c with
  | sys c =>
    cases c with
    | socket | close => trivial
    | _ => exact ⟨hon, hc⟩
  | getpid | printf | exit => trivial
  | _ => exact hc.elim

theorem common_of_asks (h : c.Asks netType) : c.Common on pidPath netType := by
  cases c with
  | sys c =>
    cases c with
    | socket | close => trivial
    | _ => exact h.elim
  | ioctl => exact h
  | _ => exact h.elim

end

section

variable {P : StartCall → Prop} {client : Str → Bool} {mdb : Str} (habort : P .abort)
include habort

theorem calls_connect : (MongoAdaptor.connect client mdb).Calls P := by
  unfold MongoAdaptor.connect
  split_ifs
  · trivial
  · exact ⟨habort, nofun⟩

theorem calls_hostCall {c : HostCall} (hc : P (.host mdb c)) : (MongoAdaptor.hostCall client mdb c).Calls P := by
  cases c with
  | setHost host port => exact ⟨hc, fun _ => trivial⟩
  | _ => exact calls_bind (calls_connect habort) fun _ => ⟨hc, fun _ => trivial⟩

theorem calls_probeCall {c : ProbeCall} (hc : P (.probe c)) : (MongoAdaptor.probeCall client c).Calls P := by
  cases c with
  | store mdb c => exact calls_bind (calls_connect habort) fun _ => ⟨hc, fun _ => trivial⟩
  | _ => exact ⟨hc, fun _ => trivial⟩

end

/-- The calls that only `pull` makes. -/
def Pull.Own (paths : Paths) (s : Settings) : StartCall → Prop
  | .sys (.createThread i) => (i : Int) < s.worker.toInt
  | .logInit config daemonized => config = paths.logPath ∧ daemonized = s.daemon
  | .host mdb (.insert d) => mdb = s.address ∧ d.port = s.listen.toInt
  | .host mdb (.findOne _) => mdb = s.address
  | .host _ (.setHost _ port) => port = s.listen.toInt
  | .log _ _ => True
  | _ => False

/-- The calls that a start of `pull` makes under its settings. -/
def Pull.Permitted (paths : Paths) (s : Settings) (c : StartCall) : Prop :=
  c.Common s.daemon paths.pidPath s.netType ∨ Own paths s c

namespace Pull

section

variable {client : Str → Bool} {paths : Paths} {s : Settings} {c : StartCall}

theorem calls_logError (t : Str) : (CUtils.logError t).Calls (Permitted paths s) := ⟨.inr trivial, fun _ => trivial⟩

theorem calls_exitWith {α : Type} (status : Int) : (exitWith status : StartAct α).Calls (Permitted paths s) :=
  calls_exit (.inl trivial)

theorem calls_createWorkerThread (n i : Nat) (h : i + n = s.worker.toInt.toNat) :
    (ServerBiz.createWorkerThread n i).Calls (Permitted paths s) := by
  induction n generalizing i with
  | zero => exact trivial
  | succ n ih =>
    have hlt : (i : Int) < s.worker.toInt := by omega
    exact calls_sys (.inr hlt) (fun _ => calls_fail calls_logError (calls_exitWith _) _) fun _ => ih (i + 1) (by omega)

theorem calls_initWith (host : Str) : (initWith client s host).Calls (Permitted paths s) := by
  refine calls_perform (.inl trivial) fun _ => ?_
  split_ifs with hport
  · exact calls_perform (.inr trivial) fun _ => calls_exitWith _
  · refine calls_perform (.inr trivial) fun _ => calls_perform (.inr trivial) fun _ => ?_
    refine calls_bind ?_ fun registered => ?_
    · refine calls_subst (P := fun c => Permitted paths s (.host s.address c))
        (fun c => calls_hostCall (.inl trivial)) ?_
      rw [ServerBiz.hostRegister_eq]
      refine ⟨.inr rfl, fun (found : Option HostDoc) => ?_⟩
      cases found with
      | some d => trivial
      | none => exact ⟨.inr rfl, fun _ => ⟨.inr ⟨rfl, rfl⟩, fun (ok : Bool) => by cases ok <;> trivial⟩⟩
    · split_ifs
      · trivial
      · exact calls_perform (.inr trivial) fun _ => calls_exitWith _

/-- **A start makes only calls that its settings ask for**, whatever the calls come to. -/
theorem calls_startWith (client : Str → Bool) (paths : Paths) (s : Settings) :
    (startWith client paths s).Calls (Permitted paths s) := by
  refine calls_bind (calls_becomeDaemon (fun _ _ => .inr trivial) fun hon _ hc => .inl (common_of_detaches hon hc)) ?_
  refine fun _ => calls_perform (.inr ⟨rfl, rfl⟩) fun _ => calls_perform (.inr trivial) fun _ => ?_
  refine calls_bind (calls_perform (.inr trivial) fun _ => calls_getLocalIp calls_logError fun _ hc => ?_) fun ip => ?_
  · exact .inl (common_of_asks hc)
  simp only
  split_ifs
  · exact calls_perform (.inl trivial) fun _ => calls_exitWith _
  · exact calls_bind (calls_createWorkerThread _ 0 (Nat.zero_add _)) fun _ => calls_initWith ip.2

end

/-! ### Traces -/

/-- What a start brings about. -/
inductive Effect where
  | worker (tid : Nat)
  | findOne (mdb host : Str) (found : Bool)
  | insert (mdb : Str) (d : HostDoc) (ok : Bool)
  deriving DecidableEq, Repr

def effect : ((c : StartCall) × StartReply c) → Option Effect
  | ⟨.sys (.createThread i), .ok _⟩ => some (.worker i)
  | ⟨.host mdb (.findOne host), found⟩ => some (.findOne mdb host (Option.isSome found))
  | ⟨.host mdb (.insert d), ok⟩ => some (.insert mdb d ok)
  | _ => none

/-- The address that has been found, and the interface whose address it is. -/
def found : ((c : StartCall) × StartReply c) → Option (Str × Str)
  | ⟨.ioctl _ ifrName, .ok addr⟩ => some (ifrName, addr)
  | _ => none

/-- `ip` is the address of the interface, or empty if none has been found. -/
def AddressOf (netType : Str) (l : List ((c : StartCall) × StartReply c)) (ip : Str) : Prop :=
  (∃ addr, l.filterMap found = [(netType.take 15, addr)] ∧ ip = snprintf 16 addr) ∨ l.filterMap found = [] ∧ ip = []

/-- A call that brings nothing about and finds nothing. -/
def Quiet : StartCall → Prop
  | .sys (.createThread _) | .ioctl _ _ | .host _ _ => False
  | _ => True

section

variable {client : Str → Bool} {s : Settings} {l : List ((c : StartCall) × StartReply c)} {α : Type} {p : StartAct α}
  {a : α}

theorem quiet_trace (hp : p.Calls Quiet) (h : Trace p l a) : l.filterMap effect = [] ∧ l.filterMap found = [] := by
  have hquiet := forall_of_trace hp h
  rw [List.filterMap_eq_nil_iff, List.filterMap_eq_nil_iff]
  refine ⟨fun x hx => ?_, fun x hx => ?_⟩
  all_goals
    obtain ⟨c, y⟩ := x
    have hc : Quiet c := hquiet _ hx
    cases c with
    | sys c =>
      cases c with
      | createThread => exact hc.elim
      | _ => rfl
    | ioctl | host => exact hc.elim
    | _ => rfl

theorem quiet_of_detaches {file : Str} {c : StartCall} (hc : c.Detaches file) : Quiet c := by
  cases c with
  | sys c =>
    cases c with
    | createThread => exact hc.elim
    | _ => trivial
  | ioctl | host => exact hc.elim
  | _ => trivial

theorem trace_getLocalIp {netType : Str} {r : Int × Str} (h : Trace (CUtils.getLocalIp netType) l r) :
    l.filterMap effect = [] ∧ AddressOf netType l r.2 := by
  obtain ⟨_, l₁, rfl, h₁⟩ := trace_call.mp h
  obtain ⟨sd, l₂, rfl, h₂⟩ := trace_call.mp h₁
  cases sd with
  | error e =>
    obtain ⟨_, l₃, rfl, h₃⟩ := trace_call.mp h₂
    obtain ⟨rfl, rfl⟩ := trace_ret.mp h₃
    exact ⟨rfl, .inr ⟨rfl, rfl⟩⟩
  | ok sd =>
    obtain ⟨addr, l₃, rfl, h₃⟩ := trace_call.mp h₂
    cases addr with
    | error e =>
      obtain ⟨_, l₄, rfl, h₄⟩ := trace_call.mp h₃
      obtain ⟨_, l₅, rfl, h₅⟩ := trace_call.mp h₄
      obtain ⟨rfl, rfl⟩ := trace_ret.mp h₅
      exact ⟨rfl, .inr ⟨rfl, rfl⟩⟩
    | ok addr =>
      obtain ⟨_, l₄, rfl, h₄⟩ := trace_call.mp h₃
      obtain ⟨rfl, rfl⟩ := trace_ret.mp h₄
      exact ⟨rfl, .inl ⟨addr, rfl, rfl⟩⟩

theorem not_trace_exit {status : Int} : ¬ Trace (exitWith status : StartAct α) l a := by
  intro h
  obtain ⟨x, -⟩ := trace_call.mp h
  exact x.elim

theorem trace_createWorkerThread {n i : Nat} (h : Trace (ServerBiz.createWorkerThread n i) l ()) :
    l.filterMap effect = (List.range' i n).map .worker ∧ l.filterMap found = [] := by
  induction n generalizing i l with
  | zero =>
    obtain ⟨rfl, -⟩ := trace_ret.mp h
    exact ⟨rfl, rfl⟩
  | succ n ih =>
    obtain ⟨x, l₁, rfl, h₁⟩ := trace_call.mp h
    cases x with
    | error e =>
      obtain ⟨_, l₂, rfl, h₂⟩ := trace_call.mp h₁
      exact absurd h₂ not_trace_exit
    | ok v =>
      obtain ⟨heffect, hfound⟩ := ih h₁
      exact ⟨congrArg (Effect.worker i :: ·) heffect, hfound⟩

theorem subst_hostRegister {address host : Str} {port : Int} (hclient : client (cStr address) = true) :
    (ServerBiz.hostRegister host port).subst (MongoAdaptor.hostCall client address) =
      Prog.call (.host address (.findOne (cStr host))) fun found => if Option.isSome found then .ret false
        else .call (.host address (.setHost host port)) fun _ =>
          .call (.host address (.insert ⟨cStr host, port⟩)) fun _ =>
          .ret true := by
  have hconnect : MongoAdaptor.connect client address = .ret () := if_pos hclient
  have hinsert : (ServerBiz.registerInsert host port).subst (MongoAdaptor.hostCall client address) =
      .call (.host address (.insert ⟨cStr host, port⟩)) fun _ => .ret true := by
    rw [ServerBiz.registerInsert, subst, MongoAdaptor.hostCall, hconnect]
    · rfl
    · intro host' port' h
      cases h
  rw [ServerBiz.hostRegister_eq, subst, MongoAdaptor.hostCall, hconnect]
  · refine congrArg (Prog.call _) (funext fun (found : Option HostDoc) => ?_)
    cases found with
    | some d => rfl
    | none =>
      rw [← hinsert]
      exact congrArg (subst _) (ServerBiz.registerAbsent_eq host port)
  · intro host' port' h
    cases h

theorem client_of_trace {address host : Str} {port : Int} {f : Bool → StartAct Unit}
    (h : Trace ((ServerBiz.hostRegister host port).subst (MongoAdaptor.hostCall client address) >>= f) l ()) :
    client (cStr address) = true := by
  by_contra hclient
  simp only [ServerBiz.hostRegister_eq, subst, MongoAdaptor.hostCall, MongoAdaptor.connect, if_neg hclient] at h
  obtain ⟨x, -⟩ := trace_call.mp h
  exact x.elim

theorem trace_initWith {host : Str} (h : Trace (initWith client s host) l ()) :
    s.listen ≠ 0 ∧ l.filterMap found = [] ∧ ∃ ok, l.filterMap effect =
      [.findOne s.address (cStr host) false, .insert s.address ⟨cStr host, s.listen.toInt⟩ ok] := by
  obtain ⟨_, l₁, rfl, h₁⟩ := trace_perform.mp h
  split_ifs at h₁ with hport
  · obtain ⟨_, l₂, rfl, h₂⟩ := trace_call.mp h₁
    exact absurd h₂ not_trace_exit
  obtain ⟨_, l₂, rfl, h₂⟩ := trace_perform.mp h₁
  obtain ⟨_, l₃, rfl, h₃⟩ := trace_perform.mp h₂
  have hclient : client (cStr s.address) = true := client_of_trace h₃
  rw [subst_hostRegister hclient] at h₃
  obtain ⟨(found : Option HostDoc), l₄, rfl, h₄⟩ := trace_call.mp h₃
  cases found with
  | some d =>
    obtain ⟨_, l₅, rfl, h₅⟩ := trace_call.mp h₄
    exact absurd h₅ not_trace_exit
  | none =>
    obtain ⟨_, l₅, rfl, h₅⟩ := trace_call.mp h₄
    obtain ⟨ok, l₆, rfl, h₆⟩ := trace_call.mp h₅
    obtain ⟨rfl, -⟩ := trace_ret.mp h₆
    exact ⟨hport, rfl, ok, rfl⟩

/-- **What a start that comes to its end has brought about.** -/
theorem trace_startWith {paths : Paths} (h : Trace (startWith client paths s) l ()) :
    s.worker ≠ 0 ∧ s.listen ≠ 0 ∧ ∃ ip ok, AddressOf s.netType l ip ∧
      l.filterMap effect = (List.range s.worker.toInt.toNat).map .worker ++
        [.findOne s.address (cStr ip) false, .insert s.address ⟨cStr ip, s.listen.toInt⟩ ok] := by
  obtain ⟨l₁, l₂, _, rfl, hdaemon, h₂⟩ := trace_bind.mp h
  obtain ⟨_, l₃, rfl, h₃⟩ := trace_perform.mp h₂
  obtain ⟨_, l₄, rfl, h₄⟩ := trace_perform.mp h₃
  obtain ⟨l₅, l₆, ip, rfl, hip, h₆⟩ := (trace_bind (p := CUtils.getLocalIp s.netType)).mp h₄
  simp only at h₆
  split_ifs at h₆ with hworker
  · obtain ⟨_, l₇, rfl, h₇⟩ := trace_call.mp h₆
    exact absurd h₇ not_trace_exit
  obtain ⟨l₇, l₈, _, rfl, hinit, hlast⟩ := trace_bind.mp h₆
  have hquiet := quiet_trace (calls_becomeDaemon (fun _ _ => trivial) fun _ _ => quiet_of_detaches) hdaemon
  obtain ⟨heffect, haddress⟩ := trace_getLocalIp hip
  obtain ⟨hthreads, hnone⟩ := trace_createWorkerThread hinit
  obtain ⟨hport, hnone', ok, hhost⟩ := trace_initWith hlast
  rw [← List.range_eq_range'] at hthreads
  refine ⟨hworker, hport, ip.2, ok, ?_, ?_⟩
  · have hfound : (l₁ ++ ⟨.logInit paths.logPath s.daemon, ()⟩ :: ⟨.log .trace (lit "wanghuan log test"), ()⟩ ::
        (l₅ ++ (l₇ ++ l₈))).filterMap found = l₅.filterMap found := by
      rw [List.filterMap_append, hquiet.2]
      show (l₅ ++ (l₇ ++ l₈)).filterMap found = _
      rw [List.filterMap_append, List.filterMap_append, hnone, hnone', List.append_nil, List.append_nil]
    rw [AddressOf] at haddress ⊢
    rw [hfound]
    exact haddress
  · rw [List.filterMap_append, hquiet.1]
    show (l₅ ++ (l₇ ++ l₈)).filterMap effect = _
    rw [List.filterMap_append, List.filterMap_append, heffect, hthreads, hhost]
    rfl

end

end Pull

/-! ### From the file to the calls -/

/-- **`pull` starts as it is configured.** Whatever has been printed, and whatever its calls come to, a start of
`pull` makes only calls that the settings ask for; and if it comes to its end it has created the workers in order, has
been given no record of the address of the interface by the database, and has made one insert, of the address with the
port. -/
theorem started_as_configured {client : Str → Bool} {paths : Paths} {doc : List (Str × List (Str × Str))}
    {ls : List (Str × Eol)} {s : Pull.Settings} (hdoc : ∀ c ∈ doc, SectionOk c)
    (hls : ls.map Prod.fst = docLines [] (doc.map blockOf)) (hs : s = Pull.Settings.of (setting doc)) :
    (Pull.startUp client paths (some (fileText ls))).Calls (Pull.Permitted paths s) ∧
      ∀ l, Trace (Pull.startUp client paths (some (fileText ls))) l () → s.worker ≠ 0 ∧ s.listen ≠ 0 ∧
        ∃ ip ok, Pull.AddressOf s.netType l ip ∧
          l.filterMap Pull.effect = (List.range s.worker.toInt.toNat).map .worker ++
            [.findOne s.address (cStr ip) false, .insert s.address ⟨cStr ip, s.listen.toInt⟩ ok] := by
  rw [Pull.startUp_printed hdoc hls, hs]
  exact ⟨Pull.calls_startWith client paths _, fun l h => Pull.trace_startWith h⟩

/-- A configuration with two workers. -/
def twoWorkers : List (Str × List (Str × Str)) :=
  [(lit "mongodb", [(lit "address", lit "mongodb://10.0.0.1:27017")]),
    (lit "system", [(lit "listen", lit "8080"), (lit "worker", lit "2"), (lit "net_type", lit "bond0")])]

def twoWorkersLines : List (Str × Eol) :=
  [(lit "[mongodb]", .lf), (lit "address=mongodb://10.0.0.1:27017", .crlf), (lit "[system]", .lf),
    (lit "listen=8080", .lf), (lit "worker=2", .lf), (lit "net_type=bond0", .crlf)]

theorem sectionOk_twoWorkers : ∀ c ∈ twoWorkers, SectionOk c := by decide +kernel

def twoWorkersSettings : Pull.Settings := ⟨false, lit "bond0", 2, 8080, lit "mongodb://10.0.0.1:27017"⟩

/-- The calls of a start with it. -/
def twoWorkersStart : List ((c : StartCall) × StartReply c) :=
  [⟨.logInit [] false, ()⟩, ⟨.log .trace (lit "wanghuan log test"), ()⟩, ⟨.log .info (lit "eth_inf: bond0"), ()⟩,
    ⟨.sys .socket, .ok 3⟩, ⟨.ioctl 3 (lit "bond0"), .ok (lit "10.0.0.7")⟩, ⟨.sys (.close 3), .ok 0⟩,
    ⟨.sys (.createThread 0), .ok 0⟩, ⟨.sys (.createThread 1), .ok 0⟩, ⟨.mongocInit, ()⟩,
    ⟨.log .info (lit "get mongo address mongodb://10.0.0.1:27017"), ()⟩,
    ⟨.log .info (lit "host: 10.0.0.7 register"), ()⟩,
    ⟨.host (lit "mongodb://10.0.0.1:27017") (.findOne (lit "10.0.0.7")), none⟩,
    ⟨.host (lit "mongodb://10.0.0.1:27017") (.setHost (lit "10.0.0.7") 8080), ()⟩,
    ⟨.host (lit "mongodb://10.0.0.1:27017") (.insert ⟨lit "10.0.0.7", 8080⟩), true⟩]

theorem trace_twoWorkers :
    Trace (Pull.startUp namesHost ⟨[], [], [], []⟩ (some (fileText twoWorkersLines))) twoWorkersStart () := by
  have hs : Pull.Settings.of (setting twoWorkers) = twoWorkersSettings := by decide +kernel
  rw [Pull.startUp_printed sectionOk_twoWorkers (by decide), hs]
  repeat apply Trace.call
  exact .ret _

theorem started_with_two_workers :
    (Pull.startUp namesHost ⟨[], [], [], []⟩ (some (fileText twoWorkersLines))).Calls
      (Pull.Permitted ⟨[], [], [], []⟩ twoWorkersSettings) ∧
    ∃ ip ok, Pull.AddressOf (lit "bond0") twoWorkersStart ip ∧
      twoWorkersStart.filterMap Pull.effect = (List.range 2).map .worker ++
        [.findOne (lit "mongodb://10.0.0.1:27017") (cStr ip) false,
          .insert (lit "mongodb://10.0.0.1:27017") ⟨cStr ip, 8080⟩ ok] := by
  obtain ⟨hcalls, htraces⟩ := @started_as_configured namesHost ⟨[], [], [], []⟩ twoWorkers twoWorkersLines
    twoWorkersSettings sectionOk_twoWorkers (by decide) (by decide +kernel)
  exact ⟨hcalls, (htraces twoWorkersStart trace_twoWorkers).2.2⟩

end PullStream
