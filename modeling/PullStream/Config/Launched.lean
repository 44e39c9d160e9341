import PullStream.Base.Tree
import PullStream.Config.Paths
import PullStream.Config.Started
/-!
# Does `pulld` watch the instance that it launches?

`pulld` makes two paths of the setting `child/bin_dir`: that of the command it runs, and that of the pid file it tries
to lock. The `pull` that is run makes the path of its pid file of its `argv[0]`. The two pid files are the same in
every tree of directories in which the command is found exactly if the setting ends with a slash, or is empty
(`watches_what_it_launches`). The model of a machine, in which both programs lock the same file, is that of such a
setting.
-/

namespace PullStream

open Prog Sections FileTree

/-! ### What `pulld` calls -/

/-- `sbin/pull` in the directory. -/
def pullBin (binDir : Str) : Str := binDir ++ lit "sbin/pull"

/-- The pid file that `pulld` watches. -/
def watchedPid (binDir : Str) : Str := binDir ++ lit "log/pid"

/-- The pid file of a `pull` that has been run as `pullBin`. -/
def launchedPid (binDir : Str) : Str := binDir ++ lit "sbin/../log/pid"

namespace Pulld

/-- What `main` looks up. -/
structure Settings where
  daemon : Bool
  binDir : Str
  netType : Str
  address : Str
  deriving DecidableEq, Repr

def Settings.of (get : Str → Str → Str) : Settings where
  daemon := isDaemon (some (get (lit "system") (lit "daemon")))
  binDir := get (lit "child") (lit "bin_dir")
  netType := get (lit "system") (lit "net_type")
  address := get (lit "mongodb") (lit "address")

/-- `main` with its settings given. -/
def startWith (client : Str → Bool) (paths : Paths) (s : Settings) (rounds : Nat) : StartAct Unit :=
  if s.netType = [] then do
    askStart (.printf (lit "net_type unspacified\n"))
    exitWith 0
  else if s.address = [] then undefined
  else
    work client paths s.daemon (snprintf 1024 (pullBin s.binDir)) (snprintf 1024 (watchedPid s.binDir))
      s.netType s.address
      rounds

/-- The calls that only `pulld` makes. It uses a null pointer if the address is empty. -/
def Own (s : Settings) : StartCall → Prop
  | .probe (.openPid file) => file = watchedPid s.binDir
  | .probe (.store _ (.insert _)) => False
  | .probe (.store mdb _) => mdb = s.address
  | .probe _ | .psyslog _ | .sleep _ => True
  | .system command => command = pullBin s.binDir
  | .undefined => s.address = []
  | _ => False

/-- The calls that `pulld` makes under its settings. -/
def Permitted (paths : Paths) (s : Settings) (c : StartCall) : Prop :=
  c.Common s.daemon paths.pidPath s.netType ∨ Own s c

section

variable {client : Str → Bool} {paths : Paths} {file : Option Str} {r : IniReader} {res : IniRes} {rounds : Nat}
  {s : Settings}
  {doc : List (Str × List (Str × Str))} {ls : List (Str × Eol)}

/-- **The start of `pulld` with a file is the start with the settings in it.** -/
theorem startUp_eq (h : IniReader.new.load file = (some res, r)) :
    startUp client paths file rounds = startWith client paths (Settings.of r.text) rounds := by
  have hbin : ((r.getStr (lit "system") (lit "daemon")).2.getStr (lit "child") (lit "bin_dir")).1 =
      r.text (lit "child") (lit "bin_dir") := getStr_after (.getStr _ _)
  have hnet : ((((r.getStr (lit "system") (lit "daemon")).2.getStr (lit "child") (lit "bin_dir")).2).getStr
      (lit "system") (lit "net_type")).1 = r.text (lit "system") (lit "net_type") :=
    (getStr_after (.getStr _ _)).trans (getStr_after (.getStr _ _))
  have haddr : ((((r.getStr (lit "system") (lit "daemon")).2.getStr (lit "child") (lit "bin_dir")).2.getStr
      (lit "system") (lit "net_type")).2.getStr (lit "mongodb") (lit "address")).1 =
      r.text (lit "mongodb") (lit "address") :=
    (getStr_after (.getStr _ _)).trans ((getStr_after (.getStr _ _)).trans (getStr_after (.getStr _ _)))
  simp only [startUp, h, IniReader.getStrPointer, hbin, hnet, haddr]
  rfl

theorem startUp_printed (hdoc : ∀ c ∈ doc, SectionOk c) (hls : ls.map Prod.fst = docLines [] (doc.map blockOf)) :
    startUp client paths (some (fileText ls)) rounds = startWith client paths (Settings.of (setting doc)) rounds := by
  obtain ⟨r, hr, htext⟩ := settings_printed hdoc hls
  have hsettings : Settings.of r.text = Settings.of (setting doc) := by
    simp only [Settings.of]
    rw [htext _ _ (by decide) (by decide), htext _ _ (by decide) (by decide), htext _ _ (by decide) (by decide),
      htext _ _ (by decide) (by decide)]
  rw [startUp_eq hr, hsettings]

theorem calls_becomeDaemon : (becomeDaemon s.daemon paths.pidPath).Calls (Permitted paths s) := by
  unfold becomeDaemon
  split_ifs with hon
  · have hP (c : StartCall) (hc : c.Detaches paths.pidPath) : Permitted paths s c := .inl (common_of_detaches hon hc)
    have hprt (lvl : LogType) (t : Str) : (prt lvl t).Calls (Permitted paths s) := ⟨.inr trivial, fun _ => trivial⟩
    have hwrite : (writePidToFile paths.pidPath).Calls (Permitted paths s) :=
      calls_writePid (hprt .crit) hP ⟨.inl trivial, fun _ => trivial⟩
    refine calls_bind (calls_daemon (hprt .crit) hP hwrite fun _ => hprt _ _) fun ret => ?_
    split_ifs
    · exact calls_bind (hprt _ _) fun _ => trivial
    · trivial
  · trivial

theorem calls_prt (lvl : LogType) (text : Str) :
    (askProbe (.prt lvl text)).Calls fun c => Permitted paths s (.probe c) := ⟨.inr trivial, fun _ => trivial⟩

theorem calls_probe {host : Str} (hclean : cStr (watchedPid s.binDir) = watchedPid s.binDir) :
    (Probe.checkProcessAlive (watchedPid s.binDir) host s.address).Calls
      fun c => Permitted paths s (.probe c) := by
  have hremove : (Probe.removeHost host s.address).Calls fun c => Permitted paths s (.probe c) := by
    refine calls_bind (calls_prt _ _) fun _ => ⟨.inr rfl, fun (removed : Bool) => ?_⟩
    cases removed <;> trivial
  have hexist : (Probe.isHostExist host s.address).Calls fun c => Permitted paths s (.probe c) := by
    have hquery : (Probe.ofHost s.address (isHostExist host)).Calls fun c => Permitted paths s (.probe c) :=
      ⟨.inr rfl, fun (found : Option HostDoc) => by cases found <;> trivial⟩
    refine calls_bind (calls_prt _ _) fun _ => calls_bind hquery fun found => ?_
    cases found <;> exact calls_bind (calls_prt _ _) fun _ => trivial
  have hbury : (Probe.bury host s.address).Calls fun c => Permitted paths s (.probe c) := by
    refine calls_bind (calls_prt _ _) fun _ => calls_bind hexist fun exist => ?_
    cases exist with
    | false => trivial
    | true => exact calls_bind hremove fun _ => trivial
  refine calls_perform (.inr hclean) fun opened => ?_
  cases opened with
  | error e => exact calls_bind (calls_prt _ _) fun _ => ⟨.inr trivial, fun (x : Empty) => x.elim⟩
  | ok fd =>
    refine calls_perform (.inr trivial) fun ret => calls_perform (.inr trivial) fun _ => ?_
    split_ifs
    · exact calls_perform (.inr trivial) fun _ => trivial
    · refine calls_perform (.inr trivial) fun _ => calls_bind hbury fun _ => ?_
      exact calls_perform (.inr trivial) fun _ => trivial

theorem calls_watch {host : Str} (hclean : cStr (watchedPid s.binDir) = watchedPid s.binDir) (n : Nat) :
    (watch client (pullBin s.binDir) (watchedPid s.binDir) host s.address n).Calls (Permitted paths s) := by
  induction n with
  | zero => trivial
  | succ n ih =>
    refine calls_bind (calls_subst (fun c => calls_probeCall (.inl trivial)) (calls_probe hclean)) fun alive => ?_
    split_ifs
    · exact calls_perform (.inr trivial) fun _ => ih
    · refine calls_perform (.inr trivial) fun _ => calls_perform (.inr rfl) fun _ => ?_
      exact calls_perform (.inr trivial) fun _ => ih

theorem calls_startWith (hclean : cStr (watchedPid s.binDir) = watchedPid s.binDir) (hlen : s.binDir.length ≤ 1014) :
    (startWith client paths s rounds).Calls (Permitted paths s) := by
  have hbin : snprintf 1024 (pullBin s.binDir) = pullBin s.binDir := by
    apply List.take_of_length_le
    rw [pullBin, List.length_append, show (lit "sbin/pull").length = 9 by decide]
    omega
  have hpid : snprintf 1024 (watchedPid s.binDir) = watchedPid s.binDir := by
    apply List.take_of_length_le
    rw [watchedPid, List.length_append, show (lit "log/pid").length = 7 by decide]
    omega
  unfold startWith
  split_ifs with hnet haddr
  · exact calls_perform (.inl trivial) fun _ => calls_exit (.inl trivial)
  · exact ⟨.inr haddr, fun (x : Empty) => x.elim⟩
  · rw [hbin, hpid]
    refine calls_perform (.inr trivial) fun _ => calls_perform (.inr trivial) fun _ => ?_
    refine calls_perform (.inr trivial) fun _ => calls_perform (.inr trivial) fun _ => ?_
    refine calls_bind calls_becomeDaemon fun on => ?_
    split_ifs
    · have hprintf (t : Str) : (askStart (.printf t)).Calls (Permitted paths s) := ⟨.inl trivial, fun _ => trivial⟩
      refine calls_bind (calls_getLocalIp hprintf fun _ hc => .inl (common_of_asks hc)) fun ip => ?_
      exact calls_watch hclean rounds
    · trivial

end

end Pulld

/-! ### The instance that is launched -/

def dot : UInt8 := 46

/-- The program locks no other file than this one. -/
def StartCall.LocksOnly (file : Str) : StartCall → Prop
  | .sys (.openFile f) => f = file ∨ f = lit "/dev/null"
  | _ => True

section

variable {client : Str → Bool} {paths : Paths} {b s k : Str} {doc : List (Str × List (Str × Str))}
  {ls : List (Str × Eol)} {rounds : Nat}

theorem cStr_clean_append (hb : clean b = true) (hs : cStr s = s) : cStr (b ++ s) = b ++ s := by
  rw [cStr, List.takeWhile_append_of_pos fun x hx => decide_eq_true (clean_iff.mp hb x hx).2.2.2.2]
  exact congrArg (b ++ ·) hs

theorem clean_setting (hdoc : ∀ c ∈ doc, SectionOk c) (s k : Str) : clean (setting doc s k) = true := by
  rw [setting]
  cases hs : lastOf doc s with
  | none => rfl
  | some ps =>
    rw [Option.bind_some]
    cases hk : lastOf ps k with
    | none => rfl
    | some v => exact ((hdoc _ (mem_of_lastOf hs)).pairs _ (mem_of_lastOf hk)).value

theorem dirOf_pullBin (hb : clean b = true) : DirOf (pullBin b) (b ++ lit "sbin") := by
  refine ⟨lit "pull", ?_, by decide⟩
  rw [pullBin, cStr_clean_append hb (by decide), List.append_assoc]
  exact congrArg (b ++ ·) (by decide)

theorem paths_pullBin (hb : clean b = true) (hlen : b.length ≤ 236) :
    ∃ p, Pull.paths (pullBin b) = .ret p ∧ p.pidPath = launchedPid b := by
  have hdir := dirOf_pullBin hb
  have hlen' : (b ++ lit "sbin").length ≤ 240 := by
    rw [List.length_append, show (lit "sbin").length = 4 by decide]
    omega
  have hbuf := cStr_strncpy hdir (Nat.le_trans hlen' (by decide))
  refine ⟨.of (strncpy zeroed (pullBin b) (b ++ lit "sbin").length) (lit "../conf"), ?_, ?_⟩
  · rw [Pull.paths, CUtils.getCurPath_short hdir (Nat.le_trans hlen' (by decide))]
    rfl
  · have hexact := @exact_of_le _ _ _ (lit "../conf") hdir hbuf hlen'
    rw [hexact.2.2, show (Paths.of _ (lit "../conf")).sbinPath = _ from hbuf, List.append_assoc]
    exact congrArg (b ++ ·) (by decide)

theorem locksOnly_of_permitted {s : Pull.Settings} {c : StartCall} (h : Pull.Permitted paths s c) :
    c.LocksOnly paths.pidPath := by
  cases c with
  | sys c =>
    cases c with
    | openFile f =>
      rcases h with h | h
      · exact h.2
      · exact h.elim
    | _ => trivial
  | _ => trivial

/-- **An instance that is run as `sbin/pull` of a directory locks a file of that name.** -/
theorem calls_pullBin (hb : clean b = true) (hlen : b.length ≤ 236) (files : Str → Option Str) :
    (Pull.main client (pullBin b) files).Calls (StartCall.LocksOnly (launchedPid b)) := by
  obtain ⟨p, hp, hpid⟩ := paths_pullBin hb hlen
  rw [Pull.main, hp, Prog.ret_bind, ← hpid]
  rcases hload : IniReader.new.load (files p.confPath) with ⟨res, r⟩
  cases res with
  | none =>
    rw [Pull.startUp, hload]
    exact ⟨trivial, fun (x : Empty) => x.elim⟩
  | some res =>
    rw [Pull.startUp_eq hload]
    exact (Pull.calls_startWith client p _).mono fun _ => locksOnly_of_permitted

theorem locate_pid_iff (b : Str) : (∀ (N : Type) (t : Tree UInt8 N) (cwd : N),
    (t.enter slash dot cwd (b ++ lit "sbin")).isSome →
      t.locate slash dot cwd (launchedPid b) = t.locate slash dot cwd (watchedPid b)) ↔ Closed slash b := by
  have hlaunched : launchedPid b = upPath slash dot b (lit "sbin") (lit "log" ++ slash :: lit "pid") := by
    rw [launchedPid, upPath, List.append_assoc]
    exact congrArg (b ++ ·) (by decide)
  have hwatched : watchedPid b = b ++ (lit "log" ++ slash :: lit "pid") := congrArg (b ++ ·) (by decide)
  rw [hlaunched, hwatched]
  refine locate_up_iff (by decide) ⟨by decide, ?_⟩ ⟨by decide, ?_⟩ (by decide)
  · exact ⟨115, by decide, by decide⟩
  · exact ⟨108, by decide, by decide⟩

/-- **`pulld` watches the pid file of what it launches exactly if** `bin_dir` ends with a slash or is empty: it opens
and runs what its settings ask for and nothing else, the instance locks no file but its own pid file, and the two are
the same file wherever the command is. -/
theorem watches_what_it_launches {s : Pulld.Settings} (hdoc : ∀ c ∈ doc, SectionOk c)
    (hls : ls.map Prod.fst = docLines [] (doc.map blockOf)) (hs : s = Pulld.Settings.of (setting doc))
    (hlen : s.binDir.length ≤ 236) :
    (Pulld.startUp client paths (some (fileText ls)) rounds).Calls (Pulld.Permitted paths s) ∧
      (∀ files, (Pull.main client (pullBin s.binDir) files).Calls (StartCall.LocksOnly (launchedPid s.binDir))) ∧
      ((∀ (N : Type) (t : Tree UInt8 N) (cwd : N), (t.enter slash dot cwd (s.binDir ++ lit "sbin")).isSome →
        t.locate slash dot cwd (launchedPid s.binDir) = t.locate slash dot cwd (watchedPid s.binDir)) ↔
          Closed slash s.binDir) := by
  have hclean : clean s.binDir = true := hs ▸ clean_setting hdoc _ _
  refine ⟨?_, calls_pullBin hclean hlen, locate_pid_iff _⟩
  rw [Pulld.startUp_printed hdoc hls, ← hs]
  exact Pulld.calls_startWith (cStr_clean_append hclean (by decide)) (Nat.le_trans hlen (by decide))

end

/-- A configuration of `pulld`. -/
def optPull : List (Str × List (Str × Str)) :=
  [(lit "system", [(lit "daemon", lit "on"), (lit "net_type", lit "bond0")]),
    (lit "child", [(lit "bin_dir", lit "/opt/pull/")]), (lit "mongodb", [(lit "address", lit "mongodb://10.0.0.1")])]

def optPullLines : List (Str × Eol) :=
  [(lit "[system]", .lf), (lit "daemon=on", .lf), (lit "net_type=bond0", .lf), (lit "[child]", .crlf),
    (lit "bin_dir=/opt/pull/", .crlf), (lit "[mongodb]", .lf), (lit "address=mongodb://10.0.0.1", .lf)]

theorem sectionOk_optPull : ∀ c ∈ optPull, SectionOk c := by decide +kernel

theorem watches_opt_pull :
    (Pulld.startUp namesHost ⟨[], [], [], []⟩ (some (fileText optPullLines)) 2).Calls
      (Pulld.Permitted ⟨[], [], [], []⟩ ⟨true, lit "/opt/pull/", lit "bond0", lit "mongodb://10.0.0.1"⟩) ∧
    ∀ (N : Type) (t : Tree UInt8 N) (cwd : N), (t.enter slash dot cwd (lit "/opt/pull/sbin")).isSome →
      t.locate slash dot cwd (lit "/opt/pull/sbin/../log/pid") = t.locate slash dot cwd (lit "/opt/pull/log/pid") := by
  obtain ⟨hcalls, -, hsame⟩ := @watches_what_it_launches namesHost ⟨[], [], [], []⟩ optPull optPullLines 2
    ⟨true, lit "/opt/pull/", lit "bond0", lit "mongodb://10.0.0.1"⟩ sectionOk_optPull (by decide) (by decide +kernel)
    (by decide)
  exact ⟨hcalls, hsame.mpr (by decide)⟩

/-- Without the slash another file is watched. -/
example : ¬ Closed slash (lit "/opt/pull") := by decide

end PullStream
