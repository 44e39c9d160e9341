import PullStream.App.Mains
import PullStream.Config.Headers
/-!
# Settings that have to be there

`GetStr` returns `m_szKey`, and what is in it for a key that is not there is the empty string, as for a key without a
value. So the checks of `pull` for a null pointer, and that of `pulld` for `child/bin_dir`, let everything through, and
what stops `pull` is a number that is zero, or the assertion that there is a client for the address, which fails for the
empty one (`Pull.exits_startUp_iff`). The other two checks of `pulld` are for the empty string. But before the second of
them exits it uses the null pointer `g_psyslog`, so that `pulld` exits at the first one or not at all
(`Pulld.exits_startUp_iff`).
-/

namespace PullStream

/-! ### Programs that pass -/

/-- The calls that a program may make that has not yet used the database or started the child, as long as its behaviour
is defined. -/
def StartCall.Early : StartCall → Prop
  | .host _ _ | .probe (.store _ _) | .system _ | .terminate | .undefined => False
  | _ => True

section

variable {α : Type} {a : α} {err : Str → StartAct Unit}

theorem calls_exitWith (status : Int) : (exitWith status : StartAct α).Calls StartCall.Early := ⟨trivial, nofun⟩

theorem passes_ask {c : StartCall} (x : StartReply c) (hc : c.Early) : (askStart c).Passes StartCall.Early x :=
  ⟨⟨hc, fun _ => trivial⟩, x, rfl⟩

theorem passes_sys {c : SysCall} {f : Except Str Int → StartAct α} (v : Int)
    (herror : ∀ e, (f (.error e)).Calls StartCall.Early) (hok : ∀ v, (f (.ok v)).Passes StartCall.Early a) :
    (askStart (.sys c) >>= f).Passes StartCall.Early a := by
  refine Prog.passes_perform trivial (fun x => ?_) (.ok v) (hok v).returns
  cases x with
  | error e => exact herror e
  | ok v => exact (hok v).calls

variable (herr : ∀ t, (err t).Passes StartCall.Early ())
include herr

theorem calls_err {p : StartAct α} (t : Str) (hp : p.Calls StartCall.Early) :
    (err t >>= fun _ => p).Calls StartCall.Early :=
  Prog.calls_bind (herr t).calls fun _ => hp

theorem passes_writePid {hasRunned : StartAct Unit} (hrun : hasRunned.Calls StartCall.Early) (file : Str) :
    (writePid err hasRunned file).Passes StartCall.Early () := by
  refine Prog.passes_bind (passes_ask 0 trivial) fun pid => ?_
  refine passes_sys 0 (fun _ => calls_err herr _ (calls_exitWith 0)) fun fd => ?_
  refine passes_sys 0 (fun _ => calls_err herr _ (Prog.calls_bind hrun fun _ => calls_exitWith 0)) fun _ => ?_
  exact passes_sys 0 (fun _ => calls_err herr _ (calls_exitWith 0)) fun _ =>
    passes_ask (c := .printf _) () trivial

theorem passes_redirect (failed : Int) : (redirect err failed).Passes StartCall.Early 0 := by
  have hfail (t : Str) : (err t >>= fun _ => (pure failed : StartAct Int)).Calls StartCall.Early :=
    calls_err herr t trivial
  refine passes_sys 0 (fun _ => hfail _) fun fd => ?_
  refine passes_sys 0 (fun _ => hfail _) fun _ => ?_
  refine passes_sys 0 (fun _ => hfail _) fun _ => ?_
  simp only
  split_ifs
  · exact passes_sys 0 (fun _ => hfail _) fun _ => Prog.passes_ret
  · exact Prog.passes_ret

theorem passes_detach {write : StartAct Unit} {tell : Int → StartAct Unit} {failed : Int}
    (hwrite : write.Passes StartCall.Early ()) (htell : ∀ pid, (tell pid).Passes StartCall.Early ()) :
    (detach err write tell failed).Passes StartCall.Early 0 := by
  refine Prog.passes_bind hwrite fun _ => Prog.passes_bind (passes_ask 0 trivial) fun pid => ?_
  refine Prog.passes_bind (htell pid) fun _ => ?_
  exact passes_sys 0 (fun _ => calls_err herr _ trivial) fun _ => passes_redirect herr failed

theorem passes_daemon {write : StartAct Unit} {tell : Int → StartAct Unit} {failed : Int}
    (hwrite : write.Passes StartCall.Early ()) (htell : ∀ pid, (tell pid).Passes StartCall.Early ()) :
    (daemon err write tell failed).Passes StartCall.Early 0 := by
  have hchild : (detach err write tell failed).Passes StartCall.Early 0 := passes_detach herr hwrite htell
  refine Prog.passes_perform trivial (fun x => ?_) (.ok 0) hchild.returns
  cases x with
  | error _ => exact calls_err herr _ trivial
  | ok ppid =>
    simp only
    split_ifs
    · exact calls_exitWith 0
    · exact hchild.calls

theorem passes_getLocalIp (ethInf : Str) : (getLocalIp err ethInf).Passes StartCall.Early (-1, []) := by
  have hnone (sd : Int) : (askStart (.sys (.close sd)) >>= fun _ => (pure (-1, []) : StartAct (Int × Str))).Passes
      StartCall.Early (-1, []) :=
    Prog.passes_bind (passes_ask (c := .sys _) (.ok 0) trivial) fun _ => Prog.passes_ret
  refine passes_sys 0 (fun _ => calls_err herr _ trivial) fun sd => ?_
  have hfound (errno : Str) := Prog.passes_bind (herr (lit "ioctl error: " ++ errno ++ lit "\n")) fun _ => hnone sd
  refine Prog.passes_perform trivial (fun x => ?_) (.error []) (hfound []).returns
  cases x with
  | error errno => exact (hfound errno).calls
  | ok addr => exact ⟨trivial, fun _ => trivial⟩

end

theorem passes_logError (t : Str) : (CUtils.logError t).Passes StartCall.Early () :=
  passes_ask (c := .log _ _) () trivial

theorem CUtils.passes_getLocalIp (ethInf : Str) : (getLocalIp ethInf).Passes StartCall.Early (-1, []) :=
  Prog.passes_bind (passes_ask (c := .log _ _) () trivial) fun _ => PullStream.passes_getLocalIp passes_logError ethInf

theorem passes_createWorkerThread (n i : Nat) : (ServerBiz.createWorkerThread n i).Passes StartCall.Early () := by
  induction n generalizing i with
  | zero => exact Prog.passes_ret
  | succ n ih => exact passes_sys 0 (fun _ => calls_err passes_logError _ (calls_exitWith 1)) fun _ => ih (i + 1)

theorem Pull.passes_becomeDaemon (on : Bool) (pidPath : Str) :
    (becomeDaemon on pidPath).Passes StartCall.Early () := by
  have hpid : (CUtils.writePidToFile pidPath).Passes StartCall.Early () :=
    passes_writePid passes_logError (passes_logError _).calls pidPath
  have hdaemon : (CUtils.daemon pidPath).Passes StartCall.Early 0 :=
    passes_daemon passes_logError hpid fun _ => Prog.passes_ret
  cases on with
  | false => exact Prog.passes_ret
  | true =>
    refine ⟨Prog.calls_bind hdaemon.calls fun ret => ?_, Prog.returns_bind hdaemon.returns rfl⟩
    split_ifs
    · exact ⟨trivial, fun _ => calls_exitWith 0⟩
    · trivial

theorem Pulld.passes_becomeDaemon (on : Bool) (pidPath : Str) :
    (becomeDaemon on pidPath).Passes StartCall.Early true := by
  have hprt (t : Str) : (prt .crit t).Passes StartCall.Early () := passes_ask (c := .psyslog _) () trivial
  have hpid : (writePidToFile pidPath).Passes StartCall.Early () :=
    passes_writePid hprt (passes_ask (c := .printf _) () trivial).calls pidPath
  have hdaemon : (daemon pidPath).Passes StartCall.Early 0 := passes_daemon hprt hpid fun _ => hprt _
  cases on with
  | false => exact Prog.passes_ret
  | true =>
    refine ⟨Prog.calls_bind hdaemon.calls fun ret => ?_, Prog.returns_bind hdaemon.returns rfl⟩
    split_ifs
    · exact ⟨trivial, fun _ => trivial⟩
    · trivial

/-! ### Where the programs exit -/

section

variable {client : Str → Bool} {s k : Str} {r : IniReader} {file : Option Str} {paths : Paths} {host : Str}

theorem getStr_after (look : IniLookup) : ((look.after r).getStr s k).1 = (r.getStr s k).1 := by
  rw [IniReader.getStr_fst, IniReader.getStr_fst, IniReader.value_after]

theorem getInt_after (look : IniLookup) : ((look.after r).getInt s k).1 = (r.getInt s k).1 := by
  rw [IniReader.getInt_fst, IniReader.getInt_fst, IniReader.value_after]

theorem exits_register_iff {address : Str} {port : Int} {f : Bool → StartAct Unit} :
    ((ServerBiz.hostRegister host port).subst (MongoAdaptor.hostCall client address) >>= f).Exits StartCall.Early ↔
      client (cStr address) = false := by
  cases hclient : client (cStr address) with
  | false =>
    refine iff_of_true ?_ rfl
    simp only [ServerBiz.hostRegister_eq, Prog.subst, MongoAdaptor.hostCall, MongoAdaptor.connect, hclient]
    exact ⟨trivial, nofun⟩
  | true =>
    refine iff_of_false ?_ Bool.false_ne_true.symm
    simp only [ServerBiz.hostRegister_eq, Prog.subst, MongoAdaptor.hostCall, MongoAdaptor.connect, hclient]
    exact fun h => h.1

theorem CRestApi.exits_init_iff : (init client r host).Exits StartCall.Early ↔
    (r.getInt (lit "system") (lit "listen")).1 = 0 ∨
      client (cStr (r.getStr (lit "mongodb") (lit "address")).1) = false := by
  refine Prog.exits_bind_of_passes (a := ()) ⟨⟨trivial, fun _ => trivial⟩, (), rfl⟩ fun _ => ?_
  have haddress : ((r.getInt (lit "system") (lit "listen")).2.getStr (lit "mongodb") (lit "address")).1 =
      (r.getStr (lit "mongodb") (lit "address")).1 := getStr_after (.getInt _ _)
  simp only [IniReader.getStrPointer, haddress]
  split_ifs with hport
  · exact iff_of_true ⟨trivial, fun _ => ⟨trivial, nofun⟩⟩ (.inl hport)
  · rw [or_iff_right hport]
    refine Prog.exits_bind_of_passes (passes_ask (c := .log _ _) () trivial) fun _ => ?_
    exact Prog.exits_bind_of_passes (passes_ask (c := .log _ _) () trivial) fun _ => exits_register_iff

/-- **`pull` ends before it registers exactly if** the file can be read to its end, and there are to be no workers, the
port to listen at is zero, or there is no client for the address. -/
theorem Pull.exits_startUp_iff : (startUp client paths file).Exits StartCall.Early ↔
    (IniReader.new.load file).1 ≠ none ∧
      (((IniReader.new.load file).2.getInt (lit "system") (lit "worker")).1 = 0 ∨
        ((IniReader.new.load file).2.getInt (lit "system") (lit "listen")).1 = 0 ∨
        client (cStr ((IniReader.new.load file).2.getStr (lit "mongodb") (lit "address")).1) = false) := by
  rw [startUp]
  split
  · rename_i r hload
    rw [hload]
    exact iff_of_false (fun h => h.1) fun h => h.1 rfl
  · rename_i res r hload
    rw [hload, and_iff_right nofun]
    refine Prog.exits_bind_of_passes (passes_becomeDaemon _ _) fun _ => ?_
    refine Prog.exits_bind_of_passes (passes_ask (c := .logInit _ _) () trivial) fun _ => ?_
    refine Prog.exits_bind_of_passes (passes_ask (c := .log _ _) () trivial) fun _ => ?_
    refine Prog.exits_bind_of_passes (CUtils.passes_getLocalIp _) fun ip => ?_
    have hworker : (IniReader.getInt (lit "system") (lit "worker")
        (IniReader.getStr (lit "system") (lit "net_type") (r.getStr (lit "system") (lit "daemon")).2).2).1 =
        (r.getInt (lit "system") (lit "worker")).1 :=
      (getInt_after (.getStr _ _)).trans (getInt_after (.getStr _ _))
    simp only [hworker]
    split_ifs with hnum
    · exact iff_of_true ⟨trivial, fun _ => ⟨trivial, nofun⟩⟩ (.inl hnum)
    · refine Prog.exits_bind_of_passes (passes_createWorkerThread _ _) fun _ => ?_
      rw [CRestApi.exits_init_iff, or_iff_right hnum]
      refine iff_of_eq (congrArg₂ (fun n a => n = 0 ∨ client (cStr a) = false) ?_ ?_)
      · exact (getInt_after (.getInt _ _)).trans ((getInt_after (.getStr _ _)).trans (getInt_after (.getStr _ _)))
      · exact (getStr_after (.getInt _ _)).trans ((getStr_after (.getStr _ _)).trans (getStr_after (.getStr _ _)))

theorem Pulld.not_exits_watch (recBinDir recPidDir localIp mongoAddr : Str) (n : Nat) :
    ¬ (watch client recBinDir recPidDir localIp mongoAddr n).Exits StartCall.Early := by
  induction n with
  | zero => exact id
  | succ n ih =>
    intro h
    -- The file is opened, and the lock is not to be had.
    obtain ⟨-, hopened⟩ := h
    obtain ⟨-, hlocked⟩ := hopened (.ok 0)
    obtain ⟨-, hclosed⟩ := hlocked (-1)
    obtain ⟨-, hagain⟩ := hclosed ()
    exact ih ((hagain ()).2 ())

theorem Pulld.not_exits_work (on : Bool) (recBinDir recPidDir netType mongoAddr : Str) (n : Nat) :
    ¬ (work client paths on recBinDir recPidDir netType mongoAddr n).Exits StartCall.Early := by
  intro h
  have hprintf (text : Str) : (askStart (.printf text)).Passes StartCall.Early () :=
    passes_ask (c := .printf _) () trivial
  obtain ⟨-, hdaemon⟩ := (Prog.exits_bind (p := becomeDaemon on paths.pidPath)).mp ((((h.2 ()).2 ()).2 ()).2 ())
  obtain ⟨-, hip⟩ := (Prog.exits_bind (p := getLocalIp netType)).mp (hdaemon true (passes_becomeDaemon _ _).returns)
  exact not_exits_watch _ _ _ _ n (hip _ (passes_getLocalIp hprintf netType).returns)

/-- **`pulld` exits before it starts to watch exactly if** the file can be read to its end, and there is no value for
the interface. -/
theorem Pulld.exits_startUp_iff {rounds : Nat} : (startUp client paths file rounds).Exits StartCall.Early ↔
    (IniReader.new.load file).1 ≠ none ∧
      ((IniReader.new.load file).2.getStr (lit "system") (lit "net_type")).1 = [] := by
  rw [startUp]
  split
  · rename_i r hload
    rw [hload]
    exact iff_of_false (fun h => h.1) fun h => h.1 rfl
  · rename_i res r hload
    rw [hload, and_iff_right nofun]
    have hnet : (IniReader.getStr (lit "system") (lit "net_type")
        (IniReader.getStr (lit "child") (lit "bin_dir") (r.getStr (lit "system") (lit "daemon")).2).2).1 =
        (r.getStr (lit "system") (lit "net_type")).1 :=
      (getStr_after (.getStr _ _)).trans (getStr_after (.getStr _ _))
    simp only [IniReader.getStrPointer, hnet]
    split_ifs with hnone haddr
    · exact iff_of_true ⟨trivial, fun _ => ⟨trivial, nofun⟩⟩ hnone
    · exact iff_of_false (fun h => h.1) hnone
    · exact iff_of_false (not_exits_work _ _ _ _ _ rounds) hnone

/-- Every piece of the file can be read. -/
def Readable (file : Option Str) : Prop := ∀ text ∈ file, ∀ p ∈ pieces text, ¬ Unreadable (szLine p)

theorem load_ne_none_iff : (r.load file).1 ≠ none ↔ Readable file := by
  cases file with
  | none =>
    refine iff_of_true (Option.some_ne_none _) fun text h => ?_
    cases h
  | some text =>
    have hsuccess := @load_success_iff text r
    have hres : (r.load (some text)).1 ≠ none ↔ (r.load (some text)).1 = some .success := by
      rw [IniReader.load]
      split
      · exact iff_of_true (Option.some_ne_none _) rfl
      · exact iff_of_false (fun h => h rfl) (Option.some_ne_none _).symm
    rw [hres, hsuccess]
    exact ⟨fun h _ ht => Option.some.inj ht ▸ h, fun h => h text rfl⟩

theorem cStr_loaded (file : Option Str) (s k : Str) :
    cStr ((IniReader.new.load file).2.value s k) = (IniReader.new.load file).2.value s k := by
  cases file with
  | none => rfl
  | some text => exact cStr_value text s k

end

/-! ### The mandatory settings -/

/-- Nothing has been read for the key of the section. -/
def IniReader.Absent (r : IniReader) (s k : Str) : Prop := ((r.map s).bind fun km => km k) = none

instance (r : IniReader) (s k : Str) : Decidable (r.Absent s k) :=
  inferInstanceAs (Decidable (((r.map s).bind fun km => km k) = none))

def mandatory : List (Str × Str) :=
  [(lit "system", lit "net_type"), (lit "mongodb", lit "address"), (lit "child", lit "bin_dir")]

/-- `pull` ends by itself, with an `exit` or at an assertion, before it uses the database if `system/net_type` or
`mongodb/address` is absent. -/
def Pull.SettingsChecked (client : Str → Bool) (paths : Paths) (file : Option Str) : Prop :=
  (IniReader.new.load file).2.Absent (lit "system") (lit "net_type") ∨
    (IniReader.new.load file).2.Absent (lit "mongodb") (lit "address") →
  (startUp client paths file).Exits StartCall.Early

/-- `pulld` ends by itself before it uses the database or starts the child if `child/bin_dir`, `system/net_type` or
`mongodb/address` is absent. -/
def Pulld.SettingsChecked (client : Str → Bool) (paths : Paths) (file : Option Str) (rounds : Nat) : Prop :=
  (IniReader.new.load file).2.Absent (lit "child") (lit "bin_dir") ∨
    (IniReader.new.load file).2.Absent (lit "system") (lit "net_type") ∨
    (IniReader.new.load file).2.Absent (lit "mongodb") (lit "address") →
  (startUp client paths file rounds).Exits StartCall.Early

/-- For a key that is absent `GetStr` gives the text `NULL`, or at least something that it does not give for one that a
file sets. -/
def IniReader.Reports (r : IniReader) (s k : Str) : Prop :=
  r.Absent s k → (r.getStr s k).1 = lit "NULL" ∨
    ∀ text, ¬ (new.load (some text)).2.Absent s k → ((new.load (some text)).2.getStr s k).1 ≠ (r.getStr s k).1

/-- A file that sets the key to the empty string. -/
def emptySetting (p : Str × Str) : Str := leftBracket :: p.1 ++ [rightBracket, lf] ++ p.2 ++ [equalsSign, lf]

section

variable {client : Str → Bool} {r : IniReader} {file : Option Str} {paths paths' : Paths} {rounds : Nat} {p : Str × Str}

theorem value_of_absent {s k : Str} (h : r.Absent s k) : r.value s k = [] := by
  rw [IniReader.value]
  rw [IniReader.Absent] at h
  cases hs : r.map s with
  | none => rfl
  | some km =>
    rw [hs] at h
    rw [Option.getD_some, show km k = none from h]
    rfl

theorem emptySetting_present : ∀ p ∈ mandatory, cStr p.1 = p.1 ∧ cStr p.2 = p.2 ∧
    ¬ (IniReader.new.load (some (emptySetting p))).2.Absent p.1 p.2 ∧
    ((IniReader.new.load (some (emptySetting p))).2.getStr p.1 p.2).1 = [] := by
  simp only [mandatory, List.forall_mem_cons]
  decide +kernel

/-- **`GetStr` reports no absent key.** -/
theorem reports_iff (hp : p ∈ mandatory) : r.Reports p.1 p.2 ↔ ¬ r.Absent p.1 p.2 := by
  constructor
  · intro h habs
    obtain ⟨hs, hk, hpresent, hempty⟩ := emptySetting_present p hp
    have hget : (r.getStr p.1 p.2).1 = [] := by
      rw [IniReader.getStr_fst, hs, hk, value_of_absent habs]
      rfl
    rcases h habs with h | h
    · rw [hget] at h
      cases h
    · exact h (emptySetting p) hpresent (hempty.trans hget.symm)
  · intro h habs
    exact absurd habs h

end

/-- libmongoc makes a client for an address that names a host. -/
def namesHost (addr : Str) : Bool := addr.take 10 = lit "mongodb://" && 10 < addr.length

/-- A file without an interface. -/
def noNetType : Str :=
  lit "[system]\nworker=4\nlisten=8080\n[mongodb]\naddress=mongodb://10.0.0.1\n[child]\nbin_dir=/opt/pull/\n"

/-- A file without an address. -/
def noAddress : Str :=
  lit "[system]\nworker=4\nlisten=8080\nnet_type=eth0\n[child]\nbin_dir=/opt/pull/\n"

end PullStream
