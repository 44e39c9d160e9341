import PullStream.App.Pulld
import PullStream.Pulld.LogFile
/-!
# The descriptors that the probe closes

`check_process_alive` closes the descriptor of the pid file before it has done with it, and once more at the end.
When `pull` does not hold the lock, the log is written to in between. A log file that is opened then gets the
number of the pid file, and the second `close` takes it away from the log.

Up to the last `close` the files of the process are either as they were (`Files.Same`) or past repair
(`Files.Lost`): a file that was open has been closed, or a log file is open at the number of the pid file. Which
of the two it is, is decided by the calls of `prt`, each in the state it is made in (`quiet`). So the probe leaves
all descriptors alone, and all log files open, exactly if each of its calls of `prt` is quiet
(`descriptors_kept_iff`).
-/

namespace PullStream

open Prog Descriptors

namespace Files

/-- Every descriptor of `w` is open on the same file in `u`, and so is every log file opened since. -/
def Keeps (w u : Files) : Prop :=
  (∀ n f, w.table.get n = some f → u.table.get n = some f) ∧
    ∀ f ∈ u.logs, f ∉ w.logs → ∃ n, u.table.get n = some f

/-- What is open in `u` is what was open in `w`, and the log has opened nothing since. -/
structure Same (w u : Files) : Prop where
  get : u.table.get = w.table.get
  logs : u.logs = w.logs
  count : w.count ≤ u.count

/-- A file that was open in `w` has been closed, or a log file opened since is open as `n` at most. -/
structure Lost (w : Files) (n : Nat) (u : Files) : Prop where
  count : w.count ≤ u.count
  gone : (∃ m f, w.table.get m = some f ∧ u.table.get m ≠ some f) ∨
    ∃ f ∈ u.logs, f ∉ w.logs ∧ ∀ m, u.table.get m = some f → m = n

variable {w u : Files} {n m : Nat} {path : Str} {f : OpenFile}

namespace Same

theorem refl (w : Files) : Same w w := ⟨rfl, rfl, le_rfl⟩

theorem tick (h : Same w u) (t : Int) : Same w (u.tick t) := ⟨h.get, h.logs, h.count⟩

theorem record (h : Same w u) (line : Line) (k : Nat) : Same w (u.record f line k) := ⟨h.get, h.logs, h.count⟩

theorem closeFd (h : Same w u) (hn : u.table.get n = none) : Same w (u.closeFd n) :=
  ⟨(Table.close_of_free hn).trans h.get, h.logs, h.count⟩

theorem closeFd_openFile (h : Same (u.openFile path) w) : Same u (w.closeFd u.table.lowest) where
  get := (Table.close_congr h.get).trans (Table.close_alloc u.table)
  logs := h.logs
  count := Nat.le_of_succ_le h.count

theorem session (h : Same w u) (k : Nat) : Same w (u.session k) := by
  have hsession : Same u (u.session k) := by
    clear h
    induction k generalizing u with
    | zero => exact refl u
    | succ k ih => exact closeFd_openFile ih
  exact ⟨hsession.get.trans h.get, hsession.logs.trans h.logs, h.count.trans hsession.count⟩

theorem keeps (h : Same w u) (hn : u.table.get n = none) : w.Keeps (u.closeFd n) := by
  have hsame := h.closeFd hn
  constructor
  · intro m f hm
    rw [hsame.get, hm]
  · intro f hf hnew
    rw [hsame.logs] at hf
    exact absurd hf hnew

end Same

namespace Lost

theorem tick (h : Lost w n u) (t : Int) : Lost w n (u.tick t) := ⟨h.count, h.gone⟩

theorem record (h : Lost w n u) (line : Line) (k : Nat) : Lost w n (u.record f line k) := ⟨h.count, h.gone⟩

theorem closeFd (h : Lost w n u) (m : Nat) : Lost w n (u.closeFd m) := by
  refine ⟨h.count, h.gone.imp ?_ ?_⟩
  · rintro ⟨i, f, hi, hgone⟩
    refine ⟨i, f, hi, fun hf => hgone ?_⟩
    rw [get_closeFd] at hf
    split_ifs at hf
    exact hf
  · rintro ⟨f, hf, hnew, hat⟩
    refine ⟨f, hf, hnew, fun i hi => hat i ?_⟩
    rw [get_closeFd] at hi
    split_ifs at hi
    exact hi

theorem of_openFile (h : Lost w n u) :
    (∃ m f, w.table.get m = some f ∧ (u.openFile path).table.get m ≠ some f) ∨
      ∃ f ∈ u.logs, f ∉ w.logs ∧ ∀ m, (u.openFile path).table.get m = some f → m = n := by
  have hother {i : Nat} {f : OpenFile} (hid : f.id < u.count) (hf : (u.openFile path).table.get i = some f) :
      u.table.get i = some f := by
    rw [get_openFile] at hf
    split_ifs at hf
    · cases hf
      exact absurd hid (lt_irrefl _)
    · exact hf
  refine h.gone.imp ?_ ?_
  · rintro ⟨i, f, hi, hgone⟩
    exact ⟨i, f, hi, fun hf => hgone (hother ((w.id_lt i f hi).trans_le h.count) hf)⟩
  · rintro ⟨f, hf, hnew, hat⟩
    exact ⟨f, hf, hnew, fun i hi => hat i (hother (u.logs_id_lt f hf) hi)⟩

theorem openFile (h : Lost w n u) : Lost w n (u.openFile path) :=
  ⟨Nat.le_succ_of_le h.count, h.of_openFile⟩

theorem openLog (h : Lost w n u) : Lost w n (u.openLog path) where
  count := Nat.le_succ_of_le h.count
  gone := h.of_openFile.imp_right fun ⟨f, hf, hrest⟩ => ⟨f, List.mem_append_left _ hf, hrest⟩

theorem session (h : Lost w n u) (k : Nat) : Lost w n (u.session k) := by
  induction k generalizing u with
  | zero => exact h
  | succ k ih => exact (ih h.openFile).closeFd _

theorem of_closeFd (h : Same w u) (hm : u.table.get m = some f) : Lost w n (u.closeFd m) := by
  refine ⟨h.count, .inl ⟨m, f, ?_, ?_⟩⟩
  · rw [← h.get, hm]
  · rw [get_closeFd, if_pos rfl]
    exact nofun

theorem of_openLog (h : Same w u) : Lost w w.table.lowest (u.openLog path) := by
  refine ⟨Nat.le_succ_of_le h.count, .inr ⟨u.make path, ?_, ?_, ?_⟩⟩
  · exact List.mem_append_right _ List.mem_cons_self
  · intro hold
    exact absurd (w.logs_id_lt _ hold) (not_lt_of_ge h.count)
  · intro m hm
    have hget : (u.openFile path).table.get m = some (u.make path) := hm
    rw [get_openFile] at hget
    split_ifs at hget with hlow
    · rw [hlow, Table.lowest_congr h.get]
    · exact absurd (u.id_lt m _ hget) (lt_irrefl _)

theorem not_keeps (h : Lost w n u) : ¬ w.Keeps (u.closeFd n) := by
  rintro ⟨hopen, hlogs⟩
  rcases (h.closeFd n).gone with ⟨m, f, hm, hgone⟩ | ⟨f, hf, hnew, hat⟩
  · exact hgone (hopen m f hm)
  · obtain ⟨m, hm⟩ := hlogs f hf hnew
    obtain rfl := hat m hm
    rw [get_closeFd, if_pos rfl] at hm
    cases hm

theorem logAnswer {c : LogCall} {x : LogChoice} {y : LogReply c × Files} (h : Lost w n u)
    (hy : PullStream.logAnswer c x u = some y) : Lost w n y.2 := by
  cases c with
  | time =>
    obtain ⟨t, -, rfl⟩ := CLog.logAnswer_time hy
    exact h.tick t
  | openLog path =>
    rcases CLog.logAnswer_openLog hy with ⟨-, rfl⟩ | ⟨err, -, rfl⟩
    · exact h.openLog
    · exact h
  | close m =>
    obtain ⟨-, rfl⟩ := CLog.logAnswer_close hy
    exact h.closeFd m
  | write fd line =>
    rcases CLog.logAnswer_write hy with ⟨_, _, k, -, -, -, -, rfl⟩ | ⟨-, rfl⟩
    · exact h.record line k
    · exact h
  | printf text =>
    obtain ⟨-, rfl⟩ := CLog.logAnswer_printf hy
    exact h
  | divZero => cases x <;> cases hy

end Lost

end Files

/-! ### Calls of `prt` that leave the files alone -/

namespace CLog

/-- A line of this level at this time calls for another log file. -/
def needsFile (g : CLog) (lvl : LogType) (ptime : Tm) : Bool :=
  lvl.val ≤ g.logLevel.val && g.logTank = .file && !g.busy && ((g.fd g.cur).isNone || g.cut ptime)

/-- The next slot has no file that is open. -/
def nextFree (g : CLog) (w : Files) : Bool := (g.fd g.next).all fun n => (w.table.get n).isNone

/-- `prt` does without another log file, or has none to close and gets none. -/
def quietPrt (localtime : Int → Tm) (lvl : LogType) (g : CLog) (w : Files) : List LogChoice → Bool
  | .now t :: xs => !g.needsFile lvl (localtime t) || (g.nextFree w && decide (.opened ∉ xs))
  | _ => true

variable {localtime : Int → Tm} {ok : LogCall → LogChoice → Files → Bool} {xs : List LogChoice} {g : CLog}
  {w u : Files} {n : Nat}

theorem same_closeSlot (h : w.Same u) (hfree : g.nextFree u = true) : w.Same (u.closeSlot (g.fd g.next)) := by
  rw [nextFree] at hfree
  cases hfd : g.fd g.next with
  | none => exact h
  | some m =>
    rw [hfd] at hfree
    exact h.closeFd (by simpa using hfree)

theorem lost_closeSlot (h : w.Same u) (hfree : g.nextFree u = false) : w.Lost n (u.closeSlot (g.fd g.next)) := by
  rw [nextFree] at hfree
  cases hfd : g.fd g.next with
  | none =>
    rw [hfd] at hfree
    cases hfree
  | some m =>
    rw [hfd] at hfree
    obtain ⟨f, hf⟩ : ∃ f, u.table.get m = some f := by simpa [Option.isSome_iff_exists] using hfree
    exact Files.Lost.of_closeFd h hf

theorem newFile_split {status : FileStatus} {g' : CLog} {u' : Files} (hw : w.Same u)
    (h : exec logAnswer ok xs (newFile localtime g) u = some ((status, g'), u')) :
    (g.busy = true ∧ xs = [] ∧ status = .retry ∧ g' = g ∧ u' = u) ∨
      g.busy = false ∧ ((g.nextFree u = true ∧ .opened ∉ xs ∧ status = .failure ∧ w.Same u') ∨
        ¬ (g.nextFree u = true ∧ .opened ∉ xs) ∧ w.Lost w.table.lowest u') := by
  rcases newFile_cases h with ⟨hbusy, hxs, heq⟩ | ⟨t, u₁, hbusy, -, rfl, hrest⟩
  · cases heq
    exact .inl ⟨hbusy, hxs, rfl, rfl, rfl⟩
  · refine .inr ⟨hbusy, ?_⟩
    cases hfree : g.nextFree u with
    | false =>
      have hlost : w.Lost w.table.lowest ((u.tick t).closeSlot (g.fd g.next)) := lost_closeSlot (hw.tick t) hfree
      refine .inr ⟨fun hq => Bool.noConfusion hq.1, ?_⟩
      rcases hrest with ⟨path, err, -, -, heq⟩ | ⟨path, -, -, heq⟩
      · cases heq
        exact hlost
      · cases heq
        exact hlost.openLog
    | true =>
      have hsame : w.Same ((u.tick t).closeSlot (g.fd g.next)) := same_closeSlot (hw.tick t) hfree
      rcases hrest with ⟨path, err, hnot, -, heq⟩ | ⟨path, hmem, -, heq⟩
      · cases heq
        exact .inl ⟨rfl, hnot, rfl, hsame⟩
      · cases heq
        exact .inr ⟨fun hq => hq.2 hmem, Files.Lost.of_openLog hsame⟩

theorem lost_exec {α : Type} {p : LogAct α} {r : α × Files} (hw : w.Lost n u)
    (h : exec logAnswer ok xs p u = some r) : w.Lost n r.2 :=
  exec_inv (w.Lost n) (fun _ _ _ _ _ hlost _ hy => hlost.logAnswer hy)
    (calls_of_forall (P := fun _ => True) (fun _ => trivial) p) hw h

theorem withFile_split {need : Bool} {k : CLog → LogAct (Int × CLog)} {r : (Int × CLog) × Files} (hw : w.Same u)
    (h : exec logAnswer ok xs (withFile localtime need g k) u = some r) :
    ((need = true → g.busy = true) ∧ exec logAnswer ok xs (k g) u = some r) ∨
      need = true ∧ g.busy = false ∧ ((g.nextFree u = true ∧ .opened ∉ xs ∧ w.Same r.2) ∨
        ¬ (g.nextFree u = true ∧ .opened ∉ xs) ∧ w.Lost w.table.lowest r.2) := by
  rcases withFile_cases h with ⟨hneed, h⟩ | ⟨hneed, xs₁, xs₂, status, g', u', rfl, hnew, hrest⟩
  · exact .inl ⟨fun htrue => absurd (hneed.symm.trans htrue) nofun, h⟩
  · rcases newFile_split hw hnew with ⟨hbusy, rfl, rfl, rfl, rfl⟩ | ⟨hbusy, ⟨hfree, hnot, rfl, hsame⟩ | ⟨hloud, hlost⟩⟩
    · rcases hrest with ⟨hstatus, -⟩ | ⟨-, h⟩
      · cases hstatus
      · exact .inl ⟨fun _ => hbusy, h⟩
    · rcases hrest with ⟨-, rfl, rfl⟩ | ⟨hstatus, -⟩
      · exact .inr ⟨hneed, hbusy, .inl ⟨hfree, by simpa using hnot, hsame⟩⟩
      · exact absurd rfl hstatus
    · refine .inr ⟨hneed, hbusy, .inr ⟨fun hq => hloud ⟨hq.1, fun hmem => hq.2 (List.mem_append_left _ hmem)⟩, ?_⟩⟩
      rcases hrest with ⟨-, -, rfl⟩ | ⟨-, h⟩
      · exact hlost
      · exact lost_exec hlost h

/-- **A call of `prt` leaves the files as they are if it is quiet, and else does harm.** -/
theorem prt_split {lvl : LogType} {text : Str} {r : (Int × CLog) × Files} (hw : w.Same u)
    (h : exec logAnswer ok xs (prt localtime lvl text g) u = some r) :
    (quietPrt localtime lvl g u xs = true ∧ w.Same r.2) ∨
      quietPrt localtime lvl g u xs = false ∧ w.Lost w.table.lowest r.2 := by
  rcases prt_cases h with ⟨-, rfl, rfl⟩ | ⟨t, xs, hlvl, rfl, -, ⟨htank, rfl⟩ | ⟨htank, h⟩⟩
  · exact .inl ⟨rfl, hw⟩
  · exact .inl ⟨by simp [quietPrt, needsFile, htank], hw.tick t⟩
  · have hneeds : g.needsFile lvl (localtime t) = (!g.busy && ((g.fd g.cur).isNone || g.cut (localtime t))) := by
      simp [needsFile, hlvl, htank]
    have hfile (hbusy : g.busy = false) (hneed : ((g.fd g.cur).isNone || g.cut (localtime t)) = true)
        (hrest : (g.nextFree u = true ∧ .opened ∉ xs ∧ w.Same r.2) ∨
          ¬ (g.nextFree u = true ∧ .opened ∉ xs) ∧ w.Lost w.table.lowest r.2) :
        (quietPrt localtime lvl g u (.now t :: xs) = true ∧ w.Same r.2) ∨
          quietPrt localtime lvl g u (.now t :: xs) = false ∧ w.Lost w.table.lowest r.2 := by
      have hquiet : quietPrt localtime lvl g u (.now t :: xs) = (g.nextFree u && decide (.opened ∉ xs)) := by
        simp [quietPrt, hneeds, hbusy, hneed]
      rw [hquiet]
      rcases hrest with ⟨hfree, hnot, hsame⟩ | ⟨hloud, hlost⟩
      · exact .inl ⟨by simp [hfree, hnot], hsame⟩
      · exact .inr ⟨by simpa using hloud, hlost⟩
    rcases withFile_split (hw.tick t) h with ⟨hcur, h⟩ | ⟨hneed, hbusy, hrest⟩
    · rcases withFile_split (hw.tick t) h with ⟨hcut, h⟩ | ⟨hneed, hbusy, hrest⟩
      · refine .inl ⟨?_, ?_⟩
        · cases hbusy : g.busy with
          | true => simp [quietPrt, hneeds, hbusy]
          | false =>
            have hno : ¬ ((g.fd g.cur).isNone || g.cut (localtime t)) = true := by
              rw [Bool.or_eq_true]
              rintro (hneed | hneed)
              · exact absurd (hbusy.symm.trans (hcur hneed)) nofun
              · exact absurd (hbusy.symm.trans (hcut hneed)) nofun
            simp only [quietPrt, hneeds, Bool.eq_false_iff.mpr hno, Bool.and_false, Bool.not_false, Bool.true_or]
        · rcases writeLine_cases h with ⟨n, f, k, -, -, -, -, -, -, hr⟩ | ⟨-, -, -, hr⟩
          · rw [hr]
            exact (hw.tick t).record _ k
          · rw [hr]
            exact hw.tick t
      · exact hfile hbusy (by rw [hneed, Bool.or_true]) hrest
    · exact hfile hbusy (by rw [hneed, Bool.true_or]) hrest

end CLog

/-! ### The probe -/

/-- Each call of `prt` leaves the files as they are. -/
def quiet (localtime : Int → Tm) : ProbeCall → ProbeChoice → LogState → Bool
  | .prt lvl _, .log xs, s => s.log.quietPrt localtime lvl s.files xs
  | _, _, _ => true

namespace Probe

variable {localtime : Int → Tm} {ok : ProbeCall → ProbeChoice → LogState → Bool} {xs : List ProbeChoice}
  {s : LogState} {w : Files} {n : Nat} {file host mdb : Str}

/-- The call is of `prt` or goes to the store. -/
def Talks : ProbeCall → Prop
  | .prt _ _ | .store _ _ => True
  | _ => False

theorem talks_ofHost {α : Type} (p : HostAct α) : (ofHost mdb p).Calls Talks := by
  induction p with
  | ret a => trivial
  | call c k ih => exact ⟨trivial, ih⟩

theorem talks_prt {lvl : LogType} {text : Str} : (askProbe (.prt lvl text)).Calls Talks := ⟨trivial, fun _ => trivial⟩

theorem talks_isHostExist (host mdb : Str) : (isHostExist host mdb).Calls Talks := by
  rw [isHostExist]
  refine calls_bind talks_prt fun _ => calls_bind (talks_ofHost _) fun found => ?_
  cases found <;> exact calls_bind talks_prt fun _ => trivial

theorem talks_bury (host mdb : Str) : (bury host mdb).Calls Talks := by
  rw [bury]
  refine calls_bind talks_prt fun _ => calls_bind (talks_isHostExist host mdb) fun exist => ?_
  cases exist with
  | false => trivial
  | true =>
    refine calls_bind ?_ fun _ => trivial
    rw [removeHost]
    exact calls_bind talks_prt fun _ => talks_ofHost _

theorem answer_split {c : ProbeCall} {x : ProbeChoice} {y : ProbeReply c × LogState} (hc : Talks c)
    (hw : w.Same s.files) (hy : probeAnswer localtime c x s = some y) :
    (quiet localtime c x s = true ∧ w.Same y.2.files) ∨
      quiet localtime c x s = false ∧ w.Lost w.table.lowest y.2.files := by
  cases c with
  | prt lvl text =>
    cases x with
    | log xs =>
      obtain ⟨r, hr, rfl⟩ := Option.map_eq_some_iff.mp hy
      exact CLog.prt_split hw hr
    | _ => cases hy
  | store mdb c =>
    cases c <;> cases x <;> cases hy <;> exact .inl ⟨rfl, hw.session _⟩
  | _ => cases hc

theorem lost_answer {c : ProbeCall} {x : ProbeChoice} {y : ProbeReply c × LogState} (hc : Talks c)
    (hw : w.Lost n s.files) (hy : probeAnswer localtime c x s = some y) : w.Lost n y.2.files := by
  cases c with
  | prt lvl text =>
    cases x with
    | log xs =>
      obtain ⟨r, hr, rfl⟩ := Option.map_eq_some_iff.mp hy
      exact CLog.lost_exec hw hr
    | _ => cases hy
  | store mdb c =>
    cases c <;> cases x <;> cases hy <;> exact hw.session _
  | _ => cases hc

theorem same_openPid (u : Files) (path : Str) : u.Same ((u.openFile path).closeFd u.table.lowest) :=
  Files.Same.closeFd_openFile (Files.Same.refl _)

section

variable {α : Type} {r : α × LogState} (hok : ∀ c x s, (∀ lvl text, c ≠ .prt lvl text) → ok c x s = true)
include hok

theorem exec_openPid {path : Str} {f : Except Str Nat → ProbeAct α} :
    exec (probeAnswer localtime) ok xs (askProbe (.openPid path) >>= f) s = some r ↔
      (∃ ys, xs = .ok :: ys ∧ exec (probeAnswer localtime) ok ys (f (.ok s.files.table.lowest))
        ⟨s.log, s.files.openFile path⟩ = some r) ∨
      ∃ err ys, xs = .openFails err :: ys ∧ exec (probeAnswer localtime) ok ys (f (.error err)) s = some r := by
  rw [exec_perform]
  constructor
  · rintro ⟨x, ys, y, rfl, -, hy, h⟩
    cases x <;> cases hy
    · exact .inl ⟨ys, rfl, h⟩
    · exact .inr ⟨_, ys, rfl, h⟩
  · rintro (⟨ys, rfl, h⟩ | ⟨err, ys, rfl, h⟩)
    · exact ⟨_, _, _, rfl, hok _ _ _ nofun, rfl, h⟩
    · exact ⟨_, _, _, rfl, hok _ _ _ nofun, rfl, h⟩

theorem exec_lockf {cmd : LockCmd} {f : Int → ProbeAct α} :
    exec (probeAnswer localtime) ok xs (askProbe (.lockf n cmd) >>= f) s = some r ↔
      ∃ free ys, xs = .lock free :: ys ∧ exec (probeAnswer localtime) ok ys
        (f (if free && (s.files.table.get n).isSome then 0 else -1)) s = some r := by
  rw [exec_perform]
  constructor
  · rintro ⟨x, ys, y, rfl, -, hy, h⟩
    cases x <;> cases hy
    exact ⟨_, ys, rfl, h⟩
  · rintro ⟨free, ys, rfl, h⟩
    exact ⟨_, _, _, rfl, hok _ _ _ nofun, rfl, h⟩

theorem exec_close {f : Unit → ProbeAct α} :
    exec (probeAnswer localtime) ok xs (askProbe (.close n) >>= f) s = some r ↔
      ∃ ys, xs = .ok :: ys ∧ exec (probeAnswer localtime) ok ys (f ()) ⟨s.log, s.files.closeFd n⟩ = some r := by
  rw [exec_perform]
  constructor
  · rintro ⟨x, ys, y, rfl, -, hy, h⟩
    cases x <;> cases hy
    exact ⟨ys, rfl, h⟩
  · rintro ⟨ys, rfl, h⟩
    exact ⟨_, _, _, rfl, hok _ _ _ nofun, rfl, h⟩

end

/-- **What the probe comes to**, when the calls that are not of `prt` may turn out in any way. -/
theorem exec_checkProcessAlive (hok : ∀ c x s, (∀ lvl text, c ≠ .prt lvl text) → ok c x s = true)
    {r : Bool × LogState} :
    exec (probeAnswer localtime) ok xs (checkProcessAlive file host mdb) s = some r ↔
      ∃ w' fd, fd = s.files.table.lowest ∧ w' = (s.files.openFile (cStr file)).closeFd fd ∧
        ((xs = [.ok, .lock false, .ok, .ok] ∧ r = (true, ⟨s.log, w'.closeFd fd⟩)) ∨
          ∃ free ys u, xs = .ok :: .lock true :: .ok :: .lock free :: (ys ++ [.ok]) ∧
            exec (probeAnswer localtime) ok ys (bury host mdb) ⟨s.log, w'⟩ = some ((), u) ∧
            r = (false, ⟨u.log, u.files.closeFd fd⟩)) := by
  have hopen : ((s.files.openFile (cStr file)).table.get s.files.table.lowest).isSome = true := by
    rw [Files.get_openFile, if_pos rfl]
    rfl
  rw [checkProcessAlive, exec_openPid hok]
  constructor
  · rintro (⟨xs, rfl, h⟩ | ⟨err, xs, rfl, h⟩)
    · refine ⟨_, _, rfl, rfl, ?_⟩
      obtain ⟨free, xs₁, rfl, h₁⟩ := (exec_lockf hok).mp h
      obtain ⟨xs₂, rfl, h₂⟩ := (exec_close hok).mp h₁
      cases free with
      | false =>
        obtain ⟨xs₃, rfl, h₃⟩ := (exec_close hok).mp h₂
        obtain ⟨rfl, rfl⟩ := exec_ret.mp h₃
        exact .inl ⟨rfl, rfl⟩
      | true =>
        simp only [hopen, Bool.and_self, if_true] at h₂
        obtain ⟨free, xs₃, rfl, h₃⟩ := (exec_lockf hok).mp h₂
        obtain ⟨ys, xs₄, a, u, rfl, hbury, h₄⟩ := exec_bind.mp h₃
        obtain ⟨xs₅, rfl, h₅⟩ := (exec_close hok).mp h₄
        obtain ⟨rfl, rfl⟩ := exec_ret.mp h₅
        exact .inr ⟨free, ys, u, rfl, hbury, rfl⟩
    · -- the pid file cannot be opened, and `exit` does not return
      obtain ⟨ys, zs, a, u, rfl, -, h⟩ := exec_bind.mp h
      obtain ⟨x, xs', y, -, -, hy, -⟩ := exec_call.mp h
      cases x <;> cases hy
  · rintro ⟨w', fd, rfl, rfl, ⟨rfl, rfl⟩ | ⟨free, ys, u, rfl, hbury, rfl⟩⟩
    · refine .inl ⟨_, rfl, (exec_lockf hok).mpr ⟨false, _, rfl, ?_⟩⟩
      exact (exec_close hok).mpr ⟨_, rfl, (exec_close hok).mpr ⟨_, rfl, rfl⟩⟩
    · refine .inl ⟨_, rfl, (exec_lockf hok).mpr ⟨true, _, rfl, (exec_close hok).mpr ⟨_, rfl, ?_⟩⟩⟩
      simp only [hopen, Bool.and_self, if_true]
      refine (exec_lockf hok).mpr ⟨free, _, rfl, exec_bind.mpr ⟨ys, [.ok], (), u, rfl, hbury, ?_⟩⟩
      exact (exec_close hok).mpr ⟨_, rfl, rfl⟩

theorem quiet_of_not_prt (c : ProbeCall) (x : ProbeChoice) (s : LogState) (hc : ∀ lvl text, c ≠ .prt lvl text) :
    quiet localtime c x s = true := by
  cases c with
  | prt lvl text => exact absurd rfl (hc lvl text)
  | _ => rfl

/-- **The probe leaves open what was open, and the log files it opens, exactly if each of its calls of `prt` is
quiet.** -/
theorem descriptors_kept_iff {r : Bool × LogState}
    (h : exec (probeAnswer localtime) (fun _ _ _ => true) xs (checkProcessAlive file host mdb) s = some r) :
    s.files.Keeps r.2.files ↔
      exec (probeAnswer localtime) (quiet localtime) xs (checkProcessAlive file host mdb) s = some r := by
  have hfree {u : Files} (hu : s.files.Same u) : u.table.get s.files.table.lowest = none := by
    rw [hu.get, Table.get_lowest]
  constructor
  · intro hkeeps
    obtain ⟨w', fd, rfl, rfl, hrun⟩ := (exec_checkProcessAlive fun _ _ _ _ => rfl).mp h
    refine (exec_checkProcessAlive quiet_of_not_prt).mpr ⟨_, _, rfl, rfl, ?_⟩
    rcases hrun with hlocked | ⟨free, ys, u, rfl, hbury, rfl⟩
    · exact .inl hlocked
    · -- up to the last `close` the files are as at first, or lost
      have hsplit : (exec (probeAnswer localtime) (quiet localtime) ys (bury host mdb) _ = some ((), u) ∧
          s.files.Same u.files) ∨ s.files.Lost s.files.table.lowest u.files :=
        exec_split (fun u => s.files.Same u.files) (fun u => s.files.Lost s.files.table.lowest u.files)
          (fun c x u y hc hu _ hy => (answer_split hc hu hy).imp_right And.right)
          (fun c x u y hc hu _ hy => lost_answer hc hu hy) (talks_bury host mdb) (same_openPid _ _) hbury
      rcases hsplit with ⟨hquiet, -⟩ | hlost
      · exact .inr ⟨free, ys, u, rfl, hquiet, rfl⟩
      · exact absurd hkeeps hlost.not_keeps
  · intro hquiet
    obtain ⟨w', fd, rfl, rfl, ⟨-, rfl⟩ | ⟨free, ys, u, -, hbury, rfl⟩⟩ :=
      (exec_checkProcessAlive quiet_of_not_prt).mp hquiet
    · exact (same_openPid _ _).keeps (hfree (same_openPid _ _))
    · have hsame : s.files.Same u.files := by
        refine exec_inv (fun u => s.files.Same u.files) ?_ (talks_bury host mdb) (same_openPid _ _) hbury
        intro c x u y hc hu hx hy
        rcases answer_split hc hu hy with ⟨-, hsame⟩ | ⟨hloud, -⟩
        · exact hsame
        · exact absurd (hx.symm.trans hloud) nofun
      exact hsame.keeps (hfree hsame)

/-- The last second of 15 January 2024 and the first of the next day. -/
def midnight (t : Int) : Tm := if t < 1705363200 then ⟨124, 0, 15, 23, 59, 59⟩ else ⟨124, 0, 16, 0, 0, 0⟩

/-- `pulld` as `main` sets it up, with a log file opened before midnight. -/
def launched : LogState where
  log :=
    let g := (((CLog.new .console).setLogTank (lit "file")).setLogLevel .info).setLogOutByTime (-1)
    { g with filename := lit "../log/error" }.enter (midnight 1705363199) 3
  files := ((((Files.empty 1705363199).openFile (lit "/dev/null")).openFile (lit "/dev/null")).openFile
    (lit "/dev/null")).openLog (lit "../log/error_20240115_23h.log")

theorem descriptors_kept_iff_evening :
    ∃ r, exec (probeAnswer midnight) (fun _ _ _ => true) [.ok, .lock true, .ok, .lock false,
        .log [.now 1705363199, .wrote 50], .log [.now 1705363199, .wrote 50], .found none 1,
        .log [.now 1705363199, .wrote 50], .ok]
        (checkProcessAlive (lit "pid") (lit "10.0.0.1") (lit "mongodb://10.0.0.2")) launched = some r ∧
      launched.files.Keeps r.2.files := by
  obtain ⟨r, h⟩ : ∃ r, exec (probeAnswer midnight) (fun _ _ _ => true) [.ok, .lock true, .ok, .lock false,
      .log [.now 1705363199, .wrote 50], .log [.now 1705363199, .wrote 50], .found none 1,
      .log [.now 1705363199, .wrote 50], .ok]
      (checkProcessAlive (lit "pid") (lit "10.0.0.1") (lit "mongodb://10.0.0.2")) launched = some r := ⟨_, rfl⟩
  exact ⟨r, h, (descriptors_kept_iff h).mpr (Eq.trans rfl h)⟩

/-- After midnight the first line opens a log file at the number of the pid file, and the last `close` takes it. -/
theorem close_takes_log_file :
    ∃ r, exec (probeAnswer midnight) (fun _ _ _ => true) [.ok, .lock true, .ok, .lock false,
        .log [.now 1705363200, .now 1705363200, .opened, .wrote 50], .log [.now 1705363200, .wrote 50],
        .found none 1, .log [.now 1705363200, .wrote 50], .ok]
        (checkProcessAlive (lit "pid") (lit "10.0.0.1") (lit "mongodb://10.0.0.2")) launched = some r ∧
      ¬ launched.files.Keeps r.2.files := by
  refine ⟨_, rfl, fun hkeeps => ?_⟩
  obtain ⟨n, hn⟩ := hkeeps.2 ⟨5, lit "../log/error_20240116_00h.log", 1705363200⟩ (.tail _ (.head _)) (by decide)
  rcases n with _ | _ | _ | _ | _ | _ | n <;> cases hn

end Probe

end PullStream
