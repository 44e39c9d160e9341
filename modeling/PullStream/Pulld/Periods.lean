import PullStream.Base.Run
import PullStream.Pulld.LogFile
/-!
# The files that log lines go to

With the strategy `PURE_LOG_TIME` a line should go to a file of its own hour (`HOUR`) or day (`DAY`), or to one
opened later. `prt` compares one component of the time of the line with that of the file: the hour of the day, or
the day of the month. The two can agree although the file is from another day, or from another month.

A line that opens no file goes to one that was opened before, and any other line to one that was opened after the
line was stamped (`prt_steady`). So in a run in which the clock never goes back and opens and writes succeed, all
lines go to files of their periods exactly if no line meets a file that agrees with it in the component alone
(`lines_in_period_iff`).
-/

namespace PullStream

open Prog Descriptors Transition

/-- The clock does not go back, and opens and writes succeed. -/
def steady : LogCall → LogChoice → Files → Bool
  | .time, .now t, w => w.clock ≤ t
  | _, .openFails _, _ | _, .writeFails, _ => false
  | _, _, _ => true

/-! ### Periods -/

/-- The component that `prt` compares agrees. -/
def TimeStrategeType.SameComponent : TimeStrategeType → Tm → Tm → Prop
  | .hour, a, b => a.hour = b.hour
  | .day, a, b => a.mday = b.mday
  | .week, _, _ => True

/-- The times are of one hour of one date, or of one date. -/
def TimeStrategeType.SamePeriod : TimeStrategeType → Tm → Tm → Prop
  | .hour, a, b => a.year = b.year ∧ a.mon = b.mon ∧ a.mday = b.mday ∧ a.hour = b.hour
  | .day, a, b => a.year = b.year ∧ a.mon = b.mon ∧ a.mday = b.mday
  | .week, _, _ => True

theorem TimeStrategeType.samePeriod_refl (m : TimeStrategeType) (a : Tm) : m.SamePeriod a a := by
  cases m <;> simp [SamePeriod]

/-- The file was opened in the period of the line or later. -/
def InPeriod (localtime : Int → Tm) (m : TimeStrategeType) (f : OpenFile) (line : Line) : Prop :=
  line.time ≤ f.opened ∨ m.SamePeriod (localtime f.opened) line.ptime

/-- Every line has gone to a file that was opened in its period or later. -/
def LinesInPeriod (localtime : Int → Tm) (s : LogState) : Prop :=
  ∀ e ∈ s.files.written, InPeriod localtime s.log.timeStrategeType e.1 e.2.1

/-- If a line is written and the file of the current slot agrees with it in the component that is compared, then the
file is of the period of the line. -/
def Aligned (localtime : Int → Tm) (s : LogState) : LogOp × List LogChoice → Prop
  | (.prt lvl _, .now t :: _) =>
    lvl.val ≤ s.log.logLevel.val → (s.log.fd s.log.cur).isSome = true →
      s.log.timeStrategeType.SameComponent (s.log.curFiletime s.log.cur) (localtime t) →
      s.log.timeStrategeType.SamePeriod (s.log.curFiletime s.log.cur) (localtime t)
  | _ => True

namespace CLog

/-- `m_busy` is `0`, each descriptor of a slot is open on a file of its own, and the time kept with it is that of the
opening. -/
structure Sound (localtime : Int → Tm) (g : CLog) (w : Files) : Prop where
  busy : g.busy = false
  file : ∀ i n, g.fd i = some n →
    ∃ f, w.table.get n = some f ∧ g.curFiletime i = localtime f.opened ∧ f.opened ≤ w.clock
  apart : ∀ i j n, g.fd i = some n → g.fd j = some n → i = j

/-- The module writes to files that it changes by the time `m`. -/
structure ByTime (m : TimeStrategeType) (g : CLog) : Prop where
  strategeType : g.strategeType = .time
  timeStrategeType : g.timeStrategeType = m
  logTank : g.logTank = .file

section

variable {localtime : Int → Tm} {xs : List LogChoice} {g g' : CLog} {w w' : Files} {m : TimeStrategeType}
  {ptime : Tm} {n : Nat} {f : OpenFile}

theorem cut_byTime (hg : g.ByTime m) : g.cut ptime = false ↔ m.SameComponent (g.curFiletime g.cur) ptime := by
  obtain ⟨hs, rfl, -⟩ := hg
  rw [cut, hs]
  cases g.timeStrategeType <;> simp [TimeStrategeType.SameComponent]

namespace Sound

theorem tick (h : g.Sound localtime w) {t : Int} (ht : w.clock ≤ t) : g.Sound localtime (w.tick t) where
  busy := h.busy
  apart := h.apart
  file i n hi := by
    obtain ⟨f, hf, htime, hle⟩ := h.file i n hi
    exact ⟨f, hf, htime, Int.le_trans hle ht⟩

theorem record (h : g.Sound localtime w) {line : Line} {k : Nat} : g.Sound localtime (w.record f line k) :=
  ⟨h.busy, h.file, h.apart⟩

theorem enter (h : g.Sound localtime w) (path : Str) :
    (g.enter (localtime w.clock) (w.closeSlot (g.fd g.next)).table.lowest).Sound localtime
      ((w.closeSlot (g.fd g.next)).openLog path) := by
  have hother {i : Fin 2} (hi : i ≠ g.next) {n : Nat} (hn : g.fd i = some n) :
      (w.closeSlot (g.fd g.next)).table.get n = w.table.get n :=
    Files.get_closeSlot fun hnext => hi (h.apart i g.next n hn hnext)
  have hfresh {i : Fin 2} (hi : i ≠ g.next) {n : Nat} (hn : g.fd i = some n) :
      n ≠ (w.closeSlot (g.fd g.next)).table.lowest := by
    rintro rfl
    obtain ⟨f, hf, -⟩ := h.file i _ hn
    rw [← hother hi hn, Table.get_lowest] at hf
    cases hf
  refine ⟨rfl, fun i n hi => ?_, fun i j n hi hj => ?_⟩
  · by_cases hnext : i = g.next
    · subst hnext
      rw [fd_enter_next, Option.some.injEq] at hi
      subst hi
      refine ⟨(w.closeSlot (g.fd g.next)).make path, ?_, ?_, ?_⟩
      · rw [Files.get_openLog, if_pos rfl]
      · rw [curFiletime_enter_next, Files.make, Files.clock_closeSlot]
      · exact Int.le_refl _
    · rw [fd_enter_of_ne hnext] at hi
      obtain ⟨f, hf, htime, hle⟩ := h.file i n hi
      refine ⟨f, ?_, ?_, ?_⟩
      · rw [Files.get_openLog, if_neg (hfresh hnext hi), hother hnext hi, hf]
      · rw [curFiletime_enter_of_ne hnext, htime]
      · exact Int.le_trans hle (Int.le_of_eq (Files.clock_closeSlot _).symm)
  · by_cases hi' : i = g.next <;> by_cases hj' : j = g.next
    · rw [hi', hj']
    · rw [hi', fd_enter_next, Option.some.injEq] at hi
      rw [fd_enter_of_ne hj'] at hj
      exact absurd hi.symm (hfresh hj' hj)
    · rw [hj', fd_enter_next, Option.some.injEq] at hj
      rw [fd_enter_of_ne hi'] at hi
      exact absurd hj.symm (hfresh hi' hi)
    · rw [fd_enter_of_ne hi'] at hi
      rw [fd_enter_of_ne hj'] at hj
      exact h.apart i j n hi hj

theorem addSize (h : g.Sound localtime w) (ret : Int) : (g.addSize ret).Sound localtime w := by
  rw [CLog.addSize]
  split_ifs
  · exact ⟨h.busy, h.file, h.apart⟩
  · exact h

end Sound

namespace ByTime

theorem enter (h : g.ByTime m) : (g.enter ptime n).ByTime m := ⟨h.strategeType, h.timeStrategeType, h.logTank⟩

theorem addSize (h : g.ByTime m) (ret : Int) : (g.addSize ret).ByTime m := by
  rw [CLog.addSize]
  split_ifs
  · exact ⟨h.strategeType, h.timeStrategeType, h.logTank⟩
  · exact h

end ByTime

/-- The current slot has this file. -/
def Current (g : CLog) (w : Files) (f : OpenFile) : Prop := ∃ n, g.fd g.cur = some n ∧ w.table.get n = some f

theorem newFile_steady {status : FileStatus} (hs : g.Sound localtime w)
    (h : exec logAnswer steady xs (newFile localtime g) w = some ((status, g'), w')) :
    status = .success ∧ g'.Sound localtime w' ∧ (g.ByTime m → g'.ByTime m) ∧ w'.written = w.written ∧
      ∃ f, g'.Current w' f ∧ w.clock ≤ f.opened ∧ f.opened ≤ w'.clock := by
  rcases newFile_cases h with ⟨hbusy, -⟩ | ⟨t, w₁, -, ht, rfl, ⟨path, err, -, hfail, -⟩ | ⟨path, -, -, heq⟩⟩
  · exact absurd (hbusy.symm.trans hs.busy) nofun
  · cases hfail
  · cases heq
    have hle : w.clock ≤ t := of_decide_eq_true ht
    refine ⟨rfl, (hs.tick hle).enter path, ByTime.enter, ?_, ?_⟩
    · exact Files.written_closeSlot (g.fd g.next)
    · refine ⟨((w.tick t).closeSlot (g.fd g.next)).make path, ⟨_, fd_enter_next, ?_⟩, ?_, Int.le_refl _⟩
      · rw [Files.get_openLog, if_pos rfl]
      · rw [Files.make, Files.clock_closeSlot]
        exact hle

theorem withFile_steady {need : Bool} {k : CLog → LogAct (Int × CLog)} {r : (Int × CLog) × Files}
    (hs : g.Sound localtime w) (hm : g.ByTime m)
    (h : exec logAnswer steady xs (withFile localtime need g k) w = some r) :
    (need = false ∧ exec logAnswer steady xs (k g) w = some r) ∨
      need = true ∧ ∃ ys g' w' f, exec logAnswer steady ys (k g') w' = some r ∧ g'.Sound localtime w' ∧ g'.ByTime m ∧
        w'.written = w.written ∧ g'.Current w' f ∧ w.clock ≤ f.opened ∧ f.opened ≤ w'.clock := by
  rcases withFile_cases h with h | ⟨hneed, xs₁, ys, status, g', w', -, hnew, hrest⟩
  · exact .inl h
  · obtain ⟨rfl, hs', hm', hwritten, f, hcur, hle, hle'⟩ := newFile_steady (m := m) hs hnew
    rcases hrest with ⟨hstatus, -⟩ | ⟨-, h⟩
    · cases hstatus
    · exact .inr ⟨hneed, ys, g', w', f, h, hs', hm' hm, hwritten, hcur, hle, hle'⟩

theorem writeLine_steady {line : Line} {r : (Int × CLog) × Files} (hs : g.Sound localtime w) (hm : g.ByTime m)
    (hf : g.Current w f) (h : exec logAnswer steady xs (writeLine line g) w = some r) :
    r.1.2.Sound localtime r.2 ∧ r.1.2.ByTime m ∧ ∃ k, r.2.written = w.written ++ [(f, line, k)] := by
  obtain ⟨n, hn, hf⟩ := hf
  rcases writeLine_cases h with ⟨n', f', k, hn', hf', -, -, -, hg, hw⟩ | ⟨-, hfail, -⟩
  · cases hn.symm.trans hn'
    cases hf.symm.trans hf'
    rw [hg, hw]
    exact ⟨hs.record.addSize k, hm.addSize k, k, rfl⟩
  · rw [steady] at hfail
    cases hfail

/-- A line stamped at `t` goes to the file `f`: the current one, if there is one and its time agrees with that of the
line in the component that is compared, and else one opened since. -/
def Placed (localtime : Int → Tm) (m : TimeStrategeType) (g : CLog) (t : Int) (f : OpenFile) : Prop :=
  ((g.fd g.cur).isSome = true ∧ m.SameComponent (g.curFiletime g.cur) (localtime t) ∧
      g.curFiletime g.cur = localtime f.opened ∧ f.opened ≤ t) ∨
    ¬ ((g.fd g.cur).isSome = true ∧ m.SameComponent (g.curFiletime g.cur) (localtime t)) ∧ t ≤ f.opened

/-- **What `prt` does when opens and writes succeed.** -/
theorem prt_steady {lvl : LogType} {text : Str} {r : (Int × CLog) × Files} (hs : g.Sound localtime w) (hm : g.ByTime m)
    (h : exec logAnswer steady xs (prt localtime lvl text g) w = some r) :
    r.1.2.Sound localtime r.2 ∧ r.1.2.ByTime m ∧ ((xs = [] ∧ r.2.written = w.written) ∨
      ∃ t ys f line k, xs = .now t :: ys ∧ lvl.val ≤ g.logLevel.val ∧ line.time = t ∧ line.ptime = localtime t ∧
        r.2.written = w.written ++ [(f, line, k)] ∧ Placed localtime m g t f) := by
  rcases prt_cases h with ⟨-, rfl, rfl⟩ | ⟨t, ys, hlvl, rfl, ht, ⟨htank, -⟩ | ⟨-, h⟩⟩
  · exact ⟨hs, hm, .inl ⟨rfl, rfl⟩⟩
  · exact absurd (htank.symm.trans hm.logTank) nofun
  · have hle : w.clock ≤ t := of_decide_eq_true ht
    have hline {zs : List LogChoice} {g' : CLog} {w' : Files} {f : OpenFile} (hs' : g'.Sound localtime w')
        (hm' : g'.ByTime m) (hf : g'.Current w' f) (hwritten : w'.written = w.written)
        (h : exec logAnswer steady zs (writeLine ⟨t, localtime t, lvl, snprintf 512 (cStr text)⟩ g') w' = some r)
        (hplaced : Placed localtime m g t f) :
        r.1.2.Sound localtime r.2 ∧ r.1.2.ByTime m ∧ ∃ f line k, line.time = t ∧ line.ptime = localtime t ∧
          r.2.written = w.written ++ [(f, line, k)] ∧ Placed localtime m g t f := by
      obtain ⟨hsr, hmr, k, hk⟩ := writeLine_steady hs' hm' hf h
      exact ⟨hsr, hmr, f, _, k, rfl, rfl, hk.trans (by rw [hwritten]), hplaced⟩
    suffices hgoal : r.1.2.Sound localtime r.2 ∧ r.1.2.ByTime m ∧ ∃ f line k, line.time = t ∧
        line.ptime = localtime t ∧ r.2.written = w.written ++ [(f, line, k)] ∧ Placed localtime m g t f by
      obtain ⟨hsr, hmr, f, line, k, hrest⟩ := hgoal
      exact ⟨hsr, hmr, .inr ⟨t, ys, f, line, k, rfl, hlvl, hrest⟩⟩
    rcases withFile_steady (hs.tick hle) hm h with
      ⟨hcur, h⟩ | ⟨hcur, zs, g₁, w₁, f₁, h, hs₁, hm₁, hw₁, hf₁, hle₁, hle₁'⟩
    · obtain ⟨n, hn⟩ : ∃ n, g.fd g.cur = some n := by simpa [Option.isSome_iff_exists] using hcur
      obtain ⟨f, hf, htime, hopened⟩ := (hs.tick hle).file g.cur n hn
      rcases withFile_steady (hs.tick hle) hm h with
        ⟨hcut, h⟩ | ⟨hcut, zs, g₁, w₁, f₁, h, hs₁, hm₁, hw₁, hf₁, hle₁, -⟩
      · refine hline (hs.tick hle) hm ⟨n, hn, hf⟩ rfl h (.inl ⟨?_, (cut_byTime hm).mp hcut, htime, hopened⟩)
        rw [hn]
        rfl
      · refine hline hs₁ hm₁ hf₁ hw₁ h (.inr ⟨fun hsame => ?_, hle₁⟩)
        exact absurd (((cut_byTime hm).mpr hsame.2).symm.trans hcut) nofun
    · have hnone : ¬ ((g.fd g.cur).isSome = true ∧ m.SameComponent (g.curFiletime g.cur) (localtime t)) := by
        rintro ⟨hsome, -⟩
        rw [Option.isNone_iff_eq_none] at hcur
        rw [hcur] at hsome
        cases hsome
      rcases withFile_steady hs₁ hm₁ h with ⟨-, h⟩ | ⟨-, zs', g₂, w₂, f₂, h, hs₂, hm₂, hw₂, hf₂, hle₂, -⟩
      · exact hline hs₁ hm₁ hf₁ hw₁ h (.inr ⟨hnone, hle₁⟩)
      · exact hline hs₂ hm₂ hf₂ (hw₂.trans hw₁) h (.inr ⟨hnone, Int.le_trans hle₁ (Int.le_trans hle₁' hle₂)⟩)

theorem Placed.inPeriod_iff {t : Int} {line : Line} (h : Placed localtime m g t f) (ht : line.time = t)
    (hp : line.ptime = localtime t) :
    InPeriod localtime m f line ↔ ((g.fd g.cur).isSome = true →
      m.SameComponent (g.curFiletime g.cur) (localtime t) → m.SamePeriod (g.curFiletime g.cur) (localtime t)) := by
  rw [InPeriod, ht, hp]
  rcases h with ⟨hsome, hsame, htime, hle⟩ | ⟨hnot, hle⟩
  · rw [← htime]
    constructor
    · rintro (hle' | hperiod) - -
      · obtain rfl : f.opened = t := Int.le_antisymm hle hle'
        rw [htime]
        exact m.samePeriod_refl _
      · exact hperiod
    · intro hperiod
      exact .inr (hperiod hsome hsame)
  · exact iff_of_true (.inl hle) fun hsome hsame => absurd ⟨hsome, hsame⟩ hnot

theorem init_steady {path filename : Str} {r : CLog × Files} (hs : g.Sound localtime w) (hm : g.ByTime m)
    (h : exec logAnswer steady xs (g.init localtime path filename) w = some r) :
    r.1.Sound localtime r.2 ∧ r.1.ByTime m ∧ r.2.written = w.written := by
  rw [CLog.init] at h
  split_ifs at h
  · obtain ⟨x, xs, y, rfl, -, hy, h⟩ := exec_perform.mp h
    obtain ⟨rfl, rfl⟩ := logAnswer_printf hy
    obtain ⟨-, rfl⟩ := exec_ret.mp h
    exact ⟨hs, hm, rfl⟩
  · obtain ⟨ys, zs, ⟨status, g'⟩, w', -, hnew, h⟩ := exec_bind.mp h
    obtain ⟨-, rfl⟩ := exec_ret.mp h
    obtain ⟨-, hs', hm', hwritten, -⟩ := newFile_steady (m := m) (by exact ⟨hs.busy, hs.file, hs.apart⟩) hnew
    exact ⟨hs', hm' ⟨hm.strategeType, hm.timeStrategeType, hm.logTank⟩, hwritten⟩

end

end CLog

/-! ### Runs -/

/-- The functions that leave the strategy and the tank as they are. -/
def LogOp.atWork : LogOp → Bool
  | .init _ _ | .setLogLevel _ | .prt _ _ => true
  | _ => false

/-- What has been written so far is not looked at. -/
def Files.unwritten (w : Files) : Files := { w with written := [] }

/-- A `CLog` that has been set up for files that change with the time, in a process with any files open. -/
def started (tank : LogTank) (h : Int) (w : Files) : LogState :=
  ⟨((CLog.new tank).setLogTank (lit "file")).setLogOutByTime h, w.unwritten⟩

section

variable {localtime : Int → Tm} {m : TimeStrategeType} {s u : LogState} {l : LogOp × List LogChoice}
  {ls : List (LogOp × List LogChoice)} {tank : LogTank} {h : Int} {w : Files}

/-- The module is set up for files that change by the time `m`, and its slots are in order. -/
def Working (localtime : Int → Tm) (m : TimeStrategeType) (s : LogState) : Prop :=
  s.log.Sound localtime s.files ∧ s.log.ByTime m

theorem working_started : Working localtime (if 0 < h then .hour else .day) (started tank h w) := by
  refine ⟨⟨rfl, nofun, nofun⟩, rfl, rfl, ?_⟩
  rw [started, CLog.setLogTank, if_pos (by decide)]
  rfl

theorem linesInPeriod_started : LinesInPeriod localtime (started tank h w) := by
  intro e he
  exact absurd he List.not_mem_nil

/-- **A step of a run**: the lines written stay in their periods exactly if the line that is written, if any, meets no
file that agrees with it in the component alone. -/
theorem working_step (hw : Working localtime m s) (hl : l.1.atWork = true)
    (hstep : s.step localtime steady l = some u) :
    Working localtime m u ∧ (LinesInPeriod localtime s → (LinesInPeriod localtime u ↔ Aligned localtime s l)) := by
  obtain ⟨hs, hm⟩ := hw
  obtain ⟨r, hr, rfl⟩ := Option.map_eq_some_iff.mp hstep
  have hlines_iff {g : CLog} {w : Files} (hg : g.ByTime m) :
      LinesInPeriod localtime ⟨g, w⟩ ↔ ∀ e ∈ w.written, InPeriod localtime m e.1 e.2.1 := by
    rw [LinesInPeriod, hg.timeStrategeType]
  have hsame (hm' : r.1.ByTime m) (hwritten : r.2.written = s.files.written) (hlines : LinesInPeriod localtime s) :
      LinesInPeriod localtime ⟨r.1, r.2⟩ := by
    rw [hlines_iff hm', hwritten]
    exact (hlines_iff hm).mp hlines
  obtain ⟨op, xs⟩ := l
  cases op with
  | init path filename =>
    obtain ⟨hs', hm', hwritten⟩ := CLog.init_steady hs hm hr
    exact ⟨⟨hs', hm'⟩, fun hlines => iff_of_true (hsame hm' hwritten hlines) trivial⟩
  | setLogLevel lvl =>
    obtain ⟨-, rfl⟩ := exec_ret.mp hr
    have hm' : (s.log.setLogLevel lvl).ByTime m := ⟨hm.strategeType, hm.timeStrategeType, hm.logTank⟩
    exact ⟨⟨⟨hs.busy, hs.file, hs.apart⟩, hm'⟩, fun hlines => iff_of_true (hsame hm' rfl hlines) trivial⟩
  | prt lvl text =>
    obtain ⟨xs', ys, ⟨rtn, g⟩, w', rfl, hprt, h⟩ := exec_bind.mp hr
    obtain ⟨rfl, rfl⟩ := exec_ret.mp h
    rw [List.append_nil]
    obtain ⟨hs', hm', ⟨rfl, hwritten⟩ | ⟨t, ys, f, line, k, rfl, hlvl, ht, hp, hwritten, hplaced⟩⟩ :=
      CLog.prt_steady hs hm hprt
    · exact ⟨⟨hs', hm'⟩, fun hlines => iff_of_true (hsame hm' hwritten hlines) trivial⟩
    · refine ⟨⟨hs', hm'⟩, fun hlines => ?_⟩
      have hnew : LinesInPeriod localtime ⟨g, w'⟩ ↔ InPeriod localtime m f line := by
        rw [hlines_iff hm', hwritten, List.forall_mem_append, List.forall_mem_singleton]
        exact and_iff_right ((hlines_iff hm).mp hlines)
      rw [hnew, hplaced.inPeriod_iff ht hp]
      simp only [Aligned, hm.timeStrategeType]
      exact ⟨fun hline _ => hline, fun hline => hline hlvl⟩
  | _ => cases hl

/-- **In a run all lines go to files of their own periods, or to files opened later, exactly if no line meets a file
of another period that agrees with it in the component that is compared.** -/
theorem lines_in_period_iff :
    (Runs (LogState.step localtime steady) (fun s l => l.1.atWork = true ∧ LinesInPeriod localtime s)
        (started tank h w) ls u ∧ LinesInPeriod localtime u) ↔
      Runs (LogState.step localtime steady) (fun s l => l.1.atWork = true ∧ Aligned localtime s l)
        (started tank h w) ls u := by
  refine Runs.always_iff (Working localtime (if 0 < h then .hour else .day)) (LinesInPeriod localtime) working_started
    linesInPeriod_started ?_ ?_
  · intro t l u ht hl hstep
    exact (working_step ht hl hstep).1
  · intro t l u ht hlines hl hstep
    exact (working_step ht hl hstep).2 hlines

/-- 15 January 2024 and 15 February 2024, at ten in the morning. -/
def midMonth (t : Int) : Tm := if t < 1706745600 then ⟨124, 0, 15, 10, 0, 0⟩ else ⟨124, 1, 15, 10, 0, 0⟩

/-- `pulld` starts in January, and writes its first line a month later. -/
def monthApart : List (LogOp × List LogChoice) :=
  [(.init (lit "../log/") (lit "error"), [.now 1705312800, .opened]),
    (.prt .crit (lit "pull2push does not running, host = 10.0.0.1"), [.now 1707991200, .wrote 72])]

/-- The line of February goes to the file of January. -/
theorem line_in_old_file :
    ∃ u, Runs (LogState.step midMonth steady) (fun _ l => l.1.atWork = true)
      (started .console (-1) (Files.empty 1705312800)) monthApart u ∧ ¬ LinesInPeriod midMonth u := by
  have hrun : (check (LogState.step midMonth steady) (fun _ l => l.1.atWork = true) monthApart
      (started .console (-1) (Files.empty 1705312800))).isSome = true := by decide
  refine ⟨_, runs_get hrun, fun hlines => ?_⟩
  rcases hlines _ (.head _) with hle | ⟨-, hmon, -⟩
  · exact absurd hle (by decide)
  · exact absurd hmon (by decide)

end

end PullStream
