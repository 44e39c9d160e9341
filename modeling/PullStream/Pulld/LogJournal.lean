import PullStream.Pulld.LogSlots
/-!
# The files of the log are one journal

A message that `prt` is to write, by its level and the tank of the log, is written once or, if a call fails, not at
all; and lines are written in the order of the messages, each to the file that was opened last at that moment
(`toLast`). So the files, read one after the other as they were opened, are the accepted messages in order, whatever
the strategies were and however often they were changed (`log_journal`). What is accepted is told by the calls alone
(`journal`).
-/

namespace PullStream

open Prog Transition

/-! ### What is to be written -/

/-- What a `CLog` looks at to see whether a message is written. -/
structure LogFilter where
  logLevel : LogType
  logTank : LogTank
  deriving DecidableEq, Repr

/-- An entry of the journal: the level of a message and its text, as much of it as is printed. -/
abbrev LogEntry := LogType × Str

namespace LogFilter

/-- The filter after a call. -/
def after (f : LogFilter) : LogOp → LogFilter
  | .setLogLevel lvl => { f with logLevel := lvl }
  | .setLogTank tank =>
    if cStr tank = lit "file" then { f with logTank := .file }
    else if cStr tank = lit "console" then { f with logTank := .console }
    else f
  | _ => f

/-- What a call is to write. -/
def entries (f : LogFilter) : LogOp → List LogEntry
  | .prt lvl text => if lvl.val ≤ f.logLevel.val ∧ f.logTank = .file then [(lvl, snprintf 512 (cStr text))] else []
  | _ => []

/-- What some calls are to write. -/
def journal (f : LogFilter) : List LogOp → List LogEntry
  | [] => []
  | op :: ops => f.entries op ++ (f.after op).journal ops

theorem journal_append (f : LogFilter) (ops : List LogOp) (op : LogOp) :
    f.journal (ops ++ [op]) = f.journal ops ++ (ops.foldl after f).entries op := by
  induction ops generalizing f with
  | nil => simp [journal]
  | cons o ops ih => simp [journal, ih]

end LogFilter

def CLog.filter (g : CLog) : LogFilter := ⟨g.logLevel, g.logTank⟩

/-- The entry that a line is for. -/
def Line.entry (l : Line) : LogEntry := (l.lvl, l.parameters)

namespace Files

/-- The entries of what has been written. -/
def entries (w : Files) : List LogEntry := w.written.map fun x => x.2.1.entry

theorem entries_closeSlot (w : Files) (fd : Option Nat) : (w.closeSlot fd).entries = w.entries := by
  cases fd <;> rfl

/-- Lines are in log files, in the order in which these were opened. -/
structure InTurn (w : Files) : Prop where
  opened : w.logs.Pairwise fun f f' => f.id < f'.id
  mem : ∀ x ∈ w.written, x.1 ∈ w.logs
  written : w.written.Pairwise fun x x' => x.1.id ≤ x'.1.id

namespace InTurn

variable {w : Files} {f : OpenFile} {line : Line} {k : Nat}

theorem closeSlot (h : w.InTurn) (fd : Option Nat) : (w.closeSlot fd).InTurn := by
  cases fd <;> exact ⟨h.opened, h.mem, h.written⟩

theorem tick (h : w.InTurn) (t : Int) : (w.tick t).InTurn := ⟨h.opened, h.mem, h.written⟩

theorem openLog (h : w.InTurn) (path : Str) : (w.openLog path).InTurn where
  opened := by
    refine List.pairwise_append.mpr ⟨h.opened, List.pairwise_singleton _ _, fun f hf f' hf' => ?_⟩
    obtain rfl := List.mem_singleton.mp hf'
    exact w.logs_id_lt f hf
  mem x hx := List.mem_append_left _ (h.mem x hx)
  written := h.written

theorem record (h : w.InTurn) (hf : w.logs.getLast? = some f) : (w.record f line k).InTurn where
  opened := h.opened
  mem x hx := by
    rcases List.mem_append.mp hx with hx | hx
    · exact h.mem x hx
    · obtain rfl := List.mem_singleton.mp hx
      exact List.mem_of_getLast? hf
  written := by
    refine List.pairwise_append.mpr ⟨h.written, List.pairwise_singleton _ _, fun x hx x' hx' => ?_⟩
    obtain rfl := List.mem_singleton.mp hx'
    obtain ⟨init, hinit⟩ := List.getLast?_eq_some_iff.mp hf
    have hopened := h.opened
    have hmem := h.mem x hx
    rw [hinit] at hopened hmem
    rcases List.mem_append.mp hmem with hmem | hmem
    · exact Nat.le_of_lt ((List.pairwise_append.mp hopened).2.2 x.1 hmem f (List.mem_singleton_self f))
    · exact Nat.le_of_eq (congrArg OpenFile.id (List.mem_singleton.mp hmem))

end InTurn

end Files

/-! ### What is written -/

/-- What is written to is the file that was opened last. -/
def toLast : LogCall → LogChoice → Files → Bool
  | .write fd _, _, w => fd.isSome ∧ fd.bind w.table.get = w.logs.getLast?
  | _, _, _ => true

theorem toLast_of_disciplined (c : LogCall) (x : LogChoice) (w : Files) (h : disciplined c x w = true) :
    toLast c x w = true := by
  cases c with
  | write fd line =>
    obtain ⟨-, n, hn, -, hlast⟩ := of_decide_eq_true h
    obtain rfl : fd = some n := hn
    exact decide_eq_true ⟨rfl, hlast⟩
  | _ => rfl

def LogChoice.isFailure : LogChoice → Bool
  | .openFails _ | .writeFails => true
  | _ => false

/-- Some call may fail. -/
def MayFail (ok : LogCall → LogChoice → Files → Bool) : Prop := ∃ c x w, ok c x w = true ∧ x.isFailure = true

/-- What `said` is to be written has been written, unless a call has failed. -/
structure Journals (ok : LogCall → LogChoice → Files → Bool) (said : List LogEntry) (g : CLog) (w : Files) (g' : CLog)
    (w' : Files) : Prop where
  orderly : g'.Orderly w'
  inTurn : w'.InTurn
  filter : g'.filter = g.filter
  entries : ∃ l, w'.entries = w.entries ++ l ∧ l.Sublist said ∧ (l = said ∨ MayFail ok)

section

variable {localtime : Int → Tm} {ok : LogCall → LogChoice → Files → Bool} {xs : List LogChoice} {g g' g'' : CLog}
  {w w' w'' : Files} {said : List LogEntry}

namespace Journals

theorem same (h : g'.Orderly w') (ht : w'.InTurn) (hfilter : g'.filter = g.filter) (hentries : w'.entries = w.entries)
    (hsaid : said = [] ∨ MayFail ok) : Journals ok said g w g' w' :=
  ⟨h, ht, hfilter, [], by rw [hentries, List.append_nil], List.nil_sublist said, hsaid.imp_left Eq.symm⟩

theorem trans (h : Journals ok [] g w g' w') (h' : Journals ok said g' w' g'' w'') : Journals ok said g w g'' w'' where
  orderly := h'.orderly
  inTurn := h'.inTurn
  filter := h'.filter.trans h.filter
  entries := by
    obtain ⟨l, hl, hnil, -⟩ := h.entries
    obtain ⟨l', hl', hsub, hall⟩ := h'.entries
    obtain rfl := List.sublist_nil.mp hnil
    rw [List.append_nil] at hl
    exact ⟨l', hl' ▸ hl ▸ rfl, hsub, hall⟩

end Journals

namespace CLog

@[simp] theorem filter_addSize (g : CLog) (ret : Int) : (g.addSize ret).filter = g.filter := by
  rw [addSize]
  split_ifs <;> rfl

theorem newFile_journals {status : FileStatus} (h : g.Orderly w) (ht : w.InTurn)
    (hexec : exec logAnswer ok xs (newFile localtime g) w = some ((status, g'), w')) :
    Journals ok [] g w g' w' ∧ (status = .failure → MayFail ok) := by
  rcases newFile_cases hexec with ⟨hbusy, -⟩ | ⟨t, w₁, -, -, rfl, ⟨path, err, -, hfail, heq⟩ | ⟨path, -, -, heq⟩⟩
  · exact absurd (h.busy.symm.trans hbusy) Bool.false_ne_true
  · cases heq
    have hclosed := (ht.tick t).closeSlot (g.fd g.next)
    have hentries := Files.entries_closeSlot (w.tick t) (g.fd g.next)
    exact ⟨.same (h.tick t).lose hclosed rfl hentries (.inl rfl), fun _ => ⟨_, _, _, hfail, rfl⟩⟩
  · cases heq
    have hclosed := (ht.tick t).closeSlot (g.fd g.next)
    have hentries := Files.entries_closeSlot (w.tick t) (g.fd g.next)
    refine ⟨.same ((h.tick t).enter path (localtime t)) (hclosed.openLog path) rfl hentries (.inl rfl), ?_⟩
    intro hstatus
    cases hstatus

theorem withFile_journals {need : Bool} {k : CLog → LogAct (Int × CLog)} {r : (Int × CLog) × Files} (h : g.Orderly w)
    (ht : w.InTurn) (hexec : exec logAnswer ok xs (withFile localtime need g k) w = some r)
    (hk : ∀ g' w' xs', g'.Orderly w' → w'.InTurn → g'.filter = g.filter →
      exec logAnswer ok xs' (k g') w' = some r → Journals ok said g' w' r.1.2 r.2) :
    Journals ok said g w r.1.2 r.2 := by
  rcases withFile_cases hexec with ⟨-, hexec⟩ | ⟨-, xs₁, xs₂, status, g', w', -, hnew, hend⟩
  · exact hk g w xs h ht rfl hexec
  · obtain ⟨hj, hfails⟩ := newFile_journals h ht hnew
    refine hj.trans ?_
    rcases hend with ⟨hstatus, -, rfl⟩ | ⟨-, hexec⟩
    · exact .same hj.orderly hj.inTurn rfl rfl (.inr (hfails hstatus))
    · exact hk g' w' xs₂ hj.orderly hj.inTurn hj.filter hexec

theorem writeLine_journals {line : Line} {r : (Int × CLog) × Files} (h : g.Orderly w) (ht : w.InTurn)
    (hexec : exec logAnswer ok xs (writeLine line g) w = some r) :
    Journals ok [line.entry] g w r.1.2 r.2 := by
  obtain ⟨⟨ret, g'⟩, w'⟩ := r
  rcases writeLine_cases hexec with ⟨n, f, k, hfd, hf, -, -, -, rfl, rfl⟩ | ⟨-, hfail, rfl, rfl⟩
  · have hlast : w.logs.getLast? = some f := by
      rw [← h.current, hfd, Option.bind_some, hf]
    refine ⟨(h.record f line k).addSize k, ht.record hlast, filter_addSize g k, [line.entry], ?_, .refl _, .inl rfl⟩
    simp [Files.entries, Files.record]
  · exact .same h ht rfl rfl (.inr ⟨_, _, _, hfail, rfl⟩)

theorem prt_journals {lvl : LogType} {text : Str} {r : (Int × CLog) × Files} (h : g.Orderly w) (ht : w.InTurn)
    (hexec : exec logAnswer ok xs (prt localtime lvl text g) w = some r) :
    Journals ok (g.filter.entries (.prt lvl text)) g w r.1.2 r.2 := by
  rcases prt_cases hexec with ⟨hlvl, -, rfl⟩ | ⟨t, xs', hlvl, -, -, ⟨htank, rfl⟩ | ⟨htank, hexec⟩⟩
  · have hsaid : g.filter.entries (.prt lvl text) = [] := if_neg fun hle => Nat.not_le_of_lt hlvl hle.1
    exact .same h ht rfl rfl (.inl hsaid)
  · have hsaid : g.filter.entries (.prt lvl text) = [] := by
      refine if_neg fun hle => ?_
      rw [show g.filter.logTank = .console from htank] at hle
      cases hle.2
    exact .same (h.tick t) (ht.tick t) rfl rfl (.inl hsaid)
  · have hsaid : g.filter.entries (.prt lvl text) = [(lvl, snprintf 512 (cStr text))] := if_pos ⟨hlvl, htank⟩
    rw [hsaid]
    refine Journals.trans (.same (h.tick t) (ht.tick t) rfl rfl (.inl rfl)) ?_
    refine withFile_journals (h.tick t) (ht.tick t) hexec fun g₁ w₁ xs₁ h₁ ht₁ hf₁ hexec₁ => ?_
    refine withFile_journals h₁ ht₁ hexec₁ fun g₂ w₂ xs₂ h₂ ht₂ _ hexec₂ => ?_
    exact writeLine_journals h₂ ht₂ hexec₂

/-- **What a function of the class is to write is written**, and changes what is to be written later as `after` says. -/
theorem prog_journals {op : LogOp} {r : CLog × Files} (h : g.Orderly w) (ht : w.InTurn)
    (hexec : exec logAnswer ok xs (op.prog localtime g) w = some r) :
    r.1.Orderly r.2 ∧ r.2.InTurn ∧ r.1.filter = g.filter.after op ∧ ∃ l, r.2.entries = w.entries ++ l ∧
      l.Sublist (g.filter.entries op) ∧ (l = g.filter.entries op ∨ MayFail ok) := by
  have hnone : ∃ l, w.entries = w.entries ++ l ∧ l.Sublist ([] : List LogEntry) ∧ (l = [] ∨ MayFail ok) :=
    ⟨[], (List.append_nil _).symm, .refl _, .inl rfl⟩
  have horderly := (exec_of_pre (pre_prog h op) (exec_mono (fun _ _ _ _ => rfl) hexec)).2
  cases op with
  | init path filename =>
    rw [LogOp.prog, CLog.init] at hexec
    split_ifs at hexec
    · obtain ⟨x, xs', y, -, -, hy, hexec⟩ := exec_perform.mp hexec
      obtain ⟨-, rfl⟩ := logAnswer_printf hy
      obtain ⟨-, rfl⟩ := exec_ret.mp hexec
      exact ⟨horderly, ht, rfl, hnone⟩
    · obtain ⟨xs₁, xs₂, ⟨status, g'⟩, w', -, hnew, hexec⟩ := exec_bind.mp hexec
      obtain ⟨-, rfl⟩ := exec_ret.mp hexec
      have hnamed : CLog.Orderly { g with filename := snprintf 256 (cStr path ++ cStr filename) } w :=
        ⟨h.busy, h.pos, h.slots, h.current⟩
      obtain ⟨hj, -⟩ := newFile_journals hnamed ht hnew
      exact ⟨hj.orderly, hj.inTurn, hj.filter, hj.entries⟩
  | setLogLevel lvl =>
    obtain ⟨-, rfl⟩ := exec_ret.mp hexec
    exact ⟨horderly, ht, rfl, hnone⟩
  | setLogTank tank =>
    obtain ⟨-, rfl⟩ := exec_ret.mp hexec
    refine ⟨horderly, ht, ?_, hnone⟩
    show (g.setLogTank tank).filter = _
    rw [setLogTank, LogFilter.after]
    split_ifs <;> rfl
  | setLogOutByTime hour =>
    obtain ⟨-, rfl⟩ := exec_ret.mp hexec
    exact ⟨horderly, ht, rfl, hnone⟩
  | setLogOutByAmount len size =>
    obtain ⟨-, rfl⟩ := exec_ret.mp hexec
    exact ⟨horderly, ht, rfl, hnone⟩
  | prt lvl text =>
    obtain ⟨xs₁, xs₂, ⟨ret, g'⟩, w', -, hprt, hexec⟩ := exec_bind.mp hexec
    obtain ⟨-, rfl⟩ := exec_ret.mp hexec
    have hj := prt_journals h ht hprt
    exact ⟨hj.orderly, hj.inTurn, hj.filter, hj.entries⟩

end CLog

/-! ### Runs -/

/-- What has been written after some calls. -/
structure Journalled (ok : LogCall → LogChoice → Files → Bool) (f : LogFilter) (ls : List (LogOp × List LogChoice))
    (s : LogState) : Prop where
  orderly : s.log.Orderly s.files
  inTurn : s.files.InTurn
  filter : s.log.filter = (ls.map Prod.fst).foldl LogFilter.after f
  entries : s.files.entries.Sublist (f.journal (ls.map Prod.fst)) ∧
    (s.files.entries = f.journal (ls.map Prod.fst) ∨ MayFail ok)

variable {f : LogFilter} {ls : List (LogOp × List LogChoice)} {l : LogOp × List LogChoice} {s u : LogState}

theorem Journalled.step (h : Journalled ok f ls s) (hstep : s.step localtime ok l = some u) :
    Journalled ok f (ls ++ [l]) u := by
  obtain ⟨r, hr, rfl⟩ := Option.map_eq_some_iff.mp hstep
  obtain ⟨horderly, hturn, hfilter, new, hnew, hsub, hall⟩ := CLog.prog_journals h.orderly h.inTurn hr
  have hjournal : f.journal ((ls ++ [l]).map Prod.fst) =
      f.journal (ls.map Prod.fst) ++ s.log.filter.entries l.1 := by
    rw [List.map_append, h.filter]
    exact LogFilter.journal_append f (ls.map Prod.fst) l.1
  refine ⟨horderly, hturn, ?_, ?_⟩
  · rw [List.map_append, List.foldl_append, ← h.filter]
    exact hfilter
  · rw [hjournal, hnew]
    refine ⟨h.entries.1.append hsub, ?_⟩
    rcases h.entries.2 with hold | hfail
    · exact hall.imp_left fun hl => congrArg₂ (· ++ ·) hold hl
    · exact .inr hfail

theorem journalled_constructed {tank : LogTank} {w : Files} :
    Journalled ok ⟨.debug, tank⟩ [] (constructed tank w) where
  orderly := orderly_unlogged rfl rfl rfl
  inTurn := ⟨.nil, fun _ hx => (List.not_mem_nil hx).elim, .nil⟩
  filter := rfl
  entries := ⟨.slnil, .inl rfl⟩

theorem step_toLast (h : s.log.Orderly s.files) (hstep : s.step localtime ok l = some u) :
    s.step localtime toLast l = some u := by
  obtain ⟨r, hr, rfl⟩ := Option.map_eq_some_iff.mp hstep
  obtain ⟨hdisciplined, -⟩ := exec_of_pre (CLog.pre_prog h l.1) (exec_mono (fun _ _ _ _ => rfl) hr)
  exact Option.map_eq_some_iff.mpr ⟨r, exec_mono toLast_of_disciplined hdisciplined, rfl⟩

/-- **The log is a journal**: whatever is called in which order, and whatever the calls come to, each line stands for an
accepted message, in order and for each at most once; the lines are in the order in which their files were opened, and
every write of the run is to the file that was opened last at that moment. If no call fails, no accepted message is
missing. -/
theorem log_journal {tank : LogTank} {w : Files}
    (h : Runs (LogState.step localtime ok) (fun _ _ => True) (constructed tank w) ls u) :
    (u.files.entries.Sublist (LogFilter.journal ⟨.debug, tank⟩ (ls.map Prod.fst)) ∧ u.files.InTurn ∧
        Runs (LogState.step localtime toLast) (fun _ _ => True) (constructed tank w) ls u) ∧
      ((∀ c x w, ok c x w = true → x.isFailure = false) →
        u.files.entries = LogFilter.journal ⟨.debug, tank⟩ (ls.map Prod.fst)) := by
  obtain ⟨hj, hlast⟩ : Journalled ok ⟨.debug, tank⟩ ls u ∧
      Runs (LogState.step localtime toLast) (fun _ _ => True) (constructed tank w) ls u :=
    h.invTrace (fun ls s => Journalled ok ⟨.debug, tank⟩ ls s ∧
      Runs (LogState.step localtime toLast) (fun _ _ => True) (constructed tank w) ls s) ⟨journalled_constructed, .nil⟩
      fun _ _ _ _ ⟨ht, hrun⟩ _ hstep => ⟨ht.step hstep, hrun.snoc trivial (step_toLast ht.orderly hstep)⟩
  refine ⟨⟨hj.entries.1, hj.inTurn, hlast⟩, fun hok => hj.entries.2.resolve_right ?_⟩
  rintro ⟨c, x, w, hx, hfail⟩
  exact Bool.false_ne_true ((hok c x w hx).symm.trans hfail)

/-- Lines of two hours; in between the level is raised, and one message is not written. -/
def twoHours : List (LogOp × List LogChoice) :=
  [(.init (lit "../log/") (lit "sys"), [.now 10, .opened]), (.setLogTank (lit "file"), []), (.setLogOutByTime 1, []),
    (.prt .info (lit "a"), [.now 10, .wrote 30]), (.setLogLevel .error, []), (.prt .info (lit "b"), []),
    (.prt .error (lit "c"), [.now 11, .now 11, .opened, .wrote 31])]

def noFailure (_ : LogCall) (x : LogChoice) (_ : Files) : Bool := !x.isFailure

def twoHoursEnd : LogState :=
  (check (LogState.step hours noFailure) (fun _ _ => True) twoHours (constructed .console (Files.empty 0))).get
    (by decide +kernel)

theorem log_journal_two_hours :
    (twoHoursEnd.files.entries.Sublist [(.info, lit "a"), (.error, lit "c")] ∧ twoHoursEnd.files.InTurn ∧
        Runs (LogState.step hours toLast) (fun _ _ => True) (constructed .console (Files.empty 0))
          twoHours twoHoursEnd) ∧
      ((∀ c x w, noFailure c x w = true → x.isFailure = false) →
        twoHoursEnd.files.entries = [(.info, lit "a"), (.error, lit "c")]) :=
  @log_journal hours noFailure twoHours twoHoursEnd .console (Files.empty 0) (runs_get _)

end

end PullStream
