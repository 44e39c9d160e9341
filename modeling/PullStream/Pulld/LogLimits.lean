import PullStream.Pulld.LogSlots
import Mathlib.Data.Finset.Card
/-!
# Log files of limited length

With the strategy `PURE_LOG_SPACE` the files of the log are numbered from 1 to `m_amount_size` and used in turn, and a
file is to be left before a line could bring it beyond `m_max_file_size`. There are never more files than that. But
their lengths can pass the limit. A file is opened for appending, and `new_file` starts the count of its bytes at 0
also if it has lines from an earlier round. The room that is kept for a line, 512 bytes, is that of the text alone, and
the date and the level come on top. And a limit below 512 bytes is no limit at all, as the room is subtracted from an
unsigned number.

So the limits are kept in a run in which opens succeed and writes are complete exactly if each line fits into the file
that it goes to, with what the file has on disk (`limits_kept_iff`).
-/

namespace PullStream

open Prog Transition

/-- Opens succeed, and lines are written completely. -/
def complete : LogCall → LogChoice → Files → Bool
  | .write _ line, .wrote k, _ => k = line.buf.length
  | _, .openFails _, _ | _, .writeFails, _ => false
  | _, _, _ => true

/-- The bytes that have been written to the file of this name. -/
def Files.sizeOf (w : Files) (path : Str) : Nat :=
  ((w.written.filter fun e => e.1.path = path).map fun e => e.2.2).sum

/-- There are at most `size` log files, none of them longer than `len`. -/
structure WithinLimits (len size : Int32) (w : Files) : Prop where
  count : ((w.logs.map OpenFile.path).toFinset.card : Int) ≤ size.toInt
  length : ∀ path, (w.sizeOf path : Int) ≤ len.toInt

namespace CLog

/-- The name of the file that is opened when `m_pos` becomes `pos`. -/
def numbered (g : CLog) (pos : UInt32) : Str :=
  snprintf 256 (g.filename ++ lit "_" ++ fmtD (pos % g.amountSize.toUInt32 + 1).toInt32.toInt ++ lit ".log")

/-- There is room for a line in a file with a count of `size`. -/
def hasRoom (g : CLog) (size : UInt32) : Bool := size < g.maxFileSize - 512

/-- The file that the next line goes to: the current one if there is room, and else the next. The first file is left
at once if there is no room in an empty one. -/
def goesTo (g : CLog) : Str :=
  if (g.fd g.cur).isNone then g.numbered (if g.hasRoom 0 then g.pos + 1 else g.pos + 1 + 1)
  else g.numbered (if g.hasRoom (g.curFileSize g.cur) then g.pos else g.pos + 1)

end CLog

/-- If a line is written, it fits into the file that it goes to. -/
def fits (localtime : Int → Tm) (len : Int32) (s : LogState) : LogOp × List LogChoice → Bool
  | (.prt lvl text, .now t :: _) =>
    let line : Line := ⟨t, localtime t, lvl, snprintf 512 (cStr text)⟩
    lvl.val ≤ s.log.logLevel.val → (s.files.sizeOf s.log.goesTo : Int) + line.buf.length ≤ len.toInt
  | _ => true

section

variable {localtime : Int → Tm} {xs : List LogChoice} {g g' : CLog} {w w' : Files} {name path : Str} {len size : Int32}
  {f : OpenFile} {line : Line}

theorem sizeOf_record {k : Nat} :
    (w.record f line k).sizeOf path = w.sizeOf path + if f.path = path then k else 0 := by
  rw [Files.sizeOf, Files.record, List.filter_append, List.map_append, List.sum_append]
  congr 1
  by_cases hpath : f.path = path <;> simp [hpath]

theorem toNat_toUInt32 (hsize : 0 < size) : (size.toUInt32.toNat : Int) = size.toInt := by
  have hpos : 0 < size.toBitVec.toInt := Int32.lt_iff_toInt_lt.mp hsize
  have hcond := BitVec.toInt_eq_toNat_cond size.toBitVec
  have hlt := size.toBitVec.isLt
  change (size.toBitVec.toNat : Int) = size.toBitVec.toInt
  split_ifs at hcond <;> omega

theorem mod_mod_self (a b : UInt32) : a % b % b = a % b := by
  rw [← UInt32.toNat_inj, UInt32.toNat_mod, UInt32.toNat_mod, Nat.mod_mod]

namespace CLog

/-- The module writes to `size` files of at most `len` bytes in turn. -/
structure BySpace (name : Str) (len size : Int32) (g : CLog) : Prop where
  strategeType : g.strategeType = .space
  filename : g.filename = name
  amountSize : g.amountSize = size
  maxFileSize : g.maxFileSize = len.toUInt32
  logTank : g.logTank = .file

/-- The slots are in order, and the files have the names that `m_pos` gives them. -/
structure Named (g : CLog) (w : Files) : Prop where
  orderly : g.Orderly w
  named : ∀ f ∈ w.logs, ∃ pos, f.path = g.numbered pos
  last : ∀ f, w.logs.getLast? = some f → f.path = g.numbered g.pos

theorem cut_bySpace {ptime : Tm} (hg : g.BySpace name len size) : g.cut ptime = !g.hasRoom (g.curFileSize g.cur) := by
  simp only [cut, hg.strategeType, hasRoom, decide_not]

theorem curFilename_bySpace {ptime : Tm} (hg : g.BySpace name len size) (hpath : g.curFilename ptime = pure path) :
    path = g.numbered (g.pos + 1) := by
  rw [curFilename, hg.strategeType] at hpath
  simp only at hpath
  split_ifs at hpath
  cases hpath
  rfl

theorem BySpace.enter {ptime : Tm} {n : Nat} (hg : g.BySpace name len size) : (g.enter ptime n).BySpace name len size :=
  ⟨hg.strategeType, hg.filename, hg.amountSize, hg.maxFileSize, hg.logTank⟩

theorem BySpace.addSize (hg : g.BySpace name len size) (ret : Int) : (g.addSize ret).BySpace name len size := by
  rw [CLog.addSize]
  split_ifs
  · exact ⟨hg.strategeType, hg.filename, hg.amountSize, hg.maxFileSize, hg.logTank⟩
  · exact hg

theorem Named.tick (h : g.Named w) (t : Int) : g.Named (w.tick t) := ⟨h.orderly.tick t, h.named, h.last⟩

theorem Named.addSize (h : g.Named w) (ret : Int) : (g.addSize ret).Named w := by
  rw [CLog.addSize]
  split_ifs with hret
  · have horderly := h.orderly.addSize ret
    rw [CLog.addSize, if_pos hret] at horderly
    exact ⟨horderly, h.named, h.last⟩
  · exact h

theorem Named.enter (h : g.Named w) (hpath : path = g.numbered (g.pos + 1)) (ptime : Tm) :
    (g.enter ptime (w.closeSlot (g.fd g.next)).table.lowest).Named ((w.closeSlot (g.fd g.next)).openLog path) := by
  have hlogs : (w.closeSlot (g.fd g.next)).logs = w.logs := by cases hfd : g.fd g.next <;> rfl
  refine ⟨h.orderly.enter path ptime, fun f hf => ?_, fun f hf => ?_⟩
  · rcases List.mem_append.mp hf with hf | hf
    · rw [hlogs] at hf
      exact h.named f hf
    · obtain rfl := List.mem_singleton.mp hf
      exact ⟨g.pos + 1, hpath⟩
  · rw [Files.openLog, List.getLast?_concat, Option.some.injEq] at hf
    rw [← hf]
    exact hpath

theorem Named.card_le (h : g.Named w) (hg : g.BySpace name len size) (hsize : 0 < size) :
    ((w.logs.map OpenFile.path).toFinset.card : Int) ≤ size.toInt := by
  have hnat := toNat_toUInt32 hsize
  have hpos' : 0 < size.toUInt32.toNat := by
    have := Int32.lt_iff_toInt_lt.mp hsize
    rw [Int32.toInt_zero] at this
    omega
  have hsub : (w.logs.map OpenFile.path).toFinset ⊆
      (Finset.range size.toUInt32.toNat).image fun i => g.numbered (UInt32.ofNat i) := by
    intro p hp
    obtain ⟨f, hf, rfl⟩ := List.mem_map.mp (List.mem_toFinset.mp hp)
    obtain ⟨pos, hpos⟩ := h.named f hf
    refine Finset.mem_image.mpr ⟨(pos % size.toUInt32).toNat, ?_, ?_⟩
    · rw [Finset.mem_range, UInt32.toNat_mod]
      exact Nat.mod_lt _ hpos'
    · rw [hpos, numbered, numbered, hg.amountSize, UInt32.ofNat_toNat, mod_mod_self]
  rw [← hnat, Int.ofNat_le]
  calc
    _ ≤ _ := Finset.card_le_card hsub
    _ ≤ _ := Finset.card_image_le
    _ = _ := Finset.card_range _

theorem newFile_complete {status : FileStatus} (h : g.Named w) (hg : g.BySpace name len size)
    (hexec : exec logAnswer complete xs (newFile localtime g) w = some ((status, g'), w')) :
    status = .success ∧ g'.Named w' ∧ w'.written = w.written ∧ ∃ ptime n, g' = g.enter ptime n := by
  rcases newFile_cases hexec with ⟨hbusy, -⟩ | ⟨t, w₁, -, -, rfl, ⟨path, err, -, hfail, -⟩ | ⟨path, -, hpath, heq⟩⟩
  · exact absurd (hbusy.symm.trans h.orderly.busy) nofun
  · cases hfail
  · cases heq
    exact ⟨rfl, (h.tick t).enter (curFilename_bySpace hg hpath) (localtime t), Files.written_closeSlot _, _, _, rfl⟩

theorem withFile_complete {need : Bool} {k : CLog → LogAct (Int × CLog)} {r : (Int × CLog) × Files} (h : g.Named w)
    (hg : g.BySpace name len size) (hexec : exec logAnswer complete xs (withFile localtime need g k) w = some r) :
    ∃ ys g' w', exec logAnswer complete ys (k g') w' = some r ∧ g'.Named w' ∧ w'.written = w.written ∧
      ((need = false ∧ g' = g) ∨ need = true ∧ ∃ ptime n, g' = g.enter ptime n) := by
  rcases withFile_cases hexec with ⟨hneed, hk⟩ | ⟨hneed, xs₁, ys, status, g', w', -, hnew, hrest⟩
  · exact ⟨xs, g, w, hk, h, rfl, .inl ⟨hneed, rfl⟩⟩
  · obtain ⟨rfl, hnamed, hwritten, henter⟩ := newFile_complete h hg hnew
    rcases hrest with ⟨hstatus, -⟩ | ⟨-, hk⟩
    · cases hstatus
    · exact ⟨ys, g', w', hk, hnamed, hwritten, .inr ⟨hneed, henter⟩⟩

theorem writeLine_complete {r : (Int × CLog) × Files} (h : g.Named w) (hg : g.BySpace name len size)
    (hexec : exec logAnswer complete xs (writeLine line g) w = some r) :
    r.1.2.Named r.2 ∧ r.1.2.BySpace name len size ∧
      ∃ f, f.path = g.numbered g.pos ∧ r.2 = w.record f line line.buf.length := by
  rcases writeLine_cases hexec with ⟨n, f, k, hn, hf, -, -, hok, hlog, hfiles⟩ | ⟨-, hfail, -⟩
  · have hk : k = line.buf.length := by simpa [complete] using hok
    have hlast : w.logs.getLast? = some f := by rw [← h.orderly.current, hn, Option.bind_some, hf]
    rw [hlog, hfiles, hk]
    refine ⟨Named.addSize ?_ _, hg.addSize _, f, h.last f hlast, rfl⟩
    exact ⟨h.orderly.record f line _, h.named, h.last⟩
  · cases hfail

theorem goesTo_of_enter {g₁ g₂ : CLog}
    (h₁ : ((g.fd g.cur).isNone = false ∧ g₁ = g) ∨ (g.fd g.cur).isNone = true ∧ ∃ ptime n, g₁ = g.enter ptime n)
    (h₂ : (g₁.hasRoom (g₁.curFileSize g₁.cur) = true ∧ g₂ = g₁) ∨
      g₁.hasRoom (g₁.curFileSize g₁.cur) = false ∧ ∃ ptime n, g₂ = g₁.enter ptime n) :
    g₂.numbered g₂.pos = g.goesTo := by
  rw [goesTo]
  rcases h₁ with ⟨hfd, rfl⟩ | ⟨hfd, ptime, n, rfl⟩
  · rw [hfd]
    rcases h₂ with ⟨hroom, rfl⟩ | ⟨hroom, ptime, n, rfl⟩
    · rw [hroom]
      rfl
    · rw [hroom]
      rfl
  · have hempty : (g.enter ptime n).curFileSize (g.enter ptime n).cur = 0 := Function.update_self ..
    rw [hempty] at h₂
    rw [hfd]
    rcases h₂ with ⟨hroom, rfl⟩ | ⟨hroom, ptime', n', rfl⟩
    · rw [show g.hasRoom 0 = true from hroom]
      rfl
    · rw [show g.hasRoom 0 = false from hroom]
      rfl

/-- **What `prt` does when opens succeed and lines are written completely.** -/
theorem prt_complete {lvl : LogType} {text : Str} {r : (Int × CLog) × Files} (h : g.Named w)
    (hg : g.BySpace name len size) (hexec : exec logAnswer complete xs (prt localtime lvl text g) w = some r) :
    r.1.2.Named r.2 ∧ r.1.2.BySpace name len size ∧ ((xs = [] ∧ r.2 = w) ∨
      ∃ (t : Int) (ys : List LogChoice) (f : OpenFile) (line : Line) (w' : Files), xs = .now t :: ys ∧
      lvl.val ≤ g.logLevel.val ∧ line = ⟨t, localtime t, lvl, snprintf 512 (cStr text)⟩ ∧ f.path = g.goesTo ∧
      w'.written = w.written ∧ r.2 = w'.record f line line.buf.length) := by
  rcases prt_cases hexec with ⟨-, rfl, rfl⟩ | ⟨t, ys, hlvl, rfl, -, ⟨htank, -⟩ | ⟨-, hfile⟩⟩
  · exact ⟨h, hg, .inl ⟨rfl, rfl⟩⟩
  · exact absurd (htank.symm.trans hg.logTank) nofun
  · obtain ⟨ys₁, g₁, w₁, hfile, hnamed₁, hwritten₁, h₁⟩ := withFile_complete (h.tick t) hg hfile
    have hg₁ : g₁.BySpace name len size := by
      rcases h₁ with ⟨-, rfl⟩ | ⟨-, ptime, n, rfl⟩
      · exact hg
      · exact hg.enter
    obtain ⟨ys₂, g₂, w₂, hline, hnamed₂, hwritten₂, h₂⟩ := withFile_complete hnamed₁ hg₁ hfile
    have hg₂ : g₂.BySpace name len size := by
      rcases h₂ with ⟨-, rfl⟩ | ⟨-, ptime, n, rfl⟩
      · exact hg₁
      · exact hg₁.enter
    obtain ⟨hnamed, hspace, f, hpath, hr⟩ := writeLine_complete hnamed₂ hg₂ hline
    rw [cut_bySpace hg₁, Bool.not_eq_false', Bool.not_eq_true'] at h₂
    refine ⟨hnamed, hspace, .inr ⟨t, ys, f, _, w₂, rfl, hlvl, rfl, ?_, hwritten₂.trans hwritten₁, hr⟩⟩
    rw [hpath, goesTo_of_enter h₁ h₂]

theorem init_complete {path filename : Str} {r : CLog × Files} (h : g.Named w) (hg : g.BySpace name len size)
    (hname : snprintf 256 (cStr path ++ cStr filename) = name)
    (hexec : exec logAnswer complete xs (g.init localtime path filename) w = some r) :
    r.1.Named r.2 ∧ r.1.BySpace name len size ∧ r.2.written = w.written := by
  obtain rfl := hg.filename
  rw [CLog.init, hname] at hexec
  split_ifs at hexec
  · obtain ⟨x, xs', y, rfl, -, hy, hexec⟩ := exec_perform.mp hexec
    obtain ⟨rfl, rfl⟩ := logAnswer_printf hy
    obtain ⟨-, rfl⟩ := exec_ret.mp hexec
    exact ⟨h, hg, rfl⟩
  · obtain ⟨ys, zs, ⟨status, g'⟩, w', -, hnew, hexec⟩ := exec_bind.mp hexec
    obtain ⟨-, rfl⟩ := exec_ret.mp hexec
    obtain ⟨-, hnamed, hwritten, ptime, n, rfl⟩ := newFile_complete h hg hnew
    exact ⟨hnamed, hg.enter, hwritten⟩

end CLog

/-! ### Runs -/

/-- The functions that leave the strategy, the tank and the name as they are. -/
def LogOp.keepsName (name : Str) : LogOp → Bool
  | .init path filename => snprintf 256 (cStr path ++ cStr filename) = name
  | .setLogLevel _ | .prt _ _ => true
  | _ => false

/-- A `CLog` that has been set up for files of limited length, in a process that has no log files. -/
def limited (tank : LogTank) (name : Str) (len size : Int32) (w : Files) : LogState :=
  ⟨{ ((CLog.new tank).setLogTank (lit "file")).setLogOutByAmount len size with filename := name }, w.unlogged⟩

variable {s u : LogState} {l : LogOp × List LogChoice} {ls : List (LogOp × List LogChoice)} {tank : LogTank}

/-- The module is set up for files of limited length, and its slots and files are in order. -/
def Limiting (name : Str) (len size : Int32) (s : LogState) : Prop :=
  s.log.Named s.files ∧ s.log.BySpace name len size

theorem limiting_limited : Limiting name len size (limited tank name len size w) := by
  rw [limited, CLog.setLogTank, if_pos (by decide)]
  refine ⟨⟨orderly_unlogged rfl rfl rfl, fun f hf => ?_, fun f hf => ?_⟩, rfl, rfl, rfl, rfl, rfl⟩
  · cases hf
  · cases hf

theorem WithinLimits.write_iff {k : Nat} (hw : WithinLimits len size w)
    (hcount : ((w'.logs.map OpenFile.path).toFinset.card : Int) ≤ size.toInt)
    (hsizeOf : ∀ path', w'.sizeOf path' = w.sizeOf path' + if path = path' then k else 0) :
    WithinLimits len size w' ↔ (w.sizeOf path : Int) + k ≤ len.toInt := by
  constructor
  · intro hu
    have hto := hu.length path
    rw [hsizeOf, if_pos rfl, Int.natCast_add] at hto
    exact hto
  · intro hto
    refine ⟨hcount, fun path' => ?_⟩
    have hs := hw.length path'
    rw [hsizeOf]
    split_ifs with hpath
    · rw [← hpath, Int.natCast_add]
      exact hto
    · exact hs

theorem Limiting.setLogLevel (h : Limiting name len size s) (lvl : LogType) :
    Limiting name len size ⟨s.log.setLogLevel lvl, s.files⟩ := by
  obtain ⟨hnamed, hspace⟩ := h
  have horderly : (s.log.setLogLevel lvl).Orderly s.files :=
    ⟨hnamed.orderly.busy, hnamed.orderly.pos, hnamed.orderly.slots, hnamed.orderly.current⟩
  exact ⟨⟨horderly, hnamed.named, hnamed.last⟩,
    hspace.strategeType, hspace.filename, hspace.amountSize, hspace.maxFileSize, hspace.logTank⟩

/-- **A step of a run**: the lengths stay within the limit exactly if the line that is written, if any, fits into the
file that it goes to. -/
theorem limiting_step (hsize : 0 < size) (h : Limiting name len size s) (hl : l.1.keepsName name = true)
    (hstep : s.step localtime complete l = some u) :
    Limiting name len size u ∧
      (WithinLimits len size s.files → (WithinLimits len size u.files ↔ fits localtime len s l = true)) := by
  obtain ⟨hnamed, hspace⟩ := h
  obtain ⟨r, hr, rfl⟩ := Option.map_eq_some_iff.mp hstep
  have hsame (hnamed' : r.1.Named r.2) (hspace' : r.1.BySpace name len size) (hwritten : r.2.written = s.files.written)
      (hw : WithinLimits len size s.files) : WithinLimits len size r.2 := by
    refine ⟨hnamed'.card_le hspace' hsize, fun path => ?_⟩
    rw [Files.sizeOf, hwritten]
    exact hw.length path
  obtain ⟨op, xs⟩ := l
  cases op with
  | init path filename =>
    obtain ⟨hnamed', hspace', hwritten⟩ := CLog.init_complete hnamed hspace (of_decide_eq_true hl) hr
    exact ⟨⟨hnamed', hspace'⟩, fun hw => iff_of_true (hsame hnamed' hspace' hwritten hw) rfl⟩
  | setLogLevel lvl =>
    obtain ⟨-, rfl⟩ := exec_ret.mp hr
    obtain ⟨hnamed', hspace'⟩ := Limiting.setLogLevel ⟨hnamed, hspace⟩ lvl
    exact ⟨⟨hnamed', hspace'⟩, fun hw => iff_of_true (hsame hnamed' hspace' rfl hw) rfl⟩
  | prt lvl text =>
    obtain ⟨xs', ys, ⟨rtn, g⟩, w', rfl, hprt, hexec⟩ := exec_bind.mp hr
    obtain ⟨rfl, rfl⟩ := exec_ret.mp hexec
    rw [List.append_nil]
    obtain ⟨hnamed', hspace', ⟨rfl, rfl⟩ | ⟨t, ys, f, line, w₁, rfl, hlvl, hline, hpath, hwritten, rfl⟩⟩ :=
      CLog.prt_complete hnamed hspace hprt
    · exact ⟨⟨hnamed', hspace'⟩, fun hw => iff_of_true (hsame hnamed' hspace' rfl hw) rfl⟩
    · refine ⟨⟨hnamed', hspace'⟩, fun hw => ?_⟩
      have hsizeOf (path : Str) : (w₁.record f line line.buf.length).sizeOf path =
          s.files.sizeOf path + if s.log.goesTo = path then line.buf.length else 0 := by
        rw [sizeOf_record, hpath, Files.sizeOf, hwritten]
        rfl
      have hfits : fits localtime len s (.prt lvl text, .now t :: ys) = true ↔
          (s.files.sizeOf s.log.goesTo : Int) + line.buf.length ≤ len.toInt := by
        simp only [fits, hline, decide_eq_true_eq]
        exact ⟨fun hfits => hfits hlvl, fun hfits _ => hfits⟩
      rw [hfits]
      exact hw.write_iff (hnamed'.card_le hspace' hsize) hsizeOf
  | _ => cases hl

/-- **In a run the limits are kept exactly if each line fits into the file that it goes to.** -/
theorem limits_kept_iff (hlen : 0 < len) (hsize : 0 < size) :
    (Runs (LogState.step localtime complete) (fun s l => l.1.keepsName name = true ∧ WithinLimits len size s.files)
        (limited tank name len size w) ls u ∧ WithinLimits len size u.files) ↔
      Runs (LogState.step localtime complete) (fun s l => l.1.keepsName name = true ∧ fits localtime len s l = true)
        (limited tank name len size w) ls u := by
  refine Runs.always_iff (Limiting name len size) (fun s => WithinLimits len size s.files) limiting_limited ?_ ?_ ?_
  · refine ⟨limiting_limited.1.card_le limiting_limited.2 hsize, fun path => ?_⟩
    exact Int.le_of_lt (Int32.lt_iff_toInt_lt.mp hlen)
  · intro t l u ht hl hstep
    exact (limiting_step hsize ht hl hstep).1
  · intro t l u ht hw hl hstep
    exact (limiting_step hsize ht hl hstep).2 hw

/-- A text that makes a line of 120 bytes. -/
def longText : Str := List.replicate 90 97

/-- Two lines, each to a file that is opened for it. -/
def firstRound : List (LogOp × List LogChoice) :=
  List.replicate 2 (.prt .error longText, [.now 10, .now 10, .opened, .wrote 120])

/-- A line for which the file before the last is closed and opened again. -/
def againLine : LogOp × List LogChoice := (.prt .error longText, [.now 10, .now 10, .ok, .opened, .wrote 120])

theorem fiveRounds_within : ∃ u, Runs (LogState.step hours complete)
    (fun s l => l.1.keepsName (lit "../log/error") = true ∧ WithinLimits 600 2 s.files)
    (limited .console (lit "../log/error") 600 2 (Files.empty 0)) (firstRound ++ List.replicate 8 againLine) u ∧
      WithinLimits 600 2 u.files := by
  have hrun : (check (LogState.step hours complete)
      (fun s l => l.1.keepsName (lit "../log/error") = true ∧ fits hours 600 s l = true)
      (firstRound ++ List.replicate 8 againLine)
      (limited .console (lit "../log/error") 600 2 (Files.empty 0))).isSome = true := by decide +kernel
  exact ⟨_, (limits_kept_iff (by decide) (by decide)).mpr (runs_get hrun)⟩

/-- In the sixth round the first file comes to 720 bytes. -/
theorem file_too_long : ∃ u, Runs (LogState.step hours complete)
    (fun _ l => l.1.keepsName (lit "../log/error") = true)
    (limited .console (lit "../log/error") 600 2 (Files.empty 0)) (firstRound ++ List.replicate 9 againLine) u ∧
      ¬ WithinLimits 600 2 u.files := by
  have hrun : (check (LogState.step hours complete) (fun _ l => l.1.keepsName (lit "../log/error") = true)
      (firstRound ++ List.replicate 9 againLine) (limited .console (lit "../log/error") 600 2 (Files.empty 0))).any
      (fun u => 600 < u.files.sizeOf (lit "../log/error_1.log")) = true := by decide +kernel
  obtain ⟨u, hu, hsize⟩ := (Option.any_eq_true ..).mp hrun
  refine ⟨u, runs_of_check hu, fun hwithin => ?_⟩
  have hle := hwithin.length (lit "../log/error_1.log")
  exact Nat.not_le_of_lt (of_decide_eq_true hsize) (Int.ofNat_le.mp hle)

end

end PullStream
