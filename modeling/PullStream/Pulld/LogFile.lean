import PullStream.App.PureLog
/-!
# What a call of the log module comes to

The calls of a program of the log module may turn out as `ok` allows. `newFile_cases`, `writeLine_cases` and
`prt_cases` say what `new_file`, the writing of a line and `prt` can come to then, in terms of the files of the
process before and after.
-/

namespace PullStream

open Prog Descriptors

namespace Files

variable {w : Files} {n m : Nat} {path : Str}

theorem get_openFile :
    (w.openFile path).table.get m = if m = w.table.lowest then some (w.make path) else w.table.get m :=
  Table.get_alloc w.table (w.make path) m

theorem get_openLog :
    (w.openLog path).table.get m = if m = w.table.lowest then some (w.make path) else w.table.get m :=
  get_openFile

theorem get_closeFd : (w.closeFd n).table.get m = if m = n then none else w.table.get m :=
  Table.get_close w.table n m

/-- The files after the descriptor of a slot has been closed. -/
def closeSlot (w : Files) : Option Nat → Files
  | none => w
  | some n => w.closeFd n

@[simp] theorem clock_closeSlot (fd : Option Nat) : (w.closeSlot fd).clock = w.clock := by
  cases fd <;> rfl

@[simp] theorem written_closeSlot (fd : Option Nat) : (w.closeSlot fd).written = w.written := by
  cases fd <;> rfl

theorem get_closeSlot {fd : Option Nat} (h : fd ≠ some m) : (w.closeSlot fd).table.get m = w.table.get m := by
  cases fd with
  | none => rfl
  | some n =>
    rw [closeSlot, get_closeFd, if_neg]
    rintro rfl
    exact h rfl

end Files

namespace CLog

section

variable {g : CLog} {ptime : Tm} {n : Nat} {i : Fin 2}

@[simp] theorem cur_enter : (g.enter ptime n).cur = g.next := rfl

@[simp] theorem fd_enter_next : (g.enter ptime n).fd g.next = some n := Function.update_self ..

theorem fd_enter_of_ne (h : i ≠ g.next) : (g.enter ptime n).fd i = g.fd i := Function.update_of_ne h ..

@[simp] theorem curFiletime_enter_next : (g.enter ptime n).curFiletime g.next = ptime := Function.update_self ..

theorem curFiletime_enter_of_ne (h : i ≠ g.next) : (g.enter ptime n).curFiletime i = g.curFiletime i :=
  Function.update_of_ne h ..

end

variable {localtime : Int → Tm} {ok : LogCall → LogChoice → Files → Bool} {xs : List LogChoice} {g : CLog}
  {w : Files}

theorem logAnswer_time {x : LogChoice} {y : Int × Files} (h : logAnswer .time x w = some y) :
    ∃ t, x = .now t ∧ y = (t, w.tick t) := by
  cases x <;> simp [logAnswer] at h
  exact ⟨_, rfl, h.symm⟩

theorem logAnswer_close {x : LogChoice} {n : Nat} {y : Unit × Files} (h : logAnswer (.close n) x w = some y) :
    x = .ok ∧ y = ((), w.closeFd n) := by
  cases x <;> simp [logAnswer] at h
  exact ⟨rfl, h.symm⟩

theorem logAnswer_printf {x : LogChoice} {text : Str} {y : Unit × Files}
    (h : logAnswer (.printf text) x w = some y) : x = .ok ∧ y = ((), w) := by
  cases x <;> simp [logAnswer] at h
  exact ⟨rfl, h.symm⟩

theorem logAnswer_openLog {x : LogChoice} {path : Str} {y : Except Str Nat × Files}
    (h : logAnswer (.openLog path) x w = some y) :
    (x = .opened ∧ y = (.ok w.table.lowest, w.openLog path)) ∨ ∃ err, x = .openFails err ∧ y = (.error err, w) := by
  cases x <;> simp [logAnswer] at h
  · exact .inl ⟨rfl, h.symm⟩
  · exact .inr ⟨_, rfl, h.symm⟩

theorem logAnswer_write {x : LogChoice} {fd : Option Nat} {line : Line} {y : Int × Files}
    (h : logAnswer (.write fd line) x w = some y) :
    (∃ n f k, fd = some n ∧ w.table.get n = some f ∧ k ≤ line.buf.length ∧ x = .wrote k ∧
        y = ((k : Int), w.record f line k)) ∨ (x = .writeFails ∧ y = (-1, w)) := by
  cases fd with
  | none =>
    cases x <;> simp [logAnswer] at h
    exact .inr ⟨rfl, h.symm⟩
  | some n =>
    cases x with
    | wrote k =>
      simp only [logAnswer] at h
      split at h
      · rename_i f hf
        split_ifs at h with hk
        cases h
        exact .inl ⟨n, f, k, rfl, hf, hk, rfl, rfl⟩
      · cases h
    | writeFails =>
      cases h
      exact .inr ⟨rfl, rfl⟩
    | _ => cases h

theorem curFilename_name (g : CLog) (ptime : Tm) :
    (∃ path, g.curFilename ptime = pure path) ∨ g.curFilename ptime = .call .divZero nofun := by
  rw [curFilename]
  split
  · exact .inl ⟨_, rfl⟩
  · split_ifs
    · exact .inr rfl
    · exact .inl ⟨_, rfl⟩
  · exact .inl ⟨_, rfl⟩

theorem curFilename_cases {ptime : Tm} {r : Str × Files}
    (h : exec logAnswer ok xs (g.curFilename ptime) w = some r) :
    g.curFilename ptime = pure r.1 ∧ xs = [] ∧ r.2 = w := by
  rcases curFilename_name g ptime with ⟨path, hp⟩ | hp
  · rw [hp, pure_def] at h
    obtain ⟨hxs, rfl⟩ := exec_ret.mp h
    exact ⟨hp, hxs, rfl⟩
  · rw [hp] at h
    obtain ⟨x, xs', y, -, -, hy, -⟩ := exec_call.mp h
    cases x <;> cases hy

theorem closeSlot_cases {fd : Option Nat} {r : Unit × Files}
    (h : exec logAnswer ok xs (closeSlot fd) w = some r) : LogChoice.opened ∉ xs ∧ r.2 = w.closeSlot fd := by
  cases fd with
  | none =>
    obtain ⟨rfl, rfl⟩ := exec_ret.mp h
    exact ⟨List.not_mem_nil, rfl⟩
  | some n =>
    obtain ⟨x, xs', y, rfl, -, hy, h⟩ := exec_call.mp h
    obtain ⟨rfl, rfl⟩ := exec_ret.mp h
    obtain ⟨rfl, rfl⟩ := logAnswer_close hy
    exact ⟨by simp, rfl⟩

theorem openNext_cases {ptime : Tm} {path : Str} {r : (FileStatus × CLog) × Files}
    (h : exec logAnswer ok xs (g.openNext ptime path) w = some r) :
    (∃ err, LogChoice.opened ∉ xs ∧ ok (.openLog path) (.openFails err) w = true ∧ r = ((.failure, g.lose), w)) ∨
      LogChoice.opened ∈ xs ∧ r = ((.success, g.enter ptime w.table.lowest), w.openLog path) := by
  obtain ⟨x, xs', y, rfl, hok, hy, h⟩ := exec_perform.mp h
  rcases logAnswer_openLog hy with ⟨rfl, rfl⟩ | ⟨err, rfl, rfl⟩
  · obtain ⟨rfl, rfl⟩ := exec_ret.mp h
    exact .inr ⟨List.mem_cons_self, rfl⟩
  · obtain ⟨x, xs', y, rfl, -, hy, h⟩ := exec_perform.mp h
    obtain ⟨rfl, rfl⟩ := logAnswer_printf hy
    obtain ⟨rfl, rfl⟩ := exec_ret.mp h
    exact .inl ⟨err, by simp, hok, rfl⟩

/-- **What `new_file` can do.** -/
theorem newFile_cases {r : (FileStatus × CLog) × Files}
    (h : exec logAnswer ok xs (newFile localtime g) w = some r) :
    (g.busy = true ∧ xs = [] ∧ r = ((.retry, g), w)) ∨
      ∃ t w', g.busy = false ∧ ok .time (.now t) w = true ∧ w' = (w.tick t).closeSlot (g.fd g.next) ∧
        ((∃ path err, LogChoice.opened ∉ xs ∧ ok (.openLog path) (.openFails err) w' = true ∧
            r = ((.failure, g.lose), w')) ∨
          ∃ path, LogChoice.opened ∈ xs ∧ g.curFilename (localtime t) = pure path ∧
            r = ((.success, g.enter (localtime t) w'.table.lowest), w'.openLog path)) := by
  rw [newFile] at h
  split_ifs at h with hbusy
  · obtain ⟨hxs, rfl⟩ := exec_ret.mp h
    exact .inl ⟨hbusy, hxs, rfl⟩
  · obtain ⟨x, xs, y, rfl, hok, hy, h⟩ := exec_perform.mp h
    obtain ⟨t, rfl, rfl⟩ := logAnswer_time hy
    obtain ⟨xs₁, xs, u, w', rfl, hclose, h⟩ := exec_bind.mp h
    obtain ⟨hnot, rfl⟩ := closeSlot_cases hclose
    obtain ⟨xs₂, xs, path, w', rfl, hpath, h⟩ := exec_bind.mp h
    obtain ⟨hname, rfl, rfl⟩ := curFilename_cases hpath
    refine .inr ⟨t, _, by simpa using hbusy, hok, rfl, ?_⟩
    rcases openNext_cases h with ⟨err, hmem, hfail, rfl⟩ | ⟨hmem, rfl⟩
    · exact .inl ⟨path, err, by simp [hnot, hmem], hfail, rfl⟩
    · exact .inr ⟨path, by simp [hmem], hname, rfl⟩

theorem withFile_cases {need : Bool} {k : CLog → LogAct (Int × CLog)} {r : (Int × CLog) × Files}
    (h : exec logAnswer ok xs (withFile localtime need g k) w = some r) :
    (need = false ∧ exec logAnswer ok xs (k g) w = some r) ∨
      need = true ∧ ∃ xs₁ xs₂ status g' w', xs = xs₁ ++ xs₂ ∧
        exec logAnswer ok xs₁ (newFile localtime g) w = some ((status, g'), w') ∧
        ((status = .failure ∧ xs₂ = [] ∧ r = ((-1, g'), w')) ∨
          status ≠ .failure ∧ exec logAnswer ok xs₂ (k g') w' = some r) := by
  rw [withFile] at h
  split_ifs at h with hneed
  · obtain ⟨xs₁, xs₂, ⟨status, g'⟩, w', hxs, hnew, h⟩ := exec_bind.mp h
    refine .inr ⟨hneed, xs₁, xs₂, status, g', w', hxs, hnew, ?_⟩
    simp only at h
    split_ifs at h with hstatus
    · exact .inl ⟨hstatus, exec_ret.mp h⟩
    · exact .inr ⟨hstatus, h⟩
  · exact .inl ⟨by simpa using hneed, h⟩

theorem writeLine_cases {line : Line} {r : (Int × CLog) × Files}
    (h : exec logAnswer ok xs (writeLine line g) w = some r) :
    (∃ n f k, g.fd g.cur = some n ∧ w.table.get n = some f ∧ k ≤ line.buf.length ∧ xs = [.wrote k] ∧
        ok (.write (some n) line) (.wrote k) w = true ∧ r.1.2 = g.addSize k ∧ r.2 = w.record f line k) ∨
      (xs = [.writeFails] ∧ ok (.write (g.fd g.cur) line) .writeFails w = true ∧ r.1.2 = g ∧ r.2 = w) := by
  obtain ⟨x, xs, y, rfl, hok, hy, h⟩ := exec_perform.mp h
  obtain ⟨rfl, rfl⟩ := exec_ret.mp h
  rcases logAnswer_write hy with ⟨n, f, k, hfd, hf, hk, rfl, rfl⟩ | ⟨rfl, rfl⟩
  · rw [hfd] at hok
    exact .inl ⟨n, f, k, hfd, hf, hk, rfl, hok, rfl, rfl⟩
  · exact .inr ⟨rfl, hok, rfl, rfl⟩

/-- **What `prt` can do**: nothing, print to the console, or write a line, first opening files. -/
theorem prt_cases {lvl : LogType} {text : Str} {r : (Int × CLog) × Files}
    (h : exec logAnswer ok xs (prt localtime lvl text g) w = some r) :
    (g.logLevel.val < lvl.val ∧ xs = [] ∧ r = ((0, g), w)) ∨
      ∃ t xs', lvl.val ≤ g.logLevel.val ∧ xs = .now t :: xs' ∧ ok .time (.now t) w = true ∧
        ((g.logTank = .console ∧ r = ((0, g), w.tick t)) ∨
          g.logTank = .file ∧ exec logAnswer ok xs'
            (withFile localtime (g.fd g.cur).isNone g fun g => withFile localtime (g.cut (localtime t)) g
              (writeLine ⟨t, localtime t, lvl, snprintf 512 (cStr text)⟩)) (w.tick t) = some r) := by
  rw [prt] at h
  by_cases hlvl : g.logLevel.val < lvl.val
  · rw [if_pos hlvl] at h
    obtain ⟨hxs, rfl⟩ := exec_ret.mp h
    exact .inl ⟨hlvl, hxs, rfl⟩
  · rw [if_neg hlvl] at h
    obtain ⟨x, xs', y, rfl, hok, hy, h⟩ := exec_perform.mp h
    obtain ⟨t, rfl, rfl⟩ := logAnswer_time hy
    refine .inr ⟨t, xs', Nat.le_of_not_lt hlvl, rfl, hok, ?_⟩
    cases htank : g.logTank with
    | console =>
      rw [if_pos htank] at h
      obtain ⟨x, xs', y, rfl, -, hy, h⟩ := exec_perform.mp h
      obtain ⟨rfl, rfl⟩ := logAnswer_printf hy
      obtain ⟨-, rfl⟩ := exec_ret.mp h
      exact .inl ⟨rfl, rfl⟩
    | file =>
      rw [if_neg (by rw [htank]; exact nofun)] at h
      exact .inr ⟨rfl, h⟩

end CLog

end PullStream
