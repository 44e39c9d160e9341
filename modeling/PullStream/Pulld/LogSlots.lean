import PullStream.Base.Precondition
import PullStream.Base.Run
import PullStream.Pulld.LogFile
import Mathlib.Data.List.Perm.Subperm
/-!
# The two descriptors of the log

Whatever the clock says and whichever calls fail, a `CLog` that one thread uses has `m_busy` at `0` between the calls
of its functions and at most two log files open. The file of the current slot is the one that was opened last: the
other slot is emptied before the next file is opened, so a failed `open` leaves the current file as it is, and
`m_pos`, which starts at `-1`, counts the files that were opened (`Orderly`). So every `write` goes to the file that
was opened last, and every `close` is of a descriptor that is open, on an earlier file (`disciplined`). The destructor
closes what is open, except for a descriptor that is `0`.
-/

namespace PullStream

open Prog Descriptors Transition

/-- The calls may turn out in any way. -/
def anyAnswer (_ : LogCall) (_ : LogChoice) (_ : Files) : Bool := true

namespace Files

/-- The descriptors that are open on log files. -/
def openLogs (w : Files) : List Nat :=
  (List.range w.table.length).filter fun n => (w.table.get n).any (· ∈ w.logs)

/-- No log file has been opened yet. -/
def unlogged (w : Files) : Files := { w with logs := [], written := [], logs_id_lt := nofun }

end Files

/-- A log file is closed that is open, and no more than two are open. -/
def closesOpen : LogCall → LogChoice → Files → Bool
  | .close n, _, w => w.openLogs.length ≤ 2 ∧ n ∈ w.openLogs
  | _, _, w => w.openLogs.length ≤ 2

/-- The file that is written to is the log file that was opened last, and one that is closed is another. -/
def disciplined : LogCall → LogChoice → Files → Bool
  | .close n, _, w => w.openLogs.length ≤ 2 ∧ n ∈ w.openLogs ∧ w.table.get n ≠ w.logs.getLast?
  | .write fd _, _, w => w.openLogs.length ≤ 2 ∧ ∃ n ∈ fd, n ∈ w.openLogs ∧ w.table.get n = w.logs.getLast?
  | _, _, w => w.openLogs.length ≤ 2

/-! ### The slots -/

/-- Each slot that has a descriptor has one of its own, and these are the descriptors open on log files. -/
structure Slots (fd : Fin 2 → Option Nat) (w : Files) : Prop where
  mem_openLogs : ∀ n, n ∈ w.openLogs ↔ ∃ i, fd i = some n
  apart : ∀ i j n, fd i = some n → fd j = some n → i = j
  unique : ∀ n m f, f ∈ w.logs → w.table.get n = some f → w.table.get m = some f → n = m

section

variable {fd : Fin 2 → Option Nat} {w : Files} {n m : Nat} {i j : Fin 2} {path : Str}

theorem Files.mem_openLogs : n ∈ w.openLogs ↔ ∃ f ∈ w.logs, w.table.get n = some f := by
  rw [Files.openLogs, List.mem_filter, List.mem_range, Option.any_eq_true]
  constructor
  · rintro ⟨-, f, hf, hmem⟩
    exact ⟨f, of_decide_eq_true hmem, hf⟩
  · rintro ⟨f, hmem, hf⟩
    exact ⟨Table.lt_length hf, f, hf, decide_eq_true hmem⟩

theorem Files.mem_openLogs_closeFd : n ∈ (w.closeFd m).openLogs ↔ n ∈ w.openLogs ∧ n ≠ m := by
  simp only [Files.mem_openLogs, Files.get_closeFd]
  by_cases hnm : n = m
  · simp [hnm]
  · simp [hnm, Files.closeFd]

theorem Files.mem_openLogs_openLog :
    n ∈ (w.openLog path).openLogs ↔ n ∈ w.openLogs ∨ n = w.table.lowest := by
  simp only [Files.mem_openLogs, Files.get_openLog]
  constructor
  · rintro ⟨f, hmem, hf⟩
    split_ifs at hf with hn
    · exact .inr hn
    · rcases List.mem_append.mp hmem with hmem | hmem
      · exact .inl ⟨f, hmem, hf⟩
      · obtain rfl := List.mem_singleton.mp hmem
        exact absurd (w.id_lt n _ hf) (Nat.lt_irrefl w.count)
  · rintro (⟨f, hmem, hf⟩ | rfl)
    · refine ⟨f, List.mem_append_left _ hmem, ?_⟩
      rw [if_neg, hf]
      rintro rfl
      rw [Table.get_lowest] at hf
      cases hf
    · exact ⟨w.make path, List.mem_append_right _ (List.mem_singleton_self _), if_pos rfl⟩

theorem update_none : Function.update fd i none j = some n ↔ j ≠ i ∧ fd j = some n := by
  rw [Function.update_apply]
  split_ifs with hj <;> simp [hj]

theorem update_some (hi : fd i = none) :
    Function.update fd i (some m) j = some n ↔ (j = i ∧ n = m) ∨ fd j = some n := by
  rw [Function.update_apply]
  split_ifs with hj
  · simp [hj, hi, eq_comm]
  · simp [hj]

namespace Slots

theorem mem (h : Slots fd w) (hi : fd i = some n) : n ∈ w.openLogs := (h.mem_openLogs n).mpr ⟨i, hi⟩

theorem length_le (h : Slots fd w) : w.openLogs.length ≤ 2 := by
  have hnodup : w.openLogs.Nodup := List.nodup_range.filter _
  have hsub : w.openLogs ⊆ [fd 0, fd 1].filterMap id := by
    intro n hn
    obtain ⟨i, hi⟩ := (h.mem_openLogs n).mp hn
    have hmem : fd i ∈ [fd 0, fd 1] := by
      match i with
      | 0 => exact .head _
      | 1 => exact .tail _ (.head _)
    exact List.mem_filterMap.mpr ⟨fd i, hmem, hi⟩
  exact (List.subperm_of_subset hnodup hsub).length_le.trans (List.length_filterMap_le id _)

theorem closeSlot (h : Slots fd w) (i : Fin 2) : Slots (Function.update fd i none) (w.closeSlot (fd i)) := by
  cases hi : fd i with
  | none =>
    rw [← hi, Function.update_eq_self, hi]
    exact h
  | some m =>
    refine ⟨fun n => ?_, fun j k n hj hk => ?_, fun n k f hf hn hk => ?_⟩
    · simp only [Files.closeSlot, Files.mem_openLogs_closeFd, h.mem_openLogs, update_none]
      constructor
      · rintro ⟨⟨j, hj⟩, hnm⟩
        refine ⟨j, ?_, hj⟩
        rintro rfl
        exact hnm (Option.some.inj (hj.symm.trans hi))
      · rintro ⟨j, hne, hj⟩
        refine ⟨⟨j, hj⟩, ?_⟩
        rintro rfl
        exact hne (h.apart j i n hj hi)
    · exact h.apart j k n (update_none.mp hj).2 (update_none.mp hk).2
    · rw [Files.closeSlot, Files.get_closeFd] at hn hk
      split_ifs at hn hk
      exact h.unique n k f hf hn hk

theorem openLog (h : Slots fd w) (hi : fd i = none) (path : Str) :
    Slots (Function.update fd i (some w.table.lowest)) (w.openLog path) := by
  have hfresh {j : Fin 2} : fd j ≠ some w.table.lowest := by
    intro hj
    obtain ⟨f, -, hf⟩ := Files.mem_openLogs.mp (h.mem hj)
    rw [Table.get_lowest] at hf
    cases hf
  refine ⟨fun n => ?_, fun j k n hj hk => ?_, fun n k f hf hn hk => ?_⟩
  · simp only [Files.mem_openLogs_openLog, h.mem_openLogs, update_some hi]
    constructor
    · rintro (⟨j, hj⟩ | hn)
      · exact ⟨j, .inr hj⟩
      · exact ⟨i, .inl ⟨rfl, hn⟩⟩
    · rintro ⟨j, ⟨-, hn⟩ | hj⟩
      · exact .inr hn
      · exact .inl ⟨j, hj⟩
  · rcases (update_some hi).mp hj with ⟨rfl, rfl⟩ | hj' <;> rcases (update_some hi).mp hk with ⟨rfl, hkn⟩ | hk'
    · rfl
    · exact absurd hk' hfresh
    · exact absurd (hkn ▸ hj') hfresh
    · exact h.apart j k n hj' hk'
  · rw [Files.get_openLog] at hn hk
    have hold {n : Nat} (hn : w.table.get n = some f) : f ∈ w.logs := by
      rcases List.mem_append.mp hf with hf | hf
      · exact hf
      · obtain rfl := List.mem_singleton.mp hf
        exact absurd (w.id_lt n _ hn) (Nat.lt_irrefl w.count)
    have hne (hf : f ∈ w.logs) : w.make path ≠ f := by
      rintro rfl
      exact Nat.lt_irrefl w.count (w.logs_id_lt _ hf)
    split_ifs at hn hk with h₁ h₂ h₂
    · rw [h₁, h₂]
    · exact absurd (Option.some.inj hn) (hne (hold hk))
    · exact absurd (Option.some.inj hk) (hne (hold hn))
    · exact h.unique n k f (hold hn) hn hk

end Slots

end

/-! ### The functions of the class -/

namespace CLog

/-- `m_busy` is `0`, `m_pos` is one less than the number of files opened so far, and the current slot has the file
opened last, if any. -/
structure Orderly (g : CLog) (w : Files) : Prop where
  busy : g.busy = false
  pos : g.pos = UInt32.ofNat w.logs.length - 1
  slots : Slots g.fd w
  current : (g.fd g.cur).bind w.table.get = w.logs.getLast?

/-- The counter and the current slot are the same as before, and the file of the slot, if it has one, is still open. -/
structure Keeps (g : CLog) (w : Files) (g' : CLog) (w' : Files) : Prop where
  pos : g'.pos = g.pos
  fd : g'.fd g'.cur = g.fd g.cur
  current : ∀ n, g.fd g.cur = some n → n ∈ w'.openLogs ∧ w'.table.get n = w.table.get n

section

variable {localtime : Int → Tm} {g : CLog} {w : Files} {ptime : Tm} {line : Line}

namespace Orderly

theorem tick (h : g.Orderly w) (t : Int) : g.Orderly (w.tick t) :=
  ⟨h.busy, h.pos, ⟨h.slots.mem_openLogs, h.slots.apart, h.slots.unique⟩, h.current⟩

theorem record (h : g.Orderly w) (f : OpenFile) (line : Line) (k : Nat) : g.Orderly (w.record f line k) :=
  ⟨h.busy, h.pos, ⟨h.slots.mem_openLogs, h.slots.apart, h.slots.unique⟩, h.current⟩

theorem addSize (h : g.Orderly w) (ret : Int) : (g.addSize ret).Orderly w := by
  rw [CLog.addSize]
  split_ifs
  · exact ⟨h.busy, h.pos, h.slots, h.current⟩
  · exact h

theorem next_ne_last (h : g.Orderly w) {n : Nat} (hn : g.fd g.next = some n) : w.table.get n ≠ w.logs.getLast? := by
  intro hlast
  obtain ⟨f, hmem, hf⟩ := Files.mem_openLogs.mp (h.slots.mem hn)
  rw [← h.current, hf] at hlast
  obtain ⟨m, hm, hget⟩ := Option.bind_eq_some_iff.mp hlast.symm
  obtain rfl := h.slots.unique n m f hmem hf hget
  exact g.next_ne_cur (h.slots.apart _ _ n hn hm)

theorem current_closeSlot (h : g.Orderly w) :
    (g.fd g.cur).bind (w.closeSlot (g.fd g.next)).table.get = w.logs.getLast? := by
  rw [← h.current]
  apply Option.bind_congr
  intro n hn
  apply Files.get_closeSlot
  intro hnext
  exact g.next_ne_cur (h.slots.apart _ _ n hnext hn)

theorem lose (h : g.Orderly w) : g.lose.Orderly (w.closeSlot (g.fd g.next)) where
  busy := rfl
  pos := by
    cases hfd : g.fd g.next <;> exact h.pos
  slots := h.slots.closeSlot g.next
  current := by
    have hcur : g.lose.fd g.lose.cur = g.fd g.cur := Function.update_of_ne g.next_ne_cur.symm ..
    rw [hcur, h.current_closeSlot]
    cases hfd : g.fd g.next <;> rfl

theorem enter (h : g.Orderly w) (path : Str) (ptime : Tm) :
    (g.enter ptime (w.closeSlot (g.fd g.next)).table.lowest).Orderly ((w.closeSlot (g.fd g.next)).openLog path) where
  busy := rfl
  pos := by
    have hlogs : (w.closeSlot (g.fd g.next)).logs = w.logs := by cases hfd : g.fd g.next <;> rfl
    simp only [CLog.enter, Files.openLog, hlogs, List.length_append, List.length_singleton, UInt32.ofNat_add, h.pos]
    rw [UInt32.sub_add_cancel]
    exact (UInt32.add_sub_cancel ..).symm
  slots := by
    have hslots := (h.slots.closeSlot g.next).openLog (Function.update_self ..) path
    rwa [Function.update_idem] at hslots
  current := by
    rw [cur_enter, fd_enter_next, Option.bind_some, Files.get_openLog, if_pos rfl]
    exact List.getLast?_concat.symm

end Orderly

theorem keeps_lose (h : g.Orderly w) : Keeps g w g.lose (w.closeSlot (g.fd g.next)) where
  pos := rfl
  fd := Function.update_of_ne g.next_ne_cur.symm ..
  current n hn := by
    refine ⟨(h.slots.closeSlot g.next).mem (i := g.cur) ?_, Files.get_closeSlot fun hnext => ?_⟩
    · rw [Function.update_of_ne g.next_ne_cur.symm, hn]
    · exact g.next_ne_cur (h.slots.apart _ _ n hnext hn)

/-- `new_file` is called at `g` and `w`. -/
def Rotates (g : CLog) (w : Files) (r : FileStatus × CLog) (w' : Files) : Prop :=
  r.2.Orderly w' ∧ ((r.1 = .success ∧ (r.2.fd r.2.cur).isSome = true) ∨ (r.1 = .failure ∧ Keeps g w r.2 w'))

theorem pre_newFile (h : g.Orderly w) :
    pre logAnswer anyAnswer disciplined (newFile localtime g) (Rotates g w) w := by
  rw [newFile, if_neg (by rw [h.busy]; exact Bool.false_ne_true)]
  refine pre_perform.mpr fun x y _ hy => ?_
  obtain ⟨t, rfl, rfl⟩ := logAnswer_time hy
  have ht := h.tick t
  refine ⟨decide_eq_true h.slots.length_le, pre_bind.mpr ?_⟩
  have hclose : pre logAnswer anyAnswer disciplined (closeSlot (g.fd g.next))
      (fun _ w' => w' = (w.tick t).closeSlot (g.fd g.next)) (w.tick t) := by
    cases hfd : g.fd g.next with
    | none => exact rfl
    | some n =>
      intro x y _ hy
      obtain ⟨rfl, rfl⟩ := logAnswer_close hy
      refine ⟨decide_eq_true ⟨ht.slots.length_le, ht.slots.mem hfd, ht.next_ne_last hfd⟩, rfl⟩
  refine pre_mono ?_ hclose
  rintro - w' rfl
  refine pre_bind.mpr ?_
  have hlen := ht.lose.slots.length_le
  have hname : pre logAnswer anyAnswer disciplined (curFilename { g with busy := true } (localtime t))
      (fun _ w' => w' = (w.tick t).closeSlot (g.fd g.next)) ((w.tick t).closeSlot (g.fd g.next)) := by
    rcases curFilename_name { g with busy := true } (localtime t) with ⟨path, hp⟩ | hp
    · rw [hp]
      exact rfl
    · rw [hp]
      intro x y _ hy
      cases x <;> cases hy
  refine pre_mono ?_ hname
  rintro path w' rfl
  refine pre_perform.mpr fun x y _ hy => ⟨decide_eq_true hlen, ?_⟩
  rcases logAnswer_openLog hy with ⟨rfl, rfl⟩ | ⟨err, rfl, rfl⟩
  · refine ⟨ht.enter path (localtime t), .inl ⟨rfl, ?_⟩⟩
    exact congrArg Option.isSome (fd_enter_next ..)
  · refine pre_perform.mpr fun x y _ hy => ⟨decide_eq_true hlen, ?_⟩
    obtain ⟨rfl, rfl⟩ := logAnswer_printf hy
    have hkeeps := keeps_lose ht
    exact ⟨ht.lose, .inr ⟨rfl, hkeeps.pos, hkeeps.fd, hkeeps.current⟩⟩

theorem pre_withFile {need : Bool} {k : CLog → LogAct (Int × CLog)} {Q : Int × CLog → Files → Prop} (h : g.Orderly w)
    (hQ : ∀ g' w', g'.Orderly w' → Q (-1, g') w')
    (hk : ∀ g' w', g'.Orderly w' → (need = false → g' = g) → (need = true → (g'.fd g'.cur).isSome = true) →
      pre logAnswer anyAnswer disciplined (k g') Q w') :
    pre logAnswer anyAnswer disciplined (withFile localtime need g k) Q w := by
  cases need with
  | false => exact hk g w h (fun _ => rfl) nofun
  | true =>
    refine pre_bind.mpr (pre_mono ?_ (pre_newFile h))
    rintro ⟨status, g'⟩ w' ⟨hg', ⟨rfl, hsome⟩ | ⟨rfl, -⟩⟩
    · exact hk g' w' hg' nofun fun _ => hsome
    · exact hQ g' w' hg'

theorem pre_writeLine (h : g.Orderly w) (hfd : (g.fd g.cur).isSome = true) :
    pre logAnswer anyAnswer disciplined (writeLine line g) (fun r w' => r.2.Orderly w') w := by
  refine pre_perform.mpr fun x y _ hy => ?_
  obtain ⟨n, hn⟩ := Option.isSome_iff_exists.mp hfd
  have hcurrent : w.table.get n = w.logs.getLast? := by rw [← h.current, hn, Option.bind_some]
  refine ⟨decide_eq_true ⟨h.slots.length_le, n, hn, h.slots.mem hn, hcurrent⟩, ?_⟩
  rcases logAnswer_write hy with ⟨n, f, k, -, -, -, -, rfl⟩ | ⟨-, rfl⟩
  · exact (h.record f line k).addSize k
  · exact h.addSize (-1)

theorem pre_prt {lvl : LogType} {text : Str} (h : g.Orderly w) :
    pre logAnswer anyAnswer disciplined (prt localtime lvl text g) (fun r w' => r.2.Orderly w') w := by
  rw [prt]
  by_cases hlvl : g.logLevel.val < lvl.val
  · rw [if_pos hlvl]
    exact h
  · rw [if_neg hlvl]
    refine pre_perform.mpr fun x y _ hy => ⟨decide_eq_true h.slots.length_le, ?_⟩
    obtain ⟨t, rfl, rfl⟩ := logAnswer_time hy
    have ht := h.tick t
    by_cases htank : g.logTank = .console
    · rw [if_pos htank]
      refine pre_perform.mpr fun x y _ hy => ⟨decide_eq_true h.slots.length_le, ?_⟩
      obtain ⟨rfl, rfl⟩ := logAnswer_printf hy
      exact ht
    · rw [if_neg htank]
      refine pre_withFile ht (fun g' w' hg' => hg') fun g₁ w₁ hg₁ hsame hnew => ?_
      have hsome : (g₁.fd g₁.cur).isSome = true := by
        cases hfd : g.fd g.cur with
        | none => exact hnew (by rw [hfd]; rfl)
        | some n =>
          obtain rfl := hsame (by rw [hfd]; rfl)
          rw [hfd]
          rfl
      refine pre_withFile hg₁ (fun g' w' hg' => hg') fun g₂ w₂ hg₂ hsame hnew => pre_writeLine hg₂ ?_
      cases hcut : g₁.cut (localtime t) with
      | false =>
        obtain rfl := hsame hcut
        exact hsome
      | true => exact hnew hcut

/-- **What holds of the calls of a function of the class, and of the state it leaves.** -/
theorem pre_prog (h : g.Orderly w) (op : LogOp) :
    pre logAnswer anyAnswer disciplined (op.prog localtime g) (fun g' w' => g'.Orderly w') w := by
  cases op with
  | init path filename =>
    rw [LogOp.prog, CLog.init]
    split_ifs
    · refine pre_perform.mpr fun x y _ hy => ⟨decide_eq_true h.slots.length_le, ?_⟩
      obtain ⟨rfl, rfl⟩ := logAnswer_printf hy
      exact h
    · have hnamed : CLog.Orderly { g with filename := snprintf 256 (cStr path ++ cStr filename) } w :=
        ⟨h.busy, h.pos, h.slots, h.current⟩
      exact pre_bind.mpr (pre_mono (fun _ _ hr => hr.1) (pre_newFile hnamed))
  | setLogLevel lvl => exact ⟨h.busy, h.pos, h.slots, h.current⟩
  | setLogTank tank =>
    change (g.setLogTank tank).Orderly w
    rw [setLogTank]
    split_ifs
    · exact ⟨h.busy, h.pos, h.slots, h.current⟩
    · exact ⟨h.busy, h.pos, h.slots, h.current⟩
    · exact h
  | setLogOutByTime hour => exact ⟨h.busy, h.pos, h.slots, h.current⟩
  | setLogOutByAmount len size => exact ⟨h.busy, h.pos, h.slots, h.current⟩
  | prt lvl text => exact pre_bind.mpr (pre_mono (fun _ _ hr => hr) (pre_prt h))

theorem pre_closePositive {fd : Fin 2 → Option Nat} {k : LogAct Unit} {i : Fin 2} (h : Slots fd w)
    (hk : ∀ fd' w', Slots fd' w' → (∀ j, j ≠ i → fd' j = fd j) →
      pre logAnswer anyAnswer closesOpen k (fun _ _ => True) w') :
    pre logAnswer anyAnswer closesOpen (do closePositive (fd i); k) (fun _ _ => True) w := by
  cases hfd : fd i with
  | none => exact hk fd w h fun _ _ => rfl
  | some n =>
    cases n with
    | zero => exact hk fd w h fun _ _ => rfl
    | succ n =>
      refine pre_perform.mpr fun x y _ hy => ⟨decide_eq_true ⟨h.length_le, h.mem hfd⟩, ?_⟩
      obtain ⟨rfl, rfl⟩ := logAnswer_close hy
      have hclosed := h.closeSlot i
      rw [hfd] at hclosed
      exact hk _ _ hclosed fun j hj => Function.update_of_ne hj ..

theorem pre_destroy (h : g.Orderly w) :
    pre logAnswer anyAnswer closesOpen g.destroy (fun _ _ => True) w := by
  refine pre_closePositive h.slots fun fd w' hfd hsame => ?_
  rw [← hsame 1 (by decide)]
  have hlast := pre_closePositive (i := 1) (k := pure ()) hfd fun _ _ _ _ => trivial
  exact pre_mono (fun _ _ _ => trivial) (pre_bind.mp hlast)

end

end CLog

/-! ### Runs -/

/-- The log of a process that is in order: between calls, at every call of the next function, at a failed rotation, and
at every call of the destructor. -/
structure LogInOrder (localtime : Int → Tm) (s : LogState) : Prop where
  /-- `m_busy` is `0`. -/
  busy : s.log.busy = false
  /-- `m_pos` counts the files opened, from `-1`. -/
  pos : s.log.pos = UInt32.ofNat s.files.logs.length - 1
  length_le : s.files.openLogs.length ≤ 2
  calls : ∀ op : LogOp, pre logAnswer anyAnswer disciplined (op.prog localtime s.log) (fun _ _ => True) s.files
  rotation : ∀ t, pre logAnswer anyAnswer disciplined (CLog.newFile localtime s.log)
    (fun r w => r.1 = .failure → CLog.Keeps s.log s.files r.2 w) (s.files.tick t)
  destroy : pre logAnswer anyAnswer closesOpen s.log.destroy (fun _ _ => True) s.files

/-- A `CLog` as it is constructed, in a process with any files open. -/
def constructed (tank : LogTank) (w : Files) : LogState := ⟨CLog.new tank, w.unlogged⟩

section

variable {localtime : Int → Tm} {s u : LogState} {l : LogOp × List LogChoice} {ls : List (LogOp × List LogChoice)}
  {tank : LogTank} {w : Files}

theorem orderly_unlogged {g : CLog} (hbusy : g.busy = false) (hpos : g.pos = -1) (hfd : g.fd = fun _ => none) :
    g.Orderly w.unlogged := by
  refine ⟨hbusy, hpos, ?_, ?_⟩
  · rw [hfd]
    refine ⟨fun n => ?_, nofun, nofun⟩
    rw [Files.mem_openLogs]
    exact iff_of_false (fun ⟨f, hmem, _⟩ => List.not_mem_nil hmem) nofun
  · rw [hfd]
    rfl

/-- **A step of a run.** -/
theorem orderly_step (h : s.log.Orderly s.files) (hstep : s.step localtime anyAnswer l = some u) :
    u.log.Orderly u.files := by
  obtain ⟨r, hr, rfl⟩ := Option.map_eq_some_iff.mp hstep
  exact (exec_of_pre (CLog.pre_prog h l.1) hr).2

theorem logInOrder_of_orderly (h : s.log.Orderly s.files) : LogInOrder localtime s where
  busy := h.busy
  pos := h.pos
  length_le := h.slots.length_le
  calls op := pre_mono (fun _ _ _ => trivial) (CLog.pre_prog h op)
  rotation t := by
    refine pre_mono ?_ (CLog.pre_newFile (h.tick t))
    rintro ⟨status, g⟩ w' ⟨-, ⟨hsuccess, -⟩ | ⟨-, hkeeps⟩⟩ hfailure
    · exact absurd (hsuccess.symm.trans hfailure) nofun
    · exact ⟨hkeeps.pos, hkeeps.fd, hkeeps.current⟩
  destroy := CLog.pre_destroy h

/-- **In every state of a run, whatever the clock says and whatever the calls come to, the log is in order.** -/
theorem log_in_order (h : Runs (LogState.step localtime anyAnswer) (fun _ _ => True) (constructed tank w) ls u) :
    LogInOrder localtime u := by
  apply logInOrder_of_orderly
  exact h.inv (fun s => s.log.Orderly s.files) (orderly_unlogged rfl rfl rfl) fun s l u hs _ hstep =>
    orderly_step hs hstep

/-- A clock that counts hours. -/
def hours (t : Int) : Tm := ⟨124, 0, 15, t % 24, 0, 0⟩

/-- At eleven the next file cannot be opened at first. At twelve it can, and the file of ten is closed. -/
def failedRotation : List (LogOp × List LogChoice) :=
  [(.init (lit "../log/") (lit "error"), [.now 10, .opened]), (.setLogTank (lit "file"), []), (.setLogOutByTime 1, []),
    (.prt .error (lit "a"), [.now 10, .wrote 31]),
    (.prt .error (lit "b"), [.now 11, .now 11, .openFails (lit "Permission denied"), .ok]),
    (.prt .error (lit "b"), [.now 11, .now 11, .opened, .wrote 31]), (.setLogOutByTime (-1), []),
    (.prt .error (lit "c"), [.now 12, .writeFails]), (.setLogOutByTime 1, []),
    (.prt .error (lit "c"), [.now 12, .now 12, .ok, .opened, .wrote 31])]

theorem failedRotation_in_order : ∃ u, Runs (LogState.step hours anyAnswer) (fun _ _ => True)
    (constructed .console (Files.empty 0)) failedRotation u ∧ LogInOrder hours u := by
  have hrun : (check (LogState.step hours anyAnswer) (fun _ _ => True) failedRotation
      (constructed .console (Files.empty 0))).isSome = true := by decide
  exact ⟨_, runs_get hrun, log_in_order (runs_get hrun)⟩

end

end PullStream
