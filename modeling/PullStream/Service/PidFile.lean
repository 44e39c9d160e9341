import PullStream.App.PidFile
/-!
# The pid file reads back

The text that `write_pid_to_file` leaves in the file is the pid and an end of line, and then whatever was there of an
older text (`text_writePid`). `atoi` reads the number at the beginning of a text that goes on with some byte that is
no digit (`atoi_fmtD`), here the end of line. So what comes behind it does not matter, be it in the file or, if the 64
bytes of the buffer are all taken, in memory (`pid_reads_back`).
-/

namespace PullStream

open Prog FileSystem

/-! ### Printed numbers -/

section

variable {b : UInt8} {rest : Str}

theorem toNat_digit {n : Nat} {c : Char} (hc : c ∈ Nat.toDigits 10 n) :
    48 ≤ c.toNat ∧ c.toNat ≤ 57 ∧ (UInt8.ofNat c.toNat).toNat = c.toNat := by
  have hdigit := Nat.isDigit_of_mem_toDigits (by decide) (by decide) hc
  rw [Char.isDigit, Bool.and_eq_true, decide_eq_true_eq, decide_eq_true_eq] at hdigit
  have hle : 48 ≤ c.toNat := UInt32.le_iff_toNat_le.mp hdigit.1
  have hge : c.toNat ≤ 57 := UInt32.le_iff_toNat_le.mp hdigit.2
  refine ⟨hle, hge, ?_⟩
  rw [UInt8.toNat_ofNat']
  omega

theorem isDigit_of_mem_digits {n : Int} (hb : b ∈ digits n) : isDigit b = true := by
  obtain ⟨c, hc, rfl⟩ := List.mem_map.mp hb
  obtain ⟨hle, hge, hnat⟩ := toNat_digit hc
  rw [isDigit_iff, hnat]
  exact ⟨hle, hge⟩

theorem digitsValue_digits (n : Int) (hb : isDigit b = false) : digitsValue (digits n ++ b :: rest) = n.natAbs := by
  have htake : (digits n ++ b :: rest).takeWhile isDigit = digits n := by
    rw [List.takeWhile_append_of_pos fun _ => isDigit_of_mem_digits, List.takeWhile_cons_of_neg (by simp [hb]),
      List.append_nil]
  rw [digitsValue, htake, digits, List.foldl_map]
  calc
    _ = Nat.ofDigitChars 10 (Nat.toDigits 10 n.natAbs) 0 := by
      rw [Nat.ofDigitChars_eq_foldl]
      refine List.foldl_ext _ _ _ fun m c hc => ?_
      rw [(toNat_digit hc).2.2]
      rfl
    _ = n.natAbs := Nat.ofDigitChars_ten_toDigits

theorem digits_cons (n : Int) : ∃ d ds, digits n = d :: ds ∧ isDigit d = true := by
  have hne : digits n ≠ [] := fun h => Nat.toDigits_ne_nil (List.map_eq_nil_iff.mp h)
  obtain ⟨d, ds, hds⟩ := List.exists_cons_of_ne_nil hne
  exact ⟨d, ds, hds, isDigit_of_mem_digits (hds ▸ List.mem_cons_self)⟩

/-- What `strtol` has read is cut to a `long`, and that to an `int`. -/
def cutToInt (n : Int) : Int32 := Int32.ofInt (max (-2 ^ 63) (min n (2 ^ 63 - 1)))

theorem cutToInt_toInt (n : Int32) : cutToInt n.toInt = n := by
  have hlt := n.toInt_lt
  have hle := n.le_toInt
  have hcut : max (-2 ^ 63) (min n.toInt (2 ^ 63 - 1)) = n.toInt := by omega
  rw [cutToInt, hcut, Int32.ofInt_toInt]

theorem atoi_minus (s : Str) : atoi (lit "-" ++ s) = cutToInt (-(digitsValue s : Int)) := rfl

theorem atoi_digit (hb : isDigit b = true) : atoi (b :: rest) = cutToInt (digitsValue (b :: rest)) := by
  obtain ⟨hle, hge⟩ := isDigit_iff.mp hb
  have hspace : ¬ isSpace b = true := by
    simp only [isSpace, ← UInt8.toNat_inj, UInt8.le_iff_toNat_le, decide_eq_true_eq, UInt8.reduceToNat]
    omega
  rw [atoi, List.dropWhile_cons_of_neg hspace]
  split
  · rename_i h
    obtain ⟨rfl, -⟩ := List.cons.inj h
    exact absurd hb (by decide)
  · rename_i h
    obtain ⟨rfl, -⟩ := List.cons.inj h
    exact absurd hb (by decide)
  · rfl

/-- **`atoi` reads back what `%d` prints**, when it is followed by some byte that is no digit. -/
theorem atoi_fmtD (n : Int32) (hb : isDigit b = false) : atoi (fmtD n.toInt ++ b :: rest) = n := by
  have hvalue : digitsValue (digits n.toInt ++ b :: rest) = n.toInt.natAbs := digitsValue_digits n.toInt hb
  rw [fmtD, sign]
  split_ifs with hneg
  · rw [List.append_assoc, atoi_minus, hvalue, Int.ofNat_natAbs_of_nonpos (Int.le_of_lt hneg), Int.neg_neg,
      cutToInt_toInt]
  · obtain ⟨d, ds, hds, hd⟩ := digits_cons n.toInt
    rw [List.nil_append, hds, List.cons_append, atoi_digit hd, ← List.cons_append, ← hds, hvalue,
      Int.natAbs_of_nonneg (Int.not_lt.mp hneg), cutToInt_toInt]

end

/-! ### The calls -/

section

variable {pid : Int} {file : Str} {fd : Int} {n : Nat} {ok : PidCall → PidChoice → State Str UInt8 → Bool}
  {x : PidChoice} {xs : List PidChoice} {w : State Str UInt8}

theorem pidAnswer_getpid {y : Int × State Str UInt8} (h : pidAnswer pid (.start .getpid) x w = some y) :
    y = (pid, w) := by
  cases x <;> cases h
  rfl

theorem pidAnswer_openFile {y : Except Str Int × State Str UInt8}
    (h : pidAnswer pid (.start (.sys (.openFile file))) x w = some y) :
    (∃ errno, x = .fails errno ∧ y = (.error errno, w)) ∨
      y = (.ok w.table.lowest, (w.create file).openAt file) := by
  cases x <;> cases h
  · exact .inr rfl
  · exact .inl ⟨_, rfl, rfl⟩

theorem pidAnswer_lockf {y : Except Str Int × State Str UInt8}
    (h : pidAnswer pid (.start (.sys (.lockf fd))) x w = some y) :
    (∃ errno, x = .fails errno ∧ y = (.error errno, w)) ∨ y = (.ok 0, w) := by
  cases x <;> cases h
  · exact .inr rfl
  · exact .inl ⟨_, rfl, rfl⟩

theorem pidAnswer_write {buffer : Str} {y : Except Str Int × State Str UInt8}
    (h : pidAnswer pid (.start (.sys (.write fd buffer))) x w = some y)
    (hx : whole (.start (.sys (.write fd buffer))) x w = true) :
    (∃ errno, x = .fails errno ∧ y = (.error errno, w)) ∨
      ∃ u, w.write 0 fd.toNat buffer = some u ∧ y = (.ok buffer.length, u) := by
  cases x with
  | fails errno =>
    cases h
    exact .inl ⟨errno, rfl, rfl⟩
  | moves n =>
    obtain ⟨u, hu, rfl⟩ := Option.map_eq_some_iff.mp h
    rw [List.take_of_length_le (of_decide_eq_true hx)] at hu ⊢
    exact .inr ⟨u, hu, rfl⟩
  | ok => cases h

theorem pidAnswer_printf {text : Str} {y : Unit × State Str UInt8}
    (h : pidAnswer pid (.start (.printf text)) x w = some y) : y = ((), w) := by
  cases x <;> cases h
  rfl

theorem pidAnswer_openRead {y : Except Str Int × State Str UInt8} (h : pidAnswer pid (.openRead file) x w = some y) :
    (∃ errno, x = .fails errno ∧ y = (.error errno, w)) ∨ y = (.ok w.table.lowest, w.openAt file) := by
  cases x with
  | ok =>
    rw [pidAnswer] at h
    split_ifs at h
    cases h
    exact .inr rfl
  | fails errno =>
    cases h
    exact .inl ⟨errno, rfl, rfl⟩
  | moves => cases h

theorem pidAnswer_read {y : Except Str Str × State Str UInt8} (h : pidAnswer pid (.read fd n) x w = some y)
    (hx : whole (.read fd n) x w = true) :
    (∃ errno, x = .fails errno ∧ y = (.error errno, w)) ∨
      ∃ r, w.read fd.toNat n = some r ∧ y = (.ok r.1, r.2) := by
  cases x with
  | fails errno =>
    cases h
    exact .inl ⟨errno, rfl, rfl⟩
  | moves k =>
    obtain ⟨r, hr, rfl⟩ := Option.map_eq_some_iff.mp h
    rw [min_eq_left (of_decide_eq_true hx)] at hr
    exact .inr ⟨r, hr, rfl⟩
  | ok => cases h

theorem exec_logExit {text : Str} {r : Unit × State Str UInt8} : exec (pidAnswer pid) ok xs
    (Prog.lift PidCall.start (fun _ x => x) (do CUtils.logError text; exitWith 0)) w ≠ some r := by
  intro h
  obtain ⟨x, xs, y, -, -, -, h⟩ := exec_call.mp h
  obtain ⟨x, xs, y, -, -, hy, -⟩ := exec_call.mp h
  cases x <;> cases hy

/-! ### The functions -/

/-- What `write_pid_to_file` writes. -/
def pidText (pid : Int) : Str := fmtD pid ++ lit "\n"

/-- **What is in the files when `write_pid_to_file` has returned**, its text having been written. -/
theorem text_writePid {r : Unit × State Str UInt8}
    (h : exec (pidAnswer pid) whole xs (CUtils.writePid file) w = some r) :
    r.2.text = Function.update w.text file
      (some (pidText pid ++ (w.content file).drop (pidText pid).length)) := by
  obtain ⟨x, xs, y, -, -, hy, h⟩ := exec_call.mp h
  obtain rfl := pidAnswer_getpid hy
  obtain ⟨x, xs, y, -, -, hy, h⟩ := exec_call.mp h
  rcases pidAnswer_openFile hy with ⟨errno, -, rfl⟩ | rfl
  · exact absurd h exec_logExit
  obtain ⟨x, xs, y, -, -, hy, h⟩ := exec_call.mp h
  rcases pidAnswer_lockf hy with ⟨errno, -, rfl⟩ | rfl
  · obtain ⟨x, xs, y, -, -, -, h⟩ := exec_call.mp h
    exact absurd h exec_logExit
  obtain ⟨x, xs, y, -, hx, hy, h⟩ := exec_call.mp h
  rcases pidAnswer_write hy hx with ⟨errno, -, rfl⟩ | ⟨u, hu, rfl⟩
  · exact absurd h exec_logExit
  obtain ⟨x, xs, y, -, -, hy, h⟩ := exec_call.mp h
  obtain rfl := pidAnswer_printf hy
  obtain ⟨-, rfl⟩ := exec_ret.mp h
  obtain ⟨u', hu', htext⟩ := State.write_openAt 0 (w.create file) file (pidText pid)
  obtain rfl : u' = u := Option.some.inj (hu'.symm.trans hu)
  rw [htext, State.content_create]
  exact Function.update_idem ..

theorem ne_zero_of_mem_pidText {pid : Int} {b : UInt8} (hb : b ∈ pidText pid) : b ≠ 0 := by
  rw [pidText, fmtD, List.append_assoc, List.mem_append, List.mem_append] at hb
  rintro rfl
  rcases hb with hb | hb | hb
  · rw [sign] at hb
    split_ifs at hb
    · exact absurd hb (by decide)
    · cases hb
  · exact absurd (isDigit_of_mem_digits hb) (by decide)
  · exact absurd hb (by decide)

theorem length_pidText_le (pid : Int32) : (pidText pid.toInt).length ≤ 12 := by
  have hlt := pid.toInt_lt
  have hle := pid.le_toInt
  have hdigits : (digits pid.toInt).length ≤ 10 := by
    rw [digits, List.length_map, Nat.length_toDigits_le_iff (by decide) (by decide)]
    omega
  have hsign : (sign pid.toInt).length ≤ 1 := by
    rw [sign]
    split_ifs <;> decide
  rw [pidText, fmtD, List.length_append, List.length_append, show (lit "\n").length = 1 from rfl]
  omega

theorem atoi_pidText (pid : Int32) (rest : Str) : atoi (cStr (pidText pid.toInt ++ rest)) = pid := by
  have hclean : ∀ b ∈ pidText pid.toInt, decide (b ≠ 0) = true :=
    fun b hb => decide_eq_true (ne_zero_of_mem_pidText hb)
  rw [cStr, List.takeWhile_append_of_pos hclean, pidText, List.append_assoc]
  exact atoi_fmtD pid rfl

/-- What is in the buffer of `get_pid_from_file` and behind it. -/
def bufferText (beyond content : Str) : Str :=
  content.take 64 ++ List.replicate (64 - (content.take 64).length) 0 ++ beyond

theorem atoi_bufferText (beyond : Str) (pid : Int32) (rest : Str) :
    atoi (cStr (bufferText beyond (pidText pid.toInt ++ rest))) = pid := by
  have hlen := length_pidText_le pid
  rw [bufferText, List.take_append, List.take_of_length_le (by omega), List.append_assoc, List.append_assoc]
  exact atoi_pidText pid _

theorem getPidFromFile_cases {beyond : Str} {oPid : Int32} {r : (Int × Int32) × State Str UInt8}
    (h : exec (pidAnswer pid) whole xs (CUtils.getPidFromFile beyond file oPid) w = some r) :
    (r.1 = ((ErrorCode.errorOpenPidFile : Int), oPid) ∧ ∃ errno, .fails errno ∈ xs) ∨
      r.1 = ((ErrorCode.errorOk : Int), atoi (cStr (bufferText beyond (w.content file)))) := by
  obtain ⟨x, xs, y, rfl, -, hy, h⟩ := exec_call.mp h
  rcases pidAnswer_openRead hy with ⟨errno, rfl, rfl⟩ | rfl
  · obtain ⟨x, xs, y, rfl, -, hy, h⟩ := exec_call.mp h
    obtain ⟨-, rfl⟩ := exec_ret.mp h
    exact .inl ⟨rfl, errno, List.mem_cons_self⟩
  obtain ⟨x', xs, y, rfl, hx, hy, h⟩ := exec_call.mp h
  rcases pidAnswer_read hy hx with ⟨errno, rfl, rfl⟩ | ⟨u, hu, rfl⟩
  · obtain ⟨x, xs, y, rfl, -, hy, h⟩ := exec_call.mp h
    obtain ⟨-, rfl⟩ := exec_ret.mp h
    exact .inl ⟨rfl, errno, List.mem_cons_of_mem _ List.mem_cons_self⟩
  · obtain ⟨-, rfl⟩ := exec_ret.mp h
    obtain ⟨v, hv⟩ := State.read_openAt (w := w) (p := file) 64
    obtain rfl : u = _ := Option.some.inj (hu.symm.trans hv)
    exact .inr rfl

theorem exec_getPidFromFile (pid : Int) (beyond : Str) (oPid : Int32) (hfile : (w.text file).isSome) :
    ∃ u, exec (pidAnswer pid) unfailing [.ok, .moves 64] (CUtils.getPidFromFile beyond file oPid) w =
      some (((ErrorCode.errorOk : Int), atoi (cStr (bufferText beyond (w.content file)))), u) := by
  obtain ⟨u, hu⟩ := State.read_openAt (w := w) (p := file) 64
  refine ⟨u, exec_call.mpr ⟨.ok, _, _, rfl, rfl, if_pos hfile, ?_⟩⟩
  refine exec_call.mpr ⟨.moves 64, [], (.ok ((w.content file).take 64), u), rfl, rfl, ?_, exec_ret.mpr ⟨rfl, rfl⟩⟩
  exact Option.map_eq_some_iff.mpr ⟨_, hu, rfl⟩

end

/-- **The pid file reads back what was written**: when `write_pid_to_file` has returned in a process with the pid `pid`,
its text having been written, `get_pid_from_file` in whatever process returns `ERROR_OK` with this pid, unless its own
`open` or `read` fails. -/
theorem pid_reads_back {pid : Int32} {reader : Int} {file beyond : Str} {oPid : Int32} {xs : List PidChoice}
    {w w' v : State Str UInt8}
    (hwrite : exec (pidAnswer pid.toInt) whole xs (CUtils.writePid file) w = some ((), w'))
    (hfile : v.text file = w'.text file) :
    (∃ ys u, exec (pidAnswer reader) unfailing ys (CUtils.getPidFromFile beyond file oPid) v =
      some (((ErrorCode.errorOk : Int), pid), u)) ∧
    ∀ ys r u, exec (pidAnswer reader) whole ys (CUtils.getPidFromFile beyond file oPid) v = some (r, u) →
      r = ((ErrorCode.errorOk : Int), pid) ∨
        r = ((ErrorCode.errorOpenPidFile : Int), oPid) ∧ ∃ errno, .fails errno ∈ ys := by
  have htext : v.text file = some (pidText pid.toInt ++ (w.content file).drop (pidText pid.toInt).length) := by
    rw [hfile, text_writePid hwrite]
    exact Function.update_self ..
  have hpid : atoi (cStr (bufferText beyond (v.content file))) = pid := by
    rw [State.content, htext]
    exact atoi_bufferText beyond pid _
  constructor
  · obtain ⟨u, hu⟩ := exec_getPidFromFile reader beyond oPid (Option.isSome_of_eq_some htext)
    rw [hpid] at hu
    exact ⟨_, u, hu⟩
  · intro ys r u hread
    rcases getPidFromFile_cases hread with hfails | hr
    · exact .inr hfails
    · rw [hpid] at hr
      exact .inl hr

/-- A pid file in which there is a longer pid. -/
def oldPidFile : State Str UInt8 := ⟨fun p => if p = lit "../log/pid" then some (lit "1234567\n") else none, []⟩

theorem pid_over_longer : ∃ w', exec (pidAnswer 42) whole [.ok, .ok, .ok, .moves 3, .ok]
      (CUtils.writePid (lit "../log/pid")) oldPidFile = some ((), w') ∧
    ∃ ys u, exec (pidAnswer 7) unfailing ys (CUtils.getPidFromFile [53] (lit "../log/pid") 0) w' =
      some (((ErrorCode.errorOk : Int), 42), u) := by
  have hwrite : ∃ w', exec (pidAnswer (42 : Int32).toInt) whole [.ok, .ok, .ok, .moves 3, .ok]
      (CUtils.writePid (lit "../log/pid")) oldPidFile = some ((), w') := ⟨_, rfl⟩
  obtain ⟨w', hw'⟩ := hwrite
  exact ⟨w', hw', (pid_reads_back hw' rfl).1⟩

end PullStream
