import PullStream.Config.Settings
/-!
# Where the programs are installed

The loop of `get_cur_path` comes to the last `/` of `argv[0]`, and if there is none the null pointer is subtracted
from. A directory of up to 255 bytes fits into the buffer of 256, and then both versions of the function put it there.
For a longer one that of `pulld` exits, and that of `pull` leaves the buffer as it is and returns `-1`, which nobody
looks at. The buffers of the same size for the paths that are made of the directory have room for 240 bytes of it.
-/

namespace PullStream

/-! ### The last slash -/

/-- `dir` is the part of `argv[0]` before its last slash. -/
def DirOf (argv0 dir : Str) : Prop := ∃ name, cStr argv0 = dir ++ slash :: name ∧ slash ∉ name

section

variable {argv0 dir name buf : Str} {pos q : Nat} {last : Option Nat}

theorem exists_dirOf (h : slash ∈ cStr argv0) : ∃ dir, DirOf argv0 dir := by
  obtain ⟨l₁, l₂, heq, hl₁⟩ := List.eq_append_cons_of_mem (List.mem_reverse.mpr h)
  refine ⟨l₂.reverse, l₁.reverse, ?_, fun hmem => hl₁ (List.mem_reverse.mp hmem)⟩
  rw [← List.reverse_reverse (cStr argv0), heq]
  simp

theorem strchr_none_iff {s : Str} {b : UInt8} : strchr s pos b = none ↔ b ∉ (cStr s).drop pos := by
  rw [strchr]
  split_ifs with h
  · exact iff_of_false not_false fun hn => hn h
  · exact iff_of_true rfl h

theorem strchr_dir (hstr : cStr argv0 = dir ++ slash :: name) (hpos : pos ≤ dir.length) :
    ∃ q, strchr argv0 pos slash = some q ∧ q ≤ dir.length := by
  have hdrop : (cStr argv0).drop pos = dir.drop pos ++ slash :: name := by
    rw [hstr, List.drop_append_of_le_length hpos]
  have hidx : ((cStr argv0).drop pos).idxOf slash ≤ dir.length - pos := by
    rw [hdrop, ← List.length_drop]
    by_cases hmem : slash ∈ dir.drop pos
    · rw [List.idxOf_append_of_mem hmem]
      exact List.idxOf_le_length
    · rw [List.idxOf_append_of_notMem hmem, List.idxOf_cons_self]
      exact Nat.le_refl _
  refine ⟨_, if_pos ?_, by omega⟩
  rw [hdrop]
  exact List.mem_append_right _ List.mem_cons_self

theorem strchr_name (hstr : cStr argv0 = dir ++ slash :: name) (hname : slash ∉ name) (hpos : dir.length < pos) :
    strchr argv0 pos slash = none := by
  obtain ⟨k, rfl⟩ := Nat.exists_eq_add_of_lt hpos
  rw [strchr_none_iff, hstr, Nat.add_assoc, ← List.drop_drop, List.drop_left]
  exact fun hmem => hname (List.mem_of_mem_drop hmem)

theorem le_of_strchr (hstr : cStr argv0 = dir ++ slash :: name) (hname : slash ∉ name)
    (h : strchr argv0 pos slash = some q) : q ≤ dir.length := by
  rcases Nat.lt_or_ge dir.length pos with hlt | hle
  · exact absurd (h.symm.trans (strchr_name hstr hname hlt)) nofun
  · obtain ⟨q', hq', hle'⟩ := strchr_dir hstr hle
    exact Option.some.inj (h.symm.trans hq') ▸ hle'

theorem lastSlash_loop (hstr : cStr argv0 = dir ++ slash :: name) (hname : slash ∉ name)
    (hpos : pos ≤ dir.length ∨ last = some dir.length) : lastSlash argv0 pos last = some dir.length := by
  fun_induction lastSlash argv0 pos last with
  | case1 pos last hnone =>
    refine hpos.resolve_left fun hle => ?_
    obtain ⟨q, hq, -⟩ := strchr_dir hstr hle
    exact absurd (hnone.symm.trans hq) nofun
  | case2 pos last q hq hlt ih =>
    apply ih
    rcases Nat.lt_or_eq_of_le (le_of_strchr hstr hname hq) with hlt' | rfl
    · exact .inl hlt'
    · exact .inr rfl
  | case3 pos last q hq hend =>
    have hle := le_of_strchr hstr hname hq
    rw [hstr, List.length_append, List.length_cons] at hend
    exact congrArg some (by omega)

theorem lastSlash_dir (h : DirOf argv0 dir) : lastSlash argv0 0 none = some dir.length := by
  obtain ⟨name, hstr, hname⟩ := h
  exact lastSlash_loop hstr hname (.inl (Nat.zero_le _))

theorem length_dir {dir' : Str} (h : DirOf argv0 dir) (h' : DirOf argv0 dir') : dir.length = dir'.length :=
  Option.some.inj ((lastSlash_dir h).symm.trans (lastSlash_dir h'))

theorem dirOf_of_lastSlash (h : lastSlash argv0 0 none = some q) : ∃ dir, DirOf argv0 dir ∧ dir.length = q := by
  by_cases hmem : slash ∈ cStr argv0
  · obtain ⟨dir, hdir⟩ := exists_dirOf hmem
    exact ⟨dir, hdir, Option.some.inj ((lastSlash_dir hdir).symm.trans h)⟩
  · rw [lastSlash] at h
    split at h
    · cases h
    · rename_i hq
      rw [strchr_none_iff.mpr hmem] at hq
      cases hq

/-! ### `get_cur_path` -/

theorem ne_zero_of_dirOf (h : DirOf argv0 dir) : (0 : UInt8) ∉ dir := by
  obtain ⟨name, hstr, -⟩ := h
  intro hmem
  have hmem' : (0 : UInt8) ∈ cStr argv0 := hstr ▸ List.mem_append_left _ hmem
  have := List.mem_takeWhile_imp hmem'
  simp at this

theorem drop_zeroed {n : Nat} (h : n ≤ 255) : zeroed.drop n = 0 :: List.replicate (255 - n) 0 := by
  rw [zeroed, maxPathLength, List.drop_replicate, ← List.replicate_succ]
  congr 1
  omega

theorem cStr_strncpy (h : DirOf argv0 dir) (hlen : dir.length ≤ 255) :
    cStr (strncpy zeroed argv0 dir.length) = dir := by
  obtain ⟨name, hstr, -⟩ := id h
  have htake : (cStr argv0).take dir.length = dir := by rw [hstr, List.take_left]
  simp only [strncpy, htake, Nat.sub_self, List.replicate_zero, List.append_nil, drop_zeroed hlen]
  rw [cStr, List.takeWhile_append_of_pos]
  · rw [List.takeWhile_cons_of_neg (by simp), List.append_nil]
  · intro b hb
    exact decide_eq_true (ne_of_mem_of_not_mem hb (ne_zero_of_dirOf h))

theorem set_strncpy {n : Nat} (h : n ≤ 255) : (strncpy zeroed argv0 n).set n 0 = strncpy zeroed argv0 n := by
  have hlen : ((cStr argv0).take n ++ List.replicate (n - ((cStr argv0).take n).length) 0).length = n := by
    rw [List.length_append, List.length_replicate, List.length_take]
    omega
  rw [strncpy, List.set_append_right _ _ (Nat.le_of_eq hlen), hlen, Nat.sub_self, drop_zeroed h, List.set_cons_zero]

theorem rcStrncpy_zeroed {len : Int32} (h : ¬ 255 < len) : rcStrncpy zeroed 256 argv0 len =
    if len < 0 then none else some (strncpy zeroed argv0 len.toInt.toNat) := by
  have hle : len.toInt ≤ 255 := Int.not_lt.mp fun hlt => h (Int32.lt_iff_toInt_lt.mpr hlt)
  rw [rcStrncpy, show (256 : Int32) - 1 = 255 from rfl]
  split_ifs with hlt hneg hneg
  · rfl
  · rw [set_strncpy (by omega)]
  · have : len.toInt < 0 := Int32.lt_iff_toInt_lt.mp hneg
    exact absurd (Int32.lt_iff_toInt_lt.mpr (Int.lt_trans this (by decide))) hlt
  · have heq : len.toInt.toNat = 255 := by
      have : ¬ len.toInt < 255 := fun hl => hlt (Int32.lt_iff_toInt_lt.mpr hl)
      omega
    rw [heq]
    exact congrArg some (set_strncpy (Nat.le_refl _))

/-- `len` in `get_cur_path`. -/
def lenOf (dir : Str) : Int32 := Int32.ofNat dir.length

theorem lenOf_of_le (h : dir.length ≤ 255) :
    ¬ 255 < lenOf dir ∧ ¬ lenOf dir < 0 ∧ (lenOf dir).toInt.toNat = dir.length := by
  have hint : (lenOf dir).toInt = dir.length := Int32.toInt_ofNat_of_lt (by omega)
  refine ⟨fun hlt => ?_, fun hlt => ?_, ?_⟩
  · have : 255 < (lenOf dir).toInt := Int32.lt_iff_toInt_lt.mp hlt
    omega
  · have : (lenOf dir).toInt < 0 := Int32.lt_iff_toInt_lt.mp hlt
    omega
  · rw [hint, Int.toNat_natCast]

theorem CUtils.getCurPath_dir (h : DirOf argv0 dir) : getCurPath argv0 zeroed 256 =
    if 255 < lenOf dir then some (-1, zeroed)
    else if lenOf dir < 0 then none else some (0, strncpy zeroed argv0 (lenOf dir).toInt.toNat) := by
  rw [getCurPath, lastSlash_dir h]
  rfl

theorem Pulld.getCurPath_dir (h : DirOf argv0 dir) : getCurPath argv0 zeroed 256 =
    if 255 < lenOf dir then askStart (.printf (lit "path too long\n")) >>= fun _ => exitWith 0
    else if lenOf dir < 0 then undefined else .ret (strncpy zeroed argv0 (lenOf dir).toInt.toNat) := by
  rw [getCurPath, lastSlash_dir h]
  by_cases hlong : 255 < lenOf dir
  · rw [if_pos hlong]
    exact if_pos hlong
  · rw [if_neg hlong]
    refine (if_neg hlong).trans ?_
    rw [← lenOf, rcStrncpy_zeroed hlong]
    split_ifs <;> rfl

theorem CUtils.getCurPath_short (h : DirOf argv0 dir) (hlen : dir.length ≤ 255) :
    getCurPath argv0 zeroed 256 = some (0, strncpy zeroed argv0 dir.length) := by
  obtain ⟨hshort, hnonneg, htoNat⟩ := lenOf_of_le hlen
  rw [getCurPath_dir h, if_neg hshort, if_neg hnonneg, htoNat]

theorem Pulld.getCurPath_short (h : DirOf argv0 dir) (hlen : dir.length ≤ 255) :
    getCurPath argv0 zeroed 256 = .ret (strncpy zeroed argv0 dir.length) := by
  obtain ⟨hshort, hnonneg, htoNat⟩ := lenOf_of_le hlen
  rw [getCurPath_dir h, if_neg hshort, if_neg hnonneg, htoNat]

end

/-! ### The paths -/

/-- The directory is the part of `argv[0]` before its last slash, and the paths are made of it in full. -/
def Paths.Exact (p : Paths) (argv0 : Str) : Prop :=
  DirOf argv0 p.sbinPath ∧ p.confPath = p.sbinPath ++ lit "/../conf/1.conf" ∧
    p.pidPath = p.sbinPath ++ lit "/../log/pid"

/-- `pull` has exact paths, or it exits by itself, whatever files and whatever clients there are. -/
def Pull.Installed (argv0 : Str) : Prop :=
  (∃ p, Pull.paths argv0 = .ret p ∧ p.Exact argv0) ∨ ∀ client files, (main client argv0 files).Exits StartCall.Early

/-- `pulld` has exact paths, or it exits by itself, whatever files and whatever clients there are. -/
def Pulld.Installed (argv0 : Str) (resolved : Option Str) : Prop :=
  (∃ p, Pulld.paths argv0 resolved = .ret p ∧ p.Exact argv0) ∨
    ∀ client files rounds, (main client argv0 resolved files rounds).Exits StartCall.Early

/-- Both versions of `get_cur_path` put the same into the buffer, and that of `pull` returns that it has. -/
def SameCurPath (argv0 : Str) : Prop :=
  ∃ buf, CUtils.getCurPath argv0 zeroed 256 = some (0, buf) ∧ Pulld.getCurPath argv0 zeroed 256 = .ret buf

/-- A file with which both programs start. -/
def wholeConf : Str :=
  lit "[system]\nworker=4\nlisten=8080\nnet_type=eth0\n[mongodb]\naddress=mongodb://10.0.0.1\n[child]\nbin_dir=/\n"

section

variable {client : Str → Bool} {argv0 dir buf logP : Str} {paths : Paths} {rounds : Nat} {resolved : Option Str}

theorem worker_wholeConf :
    ¬ (((IniReader.new.load (some wholeConf)).2.getInt (lit "system") (lit "worker")).1 = 0 ∨
      ((IniReader.new.load (some wholeConf)).2.getInt (lit "system") (lit "listen")).1 = 0) := by
  decide +kernel

theorem netType_wholeConf : ((IniReader.new.load (some wholeConf)).2.getStr (lit "system") (lit "net_type")).1 ≠
    [] := by
  decide +kernel

theorem length_of_exact (h : (Paths.of buf logP).Exact argv0) : (cStr buf).length ≤ 240 := by
  have hconf : (snprintf maxPathLength (cStr buf ++ lit "/" ++ lit "../conf/1.conf")).length =
      (cStr buf ++ lit "/../conf/1.conf").length := congrArg List.length h.2.1
  have hle : (snprintf maxPathLength (cStr buf ++ lit "/" ++ lit "../conf/1.conf")).length ≤ 255 :=
    List.length_take_le _ _
  rw [hconf, List.length_append, show (lit "/../conf/1.conf").length = 15 by decide] at hle
  omega

theorem exact_of_le (h : DirOf argv0 dir) (hbuf : cStr buf = dir) (hlen : dir.length ≤ 240) :
    (Paths.of buf logP).Exact argv0 := by
  have htake {suffix : Str} (hs : suffix.length ≤ 15) : snprintf maxPathLength (dir ++ suffix) = dir ++ suffix := by
    apply List.take_of_length_le
    rw [List.length_append]
    exact Nat.add_le_add hlen hs
  rw [Paths.of, hbuf, List.append_assoc, List.append_assoc, List.append_assoc]
  exact ⟨h, htake (by decide), htake (by decide)⟩

theorem Pull.installed_iff : Installed argv0 ↔ ∃ dir, DirOf argv0 dir ∧ dir.length ≤ 240 := by
  constructor
  · rintro (⟨p, hp, hexact⟩ | h)
    · rw [Pull.paths] at hp
      split at hp
      · cases hp
      · cases hp
        exact ⟨_, hexact.1, length_of_exact hexact⟩
    · have hmain := h (fun _ => true) fun _ => some wholeConf
      rw [main, Pull.paths] at hmain
      split at hmain
      · exact hmain.1.elim
      · rw [Prog.pure_def, Prog.ret_bind, exits_startUp_iff] at hmain
        rcases hmain.2 with hworker | hlisten | hclient
        · exact absurd (.inl hworker) worker_wholeConf
        · exact absurd (.inr hlisten) worker_wholeConf
        · cases hclient
  · rintro ⟨dir, hdir, hlen⟩
    have hlen' : dir.length ≤ 255 := Nat.le_trans hlen (by decide)
    refine .inl ⟨.of (strncpy zeroed argv0 dir.length) (lit "../conf"), ?_, ?_⟩
    · rw [Pull.paths, CUtils.getCurPath_short hdir hlen']
      rfl
    · exact exact_of_le hdir (cStr_strncpy hdir hlen') hlen

theorem Pulld.exits_main_iff {files : Str → Option Str} (h : Pulld.paths argv0 resolved = .ret paths) :
    (main client argv0 resolved files rounds).Exits StartCall.Early ↔
      (startUp client paths (files paths.confPath) rounds).Exits StartCall.Early := by
  rw [main, h]
  exact ⟨fun h => h.2 (), fun h => ⟨trivial, fun _ => h⟩⟩

theorem Pulld.not_installed {k : Empty → StartAct Paths} (h : Pulld.paths argv0 resolved = .call .undefined k) :
    ¬ Installed argv0 resolved := by
  rintro (⟨p, hp, -⟩ | hexits)
  · exact absurd (h.symm.trans hp) nofun
  · have hmain := (hexits (fun _ => true) (fun _ => none) 0).2 ()
    simp only [h] at hmain
    exact hmain.1

theorem any_long_iff : (resolved.any fun p => decide (256 ≤ p.length)) = false ↔ ∀ p ∈ resolved, p.length < 256 := by
  cases resolved <;> simp

theorem Pulld.paths_fits (hfits : ∀ p ∈ resolved, p.length < 256) : Pulld.paths argv0 resolved =
    Pulld.getCurPath argv0 zeroed 256 >>= fun sbinPath => .ret (Paths.of sbinPath (lit "../log/")) := by
  rw [Pulld.paths, any_long_iff.mpr hfits]
  rfl

theorem Pulld.fits_of_installed (h : Installed argv0 resolved) : ∀ p ∈ resolved, p.length < 256 := by
  by_contra hfits
  have hpaths : Pulld.paths argv0 resolved = undefined := by
    rw [Pulld.paths, eq_true_of_ne_false fun hany => hfits (any_long_iff.mp hany)]
    rfl
  exact not_installed hpaths h

theorem Pulld.exists_dir_of_installed (h : Installed argv0 resolved) : ∃ dir, DirOf argv0 dir := by
  cases hlast : lastSlash argv0 0 none with
  | none =>
    have hpaths := @paths_fits argv0 _ (fits_of_installed h)
    have hcur : Pulld.getCurPath argv0 zeroed 256 = undefined := by rw [getCurPath, hlast]
    rw [hcur] at hpaths
    exact absurd h (not_installed hpaths)
  | some q =>
    obtain ⟨dir, hdir, -⟩ := dirOf_of_lastSlash hlast
    exact ⟨dir, hdir⟩

theorem Pulld.installed_iff_of_dir (hdir : DirOf argv0 dir) (hfits : ∀ p ∈ resolved, p.length < 256) :
    Installed argv0 resolved ↔ dir.length ≤ 240 ∨ 255 < lenOf dir := by
  have hpaths := @paths_fits argv0 _ hfits
  rw [getCurPath_dir hdir] at hpaths
  by_cases hlong : 255 < lenOf dir
  · rw [if_pos hlong] at hpaths
    refine iff_of_true (.inr fun client files rounds => ⟨trivial, fun _ => ?_⟩) (.inr hlong)
    simp only [hpaths]
    exact ⟨trivial, fun _ => ⟨trivial, nofun⟩⟩
  · rw [or_iff_left hlong]
    by_cases hneg : lenOf dir < 0
    · rw [if_neg hlong, if_pos hneg] at hpaths
      refine iff_of_false (not_installed hpaths) fun hlen => ?_
      exact (lenOf_of_le (Nat.le_trans hlen (by decide))).2.1 hneg
    · rw [if_neg hlong, if_neg hneg] at hpaths
      constructor
      · rintro (⟨p, hp, hexact⟩ | hexits)
        · obtain rfl : Paths.of _ _ = p := Prog.ret.inj (hpaths.symm.trans hp)
          exact Nat.le_trans (Nat.le_of_eq (length_dir hdir hexact.1)) (length_of_exact hexact)
        · have hmain := hexits (fun _ => true) (fun _ => some wholeConf) 0
          rw [exits_main_iff hpaths, exits_startUp_iff] at hmain
          exact absurd hmain.2 netType_wholeConf
      · intro hlen
        have hlen' : dir.length ≤ 255 := Nat.le_trans hlen (by decide)
        rw [(lenOf_of_le hlen').2.2] at hpaths
        exact .inl ⟨_, hpaths, exact_of_le hdir (cStr_strncpy hdir hlen') hlen⟩

theorem Pulld.installed_iff : Installed argv0 resolved ↔ (∀ p ∈ resolved, p.length < 256) ∧
    ∃ dir, DirOf argv0 dir ∧ (dir.length ≤ 240 ∨ 255 < lenOf dir) := by
  constructor
  · intro h
    have hfits := fits_of_installed h
    obtain ⟨dir, hdir⟩ := exists_dir_of_installed h
    exact ⟨hfits, dir, hdir, (installed_iff_of_dir hdir hfits).mp h⟩
  · rintro ⟨hfits, dir, hdir, hlen⟩
    exact (installed_iff_of_dir hdir hfits).mpr hlen

theorem same_cur_path_iff :
    SameCurPath argv0 ↔ ∃ dir, DirOf argv0 dir ∧ ¬ 255 < lenOf dir ∧ ¬ lenOf dir < 0 := by
  constructor
  · rintro ⟨buf, hpull, -⟩
    cases hlast : lastSlash argv0 0 none with
    | none =>
      rw [CUtils.getCurPath, hlast] at hpull
      cases hpull
    | some q =>
      obtain ⟨dir, hdir, -⟩ := dirOf_of_lastSlash hlast
      rw [CUtils.getCurPath_dir hdir] at hpull
      split_ifs at hpull with hlong hneg
      · simp at hpull
      · exact ⟨dir, hdir, hlong, hneg⟩
  · rintro ⟨dir, hdir, hlong, hneg⟩
    refine ⟨strncpy zeroed argv0 (lenOf dir).toInt.toNat, ?_, ?_⟩
    · rw [CUtils.getCurPath_dir hdir, if_neg hlong, if_neg hneg]
    · rw [Pulld.getCurPath_dir hdir, if_neg hlong, if_neg hneg]

/-- Both programs have exact paths or exit by themselves, and their versions of `get_cur_path` do the same. -/
structure PathsExact (argv0 : Str) (resolved : Option Str) : Prop where
  pull : Pull.Installed argv0
  pulld : Pulld.Installed argv0 resolved
  same : SameCurPath argv0

/-- **The paths are exact exactly if** `argv[0]` has a slash, there are no more than 240 bytes before the last one, and
what it resolves to fits into the buffer of `pulld` for it. -/
theorem paths_exact_iff : PathsExact argv0 resolved ↔
    (∃ dir, DirOf argv0 dir ∧ dir.length ≤ 240) ∧ ∀ p ∈ resolved, p.length < 256 := by
  constructor
  · intro h
    exact ⟨Pull.installed_iff.mp h.pull, Pulld.fits_of_installed h.pulld⟩
  · rintro ⟨⟨dir, hdir, hlen⟩, hfits⟩
    obtain ⟨hshort, hnonneg, -⟩ := lenOf_of_le (Nat.le_trans hlen (by decide : 240 ≤ 255))
    exact ⟨Pull.installed_iff.mpr ⟨dir, hdir, hlen⟩, Pulld.installed_iff.mpr ⟨hfits, dir, hdir, .inl hlen⟩,
      same_cur_path_iff.mpr ⟨dir, hdir, hshort, hnonneg⟩⟩

end

/-- A program that is found by a search for its name has no slash in `argv[0]`. -/
theorem no_slash_no_path : ¬ PathsExact (lit "pull") (some (lit "/opt/pull/sbin/pull")) := by
  intro h
  obtain ⟨dir, ⟨name, hstr, -⟩, -⟩ := Pull.installed_iff.mp h.pull
  have hmem : slash ∈ cStr (lit "pull") := hstr ▸ List.mem_append_right _ List.mem_cons_self
  exact absurd hmem (by decide)

end PullStream
