import PullStream.Base.Words
import PullStream.Control.Web
import PullStream.Service.Command
/-!
# The URLs in the command line

The URLs of a request become part of a text that `/bin/sh` takes apart again. They reach `ffmpeg` as they are
exactly when they have no blank, no character that the shell treats as special and no NUL, and the text is not
cut off; at a respawn they also have to come back from the store as they are (`urls_are_arguments_iff`). The
handler of `start` asks only that they are not empty.

The shell is a parameter `sh`, which gives the argument vectors of the commands that a text makes it execute,
and `Shell sh` is what is assumed of it.
-/

namespace PullStream

open ServerBiz ProcessCtl RestApi Words

/-! ### The shell -/

def isBlank (c : UInt8) : Bool := (lit " \t").contains c

def isSpecial (c : UInt8) : Bool := (lit ";&|<>$`()\\'\"\n").contains c

/-- What is assumed of the shell. -/
structure Shell (sh : Str → List (List Str)) : Prop where
  /-- A text without special characters is one command, split on blanks. -/
  plain : ∀ text, (∀ c ∈ text, isSpecial c = false) → words isBlank text ≠ [] →
    sh text = [words isBlank text]
  /-- Special characters are not just passed on: if a text that has some is one command, there are fewer of
  one kind in its arguments. -/
  special : ∀ text argv, (∃ c ∈ text, isSpecial c = true) → sh text = [argv] →
    ∃ c, isSpecial c = true ∧ argv.flatten.count c < text.count c

/-! ### The command line -/

/-- The command before it is cut off. -/
def fullCommand (param : ProcessInfo) : Str :=
  lit "ffmpeg -v quiet -i " ++ cStr param.srcUrl ++ lit " -c copy -f flv " ++ cStr param.destUrl

/-- The argument vector meant. -/
def ffmpegArgs (param : ProcessInfo) : List Str :=
  [lit "ffmpeg", lit "-v", lit "quiet", lit "-i"] ++ param.srcUrl :: [lit "-c", lit "copy", lit "-f", lit "flv"] ++
    [param.destUrl]

/-- The URLs have neither blanks nor special characters nor NULs, and the buffer holds the command. -/
def ProcessInfo.Fits (param : ProcessInfo) : Prop :=
  (∀ c ∈ param.srcUrl ++ param.destUrl, c ≠ 0 ∧ isBlank c = false ∧ isSpecial c = false) ∧
    param.srcUrl.length + param.destUrl.length ≤ 2011

section

variable {param : ProcessInfo} {sh : Str → List (List Str)} {c : UInt8}

theorem command_eq (param : ProcessInfo) : command param = (fullCommand param).take 2046 := rfl

theorem cStr_eq_self {s : Str} (h : ∀ c ∈ s, c ≠ 0) : cStr s = s :=
  List.takeWhile_eq_self_iff.mpr fun c hc => decide_eq_true (h c hc)

theorem ne_zero_of_mem_cStr {s : Str} (h : c ∈ cStr s) : c ≠ 0 := by
  have hc := List.mem_takeWhile_imp h
  exact of_decide_eq_true hc

theorem fixed_texts (h : c ∈ lit "ffmpeg -v quiet -i " ++ lit " -c copy -f flv ") : c ≠ 0 ∧ isSpecial c = false := by
  have hall : (lit "ffmpeg -v quiet -i " ++ lit " -c copy -f flv ").all (fun c => c != 0 && !isSpecial c) = true := rfl
  simpa using List.all_eq_true.mp hall c h

theorem mem_fullCommand (h : c ∈ fullCommand param) :
    c ∈ lit "ffmpeg -v quiet -i " ++ lit " -c copy -f flv " ∨ c ∈ cStr param.srcUrl ∨ c ∈ cStr param.destUrl := by
  rw [fullCommand, List.mem_append] at h
  rw [List.mem_append]
  obtain h | h := h
  · rw [List.mem_append, List.mem_append] at h
    obtain (h | h) | h := h
    · exact .inl (.inl h)
    · exact .inr (.inl h)
    · exact .inl (.inr h)
  · exact .inr (.inr h)

theorem ne_zero_of_mem_fullCommand (h : c ∈ fullCommand param) : c ≠ 0 := by
  obtain h | h | h := mem_fullCommand h
  · exact (fixed_texts h).1
  · exact ne_zero_of_mem_cStr h
  · exact ne_zero_of_mem_cStr h

theorem fullCommand_eq (hsrc : cStr param.srcUrl = param.srcUrl) (hdest : cStr param.destUrl = param.destUrl) :
    fullCommand param = List.intercalate [32] (ffmpegArgs param) := by
  have hleft : lit "ffmpeg -v quiet -i " =
      lit "ffmpeg" ++ 32 :: (lit "-v" ++ 32 :: (lit "quiet" ++ 32 :: (lit "-i" ++ [32]))) := rfl
  have hright : lit " -c copy -f flv " =
      32 :: (lit "-c" ++ 32 :: (lit "copy" ++ 32 :: (lit "-f" ++ 32 :: (lit "flv" ++ [32])))) := rfl
  rw [fullCommand, hsrc, hdest, hleft, hright]
  simp [ffmpegArgs, List.intercalate_cons_cons]

theorem count_special_le (hc : isSpecial c = true) :
    (fullCommand param).count c ≤ (ffmpegArgs param).flatten.count c := by
  have hfixed : c ∉ lit "ffmpeg -v quiet -i " ++ lit " -c copy -f flv " := by
    intro hmem
    rw [(fixed_texts hmem).2] at hc
    cases hc
  rw [List.mem_append, not_or] at hfixed
  have hsrc : (cStr param.srcUrl).count c ≤ param.srcUrl.count c :=
    (List.takeWhile_sublist _).count_le c
  have hdest : (cStr param.destUrl).count c ≤ param.destUrl.count c :=
    (List.takeWhile_sublist _).count_le c
  simp only [fullCommand, ffmpegArgs, List.flatten_append, List.flatten_cons, List.flatten_nil, List.count_append,
    List.count_eq_zero_of_not_mem hfixed.1, List.count_eq_zero_of_not_mem hfixed.2]
  omega

theorem words_fullCommand (hsrc : param.srcUrl ≠ []) (hdest : param.destUrl ≠ [])
    (h : ∀ c ∈ param.srcUrl ++ param.destUrl, c ≠ 0 ∧ isBlank c = false) :
    words isBlank (fullCommand param) = ffmpegArgs param := by
  have hleft : ∀ c ∈ param.srcUrl, c ≠ 0 ∧ isBlank c = false := fun c hc => h c (List.mem_append_left _ hc)
  have hright : ∀ c ∈ param.destUrl, c ≠ 0 ∧ isBlank c = false := fun c hc => h c (List.mem_append_right _ hc)
  rw [fullCommand_eq (cStr_eq_self fun c hc => (hleft c hc).1) (cStr_eq_self fun c hc => (hright c hc).1)]
  apply words_intercalate (by decide)
  have hall : ([lit "ffmpeg", lit "-v", lit "quiet", lit "-i"] ++ [lit "-c", lit "copy", lit "-f", lit "flv"]).all
      (fun w => !w.isEmpty && w.all fun c => !isBlank c) = true := rfl
  have hfixed : ∀ w ∈ [lit "ffmpeg", lit "-v", lit "quiet", lit "-i"] ++ [lit "-c", lit "copy", lit "-f", lit "flv"],
      w ≠ [] ∧ ∀ c ∈ w, isBlank c = false := by
    intro w hw
    simpa using List.all_eq_true.mp hall w hw
  intro w hw
  rcases List.mem_append.mp hw with hw | hw
  · rcases List.mem_append.mp hw with hw | hw
    · exact hfixed w (List.mem_append_left _ hw)
    · rcases List.mem_cons.mp hw with rfl | hw
      · exact ⟨hsrc, fun c hc => (hleft c hc).2⟩
      · exact hfixed w (List.mem_append_right _ hw)
  · rw [List.mem_singleton.mp hw]
    exact ⟨hdest, fun c hc => (hright c hc).2⟩

theorem length_fullCommand (hsrc : cStr param.srcUrl = param.srcUrl) (hdest : cStr param.destUrl = param.destUrl) :
    (fullCommand param).length = param.srcUrl.length + param.destUrl.length + 35 := by
  have hleft : (lit "ffmpeg -v quiet -i ").length = 19 := rfl
  have hright : (lit " -c copy -f flv ").length = 16 := rfl
  simp only [fullCommand, List.length_append, hsrc, hdest, hleft, hright]
  omega

theorem length_le_of_words (hdest : param.destUrl ≠ [])
    (hlit : ∀ c ∈ param.destUrl, c ≠ 0 ∧ isBlank c = false)
    (h : words isBlank (command param) = words isBlank (fullCommand param)) :
    (fullCommand param).length ≤ 2046 := by
  by_contra hlong
  obtain ⟨c, hc⟩ := List.getLast?_isSome.mpr hdest |> Option.isSome_iff_exists.mp
  have hmem : c ∈ param.destUrl := List.mem_of_getLast? hc
  have hlast : ∃ init, fullCommand param = init ++ [c] := by
    refine ⟨lit "ffmpeg -v quiet -i " ++ cStr param.srcUrl ++ lit " -c copy -f flv " ++ param.destUrl.dropLast, ?_⟩
    rw [fullCommand, cStr_eq_self fun c hc => (hlit c hc).1, List.append_assoc _ param.destUrl.dropLast,
      List.dropLast_append_getLast? c hc]
  obtain ⟨init, hinit⟩ := hlast
  have hlen : 2046 ≤ init.length := by
    rw [hinit, List.length_append, List.length_singleton] at hlong
    omega
  have hflat := congrArg List.flatten h
  rw [flatten_words, flatten_words, command_eq, hinit, List.take_append_of_le_length hlen] at hflat
  have hle : ((init.take 2046).filter fun c => !isBlank c).length ≤ (init.filter fun c => !isBlank c).length :=
    ((List.take_sublist 2046 init).filter _).length_le
  rw [hflat, List.filter_append, List.length_append, List.filter_cons_of_pos (by simp [(hlit c hmem).2])] at hle
  rw [List.filter_nil, List.length_singleton] at hle
  omega

theorem words_command_ne_nil (param : ProcessInfo) : words isBlank (command param) ≠ [] := by
  obtain ⟨rest, hrest⟩ : ∃ rest, command param = 102 :: rest := ⟨_, rfl⟩
  intro hnil
  have hflat := congrArg List.flatten hnil
  rw [flatten_words, hrest, List.filter_cons_of_pos (by decide)] at hflat
  cases hflat

/-- **The shell hands on both URLs exactly if they fit.** -/
theorem args_iff (hsh : Shell sh) (hsrc : param.srcUrl ≠ []) (hdest : param.destUrl ≠ []) :
    sh (command param) = [ffmpegArgs param] ↔ param.Fits := by
  have hcut : ∀ c ∈ command param, c ∈ fullCommand param := fun c hc => List.mem_of_mem_take hc
  constructor
  · intro h
    have hplain : ∀ c ∈ command param, isSpecial c = false := by
      by_contra hsome
      obtain ⟨c, hc⟩ := not_forall.mp hsome
      obtain ⟨hmem, hspecial⟩ := Classical.not_imp.mp hc
      obtain ⟨b, hb, hlt⟩ := hsh.special _ _ ⟨c, hmem, by simpa using hspecial⟩ h
      have hle : (command param).count b ≤ (fullCommand param).count b := (List.take_sublist _ _).count_le b
      have hargs : (fullCommand param).count b ≤ (ffmpegArgs param).flatten.count b := count_special_le hb
      omega
    have hwords : words isBlank (command param) = ffmpegArgs param := by
      have hone := hsh.plain _ hplain (words_command_ne_nil param)
      exact (List.cons.inj (hone.symm.trans h)).1
    have hmem : ∀ c ∈ param.srcUrl ++ param.destUrl, ∃ w ∈ ffmpegArgs param, c ∈ w := by
      intro c hc
      rcases List.mem_append.mp hc with hc | hc
      · exact ⟨_, by simp [ffmpegArgs], hc⟩
      · exact ⟨_, by simp [ffmpegArgs], hc⟩
    have hurl : ∀ c ∈ param.srcUrl ++ param.destUrl, c ≠ 0 ∧ isBlank c = false ∧ isSpecial c = false := by
      intro c hc
      obtain ⟨w, hw, hcw⟩ := hmem c hc
      obtain ⟨hcmd, hblank⟩ := of_mem_words (hwords ▸ hw) hcw
      exact ⟨ne_zero_of_mem_fullCommand (hcut c hcmd), hblank, hplain c hcmd⟩
    have hwhole := words_fullCommand hsrc hdest fun c hc => ⟨(hurl c hc).1, (hurl c hc).2.1⟩
    have hlen := length_le_of_words hdest
      (fun c hc => ⟨(hurl c (List.mem_append_right _ hc)).1, (hurl c (List.mem_append_right _ hc)).2.1⟩)
      (hwords.trans hwhole.symm)
    rw [length_fullCommand (cStr_eq_self fun c hc => (hurl c (List.mem_append_left _ hc)).1)
      (cStr_eq_self fun c hc => (hurl c (List.mem_append_right _ hc)).1)] at hlen
    exact ⟨hurl, by omega⟩
  · rintro ⟨hurl, hlen⟩
    have hsrc0 : cStr param.srcUrl = param.srcUrl :=
      cStr_eq_self fun c hc => (hurl c (List.mem_append_left _ hc)).1
    have hdest0 : cStr param.destUrl = param.destUrl :=
      cStr_eq_self fun c hc => (hurl c (List.mem_append_right _ hc)).1
    have hwhole : command param = fullCommand param := by
      rw [command_eq, List.take_of_length_le]
      rw [length_fullCommand hsrc0 hdest0]
      omega
    have hplain : ∀ c ∈ fullCommand param, isSpecial c = false := by
      intro c hc
      obtain h | h | h := mem_fullCommand hc
      · exact (fixed_texts h).2
      · exact (hurl c (List.mem_append_left _ (hsrc0 ▸ h))).2.2
      · exact (hurl c (List.mem_append_right _ (hdest0 ▸ h))).2.2
    have hwords := words_fullCommand hsrc hdest fun c hc => ⟨(hurl c hc).1, (hurl c hc).2.1⟩
    rw [hwhole, hsh.plain _ hplain (hwhole ▸ words_command_ne_nil param), hwords]

end

/-! ### A shell that obeys -/

/-- A shell that executes nothing when it sees a special character. -/
def plainShell (text : Str) : List (List Str) :=
  if text.any isSpecial || (words isBlank text).isEmpty then [] else [words isBlank text]

theorem shell_plainShell : Shell plainShell where
  plain text hplain hne := by
    have hany : text.any isSpecial = false := by simpa using hplain
    simp [plainShell, hany, hne]
  special text argv hspecial h := by
    have hany : text.any isSpecial = true := by simpa using hspecial
    simp [plainShell, hany] at h

theorem words_of_plainShell {text : Str} {argv : List Str} (h : plainShell text = [argv]) :
    words isBlank text = argv := by
  unfold plainShell at h
  split_ifs at h
  exact (List.cons.inj h).1

section

variable {p q : ProcessInfo}

theorem filter_fullCommand (p : ProcessInfo) : (fullCommand p).filter (fun c => !isBlank c) =
    lit "ffmpeg-vquiet-i" ++ ((cStr p.srcUrl).filter (fun c => !isBlank c) ++
      (lit "-ccopy-fflv" ++ (cStr p.destUrl).filter fun c => !isBlank c)) := by
  have hleft : (lit "ffmpeg -v quiet -i ").filter (fun c => !isBlank c) = lit "ffmpeg-vquiet-i" := rfl
  have hright : (lit " -c copy -f flv ").filter (fun c => !isBlank c) = lit "-ccopy-fflv" := rfl
  simp only [fullCommand, List.filter_append, hleft, hright, List.append_assoc]

theorem urls_eq_of_words (hsrc : p.srcUrl.length ≤ q.srcUrl.length) (hdest : p.destUrl.length ≤ q.destUrl.length)
    (h : words isBlank (command p) = ffmpegArgs q) : p.srcUrl = q.srcUrl ∧ p.destUrl = q.destUrl := by
  have hpart (s : Str) : ((cStr s).filter fun c => !isBlank c).Sublist s :=
    List.filter_sublist.trans (List.takeWhile_sublist _)
  have hcut : ((command p).filter fun c => !isBlank c).Sublist ((fullCommand p).filter fun c => !isBlank c) :=
    (List.take_sublist 2046 _).filter _
  have hargs : (ffmpegArgs q).flatten =
      lit "ffmpeg-vquiet-i" ++ (q.srcUrl ++ (lit "-ccopy-fflv" ++ q.destUrl)) := by
    have hleft : [lit "ffmpeg", lit "-v", lit "quiet", lit "-i"].flatten = lit "ffmpeg-vquiet-i" := rfl
    have hright : [lit "-c", lit "copy", lit "-f", lit "flv"].flatten = lit "-ccopy-fflv" := rfl
    simp only [ffmpegArgs, List.flatten_append, List.flatten_cons, List.flatten_nil, List.append_nil,
      List.append_assoc] at hleft hright ⊢
    rw [← hleft, ← hright]
    simp only [List.append_assoc]
  have hflat := congrArg List.flatten h
  rw [flatten_words, hargs] at hflat
  have hsrcLen := (hpart p.srcUrl).length_le
  have hdestLen := (hpart p.destUrl).length_le
  have hlen := hcut.length_le
  rw [hflat, filter_fullCommand] at hlen
  simp only [List.length_append] at hlen
  have hwhole : (lit "ffmpeg-vquiet-i" ++ (q.srcUrl ++ (lit "-ccopy-fflv" ++ q.destUrl))) =
      (fullCommand p).filter fun c => !isBlank c := by
    rw [← hflat]
    refine hcut.eq_of_length ?_
    rw [hflat, filter_fullCommand]
    simp only [List.length_append]
    omega
  rw [filter_fullCommand] at hwhole
  obtain ⟨hsrcEq, htail⟩ := List.append_inj (List.append_cancel_left hwhole) (by omega)
  have hdestEq := List.append_cancel_left htail
  refine ⟨?_, ?_⟩
  · rw [hsrcEq]
    exact ((hpart p.srcUrl).eq_of_length (by omega)).symm
  · rw [hdestEq]
    exact ((hpart p.destUrl).eq_of_length (by omega)).symm

end

/-! ### Requests -/

section

variable {env : Env} {rest : Rest} {root : Root} {ev : Event} {body : Option Str}

theorem urls_of_startFields (h : startFields rest root = .ok (.accept ev)) :
    ev.process.srcUrl ≠ [] ∧ ev.process.destUrl ≠ [] := by
  unfold startFields at h
  obtain ⟨srcUrl, -, h⟩ := bind_ok h
  obtain ⟨destUrl, -, h⟩ := bind_ok h
  obtain ⟨sid, -, h⟩ := bind_ok h
  obtain ⟨type, -, h⟩ := bind_ok h
  split_ifs at h with hsrc hdest
  all_goals cases h
  exact ⟨hsrc, hdest⟩

theorem map_cStr_eq {f : UInt8 → UInt8} {s : Str} (h : (cStr s).map f = s) : ∀ c ∈ s, f c = c := by
  have hwhole : cStr s = s := by
    refine (List.takeWhile_sublist _).eq_of_length ?_
    rw [← List.length_map f]
    exact congrArg List.length h
  rw [hwhole] at h
  exact List.map_eq_map_iff.mp (h.trans (List.map_id s).symm)

/-- **The URLs of an accepted start are arguments of the one command that the shell executes if and only if they
fit, and so they are at a respawn if and only if they also come back.** `f` is what comes back of a character. -/
theorem urls_are_arguments_iff {f : UInt8 → UInt8} (hshown : ∀ name s, env.shown name s = s.map f)
    (h : accepted rest (startFields rest) body = some ev) :
    (∀ sh, Shell sh → (sh (command ev.process) = [ffmpegArgs ev.process] ↔ ev.process.Fits)) ∧
      ((∀ sh, Shell sh → ∀ d : Doc, d.Of ev → sh (command (d.seen env.shown)) = [ffmpegArgs ev.process]) ↔
        ev.process.Fits ∧ ∀ c ∈ ev.process.srcUrl ++ ev.process.destUrl, f c = c) := by
  obtain ⟨root, hroot⟩ := accepted_some h
  obtain ⟨hsrc, hdest⟩ := urls_of_startFields hroot
  have hargs := fun sh (hsh : Shell sh) => args_iff hsh hsrc hdest
  have hseen (d : Doc) (hd : d.Of ev) : (d.seen env.shown).srcUrl = (cStr ev.process.srcUrl).map f ∧
      (d.seen env.shown).destUrl = (cStr ev.process.destUrl).map f := by
    rw [← hd.2.1, ← hd.2.2]
    exact ⟨hshown _ _, hshown _ _⟩
  refine ⟨hargs, fun hall => ?_, fun ⟨hfits, hkept⟩ sh hsh d hd => ?_⟩
  · have hd : (processDoc env ev.process).Of ev := ⟨rfl, rfl, rfl⟩
    have hshell := hall plainShell shell_plainShell _ hd
    have hle (s : Str) : ((cStr s).map f).length ≤ s.length := by
      rw [List.length_map]
      exact (List.takeWhile_sublist _).length_le
    obtain ⟨hsrcSeen, hdestSeen⟩ := hseen _ hd
    obtain ⟨hsrcEq, hdestEq⟩ := urls_eq_of_words (hsrcSeen ▸ hle _) (hdestSeen ▸ hle _) (words_of_plainShell hshell)
    refine ⟨(hargs plainShell shell_plainShell).mp ?_, fun c hc => ?_⟩
    · rw [← hshell, command, command, hsrcEq, hdestEq]
    · rw [hsrcSeen] at hsrcEq
      rw [hdestSeen] at hdestEq
      exact (List.mem_append.mp hc).elim (map_cStr_eq hsrcEq c) (map_cStr_eq hdestEq c)
  · have hback (s : Str) (hs : ∀ c ∈ s, c ∈ ev.process.srcUrl ++ ev.process.destUrl) : (cStr s).map f = s := by
      rw [cStr_eq_self fun c hc => (hfits.1 c (hs c hc)).1]
      exact (List.map_congr_left fun c hc => hkept c (hs c hc)).trans (List.map_id s)
    have hcommand : command (d.seen env.shown) = command ev.process := by
      obtain ⟨hsrcSeen, hdestSeen⟩ := hseen d hd
      rw [command, command, hsrcSeen, hdestSeen, hback _ fun c hc => List.mem_append_left _ hc,
        hback _ fun c hc => List.mem_append_right _ hc]
    rw [hcommand]
    exact (hargs sh hsh).mpr hfits

end

/-! ### URLs that fit, and a URL with a blank -/

/-- A reader of a start with these URLs. -/
def urlRest (src dest : Str) : Rest where
  env := sampleEnv
  parse _ := .ok <| some fun name => .ok <| match name with
    | "src" => .ofStr src
    | "dest" => .ofStr dest
    | "sid" => .ofStr (lit "1")
    | _ => .null
  host := lit "127.0.0.1"

def urlEvent (src dest : Str) : Event :=
  ⟨{ sampleInfo (lit "1") with srcUrl := src, destUrl := dest, status := lit "active", host := lit "127.0.0.1" },
    .createProcess⟩

def fittingEvent : Event := urlEvent (lit "rtmp://a/1") (lit "rtmp://b/1")

theorem urls_are_arguments_iff_fit :
    (∀ sh, Shell sh → (sh (command fittingEvent.process) = [ffmpegArgs fittingEvent.process] ↔
      fittingEvent.process.Fits)) ∧
    ((∀ sh, Shell sh → ∀ d : Doc, d.Of fittingEvent →
        sh (command (d.seen libShown)) = [ffmpegArgs fittingEvent.process]) ↔
      fittingEvent.process.Fits ∧
        ∀ c ∈ fittingEvent.process.srcUrl ++ fittingEvent.process.destUrl, jsonByte c = c) :=
  @urls_are_arguments_iff sampleEnv (urlRest (lit "rtmp://a/1") (lit "rtmp://b/1")) _ (some []) jsonByte
    (fun _ _ => rfl) rfl

theorem url_with_blank_is_split :
    ¬ ∀ (sh : Str → List (List Str)) (rest : Rest) (body : Option Str) (ev : Event), Shell sh →
      accepted rest (startFields rest) body = some ev → sh (command ev.process) = [ffmpegArgs ev.process] := by
  intro h
  have hargs := h plainShell (urlRest (lit "a b") (lit "c")) (some []) (urlEvent (lit "a b") (lit "c"))
    shell_plainShell rfl
  revert hargs
  decide

end PullStream
