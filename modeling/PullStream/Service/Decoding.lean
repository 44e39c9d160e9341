import PullStream.Base.Trace
import PullStream.Control.Points
/-!
# Records that do not decode

`parser` assigns the members of a document one by one and returns an error when the text does not parse or a
member does not convert, but none of its callers looks at what it returns. So a text that does not decode leaves
a record that has members of the text and, for the others, what was there before: junk in a fresh
`_process_info`, or the fields of the previous document of a list.

`remove_process` kills a pid of the text exactly for the texts whose members up to `pid` convert, and
`process_reload` and `process_alive_detect` fork for decoded records exactly if every text they look up decodes
(`acts_on_decoded_iff`). A list of documents is read back as it is exactly if all of its texts decode
(`lists_decoded_iff`).
-/

namespace PullStream

open ServerBiz ProcessCtl Prog

/-! ### What `parser` takes from a text -/

/-- The members that `parser` reads before `pid` convert. -/
def Root.converts (root : Root) : Bool :=
  (["src_url", "dest_url", "sid"].all fun name => (root.getString name).isOk) && (root.getInt "type").isOk &&
    ["status", "host"].all fun name => (root.getString name).isOk

/-- The text parses, and every member that `parser` reads converts. -/
def Text.decodes : Text → Bool
  | none => false
  | some root => root.converts && ["pid", "ppid"].all fun name => (root.getInt name).isOk

/-- The pid of a text, if the members that are read before it convert too. -/
def Text.decodedPid : Text → Option Int
  | none => none
  | some root => bif root.converts then (root.getInt "pid").toOption else none

/-- The member `pid` of a text, as an integer. -/
def Text.pidField (item : Text) : Option Int := item.bind fun root => (root.getInt "pid").toOption

/-- What the assignments of a list do to a record, up to the first that has no value. -/
def assignAll {ε σ : Type} : List (Except ε (σ → σ)) → σ → Except ε Unit × σ
  | [], s => (.ok (), s)
  | .error e :: _, s => (.error e, s)
  | .ok f :: l, s => assignAll l (f s)

/-- The assignments of `parser`. -/
def Root.assignments (root : Root) : List (Except Str (ProcessInfo → ProcessInfo)) :=
  [(root.getString "src_url").map fun srcUrl info => { info with srcUrl },
    (root.getString "dest_url").map fun destUrl info => { info with destUrl },
    (root.getString "sid").map fun sid info => { info with sid },
    (root.getInt "type").map fun type info => { info with type },
    (root.getString "status").map fun status info => { info with status },
    (root.getString "host").map fun host info => { info with host },
    (root.getInt "pid").map fun pid info => { info with pid },
    (root.getInt "ppid").map fun ppid info => { info with ppid }]

section

variable {ε σ α β : Type} {root : Root} {item : Text} {info : ProcessInfo}

theorem isOk_map (x : Except ε α) (f : α → β) : (x.map f).isOk = x.isOk := by
  cases x <;> rfl

theorem isOk_iff {x : Except ε α} : x.isOk = true ↔ ∃ a, x = .ok a := by
  cases x with
  | error e => exact iff_of_false nofun nofun
  | ok a => exact iff_of_true rfl ⟨a, rfl⟩

theorem assignAll_ok (l : List (Except ε (σ → σ))) (s : σ) :
    (assignAll l s).1.isOk = l.all (·.isOk) := by
  induction l generalizing s with
  | nil => rfl
  | cons x l ih =>
    cases x with
    | error e => rfl
    | ok f => exact ih (f s)

theorem run_read (x : Except Str α) (set : α → ProcessInfo → ProcessInfo)
    (rest : ExceptT Str (StateM ProcessInfo) Unit) (info : ProcessInfo)
    (l : List (Except Str (ProcessInfo → ProcessInfo))) (h : ∀ info, rest.run info = assignAll l info) :
    (do let a ← ExceptT.mk (pure x); modify (set a); rest : ExceptT Str (StateM ProcessInfo) Unit).run info =
      assignAll (x.map set :: l) info := by
  cases x with
  | error e => rfl
  | ok a => exact h (set a info)

theorem run_parserFields (root : Root) (info : ProcessInfo) :
    (parserFields root).run info = assignAll root.assignments info := by
  iterate 7 refine run_read _ _ _ _ _ fun info => ?_
  cases h : root.getInt "ppid" <;> rfl

theorem parser_some (root : Root) (info : ProcessInfo) :
    parser (some root) info =
      (if (assignAll root.assignments info).1.isOk then ErrorCode.errorOk.val
        else ErrorCode.recErrorJsonParserException.val, (assignAll root.assignments info).2) := by
  unfold parser
  dsimp only
  rw [run_parserFields]
  rcases assignAll root.assignments info with ⟨e | u, info'⟩ <;> rfl

/-- **`parser` succeeds exactly on the texts that decode.** -/
theorem parser_ok_iff : (parser item info).1 = ErrorCode.errorOk.val ↔ item.decodes = true := by
  cases item with
  | none => exact iff_of_false nofun nofun
  | some root =>
    rw [parser_some]
    dsimp only
    rw [assignAll_ok, Root.assignments, Text.decodes, Root.converts]
    simp only [List.all_cons, List.all_nil, isOk_map, Bool.and_true, Bool.and_assoc]
    split_ifs with h
    · exact iff_of_true rfl h
    · exact iff_of_false nofun h

theorem parser_decoded (h : item.decodes = true) (info info' : ProcessInfo) :
    (parser item info).2 = (parser item info').2 := by
  cases item with
  | none => cases h
  | some root =>
    simp only [Text.decodes, Root.converts, List.all_cons, List.all_nil, Bool.and_true, Bool.and_eq_true,
      isOk_iff] at h
    obtain ⟨⟨⟨⟨⟨srcUrl, hsrc⟩, ⟨destUrl, hdest⟩, sid, hsid⟩, type, htype⟩, ⟨status, hstatus⟩, host, hhost⟩,
      ⟨pid, hpid⟩, ppid, hppid⟩ := h
    rw [parser_some, parser_some]
    simp only [Root.assignments, hsrc, hdest, hsid, htype, hstatus, hhost, hpid, hppid]
    rfl

theorem parser_pid (item : Text) (info : ProcessInfo) :
    (parser item info).2.pid = item.decodedPid.getD info.pid := by
  cases item with
  | none => rfl
  | some root =>
    rw [parser_some, Text.decodedPid, Root.converts, Root.assignments]
    simp only [List.all_cons, List.all_nil]
    -- the first member that does not convert ends the assignments before `pid`
    rcases root.getString "src_url" with e | srcUrl
    · rfl
    rcases root.getString "dest_url" with e | destUrl
    · rfl
    rcases root.getString "sid" with e | sid
    · rfl
    rcases root.getInt "type" with e | type
    · rfl
    rcases root.getString "status" with e | status
    · rfl
    rcases root.getString "host" with e | host
    · rfl
    rcases root.getInt "pid" with e | pid
    · rfl
    rcases root.getInt "ppid" with e | ppid <;> rfl

end

/-! ### What the callers do with the record -/

/-- The calls that a function made, with their answers. -/
abbrev Calls := List ((c : Call) × Reply c)

/-- The texts that single lookups returned. -/
def lookups (l : Calls) : List Text :=
  l.filterMap fun
    | ⟨.findOne _, found⟩ => found
    | _ => none

/-- Only the pid in the text is killed, and it is the pid of a process. -/
def KillsDecoded (item : Text) (l : Calls) : Prop :=
  ∀ e ∈ l, ∀ p sig, e.1 = .kill p sig → 0 < p ∧ item.pidField = some p

/-- Every fork comes right after a lookup, `last` being the one before the calls, and is for the record that
`parser` has made of the text and for which it has returned `ERROR_OK`. -/
def SpawnsDecoded (env : Env) : (last : Option Text) → Calls → Prop
  | _, [] => True
  | _, ⟨.findOne _, found⟩ :: l => SpawnsDecoded env found l
  | last, ⟨.fork p, _⟩ :: l =>
    (∃ item, last = some item ∧ parser item env.newInfo = (ErrorCode.errorOk.val, p)) ∧ SpawnsDecoded env none l
  | _, ⟨_, _⟩ :: l => SpawnsDecoded env none l

/-- The text names a process: its members up to `pid` convert, and `pid` is positive. -/
def Text.namesProcess (item : Text) : Bool := item.decodedPid.any fun p => 0 < p

section

variable {env : Env} {item : Text} {info : ProcessInfo} {l : Calls} {rtn a : Int} {sid : Str}

theorem lookups_found (q : Query) (item : Text) (l : Calls) :
    lookups (⟨.findOne q, some item⟩ :: l) = item :: lookups l := rfl

theorem trace_done {b : Int} : Trace ((Ctl.done b).code env) l a ↔ l = [] ∧ a = b :=
  trace_of_ret (Ctl.code_represents env) rfl

theorem trace_step {c : Ctl} {op : Call} {k : Reply op → Ctl} (hv : c.view env = .call op k) :
    Trace (c.code env) l a ↔ ∃ x l', l = ⟨op, x⟩ :: l' ∧ Trace ((k x).code env) l' a :=
  trace_of_call (Ctl.code_represents env) hv

theorem pidField_of_decodedPid {p : Int} (h : item.decodedPid = some p) : item.pidField = some p := by
  cases item with
  | none => cases h
  | some root =>
    rw [Text.decodedPid] at h
    cases hc : root.converts with
    | false =>
      rw [hc] at h
      cases h
    | true =>
      rw [hc] at h
      exact h

theorem trace_removeProcess (h : Trace (removeProcess env info) l rtn) (hitem : item ∈ lookups l) :
    ∃ removed killed, l = [⟨.findOne (.sid (cStr info.sid)), some item⟩,
      ⟨.remove (.sid (cStr (parser item env.newInfo).2.sid)), removed⟩,
      ⟨.kill (parser item env.newInfo).2.pid sigkill, killed⟩] := by
  replace h : Trace ((Ctl.removeQuery info).code env) l rtn := h
  obtain ⟨found, l₁, rfl, h₁⟩ := (trace_step rfl).mp h
  cases found with
  | none =>
    obtain ⟨rfl, -⟩ := trace_done.mp h₁
    cases hitem
  | some item' =>
    obtain ⟨removed, l₂, rfl, h₂⟩ := (trace_step rfl).mp h₁
    obtain ⟨killed, l₃, rfl, h₃⟩ := (trace_step rfl).mp h₂
    obtain ⟨rfl, -⟩ := trace_done.mp h₃
    obtain rfl : item = item' := List.mem_singleton.mp hitem
    exact ⟨removed, killed, rfl⟩

theorem removeProcess_trace (env : Env) (info : ProcessInfo) (item : Text) :
    Trace (removeProcess env info) [⟨.findOne (.sid (cStr info.sid)), some item⟩,
      ⟨.remove (.sid (cStr (parser item env.newInfo).2.sid)), true⟩,
      ⟨.kill (parser item env.newInfo).2.pid sigkill, (0 : Int)⟩] ErrorCode.errorOk.val := by
  show Trace ((Ctl.removeQuery info).code env) _ _
  refine (trace_step rfl).mpr ⟨some item, _, rfl, ?_⟩
  refine (trace_step (c := .removeDelete _) rfl).mpr ⟨true, _, rfl, ?_⟩
  refine (trace_step rfl).mpr ⟨(0 : Int), _, rfl, ?_⟩
  exact trace_done.mpr ⟨rfl, rfl⟩

/-- **`remove_process` kills a pid of the text exactly when the text names a process**, whatever a fresh
record holds. -/
theorem kills_decoded_iff (info : ProcessInfo) (item : Text) :
    (∀ env l rtn, Trace (removeProcess env info) l rtn → item ∈ lookups l → KillsDecoded item l) ↔
      item.namesProcess = true := by
  constructor
  · intro h
    have htrace := removeProcess_trace sampleEnv info item
    have hkill := h sampleEnv _ _ htrace (List.mem_singleton.mpr rfl) _
      (List.mem_cons_of_mem _ (List.mem_cons_of_mem _ List.mem_cons_self)) _ _ rfl
    rw [parser_pid] at hkill
    cases hp : item.decodedPid with
    | none =>
      rw [hp] at hkill
      exact absurd hkill.1 (by decide)
    | some p =>
      rw [hp] at hkill
      rw [Text.namesProcess, hp]
      exact decide_eq_true hkill.1
  · intro h env l rtn htrace hitem
    obtain ⟨removed, killed, rfl⟩ := trace_removeProcess htrace hitem
    obtain ⟨p, hp, hpos⟩ := (Option.any_eq_true _ _).mp h
    intro e he q sig hkill
    simp only [List.mem_cons, List.not_mem_nil, or_false] at he
    rcases he with rfl | rfl | rfl
    · cases hkill
    · cases hkill
    · cases hkill
      rw [parser_pid, hp, Option.getD_some]
      exact ⟨of_decide_eq_true hpos, pidField_of_decodedPid hp⟩

theorem trace_updateProcessInfo {param : ProcessInfo} (h : Trace (updateProcessInfo param) l a) :
    ∃ done, l = [⟨.update (.sid (cStr param.sid)) param.pid, done⟩] := by
  obtain ⟨done, l₁, rfl, h₁⟩ := trace_call.mp h
  replace h₁ : Trace (if (show Bool from done) then Prog.ret ErrorCode.errorOk.val
    else Prog.ret ErrorCode.recErrorMongodb.val : Act Int) l₁ a := h₁
  rw [← apply_ite] at h₁
  obtain ⟨rfl, -⟩ := trace_ret.mp h₁
  exact ⟨done, rfl⟩

theorem spawnsDecoded_respawn {f : Int → Act Int}
    (hf : ∀ b l a, Trace (f b) l a → (SpawnsDecoded env none l ↔ ∀ item ∈ lookups l, item.decodes = true))
    (h : Trace (spawnProcessI env (parser item env.newInfo).2 >>= f) l a) :
    SpawnsDecoded env (some item) l ↔ item.decodes = true ∧ ∀ item ∈ lookups l, item.decodes = true := by
  have hfork : (∃ item', some item = some item' ∧
      parser item' env.newInfo = (ErrorCode.errorOk.val, (parser item env.newInfo).2)) ↔ item.decodes = true := by
    rw [← @parser_ok_iff item env.newInfo]
    constructor
    · rintro ⟨item', hitem, hparser⟩
      cases hitem
      rw [hparser]
    · intro hok
      exact ⟨item, rfl, Prod.ext hok rfl⟩
  rw [Ctl.spawnProcessI_bind] at h
  obtain ⟨pid, l₁, rfl, h₁⟩ := trace_call.mp h
  refine and_congr hfork ?_
  show SpawnsDecoded env none l₁ ↔ ∀ item ∈ lookups l₁, item.decodes = true
  split_ifs at h₁
  · exact hf _ _ _ h₁
  · obtain ⟨l₂, l₃, b, rfl, hupdate, h₃⟩ := trace_bind.mp h₁
    obtain ⟨done, rfl⟩ := trace_updateProcessInfo hupdate
    have hrest := hf _ _ _ h₃
    exact hrest
  · obtain ⟨x, l₂, rfl, h₂⟩ := trace_call.mp h₁
    have hrest := hf _ _ _ h₂
    exact hrest

/-- **`process_reload` forks for a decoded record exactly if the text it looks up decodes.** -/
theorem reload_decoded_iff (h : Trace (processReload env sid) l rtn) :
    SpawnsDecoded env none l ↔ ∀ item ∈ lookups l, item.decodes = true := by
  replace h : Trace ((Ctl.reloadQuery sid).code env) l rtn := h
  obtain ⟨found, l₁, rfl, h₁⟩ := (trace_step rfl).mp h
  cases found with
  | none =>
    obtain ⟨rfl, -⟩ := trace_done.mp h₁
    exact iff_of_true trivial nofun
  | some item =>
    have hrest : ∀ (b : Int) (l : Calls) (a : Int), Trace (Prog.ret ErrorCode.errorOk.val : Act Int) l a →
        (SpawnsDecoded env none l ↔ ∀ item ∈ lookups l, item.decodes = true) := by
      intro b l a hret
      obtain ⟨rfl, -⟩ := trace_ret.mp hret
      exact iff_of_true trivial nofun
    rw [lookups_found, List.forall_mem_cons]
    exact spawnsDecoded_respawn hrest h₁

theorem detectCode_decoded_iff {processes : List ProcessInfo} (h : Trace (Ctl.detectCode env processes) l rtn) :
    SpawnsDecoded env none l ↔ ∀ item ∈ lookups l, item.decodes = true := by
  induction processes generalizing l rtn with
  | nil =>
    obtain ⟨rfl, -⟩ := trace_ret.mp h
    exact iff_of_true trivial nofun
  | cons r rest ih =>
    replace h : Trace ((Ctl.detectProbe r rest).code env) l rtn := h
    obtain ⟨ret, l₁, rfl, h₁⟩ := (trace_step rfl).mp h
    show SpawnsDecoded env none l₁ ↔ ∀ item ∈ lookups l₁, item.decodes = true
    split_ifs at h₁
    · rw [Ctl.code_detectNext] at h₁
      exact ih h₁
    · obtain ⟨found, l₂, rfl, h₂⟩ := (trace_step rfl).mp h₁
      cases found with
      | none =>
        rw [Ctl.code_detectNext] at h₂
        have hrest := ih h₂
        exact hrest
      | some item =>
        rw [lookups_found, List.forall_mem_cons]
        exact spawnsDecoded_respawn (fun _ _ _ h => ih h) h₂

/-- **A pass forks for decoded records only, exactly if every text it looks up decodes.** -/
theorem detect_decoded_iff (h : Trace (processAliveDetect env) l rtn) :
    SpawnsDecoded env none l ↔ ∀ item ∈ lookups l, item.decodes = true := by
  replace h : Trace (Ctl.detectFind.code env) l rtn := h
  obtain ⟨vec, l₁, rfl, h₁⟩ := (trace_step rfl).mp h
  rw [Ctl.code_detectNext] at h₁
  have hloop := detectCode_decoded_iff h₁
  exact hloop

/-- **The functions act on decoded records only, exactly if the texts decode**: up to a positive `pid` for
`remove_process`, as a whole for the others. -/
theorem acts_on_decoded_iff (env : Env) (info : ProcessInfo) (item : Text) (sid : Str) :
    ((∀ env l rtn, Trace (removeProcess env info) l rtn → item ∈ lookups l → KillsDecoded item l) ↔
      item.namesProcess = true) ∧
    (∀ l rtn, Trace (processReload env sid) l rtn →
      (SpawnsDecoded env none l ↔ ∀ item ∈ lookups l, item.decodes = true)) ∧
    ∀ l rtn, Trace (processAliveDetect env) l rtn →
      (SpawnsDecoded env none l ↔ ∀ item ∈ lookups l, item.decodes = true) :=
  ⟨kills_decoded_iff info item, fun _ _ => reload_decoded_iff, fun _ _ => detect_decoded_iff⟩

end

/-! ### A document without a pid, and one with a type of another type -/

/-- The text of a document that has these members only. -/
def textOf (members : List (String × JsonValue)) : Text :=
  some fun name => .ok ((members.lookup name).getD .null)

def noPid : Text := textOf [("sid", .ofStr (lit "1"))]

def wrongType : Text := textOf [("sid", .ofStr (lit "1")), ("pid", .ofInt 10), ("type", .ofStr (lit "0"))]

/-- The calls of a reload that finds the text and forks. -/
def reloadCalls (item : Text) : Calls :=
  [⟨.findOne (.sid (lit "1")), some item⟩, ⟨.fork (parser item sampleEnv.newInfo).2, (-1 : Int)⟩]

theorem trace_reloadCalls (item : Text) :
    Trace (processReload sampleEnv (lit "1")) (reloadCalls item) ErrorCode.errorOk.val :=
  .call (.call (.ret _))

theorem acts_on_decoded_iff_reload :
    SpawnsDecoded sampleEnv none (reloadCalls ((sampleDoc [1] 10).text libShown)) ↔
      ∀ item ∈ lookups (reloadCalls ((sampleDoc [1] 10).text libShown)), item.decodes = true :=
  (acts_on_decoded_iff sampleEnv (sampleInfo [1]) none (lit "1")).2.1 _ _ (trace_reloadCalls _)

theorem acts_on_undecoded :
    (¬ ∀ env info item l rtn, Trace (removeProcess env info) l rtn → item ∈ lookups l → KillsDecoded item l) ∧
    ¬ ∀ env sid l rtn, Trace (processReload env sid) l rtn → SpawnsDecoded env none l := by
  refine ⟨fun h => ?_, fun h => ?_⟩
  · have hkills := h sampleEnv (sampleInfo (lit "1")) noPid _ _ (removeProcess_trace _ _ _)
      (List.mem_singleton.mpr rfl) _ (List.mem_cons_of_mem _ (List.mem_cons_of_mem _ List.mem_cons_self)) _ _ rfl
    exact absurd hkills.1 (by decide)
  · have hspawns := h sampleEnv (lit "1") _ _ (trace_reloadCalls wrongType)
    obtain ⟨⟨item, hitem, hparser⟩, -⟩ := hspawns
    cases hitem
    exact absurd (congrArg Prod.fst hparser) (by decide)

/-! ### Lists of documents -/

/-- The record that `parser` makes of a text, if it returns `ERROR_OK`. -/
def Text.record (env : Env) (item : Text) : Option ProcessInfo :=
  if (parser item env.newInfo).1 = ErrorCode.errorOk.val then some (parser item env.newInfo).2 else none

/-- The texts are read as the records of those that `parser` accepts, in order, and the others leave no trace. -/
def ReadsRecords (env : Env) (vec : List Text) (processes : List ProcessInfo) : Prop :=
  processes = vec.filterMap (Text.record env) ∧
    ∀ item ∈ vec, ∀ info, (parser item info).1 ≠ ErrorCode.errorOk.val → (parser item info).2 = info

section

variable {env : Env} {item : Text} {vec : List Text} {processes : List ProcessInfo} {ret : Int}

theorem record_isSome : (item.record env).isSome = item.decodes := by
  rw [Text.record, Bool.eq_iff_iff, ← @parser_ok_iff item env.newInfo]
  split_ifs with h
  · exact iff_of_true rfl h
  · exact iff_of_false nofun h

theorem length_decodeAll (vec : List Text) (item : ProcessInfo) : (decodeAll vec item).length = vec.length := by
  induction vec generalizing item with
  | nil => rfl
  | cons text vec ih => simp [decodeAll, ih]

theorem decodeAll_records (h : ∀ item ∈ vec, item.decodes = true) (info : ProcessInfo) :
    decodeAll vec info = vec.filterMap (Text.record env) := by
  induction vec generalizing info with
  | nil => rfl
  | cons text vec ih =>
    obtain ⟨htext, hvec⟩ := List.forall_mem_cons.mp h
    have hrecord : text.record env = some (parser text info).2 := by
      rw [Text.record, if_pos (parser_ok_iff.mpr htext), parser_decoded htext env.newInfo info]
    rw [decodeAll, List.filterMap_cons_some hrecord, ih hvec]

/-- **A list of documents is read as its records exactly if every text decodes.** -/
theorem lists_decoded_iff (h : Trace (findAllProcess env) [⟨.find .all, vec⟩] (ret, processes)) :
    ReadsRecords env vec processes ↔ ∀ item ∈ vec, item.decodes = true := by
  obtain ⟨x, l, hl, htrace⟩ := trace_call.mp h
  cases hl
  obtain ⟨-, hret⟩ := trace_ret.mp htrace
  obtain ⟨rfl, rfl⟩ := Prod.mk.inj hret
  constructor
  · rintro ⟨hrecords, -⟩
    have hlength := congrArg List.length hrecords
    rw [length_decodeAll, List.length_filterMap_eq_countP] at hlength
    intro item hitem
    have hcount := List.countP_eq_length.mp hlength.symm item hitem
    rwa [record_isSome] at hcount
  · intro hvec
    refine ⟨decodeAll_records hvec _, fun item hitem info herror => ?_⟩
    exact absurd (parser_ok_iff.mpr (hvec item hitem)) herror

end

/-- A text that does not parse stands between two that decode. -/
def threeTexts : List Text := [(sampleDoc [1] 10).text libShown, none, (sampleDoc [2] 20).text libShown]

theorem lists_decoded_iff_three :
    ReadsRecords sampleEnv threeTexts [sampleDoc [1] 10, sampleDoc [1] 10, sampleDoc [2] 20] ↔
      ∀ item ∈ threeTexts, item.decodes = true :=
  lists_decoded_iff (.call (.ret _))

/-- A document that does not parse after one that does. -/
theorem lists_repeat_record :
    ¬ ∀ env vec ret processes, Trace (findAllProcess env) [⟨.find .all, vec⟩] (ret, processes) →
      ReadsRecords env vec processes := by
  intro h
  have hreads := h sampleEnv [(sampleDoc [1] 10).text libShown, none] 0
    [sampleDoc [1] 10, sampleDoc [1] 10] (.call (.ret _))
  exact absurd (congrArg List.length hreads.1) (by decide)

end PullStream
