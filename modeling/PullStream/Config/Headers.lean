import PullStream.Config.Lines
/-!
# Lines that are taken for headers

A line `key=value` whose value has both brackets, as in `mongodb://[::1]:27017`, is taken for a header: its key is not
set, and the lines after it go to a section that the file does not have. A line without both brackets sets its key in
the section that is being read, and what becomes of it depends on the later pieces that touch the key (`touches`):
those that set it, and headers that begin the section again, after which it is not there. So the line is heeded as it
should be exactly under the condition of `heeded_iff`.
-/

namespace PullStream

/-! ### Later pieces -/

/-- The pieces that begin the section `s` again, or set the key in it to some value, with whether they are at the
beginning of a line. The section `cur` is the one that is being read. -/
def touches (s key : Str) : Str → List (Bool × Str) → List (Bool × Option Str)
  | _, [] => []
  | cur, (b, p) :: ps =>
    match parse (szLine p) with
    | some (.header name) => (if name = s then [(b, none)] else []) ++ touches s key name ps
    | some (.pair k v) => (if cur = s ∧ k = key then [(b, some v)] else []) ++ touches s key cur ps
    | _ => touches s key cur ps

/-- What the map has for a key of a section if the file ends here. -/
def Reading.valueAt (st : Reading) (s key : Str) : Option Str := (st.finish s).bind fun km => km key

section

variable {s key value text t name k v pre rest : Str} {st : Reading} {cs : List (Bool × Str)} {ps qs : List Str}
  {e : Option Eol} {r : IniReader}

theorem finish_header : (st.take (.header name)).finish = Function.update st.finish name (some fun _ => none) := rfl

theorem finish_pair : (st.take (.pair k v)).finish =
    Function.update st.map st.szLastMainKey (some (Function.update st.mLastMap k (some v))) := rfl

theorem valueAt_header : (st.take (.header name)).valueAt s key = if name = s then none else st.valueAt s key := by
  rw [Reading.valueAt, Reading.valueAt, finish_header, Function.update_apply]
  by_cases hs : name = s
  · rw [if_pos hs, if_pos hs.symm]
    rfl
  · rw [if_neg hs, if_neg (Ne.symm hs)]

theorem valueAt_pair : (st.take (.pair k v)).valueAt s key =
    if st.szLastMainKey = s ∧ k = key then some v else st.valueAt s key := by
  rw [Reading.valueAt, Reading.valueAt, finish_pair, Reading.finish, Function.update_apply, Function.update_apply]
  by_cases hs : s = st.szLastMainKey
  · rw [if_pos hs, if_pos hs, Option.bind_some, Option.bind_some, Function.update_apply]
    simp only [hs, true_and, eq_comm]
  · have hs' : ¬ (st.szLastMainKey = s ∧ k = key) := fun h => hs h.1.symm
    rw [if_neg hs, if_neg hs, if_neg hs']

theorem last_append (x y : List (Bool × Option Str)) (o : Option Str) :
    ((x ++ y).getLast?.map Prod.snd).getD o = (y.getLast?.map Prod.snd).getD ((x.getLast?.map Prod.snd).getD o) := by
  rw [List.getLast?_append]
  cases y.getLast? <;> rfl

/-- **The last piece that touches the key decides.** -/
theorem valueAt_loop (h : (Reading.loop (cs.map Prod.snd) st).1 = true) :
    (Reading.loop (cs.map Prod.snd) st).2.valueAt s key =
      ((touches s key st.szLastMainKey cs).getLast?.map Prod.snd).getD (st.valueAt s key) := by
  induction cs generalizing st with
  | nil => rfl
  | cons c cs ih =>
    obtain ⟨b, p⟩ := c
    rw [List.map_cons, Reading.loop] at h ⊢
    rw [touches]
    cases hp : parse (szLine p) with
    | none =>
      rw [hp] at h
      cases h
    | some item =>
      rw [hp] at h
      simp only at h ⊢
      rw [ih h]
      cases item with
      | header name =>
        simp only [valueAt_header, last_append]
        split_ifs <;> rfl
      | pair k v =>
        simp only [valueAt_pair, last_append]
        split_ifs <;> rfl
      | other => rfl

theorem loop_append (h : (Reading.loop ps st).1 = true) :
    Reading.loop (ps ++ qs) st = Reading.loop qs (Reading.loop ps st).2 := by
  induction ps generalizing st with
  | nil => rfl
  | cons p ps ih =>
    rw [List.cons_append, Reading.loop, Reading.loop] at *
    cases hp : parse (szLine p) with
    | none =>
      rw [hp] at h
      cases h
    | some item =>
      rw [hp] at h
      exact ih h

/-! ### A line of a file -/

/-- The end of a line, which the last line need not have. -/
def endBytes : Option Eol → Str
  | some e => e.bytes
  | none => []

/-- The variables of the loop when `pre` has been read. -/
def readUpTo (pre : Str) : Reading := (Reading.loop (pieces pre) .start).2

theorem loop_line_end (ht : Fits t) (hne : t ≠ []) (he : e = none → rest = []) :
    Reading.loop (pieces (t ++ (endBytes e ++ rest))) st =
      match parse t with
      | none => (false, st)
      | some item => Reading.loop (pieces rest) (st.take item) := by
  cases e with
  | some e => exact loop_line ht e rest
  | none =>
    obtain rfl := he rfl
    have hpieces : pieces t = [t] := Chunks.chunks_last ht.not_end hne (Nat.le_succ_of_le ht.length)
    have hline : szLine t = t := by
      have := szLine_append ht List.not_mem_nil
      rwa [List.append_nil, List.erase_nil, List.erase_nil, List.append_nil] at this
    rw [endBytes, List.append_nil, List.append_nil, hpieces]
    exact loop_cons hline

/-- A file in which the line comes after `pre`, which is empty or ends a line, and before `rest`. -/
def fileWith (pre key value : Str) (e : Option Eol) (rest : Str) : Str :=
  pre ++ (key ++ equalsSign :: value ++ (endBytes e ++ rest))

/-- The pieces after the line that touch its key in the section that is being read at the line. -/
def laterTouches (pre key rest : Str) : List (Bool × Option Str) :=
  touches (readUpTo pre).szLastMainKey key (readUpTo pre).szLastMainKey (Chunks.tagged (· == lf) true (pieces rest))

/-- A later line of the section sets the key. -/
def SetAgain (pre key rest : Str) : Prop := ∃ v, (true, some v) ∈ laterTouches pre key rest

/-- The line sets its key in the section that is being read, the lines after it stay in that section, and unless a later
line of the section sets the key too, a lookup gives the value. -/
structure Heeded (r : IniReader) (pre key value : Str) (e : Option Eol) (rest : Str) : Prop where
  loads : (r.load (some (fileWith pre key value e rest))).1 = some .success
  taken : readUpTo (fileWith pre key value e []) =
    { readUpTo pre with mLastMap := Function.update (readUpTo pre).mLastMap key (some value) }
  lookup : ¬ SetAgain pre key rest →
    ((r.load (some (fileWith pre key value e rest))).2.getStr (readUpTo pre).szLastMainKey key).1 = value

theorem cStr_of_szLine {p : Str} (h : List.Sublist k (szLine p)) : cStr k = k := by
  apply List.takeWhile_eq_self_iff.mpr
  intro b hb
  have hmem : b ∈ p.takeWhile fun b => b ≠ 0 := List.mem_of_mem_erase (List.mem_of_mem_erase (h.subset hb))
  have hne := List.mem_takeWhile_imp hmem
  exact hne

theorem cStr_name (pre : Str) : cStr (readUpTo pre).szLastMainKey = (readUpTo pre).szLastMainKey := by
  refine loop_inv (fun st => cStr st.szLastMainKey = st.szLastMainKey) rfl fun p _ st item hst hitem => ?_
  cases item with
  | header name =>
    obtain ⟨-, rfl⟩ := eq_of_parse_header hitem
    exact cStr_of_szLine ((List.eraseIdx_sublist ..).trans (List.eraseIdx_sublist ..))
  | pair key value => exact hst
  | other => exact hst

theorem cStr_value (text s k : Str) :
    cStr ((r.load (some text)).2.value s k) = (r.load (some text)).2.value s k := by
  have hall : MainKeyMap.All (fun v => cStr v = v) (r.load (some text)).2.map := by
    have hload : (r.load (some text)).2.map = (IniReader.new.load (some text)).2.map := by
      rw [IniReader.load, IniReader.load]
      split <;> rfl
    rw [hload]
    have hnew : MainKeyMap.All (fun v => cStr v = v) IniReader.new.map := by
      intro s km h
      cases h
    refine all_load hnew fun text' _ p _ k v hpair => ?_
    obtain ⟨-, hline, -⟩ := eq_of_parse_pair hpair
    apply cStr_of_szLine (p := p)
    rw [hline]
    exact (List.sublist_cons_self ..).trans (List.sublist_append_right ..)
  exact value_of_all hall rfl s k

theorem value_load {text : Str} (h : (Reading.loop (pieces text) .start).1 = true) :
    (r.load (some text)).2.value s k = ((readUpTo text).valueAt s k).getD [] := by
  have hloop : Reading.loop (pieces text) .start = (true, readUpTo text) := Prod.ext h rfl
  rw [IniReader.load, hloop, IniReader.value, Reading.valueAt]
  simp only
  cases (readUpTo text).finish s <;> rfl

theorem readable_pre (hpre : pre = [] ∨ Chunks.ends (· == lf) pre = true)
    (hread : ∀ p ∈ pieces (fileWith pre key value e rest), ¬ Unreadable (szLine p)) :
    ∀ p ∈ pieces pre, ¬ Unreadable (szLine p) := by
  have hsplit : pieces (fileWith pre key value e rest) =
      pieces pre ++ pieces (key ++ equalsSign :: value ++ (endBytes e ++ rest)) := Chunks.chunks_append hpre
  rw [hsplit, List.forall_mem_append] at hread
  exact hread.1

section

variable (hpre : pre = [] ∨ Chunks.ends (· == lf) pre = true) (hkey : equalsSign ∉ key)
  (ht : Fits (key ++ equalsSign :: value)) (he : e = none → rest = [])

include hpre ht he

theorem loop_fileWith (hread : ∀ p ∈ pieces pre, ¬ Unreadable (szLine p)) :
    Reading.loop (pieces (fileWith pre key value e rest)) .start =
      match parse (key ++ equalsSign :: value) with
      | none => (false, readUpTo pre)
      | some item => Reading.loop (pieces rest) ((readUpTo pre).take item) := by
  have hsplit : pieces (fileWith pre key value e rest) =
      pieces pre ++ pieces (key ++ equalsSign :: value ++ (endBytes e ++ rest)) := Chunks.chunks_append hpre
  rw [hsplit, loop_append (loop_fst_iff.mpr hread), loop_line_end ht (by simp) he]
  rfl

omit he in
theorem readUpTo_fileWith (hread : ∀ p ∈ pieces pre, ¬ Unreadable (szLine p)) :
    readUpTo (fileWith pre key value e []) =
      (parse (key ++ equalsSign :: value)).elim (readUpTo pre) (readUpTo pre).take := by
  rw [readUpTo, loop_fileWith hpre ht (fun _ => rfl) hread]
  cases parse (key ++ equalsSign :: value) <;> rfl

theorem Heeded.not_bracketed (h : Heeded r pre key value e rest) : ¬ Bracketed (key ++ equalsSign :: value) := by
  intro hboth
  have hread := load_success_iff.mp h.loads
  have hloop := loop_fileWith hpre ht he (readable_pre hpre hread)
  have htaken := (readUpTo_fileWith hpre ht (readable_pre hpre hread)).symm.trans h.taken
  cases hparse : parse (key ++ equalsSign :: value) with
  | none =>
    rw [hparse] at hloop
    exact absurd ((congrArg Prod.fst hloop).symm.trans (loop_fst_iff.mpr hread)) nofun
  | some item =>
    rw [hparse] at htaken
    rw [parse_both hboth] at hparse
    split_ifs at hparse
    cases hparse
    have hlast : none = some value :=
      (congrFun (congrArg Reading.mLastMap htaken) key).trans (Function.update_self ..)
    cases hlast

include hkey

theorem getStr_fileWith (hboth : ¬ Bracketed (key ++ equalsSign :: value))
    (hread : ∀ p ∈ pieces (fileWith pre key value e rest), ¬ Unreadable (szLine p)) :
    ((r.load (some (fileWith pre key value e rest))).2.getStr (readUpTo pre).szLastMainKey key).1 =
      (((laterTouches pre key rest).getLast?.map Prod.snd).getD (some value)).getD [] := by
  have hloop := loop_fileWith hpre ht he (readable_pre hpre hread)
  rw [parse_pair hkey hboth] at hloop
  have hfst : (Reading.loop (pieces (fileWith pre key value e rest)) .start).1 = true := loop_fst_iff.mpr hread
  have hkeyStr : cStr key = key := cStr_of_sublist ht (List.sublist_append_left ..)
  rw [IniReader.getStr_fst, cStr_value, cStr_name, hkeyStr, value_load hfst]
  rw [hloop] at hfst
  have hlast := @valueAt_loop (readUpTo pre).szLastMainKey key ((readUpTo pre).take (.pair key value))
    (Chunks.tagged (· == lf) true (pieces rest)) (by rw [Chunks.snd_tagged]; exact hfst)
  rw [Chunks.snd_tagged] at hlast
  rw [readUpTo, hloop, hlast, valueAt_pair, if_pos ⟨rfl, rfl⟩]
  rfl

/-- **A line `key=value` is heeded exactly if** it has not both brackets, the file is read to its end, and either a
later line of the section sets the key, or the last of the later pieces that touch the key leaves it with the same
value, if there are any. -/
theorem heeded_iff :
    Heeded r pre key value e rest ↔ ¬ Bracketed (key ++ equalsSign :: value) ∧
      (∀ p ∈ pieces (fileWith pre key value e rest), ¬ Unreadable (szLine p)) ∧
      (SetAgain pre key rest ∨ ∀ x ∈ (laterTouches pre key rest).getLast?, x.2.getD [] = value) := by
  constructor
  · intro h
    have hread := load_success_iff.mp h.loads
    have hboth := h.not_bracketed hpre ht he
    refine ⟨hboth, hread, or_iff_not_imp_left.mpr fun hset x hx => ?_⟩
    have hvalue := h.lookup hset
    rw [getStr_fileWith hpre hkey ht he hboth hread, hx] at hvalue
    exact hvalue
  · rintro ⟨hboth, hread, htouch⟩
    refine ⟨load_success_iff.mpr hread, ?_, fun hset => ?_⟩
    · rw [readUpTo_fileWith hpre ht (readable_pre hpre hread), parse_pair hkey hboth]
      rfl
    · rw [getStr_fileWith hpre hkey ht he hboth hread]
      have hlast := htouch.resolve_left hset
      cases htouches : (laterTouches pre key rest).getLast? with
      | none => rfl
      | some x => exact hlast x htouches

end

end

theorem address_heeded : Heeded .new (lit "[mongodb]\n") (lit "address") (lit "mongodb://10.0.0.1:27017") (some .crlf)
    (lit "database=pull\n") := by
  have hend (h : some Eol.crlf = none) : lit "database=pull\n" = [] := absurd h nofun
  refine (heeded_iff (.inr ?_) ?_ (fits_of_all ?_ ?_) hend).mpr ⟨?_, ?_, .inr ?_⟩ <;> decide

/-- After an address of IPv6 the section is one by the name `address=mongodb://::1:27017`. -/
theorem address_lost : ¬ Heeded .new (lit "[mongodb]\n") (lit "address") (lit "mongodb://[::1]:27017") (some .lf)
    (lit "database=pull\n") := by
  intro h
  have htouches : laterTouches (lit "[mongodb]\n") (lit "address") (lit "database=pull\n") = [] := by decide
  have hset : ¬ SetAgain (lit "[mongodb]\n") (lit "address") (lit "database=pull\n") := by
    rintro ⟨v, hv⟩
    rw [htouches] at hv
    cases hv
  exact absurd (h.lookup hset) (by decide)

end PullStream
