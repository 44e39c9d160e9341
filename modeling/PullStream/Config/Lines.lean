import PullStream.Base.Sections
import PullStream.Config.Lookups
/-!
# Files of short lines

A line of at most 254 bytes, without CR, LF and NUL, is read as it stands, whether it ends in LF or in CR LF
(`loop_line`). If it has 254 bytes and ends in CR LF, the LF is a piece of its own and is passed over.

Out of the lines `Load` makes blocks: the lines before the first header, which belong to the name `""`, and those after
each header. In `m_Map` the last block of a name counts, and in a block the last pair of a key (`load_printed`).
-/

namespace PullStream

open Sections

/-- How a line ends. -/
inductive Eol where
  | lf
  | crlf
  deriving DecidableEq, Repr

def Eol.bytes : Eol → Str
  | .lf => [PullStream.lf]
  | .crlf => [cr, PullStream.lf]

/-- The line is one that is read in one piece as it stands. -/
structure Fits (t : Str) : Prop where
  plain : ∀ b ∈ t, b ≠ 0 ∧ b ≠ lf ∧ b ≠ cr
  length : t.length ≤ 254

section

variable {t : Str} {st : Reading}

theorem fits_of_all (h : (t.all fun b => b ≠ 0 ∧ b ≠ lf ∧ b ≠ cr) = true) (hlen : t.length ≤ 254) : Fits t :=
  ⟨fun b hb => of_decide_eq_true (List.all_eq_true.mp h b hb), hlen⟩

theorem Fits.lf_notMem (ht : Fits t) : lf ∉ t := fun h => (ht.plain lf h).2.1 rfl

theorem Fits.cr_notMem (ht : Fits t) : cr ∉ t := fun h => (ht.plain cr h).2.2 rfl

theorem Fits.not_end (ht : Fits t) : ∀ b ∈ t, (b == lf) = false := fun b hb => beq_false_of_ne (ht.plain b hb).2.1

theorem cStr_of_sublist {k : Str} (ht : Fits t) (h : List.Sublist k t) : cStr k = k := by
  apply List.takeWhile_eq_self_iff.mpr
  intro b hb
  exact decide_eq_true (ht.plain b (h.subset hb)).1

theorem szLine_append (ht : Fits t) {e : Str} (he : 0 ∉ e) : szLine (t ++ e) = t ++ (e.erase lf).erase cr := by
  have hcStr : cStr (t ++ e) = t ++ e := by
    apply List.takeWhile_eq_self_iff.mpr
    intro b hb
    rcases List.mem_append.mp hb with hb | hb
    · exact decide_eq_true (ht.plain b hb).1
    · exact decide_eq_true (ne_of_mem_of_not_mem hb he)
  rw [szLine, hcStr, List.erase_append_right _ ht.lf_notMem, List.erase_append_right _ ht.cr_notMem]

theorem loop_cons {p : Str} {ps : List Str} (h : szLine p = t) : Reading.loop (p :: ps) st =
    match parse t with
    | none => (false, st)
    | some item => Reading.loop ps (st.take item) := by
  rw [← h]
  rfl

/-- **A short line is read as it stands.** -/
theorem loop_line (ht : Fits t) (eol : Eol) (rest : Str) : Reading.loop (pieces (t ++ (eol.bytes ++ rest))) st =
    match parse t with
    | none => (false, st)
    | some item => Reading.loop (pieces rest) (st.take item) := by
  cases eol with
  | lf =>
    have hpieces : pieces (t ++ (Eol.lf.bytes ++ rest)) = (t ++ [lf]) :: pieces rest :=
      Chunks.chunks_line ht.not_end rfl ht.length
    have hline : szLine (t ++ [lf]) = t := by
      rw [szLine_append ht (by decide), List.erase_cons_head, List.erase_nil, List.append_nil]
    rw [hpieces]
    exact loop_cons hline
  | crlf =>
    have hend : ∀ b ∈ t ++ [cr], (b == lf) = false :=
      List.forall_mem_append.mpr ⟨ht.not_end, List.forall_mem_singleton.mpr rfl⟩
    have happ : t ++ (Eol.crlf.bytes ++ rest) = (t ++ [cr]) ++ lf :: rest := by simp [Eol.bytes]
    rw [happ]
    rcases Nat.lt_or_ge t.length 254 with hlt | hge
    · have hpieces : pieces (t ++ [cr] ++ lf :: rest) = (t ++ [cr] ++ [lf]) :: pieces rest :=
        Chunks.chunks_line hend rfl (by rw [List.length_append]; exact hlt)
      have hends : (([cr] ++ [lf] : Str).erase lf).erase cr = [] := by decide
      have hline : szLine (t ++ [cr] ++ [lf]) = t := by
        rw [List.append_assoc, szLine_append ht (by decide), hends, List.append_nil]
      rw [hpieces]
      exact loop_cons hline
    · have hlen : (t ++ [cr]).length = 254 + 1 := by
        rw [List.length_append, Nat.le_antisymm ht.length hge]
        rfl
      have hpieces : pieces (t ++ [cr] ++ lf :: rest) = (t ++ [cr]) :: pieces (lf :: rest) :=
        Chunks.chunks_full hend hlen
      have hpieces' : pieces (lf :: rest) = [lf] :: pieces rest :=
        Chunks.chunks_line (t := []) nofun rfl (Nat.zero_le _)
      have hends : (([cr] : Str).erase lf).erase cr = [] := by decide
      have hline : szLine (t ++ [cr]) = t := by
        rw [szLine_append ht (by decide), hends, List.append_nil]
      rw [hpieces, hpieces', loop_cons hline]
      cases parse t with
      | none => rfl
      | some item => rfl

/-! ### Files -/

/-- A file of lines. -/
def fileText (ls : List (Str × Eol)) : Str := ls.flatMap fun l => l.1 ++ l.2.bytes

/-- What a line is taken for when it can be read. -/
def itemOf (t : Str) : Item := (parse t).getD .other

theorem loop_fileText {ls : List (Str × Eol)} (hls : ∀ l ∈ ls, Fits l.1 ∧ ¬ Unreadable l.1) :
    Reading.loop (pieces (fileText ls)) st = (true, (ls.map fun l => itemOf l.1).foldl Reading.take st) := by
  induction ls generalizing st with
  | nil => rfl
  | cons l ls ih =>
    rw [List.forall_mem_cons] at hls
    obtain ⟨⟨hfits, hread⟩, hls⟩ := hls
    obtain ⟨item, hitem⟩ := Option.ne_none_iff_exists'.mp (mt parse_eq_none_iff.mp hread)
    rw [fileText, List.flatMap_cons, List.append_assoc, loop_line hfits, List.map_cons, itemOf, hitem]
    exact ih hls

end

/-! ### Blocks -/

/-- A name and the lines that follow its header. -/
abbrev Block := Str × List Str

/-- The pair that a line is taken for, if it is. -/
def pairOf (t : Str) : Option (Str × Str) :=
  match parse t with
  | some (.pair key value) => some (key, value)
  | _ => none

/-- The values of the keys that lines set. -/
def valuesOf (ts : List Str) : KeyMap := lastOf (ts.filterMap pairOf)

/-- The variables of the loop when the blocks `bs` have been read and the block `b` is being read. -/
def Reading.ofBlocks (bs : List Block) (b : Block) : Reading :=
  ⟨fun s => (lastOf bs s).map valuesOf, b.1, valuesOf b.2⟩

def headerLine (name : Str) : Str := leftBracket :: (name ++ [rightBracket])

/-- The lines of a configuration. Those before the first header are `pre`. -/
def docLines (pre : List Str) (bs : List Block) : List Str := pre ++ bs.flatMap fun b => headerLine b.1 :: b.2

/-- A block that can be printed and read: the name has no brackets, and no line is taken for a header. -/
structure BlockOk (b : Block) : Prop where
  left : leftBracket ∉ b.1
  right : rightBracket ∉ b.1
  fits : Fits (headerLine b.1)
  lines : ∀ t ∈ b.2, Fits t ∧ ¬ Bracketed t

section

variable {t s name : Str} {pre : List Str} {bs : List Block} {b : Block} {ls : List (Str × Eol)} {r : IniReader}

theorem bracketed_headerLine : Bracketed (headerLine name) :=
  ⟨List.mem_cons_self, List.mem_cons_of_mem _ (List.mem_append_right _ (List.mem_singleton_self _))⟩

theorem idxOf_headerLine (hright : rightBracket ∉ name) : (headerLine name).idxOf rightBracket = name.length + 1 := by
  rw [headerLine, List.idxOf_cons_ne _ (by decide), List.idxOf_append_of_notMem hright, List.idxOf_cons_self]

theorem parse_headerLine (hright : rightBracket ∉ name) : parse (headerLine name) = some (.header name) := by
  rw [parse_both bracketed_headerLine, idxOf_headerLine hright, if_neg (Nat.succ_ne_zero _), headerName,
    idxOf_headerLine hright, headerLine, List.idxOf_cons_self, List.eraseIdx_cons_zero, Nat.add_sub_cancel,
    List.eraseIdx_append_of_length_le (Nat.le_refl _)]
  simp

theorem take_header : (Reading.ofBlocks bs b).take (.header s) = .ofBlocks (bs ++ [b]) (s, []) := by
  have hmap : Function.update (fun s => (lastOf bs s).map valuesOf) b.1 (some (valuesOf b.2)) =
      fun s => (lastOf (bs ++ [b]) s).map valuesOf := by
    funext s
    rw [Function.update_apply, lastOf_append, lastOf_singleton]
    by_cases hs : s = b.1
    · rw [if_pos hs, if_pos hs.symm]
      rfl
    · rw [if_neg hs, if_neg (Ne.symm hs)]
      rfl
  rw [Reading.take, Reading.ofBlocks, Reading.ofBlocks, hmap]
  rfl

theorem take_line (ht : ¬ Bracketed t) : (Reading.ofBlocks bs b).take (itemOf t) = .ofBlocks bs (b.1, b.2 ++ [t]) := by
  rw [Reading.ofBlocks, Reading.ofBlocks, valuesOf, valuesOf, List.filterMap_append, itemOf, parse_of_not_both ht]
  by_cases heq : equalsSign ∈ t
  · have hpair : [t].filterMap pairOf = [(t.take (t.idxOf equalsSign), t.drop (t.idxOf equalsSign + 1))] := by
      simp [pairOf, parse_of_not_both ht, heq]
    rw [if_pos heq, hpair, lastOf_concat]
    rfl
  · have hother : [t].filterMap pairOf = [] := by
      simp [pairOf, parse_of_not_both ht, heq]
    rw [if_neg heq, hother, List.append_nil]
    rfl

theorem take_lines {ts : List Str} (hts : ∀ t ∈ ts, ¬ Bracketed t) :
    (ts.map itemOf).foldl Reading.take (.ofBlocks bs b) = .ofBlocks bs (b.1, b.2 ++ ts) := by
  induction ts generalizing b with
  | nil => rw [List.append_nil, List.map_nil, List.foldl_nil]
  | cons t ts ih =>
    rw [List.forall_mem_cons] at hts
    rw [List.map_cons, List.foldl_cons, take_line hts.1, ih hts.2, List.append_assoc, List.singleton_append]

theorem finish_ofBlocks : (Reading.ofBlocks bs b).finish = fun s => (lastOf (bs ++ [b]) s).map valuesOf :=
  congrArg Reading.map (take_header (s := []))

/-- **In `m_Map` the last block of a name counts, and in it the last pair of a key.** -/
theorem finish_blocks {bs' : List Block} (hbs : ∀ b ∈ bs', BlockOk b) :
    (((bs'.flatMap fun b => headerLine b.1 :: b.2).map itemOf).foldl Reading.take (.ofBlocks bs b)).finish =
      fun s => (lastOf (bs ++ b :: bs') s).map valuesOf := by
  induction bs' generalizing bs b with
  | nil => exact finish_ofBlocks
  | cons b' bs' ih =>
    rw [List.forall_mem_cons] at hbs
    have hheader : itemOf (headerLine b'.1) = .header b'.1 := by
      rw [itemOf, parse_headerLine hbs.1.right]
      rfl
    rw [List.flatMap_cons, List.map_append, List.map_cons, hheader, List.foldl_append, List.foldl_cons, take_header,
      take_lines fun t ht => (hbs.1.lines t ht).2, List.nil_append, ih hbs.2, List.append_assoc, List.singleton_append]

/-- **What is loaded from a printed configuration.** -/
theorem load_printed (hpre : ∀ t ∈ pre, Fits t ∧ ¬ Bracketed t) (hbs : ∀ b ∈ bs, BlockOk b)
    (hls : ls.map Prod.fst = docLines pre bs) :
    r.load (some (fileText ls)) =
      (some .success, { r with map := fun s => (lastOf (([], pre) :: bs) s).map valuesOf }) := by
  have hreadable {t : Str} (ht : ¬ Bracketed t) : ¬ Unreadable t := fun h => ht (unreadable_iff.mp h).1
  have hlines : ∀ t ∈ docLines pre bs, Fits t ∧ ¬ Unreadable t := by
    rw [docLines, List.forall_mem_append]
    refine ⟨fun t ht => ⟨(hpre t ht).1, hreadable (hpre t ht).2⟩, fun t ht => ?_⟩
    obtain ⟨b, hb, ht⟩ := List.mem_flatMap.mp ht
    rcases List.mem_cons.mp ht with rfl | ht
    · refine ⟨(hbs b hb).fits, fun h => ?_⟩
      rw [← parse_eq_none_iff, parse_headerLine (hbs b hb).right] at h
      cases h
    · exact ⟨((hbs b hb).lines t ht).1, hreadable ((hbs b hb).lines t ht).2⟩
  rw [← hls, List.forall_mem_map] at hlines
  have hitems : ls.map (fun l => itemOf l.1) = (docLines pre bs).map itemOf := by
    rw [← hls, List.map_map]
    rfl
  have hstart : Reading.start = .ofBlocks [] ([], []) := rfl
  rw [IniReader.load, loop_fileText hlines, hitems, docLines, List.map_append, List.foldl_append, hstart,
    take_lines fun t ht => (hpre t ht).2, List.nil_append]
  simp only [finish_blocks hbs, List.nil_append]

/-- What a printed configuration has for a key of a section. -/
def docValue (pre : List Str) (bs : List Block) (s k : Str) : Str :=
  ((lastOf (([], pre) :: bs) s).bind fun ts => valuesOf ts k).getD []

theorem value_printed (hpre : ∀ t ∈ pre, Fits t ∧ ¬ Bracketed t) (hbs : ∀ b ∈ bs, BlockOk b)
    (hls : ls.map Prod.fst = docLines pre bs) (s k : Str) :
    (r.load (some (fileText ls))).2.value s k = docValue pre bs s k := by
  rw [load_printed hpre hbs hls, IniReader.value, docValue]
  simp only
  cases lastOf (([], pre) :: bs) s <;> rfl

end

end PullStream
