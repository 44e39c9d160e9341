import PullStream.Config.Lines
/-!
# Sections in several blocks

A section whose lines stand in several blocks with the same header should be the same as one whose blocks are merged
into one. But each block takes the place of the one before as a whole. So the lookups are the same exactly if the keys
that the last block does not set have no value in the earlier blocks, or the empty one (`merged_lookups_iff`).
-/

namespace PullStream

open Sections

variable {pre : List Str} {bs : List Block} {s s' k v : Str} {ts : List Str} {ls ls' : List (Str × Eol)}
  {r q : IniReader}

theorem valuesOf_append (earlier : List Str) :
    valuesOf (earlier ++ ts) k = (valuesOf ts k).or (valuesOf earlier k) := by
  rw [valuesOf, List.filterMap_append, lastOf_append]
  rfl

theorem sublist_of_valuesOf (h : valuesOf ts k = some v) : ∃ t ∈ ts, List.Sublist k t ∧ List.Sublist v t := by
  obtain ⟨t, ht, hpair⟩ := List.mem_filterMap.mp (mem_of_lastOf h)
  refine ⟨t, ht, ?_⟩
  rw [pairOf] at hpair
  split at hpair
  · rename_i hparse
    cases hpair
    rw [(eq_of_parse_pair hparse).2.1]
    exact ⟨List.sublist_append_left .., (List.sublist_cons_self ..).trans (List.sublist_append_right ..)⟩
  · cases hpair

theorem docValue_merge_ne (hs : s' ≠ s) : docValue pre (merge s bs) s' k = docValue pre bs s' k := by
  rw [docValue, docValue, lastOf_cons, lastOf_cons, lastOf_merge_ne hs]

theorem docValue_of_last (h : lastOf bs s = some ts) : docValue pre bs s k = (valuesOf ts k).getD [] := by
  rw [docValue, lastOf_cons, h]
  rfl

theorem docValue_merge_self (h : lastOf bs s = some ts) :
    docValue pre (merge s bs) s k = (valuesOf (contents s bs) k).getD [] := by
  apply docValue_of_last
  rw [lastOf_merge_self, h]
  rfl

theorem docValue_merge (hcond : ∀ ts, lastOf bs s = some ts → valuesOf ts k = none →
    (valuesOf (contents s bs) k).getD [] = []) : docValue pre (merge s bs) s' k = docValue pre bs s' k := by
  by_cases hs : s' = s
  · rw [hs]
    cases hts : lastOf bs s with
    | none =>
      have hmerge : lastOf (merge s bs) s = none := by
        rw [lastOf_merge_self, hts]
        rfl
      rw [docValue, docValue, lastOf_cons, lastOf_cons, hts, hmerge]
    | some ts =>
      rw [docValue_of_last hts, docValue_merge_self hts]
      cases hc : valuesOf ts k with
      | none => exact hcond ts hts hc
      | some v =>
        obtain ⟨earlier, hearlier⟩ := exists_contents hts
        rw [hearlier, valuesOf_append, hc]
        rfl
  · exact docValue_merge_ne hs

theorem cStr_of_lastOf (hbs : ∀ b ∈ bs, BlockOk b) (hts : lastOf bs s = some ts) : cStr s = s :=
  cStr_of_sublist (hbs _ (mem_of_lastOf hts)).fits
    ((List.sublist_append_left s _).trans (List.sublist_cons_self _ _))

theorem blockOk_merge (hbs : ∀ b ∈ bs, BlockOk b) : ∀ b ∈ merge s bs, BlockOk b := by
  intro b hb
  obtain ⟨b', hb', hname, hentries⟩ := mem_merge hb
  have hok := hbs b' hb'
  refine ⟨hname ▸ hok.left, hname ▸ hok.right, hname ▸ hok.fits, fun t ht => ?_⟩
  obtain ⟨b'', hb'', ht⟩ := hentries t ht
  exact (hbs b'' hb'').lines t ht

/-- **Merging the blocks of a section changes no lookup exactly if every key that the last block does not set has no
value in the earlier blocks, or the empty one.** -/
theorem merged_lookups_iff (hpre : ∀ t ∈ pre, Fits t ∧ ¬ Bracketed t) (hbs : ∀ b ∈ bs, BlockOk b)
    (hls : ls.map Prod.fst = docLines pre bs) (hls' : ls'.map Prod.fst = docLines pre (merge s bs)) :
    (∀ mAttr cAttr,
        ((r.load (some (fileText ls))).2.getStr mAttr cAttr).1 =
          ((q.load (some (fileText ls'))).2.getStr mAttr cAttr).1 ∧
        ((r.load (some (fileText ls))).2.getInt mAttr cAttr).1 =
          ((q.load (some (fileText ls'))).2.getInt mAttr cAttr).1) ↔
      ∀ ts, lastOf bs s = some ts → ∀ key, valuesOf ts key = none → (valuesOf (contents s bs) key).getD [] = [] := by
  have hstr (m c : Str) : (r.load (some (fileText ls))).2.value m c = docValue pre bs m c :=
    value_printed hpre hbs hls m c
  have hstr' (m c : Str) : (q.load (some (fileText ls'))).2.value m c = docValue pre (merge s bs) m c :=
    value_printed hpre (blockOk_merge hbs) hls' m c
  simp only [IniReader.getStr_fst, IniReader.getInt_fst, hstr, hstr']
  constructor
  · intro hsame ts hts key hnone
    cases hvalue : valuesOf (contents s bs) key with
    | none => rfl
    | some v =>
      obtain ⟨t, ht, hkey, hv⟩ := sublist_of_valuesOf hvalue
      obtain ⟨b, hb, ht⟩ := List.mem_flatMap.mp ht
      have hfits := ((hbs b (List.mem_filter.mp hb).1).lines t ht).1
      have hlookup := (hsame s key).1
      rw [cStr_of_lastOf hbs hts, cStr_of_sublist hfits hkey, docValue_of_last hts,
        docValue_merge_self hts, hnone, hvalue,
        Option.getD_some, cStr_of_sublist hfits hv] at hlookup
      exact hlookup.symm
  · intro hcond m c
    have hvalue : docValue pre (merge s bs) (cStr m) (cStr c) = docValue pre bs (cStr m) (cStr c) :=
      docValue_merge fun ts hts => hcond ts hts (cStr c)
    rw [hvalue]
    exact ⟨rfl, rfl⟩

/-- Lines that end in LF. -/
def unixLines (ts : List Str) : List (Str × Eol) := ts.map fun t => (t, .lf)

theorem fst_unixLines (ts : List Str) : (unixLines ts).map Prod.fst = ts := by
  rw [unixLines, List.map_map]
  exact List.map_id ts

/-- A section in two blocks that set the same key, with another section between them. -/
def portTwice : List Block :=
  [(lit "redis", [lit "port=6379"]), (lit "system", [lit "worker=8"]), (lit "redis", [lit "port=6380"])]

theorem blockOk_portTwice : ∀ b ∈ portTwice, BlockOk b := by
  have hok {name t : Str} (hname : leftBracket ∉ name ∧ rightBracket ∉ name) (hfits : Fits (headerLine name))
      (ht : Fits t) (hboth : ¬ Bracketed t) : BlockOk (name, [t]) :=
    ⟨hname.1, hname.2, hfits, List.forall_mem_singleton.mpr ⟨ht, hboth⟩⟩
  rw [portTwice, List.forall_mem_cons, List.forall_mem_cons, List.forall_mem_singleton]
  refine ⟨hok (by decide) ?_ ?_ (by decide), hok (by decide) ?_ ?_ (by decide), hok (by decide) ?_ ?_ (by decide)⟩ <;>
    exact fits_of_all (by decide) (by decide)

theorem portTwice_merged :
    ((IniReader.new.load (some (fileText (unixLines (docLines [] portTwice))))).2.getStr
        (lit "redis") (lit "port")).1 =
      ((IniReader.new.load (some (fileText (unixLines (docLines [] (merge (lit "redis") portTwice)))))).2.getStr
        (lit "redis") (lit "port")).1 := by
  have hlast : lastOf portTwice (lit "redis") = some [lit "port=6380"] := by decide
  have hsame := (merged_lookups_iff (s := lit "redis") (r := .new) (q := .new) (List.forall_mem_nil _)
    blockOk_portTwice (fst_unixLines _) (fst_unixLines _)).mpr ?_
  · exact (hsame (lit "redis") (lit "port")).1
  · intro ts hts key hnone
    obtain rfl := Option.some.inj (hlast.symm.trans hts)
    have hpairs : (contents (lit "redis") portTwice).filterMap pairOf =
        [(lit "port", lit "6379"), (lit "port", lit "6380")] := by decide
    have hpairs' : [lit "port=6380"].filterMap pairOf = [(lit "port", lit "6380")] := by decide
    rw [valuesOf, hpairs', lastOf_eq_none, List.forall_mem_singleton] at hnone
    have habsent : valuesOf (contents (lit "redis") portTwice) key = none := by
      rw [valuesOf, hpairs, lastOf_eq_none, List.forall_mem_cons, List.forall_mem_singleton]
      exact ⟨hnone, hnone⟩
    rw [habsent]
    rfl

/-- A key that is set in the first block alone. -/
def portFirst : List Block := [(lit "redis", [lit "port=6379"]), (lit "redis", [lit "host=redis0"])]

/-- After the file in two blocks the port is gone. -/
theorem portFirst_lost :
    ((IniReader.new.load (some (fileText (unixLines (docLines [] portFirst))))).2.getStr
        (lit "redis") (lit "port")).1 ≠
      ((IniReader.new.load (some (fileText (unixLines (docLines [] (merge (lit "redis") portFirst)))))).2.getStr
        (lit "redis") (lit "port")).1 := by
  decide

end PullStream
