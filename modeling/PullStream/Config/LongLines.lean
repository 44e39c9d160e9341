import PullStream.Config.Lookups
/-!
# Lines that do not fit into the buffer

A line of more than 255 bytes is read in several pieces, and `Load` takes each of them for a line. The first piece is
the beginning of the line, and what it sets comes from there. A further piece, a tail of the line, is passed over as
it should be only if it has no `=` and not both brackets (`untorn_iff`).
-/

namespace PullStream

open Chunks

/-- The lines of a file, with their ends. -/
def physicalLines (text : Str) : List Str := lines (· == lf) text

/-- The pieces that go on with a line. -/
def tails (text : Str) : List Str := continued (tagged (· == lf) true (pieces text))

/-- The name is that of a header at the beginning of a line. -/
def NameFrom (text s : Str) : Prop :=
  ∃ l ∈ physicalLines text, ∃ h, h <+: szLine l ∧ Bracketed h ∧ s = headerName h

/-- The key is at the beginning of a line up to the first `=`, and the value follows, all of it or the beginning. -/
def KeyFrom (text k v : Str) : Prop :=
  ∃ l ∈ physicalLines text, (k ++ equalsSign :: v) <+: szLine l ∧ equalsSign ∉ k

/-- Sections and keys come from beginnings of lines. Lines before the first header have the name `""`. -/
structure FromLines (text : Str) (m : MainKeyMap) : Prop where
  names : ∀ s km, m s = some km → s = [] ∨ NameFrom text s
  keys : ∀ s km, m s = some km → ∀ k v, km k = some v → KeyFrom text k v

/-- Lines are not torn apart: what is in the map comes from beginnings of lines, and no tail keeps the file from being
read, or would set a key or begin a section, whatever had been read before it; so not even one that sets a value
again. -/
structure Untorn (text : Str) : Prop where
  fromLines : ∀ r : IniReader, FromLines text (r.load (some text)).2.map
  tails : ∀ p ∈ tails text, ∀ st : Reading, ∃ item, parse (szLine p) = some item ∧ st.take item = st

section

variable {text l p q s k v : Str} {st : Reading} {m : MainKeyMap} {km : KeyMap}

theorem szLine_prefix (h : p <+: q) : szLine p <+: szLine q := by
  have hcStr : cStr p <+: cStr q := by
    obtain ⟨t, rfl⟩ := h
    rw [cStr, cStr, List.takeWhile_append]
    split_ifs with hlen
    · rw [(List.takeWhile_sublist _).eq_of_length hlen]
      exact List.prefix_append ..
    · exact List.prefix_refl _
  exact (hcStr.erase lf).erase cr

theorem begin_or_tail (hp : p ∈ pieces text) : (∃ l ∈ physicalLines text, p <+: l) ∨ p ∈ tails text := by
  rcases mem_begun_or_continued true hp with hbegun | htail
  · rw [pieces, begun_chunks] at hbegun
    obtain ⟨l, hl, rfl⟩ := List.mem_map.mp hbegun
    exact .inl ⟨l, hl, List.take_prefix ..⟩
  · exact .inr htail

theorem take_eq_self_iff : (∀ st : Reading, ∃ item, parse l = some item ∧ st.take item = st) ↔
    equalsSign ∉ l ∧ ¬ Bracketed l := by
  constructor
  · intro h
    obtain ⟨item, hitem, htake⟩ := h ⟨fun _ => none, [], fun _ => none⟩
    cases item with
    | header name =>
      have hmap := congrFun (congrArg Reading.map htake) []
      simp [Reading.take] at hmap
    | pair key value =>
      have hlast := congrFun (congrArg Reading.mLastMap htake) key
      simp [Reading.take] at hlast
    | other =>
      have hboth : ¬ Bracketed l := by
        intro hboth
        rw [parse_both hboth] at hitem
        split_ifs at hitem
        cases hitem
      refine ⟨fun heq => ?_, hboth⟩
      rw [parse_of_not_both hboth, if_pos heq] at hitem
      cases hitem
  · rintro ⟨heq, hboth⟩ st
    refine ⟨.other, ?_, rfl⟩
    rw [parse_of_not_both hboth, if_neg heq]

/-- What has been read comes from beginnings of lines. -/
structure ReadFrom (text : Str) (st : Reading) : Prop where
  map : FromLines text st.map
  name : st.szLastMainKey = [] ∨ NameFrom text st.szLastMainKey
  last : ∀ k v, st.mLastMap k = some v → KeyFrom text k v

theorem ReadFrom.finish (h : ReadFrom text st) : FromLines text st.finish := by
  constructor
  · intro s km hs
    rw [Reading.finish, Function.update_apply] at hs
    split_ifs at hs with heq
    · rw [heq]
      exact h.name
    · exact h.map.names s km hs
  · intro s km hs k v hk
    rw [Reading.finish, Function.update_apply] at hs
    split_ifs at hs
    · rw [← Option.some.inj hs] at hk
      exact h.last k v hk
    · exact h.map.keys s km hs k v hk

/-- **A step of the loop**: the beginning of a line is read. -/
theorem ReadFrom.take (h : ReadFrom text st) (hl : l ∈ physicalLines text) (hp : p <+: l) {item : Item}
    (hitem : parse (szLine p) = some item) : ReadFrom text (st.take item) := by
  have hprefix := szLine_prefix hp
  cases item with
  | header name =>
    obtain ⟨hboth, hname⟩ := eq_of_parse_header hitem
    exact ⟨h.finish, .inr ⟨l, hl, szLine p, hprefix, hboth, hname⟩, nofun⟩
  | pair key value =>
    obtain ⟨-, hline, hkey⟩ := eq_of_parse_pair hitem
    refine ⟨h.map, h.name, fun k v hk => ?_⟩
    simp only [Reading.take, Function.update_apply] at hk
    split_ifs at hk with heq
    · cases hk
      rw [heq]
      exact ⟨l, hl, hline ▸ hprefix, hkey⟩
    · exact h.last k v hk
  | other => exact h

/-- **Lines are not torn apart exactly if no tail has a `=` or both brackets.** -/
theorem untorn_iff : Untorn text ↔ ∀ p ∈ tails text, equalsSign ∉ szLine p ∧ ¬ Bracketed (szLine p) := by
  constructor
  · intro h p hp
    exact take_eq_self_iff.mp (h.tails p hp)
  · intro h
    refine ⟨fun r => ?_, fun p hp => take_eq_self_iff.mpr (h p hp)⟩
    have hread : ReadFrom text (Reading.loop (pieces text) .start).2 := by
      refine loop_inv (ReadFrom text) ⟨⟨nofun, nofun⟩, .inl rfl, nofun⟩ fun p hp st item hst hitem => ?_
      rcases begin_or_tail hp with ⟨l, hl, hprefix⟩ | htail
      · exact hst.take hl hprefix hitem
      · obtain ⟨item', hitem', htake⟩ := take_eq_self_iff.mpr (h p htail) st
        obtain rfl := Option.some.inj (hitem.symm.trans hitem')
        rw [htake]
        exact hst
    rw [IniReader.load]
    split
    · rename_i st hloop
      rw [hloop] at hread
      exact hread.finish
    · rename_i st hloop
      rw [hloop] at hread
      exact hread.map

end

/-- A line of 258 bytes, whose last three are a pair. -/
def longLine : Str := lit "a=" ++ List.replicate 253 120 ++ lit "b=1"

/-- The tail of the line makes a key. -/
theorem longLine_torn : ¬ Untorn longLine := by
  intro h
  have htail : lit "b=1" ∈ tails longLine := by decide +kernel
  obtain ⟨item, hitem, htake⟩ := h.tails _ htail .start
  have hpair : parse (szLine (lit "b=1")) = some (.pair (lit "b") (lit "1")) := by decide
  obtain rfl := Option.some.inj (hitem.symm.trans hpair)
  have hkey := congrFun (congrArg Reading.mLastMap htake) (lit "b")
  exact absurd hkey (by decide)

end PullStream
