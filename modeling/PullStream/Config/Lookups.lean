import PullStream.Config.Loading
/-!
# Looking up keys

A lookup makes an entry in `m_Map` for a section that is not there, with no keys, and leaves every key with the value
it had (`value_after`). `GetKey` copies a value into `m_szKey` without looking at its length. A value is what follows
the `=` in a piece of the file, and a piece has no more than 255 bytes, so that every value fits, whatever has been
loaded before, and also if a `Load` was left by an exception (`copied_fits`).
-/

namespace PullStream

namespace IniReader

/-- What the map has for a key of a section, the empty string if there is no such key. -/
def value (r : IniReader) (s k : Str) : Str := (((r.map s).getD fun _ => none) k).getD []

variable {r : IniReader} {mAttr cAttr s k : Str}

theorem getStr_fst : (r.getStr mAttr cAttr).1 = cStr (r.value (cStr mAttr) (cStr cAttr)) := rfl

theorem getInt_fst : (r.getInt mAttr cAttr).1 = atoi (cStr (r.value (cStr mAttr) (cStr cAttr))) := rfl

theorem value_getKey (r : IniReader) (mAttr cAttr : Str) : (r.getKey mAttr cAttr).2.1.value s k = r.value s k := by
  simp only [getKey, value, Function.update_apply]
  split_ifs with hs
  · rw [hs]
    rfl
  · rfl

/-- **A lookup leaves every key with its value.** -/
theorem value_after (look : IniLookup) : (look.after r).value s k = r.value s k := by
  cases look with
  | getStr mAttr cAttr => exact value_getKey { r with szKey := [] } mAttr cAttr
  | getInt mAttr cAttr => exact value_getKey { r with szKey := [] } mAttr cAttr

theorem value_lookups (looks : List IniLookup) : (looks.foldl IniLookup.after r).value s k = r.value s k := by
  induction looks generalizing r with
  | nil => rfl
  | cons look looks ih => rw [List.foldl_cons, ih, value_after]

end IniReader

/-! ### All values -/

/-- `P` holds of the values of a section. -/
def KeyMap.All (P : Str → Prop) (m : KeyMap) : Prop := ∀ k v, m k = some v → P v

def MainKeyMap.All (P : Str → Prop) (m : MainKeyMap) : Prop := ∀ s km, m s = some km → KeyMap.All P km

/-- `P` holds of the values in the map and in the section that is being read. -/
def Reading.All (P : Str → Prop) (st : Reading) : Prop := MainKeyMap.All P st.map ∧ KeyMap.All P st.mLastMap

section

variable {P : Str → Prop} {st : Reading} {m : MainKeyMap} {km : KeyMap} {s k v : Str} {item : Item} {p text : Str}
  {ps : List Str} {r : IniReader}

theorem all_update_key (hkm : KeyMap.All P km) (hv : P v) : KeyMap.All P (Function.update km k (some v)) := by
  intro k' v' h
  rw [Function.update_apply] at h
  split_ifs at h
  · exact Option.some.inj h ▸ hv
  · exact hkm k' v' h

theorem all_update (hm : MainKeyMap.All P m) (hkm : KeyMap.All P km) :
    MainKeyMap.All P (Function.update m s (some km)) := by
  intro s' km' h
  rw [Function.update_apply] at h
  split_ifs at h
  · exact Option.some.inj h ▸ hkm
  · exact hm s' km' h

theorem all_take (hst : st.All P) (hitem : ∀ k v, item = .pair k v → P v) : (st.take item).All P := by
  cases item with
  | header name => exact ⟨all_update hst.1 hst.2, nofun⟩
  | pair key value => exact ⟨hst.1, all_update_key hst.2 (hitem key value rfl)⟩
  | other => exact hst

theorem all_loop (hst : st.All P) (hps : ∀ p ∈ ps, ∀ k v, parse (szLine p) = some (.pair k v) → P v) :
    (Reading.loop ps st).2.All P := by
  refine loop_inv (Reading.All P) hst fun p hp st item hst hitem => all_take hst fun k v hpair => ?_
  exact hps p hp k v (hpair ▸ hitem)

theorem all_load {file : Option Str} (hr : MainKeyMap.All P r.map)
    (hfile : ∀ text ∈ file, ∀ p ∈ pieces text, ∀ k v, parse (szLine p) = some (.pair k v) → P v) :
    MainKeyMap.All P (r.load file).2.map := by
  cases file with
  | none => exact hr
  | some text =>
    have hall : (Reading.loop (pieces text) .start).2.All P := all_loop ⟨nofun, nofun⟩ (hfile text rfl)
    rw [IniReader.load]
    split
    · rename_i st hloop
      rw [hloop] at hall
      exact all_update hall.1 hall.2
    · rename_i st hloop
      rw [hloop] at hall
      exact hall.1

theorem all_getKey (hr : MainKeyMap.All P r.map) (mAttr cAttr : Str) :
    MainKeyMap.All P (r.getKey mAttr cAttr).2.1.map := by
  apply all_update hr
  intro k v h
  cases hkm : r.map (cStr mAttr) with
  | none =>
    rw [hkm] at h
    cases h
  | some km =>
    rw [hkm] at h
    exact hr _ km hkm k v h

theorem value_of_all (hr : MainKeyMap.All P r.map) (hnil : P []) (s k : Str) : P (r.value s k) := by
  rw [IniReader.value]
  cases hkm : r.map s with
  | none => exact hnil
  | some km =>
    rw [Option.getD_some]
    cases hv : km k with
    | none => exact hnil
    | some v => exact hr s km hkm k v hv

/-! ### The length of values -/

theorem length_szLine_le (p : Str) : (szLine p).length ≤ p.length :=
  calc
    (szLine p).length ≤ ((cStr p).erase lf).length := (List.erase_sublist).length_le
    _ ≤ (cStr p).length := (List.erase_sublist).length_le
    _ ≤ p.length := (List.takeWhile_sublist _).length_le

theorem length_value_lt (hp : p ∈ pieces text) (h : parse (szLine p) = some (.pair k v)) : v.length < configLen := by
  have hlen : (szLine p).length < configLen :=
    Nat.lt_succ_of_le ((length_szLine_le p).trans (Chunks.length_le_of_mem p hp))
  rw [(eq_of_parse_pair h).2.1, List.length_append, List.length_cons] at hlen
  omega

end

/-- The public functions of the class. -/
inductive IniOp where
  | load (file : Option Str)
  | lookup (look : IniLookup)

def IniOp.after (r : IniReader) : IniOp → IniReader
  | .load file => (r.load file).2
  | .lookup look => look.after r

theorem short_after {r : IniReader} (hr : MainKeyMap.All (·.length < configLen) r.map) (op : IniOp) :
    MainKeyMap.All (·.length < configLen) (op.after r).map := by
  cases op with
  | load file => exact all_load hr fun text _ p hp k v h => length_value_lt hp h
  | lookup look =>
    cases look with
    | getStr mAttr cAttr => exact all_getKey (r := { r with szKey := [] }) hr mAttr cAttr
    | getInt mAttr cAttr => exact all_getKey (r := { r with szKey := [] }) hr mAttr cAttr

theorem short_run (ops : List IniOp) {r : IniReader} (hr : MainKeyMap.All (·.length < configLen) r.map) :
    MainKeyMap.All (·.length < configLen) (ops.foldl IniOp.after r).map := by
  induction ops generalizing r with
  | nil => exact hr
  | cons op ops ih => exact ih (short_after hr op)

/-- **What `GetKey` copies fits into `m_szKey` with its terminator**, after any calls on a new reader. -/
theorem copied_fits (ops : List IniOp) (mAttr cAttr : Str) :
    ((ops.foldl IniOp.after IniReader.new).getKey mAttr cAttr).2.2.length + 1 ≤ configLen := by
  have hshort := short_run ops (r := IniReader.new) nofun
  have hvalue := value_of_all hshort (Nat.zero_lt_succ _) (cStr mAttr) (cStr cAttr)
  exact Nat.lt_of_le_of_lt (List.takeWhile_sublist _).length_le hvalue

end PullStream
