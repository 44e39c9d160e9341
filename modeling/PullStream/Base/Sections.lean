import Mathlib.Data.List.Basic
import Mathlib.Logic.Function.Basic
/-!
# Entries of which the last counts

In a list of keyed entries that is read from front to back, each entry takes the place of an earlier one with its key:
`lastOf l k` is what is left for the key `k` in the end. It is a fold (`lastOf_concat`), and of two lists one after the
other the second has precedence (`lastOf_append`).

When the values are lists themselves, blocks with a name, the blocks of one name can be merged into the first of them
(`merge`). That leaves the blocks of the other names as they are (`lastOf_merge_ne`), and the one block that is left has
the entries of all (`lastOf_merge_self`), of which those of the last block come last (`exists_contents`).

If no name and in no block a key comes twice, what is left depends only on which entries there are (`lookup_congr`).
-/

namespace Sections

variable {κ β : Type*} [DecidableEq κ] {l l' : List (κ × β)} {k s : κ} {v : β}

/-- The last value for a key. -/
def lastOf (l : List (κ × β)) (k : κ) : Option β := ((l.filter fun p => p.1 = k).getLast?).map Prod.snd

@[simp] theorem lastOf_nil : lastOf ([] : List (κ × β)) k = none := rfl

theorem lastOf_append : lastOf (l ++ l') k = (lastOf l' k).or (lastOf l k) := by
  rw [lastOf, List.filter_append, List.getLast?_append, lastOf, lastOf]
  cases (l'.filter fun p => p.1 = k).getLast? <;> rfl

theorem lastOf_singleton {p : κ × β} : lastOf [p] k = if p.1 = k then some p.2 else none := by
  by_cases hp : p.1 = k <;> simp [lastOf, hp]

theorem lastOf_concat : lastOf (l ++ [(s, v)]) = Function.update (lastOf l) s (some v) := by
  funext k
  rw [lastOf_append, lastOf_singleton, Function.update_apply]
  by_cases hk : k = s
  · rw [if_pos hk, if_pos hk.symm]
    rfl
  · rw [if_neg hk, if_neg (Ne.symm hk)]
    rfl

theorem lastOf_eq_none : lastOf l k = none ↔ ∀ p ∈ l, p.1 ≠ k := by
  rw [lastOf, Option.map_eq_none_iff, List.getLast?_eq_none_iff, List.filter_eq_nil_iff]
  simp

theorem mem_of_lastOf (h : lastOf l k = some v) : (k, v) ∈ l := by
  obtain ⟨p, hp, rfl⟩ := Option.map_eq_some_iff.mp h
  obtain ⟨hmem, hk⟩ := List.mem_filter.mp (List.mem_of_getLast? hp)
  rw [← of_decide_eq_true hk]
  exact hmem

theorem lastOf_map {γ : Type*} {f : β → γ} :
    lastOf (l.map fun p => (p.1, f p.2)) k = (lastOf l k).map f := by
  rw [lastOf, lastOf, List.filter_map, List.getLast?_map, Option.map_map, Option.map_map]
  rfl

theorem lastOf_of_mem (hnodup : (l.map Prod.fst).Nodup) (h : (k, v) ∈ l) : lastOf l k = some v := by
  induction l with
  | nil => exact absurd h List.not_mem_nil
  | cons p l ih =>
    rw [List.map_cons, List.nodup_cons] at hnodup
    rw [← List.singleton_append, lastOf_append]
    rcases List.mem_cons.mp h with rfl | h
    · have hnone : lastOf l k = none := by
        rw [lastOf_eq_none]
        intro p hp hk
        exact hnodup.1 (List.mem_map.mpr ⟨p, hp, hk⟩)
      rw [hnone, lastOf_singleton, if_pos rfl]
      rfl
    · rw [ih hnodup.2 h]
      rfl

/-! ### Merging blocks -/

section

variable {γ : Type*} {bs : List (κ × List γ)} {b : κ × List γ} {c : List γ} {s' : κ}

/-- The entries of all blocks of a name. -/
def contents (s : κ) (bs : List (κ × List γ)) : List γ := (bs.filter fun b => b.1 = s).flatMap Prod.snd

/-- The blocks of a name are merged into the first of them. -/
def merge (s : κ) : List (κ × List γ) → List (κ × List γ)
  | [] => []
  | b :: bs => if b.1 = s then (s, b.2 ++ contents s bs) :: bs.filter fun b => b.1 ≠ s else b :: merge s bs

theorem contents_cons : contents s (b :: bs) = (if b.1 = s then b.2 else []) ++ contents s bs := by
  by_cases hb : b.1 = s <;> simp [contents, hb]

theorem exists_contents (h : lastOf bs s = some c) : ∃ earlier, contents s bs = earlier ++ c := by
  obtain ⟨b, hb, rfl⟩ := Option.map_eq_some_iff.mp h
  obtain ⟨bs', hbs⟩ := List.getLast?_eq_some_iff.mp hb
  refine ⟨bs'.flatMap Prod.snd, ?_⟩
  rw [contents, hbs, List.flatMap_append, List.flatMap_singleton]

theorem lastOf_filter_ne (hs : s' ≠ s) : lastOf (bs.filter fun b => b.1 ≠ s) s' = lastOf bs s' := by
  rw [lastOf, lastOf, List.filter_filter]
  congr 2
  apply List.filter_congr
  intro b _
  by_cases hb : b.1 = s' <;> simp [hb, hs]

theorem lastOf_filter_self : lastOf (bs.filter fun b => b.1 ≠ s) s = none := by
  rw [lastOf_eq_none]
  intro b hb
  exact of_decide_eq_true (List.mem_filter.mp hb).2

theorem lastOf_cons {p : κ × β} : lastOf (p :: l) k = (lastOf l k).or (if p.1 = k then some p.2 else none) := by
  rw [← List.singleton_append, lastOf_append, lastOf_singleton]

theorem lastOf_merge_ne (hs : s' ≠ s) : lastOf (merge s bs) s' = lastOf bs s' := by
  induction bs with
  | nil => rfl
  | cons b bs ih =>
    rw [merge]
    split_ifs with hb
    · rw [lastOf_cons, lastOf_cons, lastOf_filter_ne hs, if_neg (Ne.symm hs), if_neg (hb ▸ Ne.symm hs)]
    · rw [lastOf_cons, lastOf_cons, ih]

theorem lastOf_merge_self : lastOf (merge s bs) s = (lastOf bs s).map fun _ => contents s bs := by
  induction bs with
  | nil => rfl
  | cons b bs ih =>
    rw [merge, contents_cons]
    split_ifs with hb
    · rw [lastOf_cons, lastOf_filter_self, if_pos rfl, lastOf_cons, if_pos hb]
      cases lastOf bs s <;> rfl
    · rw [lastOf_cons, lastOf_cons, if_neg hb, ih]
      cases lastOf bs s <;> rfl

theorem mem_merge (hb : b ∈ merge s bs) : ∃ b' ∈ bs, b'.1 = b.1 ∧ ∀ t ∈ b.2, ∃ b'' ∈ bs, t ∈ b''.2 := by
  induction bs with
  | nil => exact absurd hb List.not_mem_nil
  | cons c bs ih =>
    rw [merge] at hb
    split_ifs at hb with hc
    · rcases List.mem_cons.mp hb with rfl | hb
      · refine ⟨c, List.mem_cons_self, hc, fun t ht => ?_⟩
        rcases List.mem_append.mp ht with ht | ht
        · exact ⟨c, List.mem_cons_self, ht⟩
        · obtain ⟨c', hc', ht⟩ := List.mem_flatMap.mp ht
          exact ⟨c', List.mem_cons_of_mem _ (List.mem_filter.mp hc').1, ht⟩
      · have hmem : b ∈ c :: bs := List.mem_cons_of_mem _ (List.mem_filter.mp hb).1
        exact ⟨b, hmem, rfl, fun t ht => ⟨b, hmem, ht⟩⟩
    · rcases List.mem_cons.mp hb with rfl | hb
      · exact ⟨b, List.mem_cons_self, rfl, fun t ht => ⟨b, List.mem_cons_self, ht⟩⟩
      · obtain ⟨b', hb', hname, hentries⟩ := ih hb
        refine ⟨b', List.mem_cons_of_mem _ hb', hname, fun t ht => ?_⟩
        obtain ⟨b'', hb'', ht⟩ := hentries t ht
        exact ⟨b'', List.mem_cons_of_mem _ hb'', ht⟩

end

/-! ### Blocks without repetitions -/

section

variable {κ' : Type*} [DecidableEq κ'] {cs cs' : List (κ × List (κ' × β))} {k' : κ'}

/-- The entries of all blocks, each with the name of its block. -/
def entries (cs : List (κ × List (κ' × β))) : List (κ × κ' × β) := cs.flatMap fun c => c.2.map fun p => (c.1, p)

structure Distinct (cs : List (κ × List (κ' × β))) : Prop where
  names : (cs.map Prod.fst).Nodup
  keys : ∀ c ∈ cs, (c.2.map Prod.fst).Nodup

instance (cs : List (κ × List (κ' × β))) : Decidable (Distinct cs) :=
  decidable_of_iff ((cs.map Prod.fst).Nodup ∧ ∀ c ∈ cs, (c.2.map Prod.fst).Nodup)
    ⟨fun h => ⟨h.1, h.2⟩, fun h => ⟨h.names, h.keys⟩⟩

omit [DecidableEq κ] [DecidableEq κ'] in
theorem mem_entries {p : κ' × β} : (s, p) ∈ entries cs ↔ ∃ ps, (s, ps) ∈ cs ∧ p ∈ ps := by
  rw [entries, List.mem_flatMap]
  constructor
  · rintro ⟨⟨s', ps⟩, hc, hp⟩
    obtain ⟨p', hp', heq⟩ := List.mem_map.mp hp
    cases heq
    exact ⟨ps, hc, hp'⟩
  · rintro ⟨ps, hc, hp⟩
    exact ⟨(s, ps), hc, List.mem_map.mpr ⟨p, hp, rfl⟩⟩

theorem lookup_eq_some (h : Distinct cs) :
    ((lastOf cs s).bind fun ps => lastOf ps k') = some v ↔ (s, k', v) ∈ entries cs := by
  rw [mem_entries, Option.bind_eq_some_iff]
  constructor
  · rintro ⟨ps, hps, hv⟩
    exact ⟨ps, mem_of_lastOf hps, mem_of_lastOf hv⟩
  · rintro ⟨ps, hps, hv⟩
    exact ⟨ps, lastOf_of_mem h.names hps, lastOf_of_mem (h.keys _ hps) hv⟩

/-- **It does not matter in which order the entries come**, nor in which order the blocks do. -/
theorem lookup_congr (h : Distinct cs) (h' : Distinct cs') (hentries : ∀ e, e ∈ entries cs ↔ e ∈ entries cs') (s : κ)
    (k' : κ') : ((lastOf cs s).bind fun ps => lastOf ps k') = (lastOf cs' s).bind fun ps => lastOf ps k' := by
  apply Option.ext
  intro v
  rw [lookup_eq_some h, lookup_eq_some h']
  exact hentries _

end

end Sections
