import Mathlib.Data.List.Induction
import Mathlib.Data.List.Nodup
import Mathlib.Tactic.Ring
/-!
# Dealing a sequence out in turn

`lane W i l` is the subsequence of `l` that goes to party `i` when the elements of `l` are dealt out to
`W` parties in turn, starting with party `0`: the elements number `i`, `i + W`, `i + 2 W`, …
(`getElem?_lane`). The next element extends the lane of party `l.length % W` and no other
(`lane_concat`), the lanes differ in length by at most one (`length_lane_le`), and together they hold
every element exactly once (`lanes_perm`).
-/

namespace Lane

variable {α : Type*}

/-- The lane of party `i` when the first element of the list is number `n`. -/
def laneFrom (W i : Nat) : Nat → List α → List α
  | _, [] => []
  | n, a :: l => if n % W = i then a :: laneFrom W i (n + 1) l else laneFrom W i (n + 1) l

/-- The elements number `i`, `i + W`, `i + 2 W`, … of `l`. -/
def lane (W i : Nat) (l : List α) : List α := laneFrom W i 0 l

theorem laneFrom_append (W i n : Nat) (l l' : List α) :
    laneFrom W i n (l ++ l') = laneFrom W i n l ++ laneFrom W i (n + l.length) l' := by
  induction l generalizing n with
  | nil => simp [laneFrom]
  | cons a l ih =>
    have hn : n + (l.length + 1) = n + 1 + l.length := by omega
    simp only [List.cons_append, laneFrom, ih, List.length_cons, hn]
    split <;> rfl

@[simp] theorem lane_nil (W i : Nat) : lane W i ([] : List α) = [] := rfl

theorem lane_concat (W i : Nat) (l : List α) (a : α) :
    lane W i (l ++ [a]) = if l.length % W = i then lane W i l ++ [a] else lane W i l := by
  rw [lane, laneFrom_append, Nat.zero_add, laneFrom]
  split <;> simp [lane, laneFrom]

variable {W i j : Nat} {l : List α}

theorem lt_length_lane (hi : i < W) (m : Nat) : m < (lane W i l).length ↔ i + m * W < l.length := by
  induction l using List.reverseRecOn generalizing m with
  | nil => simp
  | append_singleton l a ih =>
    have hdiv := Nat.mod_add_div l.length W
    rw [lane_concat, List.length_append, List.length_singleton]
    split
    · rename_i hturn
      have hlen : (lane W i l).length = l.length / W := by
        refine le_antisymm (Nat.le_of_not_lt fun h => ?_) (Nat.le_of_not_lt fun h => ?_)
        · have := (ih _).mp h
          rw [Nat.mul_comm] at this
          omega
        · have hnot := (ih (lane W i l).length).not.mp (lt_irrefl _)
          have := Nat.mul_le_mul_right W (Nat.succ_le_of_lt h)
          rw [Nat.succ_mul] at this
          rw [Nat.mul_comm] at hdiv
          omega
      rw [List.length_append, List.length_singleton, hlen]
      constructor
      · intro hm
        have := Nat.mul_le_mul_right W (Nat.le_of_lt_succ hm)
        rw [Nat.mul_comm (l.length / W)] at this
        omega
      · intro hm
        have : m * W < (l.length / W + 1) * W := by
          rw [Nat.succ_mul, Nat.mul_comm (l.length / W)]
          omega
        exact Nat.lt_of_mul_lt_mul_right this
    · rename_i hturn
      rw [ih]
      constructor
      · omega
      · intro hm
        refine Nat.lt_of_le_of_ne (Nat.le_of_lt_succ hm) fun h => hturn ?_
        rw [← h, Nat.add_mul_mod_self_right, Nat.mod_eq_of_lt hi]

theorem getElem?_lane (hi : i < W) (m : Nat) : (lane W i l)[m]? = l[i + m * W]? := by
  induction l using List.reverseRecOn generalizing m with
  | nil => simp
  | append_singleton l a ih =>
    have hlt := lt_length_lane (l := l) hi m
    rw [lane_concat]
    split
    · rename_i hturn
      rcases Nat.lt_trichotomy m (lane W i l).length with h | h | h
      · rw [List.getElem?_append_left h, ih, List.getElem?_append_left (hlt.mp h)]
      · have hlen : i + m * W = l.length := by
          have hdiv := Nat.mod_add_div l.length W
          have hle : l.length ≤ i + m * W := Nat.le_of_not_lt (hlt.not.mp (by omega))
          have hq : ¬ m < l.length / W := fun hm => by
            have := Nat.mul_le_mul_right W (Nat.succ_le_of_lt hm)
            rw [Nat.succ_mul, Nat.mul_comm (l.length / W)] at this
            omega
          have hup := (lt_length_lane (l := l ++ [a]) hi m).mp (by
            rw [lane_concat, if_pos hturn, List.length_append, List.length_singleton]
            omega)
          rw [List.length_append, List.length_singleton] at hup
          omega
        rw [hlen, h, List.getElem?_concat_length, List.getElem?_concat_length]
      · have hup := (lt_length_lane (l := l ++ [a]) hi m).not.mp (by
          rw [lane_concat, if_pos hturn, List.length_append, List.length_singleton]
          omega)
        rw [List.getElem?_eq_none (by simp; omega), List.getElem?_eq_none (Nat.le_of_not_lt hup)]
    · rename_i hturn
      rw [ih]
      rcases Nat.lt_trichotomy (i + m * W) l.length with h | h | h
      · rw [List.getElem?_append_left h]
      · exact absurd (by rw [← h, Nat.add_mul_mod_self_right, Nat.mod_eq_of_lt hi]) hturn
      · rw [List.getElem?_eq_none (by omega), List.getElem?_eq_none (by simp; omega)]

theorem length_lane_le (hi : i < W) (hj : j < W) :
    (lane W i l).length ≤ (lane W j l).length + 1 := by
  refine Nat.le_of_not_lt fun h => ?_
  have hlt := (lt_length_lane (l := l) hi _).mp h
  have hnot := (lt_length_lane (l := l) hj (lane W j l).length).not.mp (lt_irrefl _)
  rw [Nat.succ_mul] at hlt
  omega

theorem flatMap_update_perm {ι : Type*} [DecidableEq ι] {is : List ι} {r : ι} (f : ι → List α) (a : α)
    (hnodup : is.Nodup) (hr : r ∈ is) :
    (is.flatMap fun i => if r = i then f i ++ [a] else f i).Perm (is.flatMap f ++ [a]) := by
  induction is with
  | nil => simp at hr
  | cons i is ih =>
    rw [List.nodup_cons] at hnodup
    rw [List.flatMap_cons, List.flatMap_cons]
    by_cases h : r = i
    · subst h
      have hrest : is.flatMap (fun i => if r = i then f i ++ [a] else f i) = is.flatMap f := by
        refine congrArg List.flatten (List.map_congr_left fun i hi => if_neg ?_)
        rintro rfl
        exact hnodup.1 hi
      rw [if_pos rfl, hrest, List.append_assoc, List.append_assoc]
      exact List.Perm.append_left _ List.perm_append_comm
    · rw [if_neg h, List.append_assoc]
      refine List.Perm.append_left _ (ih hnodup.2 ?_)
      exact (List.mem_cons.mp hr).resolve_left h

/-- **Every element is dealt to exactly one party, exactly once.** -/
theorem lanes_perm (hW : 0 < W) (l : List α) :
    ((List.range W).flatMap fun i => lane W i l).Perm l := by
  induction l using List.reverseRecOn with
  | nil => simp
  | append_singleton l a ih =>
    simp only [lane_concat]
    refine (flatMap_update_perm _ a List.nodup_range ?_).trans (ih.append_right [a])
    exact List.mem_range.mpr (Nat.mod_lt _ hW)

theorem mem_of_mem_lane (hi : i < W) {a : α} (ha : a ∈ lane W i l) : a ∈ l := by
  refine (lanes_perm (Nat.zero_lt_of_lt hi) l).mem_iff.mp (List.mem_flatMap.mpr ⟨i, ?_, ha⟩)
  exact List.mem_range.mpr hi

section

variable {β : Type*} {f : α → β}

theorem nodup_lanes (hW : 0 < W) (h : (l.map f).Nodup) :
    ((List.range W).flatMap fun i => (lane W i l).map f).Nodup := by
  rw [← List.map_flatMap]
  exact ((lanes_perm hW l).map f).nodup_iff.mpr h

theorem nodup_lane (hi : i < W) (h : (l.map f).Nodup) : ((lane W i l).map f).Nodup :=
  (List.nodup_flatMap.mp (nodup_lanes (Nat.zero_lt_of_lt hi) h)).1 i (List.mem_range.mpr hi)

theorem lane_apart (hi : i < W) (hj : j < W) (h : (l.map f).Nodup) {a b : α} (ha : a ∈ lane W i l)
    (hb : b ∈ lane W j l) (hab : f a = f b) : i = j := by
  obtain ⟨m, hm⟩ := List.mem_iff_getElem?.mp ha
  obtain ⟨n, hn⟩ := List.mem_iff_getElem?.mp hb
  rw [getElem?_lane hi] at hm
  rw [getElem?_lane hj] at hn
  have hlt : i + m * W < (l.map f).length := by
    rw [List.length_map]
    exact (List.getElem?_eq_some_iff.mp hm).1
  have hindex : i + m * W = j + n * W := by
    refine (List.getElem?_inj hlt h).mp ?_
    rw [List.getElem?_map, List.getElem?_map, hm, hn, Option.map_some, Option.map_some, hab]
  have hmod := congrArg (· % W) hindex
  simpa [Nat.mod_eq_of_lt hi, Nat.mod_eq_of_lt hj] using hmod

end

end Lane
