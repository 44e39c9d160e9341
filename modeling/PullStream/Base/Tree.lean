import Mathlib.Data.List.Induction
/-!
# Paths in a tree of directories

A path leads from directory to directory. It is divided at its separators into names: the empty name and that of one dot
stay in a directory, that of two dots leads back to the one above, and every other name to the directory that is
entered under it. The last name is that of a file, and whether there is one does not matter (`locate`).

* `splitOn_closed`: the names of a path behind a prefix that ends with a separator;
* `walk_append` and `walk_up`: into a directory and back;
* `locate_up_iff`: a path that enters a directory and goes back leads to where the path without the two names does,
  in every tree in which that directory exists, exactly if it is entered from a prefix that ends with a separator.
-/

namespace FileTree

variable {α N : Type}

/-- A directory is entered from one directory only. -/
structure Tree (α N : Type) where
  root : N
  child : N → List α → Option N
  parent : N → N
  parent_child : ∀ {d n d'}, child d n = some d' → parent d' = d

/-- The prefix of a path is empty, or it ends with a separator. -/
def Closed (sep : α) (p : List α) : Prop := p = [] ∨ p.getLast? = some sep

/-- A name that is no dots, and stays none whatever is put before it. -/
def Ordinary (sep dot : α) (n : List α) : Prop := sep ∉ n ∧ ∃ x ∈ n, x ≠ dot

section

variable {sep dot : α} {p c n : List α}

theorem closed_append_iff (hc : sep ∉ c) : Closed sep (p ++ c) ↔ Closed sep p ∧ c = [] := by
  cases hnil : c.getLast? with
  | none =>
    obtain rfl := List.getLast?_eq_none_iff.mp hnil
    simp
  | some x =>
    obtain ⟨c, rfl⟩ := List.getLast?_eq_some_iff.mp hnil
    have hx : x ≠ sep := fun h => hc (h ▸ List.mem_append_right _ (List.mem_singleton_self x))
    rw [← List.append_assoc]
    simp [Closed, hx]

theorem Ordinary.append (hc : sep ∉ c) (hn : Ordinary sep dot n) : Ordinary sep dot (c ++ n) := by
  obtain ⟨hsep, x, hx, hdot⟩ := hn
  refine ⟨fun h => ?_, x, List.mem_append_right _ hx, hdot⟩
  rcases List.mem_append.mp h with h | h
  · exact hc h
  · exact hsep h

theorem Ordinary.ne_nil (hn : Ordinary sep dot n) : n ≠ [] := by
  obtain ⟨-, x, hx, -⟩ := hn
  rintro rfl
  cases hx

theorem Ordinary.head (hn : Ordinary sep dot n) (q : List α) : (n ++ q).head? ≠ some sep := by
  obtain ⟨x, n, rfl⟩ := List.exists_cons_of_ne_nil hn.ne_nil
  intro h
  obtain rfl := Option.some.inj h
  exact hn.1 List.mem_cons_self

end

section

variable [DecidableEq α] {sep dot : α} {t : Tree α N} {cwd d d' : N} {p b c n m q file : List α} {ns ms : List (List α)}

namespace Tree

def step (t : Tree α N) (dot : α) (d : N) (n : List α) : Option N :=
  if n = [] ∨ n = [dot] then some d else if n = [dot, dot] then some (t.parent d) else t.child d n

def walk (t : Tree α N) (dot : α) (d : N) (ns : List (List α)) : Option N := ns.foldlM (t.step dot) d

/-- Where a path begins. -/
def start (t : Tree α N) (sep : α) (cwd : N) (path : List α) : N := if path.head? = some sep then t.root else cwd

/-- The directory that a path leads to, all of its names being those of directories. -/
def enter (t : Tree α N) (sep dot : α) (cwd : N) (path : List α) : Option N :=
  t.walk dot (t.start sep cwd path) (path.splitOn sep)

/-- The directory and the name of a file. -/
def locate (t : Tree α N) (sep dot : α) (cwd : N) (path : List α) : Option (N × List α) :=
  (t.walk dot (t.start sep cwd path) (path.splitOn sep).dropLast).map fun d => (d, (path.splitOn sep).getLastD [])

end Tree

/-! ### Names -/

instance : Decidable (Closed sep p) := inferInstanceAs (Decidable (p = [] ∨ p.getLast? = some sep))

theorem exists_closed (sep : α) (b : List α) : ∃ p c, b = p ++ c ∧ Closed sep p ∧ sep ∉ c := by
  induction b using List.reverseRecOn with
  | nil => exact ⟨[], [], rfl, .inl rfl, List.not_mem_nil⟩
  | append_singleton b x ih =>
    obtain ⟨p, c, rfl, hp, hc⟩ := ih
    by_cases hx : x = sep
    · exact ⟨p ++ c ++ [x], [], (List.append_nil _).symm, .inr (by simp [hx]), List.not_mem_nil⟩
    · refine ⟨p, c ++ [x], List.append_assoc .., hp, ?_⟩
      simpa [hc] using Ne.symm hx

theorem splitOn_closed (hp : Closed sep p) (q : List α) :
    (p ++ q).splitOn sep = (p.splitOn sep).dropLast ++ q.splitOn sep := by
  rcases hp with rfl | hp
  · rw [List.splitOn_nil]
    rfl
  · obtain ⟨p, rfl⟩ := List.getLast?_eq_some_iff.mp hp
    rw [List.append_assoc, List.singleton_append, List.splitOn_append_cons_self, List.splitOn_append_cons_self,
      List.splitOn_nil, List.dropLast_concat]

namespace Ordinary

theorem step (hn : Ordinary sep dot n) (t : Tree α N) (d : N) : t.step dot d n = t.child d n := by
  obtain ⟨-, x, hx, hdot⟩ := id hn
  have hdots {l : List α} (h : ∀ y ∈ l, y = dot) : n ≠ l := fun heq => hdot (h x (heq ▸ hx))
  rw [Tree.step, if_neg, if_neg (hdots (by simp))]
  rintro (h | h)
  · exact hn.ne_nil h
  · exact hdots (by simp) h

end Ordinary

/-! ### Walks -/

theorem walk_append : t.walk dot d (ns ++ ms) = (t.walk dot d ns).bind fun d' => t.walk dot d' ms := by
  induction ns generalizing d with
  | nil => rfl
  | cons n ns ih =>
    rw [Tree.walk, List.cons_append, List.foldlM_cons, Tree.walk, List.foldlM_cons]
    cases t.step dot d n with
    | none => rfl
    | some d' => exact ih

theorem walk_cons : t.walk dot d (n :: ns) = (t.step dot d n).bind fun d' => t.walk dot d' ns := rfl

theorem walk_up (hn : Ordinary sep dot n) (hd : (t.step dot d n).isSome) (ns : List (List α)) :
    t.walk dot d (n :: [dot, dot] :: ns) = t.walk dot d ns := by
  obtain ⟨d', hd'⟩ := Option.isSome_iff_exists.mp hd
  have hchild : t.child d n = some d' := (hn.step t d).symm.trans hd'
  have hup : t.step dot d' [dot, dot] = some d := by
    rw [Tree.step, if_neg (by simp), if_pos rfl, t.parent_child hchild]
  rw [walk_cons, hd', Option.bind_some, walk_cons, hup, Option.bind_some]

theorem locate_names {path : List α} (h : path.splitOn sep = ns ++ [file]) :
    t.locate sep dot cwd path = (t.walk dot (t.start sep cwd path) ns).map fun d => (d, file) := by
  rw [Tree.locate, h, List.dropLast_concat, List.getLastD_concat]

theorem start_append (t : Tree α N) (cwd : N) {q q' : List α} (hq : q.head? ≠ some sep) (hq' : q'.head? ≠ some sep) :
    t.start sep cwd (b ++ q) = t.start sep cwd (b ++ q') := by
  cases b with
  | nil => exact (if_neg hq).trans (if_neg hq').symm
  | cons x b => rfl

/-! ### The free tree -/

/-- Every directory has all directories in it. -/
def free (α : Type) : Tree α (List (List α)) where
  root := []
  child d n := some (n :: d)
  parent d := d.tail
  parent_child h := by rw [← Option.some.inj h, List.tail_cons]

theorem walk_free (d : List (List α)) (ns : List (List α)) : ∃ d', (free α).walk dot d ns = some d' := by
  induction ns generalizing d with
  | nil => exact ⟨d, rfl⟩
  | cons n ns ih =>
    have hstep : ∃ d', (free α).step dot d n = some d' := by
      unfold Tree.step
      split_ifs
      · exact ⟨_, rfl⟩
      · exact ⟨_, rfl⟩
      · exact ⟨_, rfl⟩
    obtain ⟨d', hd'⟩ := hstep
    rw [walk_cons, hd', Option.bind_some]
    exact ih d'

/-! ### Entering a directory and going back -/

/-- The path that enters the directory `n` behind `b`, goes back, and on to `q`. -/
def upPath (sep dot : α) (b n q : List α) : List α := b ++ n ++ sep :: dot :: dot :: sep :: q

theorem splitOn_upPath (hp : Closed sep p) (hc : sep ∉ c) (hdot : dot ≠ sep) (hn : Ordinary sep dot n) :
    (upPath sep dot (p ++ c) n q).splitOn sep =
      (p.splitOn sep).dropLast ++ (c ++ n) :: [dot, dot] :: q.splitOn sep := by
  have hcn : sep ∉ c ++ n := (hn.append hc).1
  have hdots : sep ∉ [dot, dot] := by simpa using hdot.symm
  rw [upPath, List.append_assoc p c n, List.append_assoc, splitOn_closed hp,
    List.splitOn_append_cons_self_of_not_mem hcn]
  exact congrArg (fun ns => (p.splitOn sep).dropLast ++ (c ++ n) :: ns)
    (List.splitOn_append_cons_self_of_not_mem hdots q)

theorem locate_up (hb : Closed sep b) (hdot : dot ≠ sep) (hn : Ordinary sep dot n) (hq : q.head? ≠ some sep)
    (hentered : (t.enter sep dot cwd (b ++ n)).isSome) :
    t.locate sep dot cwd (upPath sep dot b n q) = t.locate sep dot cwd (b ++ q) := by
  obtain ⟨ns, file, hns⟩ := (List.eq_nil_or_concat (q.splitOn sep)).resolve_left (List.splitOn_ne_nil sep q)
  have hup : (upPath sep dot b n q).splitOn sep = ((b.splitOn sep).dropLast ++ n :: [dot, dot] :: ns) ++ [file] := by
    have h := splitOn_upPath (c := []) (q := q) hb List.not_mem_nil hdot hn
    rw [List.append_nil, List.nil_append, hns] at h
    simpa using h
  have hplain : (b ++ q).splitOn sep = ((b.splitOn sep).dropLast ++ ns) ++ [file] := by
    rw [splitOn_closed hb, hns, List.append_assoc, List.concat_eq_append]
  have hstart : t.start sep cwd (upPath sep dot b n q) = t.start sep cwd (b ++ q) := by
    rw [upPath, List.append_assoc]
    exact start_append t cwd (hn.head _) hq
  rw [locate_names hup, locate_names hplain, hstart, walk_append, walk_append]
  rw [Tree.enter, splitOn_closed hb, List.splitOn_eq_singleton hn.1, walk_append,
    start_append t cwd (n.append_nil ▸ hn.head []) hq] at hentered
  cases hd : t.walk dot (t.start sep cwd (b ++ q)) (b.splitOn sep).dropLast with
  | none => rfl
  | some d =>
    rw [hd, Option.bind_some, walk_cons] at hentered
    rw [Option.bind_some, Option.bind_some, walk_up hn (Option.isSome_of_isSome_bind hentered)]

/-- **Going back leads to the same place** in every tree exactly if what is before the name ends with a separator. -/
theorem locate_up_iff (hdot : dot ≠ sep) (hn : Ordinary sep dot n) (hm : Ordinary sep dot m) (hfile : sep ∉ file) :
    (∀ (N : Type) (t : Tree α N) (cwd : N), (t.enter sep dot cwd (b ++ n)).isSome →
      t.locate sep dot cwd (upPath sep dot b n (m ++ sep :: file)) = t.locate sep dot cwd (b ++ (m ++ sep :: file))) ↔
    Closed sep b := by
  refine ⟨fun h => ?_, fun hb N t cwd => locate_up hb hdot hn (hm.head _)⟩
  obtain ⟨p, c, rfl, hp, hc⟩ := exists_closed sep b
  have hup : (upPath sep dot (p ++ c) n (m ++ sep :: file)).splitOn sep =
      ((p.splitOn sep).dropLast ++ (c ++ n) :: [dot, dot] :: [m]) ++ [file] := by
    rw [splitOn_upPath hp hc hdot hn, List.splitOn_append_cons_self_of_not_mem hm.1, List.splitOn_eq_singleton hfile]
    simp
  have hplain : (p ++ c ++ (m ++ sep :: file)).splitOn sep = ((p.splitOn sep).dropLast ++ [c ++ m]) ++ [file] := by
    rw [List.append_assoc, splitOn_closed hp, ← List.append_assoc c,
      List.splitOn_append_cons_self_of_not_mem (hm.append hc).1, List.splitOn_eq_singleton hfile]
    simp
  have hplaces := h _ (free α) [] (Option.isSome_iff_exists.mpr (walk_free _ _))
  have hstart : (free α).start sep [] (upPath sep dot (p ++ c) n (m ++ sep :: file)) =
      (free α).start sep [] (p ++ c ++ (m ++ sep :: file)) := by
    rw [upPath, List.append_assoc]
    exact start_append _ _ (hn.head _) (hm.head _)
  obtain ⟨d, hd⟩ := @walk_free _ _ dot ((free α).start sep [] (p ++ c ++ (m ++ sep :: file)))
    (p.splitOn sep).dropLast
  rw [locate_names hup, locate_names hplain, hstart, walk_append, walk_append, hd, Option.bind_some, Option.bind_some,
    walk_up (hn.append hc) (by rw [(hn.append hc).step]; rfl), walk_cons, walk_cons, hm.step, (hm.append hc).step]
    at hplaces
  -- In the free tree the two directories have different names unless `c` is empty.
  have hname : m :: d = (c ++ m) :: d := congrArg Prod.fst (Option.some.inj hplaces)
  exact (closed_append_iff hc).mpr ⟨hp, List.append_left_eq_self.mp (List.cons.inj hname).1.symm⟩

end

end FileTree
