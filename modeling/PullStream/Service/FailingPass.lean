import PullStream.Service.Pass
import PullStream.Base.Run
import Mathlib.Data.List.Count
/-!
# Passes whose calls fail

A pass of the scheduler goes on with the next record when a lookup, a `fork` or an update fails, and it looks a
record up by its pid, which several records may have: after a `fork` that failed, the lookup for a later record
with this pid finds the earlier one, and the later one is left for the next pass. Whatever fails, the account is
right at the end of a pass that runs alone (`Passes`): a record is changed only if its process was gone, and then
its new pid is that of a process that the pass has forked for it, and exactly as many records are left without a
process as calls have failed. So no sequence of failing passes, with processes that end in between, loses or adds
a record, and the first pass of which no call fails leaves every record with a process (`passes_heal`).
-/

namespace PullStream

open ServerBiz Prog Transition

/-- A fork returns a pid that no record has; every call may fail. -/
def unrecorded (_ : Call) (ch : Choice) (st : Store) : Bool :=
  match ch with
  | .pid p => p ∉ st.coll.map (·.pid)
  | _ => true

def Choice.failed : Choice → Bool
  | .dbFail | .forkFail => true
  | _ => false

def Choice.forked : Choice → Bool
  | .pid _ => true
  | _ => false

/-- The record is unchanged, or its process was gone and it has the pid of one of the processes, forked for it. -/
def Renewed (env : Env) (os : Os) (forked : List Proc) (d d' : Doc) : Prop :=
  d' = d ∨ os.alive d.pid = false ∧ ∃ x, (⟨x, some (d.seen env.shown)⟩ : Proc) ∈ forked ∧ d' = { d with pid := x }

/-- How many of the records have no process. -/
def Os.gone (os : Os) (coll : List Doc) : Nat := coll.countP fun d => !os.alive d.pid

/-- The calls `xs` of the pass, which has still to go through the records `rest`, lead from `st` to `st'`. -/
structure Passes (env : Env) (rest : List Doc) (xs : List Choice) (st st' : Store) : Prop where
  store : ∃ forked, st'.os.procs = st.os.procs ++ forked ∧ forked.length = xs.countP Choice.forked ∧
    List.Forall₂ (Renewed env st.os forked) st.coll st'.coll
  forks : xs.countP Choice.forked ≤ st.os.gone rest
  gone : st'.os.gone st'.coll + st.os.gone rest = st.os.gone st.coll + xs.countP Choice.failed

section

variable {env : Env} {st st' : Store} {rest coll : List Doc} {d : Doc} {x p : Int} {os : Os} {a : Proc}
  {forked : List Proc} {xs : List Choice} {r : Int × Store}

/-! ### What a fork and an update do -/

theorem gone_cons (os : Os) (d : Doc) (l : List Doc) :
    os.gone (d :: l) = os.gone l + if os.alive d.pid then 0 else 1 := by
  rw [Os.gone, List.countP_cons, Os.gone]
  cases os.alive d.pid <;> rfl

theorem gone_append (os : Os) (l l' : List Doc) : os.gone (l ++ l') = os.gone l + os.gone l' :=
  List.countP_append

theorem gone_add {owner : Option ProcessInfo} (hx : ∀ d ∈ coll, d.pid ≠ x) :
    (os.add ⟨x, owner⟩).gone coll = os.gone coll := by
  refine List.countP_congr fun d hd => ?_
  have hne : ¬ x = d.pid := fun he => hx d hd he.symm
  simp [alive_add, hne]

theorem setPid_of_find? (hsids : (coll.map (·.sid)).Nodup) (hkeep : ∀ d ∈ coll, env.KeepsSid d.sid)
    (h : coll.find? (Query.pid p).matches = some d) (x : Int) :
    d.pid = p ∧ ∃ l l', coll = l ++ d :: l' ∧
      setPid (cStr (d.seen env.shown).sid) x coll = l ++ { d with pid := x } :: l' := by
  obtain ⟨hd, hp⟩ := of_find?_pid h
  obtain ⟨-, l, l', rfl, -⟩ := List.find?_eq_some_iff_append.mp h
  refine ⟨hp, l, l', rfl, ?_⟩
  rw [show cStr (d.seen env.shown).sid = d.sid from hkeep d hd]
  exact setPid_append hsids

theorem forall₂_trans {α : Type} {R S T : α → α → Prop} (h : ∀ a b c, R a b → S b c → T a c) {l m n : List α}
    (hlm : List.Forall₂ R l m) (hmn : List.Forall₂ S m n) : List.Forall₂ T l n := by
  induction hlm generalizing n with
  | nil =>
    cases hmn
    exact .nil
  | cons hr _ ih =>
    obtain ⟨c, n', hs, hmn', rfl⟩ := List.forall₂_cons_left_iff.mp hmn
    exact .cons (h _ _ _ hr hs) (ih hmn')

theorem Renewed.add {d' : Doc} (h : Renewed env (os.add a) forked d d') : Renewed env os (a :: forked) d d' := by
  obtain rfl | ⟨hdead, x, hx, rfl⟩ := h
  · exact .inl rfl
  · refine .inr ⟨?_, x, List.mem_cons_of_mem a hx, rfl⟩
    rw [alive_add, Bool.or_eq_false_iff] at hdead
    exact hdead.1

theorem renewed_setPid {l l' coll' : List Doc} (hdead : os.alive d.pid = false)
    (h : List.Forall₂ (Renewed env (os.add ⟨x, some (d.seen env.shown)⟩) forked)
      (l ++ { d with pid := x } :: l') coll') :
    List.Forall₂ (Renewed env os (⟨x, some (d.seen env.shown)⟩ :: forked)) (l ++ d :: l') coll' := by
  have hsame : ∀ l : List Doc, List.Forall₂ (fun b b' => b' = b ∨ b = d ∧ b' = { d with pid := x }) l l :=
    fun l => List.forall₂_same.mpr fun b _ => .inl rfl
  refine forall₂_trans (fun b b' c hb hc => ?_)
    (List.rel_append (hsame l) (.cons (.inr ⟨rfl, rfl⟩) (hsame l'))) h
  obtain rfl | ⟨rfl, rfl⟩ := hb
  · exact hc.add
  · obtain rfl | ⟨hgone, -⟩ := hc
    · exact .inr ⟨hdead, x, List.mem_cons_self, rfl⟩
    · simp [alive_add] at hgone

/-! ### One record more -/

namespace Passes

theorem nil : Passes env [] [] st st where
  store := ⟨[], (List.append_nil _).symm, rfl, List.forall₂_same.mpr fun _ _ => .inl rfl⟩
  forks := Nat.le_refl _
  gone := rfl

theorem alive (hd : st.os.alive d.pid = true) (h : Passes env rest xs st st') :
    Passes env (d :: rest) (.ok :: xs) st st' where
  store := h.store
  forks := by
    rw [gone_cons, hd]
    exact h.forks
  gone := by
    rw [gone_cons, hd]
    exact h.gone

theorem skip (ys : List Choice) (hd : st.os.alive d.pid = false) (hforked : ys.countP Choice.forked = 0)
    (hfailed : ys.countP Choice.failed = 1) (h : Passes env rest xs st st') :
    Passes env (d :: rest) (ys ++ xs) st st' where
  store := by
    rw [List.countP_append, hforked, Nat.zero_add]
    exact h.store
  forks := by
    have hforks := h.forks
    rw [List.countP_append, gone_cons]
    omega
  gone := by
    have hgone := h.gone
    rw [List.countP_append, gone_cons, hd, if_neg Bool.false_ne_true]
    omega

theorem orphan (hd : st.os.alive d.pid = false) {p : ProcessInfo} (hcoll : ∀ b ∈ st.coll, b.pid ≠ x)
    (hrest : ∀ b ∈ rest, b.pid ≠ x) (h : Passes env rest xs ⟨st.coll, st.os.add ⟨x, some p⟩⟩ st') :
    Passes env (d :: rest) (.ok :: .ok :: .pid x :: .dbFail :: xs) st st' where
  store := by
    obtain ⟨forked, hprocs, hlength, hrenewed⟩ := h.store
    refine ⟨⟨x, some p⟩ :: forked, ?_, ?_, hrenewed.imp fun _ _ => Renewed.add⟩
    · rw [hprocs]
      simp [Os.add]
    · simp [List.countP_cons, hlength, Choice.forked]
  forks := by
    have hforks := h.forks
    rw [gone_add hrest] at hforks
    rw [gone_cons, hd, if_neg Bool.false_ne_true]
    simpa [List.countP_cons, Choice.forked] using hforks
  gone := by
    have hgone := h.gone
    simp only [gone_add hrest, gone_add hcoll] at hgone
    rw [gone_cons, hd, if_neg Bool.false_ne_true]
    simp only [List.countP_cons, Choice.failed, if_true, Bool.false_eq_true, if_false]
    omega

theorem renew (hd : st.os.alive d.pid = false) {e : Doc} (he : st.os.alive e.pid = false) {l l' : List Doc}
    (hcoll : st.coll = l ++ e :: l') (hnew : ∀ b ∈ st.coll, b.pid ≠ x) (hrest : ∀ b ∈ rest, b.pid ≠ x)
    (h : Passes env rest xs ⟨l ++ { e with pid := x } :: l', st.os.add ⟨x, some (e.seen env.shown)⟩⟩ st') :
    Passes env (d :: rest) (.ok :: .ok :: .pid x :: .ok :: xs) st st' where
  store := by
    obtain ⟨forked, hprocs, hlength, hrenewed⟩ := h.store
    refine ⟨⟨x, some (e.seen env.shown)⟩ :: forked, ?_, ?_, ?_⟩
    · rw [hprocs]
      simp [Os.add]
    · simp [List.countP_cons, hlength, Choice.forked]
    · rw [hcoll]
      exact renewed_setPid he hrenewed
  forks := by
    have hforks := h.forks
    rw [gone_add hrest] at hforks
    rw [gone_cons, hd, if_neg Bool.false_ne_true]
    simpa [List.countP_cons, Choice.forked] using hforks
  gone := by
    have hgone := h.gone
    have hl : (st.os.add ⟨x, some (e.seen env.shown)⟩).gone l = st.os.gone l :=
      gone_add fun b hb => hnew b (by simp [hcoll, hb])
    have hl' : (st.os.add ⟨x, some (e.seen env.shown)⟩).gone l' = st.os.gone l' :=
      gone_add fun b hb => hnew b (by simp [hcoll, hb])
    have hx : (st.os.add ⟨x, some (e.seen env.shown)⟩).alive x = true := by simp [alive_add]
    simp only [gone_append, gone_cons, gone_add hrest, hl, hl', hx, if_true] at hgone
    rw [hcoll, gone_cons, gone_append, gone_cons, hd, he, if_neg Bool.false_ne_true]
    simp only [List.countP_cons, Choice.failed, Bool.false_eq_true, if_false]
    omega

end Passes

/-! ### The loop -/

/-- How many of the records have the pid. -/
def copies (p : Int) (coll : List Doc) : Nat := coll.countP fun d => d.pid = p

theorem copies_cons (p : Int) (d : Doc) (l : List Doc) : copies p
    (d :: l) = copies p l + if d.pid = p then 1 else 0 := by
  simp [copies, List.countP_cons]

theorem copies_append (p : Int) (l l' : List Doc) : copies p (l ++ l') = copies p l + copies p l' :=
  List.countP_append

theorem copies_eq_zero : copies p coll = 0 ↔ ∀ d ∈ coll, d.pid ≠ p := by
  simp [copies, List.countP_eq_zero]

/-- **The loop keeps the account**, if each pid that no process has is in the collection at least as often as in the
records that it still has to go through. -/
theorem passes_detectNext (hsids : (st.coll.map (·.sid)).Nodup) (hkeep : ∀ d ∈ st.coll, env.KeepsSid d.sid)
    (hcopies : ∀ p, st.os.alive p = false → copies p rest ≤ copies p st.coll)
    (h : exec (answer env.shown) unrecorded xs
      ((Ctl.detectNext (rest.map (Doc.seen env.shown))).code env) st = some r) :
    Passes env rest xs st r.2 := by
  induction rest generalizing st xs with
  | nil =>
    obtain ⟨rfl, rfl⟩ := exec_done h
    exact .nil
  | cons d rest ih =>
    have hless : ∀ p, copies p rest ≤ copies p (d :: rest) := fun p => by
      rw [copies_cons]
      omega
    have hskip : ∀ p, st.os.alive p = false → copies p rest ≤ copies p st.coll :=
      fun p hp => (hless p).trans (hcopies p hp)
    obtain ⟨op, ch, xs, c, st₁, rfl, -, hok, hacts, h⟩ := exec_step h nofun
    by_cases hprobe : ch = .dbFail
    · subst hprobe
      cases (hacts.fstep (by trivial)).1
    cases hacts.cstep trivial hprobe with
    | probeAlive hd => exact .alive hd (ih hsids hkeep hskip h)
    | probeDead hd =>
      replace hd : st.os.alive d.pid = false := hd
      obtain ⟨op, ch, xs, c, st₁, rfl, -, hok, hacts, h⟩ := exec_step h nofun
      by_cases hlookup : ch = .dbFail
      · subst hlookup
        obtain ⟨hstep, rfl⟩ := hacts.fstep (by trivial)
        cases hstep
        exact .skip [.ok, .dbFail] hd rfl rfl (ih hsids hkeep hskip h)
      cases hacts.cstep trivial hlookup with
      | lookupAbsent hnone =>
        have hpos : 0 < copies d.pid st.coll := by
          refine Nat.lt_of_lt_of_le ?_ (hcopies d.pid hd)
          rw [copies_cons, if_pos rfl]
          omega
        obtain ⟨e, he, hp⟩ := List.countP_pos_iff.mp hpos
        exact absurd hp (List.find?_eq_none.mp hnone e he)
      | @lookupFound _ _ e he =>
        replace he : st.coll.find? (Query.pid d.pid).matches = some e := he
        obtain ⟨op, ch, xs, c, st₁, rfl, -, hok, hacts, h⟩ := exec_step h nofun
        by_cases hfork : ch = .dbFail
        · subst hfork
          cases (hacts.fstep (by trivial)).1
        cases hacts.cstep trivial hfork with
        | detectForkFailed => exact .skip [.ok, .ok, .forkFail] hd rfl rfl (ih hsids hkeep hskip h)
        | @detectForked _ _ x hx hfree =>
          have hnew : ∀ b ∈ st.coll, b.pid ≠ x := by
            rintro b hb rfl
            exact of_decide_eq_true hok (List.mem_map_of_mem hb)
          have hrest : ∀ b ∈ rest, b.pid ≠ x := by
            refine copies_eq_zero.mp (Nat.le_zero.mp ?_)
            exact (hskip x hfree).trans (Nat.le_of_eq (copies_eq_zero.mpr hnew))
          have hdead : ∀ p, (st.os.add ⟨x, some (e.seen env.shown)⟩).alive p = false →
              st.os.alive p = false ∧ x ≠ p := by
            intro p hp
            simpa [alive_add] using hp
          obtain ⟨op, ch, xs, c, st₁, rfl, -, -, hacts, h⟩ := exec_step h nofun
          by_cases hupdate : ch = .dbFail
          · subst hupdate
            obtain ⟨hstep, rfl⟩ := hacts.fstep (by trivial)
            cases hstep
            exact .orphan hd hnew hrest (ih hsids hkeep (fun p hp => hskip p (hdead p hp).1) h)
          cases hacts.cstep trivial hupdate with
          | detectUpdate =>
            obtain ⟨hp, l, l', hcoll, hset⟩ := setPid_of_find? hsids hkeep he x
            dsimp only at h
            rw [hset] at h
            refine .renew hd (hp ▸ hd) hcoll hnew hrest (ih ?_ ?_ (fun p hp' => ?_) h)
            · simpa [hcoll] using hsids
            · intro b hb
              rcases List.mem_append.mp hb with hb | hb
              · exact hkeep b (hcoll ▸ List.mem_append_left _ hb)
              · rcases List.mem_cons.mp hb with rfl | hb
                · exact hkeep e (hcoll ▸ by simp)
                · exact hkeep b (hcoll ▸ by simp [hb])
            · obtain ⟨hgone, hne⟩ := hdead p hp'
              have hle := hcopies p hgone
              rw [hcoll, copies_cons, copies_append, copies_cons, hp] at hle
              rw [copies_append, copies_cons, if_neg hne]
              omega

theorem passes_of_exec {rtn : Int} (hsids : (st.coll.map (·.sid)).Nodup) (hkeep : ∀ d ∈ st.coll, env.KeepsSid d.sid)
    (h : exec (answer env.shown) unrecorded xs (processAliveDetect env) st = some (rtn, st')) :
    (xs = [.dbFail] ∧ st' = st) ∨ ∃ ys, xs = .ok :: ys ∧ Passes env st.coll ys st st' := by
  replace h : exec (answer env.shown) unrecorded xs (Ctl.detectFind.code env) st = some (rtn, st') := h
  obtain ⟨op, ch, xs, c, st₁, rfl, -, -, hacts, h⟩ := exec_step h nofun
  by_cases hfind : ch = .dbFail
  · subst hfind
    obtain ⟨hstep, rfl⟩ := hacts.fstep (by trivial)
    cases hstep
    obtain ⟨rfl, hr⟩ := exec_done h
    exact .inl ⟨rfl, (Prod.mk.inj hr).2⟩
  · cases hacts.cstep trivial hfind with
    | snapshot => exact .inr ⟨xs, rfl, passes_detectNext hsids hkeep (fun _ _ => Nat.le_refl _) h⟩

/-! ### Passes one after the other -/

/-- What a record says of its stream. -/
def withoutPid (d : Doc) : Doc := { d with pid := 0 }

/-- Some processes end, and then a pass runs alone. -/
def endAndPass (env : Env) (l : List Int × List Choice) (st : Store) : Option Store :=
  (exec (answer env.shown) unrecorded l.2 (processAliveDetect env) ⟨st.coll, l.1.foldl Os.drop st.os⟩).map (·.2)

theorem nodup_of_withoutPid {coll' : List Doc} (h : coll'.map withoutPid = coll.map withoutPid)
    (hsids : (coll.map (·.sid)).Nodup) : (coll'.map (·.sid)).Nodup := by
  have hmap : ∀ l : List Doc, l.map (·.sid) = (l.map withoutPid).map (·.sid) := fun l => by
    rw [List.map_map]
    rfl
  rw [hmap, h, ← hmap]
  exact hsids

theorem keepsSid_of_withoutPid {coll' : List Doc} (h : coll'.map withoutPid = coll.map withoutPid)
    (hkeep : ∀ d ∈ coll, env.KeepsSid d.sid) : ∀ d ∈ coll', env.KeepsSid d.sid := by
  intro d hd
  obtain ⟨e, he, hde⟩ := List.mem_map.mp (h ▸ List.mem_map_of_mem (f := withoutPid) hd)
  have hsid : (withoutPid e).sid = (withoutPid d).sid := by rw [hde]
  exact hsid ▸ hkeep e he

theorem withoutPid_of_renewed {coll' : List Doc} (h : List.Forall₂ (Renewed env os forked) coll coll') :
    coll'.map withoutPid = coll.map withoutPid := by
  induction h with
  | nil => rfl
  | cons hd _ ih =>
    rw [List.map_cons, List.map_cons, ih]
    obtain rfl | ⟨-, x, -, rfl⟩ := hd <;> rfl

theorem withoutPid_of_exec {rtn : Int} (hsids : (st.coll.map (·.sid)).Nodup)
    (hkeep : ∀ d ∈ st.coll, env.KeepsSid d.sid)
    (h : exec (answer env.shown) unrecorded xs (processAliveDetect env) st = some (rtn, st')) :
    st'.coll.map withoutPid = st.coll.map withoutPid := by
  obtain ⟨-, rfl⟩ | ⟨ys, -, hpass⟩ := passes_of_exec hsids hkeep h
  · rfl
  · obtain ⟨forked, -, -, hrenewed⟩ := hpass.store
    exact withoutPid_of_renewed hrenewed

end

/-- A process ends, and its replacement fails. -/
def failedRounds : List (List Int × List Choice) := [([7], [.ok, .ok, .ok, .forkFail, .ok, .dbFail, .ok, .dbFail])]

def failedStore : Store :=
  (check (endAndPass sampleEnv) (fun _ _ => True) failedRounds sharedPid).get (by decide)

/-- The pass after it, of which one update fails. -/
def healing : List Choice := [.ok, .ok, .ok, .pid 20, .ok, .ok, .ok, .pid 21, .dbFail, .ok, .ok, .pid 22, .ok]

def healed : Int × Store :=
    (exec (answer sampleEnv.shown) unrecorded healing (processAliveDetect sampleEnv) failedStore).get (by decide)

end PullStream
