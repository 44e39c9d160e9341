import PullStream.App.Driver
/-!
# Sessions with the driver do what the calls do

`carryOut c` makes one operation that reaches the server, and that does to the documents what `c` does to the records;
only a query that is answered in more than one batch is not over then (`Level.carries`). Whatever the session makes and
destroys besides is its own: what the thread had before is there again when it is over, and no client and no collection
has been added (`Grows`). A cursor is never destroyed, and neither is the document that an update is given.
-/

namespace PullStream

open Descriptors Level Prog

/-! ### Documents and records -/

section

variable {d : Doc} {q : Query}

/-- The query that is built for `q`. -/
def Query.bson : Query → Bson
  | .all => []
  | .sid s => [("sid", .scalar (.utf8 s))]
  | .pid p => [("pid", .scalar (.int32 p))]
  | .ppidNe p => [("ppid", .document [("$ne", .int32 p)])]

theorem selects_bson (q : Query) (d : Doc) : q.bson.selects d.bson = q.matches d := by
  cases q <;> simp [Query.bson, Bson.selects, BsonValue.accepts, Query.matches, Doc.bson, List.lookup_cons, eq_comm]

theorem update_bson (d : Doc) (p : Int) :
    Bson.update [("$set", .document [("pid", .int32 p)])] d.bson = Doc.bson { d with pid := p } := rfl

theorem text_bson (shown : String → Str → Str) (d : Doc) : d.bson.text shown = d.text shown := by
  refine congrArg some (funext fun name => congrArg Except.ok ?_)
  show BsonValue.json shown name (d.bson.lookup name) = _
  split
  case h_9 hsid hpid hppid hsrc hdest htype hstatus hhost =>
    have hnone : d.bson.lookup name = none := by
      rw [List.lookup_eq_none_iff]
      simp_all [Doc.bson]
    rw [hnone]
    rfl
  all_goals rfl

end

/-! ### The objects of a thread -/

def DriverObj.isHandle : DriverObj → Bool
  | .client _ | .collection _ _ _ => true
  | _ => false

/-- All objects are still there as they were, and no client and no collection has been added. -/
structure Grows (m m' : DriverMem) : Prop where
  old : ∀ p o, m.get p = some o → m'.get p = some o
  new : ∀ p o, o.isHandle = true → m'.get p = some o → m.get p = some o

section

variable {m₀ m m' : DriverMem} {p b child : Nat} {o o' : DriverObj} {doc : Bson}

theorem get_put (h : m.get p = some o') (o : DriverObj) (q : Nat) :
    (m.put p o).get q = if q = p then some o else m.get q := Table.get_set h o q

theorem get_put_self (h : m.get p = some o') (o : DriverObj) : (m.put p o).get p = some o := by
  rw [get_put h, if_pos rfl]

theorem get_put_ne (h : m.get p = some o') {q : Nat} (hq : q ≠ p) : (m.put p o).get q = m.get q := by
  rw [get_put h, if_neg hq]

theorem ne_lowest (h : m.get p = some o) : p ≠ Table.lowest m := by
  rintro rfl
  rw [Table.get_lowest] at h
  cases h

theorem get_alloc_self (m : DriverMem) (o : DriverObj) : Table.get (Table.alloc o m) (Table.lowest m) = some o := by
  rw [Table.get_alloc, if_pos rfl]

theorem get_alloc_of_some (h : m.get p = some o) (o' : DriverObj) : Table.get (Table.alloc o' m) p = some o := by
  rw [Table.get_alloc, if_neg (ne_lowest h), h]

theorem bsonAt_of_get (h : m.get b = some (.bson doc none)) : m.bsonAt b = some doc := by
  rw [DriverMem.bsonAt, h]

namespace Grows

theorem refl (m : DriverMem) : Grows m m := ⟨fun _ _ => id, fun _ _ _ => id⟩

theorem trans {m'' : DriverMem} (h : Grows m m') (h' : Grows m' m'') : Grows m m'' :=
  ⟨fun p o ho => h'.old p o (h.old p o ho), fun p o hh ho => h.new p o hh (h'.new p o hh ho)⟩

theorem free (h : Grows m₀ m) (hp : m.get p = none) : m₀.get p = none := by
  cases ho : m₀.get p with
  | none => rfl
  | some o => exact absurd (hp.symm.trans (h.old p o ho)) (Option.some_ne_none o).symm

theorem lowest (h : Grows m₀ m) : m₀.get (Table.lowest m) = none := h.free (Table.get_lowest m)

theorem alloc (h : Grows m₀ m) (ho : o.isHandle = false) : Grows m₀ (Table.alloc o m) where
  old p o' hp := get_alloc_of_some (h.old p o' hp) o
  new p o' hh hp := by
    rw [Table.get_alloc] at hp
    split_ifs at hp with hl
    · cases hp
      exact absurd (hh.symm.trans ho) Bool.false_ne_true.symm
    · exact h.new p o' hh hp

theorem put (h : Grows m₀ m) (hp : m.get p = some o') (hnew : m₀.get p = none) (ho : o.isHandle = false) :
    Grows m₀ (m.put p o) where
  old q a hq := by
    rw [get_put_ne hp]
    · exact h.old q a hq
    · rintro rfl
      exact absurd (hnew.symm.trans hq) (Option.some_ne_none a).symm
  new q a ha hq := by
    rw [get_put hp] at hq
    split_ifs at hq with hl
    · cases hq
      exact absurd (ha.symm.trans ho) Bool.false_ne_true.symm
    · exact h.new q a ha hq

theorem close (h : Grows m₀ m) (hnew : m₀.get p = none) : Grows m₀ (Table.close m p) where
  old q a hq := by
    rw [Table.get_close, if_neg]
    · exact h.old q a hq
    · rintro rfl
      exact absurd (hnew.symm.trans hq) (Option.some_ne_none a).symm
  new q a ha hq := by
    rw [Table.get_close] at hq
    split_ifs at hq
    exact h.new q a ha hq

theorem bsonAt (h : Grows m m') (hb : m.get b = some (.bson doc none)) : m'.bsonAt b = some doc :=
  bsonAt_of_get (h.old b _ hb)

theorem clientAt (h : Grows m m') {addr : Str} (hp : m.clientAt p = some addr) : m'.clientAt p = some addr := by
  unfold DriverMem.clientAt at hp ⊢
  split at hp
  · rename_i a ha
    rw [h.old p _ ha]
    exact hp
  · cases hp

theorem collectionAt (h : Grows m m') {x : Nat × String × String} (hp : m.collectionAt p = some x) :
    m'.collectionAt p = some x := by
  unfold DriverMem.collectionAt at hp ⊢
  split at hp
  · rename_i client db tb ha
    obtain ⟨addr, haddr, rfl⟩ := Option.map_eq_some_iff.mp hp
    rw [h.old p _ ha]
    exact Option.map_eq_some_iff.mpr ⟨addr, h.clientAt haddr, rfl⟩
  · cases hp

end Grows

end

/-! ### The two levels -/

/-- The calls, and the sessions that carry them out. A batch is a part of a query. -/
def driverLevel (shown : String → Str → Str) (addr : Str) :
    Level Call Reply DriverOp ServerOp DriverReply ServerReply DriverMem Backend Store (Choice ⊕ Batch) where
  own := driverOwn shown
  shared := serverAnswer shown
  part := Sum.isRight
  answer c x st :=
    match x with
    | .inl ch => answer shown c ch st
    | .inr _ => none
  rep w st := w.docs Driver.database Driver.collectionProcess = st.coll.map Doc.bson ∧ w.os = st.os
  idle m := ∀ p o, m.get p = some o → o.isHandle = false
  ends op := op = .assertFail
  endsCall c := c = .assertFail
  impl := Driver.carryOut addr

namespace Driver

section

variable {shown : String → Str → Str} {addr : Str} {α β : Type} {m₀ m : DriverMem} {b query : Nat} {doc : Bson}

theorem settles_own {op : DriverOp} {f : DriverReply op → DriverAct α} {Q : α → DriverMem → Prop}
    {y : DriverReply op × DriverMem} (hy : driverOwn shown op m = some y)
    (h : settles (driverOwn shown) Q (f y.1) y.2) : settles (driverOwn shown) Q (own op >>= f) m :=
  ⟨y, hy, h⟩

theorem driverOwn_append (hb : m.get b = some (.bson doc none)) (key : String) (x : Scalar) :
    driverOwn shown (.append b key x) m = some ((), m.put b (.bson (doc ++ [(key, .scalar x)]) none)) := by
  simp [driverOwn, bsonAt_of_get hb]

theorem driverOwn_bsonDestroy (hb : m.bsonAt b = some doc) : driverOwn shown (.bsonDestroy b) m = some
    ((), m.close b) := by
  simp [driverOwn, hb]

theorem settles_appendSub {key sub : String} {x : Scalar} (hg : Grows m₀ m) (hb : m.get b = some (.bson doc none))
    (hnew : m₀.get b = none) : settles (driverOwn shown) (fun child m' => Grows m₀ m' ∧ m₀.get child = none ∧
      child ≠ b ∧ m'.get child = some (.bson [(sub, .scalar x)] none) ∧
      m'.get b = some (.bson (doc ++ [(key, .document [(sub, x)])]) none)) (appendSub b key sub x) m := by
  let child := Table.lowest m
  have hfree : m₀.get child = none := hg.lowest
  have hne : b ≠ child := ne_lowest hb
  let m₁ : DriverMem := Table.alloc (.bson [] none) m
  have hb₁ : m₁.get b = some (.bson doc none) := get_alloc_of_some hb _
  have hc₁ : m₁.get child = some (.bson [] none) := get_alloc_self m _
  refine settles_own (y := (child, m₁)) rfl ?_
  let m₂ : DriverMem := m₁.put b (.bson doc (some (key, child)))
  have hb₂ : m₂.get b = some (.bson doc (some (key, child))) := get_put_self hb₁ _
  have hc₂ : m₂.get child = some (.bson [] none) := (get_put_ne hb₁ hne.symm).trans hc₁
  let m₃ : DriverMem := m₂.put child (.bson [] none)
  have hb₃ : m₃.get b = some (.bson doc (some (key, child))) := (get_put_ne hc₂ hne).trans hb₂
  have hc₃ : m₃.get child = some (.bson [] none) := get_put_self hc₂ _
  refine settles_own (y := ((), m₃)) (by simp [driverOwn, bsonAt_of_get hb₁, bsonAt_of_get hc₁, m₃, m₂]) ?_
  let m₄ : DriverMem := m₃.put child (.bson [(sub, .scalar x)] none)
  have hb₄ : m₄.get b = some (.bson doc (some (key, child))) := (get_put_ne hc₃ hne).trans hb₃
  have hc₄ : m₄.get child = some (.bson [(sub, .scalar x)] none) := get_put_self hc₃ _
  refine settles_own (y := ((), m₄)) (driverOwn_append hc₃ sub x) ?_
  let m₅ : DriverMem := m₄.put b (.bson (doc ++ [(key, .document [(sub, x)])]) none)
  have hend : driverOwn shown (.endDocument b child) m₄ = some ((), m₅) := by
    simp [driverOwn, hb₄, bsonAt_of_get hc₄, m₅, Bson.scalars]
  refine settles_own hend ⟨?_, hfree, hne.symm, ?_, get_put_self hb₄ _⟩
  · have hg₁ : Grows m₀ m₁ := hg.alloc rfl
    have hg₂ : Grows m₀ m₂ := hg₁.put hb₁ hnew rfl
    have hg₃ : Grows m₀ m₃ := hg₂.put hc₂ hfree rfl
    have hg₄ : Grows m₀ m₄ := hg₃.put hc₃ hfree rfl
    exact hg₄.put hb₄ hnew rfl
  · exact (get_put_ne hb₄ hne.symm).trans hc₄

theorem settles_select {q : Query} (hg : Grows m₀ m) (hb : m.get query = some (.bson [] none))
    (hnew : m₀.get query = none) : settles (driverOwn shown) (fun child m' => Grows m₀ m' ∧
      m'.get query = some (.bson q.bson none) ∧ ∀ c ∈ child, m₀.get c = none ∧ c ≠ query ∧
        ∃ sub, m'.get c = some (.bson sub none)) (select query q) m := by
  cases q with
  | all => exact ⟨hg, hb, nofun⟩
  | sid s =>
    refine settles_own (driverOwn_append hb "sid" (.utf8 s)) ⟨hg.put hb hnew rfl, get_put_self hb _, nofun⟩
  | pid p =>
    refine settles_own (driverOwn_append hb "pid" (.int32 p)) ⟨hg.put hb hnew rfl, get_put_self hb _, nofun⟩
  | ppidNe p =>
    refine settles_bind.mpr (settles_mono (fun child m' h => ?_) (settles_appendSub hg hb hnew))
    obtain ⟨hg', hfree, hne, hc, hq⟩ := h
    refine ⟨hg', hq, fun c hc' => ?_⟩
    obtain rfl := Option.mem_some_iff.mp hc'
    exact ⟨hfree, hne, _, hc⟩

theorem settles_destroyChild {child : Option Nat} (hg : Grows m₀ m)
    (hc : ∀ c ∈ child, m₀.get c = none ∧ ∃ sub, m.bsonAt c = some sub) :
    settles (driverOwn shown) (fun _ m' => Grows m₀ m') (destroyChild child) m := by
  cases child with
  | none => exact hg
  | some c =>
    obtain ⟨hnew, sub, hsub⟩ := hc c rfl
    exact settles_own (driverOwn_bsonDestroy hsub) (hg.close hnew)

theorem carries_own {c : Call} {g : Phase (Reply c)} {op : DriverOp} {f : DriverReply op → DriverAct α}
    {Q : α → DriverMem → Phase (Reply c) → Prop} {y : DriverReply op × DriverMem} (hy : driverOwn shown op m = some y)
    (h : (driverLevel shown addr).carries c Q (f y.1) y.2 g) :
    (driverLevel shown addr).carries c Q (own op >>= f) m g :=
  ⟨y, hy, h⟩

/-- **An operation with a query** leaves the objects as they were, if it does so itself. -/
theorem carries_withQuery {c : Call} {q : Query} {op : Nat → DriverAct α} {P : α → Phase (Reply c) → Prop}
    {g : Phase (Reply c)} (hop : ∀ query m', Grows m m' → m'.get query = some (.bson q.bson none) →
      (driverLevel shown addr).carries c (fun b m'' g' => P b g' ∧ Grows m' m'') (op query) m' g) :
    (driverLevel shown addr).carries c (fun b m' g' => P b g' ∧ Grows m m') (withQuery q op) m g := by
  let query := Table.lowest m
  have hfree : m.get query = none := Table.get_lowest m
  let m₁ : DriverMem := Table.alloc (.bson [] none) m
  have hq₁ : m₁.get query = some (.bson [] none) := get_alloc_self m _
  refine carries_own (y := (query, m₁)) rfl ?_
  refine carries_of_settles (settles_select ((Grows.refl m).alloc rfl) hq₁ hfree) fun child m₂ h => ?_
  obtain ⟨hg₂, hq₂, hc₂⟩ := h
  refine carries_bind.mpr (carries_mono (fun b m₃ g' h => ?_) (hop query m₂ hg₂ hq₂))
  obtain ⟨hb, hg₃⟩ := h
  have hg : Grows m m₃ := hg₂.trans hg₃
  refine carries_own (driverOwn_bsonDestroy (hg₃.bsonAt hq₂)) ?_
  refine carries_of_settles (settles_destroyChild (hg.close hfree) ?_) fun _ m₅ hg₅ => ⟨hb, hg₅⟩
  intro c hc
  obtain ⟨hnew, hne, sub, hsub⟩ := hc₂ c hc
  refine ⟨hnew, sub, bsonAt_of_get ?_⟩
  rw [Table.get_close, if_neg hne]
  exact hg₃.old c _ hsub

/-- **A session** leaves no client and no collection behind. -/
theorem carries_session {c : Call} {op : Nat → DriverAct α} {P : α → Phase (Reply c) → Prop} {g : Phase (Reply c)}
    (hm : (driverLevel shown addr).idle m)
    (hop : ∀ collection client m', m'.collectionAt collection = some (client, database, collectionProcess) →
      (driverLevel shown addr).carries c (fun b m'' g' => P b g' ∧ Grows m' m'') (op collection) m' g) :
    (driverLevel shown addr).carries c (fun b m' g' => P b g' ∧ (driverLevel shown addr).idle m')
    (session addr op) m g := by
  let client := Table.lowest m
  let m₁ : DriverMem := Table.alloc (.client (cStr addr)) m
  have hclient₁ : m₁.get client = some (.client (cStr addr)) := get_alloc_self m _
  refine carries_own (y := (client, m₁)) rfl ?_
  let collection := Table.lowest m₁
  let m₂ : DriverMem := Table.alloc (.collection client database collectionProcess) m₁
  have hclient₂ : m₂.get client = some (.client (cStr addr)) := get_alloc_of_some hclient₁ _
  have hcoll₂ : m₂.get collection = some (.collection client database collectionProcess) := get_alloc_self m₁ _
  have hopen : driverOwn shown (.clientGetCollection client database collectionProcess) m₁ = some (collection, m₂) := by
    simp [driverOwn, DriverMem.clientAt, hclient₁, collection, m₂]
  refine carries_own hopen ?_
  have hat : m₂.collectionAt collection = some (client, database, collectionProcess) := by
    simp [DriverMem.collectionAt, DriverMem.clientAt, hcoll₂, hclient₂]
  refine carries_bind.mpr (carries_mono (fun b m₃ g' h => ?_) (hop collection client m₂ hat))
  obtain ⟨hb, hg⟩ := h
  have hne : client ≠ collection := ne_lowest hclient₁
  have hrelease : driverOwn shown (.collectionDestroy collection) m₃ = some ((), m₃.close collection) := by
    simp [driverOwn, hg.collectionAt hat]
  refine carries_own hrelease ?_
  have hclient₄ : (Table.close m₃ collection).get client = some (.client (cStr addr)) := by
    rw [Table.get_close, if_neg hne]
    exact hg.old client _ hclient₂
  have hclose : driverOwn shown (.clientDestroy client) (m₃.close collection) =
      some ((), (m₃.close collection).close client) := by
    simp [driverOwn, DriverMem.clientAt, hclient₄]
  refine carries_own hclose ⟨hb, fun p o hp => ?_⟩
  rw [Table.get_close, Table.get_close] at hp
  split_ifs at hp with hp₁ hp₂
  rw [Bool.eq_false_iff]
  intro hh
  have hp' := hg.new p o hh hp
  rw [Table.get_alloc, if_neg hp₂, Table.get_alloc, if_neg hp₁] at hp'
  exact absurd ((hm p o hp').symm.trans hh) Bool.false_ne_true

/-! ### Operations -/

theorem settles_textOf (doc : Bson) (m : DriverMem) :
    settles (driverOwn shown) (fun t m' => t = doc.text shown ∧ Grows m m') (textOf doc) m := by
  let str := Table.lowest m
  let m₁ : DriverMem := Table.alloc (.str (doc.text shown)) m
  have hs : m₁.get str = some (.str (doc.text shown)) := get_alloc_self m _
  refine settles_own (y := (str, m₁)) rfl (settles_own (y := (doc.text shown, m₁)) (by simp [driverOwn, hs]) ?_)
  refine settles_own (y := ((), m₁.close str)) (by simp [driverOwn, hs]) ⟨rfl, ?_⟩
  exact ((Grows.refl m).alloc rfl).close (Table.get_lowest m)

section

variable {collection client cursor n : Nat} {db tb : String} {q : Query} {bs : List Bson} {caddr : Str}

theorem driverOwn_cursorNext {query : Bson} (hc : m.get cursor = some (.cursor client db tb query (some bs)))
    (hclient : m.clientAt client = some caddr) :
    driverOwn shown (.cursorNext cursor) m =
      some (bs.head?, m.put cursor (.cursor client db tb query (some bs.tail))) := by
  simp [driverOwn, hc, hclient]

/-- **The turns with a batch** take the texts of its documents. -/
theorem settles_findLoop {query : Bson} {list : List Text} (hg : Grows m₀ m) (hnew : m₀.get cursor = none)
    (hclient : m₀.clientAt client = some caddr)
    (hc : m.get cursor = some (.cursor client db tb query (some bs))) :
    settles (driverOwn shown) (fun l m' => l = list ++ bs.map (Bson.text shown) ∧ Grows m₀ m' ∧
      m'.get cursor = some (.cursor client db tb query (some []))) (findLoop cursor bs.length list) m := by
  induction bs generalizing m list with
  | nil => exact ⟨(List.append_nil list).symm, hg, hc⟩
  | cons doc bs ih =>
    refine settles_own (driverOwn_cursorNext hc (hg.clientAt hclient)) ?_
    have hg' := hg.put hc hnew (o := .cursor client db tb query (some bs)) rfl
    have hc' := get_put_self hc (.cursor client db tb query (some bs))
    refine settles_bind.mpr (settles_mono (fun t m₂ h => ?_) (settles_textOf doc _))
    obtain ⟨rfl, hg₂⟩ := h
    refine settles_mono (fun l m₃ h => ?_) (ih (hg'.trans hg₂) (hg₂.old cursor _ hc'))
    obtain ⟨rfl, hg₃, hc₃⟩ := h
    exact ⟨by simp, hg₃, hc₃⟩

/-- **The turns with further batches**, if there are any. -/
theorem carries_findMore {c : Call} {g : Phase (Reply c)} {query : Bson} {k : Nat} {list : List Text}
    (hk : k = 0 ∨ g = .lost) (hg : Grows m₀ m) (hnew : m₀.get cursor = none) (hclient : m₀.clientAt client = some caddr)
    (hc : m.get cursor = some (.cursor client db tb query (some []))) :
    (driverLevel shown addr).carries c (fun l m' g' => (k = 0 → l = list) ∧ g' = g ∧ Grows m₀ m' ∧
      m'.get cursor = some (.cursor client db tb query (some []))) (findMore cursor k list) m g := by
  induction k generalizing m list with
  | zero => exact ⟨fun _ => rfl, rfl, hg, hc⟩
  | succ k ih =>
    obtain rfl : g = .lost := hk.resolve_left (Nat.succ_ne_zero k)
    have hable : (driverLevel shown addr).able (.getMore cursor) m :=
      .inr ⟨.inr .fails, fun w => by simp [driverLevel, serverAnswer, hc, hg.clientAt hclient]⟩
    refine ⟨hable, fun x w st y hrep hy => ?_⟩
    simp only [driverLevel, serverAnswer, hc, hg.clientAt hclient, Option.bind_some] at hy
    match x with
    | .inr .fails =>
      cases hy
      exact ⟨⟨st, hrep⟩, nofun, rfl, hg, hc⟩
    | .inr (.next docs) =>
      cases hy
      have hg' := hg.put hc hnew (o := .cursor client db tb query (some docs)) rfl
      refine ⟨⟨st, hrep⟩, ?_⟩
      show (driverLevel shown addr).carries c _ (findLoop cursor docs.length list >>= findMore cursor k) _ .lost
      refine carries_of_settles (settles_findLoop hg' hnew hclient (get_put_self hc _)) fun l m₂ h => ?_
      obtain ⟨-, hg₂, hc₂⟩ := h
      exact carries_mono (fun l m₃ g' h => ⟨nofun, h.2⟩) (ih (.inr rfl) hg₂ hc₂)
    | .inr (.first n k) => cases hy
    | .inl ch => cases hy

theorem clientAt_of_collectionAt (h : m.collectionAt collection = some (client, db, tb)) :
    ∃ caddr, m.clientAt client = some caddr := by
  unfold DriverMem.collectionAt at h
  split at h
  · obtain ⟨caddr, hc, heq⟩ := Option.map_eq_some_iff.mp h
    cases heq
    exact ⟨caddr, hc⟩
  · cases h

theorem carries_openCursor {c : Call} {A : List Doc → Reply c} {query : Nat}
    (hok : ∀ st, answer shown c .ok st = some (A (st.coll.filter q.matches), st))
    (hfail : ∀ st, answer shown c .dbFail st = some (A [], st))
    (hat : m.collectionAt collection = some (client, database, collectionProcess))
    (hq : m.get query = some (.bson q.bson none)) :
    (driverLevel shown addr).carries c (fun x m' g => Grows m m' ∧ m.get x.1 = none ∧ ∃ bs : List Bson,
      x.2.1 = bs.length ∧ m'.get x.1 = some (.cursor client database collectionProcess q.bson (some bs)) ∧
      ((∃ docs : List Doc, g = .done (A docs) ∧ bs = docs.map Doc.bson ∧ x.2.2 = 0) ∨ g = .lost))
      (openCursor collection query) m .before := by
  let cursor := Table.lowest m
  let m₁ : DriverMem := Table.alloc (.cursor client database collectionProcess q.bson none) m
  have hc₁ : m₁.get cursor = some (.cursor client database collectionProcess q.bson none) := get_alloc_self m _
  have hfind : driverOwn shown (.findWithOpts collection query) m = some (cursor, m₁) := by
    simp [driverOwn, hat, bsonAt_of_get hq, cursor, m₁]
  refine carries_own hfind ?_
  have hg₁ : Grows m m₁ := (Grows.refl m).alloc rfl
  have hg (o : Option (List Bson)) : Grows m (m₁.put cursor (.cursor client database collectionProcess q.bson o)) :=
    hg₁.put hc₁ (Table.get_lowest m) rfl
  obtain ⟨caddr, hclient⟩ := clientAt_of_collectionAt hat
  have hable : (driverLevel shown addr).able (.send cursor) m₁ :=
    .inr ⟨.inl .dbFail, fun w => by simp [driverLevel, serverAnswer, hc₁, hg₁.clientAt hclient]⟩
  refine ⟨nofun, hable, fun x w st y hrep hy => ?_⟩
  simp only [driverLevel, serverAnswer, hc₁, hg₁.clientAt hclient, Option.bind_some] at hy
  match x with
  | .inl .ok =>
    have hdocs : (w.docs database collectionProcess).filter q.bson.selects =
        (st.coll.filter q.matches).map Doc.bson := by
      simp [hrep.1, List.filter_map, Function.comp_def, selects_bson]
    cases hy
    refine ⟨fun _ => ⟨_, st, hok st, hrep, hg _, Table.get_lowest m, _, rfl, get_put_self hc₁ _, ?_⟩, nofun⟩
    exact .inl ⟨st.coll.filter q.matches, rfl, hdocs, rfl⟩
  | .inl .dbFail =>
    cases hy
    refine ⟨fun _ => ⟨_, st, hfail st, hrep, hg _, Table.get_lowest m, [], rfl, get_put_self hc₁ _, ?_⟩, nofun⟩
    exact .inl ⟨[], rfl, rfl, rfl⟩
  | .inr (.first n k) =>
    obtain ⟨hn, hy⟩ := Option.ite_none_right_eq_some.mp hy
    cases hy
    refine ⟨nofun, fun _ => ⟨⟨st, hrep⟩, hg _, Table.get_lowest m, _, ?_, get_put_self hc₁ _, .inr rfl⟩⟩
    exact (List.length_take_of_le hn.2).symm
  | .inl (.forkFail) | .inl (.pid _) | .inl (.execFail) | .inr (.next _) | .inr .fails => cases hy

theorem carries_find {query : Nat} (hat : m.collectionAt collection = some (client, database, collectionProcess))
    (hq : m.get query = some (.bson q.bson none)) :
    (driverLevel shown addr).carries (.find q) (fun b m' g => g.Agrees b.2 ∧ Grows m m') (find collection query) m
      .before := by
  obtain ⟨caddr, hclient⟩ := clientAt_of_collectionAt hat
  refine carries_bind.mpr (carries_mono (fun x m₁ g h => ?_)
    (carries_openCursor (A := fun docs => docs.map (Doc.text shown)) (fun _ => rfl) (fun _ => rfl) hat hq))
  obtain ⟨cursor, n, k⟩ := x
  obtain ⟨hg, hnew, bs, rfl, hc, hphase⟩ := h
  refine carries_of_settles (settles_findLoop hg hnew hclient hc) fun l m₂ h => ?_
  obtain ⟨rfl, hg₂, hc₂⟩ := h
  have hk : k = 0 ∨ g = .lost := hphase.imp_left fun ⟨_, _, _, hk⟩ => hk
  refine carries_bind.mpr (carries_mono (fun l m₃ g' h => ?_) (carries_findMore hk hg₂ hnew hclient hc₂))
  obtain ⟨hl, rfl, hg₃, hc₃⟩ := h
  refine carries_own (driverOwn_cursorNext hc₃ (hg₃.clientAt hclient)) ⟨?_, hg₃.put hc₃ hnew rfl⟩
  rcases hphase with ⟨docs, rfl, rfl, hk⟩ | rfl
  · show l = docs.map (Doc.text shown)
    simp [hl hk, Function.comp_def, text_bson]
  · trivial

theorem carries_findOne {query : Nat} (hat : m.collectionAt collection = some (client, database, collectionProcess))
    (hq : m.get query = some (.bson q.bson none)) :
    (driverLevel shown addr).carries (.findOne q)
      (fun b m' g => g.Agrees (if b.1 = (ErrorCode.errorOk : Int) then some b.2 else none) ∧ Grows m m')
      (findOne collection query) m .before := by
  obtain ⟨caddr, hclient⟩ := clientAt_of_collectionAt hat
  refine carries_bind.mpr (carries_mono (fun x m₁ g h => ?_) (carries_openCursor (c := .findOne q)
    (A := fun docs => docs.head?.map (Doc.text shown)) (fun st => ?_) (fun _ => rfl) hat hq))
  · obtain ⟨hg, hnew, bs, -, hc, hphase⟩ := h
    refine carries_own (driverOwn_cursorNext hc (hg.clientAt hclient)) ?_
    have hg' := hg.put hc hnew (o := .cursor client database collectionProcess q.bson (some bs.tail)) rfl
    cases bs with
    | nil =>
      refine ⟨?_, hg'⟩
      rcases hphase with ⟨docs, rfl, hdocs, -⟩ | rfl
      · obtain rfl : docs = [] := List.map_eq_nil_iff.mp hdocs.symm
        rfl
      · trivial
    | cons b bs =>
      refine carries_of_settles (settles_textOf b _) fun t m₂ h => ?_
      obtain ⟨rfl, hg₂⟩ := h
      refine ⟨?_, hg'.trans hg₂⟩
      rcases hphase with ⟨docs, rfl, hdocs, -⟩ | rfl
      · obtain ⟨d, docs, rfl, rfl, -⟩ := List.map_eq_cons_iff.mp hdocs.symm
        show some (d.bson.text shown) = some (d.text shown)
        rw [text_bson]
      · trivial
  · simp [answer, List.head?_filter]

theorem rep_modify {w : Backend} {st : Store} {f : List Bson → List Bson} {g : List Doc → List Doc}
    (h : (driverLevel shown addr).rep w st) (hfg : f (st.coll.map Doc.bson) = (g st.coll).map Doc.bson) :
    (driverLevel shown addr).rep (w.modify database collectionProcess f) { st with coll := g st.coll } := by
  obtain ⟨hdocs, hos⟩ := h
  have hself : (w.modify database collectionProcess f).docs database collectionProcess =
      f (w.docs database collectionProcess) := by
    simp [Backend.modify]
  exact ⟨by rw [hself, hdocs, hfg], hos⟩

/-- **An operation that is no query** does what the call does. -/
theorem carries_shared {c : Call} {op : ServerOp} {f : ServerReply op → DriverAct α}
    {Q : α → DriverMem → Phase (Reply c) → Prop} (hends : op ≠ .assertFail)
    (hable : ∃ ch, ∀ w, (serverAnswer shown op (.inl ch) m w).isSome)
    (hpart : ∀ b w, serverAnswer shown op (.inr b) m w = none)
    (h : ∀ ch w st y, (driverLevel shown addr).rep w st → serverAnswer shown op (.inl ch) m w = some y →
      ∃ a st', answer shown c ch st = some (a, st') ∧ (driverLevel shown addr).rep y.2.2 st' ∧
        (driverLevel shown addr).carries c Q (f y.1) y.2.1 (.done a)) :
    (driverLevel shown addr).carries c Q (.call (.inr op) f) m .before := by
  obtain ⟨ch, hch⟩ := hable
  refine ⟨fun hop => absurd hop hends, .inr ⟨.inl ch, hch⟩, fun x w st y hrep hy => ?_⟩
  rcases x with ch | b
  · exact ⟨fun _ => h ch w st y hrep hy, fun hx => absurd hx Bool.false_ne_true⟩
  · exact absurd ((hpart b w).symm.trans hy) (Option.some_ne_none y).symm

theorem carries_remove {query : Nat} (hat : m.collectionAt collection = some (client, database, collectionProcess))
    (hq : m.get query = some (.bson q.bson none)) :
    (driverLevel shown addr).carries (.remove q) (fun b m' g => g.Agrees b ∧ Grows m m')
      (shared (.remove collection query)) m .before := by
  have hable (w : Backend) : (serverAnswer shown (.remove collection query) (.inl .dbFail) m w).isSome := by
    simp [serverAnswer, hat, bsonAt_of_get hq]
  refine carries_shared nofun ⟨.dbFail, hable⟩ (fun _ _ => rfl) fun ch w st y hrep hy => ?_
  simp only [serverAnswer, hat, bsonAt_of_get hq, Option.bind_some] at hy
  cases ch with
  | ok =>
    cases hy
    refine ⟨true, _, rfl, rep_modify hrep ?_, rfl, Grows.refl m⟩
    rw [List.eraseP_map]
    exact congrArg (fun p => (st.coll.eraseP p).map Doc.bson) (funext fun d => selects_bson q d)
  | dbFail =>
    cases hy
    exact ⟨false, st, rfl, hrep, rfl, Grows.refl m⟩
  | forkFail | pid | execFail => cases hy

theorem carries_update {query : Nat} {p : Int}
    (hat : m.collectionAt collection = some (client, database, collectionProcess))
    (hq : m.get query = some (.bson q.bson none)) :
    (driverLevel shown addr).carries (.update q p) (fun b m' g => g.Agrees b ∧ Grows m m') (do
      let update ← own .bsonNew
      let child ← appendSub update "$set" "pid" (.int32 p)
      let ok ← shared (.update collection query update)
      own (.bsonDestroy child)
      return ok) m .before := by
  let update := Table.lowest m
  have hfree : m.get update = none := Table.get_lowest m
  let m₁ : DriverMem := Table.alloc (.bson [] none) m
  have hu₁ : m₁.get update = some (.bson [] none) := get_alloc_self m _
  refine carries_own (y := (update, m₁)) rfl ?_
  refine carries_of_settles (settles_appendSub ((Grows.refl m).alloc rfl) hu₁ hfree) fun child m₂ h => ?_
  obtain ⟨hg₂, hnew, -, hc₂, hu₂⟩ := h
  have hable (w : Backend) : (serverAnswer shown (.update collection query update) (.inl .dbFail) m₂ w).isSome := by
    simp [serverAnswer, hg₂.collectionAt hat, hg₂.bsonAt hq, bsonAt_of_get hu₂]
  have hdestroy : driverOwn shown (.bsonDestroy child) m₂ = some ((), m₂.close child) :=
    driverOwn_bsonDestroy (bsonAt_of_get hc₂)
  refine carries_shared nofun ⟨.dbFail, hable⟩ (fun _ _ => rfl) fun ch w st y hrep hy => ?_
  simp only [serverAnswer, hg₂.collectionAt hat, hg₂.bsonAt hq, bsonAt_of_get hu₂, Option.bind_some] at hy
  cases ch with
  | ok =>
    cases hy
    refine ⟨true, _, rfl, rep_modify hrep ?_, _, hdestroy, rfl, hg₂.close hnew⟩
    have hmap := Keyed.modifyFirst_map (p := q.bson.selects) (g := Doc.bson) (fun d => (update_bson d p).symm) st.coll
    refine hmap.symm.trans ?_
    exact congrArg (fun f => (Keyed.modifyFirst f _ st.coll).map Doc.bson) (funext fun d => selects_bson q d)
  | dbFail =>
    cases hy
    exact ⟨false, st, rfl, hrep, _, hdestroy, rfl, hg₂.close hnew⟩
  | forkFail | pid | execFail => cases hy

theorem carries_insert {d : Doc} (hm : (driverLevel shown addr).idle m) :
    (driverLevel shown addr).carries (.insert d) (fun b m' g => g.Agrees b ∧ (driverLevel shown addr).idle m')
      (insert addr d) m .before := by
  refine carries_session hm fun collection client m hat => ?_
  let query := Table.lowest m
  have hfree : m.get query = none := Table.get_lowest m
  have hq := get_alloc_self m (.bson [] none)
  have hg : Grows m (Table.alloc (.bson [] none) m) := (Grows.refl m).alloc rfl
  refine carries_own (y := (query, Table.alloc (.bson [] none) m)) rfl ?_
  have happend : ∀ {m' : DriverMem} {doc : Bson} {key : String} {x : Scalar} {f : Unit → DriverAct Bool}
      {Q : Bool → DriverMem → Phase Bool → Prop}, Grows m m' → m'.get query = some (.bson doc none) →
      (∀ m'', Grows m m'' → m''.get query = some (.bson (doc ++ [(key, .scalar x)]) none) →
        (driverLevel shown addr).carries (.insert d) Q (f ()) m'' .before) →
      (driverLevel shown addr).carries (.insert d) Q (own (.append query key x) >>= f) m' .before :=
    fun hg hq h => carries_own (driverOwn_append hq _ _) (h _ (hg.put hq hfree rfl) (get_put_self hq _))
  refine happend hg hq fun m₁ hg hq => happend hg hq fun m₂ hg hq => happend hg hq fun m₃ hg hq => ?_
  refine happend hg hq fun m₄ hg hq => happend hg hq fun m₅ hg hq => happend hg hq fun m₆ hg hq => ?_
  refine happend hg hq fun m₇ hg hq => happend hg hq fun m₈ hg hq => ?_
  have hable (w : Backend) : (serverAnswer shown (.insert collection query) (.inl .dbFail) m₈ w).isSome := by
    simp [serverAnswer, hg.collectionAt hat, bsonAt_of_get hq]
  have hdestroy : driverOwn shown (.bsonDestroy query) m₈ = some ((), m₈.close query) :=
    driverOwn_bsonDestroy (bsonAt_of_get hq)
  refine carries_shared nofun ⟨.dbFail, hable⟩ (fun _ _ => rfl) fun ch w st y hrep hy => ?_
  simp only [serverAnswer, hg.collectionAt hat, bsonAt_of_get hq, Option.bind_some] at hy
  cases ch with
  | ok =>
    cases hy
    refine ⟨true, _, rfl, ?_, _, hdestroy, rfl, hg.close hfree⟩
    refine rep_modify (f := fun docs => docs ++ [d.bson]) (g := fun coll => coll ++ [d]) hrep ?_
    rw [List.map_append]
    rfl
  | dbFail =>
    cases hy
    exact ⟨false, st, rfl, hrep, _, hdestroy, rfl, hg.close hfree⟩
  | forkFail | pid | execFail => cases hy

end

end

end Driver

theorem answer_os {shown : String → Str → Str} {c : Call} {x : Choice} {os : Os} {y : Reply c × Store} (coll : List Doc)
    (hc : (∃ param, c = .fork param) ∨ (∃ cmd, c = .execl cmd) ∨ ∃ pid sig, c = .kill pid sig)
    (h : answer shown c x ⟨[], os⟩ = some y) : answer shown c x ⟨coll, os⟩ = some (y.1, ⟨coll, y.2.os⟩) := by
  rcases hc with ⟨param, rfl⟩ | ⟨cmd, rfl⟩ | ⟨pid, sig, rfl⟩
  · cases x with
    | pid p =>
      simp only [answer] at h ⊢
      split_ifs at h ⊢
      cases h
      rfl
    | forkFail =>
      cases h
      rfl
    | ok | dbFail | execFail => cases h
  · cases x with
    | execFail =>
      cases h
      rfl
    | ok | dbFail | forkFail | pid => cases h
  · cases x with
    | ok =>
      cases h
      simp only [answer]
      split_ifs <;> rfl
    | dbFail | forkFail | pid | execFail => cases h

theorem rep_os {shown : String → Str → Str} {addr : Str} {w : Backend} {st : Store}
    (h : (driverLevel shown addr).rep w st) (os : Os) :
    (driverLevel shown addr).rep { w with os } { st with os } := ⟨h.1, rfl⟩

/-- **Every call is carried out by a session that does what it does**, or a part of it. -/
theorem driverLevel_sound (shown : String → Str → Str) (addr : Str) : (driverLevel shown addr).Sound := by
  intro c m hm
  cases c with
  | findOne q =>
    exact carries_bind.mpr (Driver.carries_session hm fun collection client m' hat =>
      Driver.carries_withQuery fun query m'' hg hq => Driver.carries_findOne (hg.collectionAt hat) hq)
  | find q =>
    exact carries_bind.mpr (Driver.carries_session hm fun collection client m' hat =>
      Driver.carries_withQuery fun query m'' hg hq => Driver.carries_find (hg.collectionAt hat) hq)
  | insert d => exact Driver.carries_insert hm
  | update q p =>
    exact Driver.carries_session hm fun collection client m' hat =>
      Driver.carries_withQuery fun query m'' hg hq => Driver.carries_update (hg.collectionAt hat) hq
  | remove q =>
    exact Driver.carries_session hm fun collection client m' hat =>
      Driver.carries_withQuery fun query m'' hg hq => Driver.carries_remove (hg.collectionAt hat) hq
  | fork param =>
    refine Driver.carries_shared nofun ⟨.forkFail, fun _ => rfl⟩ (fun _ _ => rfl) fun ch w st y hrep hy => ?_
    obtain ⟨z, hz, rfl⟩ := Option.map_eq_some_iff.mp hy
    rw [hrep.2] at hz
    exact ⟨_, _, answer_os st.coll (.inl ⟨_, rfl⟩) hz, rep_os hrep _, rfl, hm⟩
  | execl cmd =>
    refine Driver.carries_shared nofun ⟨.execFail, fun _ => rfl⟩ (fun _ _ => rfl) fun ch w st y hrep hy => ?_
    obtain ⟨z, hz, rfl⟩ := Option.map_eq_some_iff.mp hy
    rw [hrep.2] at hz
    exact ⟨_, _, answer_os st.coll (.inr (.inl ⟨_, rfl⟩)) hz, rep_os hrep _, rfl, hm⟩
  | kill pid sig =>
    refine Driver.carries_shared nofun ⟨.ok, fun _ => rfl⟩ (fun _ _ => rfl) fun ch w st y hrep hy => ?_
    obtain ⟨z, hz, rfl⟩ := Option.map_eq_some_iff.mp hy
    rw [hrep.2] at hz
    exact ⟨_, _, answer_os st.coll (.inr (.inr ⟨_, _, rfl⟩)) hz, rep_os hrep _, rfl, hm⟩
  | assertFail => exact ⟨fun _ => rfl, .inl rfl, fun x w st y _ hy => nomatch hy⟩

end PullStream
