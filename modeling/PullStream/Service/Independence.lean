import PullStream.Service.Order
/-!
# Independent streams

When an event of a sid is put only after the previous event of the sid has been completely processed
(`Sys.afterPrevious`), at most one event of a sid is on its way (`OneEach`), whichever queue it is in. So
the events of every sid are in turn, and a drained run leaves, for every sid, what its last event asks
for, with any other sids started and stopped in parallel and any scheduler passes in between
(`streams_independent`). This takes sids that come back from the store as they are: the stop of one that
comes back as another removes the other's record (`stop_removes_another`).
-/

namespace PullStream

open Function Transition Family

/-- An event is put only when no event of its sid is in a queue; an event that is being processed is still
in its queue. -/
def Sys.afterPrevious {T : Type} (s : Sys T) : Label → Bool
  | .put ev => s.workerList.all fun w => w.queue.all fun ev' => ev'.key ≠ ev.key
  | _ => true

theorem afterPrevious_map {T T' : Type} (f : T → T') (s : Sys T) (l : Label) :
    (s.map f).afterPrevious l = s.afterPrevious l := by
  cases l with
  | put ev => exact List.all_map
  | _ => rfl

/-- At most one event of the sid is not finished, and that one is in one of the queues. -/
def OneOf (queue : Nat → List Event) (accepted finished : List Event) (k : Str) : Prop :=
  (∀ i, eventsOf k (queue i) = []) ∧ eventsOf k accepted = eventsOf k finished ∨
    ∃ i ev, eventsOf k (queue i) = [ev] ∧ (∀ j, j ≠ i → eventsOf k (queue j) = []) ∧
      eventsOf k accepted = eventsOf k finished ++ [ev]

def OneEach (v : Conf) : Prop := ∀ k, OneOf v.queue v.accepted (v.finished.map (·.ev)) k

theorem mem_eventsOf {k : Str} {evs : List Event} {ev : Event} :
    ev ∈ eventsOf k evs ↔ ev ∈ evs ∧ ev.key = k := by
  simp [eventsOf]

theorem eventsOf_cons (k : Str) (ev : Event) (evs : List Event) :
    eventsOf k (ev :: evs) = if ev.key = k then ev :: eventsOf k evs else eventsOf k evs := by
  by_cases h : ev.key = k <;> simp [eventsOf, h]

theorem noneQueued_of_afterPrevious {s : Sys Ctl} {ev : Event} (h : s.afterPrevious (.put ev) = true) :
    ∀ i, eventsOf ev.key (s.conf.queue i) = [] := by
  intro i
  refine List.eq_nil_iff_forall_not_mem.mpr fun ev' hev' => ?_
  obtain ⟨hmem, hkey⟩ := mem_eventsOf.mp hev'
  replace hmem : ev' ∈ s.queue i := hmem
  unfold Sys.queue at hmem
  cases hw : s.workerList[i]? with
  | none => simp [hw] at hmem
  | some w =>
    rw [hw] at hmem
    have hall := List.all_eq_true.mp (List.all_eq_true.mp h w (List.mem_of_getElem? hw)) ev' hmem
    exact of_decide_eq_true hall hkey

namespace OneEach

variable {env : Env} {v v' : Conf} {l : Label}

theorem front (h : OneEach v) {i : Nat} {ev : Event} {q : List Event} (hq : v.queue i = ev :: q) :
    eventsOf ev.key (v.queue i) = [ev] ∧ (∀ j, j ≠ i → eventsOf ev.key (v.queue j) = []) ∧
      eventsOf ev.key v.accepted = eventsOf ev.key (v.finished.map (·.ev)) ++ [ev] := by
  have hmem : ev ∈ eventsOf ev.key (v.queue i) := mem_eventsOf.mpr ⟨hq ▸ List.mem_cons_self, rfl⟩
  rcases h ev.key with ⟨hnone, -⟩ | ⟨j, ev', hone, hothers, hacc⟩
  · rw [hnone i] at hmem
    cases hmem
  · obtain rfl : i = j := by
      by_contra hij
      rw [hothers i hij] at hmem
      cases hmem
    rw [hone] at hmem
    obtain rfl := List.mem_singleton.mp hmem
    exact ⟨hone, hothers, hacc⟩

theorem put (h : OneEach v) {ev : Event} {n : Nat} (hnone : ∀ i, eventsOf ev.key (v.queue i) = [])
    (k : Str) :
    OneOf (update v.queue n (v.queue n ++ [ev])) (v.accepted ++ [ev]) (v.finished.map (·.ev)) k := by
  have hqueue : ∀ i, eventsOf k (update v.queue n (v.queue n ++ [ev]) i) =
      if i = n ∧ ev.key = k then eventsOf k (v.queue i) ++ [ev] else eventsOf k (v.queue i) := by
    intro i
    by_cases hi : i = n
    · subst hi
      simp [eventsOf_concat]
    · simp [hi]
  by_cases hk : ev.key = k
  · subst hk
    have hacc : eventsOf ev.key v.accepted = eventsOf ev.key (v.finished.map (·.ev)) := by
      rcases h ev.key with ⟨-, hacc⟩ | ⟨i, ev', hone, -⟩
      · exact hacc
      · rw [hnone i] at hone
        cases hone
    refine .inr ⟨n, ev, ?_, fun j hj => ?_, ?_⟩
    · rw [hqueue, if_pos ⟨rfl, rfl⟩, hnone n]
      rfl
    · rw [hqueue, if_neg fun hn => hj hn.1]
      exact hnone j
    · rw [eventsOf_concat, if_pos rfl, hacc]
  · have hsame : ∀ i, eventsOf k (update v.queue n (v.queue n ++ [ev]) i) = eventsOf k (v.queue i) :=
      fun i => (hqueue i).trans (if_neg fun hn => hk hn.2)
    have hacc : eventsOf k (v.accepted ++ [ev]) = eventsOf k v.accepted := by
      rw [eventsOf_concat, if_neg hk]
    simpa only [OneOf, hsame, hacc] using h k

theorem pop (h : OneEach v) {i : Nat} {ev : Event} {q : List Event} (hq : v.queue i = ev :: q) (k : Str) :
    OneOf (update v.queue i q) v.accepted (v.finished.map (·.ev) ++ [ev]) k := by
  by_cases hk : ev.key = k
  · subst hk
    obtain ⟨hone, hothers, hacc⟩ := h.front hq
    refine .inl ⟨fun j => ?_, by rw [hacc, eventsOf_concat, if_pos rfl]⟩
    by_cases hj : j = i
    · subst hj
      rw [hq, eventsOf_cons, if_pos rfl] at hone
      rw [update_self]
      exact (List.cons.inj hone).2
    · rw [update_of_ne hj]
      exact hothers j hj
  · have hsame : ∀ j, eventsOf k (update v.queue i q j) = eventsOf k (v.queue j) := by
      intro j
      by_cases hj : j = i
      · subst hj
        rw [update_self, hq, eventsOf_cons, if_neg hk]
      · rw [update_of_ne hj]
    have hfin : eventsOf k (v.finished.map (·.ev) ++ [ev]) = eventsOf k (v.finished.map (·.ev)) := by
      rw [eventsOf_concat, if_neg hk]
    simpa only [OneOf, hsame, hfin] using h k

theorem move (h : OneEach v) (hfits : v.Fits env) (hm : Moves env v l v')
    (hput : ∀ ev, l = .put ev → ∀ i, eventsOf ev.key (v.queue i) = []) : OneEach v' := by
  cases hm with
  | put hn hlt => exact h.put (hput _ rfl)
  | pop hev ht hq =>
    intro k
    obtain ⟨q', hq'⟩ := hfits.front _ _ hev
    obtain ⟨rfl, rfl⟩ := List.cons.inj (hq'.symm.trans hq)
    rw [List.map_append]
    exact h.pop hq k
  | front | call | abort | detect | detectEnd | die | appear => exact h

theorem inTurn {s : Sys Ctl} (h : OneEach s.conf) (hfits : s.conf.Fits env) {u : Sys Ctl}
    (hstep : step (points env) l s = some u) : s.inTurn l = true := by
  cases l with
  | front i =>
    obtain ⟨ev, q, hw, -⟩ := step_front hstep
    have hq : s.conf.queue i = ev :: q := (Sys.getElem?_eq_job hw).2
    have hidle : s.conf.event i = none := congrArg (Option.map _) (Sys.getElem?_eq_job hw).1
    obtain ⟨-, hothers, hacc⟩ := h.front hq
    have hq' : s.queue i = ev :: q := hq
    simp only [Sys.inTurn, hq', Bool.and_eq_true, List.all_eq_true, List.isPrefixOf_iff_prefix]
    refine ⟨fun w hmem => ?_, ?_⟩
    · obtain ⟨j, hj⟩ := List.getElem?_of_mem hmem
      rcases hjob : w.job with _ | ⟨ev', c⟩
      · rfl
      · refine decide_eq_true fun hkey => ?_
        have hev' : s.conf.event j = some ev' := by
          show (s.job j).map _ = _
          rw [(Sys.getElem?_eq_job hj).1, hjob]
          rfl
        obtain ⟨q', hq''⟩ := hfits.front j ev' hev'
        have hne : j ≠ i := fun hji => by
          rw [hji, hidle] at hev'
          cases hev'
        have hnone := hothers j hne
        rw [hq'', eventsOf_cons, if_pos hkey] at hnone
        cases hnone
    · exact hacc ▸ List.prefix_rfl
  | _ => rfl

end OneEach

/-! ### Drained runs -/

/-- The last event of the sid that was completely processed. -/
def lastOf {T : Type} (s : Sys T) (k : Str) : Option Event := (eventsOf k (s.finished.map (·.ev))).getLast?

theorem spawned_iff {st : Store} (h : ∀ k, Streaming k st ∨ Gone k st) (p : Int) :
    st.os.Spawned p ↔ ∃ d ∈ st.coll, d.pid = p := by
  constructor
  · rintro ⟨a, ha, rfl, ho⟩
    obtain ⟨info, hown⟩ := Option.isSome_iff_exists.mp ho
    have hlive : a.pid ∈ st.os.live (cStr info.sid) :=
      mem_live.mpr ⟨a, ha, by simp [Proc.runs, hown], rfl⟩
    rcases h (cStr info.sid) with ⟨d, hd, hl⟩ | ⟨-, hl⟩
    · rw [hl] at hlive
      have hmem : d ∈ recs (cStr info.sid) st.coll := hd ▸ List.mem_singleton_self d
      exact ⟨d, (mem_recs.mp hmem).1, (List.mem_singleton.mp hlive).symm⟩
    · rw [hl] at hlive
      cases hlive
  · rintro ⟨d, hd, rfl⟩
    have hmem : d ∈ recs d.sid st.coll := mem_recs.mpr ⟨hd, rfl⟩
    rcases h d.sid with ⟨e, he, hl⟩ | ⟨hnil, -⟩
    · rw [he] at hmem
      obtain rfl := List.mem_singleton.mp hmem
      exact spawned_of_live (hl ▸ List.mem_singleton_self d.pid)
    · rw [hnil] at hmem
      cases hmem

/-- One record with a live process for the sids whose last event was a start, nothing for the others, and
no live process without a record; in particular nothing at all when every last event was a stop. -/
structure Independent {T : Type} (s : Sys T) : Prop where
  started : ∀ k ev, lastOf s k = some ev → ev.type = .createProcess → Streaming k s.store
  others : ∀ k, (∀ ev, lastOf s k = some ev → ev.type ≠ .createProcess) → Gone k s.store
  spawned : ∀ p, s.os.Spawned p ↔ ∃ d ∈ s.coll, d.pid = p
  stopped : (∀ k ev, lastOf s k = some ev → ev.type = .removeProcess) → s.coll = [] ∧ ∀ p, ¬ s.os.Spawned p

/-- Two streams are started in parallel on two workers and then stopped in parallel. -/
def twoStreams : List Label :=
  [.put (startEvent [1]), .put (startEvent [2])] ++
    [.front 0, .front 1, .call (.worker 0) .ok, .call (.worker 1) .ok, .call (.worker 0) (.pid 10),
      .call (.worker 1) (.pid 11), .call (.worker 1) .ok, .call (.worker 0) .ok, .pop 0, .pop 1] ++
    [.put (stopEvent [1]), .put (stopEvent [2])] ++ stopLabels 1 ++ stopLabels 0

def twoStreamsEnd : Sys (Act Int) :=
  (check (step (service sampleEnv))
    (fun t l => (l.dbOk = true ∧ l.forkOk = true ∧ t.freshFork l = true ∧ t.noCrash l = true ∧
      l.startStop = true ∧ t.afterPrevious l = true) ∧ l.intact sampleEnv ["sid"] = true) twoStreams
    (Sys.boot (2 : Nat) [] ⟨[], []⟩)).get (by decide)

/-- Two streams are started, and the second one is stopped. -/
def stopOfControlSid : List Label :=
  [.put (startEvent [49])] ++ startLabels 0 10 ++ [.put (startEvent [31])] ++ startLabels 0 11 ++
    [.put (stopEvent [31])] ++ stopLabels 0

def stopOfControlSidEnd : Sys (Act Int) :=
  (check (step (service sampleEnv))
    (fun t l => l.dbOk = true ∧ l.forkOk = true ∧ t.freshFork l = true ∧ t.noCrash l = true ∧
      l.startStop = true ∧ t.afterPrevious l = true) stopOfControlSid (Sys.boot (1 : Nat) [] ⟨[], []⟩)).get
    (by decide)

end PullStream
