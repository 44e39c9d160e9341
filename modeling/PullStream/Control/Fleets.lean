import PullStream.App.Fleet
import PullStream.Control.Guard
/-!
# Steps of a fleet

The trace variables of a fleet do not interfere (`act_sys`): a host takes the steps it takes without them.
`mem_written` says where a record can come from, and `guarded_step` carries what holds of the threads of all
hosts over one step, a restart included.
-/

namespace PullStream

open Function ServerBiz

/-! ### What a call does to the collection -/

section

variable {ι : Type} {q : Instance ι} {o : Option Event} {c : Call} {ch : Choice} {coll : List (Tracked ι)}
  {os : Os} {r : Tracked ι}

theorem write_doc {shown : String → Str → Str} {x : Reply c × Store}
    (h : answer shown c .ok ⟨coll.map (·.doc), os⟩ = some x) :
    (q.write o c coll).map (·.doc) = x.2.coll := by
  cases c with
  | insert d =>
    cases h
    simp [Instance.write]
  | update query p =>
    cases h
    exact Keyed.modifyFirst_map (g := fun r : Tracked ι => r.doc) (fun _ => rfl) coll
  | remove query =>
    cases h
    exact (List.eraseP_map (f := fun r : Tracked ι => r.doc) (p := query.matches)).symm
  | kill p sig =>
    cases h
    dsimp only
    split <;> rfl
  | findOne | find => cases h; rfl
  | fork | execl | assertFail => cases h

theorem coll_of_answer {shown : String → Str → Str} {st : Store} {x : Reply c × Store}
    (h : answer shown c ch st = some x) (hch : ch ≠ .ok) :
    x.2.coll = st.coll := by
  cases ch with
  | ok => exact absurd rfl hch
  | dbFail => cases c <;> cases h <;> rfl
  | forkFail | execFail =>
    cases c <;> cases h
    rfl
  | pid p =>
    cases c with
    | fork param =>
      obtain ⟨hx, -⟩ | ⟨y, -, -, -, rfl⟩ := answer_fork h
      · cases hx
      · rfl
    | _ => cases h

theorem mem_write (h : r ∈ q.write o c coll) :
    r ∈ coll ∨ (∃ d, c = .insert d ∧ r = ⟨d, o, q⟩) ∨
      ∃ query p r₀, c = .update query p ∧ coll.find? (fun r => query.matches r.doc) = some r₀ ∧
        r = { r₀ with doc := { r₀.doc with pid := p }, forker := q } := by
  cases c with
  | insert d =>
    rcases List.mem_append.mp h with h | h
    · exact .inl h
    · exact .inr (.inl ⟨d, rfl, List.mem_singleton.mp h⟩)
  | update query p =>
    obtain h | ⟨r₀, hr₀, rfl⟩ := Keyed.mem_modifyFirst h
    · exact .inl h
    · exact .inr (.inr ⟨query, p, r₀, rfl, hr₀, rfl⟩)
  | remove query => exact .inl (List.mem_of_mem_eraseP h)
  | _ => exact .inl h

end

/-! ### Steps -/

namespace Fleet

section

variable {ι : Type} {f : Fleet ι} {i : ι} {l : Label} {s : Sys (Act Int)} {c : Call} {ch : Choice}

theorem made_call {τ : Tid} {t : Act Int} {k : Reply c → Act Int} (ht : (f.sys i).thread τ = some t)
    (hv : (service (f.env i)).view t = .call c k) : f.made i (.call τ ch) = some ((f.sys i).taken τ, c, ch) := by
  simp [made, Sys.next, ht, hv, View.call?]

theorem thread_of_made {o : Option Event} (h : f.made i l = some (o, c, ch)) :
    ∃ τ k, l = .call τ ch ∧ o = (f.sys i).taken τ ∧ (f.sys i).thread τ = some (.call c k) := by
  cases l with
  | call τ ch' =>
    obtain ⟨c', hnext, hc⟩ := Option.map_eq_some_iff.mp h
    obtain ⟨t, ht, hv⟩ := Option.bind_eq_some_iff.mp hnext
    cases hc
    cases t with
    | ret rtn => cases hv
    | call op k =>
      cases hv
      exact ⟨τ, k, rfl, rfl, ht⟩
  | _ => cases h

theorem coll_of_step (h : step (service (f.env i)) l (f.sys i) = some s) :
    (f.written i l).map (·.doc) = s.coll := by
  cases l with
  | call τ ch =>
    obtain ⟨t, c, k, x, ht, hv, hx, rfl⟩ := step_call h
    rw [written, made_call ht hv]
    by_cases hch : ch = .ok
    · subst hch
      exact write_doc hx
    · refine Eq.trans ?_ (coll_of_answer hx hch).symm
      cases ch <;> first | rfl | exact absurd rfl hch
  | put ev =>
    obtain ⟨n, w, -, -, rfl⟩ := step_put h
    rfl
  | front j =>
    obtain ⟨ev, q, -, rfl⟩ := step_front h
    rfl
  | pop j =>
    obtain ⟨ev₀, q, ev, t, rtn, -, -, rfl⟩ := step_pop h
    rfl
  | abort j =>
    obtain ⟨-, rfl⟩ := step_abort h
    rfl
  | detect =>
    obtain ⟨-, rfl⟩ := step_detect h
    rfl
  | detectEnd =>
    obtain ⟨-, rfl⟩ := step_detectEnd h
    rfl
  | die p =>
    obtain ⟨-, rfl⟩ := step_die h
    rfl
  | appear p =>
    obtain ⟨-, rfl⟩ := step_appear h
    rfl

theorem mem_written {r : Tracked ι} (h : r ∈ f.written i l) :
    r ∈ f.coll ∨ (∃ o d, f.made i l = some (o, .insert d, .ok) ∧ r = ⟨d, o, f.current i⟩) ∨
      ∃ o query p r₀, f.made i l = some (o, .update query p, .ok) ∧
        f.coll.find? (fun r => query.matches r.doc) = some r₀ ∧
        r = { r₀ with doc := { r₀.doc with pid := p }, forker := f.current i } := by
  unfold written at h
  split at h
  · rename_i o c hmade
    obtain h | ⟨d, rfl, hr⟩ | ⟨query, p, r₀, rfl, hr₀, hr⟩ := mem_write h
    · exact .inl h
    · exact .inr (.inl ⟨o, d, hmade, hr⟩)
    · exact .inr (.inr ⟨o, query, p, r₀, hmade, hr₀, hr⟩)
  · exact .inl h

variable [DecidableEq ι] {f' : Fleet ι}

/-- **The trace variables do not interfere**: a host takes the steps it takes without them. -/
theorem act_sys (h : fleetStep (.act i l) f = some f') :
    step (service (f.env i)) l (f.sys i) = some (f'.sys i) ∧ f'.coll = f.written i l ∧
      f'.forks = f.forks ++ f.forked i l ∧ f'.env = f.env ∧ f'.number = f.number ∧
      ∀ j, j ≠ i → f'.host j = f.host j := by
  obtain ⟨s, hs, rfl⟩ := Option.map_eq_some_iff.mp h
  refine ⟨?_, rfl, rfl, rfl, rfl, fun j hj => update_of_ne hj _ _⟩
  rw [hs]
  simp [sys, coll_of_step hs]

/-- **What holds of the threads of all hosts, over one step.** The threads of an instance that is replaced
are gone. -/
theorem guarded_step {E : ι → Event → Prop} {G : Fleet ι → ι → Option Event → Act Int → Prop}
    {l : FleetLabel ι} (h : ∀ i, (f.sys i).Guarded (E i) (G f i)) (hstep : fleetStep l f = some f')
    (hput : ∀ i ev, l = .act i (.put ev) → E i ev)
    (hdispatch : ∀ i ev, E i ev → G f' i (some ev) (dispatch (f'.env i) ev))
    (hdetect : ∀ i, G f' i none (processAliveDetect (f'.env i)))
    (hmono : ∀ j, f'.env j = f.env j → f'.number j = f.number j → ∀ o t, G f j o t → G f' j o t)
    (hcall : ∀ i τ ch c k x, l = .act i (.call τ ch) → (f.sys i).thread τ = some (.call c k) →
      answer (f.env i).shown c ch (f.sys i).store = some x → G f' i ((f.sys i).taken τ) (k x.1)) (j : ι) :
    (f'.sys j).Guarded (E j) (G f' j) := by
  cases l with
  | act i l =>
    obtain ⟨hs, -, -, henv, hnumber, hhost⟩ := act_sys hstep
    have hkeep := hmono j (congrFun henv j) (congrFun hnumber j)
    by_cases hj : j = i
    · subst hj
      refine (h j).step hs ?_ ?_ ?_ hkeep ?_
      · rintro ev rfl
        exact hput j ev rfl
      · rw [← henv]
        exact hdispatch j
      · rw [← henv]
        exact hdetect j
      · rintro τ ch t c k x rfl ht hv hx
        cases t with
        | ret rtn => cases hv
        | call op k' =>
          cases hv
          exact hcall j τ ch c k x rfl ht hx
    · refine ((h j).mono hkeep).congr ?_ ?_
      · rw [sys, hhost j hj]
        rfl
      · rw [sys, hhost j hj]
        rfl
  | restart i env workerNum =>
    cases hstep
    by_cases hj : j = i
    · subst hj
      refine (Sys.Guarded.boot _ _ workerNum [] (f.host j).os).congr ?_ ?_
      · simp only [sys, update_self]
      · simp only [sys, update_self]
    · refine ((h j).mono (hmono j (update_of_ne hj _ _) (update_of_ne hj _ _))).congr ?_ ?_
      · simp only [sys, update_of_ne hj]
      · simp only [sys, update_of_ne hj]

end

end Fleet

end PullStream
