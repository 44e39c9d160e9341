import PullStream.Control.Steps
import PullStream.Base.Ledger
/-!
# What holds of every event queued and of every thread

`Sys.Guarded E G s`: the events queued satisfy `E`, and a thread that is inside a function satisfies `G` of
the event it is busy with. A step leads from `G` to `G'` if the threads that stay where they are and the one
that moves satisfy `G'` afterwards (`Sys.Guarded.step`).
-/

namespace PullStream

open Function Family

structure Sys.Guarded {T : Type} (E : Event → Prop) (G : Option Event → T → Prop) (s : Sys T) : Prop where
  queued : ∀ i, ∀ ev ∈ s.queue i, E ev
  jobs : ∀ i ev t, s.job i = some (ev, t) → G (some ev) t
  sched : ∀ t, s.sched = some t → G none t

namespace Sys.Guarded

variable {T : Type} {I : Threads T} {E : Event → Prop} {G G' : Option Event → T → Prop} {s u : Sys T}
  {l : Label}

theorem boot (E : Event → Prop) (G : Option Event → T → Prop) (W : Int) (coll : List Doc) (os : Os) :
    (Sys.boot W coll os : Sys T).Guarded E G := by
  refine ⟨fun i ev hev => ?_, fun i ev t hj => ?_, nofun⟩
  · rw [queue_boot] at hev
    cases hev
  · rw [job_boot] at hj
    cases hj

theorem thread (h : s.Guarded E G) {τ : Tid} {t : T} (ht : s.thread τ = some t) : G (s.taken τ) t := by
  cases τ with
  | worker i =>
    obtain ⟨⟨ev, t'⟩, hj, rfl⟩ := Option.map_eq_some_iff.mp ht
    rw [Sys.taken, hj]
    exact h.jobs i ev _ hj
  | sched => exact h.sched t ht

theorem congr (h : s.Guarded E G) (hw : u.workerList = s.workerList) (hs : u.sched = s.sched) :
    u.Guarded E G := by
  refine ⟨fun i => ?_, fun i => ?_, hs ▸ h.sched⟩
  · rw [Sys.queue, hw]
    exact h.queued i
  · rw [Sys.job, hw]
    exact h.jobs i

theorem mono (hmono : ∀ o t, G o t → G' o t) (h : s.Guarded E G) : s.Guarded E G' :=
  ⟨h.queued, fun i ev t hj => hmono _ t (h.jobs i ev t hj), fun t ht => hmono _ t (h.sched t ht)⟩

theorem setWorker (h : s.Guarded E G) {i : Nat} {w w' : WorkerContext T}
    (hi : s.workerList[i]? = some w') (hq : ∀ ev ∈ w.queue, E ev)
    (hj : ∀ ev t, w.job = some (ev, t) → G (some ev) t) : (s.setWorker i w).Guarded E G := by
  refine ⟨fun j ev hev => ?_, fun j ev t hjob => ?_, h.sched⟩
  · rw [Sys.queue_setWorker hi] at hev
    by_cases hji : j = i
    · subst hji
      rw [update_self] at hev
      exact hq ev hev
    · rw [update_of_ne hji] at hev
      exact h.queued j ev hev
  · rw [Sys.job_setWorker hi] at hjob
    by_cases hji : j = i
    · subst hji
      rw [update_self] at hjob
      exact hj ev t hjob
    · rw [update_of_ne hji] at hjob
      exact h.jobs j ev t hjob

theorem setThread (h : s.Guarded E G) {τ : Tid} {t t' : T} (ht : s.thread τ = some t)
    (ht' : G (s.taken τ) t') : (s.setThread τ t').Guarded E G := by
  refine ⟨fun i ev hev => ?_, fun i ev t₁ hj => ?_, fun t₁ hs => ?_⟩
  · rw [Sys.queue_setThread] at hev
    exact h.queued i ev hev
  · cases τ with
    | sched => exact h.jobs i ev t₁ hj
    | worker j =>
      obtain ⟨⟨ev', t₀⟩, hj₀, -⟩ := Option.map_eq_some_iff.mp ht
      rw [Sys.taken, hj₀] at ht'
      rw [Sys.job_setThread hj₀] at hj
      by_cases hij : i = j
      · subst hij
        rw [update_self] at hj
        cases hj
        exact ht'
      · rw [update_of_ne hij] at hj
        exact h.jobs i ev t₁ hj
  · cases τ with
    | sched =>
      cases hs
      exact ht'
    | worker j => exact h.sched t₁ hs

/-- **One step.** Threads that begin, move or stay satisfy `G'`. -/
theorem step (h : s.Guarded E G) (hstep : step I l s = some u) (hput : ∀ ev, l = .put ev → E ev)
    (hdispatch : ∀ ev, E ev → G' (some ev) (I.dispatch ev)) (hdetect : G' none I.detect)
    (hmono : ∀ o t, G o t → G' o t)
    (hcall : ∀ τ ch t c k x, l = .call τ ch → s.thread τ = some t → I.view t = .call c k →
      answer I.shown c ch s.store = some x → G' (s.taken τ) (k x.1)) : u.Guarded E G' := by
  have h' := h.mono hmono
  cases l with
  | put ev =>
    obtain ⟨n, w, -, hw, rfl⟩ := step_put hstep
    obtain ⟨hjob, hqueue⟩ := Sys.getElem?_eq_job hw
    refine (h'.setWorker hw (fun ev' hev => ?_) (fun ev' t hj => ?_)).congr rfl rfl
    · rcases List.mem_append.mp hev with hev | hev
      · exact h'.queued n ev' (hqueue ▸ hev)
      · exact List.mem_singleton.mp hev ▸ hput ev rfl
    · exact h'.jobs n ev' t (hjob.trans hj)
  | front i =>
    obtain ⟨ev, q, hw, rfl⟩ := step_front hstep
    obtain ⟨-, hqueue⟩ := Sys.getElem?_eq_job hw
    have hq : ∀ ev' ∈ ev :: q, E ev' := fun ev' hev => h'.queued i ev' (hqueue ▸ hev)
    refine h'.setWorker hw hq fun ev' t hj => ?_
    cases hj
    exact hdispatch ev (hq ev List.mem_cons_self)
  | call τ ch =>
    obtain ⟨t, c, k, x, ht, hv, hx, rfl⟩ := step_call hstep
    exact (h'.setThread ht (hcall τ ch t c k x rfl ht hv hx)).congr rfl rfl
  | pop i =>
    obtain ⟨ev₀, q, ev, t, rtn, hw, -, rfl⟩ := step_pop hstep
    obtain ⟨-, hqueue⟩ := Sys.getElem?_eq_job hw
    refine (h'.setWorker hw (fun ev' hev => ?_) (fun ev' t' hj => ?_)).congr rfl rfl
    · exact h'.queued i ev' (hqueue ▸ List.mem_cons_of_mem _ hev)
    · cases hj
  | abort i =>
    obtain ⟨-, rfl⟩ := step_abort hstep
    exact h'.congr rfl rfl
  | detect =>
    obtain ⟨-, rfl⟩ := step_detect hstep
    refine ⟨h'.queued, h'.jobs, fun t ht => ?_⟩
    cases ht
    exact hdetect
  | detectEnd =>
    obtain ⟨-, rfl⟩ := step_detectEnd hstep
    exact ⟨h'.queued, h'.jobs, nofun⟩
  | die p =>
    obtain ⟨-, rfl⟩ := step_die hstep
    exact h'.congr rfl rfl
  | appear p =>
    obtain ⟨-, rfl⟩ := step_appear hstep
    exact h'.congr rfl rfl

end Sys.Guarded

end PullStream
