import Radrpc.Lib.Progress
import Radrpc.Server.Workers

/-!
# Cycles of a server

* `Hiring`, `hireDiscipline` : the workers that a start has still to create; `crewDiscipline` : this next to the phases of
  a call;
* `Staffed` : the workers of the current cycle and of the former ones, and what the calls know about them;
* `host_of_crew` : without its workers, this is the server that its calls see;
* `workers_accounted` : `m_workers_done` counts the workers of the cycle that have been through their critical section, the
  last of them says so, and the wait of `stop()` ends when there are no others; `workers_left_uncounted` : a worker that
  has come back from `run()` may not be counted, and need not be the last one;
* `Entering`, `AllCome` : the caller of `start()` enters `run()` once, and not before its workers are created; all threads
  of the cycle have come to `run()`;
* `expectedThreads`, `threads_counted` : when the number of threads is the configured one; `threads_wrap` : with the default
  configuration.
-/

namespace Radrpc
open Conc

/-! ## The workers that a start has still to create -/

/-- What a start knows: its mode, and how many workers it has still to create. -/
structure Hiring where
  async : Bool := false
  left : Nat := 0

/-- Workers are created one by one, and `m_mtx` is held until there are as many as computed. -/
def hireDiscipline (cfgWorkers : UInt32) : Discipline ServerOp ServerOp.Res Hiring where
  pre := fun g o =>
    match o with
    | .spawn => 0 < g.left
    | .unlock => g.left = 0
    | _ => True
  post := fun g o _ =>
    match o with
    | .beginStart async => { g with async := async }
    | .resetWorkers => { g with left := Server.workerCount cfgWorkers g.async }
    | .spawn => { g with left := g.left - 1 }
    | _ => g

theorem spawnWorkers_hires (cfgWorkers : UInt32) (async : Bool) (n : Nat) :
    (hireDiscipline cfgWorkers).Ok (fun _ g => g = ⟨async, 0⟩) ⟨async, n⟩ (Server.spawnWorkers n) := by
  induction n with
  | zero => exact rfl
  | succ n ih => exact ⟨Nat.succ_pos n, fun _ => ih⟩

theorem runAsyncWorkers_hires (cfgWorkers : UInt32) (async : Bool) :
    (hireDiscipline cfgWorkers).Ok (fun _ g => g = ⟨async, 0⟩) ⟨async, 0⟩ (Server.runAsyncWorkers cfgWorkers async) :=
  ⟨trivial, fun _ => ⟨trivial, fun _ => spawnWorkers_hires cfgWorkers async _⟩⟩

theorem serverCall_hires (cfgWorkers : UInt32) (c : ServerCall) :
    (hireDiscipline cfgWorkers).Ok (fun _ _ => True) {} (c.body cfgWorkers) := by
  cases c with
  | start =>
    refine ⟨trivial, fun _ => ⟨trivial, fun running => ?_⟩⟩
    cases running with
    | true => exact ⟨rfl, fun _ => trivial⟩
    | false =>
      show (hireDiscipline cfgWorkers).Ok _ _ ((Server.runAsyncWorkers cfgWorkers false >>= _) >>= _)
      refine Discipline.Ok.bind (Discipline.Ok.bind (runAsyncWorkers_hires cfgWorkers false) (fun _ g hg => ?_))
        (R := fun _ _ => True) ?_
      · subst hg
        exact ⟨rfl, fun _ => ⟨trivial, fun _ => ⟨trivial, fun _ => trivial⟩⟩⟩
      · exact fun _ _ _ => trivial
  | startAsync =>
    refine ⟨trivial, fun _ => ⟨trivial, fun running => ?_⟩⟩
    cases running with
    | true => exact ⟨rfl, fun _ => trivial⟩
    | false =>
      show (hireDiscipline cfgWorkers).Ok _ _ ((Server.runAsyncWorkers cfgWorkers true >>= _) >>= _)
      refine Discipline.Ok.bind (Discipline.Ok.bind (runAsyncWorkers_hires cfgWorkers true) (fun _ g hg => ?_))
        (R := fun _ _ => True) ?_
      · subst hg
        exact ⟨rfl, fun _ => trivial⟩
      · exact fun _ _ _ => trivial
  | stop =>
    refine ⟨trivial, fun _ => ⟨trivial, fun _ => ⟨trivial, fun running => ?_⟩⟩⟩
    cases running with
    | true => exact ⟨trivial, fun _ => ⟨trivial, fun _ => ⟨trivial, fun _ => ⟨rfl, fun _ => trivial⟩⟩⟩⟩
    | false => exact ⟨rfl, fun _ => trivial⟩
  | bind b =>
    refine ⟨trivial, fun _ => ⟨trivial, fun free => ?_⟩⟩
    cases free with
    | true => exact ⟨trivial, fun _ => ⟨rfl, fun _ => trivial⟩⟩
    | false => exact ⟨rfl, fun _ => trivial⟩

/-- The phases of a call, and the workers it has still to create. -/
def crewDiscipline (cfgWorkers : UInt32) : Discipline CrewOp CrewOp.Res (ServerPhase × Hiring) where
  pre := fun v o => (hostDiscipline.prod (hireDiscipline cfgWorkers)).pre v o.op
  post := fun v o r => (hostDiscipline.prod (hireDiscipline cfgWorkers)).post v o.op r

theorem crewCall_enters (cfgWorkers : UInt32) (c : CrewCall) :
    (crewDiscipline cfgWorkers).Ok (fun _ v => v.1 ≠ .blocking) (.outside, {}) ((crewMachine cfgWorkers).body c) := by
  have hboth := (serverCall_enters cfgWorkers c.call).prod (serverCall_hires cfgWorkers c.call)
  show (crewDiscipline cfgWorkers).Ok _ (id _)
    ((c.call.body cfgWorkers).lift (CrewOp.mk c.handler) (fun _ r => r))
  refine Discipline.Ok.lift ?_ ?_ ?_ hboth
  · exact fun _ _ hpre => hpre
  · exact fun _ _ _ _ => rfl
  · exact fun _ _ hq => hq.1.2

theorem crewCall_ok (cfgWorkers : UInt32) (c : CrewCall) :
    (crewDiscipline cfgWorkers).Ok (fun _ _ => True) (.outside, {}) ((crewMachine cfgWorkers).body c) :=
  (crewCall_enters cfgWorkers c).mono fun _ _ _ => trivial

/-! ## What holds in every run -/

def Knows (cfgWorkers : UInt32) (s : Crew) : ServerPhase → Hiring → Prop
  | .opening async, g | .restarted async, g =>
    s.server.running = true ∧ s.server.asyncStart = async ∧ g.async = async ∧ s.current.Complete
  | .opened async, g =>
    s.server.running = true ∧ s.server.asyncStart = async ∧ s.current.workers = Server.workerCount cfgWorkers async ∧
      s.current.threads.length + g.left = s.current.workers
  | .found, _ | .counted, _ => s.server.running = true
  | .joined, _ => s.current.Complete
  | _, _ => True

/-- The members of a server that the invariant is about are the same. -/
structure SameStaff (s s' : Server) : Prop where
  running : s'.running = s.running
  asyncStart : s'.asyncStart = s.asyncStart
  workers : s'.workers = s.workers
  workersDone : s'.workersDone = s.workersDone

/-- The workers of all cycles. -/
structure Staffed (cfgWorkers : UInt32) (s : Crew) (views : Nat → Option (ServerPhase × Hiring)) : Prop where
  holding : Holding s.server (fstViews views)
  states : s.server.workers = s.current.threads.map WorkerStage.state
  done : s.server.workersDone = s.current.counts.length
  valid : s.current.Valid
  former : ∀ c ∈ s.former, c.Valid ∧ c.Complete
  idle : s.server.running = false → s.current.Complete
  full : s.server.running = true → (∀ t v, views t = some v → v.1.active = false) →
    s.current.threads.length = s.current.workers ∧
      s.current.workers = Server.workerCount cfgWorkers s.server.asyncStart
  knows : ∀ t v, views t = some v → Knows cfgWorkers s v.1 v.2

variable {cfgWorkers : UInt32}

theorem sameStaff_of_writeBind {t : Nat} {b : Binding} {i : Unit} {r : Bool} {s s' : Server}
    (h : (ServerOp.writeBind b).exec cfgWorkers t i s = some (r, s')) : SameStaff s s' := by
  simp only [ServerOp.exec] at h
  split at h
  · split at h
    · cases h
      exact ⟨rfl, rfl, rfl, rfl⟩
    · cases h
      exact ⟨rfl, rfl, rfl, rfl⟩
  · cases h
    exact ⟨rfl, rfl, rfl, rfl⟩

theorem sameStaff_of_step {s s' : Server} {e : ServerEnv} (he : e.ofWorker = false) (h : s.step e = some s') :
    SameStaff s s' := by
  cases e with
  | ioStop | signal | onSignal =>
    simp only [Server.step] at h
    split at h
    · cases h
      exact ⟨rfl, rfl, rfl, rfl⟩
    · cases h
  | sessions n =>
    cases h
    exact ⟨rfl, rfl, rfl, rfl⟩
  | _ => cases he

theorem knows_of_not_holds (s : Crew) {v : ServerPhase} (g : Hiring) (hl : v.holds = false) : Knows cfgWorkers s v g := by
  cases v with
  | opening async | restarted async | opened async | found | counted | joined => cases hl
  | _ => trivial

theorem Knows.congr {s : Crew} {server : Server} {v : ServerPhase} {g : Hiring} (hs : SameStaff s.server server)
    (h : Knows cfgWorkers s v g) : Knows cfgWorkers { s with server := server } v g := by
  cases v with
  | opening async | restarted async | opened async => exact ⟨hs.running.trans h.1, hs.asyncStart.trans h.2.1, h.2.2⟩
  | found | counted => exact hs.running.trans h
  | _ => exact h

theorem fstViews_of {views : Nat → Option (ServerPhase × Hiring)} {t : Nat} {v : ServerPhase × Hiring}
    (hv : views t = some v) : fstViews views t = some v.1 := by
  rw [fstViews, hv]
  rfl

namespace Staffed

variable {s s' : Crew} {views : Nat → Option (ServerPhase × Hiring)}

theorem new (cfgWorkers : UInt32) : Staffed cfgWorkers {} fun _ => none :=
  ⟨fun _ _ h => (by cases h), rfl, rfl, .new 0 false, fun _ h => (by cases h), fun _ => ⟨rfl, fun _ h => (by cases h)⟩,
    fun h => (by cases h), fun _ _ h => (by cases h)⟩

theorem knows_at (h : Staffed cfgWorkers s views) {t : Nat} {v : ServerPhase} {g : Hiring} (hv : views t = some (v, g)) :
    Knows cfgWorkers s v g :=
  h.knows t (v, g) hv

theorem others (h : Staffed cfgWorkers s views) {t : Nat} {v : ServerPhase × Hiring} (hv : views t = some v)
    (hl : v.1.holds = true) (s' : Crew) {t' : Nat} {v' : ServerPhase × Hiring} (hne : t' ≠ t) (hv' : views t' = some v') :
    Knows cfgWorkers s' v'.1 v'.2 :=
  knows_of_not_holds s' v'.2 <| Bool.eq_false_iff.mpr fun hl' =>
    hne (h.holding.unique (fstViews_of hv) hl (fstViews_of hv') hl')

theorem knows_update {t : Nat} {w : ServerPhase × Hiring} (hw : Knows cfgWorkers s' w.1 w.2)
    (hothers : ∀ t' v', t' ≠ t → views t' = some v' → Knows cfgWorkers s' v'.1 v'.2) :
    ∀ t' v', Function.update views t (some w) t' = some v' → Knows cfgWorkers s' v'.1 v'.2 := by
  intro t' v' hv'
  rcases view_of_update hv' with ⟨-, rfl⟩ | ⟨hne, hv'⟩
  · exact hw
  · exact hothers t' v' hne hv'

theorem full_of_same (h : Staffed cfgWorkers s views) {server : Server} (hs : SameStaff s.server server)
    (hr : server.running = true) (hall : ∀ t v, views t = some v → v.1.active = false) :
    s.current.threads.length = s.current.workers ∧
      s.current.workers = Server.workerCount cfgWorkers server.asyncStart := by
  obtain ⟨hlen, hworkers⟩ := h.full (hs.running.symm.trans hr) hall
  refine ⟨hlen, ?_⟩
  rw [hs.asyncStart]
  exact hworkers

theorem keep (h : Staffed cfgWorkers s views) {t : Nat} {v w : ServerPhase × Hiring} {server : Server}
    (hv : views t = some v) (hh : Holding server (fstViews (Function.update views t (some w))))
    (hs : SameStaff s.server server) (hw : Knows cfgWorkers s w.1 w.2) (ha : v.1.active = true → w.1.active = true) :
    Staffed cfgWorkers { s with server := server } (Function.update views t (some w)) := by
  refine ⟨hh, hs.workers.trans h.states, hs.workersDone.trans h.done, h.valid, h.former,
    fun hf => h.idle (hs.running.symm.trans hf), fun hr hidle => ?_,
    knows_update (hw.congr hs) fun t' v' _ hv' => (h.knows t' v' hv').congr hs⟩
  have hall : ∀ t' v', views t' = some v' → v'.1.active = false := by
    intro t' v' hv'
    by_cases ht : t' = t
    · subst ht
      obtain rfl := Option.some.inj (hv.symm.trans hv')
      have hwa := hidle t' w (Function.update_self t' (some w) views)
      exact Bool.eq_false_iff.mpr fun hf => Bool.eq_false_iff.mp hwa (ha hf)
    · exact hidle t' v' ((Function.update_of_ne ht (some w) views).trans hv')
  exact h.full_of_same hs hr hall

theorem same (h : Staffed cfgWorkers s views) (h1 : s'.server = s.server) (h2 : s'.current = s.current)
    (h3 : s'.former = s.former) : Staffed cfgWorkers s' views := by
  refine ⟨h1 ▸ h.holding, ?_, ?_, h2 ▸ h.valid, h3 ▸ h.former, fun hf => ?_, fun hr hidle => ?_, fun t v hv => ?_⟩
  · rw [h1, h2]
    exact h.states
  · rw [h1, h2]
    exact h.done
  · rw [h2]
    exact h.idle (h1 ▸ hf)
  · rw [h1, h2]
    exact h.full (h1 ▸ hr) hidle
  · have hknows := h.knows t v hv
    obtain ⟨v, g⟩ := v
    cases v with
    | opening async | restarted async | opened async | found | counted | joined =>
      simp only [Knows, h1, h2] at hknows ⊢
      exact hknows
    | _ => trivial

theorem call (h : Staffed cfgWorkers s views) {t : Nat} (ht : views t = none) :
    Staffed cfgWorkers s (Function.update views t (some (.outside, {}))) := by
  refine ⟨fun t' v' hv' hp => ?_, h.states, h.done, h.valid, h.former, h.idle, fun hr hidle => h.full hr ?_,
    knows_update trivial fun t' v' _ hv' => h.knows t' v' hv'⟩
  · rw [fstViews_update] at hv'
    rcases view_of_update hv' with ⟨-, rfl⟩ | ⟨-, hv'⟩
    · cases hp
    · exact h.holding t' v' hv' hp
  · intro t' v' hv'
    refine hidle t' v' ((Function.update_of_ne ?_ _ views).trans hv')
    rintro rfl
    cases ht.symm.trans hv'

theorem not_idle {t : Nat} {w : ServerPhase × Hiring} (hw : w.1.active = true) {P : Prop}
    (hidle : ∀ t' v', Function.update views t (some w) t' = some v' → v'.1.active = false) : P := by
  have hf := hidle t w (Function.update_self t (some w) views)
  rw [hw] at hf
  cases hf

theorem idle_of_holds (h : Staffed cfgWorkers s views) {t : Nat} {v : ServerPhase × Hiring} (hv : views t = some v)
    (hl : v.1.holds = true) (ha : v.1.active = false) : ∀ t' v', views t' = some v' → v'.1.active = false := by
  intro t' v' hv'
  refine Bool.eq_false_iff.mpr fun hf => ?_
  obtain rfl := h.holding.unique (fstViews_of hv) hl (fstViews_of hv') (ServerPhase.holds_of_active hf)
  obtain rfl := Option.some.inj (hv.symm.trans hv')
  rw [ha] at hf
  cases hf

theorem complete_of_finished (h : Staffed cfgWorkers s views) (hfull : s.current.threads.length = s.current.workers)
    (hfin : ∀ w ∈ s.server.workers, w = .finished) : s.current.Complete := by
  refine ⟨hfull, fun stage hmem => ?_⟩
  have hstate : stage.state = .finished := hfin _ (h.states ▸ List.mem_map_of_mem hmem)
  cases stage with
  | finished => rfl
  | _ => cases hstate

theorem beginStart (h : Staffed cfgWorkers s views) {t : Nat} {async : Bool} {g : Hiring} {server : Server}
    (hv : views t = some (.locked, g)) (hr : s.server.running = false)
    (hh : Holding server (fstViews (Function.update views t (some (.opening async, { g with async := async })))))
    (h1 : server.running = true) (h2 : server.asyncStart = async) (h3 : server.workers = s.server.workers)
    (h4 : server.workersDone = s.server.workersDone) :
    Staffed cfgWorkers { s with server := server }
      (Function.update views t (some (.opening async, { g with async := async }))) := by
  refine ⟨hh, h3.trans h.states, h4.trans h.done, h.valid, h.former, fun hf => ?_, fun _ hidle => not_idle rfl hidle,
    knows_update ⟨h1, h2, rfl, h.idle hr⟩ fun t' v' hne hv' => h.others hv rfl _ hne hv'⟩
  cases h1.symm.trans hf

theorem resetWorkers (h : Staffed cfgWorkers s views) {t : Nat} {async handler : Bool} {g : Hiring}
    (hv : views t = some (.restarted async, g))
    (hh : Holding { s.server with workers := [], workersDone := 0 } (fstViews (Function.update views t
      (some (.opened async, { g with left := Server.workerCount cfgWorkers g.async }))))) :
    Staffed cfgWorkers
      (s.after cfgWorkers t ⟨handler, .resetWorkers⟩ { s.server with workers := [], workersDone := 0 })
      (Function.update views t (some (.opened async, { g with left := Server.workerCount cfgWorkers g.async }))) := by
  obtain ⟨hr, hasync, hg, hcomplete⟩ := h.knows_at hv
  refine ⟨hh, rfl, rfl, .new _ _, fun c hc => ?_, fun hf => ?_, fun _ hidle => not_idle rfl hidle,
    knows_update ⟨hr, hasync, congrArg (Server.workerCount cfgWorkers) hasync, ?_⟩
      fun t' v' hne hv' => h.others hv rfl _ hne hv'⟩
  · rcases List.mem_append.mp hc with hc | hc
    · exact h.former c hc
    · obtain rfl := List.mem_singleton.mp hc
      exact ⟨h.valid, hcomplete⟩
  · cases hr.symm.trans hf
  · show 0 + Server.workerCount cfgWorkers g.async = Server.workerCount cfgWorkers s.server.asyncStart
    rw [Nat.zero_add, hg, hasync]

theorem spawn (h : Staffed cfgWorkers s views) {t : Nat} {async handler : Bool} {g : Hiring}
    (hv : views t = some (.opened async, g)) (hleft : 0 < g.left)
    (hh : Holding { s.server with workers := s.server.workers ++ [.created] } (fstViews (Function.update views t
      (some (.opened async, { g with left := g.left - 1 }))))) :
    Staffed cfgWorkers
      (s.after cfgWorkers t ⟨handler, .spawn⟩ { s.server with workers := s.server.workers ++ [.created] })
      (Function.update views t (some (.opened async, { g with left := g.left - 1 }))) := by
  obtain ⟨hr, hasync, hworkers, hlen⟩ := h.knows_at hv
  refine ⟨hh, ?_, h.done, h.valid.spawn (by omega), h.former, fun hf => ?_, fun _ hidle => not_idle rfl hidle,
    knows_update ⟨hr, hasync, hworkers, ?_⟩ fun t' v' hne hv' => h.others hv rfl _ hne hv'⟩
  · show s.server.workers ++ [WorkerState.created] =
      (s.current.threads ++ [WorkerStage.created]).map WorkerStage.state
    rw [List.map_append, ← h.states]
    rfl
  · cases hr.symm.trans hf
  · show (s.current.threads ++ [WorkerStage.created]).length + (g.left - 1) = s.current.workers
    rw [List.length_append, List.length_singleton]
    omega

theorem unlockStart (h : Staffed cfgWorkers s views) {t : Nat} {async : Bool} {g : Hiring} {w : ServerPhase × Hiring}
    {server : Server} (hv : views t = some (.opened async, g)) (hleft : g.left = 0) (hw : w.1.holds = false)
    (hh : Holding server (fstViews (Function.update views t (some w)))) (hs : SameStaff s.server server) :
    Staffed cfgWorkers { s with server := server } (Function.update views t (some w)) := by
  obtain ⟨hr, hasync, hworkers, hlen⟩ := h.knows_at hv
  refine ⟨hh, hs.workers.trans h.states, hs.workersDone.trans h.done, h.valid, h.former, fun hf => ?_, fun _ _ => ?_,
    knows_update (knows_of_not_holds _ _ hw) fun t' v' hne hv' => h.others hv rfl _ hne hv'⟩
  · cases hr.symm.trans (hs.running.symm.trans hf)
  · have hfull : s.current.threads.length = s.current.workers := by omega
    refine ⟨hfull, hworkers.trans ?_⟩
    show _ = Server.workerCount cfgWorkers server.asyncStart
    rw [hs.asyncStart, hasync]

theorem clearRunning (h : Staffed cfgWorkers s views) {t : Nat} {g : Hiring} (hv : views t = some (.joined, g))
    (hh : Holding { s.server with running := false } (fstViews (Function.update views t (some (.settled, g))))) :
    Staffed cfgWorkers { s with server := { s.server with running := false } }
      (Function.update views t (some (.settled, g))) :=
  ⟨hh, h.states, h.done, h.valid, h.former, fun _ => h.knows t _ hv, fun hf => (by cases hf),
    knows_update trivial fun t' v' hne hv' => h.others hv rfl _ hne hv'⟩

theorem exec (h : Staffed cfgWorkers s views) {t : Nat} {o : CrewOp} {i : Unit} {r : o.Res} {v : ServerPhase × Hiring}
    (hv : views t = some v) (hpre : (crewDiscipline cfgWorkers).pre v o)
    (hs : s.exec cfgWorkers t o i = some (r, s')) :
    Staffed cfgWorkers s' (Function.update views t (some ((crewDiscipline cfgWorkers).post v o r))) := by
  obtain ⟨v, g⟩ := v
  obtain ⟨handler, o⟩ := o
  obtain ⟨hphase, hhire⟩ := hpre
  obtain ⟨⟨r₁, server⟩, hex, heq⟩ := Option.map_eq_some_iff.mp hs
  cases heq
  have hknows := h.knows_at hv
  have hh : Holding server (fstViews (Function.update views t
      (some ((crewDiscipline cfgWorkers).post (v, g) ⟨handler, o⟩ r₁)))) := by
    rw [fstViews_update]
    exact h.holding.exec (fstViews_of hv) hphase hex
  cases hphase with
  | lock | lockStop =>
    simp only [ServerOp.exec] at hex
    split at hex
    · cases hex
      exact h.keep hv hh ⟨rfl, rfl, rfl, rfl⟩ trivial fun hf => by cases hf
    · cases hex
  | stopIo =>
    cases hex
    exact h.keep hv hh ⟨rfl, rfl, rfl, rfl⟩ trivial fun hf => by cases hf
  | beginStart async =>
    simp only [ServerOp.exec] at hex
    split at hex
    · cases hex
      exact h.keep hv hh ⟨rfl, rfl, rfl, rfl⟩ trivial fun hf => by cases hf
    · rename_i hr
      cases hex
      exact h.beginStart hv (Bool.eq_false_iff.mpr hr) hh rfl rfl rfl rfl
  | restart async =>
    cases hex
    refine h.keep hv hh ?_ hknows fun _ => rfl
    split
    · exact ⟨rfl, rfl, rfl, rfl⟩
    · exact ⟨rfl, rfl, rfl, rfl⟩
  | resetWorkers async =>
    cases hex
    exact h.resetWorkers hv hh
  | spawn async =>
    cases hex
    exact h.spawn hv hhire hh
  | unlockStart async =>
    cases hex
    exact h.unlockStart hv hhire (by cases async <;> rfl) hh ⟨rfl, rfl, rfl, rfl⟩
  | enterRun =>
    cases hex
    exact (h.keep hv hh ⟨rfl, rfl, rfl, rfl⟩ trivial fun hf => by cases hf).same rfl rfl rfl
  | leaveRun =>
    simp only [ServerOp.exec] at hex
    split at hex
    · cases hex
      exact h.keep hv hh ⟨rfl, rfl, rfl, rfl⟩ trivial fun hf => by cases hf
    · cases hex
  | readRunning =>
    cases hex
    refine h.keep hv hh ⟨rfl, rfl, rfl, rfl⟩ ?_ fun hf => by cases hf
    show Knows cfgWorkers s (ServerPhase.stopLocked.next .readRunning s.server.running) g
    cases hr : s.server.running with
    | true => exact hr
    | false => trivial
  | waitWorkers =>
    simp only [ServerOp.exec] at hex
    split at hex
    · cases hex
      exact h.keep hv hh ⟨rfl, rfl, rfl, rfl⟩ hknows fun hf => by cases hf
    · cases hex
  | joinWorkers =>
    simp only [ServerOp.exec] at hex
    split at hex
    · rename_i hfin
      cases hex
      have hfull := h.full hknows (h.idle_of_holds hv rfl rfl)
      exact h.keep hv hh ⟨rfl, rfl, rfl, rfl⟩ (h.complete_of_finished hfull.1 hfin) fun hf => by cases hf
    · cases hex
  | clearRunning =>
    cases hex
    exact h.clearRunning hv hh
  | unlockStop =>
    cases hex
    exact h.keep hv hh ⟨rfl, rfl, rfl, rfl⟩ trivial fun hf => by cases hf
  | testBind =>
    cases hex
    refine h.keep hv hh ⟨rfl, rfl, rfl, rfl⟩ ?_ fun hf => by cases hf
    show Knows cfgWorkers s (ServerPhase.locked.next .testBind _) g
    cases !s.server.running && decide (s.server.connections = 0) with
    | true => trivial
    | false => trivial
  | writeBind b =>
    exact h.keep hv hh (sameStaff_of_writeBind hex) trivial fun hf => by cases hf
  | unlock =>
    cases hex
    exact h.keep hv hh ⟨rfl, rfl, rfl, rfl⟩ trivial fun hf => by cases hf

theorem moves (h : Staffed cfgWorkers s views) {c : Cycle} {done i : Nat}
    (hm : s.current.Moves s.server.stopped s.server.workersDone i c done) :
    Staffed cfgWorkers
      { s with server := { s.server with workers := c.threads.map WorkerStage.state, workersDone := done }, current := c }
      views := by
  have hnot : ¬ s.current.Complete := fun hc => hc.not_moves hm
  obtain ⟨hworkers, hlen⟩ := hm.workers
  rw [h.done] at hm
  obtain ⟨hvalid, hdone⟩ := h.valid.moves hm
  refine ⟨h.holding, rfl, hdone, hvalid, h.former, fun hf => absurd (h.idle hf) hnot, fun hr hidle => ?_,
    fun t v hv => ?_⟩
  · show c.threads.length = c.workers ∧ _
    rw [hlen, hworkers]
    exact h.full hr hidle
  · obtain ⟨v, g⟩ := v
    have hknows := h.knows_at hv
    cases v with
    | opening async | restarted async => exact absurd hknows.2.2.2 hnot
    | joined => exact absurd hknows hnot
    | opened async =>
      obtain ⟨hr, hasync, hwork, hleft⟩ := hknows
      exact ⟨hr, hasync, hworkers.trans hwork, by rw [hlen, hworkers]; exact hleft⟩
    | found | counted => exact hknows
    | _ => trivial

theorem not_former (h : Staffed cfgWorkers s views) (k i : Nat) (m : WorkerMove) : s.step (.former k i m) = none := by
  cases hs : s.step (.former k i m) with
  | none => rfl
  | some s' =>
    obtain ⟨c, hc, hstep⟩ := Option.bind_eq_some_iff.mp hs
    obtain ⟨⟨c', done⟩, hmove, -⟩ := Option.map_eq_some_iff.mp hstep
    exact absurd (Cycle.moves_of_move hmove) (h.former c (List.mem_of_getElem? hc)).2.not_moves

theorem step (h : Staffed cfgWorkers s views) {e : CrewEnv} (hs : s.step e = some s') : Staffed cfgWorkers s' views := by
  cases e with
  | worker i m =>
    obtain ⟨⟨c, done⟩, hmove, rfl⟩ := Option.map_eq_some_iff.mp hs
    exact h.moves (Cycle.moves_of_move hmove)
  | former k i m =>
    rw [h.not_former] at hs
    cases hs
  | server e =>
    simp only [Crew.step] at hs
    split at hs
    · cases hs
    · rename_i he
      obtain ⟨server, hserver, rfl⟩ := Option.map_eq_some_iff.mp hs
      have hsame := sameStaff_of_step (Bool.eq_false_iff.mpr he) hserver
      refine ⟨h.holding.moves (Server.moves_of_step hserver), hsame.workers.trans h.states, hsame.workersDone.trans h.done,
        h.valid, h.former, fun hf => h.idle (hsame.running.symm.trans hf), h.full_of_same hsame,
        fun t v hv => (h.knows t v hv).congr hsame⟩

end Staffed

theorem staffed_of_reach {p : CrewPool} (hp : (crewMachine cfgWorkers).Reach Machine.Free {} p) :
    ∃ views, Staffed cfgWorkers p.shared views ∧
      Machine.Linked (crewDiscipline cfgWorkers) (fun _ _ _ _ => True) p views :=
  Machine.sound (fun _ _ => (.outside, {})) (.new cfgWorkers) (fun _ c => crewCall_ok cfgWorkers c)
    (fun _ _ _ _ _ _ h _ hv => h.call hv) (fun _ _ _ _ _ _ _ _ _ _ h _ _ hv hpre hs => h.exec hv hpre hs)
    (fun _ _ _ _ _ _ h _ hs => h.step hs) hp

/-! ## The server without its workers -/

theorem Staffed.getElem?_workers {s : Crew} {views : Nat → Option (ServerPhase × Hiring)} (h : Staffed cfgWorkers s views)
    {i : Nat} {stage : WorkerStage} (hi : s.current.threads[i]? = some stage) :
    s.server.workers[i]? = some stage.state := by
  rw [h.states, List.getElem?_map, hi]
  rfl

theorem Staffed.worker_step {s : Crew} {views : Nat → Option (ServerPhase × Hiring)} (h : Staffed cfgWorkers s views)
    {c : Cycle} {done i : Nat} (hm : s.current.Moves s.server.stopped s.server.workersDone i c done) :
    { s.server with workers := c.threads.map WorkerStage.state, workersDone := done } = s.server ∨
      ∃ e, s.server.step e =
        some { s.server with workers := c.threads.map WorkerStage.state, workersDone := done } := by
  have hset : ∀ stage : WorkerStage, (s.current.threads.set i stage).map WorkerStage.state =
      s.server.workers.set i stage.state := fun stage => by rw [List.map_set, h.states]
  have hsame : ∀ before after : WorkerStage, s.current.threads[i]? = some before → after.state = before.state →
      (s.current.threads.set i after).map WorkerStage.state = s.server.workers := by
    intro before after hi hstate
    rw [hset, hstate]
    obtain ⟨hlt, hget⟩ := List.getElem?_eq_some_iff.mp (h.getElem?_workers hi)
    rw [← hget, List.set_getElem_self]
  cases hm with
  | enter hi =>
    refine .inr ⟨.workerEnter i, ?_⟩
    simp only [Server.step, Server.worker, h.getElem?_workers hi, Cycle.goes, hset]
    rfl
  | leave hi hs =>
    refine .inr ⟨.workerLeave i, ?_⟩
    simp only [Server.step, Server.worker, h.getElem?_workers hi, Cycle.goes, hset, hs]
    rfl
  | count hi =>
    refine .inr ⟨.workerCount i, ?_⟩
    simp only [Server.step, Server.worker, h.getElem?_workers hi, Cycle.goes, hset]
    rfl
  | notify hi =>
    left
    simp only [Cycle.goes, hsame (.counted true) .notified hi rfl]
  | callHandler hi _ =>
    left
    simp only [Cycle.goes, hsame .notified .called hi rfl]
  | finishQuiet hi | finishNotified hi _ | finishCalled hi =>
    refine .inr ⟨.workerFinish i, ?_⟩
    simp only [Server.step, Server.worker, h.getElem?_workers hi, Cycle.goes, hset]
    rfl

theorem host_of_crew {p : CrewPool} (hp : (crewMachine cfgWorkers).Reach Machine.Free {} p) :
    ∃ q : HostPool, (hostMachine cfgWorkers).Reach Machine.Free {} q ∧ q.shared = p.shared.server ∧
      ∀ t, (p.thread t = none ∧ q.thread t = none) ∨
        ∃ c prog, p.thread t = some (c, prog.lift (CrewOp.mk c.handler) fun _ r => r) ∧
          q.thread t = some (c.call, prog) := by
  refine Machine.Reach.forget (M := hostMachine cfgWorkers) Crew.server CrewCall.call (fun c => CrewOp.mk c.handler)
    (fun _ _ r => r) (fun _ => rfl) (fun p t c o i r s' _ hs => ?_) (fun p e s' hr he => ?_) hp
  · obtain ⟨⟨r', server⟩, hex, heq⟩ := Option.map_eq_some_iff.mp hs
    cases heq
    have hserver : (p.shared.after cfgWorkers t ⟨c.handler, o⟩ server).server = server := by
      cases o <;> rfl
    rw [hserver]
    exact hex
  · obtain ⟨views, h, -⟩ := staffed_of_reach hr
    cases e with
    | worker i m =>
      obtain ⟨⟨c, done⟩, hmove, rfl⟩ := Option.map_eq_some_iff.mp he
      exact h.worker_step (Cycle.moves_of_move hmove)
    | former k i m => cases (h.not_former k i m).symm.trans he
    | server e =>
      simp only [crewMachine, Crew.step] at he
      split at he
      · cases he
      · obtain ⟨server, hserver, rfl⟩ := Option.map_eq_some_iff.mp he
        exact .inr ⟨e, hserver⟩

/-! ## The workers are accounted for -/

/-- The accounts of the workers of all cycles. -/
structure WorkersAccounted (p : CrewPool) : Prop where
  done : p.shared.server.workersDone = p.shared.current.threads.countP WorkerStage.hasCounted
  said : ∀ c ∈ p.shared.current :: p.shared.former,
    (c.notifies = [] ∨ ∃ i, c.last = some i ∧ c.notifies = [i]) ∧
      (c.handlerCalls = [] ∨ c.handler = true ∧ c.handlerCalls = c.notifies)
  complete : ∀ c ∈ p.shared.current :: p.shared.former, c.Complete → 0 < c.workers →
    ∃ i, c.last = some i ∧ c.notifies = [i] ∧ c.handlerCalls = if c.handler then [i] else []
  former : ∀ c ∈ p.shared.former, c.Complete
  late : ∀ k i m, p.shared.step (.former k i m) = none

/-- The workers of the cycle have all been created, and have come back from `run()`. -/
def Cycle.AllLeft (c : Cycle) : Prop :=
  c.threads.length = c.workers ∧ ∀ stage ∈ c.threads, stage.hasCounted = true ∧ stage.hasLeft = true

theorem WorkerStage.hasLeft_of_hasCounted {stage : WorkerStage} (h : stage.hasCounted = true) :
    stage.hasLeft = true := by
  cases stage with
  | created | running | left => cases h
  | _ => rfl

theorem Staffed.waited {p p' : CrewPool} {views : Nat → Option (ServerPhase × Hiring)}
    (h : Staffed cfgWorkers p.shared views)
    (hl : Machine.Linked (crewDiscipline cfgWorkers) (fun _ _ _ _ => True) p views) {t : Nat} {o : CrewOp}
    (hnext : p.next t = some o) (ho : o.op = .waitWorkers)
    (hs : (crewMachine cfgWorkers).step p (.op t ()) = some p') : p.shared.current.AllLeft := by
  obtain ⟨c, o', k, r, s, ht, hex, rfl⟩ := Machine.step_op hs
  obtain rfl := Option.some.inj (hnext.symm.trans (Machine.next_of_thread ht))
  obtain ⟨handler, o⟩ := o
  obtain rfl : o = .waitWorkers := ho
  obtain ⟨⟨v, g⟩, hv, ⟨hphase, -⟩, -⟩ := hl.ok ht
  cases hphase
  obtain ⟨hlen, hworkers⟩ := h.full (h.knows_at hv) (h.idle_of_holds hv rfl rfl)
  obtain ⟨⟨_, server⟩, hexec, -⟩ := Option.map_eq_some_iff.mp hex
  simp only [ServerOp.exec] at hexec
  split at hexec
  · rename_i hdone
    have hcounts : p.shared.current.counts.length = p.shared.current.threads.length := by
      rw [hlen, hworkers, hdone, h.done]
    have hall := h.valid.counts.all_of_length hcounts
    exact ⟨hlen, fun stage hmem => ⟨hall stage hmem, WorkerStage.hasLeft_of_hasCounted (hall stage hmem)⟩⟩
  · cases hexec

/-- **Worker accounting.** In every run of a server, over any number of cycles: `m_workers_done` is the number of workers
of the cycle that have come back from `run()` and been through their critical section; in every cycle the last worker to
do so, when there are as many as `run_async_workers` has computed, and no other one notifies `m_cv_stop` and calls the
handler, once; the wait of a `stop()` ends only when all of them have come back from `run()`; and no worker of an earlier
cycle can move. -/
theorem workers_accounted {p : CrewPool} (hp : (crewMachine cfgWorkers).Reach Machine.Free {} p) :
    WorkersAccounted p ∧ ∀ t o p', p.next t = some o → o.op = .waitWorkers →
      (crewMachine cfgWorkers).step p (.op t ()) = some p' → p.shared.current.AllLeft := by
  obtain ⟨views, h, hl⟩ := staffed_of_reach hp
  have hvalid : ∀ c ∈ p.shared.current :: p.shared.former, c.Valid := by
    intro c hc
    rcases List.mem_cons.mp hc with rfl | hc
    · exact h.valid
    · exact (h.former c hc).1
  refine ⟨⟨h.done.trans h.valid.counts.length, fun c hc => (hvalid c hc).said,
    fun c hc => (hvalid c hc).said_of_complete, fun c hc => (h.former c hc).2, h.not_former⟩, ?_⟩
  exact fun t o p' hnext ho hs => h.waited hl hnext ho hs

/-- Two workers are started with a handler and stopped; they come back from `run()` in this order. -/
def twoWorkers : List (Act CrewCall Unit CrewEnv) :=
  [.call 0 (.asyncStart true), .op 0 (), .op 0 (), .op 0 (), .op 0 (), .op 0 (), .op 0 (), .op 0 (),
    .env (.worker 0 .enter), .env (.worker 1 .enter), .call 1 .stop, .op 1 (), .op 1 (), .op 1 (),
    .env (.worker 0 .leave), .env (.worker 1 .leave)]

/-- The second worker is the first one to count itself. -/
def twoCounted : List (Act CrewCall Unit CrewEnv) :=
  twoWorkers ++ [.env (.worker 1 .count), .env (.worker 0 .count), .env (.worker 0 .notify)]

/-- The workers come to their end, and the server is stopped and started again. -/
def twoCycles : List (Act CrewCall Unit CrewEnv) :=
  twoCounted ++ [.env (.worker 0 .callHandler), .env (.worker 0 .finish), .env (.worker 1 .finish), .op 1 (), .op 1 (),
    .op 1 (), .op 1 (), .call 2 .start, .op 2 (), .op 2 (), .op 2 (), .op 2 ()]

theorem workers_accounted_cycles : ∃ p : CrewPool, (crewMachine 2).Reach Machine.Free {} p ∧ WorkersAccounted p ∧
    p.shared.former.map Cycle.handlerCalls = [[], [0]] ∧ p.shared.current.workers = 1 := by
  have hrun : ((crewMachine 2).run (fun _ _ => true) (.initial {}) twoCycles).any
      (fun p => decide (p.shared.former.map Cycle.handlerCalls = [[], [0]]) && decide (p.shared.current.workers = 1)) =
      true := by
    decide +kernel
  obtain ⟨p, hp, hf⟩ := Machine.Reach.exists_of_run (fun _ _ _ => trivial) twoCycles hrun
  simp only [Bool.and_eq_true, decide_eq_true_eq] at hf
  exact ⟨p, hp, (workers_accounted hp).1, hf⟩

/-- `m_workers_done` is not the number of workers that have come back from `run()`, and the worker that notifies is not
the last one to come back. -/
theorem workers_left_uncounted :
    ¬ (∀ p : CrewPool, (crewMachine 2).Reach Machine.Free {} p →
      p.shared.server.workersDone = p.shared.current.leaves.length) ∧
    ¬ (∀ p : CrewPool, (crewMachine 2).Reach Machine.Free {} p →
      ∀ i, p.shared.current.notifies = [i] → p.shared.current.leaves.getLast? = some i) := by
  constructor
  · intro hall
    have hrun : ((crewMachine 2).run (fun _ _ => true) (.initial {}) twoWorkers).any
        (fun p => decide (p.shared.server.workersDone ≠ p.shared.current.leaves.length)) = true := by
      decide +kernel
    obtain ⟨p, hp, hf⟩ := Machine.Reach.exists_of_run (fun _ _ _ => trivial) twoWorkers hrun
    exact of_decide_eq_true hf (hall p hp)
  · intro hall
    have hrun : ((crewMachine 2).run (fun _ _ => true) (.initial {}) twoCounted).any
        (fun p => decide (p.shared.current.notifies = [0]) && decide (p.shared.current.leaves.getLast? ≠ some 0)) =
        true := by
      decide +kernel
    obtain ⟨p, hp, hf⟩ := Machine.Reach.exists_of_run (fun _ _ _ => trivial) twoCounted hrun
    simp only [Bool.and_eq_true, decide_eq_true_eq] at hf
    exact hf.2 (hall p hp 0 hf.1)

/-! ## The call that begins a cycle -/

/-- The call that has begun the cycle has not entered `run()` before its workers are created; then it does so once, if it
is a `start()`. -/
structure Entering (s : Crew) (views : Nat → Option (ServerPhase × Hiring)) : Prop where
  opened : ∀ t async g, views t = some (.opened async, g) → s.starter = some t ∧ s.runs = 0
  begun : s.server.running = true → (∀ t v, views t = some v → v.1.active = false) →
    ∃ t v, s.starter = some t ∧ views t = some v ∧ (v.1 = .blocking → s.server.asyncStart = false) ∧
      s.runs = if s.server.asyncStart = true ∨ v.1 = .blocking then 0 else 1

namespace Entering

variable {s s' : Crew} {views : Nat → Option (ServerPhase × Hiring)}

theorem new : Entering {} fun _ => none := ⟨fun _ _ _ hv => (by cases hv), fun hr => (by cases hr)⟩

theorem call (h : Entering s views) {t : Nat} (ht : views t = none) :
    Entering s (Function.update views t (some (.outside, {}))) := by
  have hne : ∀ {t' v'}, views t' = some v' → t' ≠ t := by
    rintro t' v' hv' rfl
    cases ht.symm.trans hv'
  refine ⟨fun t' async g hv' => ?_, fun hr hidle => ?_⟩
  · rcases view_of_update hv' with ⟨-, he⟩ | ⟨-, hv'⟩
    · cases he
    · exact h.opened t' async g hv'
  · obtain ⟨t₀, v₀, hst, hv₀, hrest⟩ := h.begun hr fun t' v' hv' =>
      hidle t' v' ((Function.update_of_ne (hne hv') _ views).trans hv')
    exact ⟨t₀, v₀, hst, (Function.update_of_ne (hne hv₀) _ views).trans hv₀, hrest⟩

theorem quiet (h : Entering s views) {t : Nat} {v w : ServerPhase × Hiring} {server : Server} (hv : views t = some v)
    (hs : SameStaff s.server server) (hva : v.1.active = false) (hvb : v.1 ≠ .blocking) (hwa : w.1.active = false)
    (hwb : w.1 ≠ .blocking) : Entering { s with server := server } (Function.update views t (some w)) := by
  refine ⟨fun t' async g hv' => ?_, fun hr hidle => ?_⟩
  · rcases view_of_update hv' with ⟨-, he⟩ | ⟨-, hv'⟩
    · rw [← he] at hwa
      cases hwa
    · exact h.opened t' async g hv'
  · have hall : ∀ t' v', views t' = some v' → v'.1.active = false := by
      intro t' v' hv'
      by_cases ht : t' = t
      · subst ht
        obtain rfl := Option.some.inj (hv.symm.trans hv')
        exact hva
      · exact hidle t' v' ((Function.update_of_ne ht (some w) views).trans hv')
    obtain ⟨t₀, v₀, hst, hv₀, hblock, hruns⟩ := h.begun (hs.running.symm.trans hr) hall
    dsimp only
    rw [hs.asyncStart]
    by_cases ht : t₀ = t
    · subst ht
      obtain rfl := Option.some.inj (hv.symm.trans hv₀)
      refine ⟨t₀, w, hst, Function.update_self t₀ (some w) views, fun hf => absurd hf hwb, ?_⟩
      rw [hruns]
      simp only [hvb, hwb]
    · exact ⟨t₀, v₀, hst, (Function.update_of_ne ht (some w) views).trans hv₀, hblock, hruns⟩

theorem starting (h : Entering s views) {t : Nat} {w : ServerPhase × Hiring} (hwa : w.1.active = true)
    (h1 : s'.starter = s.starter) (h2 : s'.runs = s.runs)
    (ho : ∀ async, w.1 = .opened async → s.starter = some t ∧ s.runs = 0) :
    Entering s' (Function.update views t (some w)) := by
  refine ⟨fun t' async g hv' => ?_, fun _ hidle => Staffed.not_idle hwa hidle⟩
  rw [h1, h2]
  rcases view_of_update hv' with ⟨rfl, he⟩ | ⟨-, hv'⟩
  · exact ho async (congrArg Prod.fst he).symm
  · exact h.opened t' async g hv'

theorem enterRun (h : Entering s views) {t : Nat} {g : Hiring} {server : Server} (hv : views t = some (.blocking, g))
    (hs : SameStaff s.server server) :
    Entering { s with server := server, runs := if s.starter = some t then s.runs + 1 else s.runs }
      (Function.update views t (some (.inRun, g))) := by
  refine ⟨fun t' async g' hv' => ?_, fun hr hidle => ?_⟩
  · rcases view_of_update hv' with ⟨-, he⟩ | ⟨hne, hv'⟩
    · cases he
    · obtain ⟨hst, hruns⟩ := h.opened t' async g' hv'
      refine ⟨hst, (if_neg fun hf => hne ?_).trans hruns⟩
      exact Option.some.inj (hst.symm.trans hf)
  · have hall : ∀ t' v', views t' = some v' → v'.1.active = false := by
      intro t' v' hv'
      by_cases ht : t' = t
      · subst ht
        obtain rfl := Option.some.inj (hv.symm.trans hv')
        rfl
      · exact hidle t' v' ((Function.update_of_ne ht _ views).trans hv')
    obtain ⟨t₀, v₀, hst, hv₀, hblock, hruns⟩ := h.begun (hs.running.symm.trans hr) hall
    dsimp only
    rw [hs.asyncStart]
    by_cases ht : t₀ = t
    · subst ht
      obtain rfl := Option.some.inj (hv.symm.trans hv₀)
      refine ⟨t₀, (.inRun, g), hst, Function.update_self t₀ _ views, fun hf => (by cases hf), ?_⟩
      rw [if_pos hst, hruns, hblock rfl]
      rfl
    · refine ⟨t₀, v₀, hst, (Function.update_of_ne ht _ views).trans hv₀, hblock, ?_⟩
      rw [if_neg fun hf => ht (Option.some.inj (hst.symm.trans hf)), hruns]

theorem exec (h : Entering s views) (hst : Staffed cfgWorkers s views) {t : Nat} {o : CrewOp} {i : Unit} {r : o.Res}
    {v : ServerPhase × Hiring} (hv : views t = some v) (hpre : (crewDiscipline cfgWorkers).pre v o)
    (hs : s.exec cfgWorkers t o i = some (r, s')) :
    Entering s' (Function.update views t (some ((crewDiscipline cfgWorkers).post v o r))) := by
  obtain ⟨v, g⟩ := v
  obtain ⟨handler, o⟩ := o
  obtain ⟨hphase, hhire⟩ := hpre
  obtain ⟨⟨r₁, server⟩, hex, heq⟩ := Option.map_eq_some_iff.mp hs
  cases heq
  cases hphase with
  | lock | lockStop =>
    simp only [ServerOp.exec] at hex
    split at hex
    · cases hex
      exact h.quiet hv ⟨rfl, rfl, rfl, rfl⟩ rfl (fun hf => by cases hf) rfl fun hf => by cases hf
    · cases hex
  | stopIo | unlockStop | unlock =>
    cases hex
    exact h.quiet hv ⟨rfl, rfl, rfl, rfl⟩ rfl (fun hf => by cases hf) rfl fun hf => by cases hf
  | beginStart async =>
    simp only [ServerOp.exec] at hex
    split at hex
    · cases hex
      exact h.quiet hv ⟨rfl, rfl, rfl, rfl⟩ rfl (fun hf => by cases hf) rfl fun hf => by cases hf
    · cases hex
      exact h.starting rfl rfl rfl fun _ hf => by cases hf
  | restart async =>
    cases hex
    exact h.starting rfl rfl rfl fun _ hf => by cases hf
  | resetWorkers async =>
    cases hex
    refine ⟨fun t' async' g' hv' => ?_, fun _ hidle => Staffed.not_idle rfl hidle⟩
    rcases view_of_update hv' with ⟨rfl, -⟩ | ⟨hne, hv'⟩
    · exact ⟨rfl, rfl⟩
    · exact absurd (hst.holding.unique (fstViews_of hv) rfl (fstViews_of hv') rfl) hne
  | spawn async =>
    cases hex
    exact h.starting rfl rfl rfl fun _ _ => h.opened t async g hv
  | unlockStart async =>
    cases hex
    obtain ⟨hstarter, hruns⟩ := h.opened t async g hv
    have hasync : s.server.asyncStart = async := (hst.knows_at hv).2.1
    refine ⟨fun t' async' g' hv' => ?_, fun _ _ => ⟨t, _, hstarter, Function.update_self t _ views, ?_⟩⟩
    · rcases view_of_update hv' with ⟨-, he⟩ | ⟨-, hv'⟩
      · cases async with
        | true => cases he
        | false => cases he
      · exact h.opened t' async' g' hv'
    · show (_ → s.server.asyncStart = false) ∧ s.runs = if s.server.asyncStart = true ∨ _ then 0 else 1
      rw [hasync, hruns]
      cases async with
      | true => exact ⟨fun hf => (by cases hf), rfl⟩
      | false => exact ⟨fun _ => rfl, rfl⟩
  | enterRun =>
    cases hex
    exact h.enterRun hv ⟨rfl, rfl, rfl, rfl⟩
  | leaveRun =>
    simp only [ServerOp.exec] at hex
    split at hex
    · cases hex
      exact h.quiet hv ⟨rfl, rfl, rfl, rfl⟩ rfl (fun hf => by cases hf) rfl fun hf => by cases hf
    · cases hex
  | readRunning =>
    cases hex
    show Entering { s with server := s.server } _
    refine h.quiet hv ⟨rfl, rfl, rfl, rfl⟩ rfl (fun hf => by cases hf) ?_ ?_
    · show (ServerPhase.stopLocked.next .readRunning s.server.running).active = false
      cases s.server.running <;> rfl
    · show ServerPhase.stopLocked.next .readRunning s.server.running ≠ .blocking
      cases s.server.running <;> exact fun hf => by cases hf
  | waitWorkers | joinWorkers =>
    simp only [ServerOp.exec] at hex
    split at hex
    · cases hex
      exact h.quiet hv ⟨rfl, rfl, rfl, rfl⟩ rfl (fun hf => by cases hf) rfl fun hf => by cases hf
    · cases hex
  | clearRunning =>
    cases hex
    refine ⟨fun t' async g' hv' => ?_, fun hf => by cases hf⟩
    rcases view_of_update hv' with ⟨-, he⟩ | ⟨-, hv'⟩
    · cases he
    · exact h.opened t' async g' hv'
  | testBind =>
    cases hex
    show Entering { s with server := s.server } _
    refine h.quiet hv ⟨rfl, rfl, rfl, rfl⟩ rfl (fun hf => by cases hf) ?_ ?_
    · show (ServerPhase.locked.next .testBind _).active = false
      cases !s.server.running && decide (s.server.connections = 0) <;> rfl
    · show ServerPhase.locked.next .testBind _ ≠ .blocking
      cases !s.server.running && decide (s.server.connections = 0) <;> exact fun hf => by cases hf
  | writeBind b =>
    exact h.quiet hv (sameStaff_of_writeBind hex) rfl (fun hf => by cases hf) rfl fun hf => by cases hf

theorem step (h : Entering s views) {e : CrewEnv} (hs : s.step e = some s') : Entering s' views := by
  cases e with
  | worker i m =>
    obtain ⟨_, -, rfl⟩ := Option.map_eq_some_iff.mp hs
    exact ⟨h.opened, h.begun⟩
  | former k i m =>
    obtain ⟨_, -, hstep⟩ := Option.bind_eq_some_iff.mp hs
    obtain ⟨_, -, rfl⟩ := Option.map_eq_some_iff.mp hstep
    exact ⟨h.opened, h.begun⟩
  | server e =>
    simp only [Crew.step] at hs
    split at hs
    · cases hs
    · rename_i he
      obtain ⟨server, hserver, rfl⟩ := Option.map_eq_some_iff.mp hs
      have hsame := sameStaff_of_step (Bool.eq_false_iff.mpr he) hserver
      refine ⟨h.opened, fun hr hidle => ?_⟩
      dsimp only
      rw [hsame.asyncStart]
      exact h.begun (hsame.running.symm.trans hr) hidle

end Entering

/-- The workers of all cycles, and the call that has begun the last one. -/
def Manned (cfgWorkers : UInt32) (s : Crew) (views : Nat → Option (ServerPhase × Hiring)) : Prop :=
  Staffed cfgWorkers s views ∧ Entering s views

theorem manned_of_reach {p : CrewPool} (hp : (crewMachine cfgWorkers).Reach Machine.Free {} p) :
    ∃ views, Manned cfgWorkers p.shared views ∧
      Machine.Linked (crewDiscipline cfgWorkers) (fun _ _ _ v => v.1 ≠ .blocking) p views :=
  Machine.sound (fun _ _ => (.outside, {})) ⟨.new cfgWorkers, .new⟩ (fun _ c => crewCall_enters cfgWorkers c)
    (fun _ _ _ _ _ _ h _ hv => ⟨h.1.call hv, h.2.call hv⟩)
    (fun _ _ _ _ _ _ _ _ _ _ h _ _ hv hpre hs => ⟨h.1.exec hv hpre hs, h.2.exec h.1 hv hpre hs⟩)
    (fun _ _ _ _ _ _ h _ hs => ⟨h.1.step hs, h.2.step hs⟩) hp

/-! ## The number of threads -/

/-- No thread of the cycle has still to come to `run()`. -/
structure AllCome (p : CrewPool) : Prop where
  workers : ∀ stage ∈ p.shared.current.threads, stage.hasEntered = true
  starter : ∀ t o, p.shared.starter = some t → p.next t = some o → o.op ≠ .enterRun

/-- The number of threads that are to run the io context. -/
def expectedThreads (cfgWorkers : UInt32) (async : Bool) : Nat :=
  if async then cfgWorkers.toNat else max cfgWorkers.toNat 1

/-- The workers of a cycle are those that `run_async_workers` has computed and that `stop()` waits for, at most as many as
configured. While the server runs, no more threads of the cycle come to `run()` than are to, as many when none of them has
still to come, and they all can come. -/
structure ThreadsCounted (cfgWorkers : UInt32) (async : Bool) : Prop where
  bounded : Server.workerCount cfgWorkers async ≤ cfgWorkers.toNat
  agree : ∀ p : CrewPool, (crewMachine cfgWorkers).Reach Machine.Free {} p → ∀ t o, p.next t = some o →
    o.op = .waitWorkers → p.shared.server.asyncStart = async →
      p.shared.current.workers = Server.workerCount cfgWorkers p.shared.server.asyncStart
  threads : ∀ p : CrewPool, (crewMachine cfgWorkers).Reach Machine.Free {} p → p.shared.server.running = true →
    p.shared.server.mtx = none → p.shared.server.asyncStart = async →
      p.shared.ioThreads ≤ expectedThreads cfgWorkers async ∧
      (AllCome p → p.shared.ioThreads = expectedThreads cfgWorkers async) ∧
      (crewMachine cfgWorkers).Leads (fun _ _ => True) p fun q => q.shared.former = p.shared.former ∧
        q.shared.ioThreads = expectedThreads cfgWorkers async

theorem workerCount_start (h : cfgWorkers ≠ 0) : Server.workerCount cfgWorkers false + 1 = cfgWorkers.toNat := by
  have hpos : 0 < cfgWorkers.toNat := Nat.pos_of_ne_zero fun hz => h (UInt32.toNat_inj.mp hz)
  have hsub : (cfgWorkers - 1).toNat = cfgWorkers.toNat - 1 := UInt32.toNat_sub_of_le _ _ (UInt32.le_iff_toNat_le.mpr hpos)
  show (cfgWorkers - 1).toNat + 1 = _
  omega

/-- Where the subtraction does not wrap around, the workers and the caller of `start()` are as many as are to run. -/
theorem workerCount_expected {async : Bool} (hcfg : cfgWorkers ≠ 0 ∨ async = true) :
    Server.workerCount cfgWorkers async + (if async then 0 else 1) = expectedThreads cfgWorkers async := by
  cases async with
  | true => rfl
  | false =>
    have hstart := workerCount_start (hcfg.resolve_right Bool.false_ne_true)
    simp only [expectedThreads, Bool.false_eq_true, if_false]
    omega

theorem Staffed.idle_of_free {s : Crew} {views : Nat → Option (ServerPhase × Hiring)} (h : Staffed cfgWorkers s views)
    (hm : s.server.mtx = none) : ∀ t v, views t = some v → v.1.active = false := by
  intro t v hv
  refine Bool.eq_false_iff.mpr fun hf => ?_
  have hholds := h.holding t v.1 (fstViews_of hv) (ServerPhase.holds_of_active hf)
  rw [hm] at hholds
  cases hholds

/-- What two states of a cycle have in common while its threads come to `run()`. -/
structure SameCycle (s s' : Crew) : Prop where
  former : s'.former = s.former
  starter : s'.starter = s.starter
  running : s'.server.running = s.server.running
  asyncStart : s'.server.asyncStart = s.server.asyncStart
  mtx : s'.server.mtx = s.server.mtx

theorem enter_of_created {s : Crew} {i : Nat} (hi : s.current.threads[i]? = some .created) :
    ∃ s', s.step (.worker i .enter) = some s' ∧ SameCycle s s' ∧ s'.current.threads = s.current.threads.set i .running := by
  refine ⟨{ s with
    server := { s.server with workers := (s.current.goes i .running).threads.map WorkerStage.state }
    current := s.current.goes i .running }, ?_, ⟨rfl, rfl, rfl, rfl, rfl⟩, rfl⟩
  simp only [Crew.step, Cycle.move, hi, Option.map_some]

theorem workers_enter (cfgWorkers : UInt32) (s : Crew) : ∃ s', (crewMachine cfgWorkers).Drift s s' ∧ SameCycle s s' ∧
    ∀ stage ∈ s'.current.threads, stage.hasEntered = true := by
  refine reaches_of_measure (fun s' : Crew => s'.current.threads.countP fun stage => !stage.hasEntered)
    (I := SameCycle s) (fun s₁ h hnot => ?_) ⟨rfl, rfl, rfl, rfl, rfl⟩
  obtain ⟨stage, hmem, hstage⟩ : ∃ stage ∈ s₁.current.threads, stage.hasEntered = false := by
    by_contra hall
    exact hnot fun stage hmem => Bool.not_eq_false _ |>.mp fun hf => hall ⟨stage, hmem, hf⟩
  obtain rfl : stage = .created := by
    cases stage with
    | created => rfl
    | _ => cases hstage
  obtain ⟨i, hi⟩ := List.getElem?_of_mem hmem
  obtain ⟨s₂, hs, hsame, hthreads⟩ := enter_of_created hi
  obtain ⟨hlt, hget⟩ := List.getElem?_eq_some_iff.mp hi
  have hpos : 0 < s₁.current.threads.countP fun stage => !stage.hasEntered :=
    List.countP_pos_iff.mpr ⟨.created, hmem, rfl⟩
  have hset := List.countP_set (p := fun stage : WorkerStage => !stage.hasEntered) (a := .running) hlt
  rw [hget] at hset
  refine ⟨s₂, ⟨.worker i .enter, hs⟩, ⟨hsame.former.trans h.former, hsame.starter.trans h.starter,
    hsame.running.trans h.running, hsame.asyncStart.trans h.asyncStart, hsame.mtx.trans h.mtx⟩, ?_⟩
  show s₂.current.threads.countP _ < s₁.current.threads.countP _
  rw [hthreads, hset]
  exact Nat.sub_lt hpos Nat.one_pos

theorem Manned.threads {p : CrewPool} {views : Nat → Option (ServerPhase × Hiring)}
    (h : Manned cfgWorkers p.shared views)
    (hl : Machine.Linked (crewDiscipline cfgWorkers) (fun _ _ _ v => v.1 ≠ .blocking) p views) {async : Bool}
    (hcfg : cfgWorkers ≠ 0 ∨ async = true) (hr : p.shared.server.running = true) (hm : p.shared.server.mtx = none)
    (hasync : p.shared.server.asyncStart = async) :
    p.shared.ioThreads ≤ expectedThreads cfgWorkers async ∧
      (AllCome p → p.shared.ioThreads = expectedThreads cfgWorkers async) := by
  obtain ⟨hst, hen⟩ := h
  obtain ⟨hlen, hworkers⟩ := hst.full hr (hst.idle_of_free hm)
  obtain ⟨t, v, hstarter, hv, hblock, hruns⟩ := hen.begun hr (hst.idle_of_free hm)
  have hexpected := workerCount_expected hcfg
  have hle : p.shared.current.threads.countP WorkerStage.hasEntered ≤ p.shared.current.threads.length :=
    List.countP_le_length
  rw [hasync] at hworkers hblock hruns
  unfold Crew.ioThreads
  constructor
  · have hone : p.shared.runs ≤ if async then 0 else 1 := by
      rw [hruns]
      cases async with
      | true => exact Nat.le_refl 0
      | false => split <;> simp
    omega
  · intro hall
    have hcount : p.shared.current.threads.countP WorkerStage.hasEntered = p.shared.current.threads.length :=
      List.countP_eq_length.mpr hall.workers
    have hnot : v.1 ≠ .blocking := by
      intro hf
      obtain ⟨o, hnext, hpre⟩ := hl.pending hv fun _ _ hne => hne hf
      obtain ⟨v, g⟩ := v
      obtain rfl : v = .blocking := hf
      obtain ⟨handler, o⟩ := o
      obtain ⟨hphase, -⟩ := hpre
      cases hphase
      exact hall.starter t _ hstarter hnext rfl
    have hone : p.shared.runs = if async then 0 else 1 := by
      rw [hruns]
      simp only [hnot, or_false]
    omega

theorem leads_allCome {p : CrewPool} (hp : (crewMachine cfgWorkers).Reach Machine.Free {} p) :
    (crewMachine cfgWorkers).Leads (fun _ _ => True) p fun q => SameCycle p.shared q.shared ∧ AllCome q := by
  obtain ⟨views, -, hl⟩ := manned_of_reach hp
  obtain ⟨s, hdrift, hsame, hall⟩ := workers_enter cfgWorkers p.shared
  obtain ⟨shared, thread⟩ := p
  refine Machine.Leads.of_drift hdrift ?_
  by_cases hcome : ∀ t o, s.starter = some t → Pool.next ⟨s, thread⟩ t = some o → o.op ≠ .enterRun
  · exact .now ⟨hsame, hall, hcome⟩
  · obtain ⟨t, o, hstarter, hnext, ho⟩ : ∃ t o, s.starter = some t ∧ Pool.next ⟨s, thread⟩ t = some o ∧ o.op = .enterRun := by
      by_contra hno
      exact hcome fun t o hst hn ho => hno ⟨t, o, hst, hn, ho⟩
    obtain ⟨c, k, ht⟩ := Machine.next_eq_some hnext
    obtain ⟨handler, o⟩ := o
    obtain rfl : o = .enterRun := ho
    obtain ⟨⟨v, g⟩, hv, ⟨hphase, -⟩, hrest⟩ := hl.ok ht
    have hex : (crewMachine cfgWorkers).exec t ⟨handler, .enterRun⟩ () s = some ((),
        s.after cfgWorkers t ⟨handler, .enterRun⟩ { s.server with runners := t :: s.server.runners }) := rfl
    refine .of_op ht trivial hex (.now ⟨⟨hsame.former, hsame.starter, hsame.running, hsame.asyncStart, hsame.mtx⟩, hall,
      fun t' o' hst' hn' ho' => ?_⟩)
    obtain rfl : t' = t := Option.some.inj (hst'.symm.trans hstarter)
    obtain ⟨c', k', ht'⟩ := Machine.next_eq_some hn'
    have hgoes : some (c, k ()) = some (c', .op o' k') := (Function.update_self t' _ thread).symm.trans ht'
    obtain ⟨-, hk⟩ := Prod.mk.inj (Option.some.inj hgoes)
    have hok := hrest ()
    rw [hk] at hok
    obtain ⟨⟨hphase', -⟩, -⟩ := hok
    cases hphase
    obtain ⟨handler', o'⟩ := o'
    obtain rfl : o' = .enterRun := ho'
    cases hphase'

/-- **The number of threads.** For every number of workers and both modes: the count of the workers does not wrap around,
and the io context is run by as many threads as are to, if and only if at least one worker is configured, or the server is
started asynchronously. -/
theorem threads_counted (cfgWorkers : UInt32) (async : Bool) :
    ThreadsCounted cfgWorkers async ↔ cfgWorkers ≠ 0 ∨ async = true := by
  constructor
  · intro h
    by_contra hnot
    obtain ⟨hzero, hasync⟩ := not_or.mp hnot
    obtain rfl := not_not.mp hzero
    obtain rfl := Bool.eq_false_iff.mpr hasync
    exact absurd h.bounded (by decide)
  · intro hcfg
    refine ⟨?_, fun p hp t o hnext ho hasync => ?_, fun p hp hr hm hasync => ?_⟩
    · cases async with
      | true => exact Nat.le_refl _
      | false =>
        have hstart := workerCount_start (hcfg.resolve_right Bool.false_ne_true)
        omega
    · obtain ⟨views, h, hl⟩ := staffed_of_reach hp
      obtain ⟨c, k, ht⟩ := Machine.next_eq_some hnext
      obtain ⟨⟨v, g⟩, hv, ⟨hphase, -⟩, -⟩ := hl.ok ht
      obtain ⟨handler, o⟩ := o
      obtain rfl : o = .waitWorkers := ho
      cases hphase
      exact (h.full (h.knows_at hv) (h.idle_of_holds hv rfl rfl)).2
    · obtain ⟨views, h, hl⟩ := manned_of_reach hp
      obtain ⟨hle, heq⟩ := h.threads hl hcfg hr hm hasync
      refine ⟨hle, heq, ?_⟩
      obtain ⟨as, q, hq, hsame, hall⟩ := leads_allCome hp
      obtain ⟨views', h', hl'⟩ := manned_of_reach (hp.of_steps (hq.mono fun _ _ _ _ _ => trivial))
      exact ⟨as, q, hq, hsame.former, (h'.threads hl' hcfg (hsame.running.trans hr) (hsame.mtx.trans hm)
        (hsame.asyncStart.trans hasync)).2 hall⟩

/-- The default configuration, started by `start()` : there would be `4294967295` workers. -/
theorem threads_wrap : ¬ ThreadsCounted 0 false := by
  intro h
  exact absurd h.bounded (by decide)

end Radrpc
