import Radrpc.System

/-!
# When a call takes effect

A call of `send_recv` takes effect when the handler of the server is called for it. On each connection the calls of the
handler are a linearization of the calls of the client: the effect of a call lies between its start and its return.

* `Link.Grows` : the histories of a connection only grow;
* `LinkOrderedRun.sent` : a handler has been called for the id of a message, and the owner of the message is the call
  that has the id;
* `LinkOrderedRun.once` : no handler is called twice for one id;
* `calls_take_effect` : calls on any number of clients, at any moment of a run.
-/

namespace Radrpc
open Words Conc Fifo

/-! ## The histories of a connection -/

/-- The histories have grown, and no id was taken back. -/
structure Link.Grows (l l' : Link) : Prop where
  invoked : l.server.invoked <+: l'.server.invoked
  started : l.client.started <+: l'.client.started
  allocated : l.client.cache.allocated ≤ l'.client.cache.allocated

namespace Link.Grows

variable {o : ByteOrder} {l l' l'' : Link}

theorem refl (l : Link) : Grows l l := ⟨List.prefix_refl _, List.prefix_refl _, le_rfl⟩

theorem trans (h : Grows l l') (h' : Grows l' l'') : Grows l l'' :=
  ⟨h.invoked.trans h'.invoked, h.started.trans h'.started, h.allocated.trans h'.allocated⟩

theorem exec {t : Nat} {op : SessOp} {i : Clock} {r : op.Res} {s : ClientSession}
    (hs : op.exec t i l.client = some (r, s)) : Grows l { l with client := s } := by
  refine ⟨List.prefix_refl _, ?_, SessOp.exec_allocated_le hs⟩
  obtain ⟨_, _, _, _, _, rfl⟩ := SessOp.exec_frame hs
  exact List.prefix_refl _

theorem step (h : LinkOrdered o l) {bfuncs : BroadcastFuncs} {e : LinkEvent} (hs : l.step bfuncs e = some l') :
    Grows l l' := by
  have hle := (Link.allocated_of_step hs).ge
  cases e with
  | client e =>
    obtain ⟨-, s, hstep, rfl⟩ := Link.step_client hs
    exact ⟨List.prefix_refl _, (ClientSession.step_pump h.resolved.pump hstep).2.started, hle⟩
  | server e =>
    obtain ⟨hadm, s, hstep, rfl⟩ := Link.step_server hs
    refine ⟨?_, List.prefix_refl _, hle⟩
    obtain ⟨-, -, -, hi | ⟨_, _, -, -, hi⟩⟩ := h.answering.step hstep (Link.resultId_of_admits hadm)
    · exact hi ▸ List.prefix_refl _
    · exact hi ▸ List.prefix_append _ _
  | clientFlush body =>
    obtain ⟨m, -, -, rfl⟩ := Link.step_clientFlush hs
    exact ⟨List.prefix_refl _, List.prefix_refl _, hle⟩
  | serverFlush =>
    obtain ⟨m, -, -, rfl⟩ := Link.step_serverFlush hs
    exact ⟨List.prefix_refl _, List.prefix_refl _, hle⟩

theorem steps {bfuncs : BroadcastFuncs} {responseTimeout : Time} {funcs : BoundFuncs} {pingDelay now : Time}
    {p q : LinkPool} {as : List (Act SessCall Clock LinkEvent)}
    (hp : (linkMachine bfuncs responseTimeout).Reach Machine.Free (.established funcs o pingDelay now) p)
    (hs : (linkMachine bfuncs responseTimeout).Steps Machine.Free p as q) : Grows p.shared q.shared := by
  have hkeeps : ∀ p₁ a p₂,
      (linkMachine bfuncs responseTimeout).Reach Machine.Free (.established funcs o pingDelay now) p₁ ∧
        Grows p.shared p₁.shared → Machine.Free p₁ a → (linkMachine bfuncs responseTimeout).step p₁ a = some p₂ →
      (linkMachine bfuncs responseTimeout).Reach Machine.Free (.established funcs o pingDelay now) p₂ ∧
        Grows p.shared p₂.shared := by
    rintro p₁ a p₂ ⟨hp₁, hgrows⟩ hG hstep
    refine ⟨hp₁.step hG hstep, hgrows.trans ?_⟩
    cases a with
    | call t c =>
      obtain ⟨-, rfl⟩ := Machine.step_call hstep
      exact .refl _
    | op t i =>
      obtain ⟨c, op, k, r, l, -, hex, rfl⟩ := Machine.step_op hstep
      obtain ⟨s, hs, rfl⟩ := SessOp.execLink_eq_some hex
      exact .exec hs
    | env e =>
      obtain ⟨l, he, rfl⟩ := Machine.step_env hstep
      obtain ⟨_, hrun, -⟩ := linkOrdered_of_reach hp₁
      exact .step hrun.ordered he
  exact (hs.keeps hkeeps ⟨hp, .refl _⟩).2

end Link.Grows

/-! ## The calls of the handler -/

def ServerSession.effects (s : ServerSession) (id : UInt64) : List (IoHeader × Bytes) :=
  s.invoked.filter fun q => q.1.resultId = id

namespace LinkOrderedRun

variable {o : ByteOrder} {l : Link} {views : Nat → Option SessView}

theorem sent (h : LinkOrderedRun o l views) {q : IoHeader × Bytes} (hq : q ∈ l.server.invoked) :
    ∃ m ∈ l.client.started, m.header.resultId = q.1.resultId :=
  List.mem_map.mp (h.ordered.invoked.subset (List.mem_map.mpr ⟨q, hq, rfl⟩))

theorem once (h : LinkOrderedRun o l views) (hlt : l.client.cache.allocated < 2 ^ 64) {id : UInt64} (hid : id ≠ 0) :
    (l.server.effects id).length ≤ 1 := by
  have hsub := (h.ordered.invoked.trans (h.ordered.started_sublist.map _)).filter fun id : UInt64 => decide (id ≠ 0)
  have hcount := List.nodup_iff_count_le_one.mp (hsub.nodup (h.booked hlt).2.nodup) id
  rw [List.count_filter (by simpa using hid), List.count_eq_countP, List.countP_map] at hcount
  rw [ServerSession.effects, ← List.countP_eq_length_filter]
  refine le_of_eq_of_le (List.countP_congr fun q _ => ?_) hcount
  simp

theorem effects_eq (h : LinkOrderedRun o l views) (hlt : l.client.cache.allocated < 2 ^ 64) {q : IoHeader × Bytes}
    (hq : q ∈ l.server.invoked) (hid : q.1.resultId ≠ 0) : l.server.effects q.1.resultId = [q] := by
  have hmem : q ∈ l.server.effects q.1.resultId := List.mem_filter.mpr ⟨hq, decide_eq_true rfl⟩
  have hle := h.once hlt hid
  obtain ⟨x, hx⟩ := List.length_eq_one_iff.mp (le_antisymm hle (List.length_pos_of_mem hmem))
  rw [hx] at hmem ⊢
  rw [List.mem_singleton.mp hmem]

end LinkOrderedRun

theorem SessView.id_of_returns {v : SessView} {recv : Bytes} {ec : Option ErrorCode} {id : UInt64}
    (h : v.Returns (.received recv ec id)) (hid : id ≠ 0) : v.phase.id = some id := by
  obtain ⟨_, _, _, -, ⟨-, -, -, h0⟩ | ⟨⟨_, hphase⟩, -⟩ | ⟨hphase, -⟩ | ⟨_, _, hphase, -⟩⟩ := h
  · exact absurd h0 hid
  · rw [hphase]
    rfl
  · rw [hphase]
    rfl
  · rw [hphase]
    rfl

section Runs

variable {bfuncs : BroadcastFuncs} {responseTimeout : Time} {funcs : BoundFuncs} {o : ByteOrder} {pingDelay now : Time}
  {p q : LinkPool} {as : List (Act SessCall Clock LinkEvent)} {t : Nat} {callId : UInt32} {body recv₀ recv : Bytes}
  {ec : Option ErrorCode} {id : UInt64}

theorem no_effect_before
    (hp : (linkMachine bfuncs responseTimeout).Reach Machine.Free (.established funcs o pingDelay now) p)
    (hs : (linkMachine bfuncs responseTimeout).Steps Machine.Free p as q)
    (hlt : q.shared.client.cache.allocated < 2 ^ 64)
    (hres : q.result t = some (.sendRecv callId body recv₀, .received recv ec id)) (hid : id ≠ 0)
    (ht : p.thread t = none) : p.shared.server.effects id = [] := by
  have hgrows := Link.Grows.steps hp hs
  obtain ⟨views, hrun, hl⟩ := linkOrdered_of_reach hp
  obtain ⟨views', hrun', hl'⟩ := linkOrdered_of_reach (hp.of_steps hs)
  refine List.filter_eq_nil_iff.mpr fun e he heid => ?_
  have heid : e.1.resultId = id := of_decide_eq_true heid
  -- the message of this effect has an owner already, which is another call
  obtain ⟨m, hm, hmid⟩ := hrun.sent he
  have hm0 : m.header.resultId ≠ 0 := by rwa [hmid, heid]
  have hsent := hrun.ordered.started_sublist.subset hm
  obtain ⟨w, hw, -, -⟩ := (hrun.booked (hgrows.allocated.trans_lt hlt)).2.owner m hsent hm0
  have hne : m.owner ≠ t := by
    intro h
    rcases hl t with ⟨-, hn⟩ | ⟨_, _, _, ht', -⟩
    · rw [h, hn] at hw
      cases hw
    · cases ht.symm.trans ht'
  have hsent' := hrun'.ordered.started_sublist.subset (hgrows.started.subset hm)
  obtain ⟨hnum, hbook⟩ := hrun'.booked hlt
  obtain ⟨w', hw', hwid, -⟩ := hbook.owner m hsent' hm0
  obtain ⟨v, hv, -, hret⟩ := hl'.ok (Machine.result_eq_some hres)
  exact hne (hnum.distinct _ _ _ _ _ hw' hv (by rw [hwid, hmid, heid]) (SessView.id_of_returns hret hid) hid)

theorem effect_of_response
    (hp : (linkMachine bfuncs responseTimeout).Reach Machine.Free (.established funcs o pingDelay now) p)
    (hlt : p.shared.client.cache.allocated < 2 ^ 64)
    (hres : p.result t = some (.sendRecv callId body recv₀, .received recv ec id)) (hne : recv ≠ []) (hnew : recv ≠ recv₀) :
    ∃ f, funcs callId = some (some f) ∧ recv = (f body []).response ∧ id ≠ 0 ∧
      p.shared.server.effects id = [(.new callId id, body)] := by
  obtain ⟨views, hinv, hl⟩ := correlated_of_reach hp
  obtain ⟨_, hrun, -⟩ := linkOrdered_of_reach hp
  obtain ⟨v, hv, hcall, callId', body', recv', hcall', hret⟩ := hl.ok (Machine.result_eq_some hres)
  rw [hcall] at hcall'
  cases hcall'
  rcases hret with ⟨-, hr, -⟩ | ⟨-, hr, -⟩ | ⟨-, hr, -⟩ | ⟨row, success, hphase, -⟩
  · exact absurd hr hnew
  · exact absurd hr hnew
  · exact absurd hr hnew
  · have hcollected := (hinv hlt).collected hv hphase hne
    rw [hcall] at hcollected
    obtain ⟨f, hf, he, hmem⟩ := hcollected
    have hid : id ≠ 0 := ne_zero_of_toNat ((hinv hlt).numbered.row t v id row hv (by rw [hphase]; rfl))
    exact ⟨f, hf, he, hid, hrun.effects_eq hlt hmem hid⟩

end Runs

/-! ## Calls on any number of clients -/

/-- **Calls are linearizable.** In every run of a server with any number of clients, at any moment `p` of the run, for
every call of `send_recv` that has returned in the end: the handler has been called at most once under its id, and not
before the call was made; and a call that hands back a response has had exactly one effect, on its own body and with
this response, before it returned. So of two calls one of which was made after the other had returned, on whichever
clients, the handler was called for the first one first. -/
theorem calls_take_effect {cfg : HubConfig} {responseTimeout : Time} {p q : SystemPool}
    {as : List (Act SystemCall SystemInput SystemEnv)}
    (hp : (systemMachine cfg responseTimeout).Reach Machine.Free (.new cfg) p)
    (hs : (systemMachine cfg responseTimeout).Steps Machine.Free p as q) {k t : Nat} {callId : UInt32}
    {body recv₀ recv : Bytes} {ec : Option ErrorCode} {id : UInt64}
    (hlt : (q.shared.links k).link.client.cache.allocated < 2 ^ 64)
    (hres : q.result t = some (.client k (.sendRecv callId body recv₀), .client (.received recv ec id))) (hid : id ≠ 0) :
    ((q.shared.links k).link.server.effects id).length ≤ 1 ∧
    (p.thread t = none → (p.shared.links k).link.server.effects id = []) ∧
    (recv ≠ [] → recv ≠ recv₀ → ∃ f, cfg.boundFuncs callId = some (some f) ∧ recv = (f body []).response ∧
      (q.shared.links k).link.server.effects id = [(.new callId id, body)] ∧
      (p.result t ≠ none → (p.shared.links k).link.server.effects id = [(.new callId id, body)])) := by
  have hown : (clientComponent cfg responseTimeout k).κ (.client k (.sendRecv callId body recv₀)) =
      some (.sendRecv callId body recv₀) := if_pos rfl
  obtain ⟨lp, hlp, hsees⟩ := reach_client hp k
  obtain ⟨bs, lq, hls, hsees'⟩ := hsees.steps (G := Machine.Free) (fun _ _ _ => trivial) (fun _ _ => trivial)
    (fun _ _ _ _ _ _ => trivial) hs
  have hshared : lp.shared = (p.shared.links k).link := hsees.shared
  have hshared' : lq.shared = (q.shared.links k).link := hsees'.shared
  rw [← hshared, ← hshared']
  rw [← hshared'] at hlt
  obtain ⟨b, hb, hres'⟩ := (hsees'.thread t).result hown hres
  cases hb
  obtain ⟨_, hrun, -⟩ := linkOrdered_of_reach (hlp.of_steps hls)
  refine ⟨hrun.once hlt hid, fun ht => ?_, fun hne hnew => ?_⟩
  · have hfol := hsees.thread t
    rw [ht] at hfol
    refine no_effect_before hlp hls hlt hres' hid ?_
    generalize lp.thread t = y at hfol
    cases hfol
    rfl
  · obtain ⟨f, hf, he, -, heff⟩ := effect_of_response (hlp.of_steps hls) hlt hres' hne hnew
    refine ⟨f, hf, he, heff, fun hreturned => ?_⟩
    obtain ⟨⟨c, b⟩, hearly⟩ := Option.ne_none_iff_exists'.mp hreturned
    have hsame := (hs.result hearly).symm.trans hres
    cases hsame
    obtain ⟨b, hb, hearly'⟩ := (hsees.thread t).result hown hearly
    cases hb
    have hlt' := (Link.Grows.steps hlp hls).allocated.trans_lt hlt
    obtain ⟨_, -, -, -, heff'⟩ := effect_of_response hlp hlt' hearly' hne hnew
    exact heff'

/-- The call on client 1 is made after the one on client 0 has returned. -/
theorem calls_take_effect_later : ∃ (p q : SystemPool) (as : List (Act SystemCall SystemInput SystemEnv)),
    (systemMachine appendingConfig 1000000000).Reach Machine.Free (.new appendingConfig) p ∧
      (systemMachine appendingConfig 1000000000).Steps Machine.Free p as q ∧
      (p.shared.links 0).link.server.effects 1 = [(.new 7 1, [5])] ∧
      (p.shared.links 1).link.server.effects 1 = [] ∧
      (q.shared.links 1).link.server.effects 1 = [(.new 7 1, [6])] := by
  have hrun : (((systemMachine appendingConfig 1000000000).run (fun _ _ => true) (.initial (.new appendingConfig))
      (joinRun 0 0 100 ++ joinRun 1 1 200 ++ exchangeRun 0 2 5 ++ [.op 2 {}, .op 2 {}, .op 2 {}])).any fun p =>
        ((systemMachine appendingConfig 1000000000).run (fun _ _ => true) p
          (exchangeRun 1 3 6 ++ [.op 3 {}, .op 3 {}, .op 3 {}])).any fun q =>
            (p.result 2).isSome && (p.thread 3).isNone &&
            decide (q.result 2 = some (.client 0 (.sendRecv 7 [5] []), .client (.received [5, 1] none 1))) &&
            decide (q.result 3 = some (.client 1 (.sendRecv 7 [6] []), .client (.received [6, 1] none 1))) &&
            decide ((q.shared.links 0).link.client.cache.allocated < 2 ^ 64) &&
            decide ((q.shared.links 1).link.client.cache.allocated < 2 ^ 64)) = true := by
    decide +kernel
  obtain ⟨p, q, hp, hs, hf⟩ := Machine.Reach.exists_of_runs (G := Machine.Free) (fun _ _ _ => trivial) _ _ hrun
  simp only [Bool.and_eq_true, decide_eq_true_eq, Option.isNone_iff_eq_none, Option.isSome_iff_ne_none] at hf
  obtain ⟨⟨⟨⟨⟨hreturned, hunstarted⟩, hres⟩, hres'⟩, hlt⟩, hlt'⟩ := hf
  obtain ⟨-, -, hanswered⟩ := calls_take_effect hp hs hlt hres (by decide)
  obtain ⟨_, -, -, -, hearly⟩ := hanswered (by decide) (by decide)
  obtain ⟨-, hbefore, hanswered'⟩ := calls_take_effect hp hs hlt' hres' (by decide)
  obtain ⟨_, -, -, heff, -⟩ := hanswered' (by decide) (by decide)
  exact ⟨p, q, _, hp, hs, hearly hreturned, hbefore hunstarted, heff⟩

end Radrpc
