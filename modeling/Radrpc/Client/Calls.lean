import Radrpc.Client.Session

/-!
# The calls on a session, phase by phase

* `SessPhase`, `SessView` : how far a call has come, and with which result id, promise and row;
* `sessDiscipline` : the steps that are possible in each phase and where they lead;
* `SessView.Returns` : what a call that has come to a phase can return;
* `sessCall_ok` : the programs of all calls follow the discipline.
-/

namespace Radrpc
open Std Conc

/-- How far a call has come. -/
inductive SessPhase where
  | start
  | refused
  | queued (id : UInt64)
  | posted (id : UInt64) (callback : PromiseRef)
  | unsent (id : UInt64) (callback : PromiseRef)
  | written (id : UInt64) (callback : PromiseRef)
  | missed (id : UInt64)
  | blocked (id : UInt64) (row : RowRef)
  | holding (id : UInt64) (row : RowRef) (success : Bool)
  | answered (id : UInt64) (row : RowRef) (success : Bool) (recv : Bytes)
  deriving DecidableEq, Repr

/-- A call and how far it has come. -/
structure SessView where
  call : SessCall
  phase : SessPhase
  deriving DecidableEq, Repr

/-- The steps a call can make next. -/
inductive SessPhase.Allows : SessCall → SessPhase → SessOp → Prop where
  | queue (callId : UInt32) (body recv : Bytes) (valid : Time) :
      Allows (.sendRecv callId body recv) .start (.cache (.queue valid))
  | postSend (callId : UInt32) (body : Bytes) : Allows (.send callId body) .start (.post callId 0 body)
  | postRequest (callId : UInt32) (body recv : Bytes) (id : UInt64) :
      Allows (.sendRecv callId body recv) (.queued id) (.post callId id body)
  | waitWritten (call : SessCall) (id : UInt64) (callback : PromiseRef) :
      Allows call (.posted id callback) (.waitWritten callback)
  | find (callId : UInt32) (body recv : Bytes) (id : UInt64) (callback : PromiseRef) :
      Allows (.sendRecv callId body recv) (.written id callback) (.cache (.find id))
  | await (callId : UInt32) (body recv : Bytes) (id : UInt64) (row : RowRef) :
      Allows (.sendRecv callId body recv) (.blocked id row) (.cache (.await id row))
  | take (callId : UInt32) (body recv : Bytes) (id : UInt64) (row : RowRef) (success : Bool) (buffer : Bytes) :
      Allows (.sendRecv callId body recv) (.holding id row success) (.cache (.take row buffer))
  | postPing : Allows .ping .start .postPing
  | resetPong : Allows .ping .start .resetPong
  | waitPong : Allows .ping .start .waitPong

def SessPhase.next : SessPhase → (o : SessOp) → o.Res → SessPhase
  | .start, .cache (.queue _), id => if id = (0 : UInt64) then .refused else .queued id
  | .start, .post _ _ _, callback => .posted 0 callback
  | .queued id, .post _ _ _, callback => .posted id callback
  | .posted id callback, .waitWritten _, true => .written id callback
  | .posted id callback, .waitWritten _, false => .unsent id callback
  | .written id _, .cache (.find _), .invalid => .missed id
  | .written id _, .cache (.find _), .ready row => .holding id row true
  | .written id _, .cache (.find _), .blocked row => .blocked id row
  | .blocked id row, .cache (.await _ _), success => .holding id row success
  | .holding id row success, .cache (.take _ _), recv => .answered id row success recv
  | phase, _, _ => phase

def sessDiscipline : Discipline SessOp SessOp.Res SessView where
  pre := fun v o => v.phase.Allows v.call o
  post := fun v o r => { v with phase := v.phase.next o r }

def SessView.Returns (v : SessView) : SessRet → Prop
  | .sent ec => (∃ callId body, v.call = .send callId body) ∧
      ((ec = none ∧ ∃ callback, v.phase = .written 0 callback) ∨
        (ec = some .timedOut ∧ ∃ callback, v.phase = .unsent 0 callback))
  | .received recv ec id => ∃ callId body recv₀, v.call = .sendRecv callId body recv₀ ∧
      ((v.phase = .refused ∧ recv = recv₀ ∧ ec = some .operationAborted ∧ id = 0) ∨
        ((∃ callback, v.phase = .unsent id callback) ∧ recv = recv₀ ∧ ec = some .timedOut) ∨
        (v.phase = .missed id ∧ recv = recv₀ ∧ ec = some .timedOut) ∨
        ∃ row success, v.phase = .answered id row success recv ∧ ec = if success then none else some .timedOut)
  | .pinged _ => v.call = .ping ∧ v.phase = .start

theorem sessCall_ok (responseTimeout : Time) (c : SessCall) :
    sessDiscipline.Ok (fun r v => v.call = c ∧ v.Returns r) ⟨c, .start⟩ (c.body responseTimeout) := by
  cases c with
  | send callId body =>
    refine ⟨.postSend callId body, fun callback => ⟨.waitWritten _ 0 callback, fun ready => ?_⟩⟩
    cases ready with
    | true => exact ⟨rfl, ⟨callId, body, rfl⟩, .inl ⟨rfl, callback, rfl⟩⟩
    | false => exact ⟨rfl, ⟨callId, body, rfl⟩, .inr ⟨rfl, callback, rfl⟩⟩
  | sendRecv callId body recv =>
    refine ⟨.queue callId body recv _, fun id => ?_⟩
    by_cases hid : id = (0 : UInt64)
    · subst hid
      exact ⟨rfl, callId, body, recv, rfl, .inl ⟨rfl, rfl, rfl, rfl⟩⟩
    · have hphase : sessDiscipline.post ⟨.sendRecv callId body recv, .start⟩ (.cache (.queue (responseTimeout * 2))) id =
          ⟨.sendRecv callId body recv, .queued id⟩ := by
        simp [sessDiscipline, SessPhase.next, hid]
      rw [hphase]
      dsimp only [Prog.bind]
      rw [if_neg hid]
      refine ⟨.postRequest callId body recv id, fun callback => ⟨.waitWritten _ id callback, fun ready => ?_⟩⟩
      cases ready with
      | false => exact ⟨rfl, callId, body, recv, rfl, .inr (.inl ⟨⟨callback, rfl⟩, rfl, rfl⟩)⟩
      | true =>
        refine ⟨.find callId body recv id callback, fun found => ?_⟩
        cases found with
        | invalid => exact ⟨rfl, callId, body, recv, rfl, .inr (.inr (.inl ⟨rfl, rfl, rfl⟩))⟩
        | ready row =>
          refine ⟨.take callId body recv id row true recv, fun buffer => ?_⟩
          exact ⟨rfl, callId, body, recv, rfl, .inr (.inr (.inr ⟨row, true, rfl, rfl⟩))⟩
        | blocked row =>
          refine ⟨.await callId body recv id row, fun success => ?_⟩
          refine ⟨.take callId body recv id row success recv, fun buffer => ?_⟩
          exact ⟨rfl, callId, body, recv, rfl, .inr (.inr (.inr ⟨row, success, rfl, rfl⟩))⟩
  | ping =>
    refine ⟨.postPing, fun _ => ⟨.resetPong, fun _ => ⟨.waitPong, fun _ => ?_⟩⟩⟩
    exact ⟨rfl, rfl, rfl⟩

end Radrpc
