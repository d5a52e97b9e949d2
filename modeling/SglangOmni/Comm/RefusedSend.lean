import SglangOmni.Comm.KvSend

/-! A send whose object id is already pending.

The registration is refused, and the handler of the send then fails whatever is pending
under the id, which is the other transfer: its ack future gets the exception unless it is
done, and its watcher is started unless it runs. A stream chunk gets a fresh number in its
id; two payloads of one request between the same stages share theirs. -/
namespace SglangOmni.Comm.KvSend
open Lib

/-! ### Jobs -/

/-- `_PayloadSendJob` and `_StreamSendJob`; `sequence` is the engine's next number. -/
inductive Job where
  | payload (requestId fromStage toStage : String)
  | stream (requestId fromStage targetStage : String) (chunkId sequence : Nat)
  deriving DecidableEq

def Job.requestId : Job → String
  | .payload requestId .. => requestId
  | .stream requestId .. => requestId

def Job.objectId : Job → String
  | .payload requestId fromStage toStage => requestId ++ ":payload:" ++ fromStage ++ ":" ++ toStage
  | .stream requestId fromStage targetStage chunkId sequence =>
    requestId ++ ":stream:" ++ fromStage ++ ":" ++ targetStage ++ ":" ++ toString chunkId ++ ":" ++
      toString sequence

/-- `_run_payload_send` or `_run_stream_send` once its data is with the relay. -/
def runSend (s : State) (job : Job) : State := step s (.sendData job.requestId job.objectId)

/-! ### The refusal -/

variable {s : State} {job : Job} {c : Nat} {p : Pending}

/-- `_fail_pending` as it meets the record. -/
def Pending.fail (p : Pending) (cancelled : Bool) : Pending :=
  { p with
    ack := if p.ack = .waiting then .failed cancelled else p.ack
    task := if p.task = .unarmed then .waiting else p.task }

theorem failPending_of_pending {o : String} {cancelled : Bool} (ho : s.pending.get? o = some c)
    (hp : s.pendings c = some p) : failPending s o cancelled = s.setPending c (p.fail cancelled) := by
  simp only [failPending, ho, hp]
  rfl

/-- The handler meets a record that is done and watched without a trace. -/
theorem Pending.fail_eq_self_iff (cancelled : Bool) :
    p.fail cancelled = p ↔ p.ack ≠ .waiting ∧ p.task ≠ .unarmed := by
  constructor
  · intro heq
    constructor
    · intro hack
      have hsame := congrArg Pending.ack heq
      rw [Pending.fail, if_pos hack, hack] at hsame
      cases hsame
    · intro htask
      have hsame := congrArg Pending.task heq
      rw [Pending.fail, if_pos htask, htask] at hsame
      cases hsame
  · intro ⟨hack, htask⟩
    rw [Pending.fail, if_neg hack, if_neg htask]

theorem finishSend_pendings (s : State) (n : Nat) (send : Send) :
    (finishSend s n send).pending = s.pending ∧ (finishSend s n send).pendings = s.pendings := by
  unfold finishSend
  cases send.kind with
  | kvPages => exact ⟨rfl, rfl⟩
  | data => exact ⟨rfl, rfl⟩

theorem registerSend_refused {send : Send} (hk : send.kind = .data)
    (ho : s.pending.get? send.transferId = some c) (hp : s.pendings c = some p) (n : Nat) :
    (registerSend s n send).pending = s.pending ∧
      (registerSend s n send).pendings c = some (p.fail false) := by
  have hcontains : s.pending.contains send.transferId = true := (Dict.contains_iff ..).mpr ⟨c, ho⟩
  have hrefused : registerPending s n send.record = none := if_pos hcontains
  obtain ⟨htable, hrecords⟩ := finishSend_pendings (failPending s send.transferId false) n send
  simp only [registerSend, hrefused, sendRaises, hk]
  rw [htable, hrecords, failPending_of_pending ho hp]
  exact ⟨rfl, Function.update_self ..⟩

/-- A refused job adds no record, and fails the other transfer's. -/
theorem runSend_refused (ho : s.pending.get? job.objectId = some c) (hp : s.pendings c = some p) :
    (runSend s job).pending = s.pending ∧ (runSend s job).pendings c = some (p.fail false) := by
  apply registerSend_refused rfl
  · exact ho
  · exact hp

/-- A `DataAck` for a transfer whose ack is not awaited any more does not change it. -/
theorem ackTransfer_late {o : String} {ack : Ack} (ho : s.pending.get? o = some c)
    (hp : s.pendings c = some p) (hack : p.ack = ack) (hdone : ack ≠ .waiting) (success hasError : Bool) :
    ∃ p', (ackTransfer s o success hasError).pendings c = some p' ∧ p'.ack = ack := by
  have hne : p.ack ≠ .waiting := by rw [hack]; exact hdone
  simp only [ackTransfer, ho, hp]
  split
  · exact ⟨_, Function.update_self .., hack⟩
  · split
    · exact ⟨_, Function.update_self .., hack⟩
    · exact ⟨p, hp, hack⟩

/-- **A refused send and the transfer it collides with.** The transfer's record is as it
was exactly when its ack future is already done and its watcher started. While the future
is waiting the refusal resolves it, with a failure that its own `DataAck` no longer
changes. -/
theorem refused_send_spares_iff (s : State) (job : Job) (c : Nat) (p : Pending)
    (ho : s.pending.get? job.objectId = some c) (hp : s.pendings c = some p) :
    ((runSend s job).pending = s.pending ∧ (runSend s job).pendings c = some p ↔
        p.ack ≠ .waiting ∧ p.task ≠ .unarmed) ∧
      (p.ack = .waiting → ∀ success hasError, ∃ p',
        (step (runSend s job) (.ackTransfer job.objectId success hasError)).pendings c = some p' ∧
          p'.ack = .failed false) := by
  obtain ⟨htable, hrecord⟩ := runSend_refused ho hp
  constructor
  · rw [← Pending.fail_eq_self_iff false, hrecord, Option.some.injEq]
    exact ⟨fun h => h.2, fun h => ⟨htable, h⟩⟩
  · intro hack success hasError
    have hfailed : (p.fail false).ack = .failed false := if_pos hack
    exact ackTransfer_late (by rw [htable]; exact ho) hrecord hfailed (fun h => nomatch h) success hasError

/-! ### Two payloads of one request -/

def samePayload : Job := .payload "r" "a" "b"

/-- The first payload is published, and acked but not yet finished. -/
def ackedPayload : State :=
  run step State.create
    [.sendData "r" "r:payload:a:b", .published 0, .ackTransfer "r:payload:a:b" true false]

theorem refused_send_spares_acked :
    (runSend ackedPayload samePayload).pending = ackedPayload.pending ∧
      (runSend ackedPayload samePayload).pendings 0 = ackedPayload.pendings 0 := by
  have hrecord : ackedPayload.pendings 0 = some
      { objectId := "r:payload:a:b", ack := .ok, task := .waiting, lease := false,
        retainPendingOnFailure := false, receiverTerminal := true } := rfl
  have hspared := (refused_send_spares_iff ackedPayload samePayload 0 _ rfl hrecord).1.mpr
    ⟨by decide, by decide⟩
  exact ⟨hspared.1, hspared.2.trans hrecord.symm⟩

/-- The first payload is published and waits for its ack; the refusal of the second fails
it, and the ack that comes then changes nothing. -/
theorem refused_send_fails_waiting :
    let s := run step State.create [.sendData "r" "r:payload:a:b", .published 0]
    let refused := runSend s samePayload
    samePayload.objectId = "r:payload:a:b" ∧ (s.pendings 0).map (·.ack) = some .waiting ∧
      (refused.pendings 0).map (·.ack) = some (.failed false) ∧
      ((step refused (.ackTransfer "r:payload:a:b" true false)).pendings 0).map (·.ack) = some (.failed false) ∧
      ((step s (.ackTransfer "r:payload:a:b" true false)).pendings 0).map (·.ack) = some .ok := by
  decide

end SglangOmni.Comm.KvSend
