import Mathlib.Logic.Relation
import Tqsdk.Runtime.CommandLedger

/-!
# The outbound queue

`submit` queues the requests of a command, `drain_dispatches` takes the whole queue, and
`SessionRuntime::flush_outbound` drains it and hands the dispatches to the transport one after
the other.  Commands are submitted and statuses are recorded while a flush awaits the
transport, so a flush is a sequence of steps here.

A request is lost when the queue is drained while it holds a request of a finished command
(the ledger no longer knows that command, and the drain fails with the queue already taken),
or when a flush returns early and leaves dispatches of unfinished commands behind.
-/

namespace Tqsdk

open List

variable {Request : Type}

structure OutboundEnvelope (Request : Type) where
  commandId : CommandId
  request : Request
  deriving DecidableEq

structure OutboundDispatch (Request : Type) where
  commandId : CommandId
  domain : ProtocolDomain
  accountId : Option AccountId
  request : Request
  deriving DecidableEq

def OutboundDispatch.envelope (dispatch : OutboundDispatch Request) : OutboundEnvelope Request :=
  ⟨dispatch.commandId, dispatch.request⟩

def dispatchAccountIdFromSeed (seed : Fields) : Option AccountId :=
  (OrdMap.get? "account_id" seed).bind Value.asStr

/-- The closure of `drain_dispatches`. -/
def CommandLedger.dispatch (ledger : CommandLedger) (envelope : OutboundEnvelope Request) :
    Except ContractError (OutboundDispatch Request) :=
  match ledger.domain envelope.commandId with
  | none => .error (.validation
      ("unknown command id for outbound dispatch: " ++ toString envelope.commandId))
  | some domain => .ok
      { commandId := envelope.commandId
        domain := domain
        accountId := (ledger.detailSeed envelope.commandId).bind dispatchAccountIdFromSeed
        request := envelope.request }

/-- The result of `drain_dispatches` on a queue, which is empty afterwards in any case. -/
def CommandLedger.drain (ledger : CommandLedger) :
    List (OutboundEnvelope Request) → Except ContractError (List (OutboundDispatch Request))
  | [] => .ok []
  | envelope :: rest => do
      let dispatch ← ledger.dispatch envelope
      let dispatches ← ledger.drain rest
      return dispatch :: dispatches

/-- A flush that awaits the transport: what it has not handed over yet, and the commands that
it has recorded as sent. -/
structure Flush (Request : Type) where
  dispatches : List (OutboundDispatch Request)
  sentCommandIds : List CommandId

/-- The queue, the ledger and a running flush.  `pushed` is everything that was ever queued,
`handed` what a caller of `drain_dispatches` or the transport has got, and `recorded` the
statuses that were recorded. -/
structure OutboundState (Request : Type) where
  records : CommandRecords
  outbound : List (OutboundEnvelope Request)
  flush : Option (Flush Request)
  pushed : List (OutboundEnvelope Request)
  handed : List (OutboundEnvelope Request)
  recorded : List (CommandId × CommandStatus)

inductive OutboundEvent (Request : Type)
  /-- A command is submitted: its domain, its detail seed and how the adapters encode it. -/
  | submit (domain : ProtocolDomain) (seed : Fields)
      (encoded : Except ContractError (List Request))
  | recordCommandStatus (commandId : CommandId) (status : CommandStatus) (detail : Option Value)
      (scope : CommitScope)
  | drainDispatches
  | flushOutbound
  /-- The transport answers the next dispatch of the flush, with its route or an error, and
  the flush records the status with the detail it composed. -/
  | dispatched (answer : Except ContractError String) (detail : Option Value)
  /-- The future of the flush is dropped at the transport, which may have taken the dispatch. -/
  | flushDropped (taken : Bool)

namespace OutboundState

def new (maxRetainedTerminalCommands : Nat) (revision : Revision) : OutboundState Request :=
  ⟨⟨.withRetention maxRetainedTerminalCommands, .new revision⟩, [], none, [], [], []⟩

variable (state : OutboundState Request)

/-- A call of `record_command_status`; `none` when it fails. -/
def record (commandId : CommandId) (status : CommandStatus) (detail : Option Value)
    (scope : CommitScope) : Option (OutboundState Request) :=
  match state.records.recordCommandStatus commandId status detail scope with
  | .error _ => none
  | .ok (records, commit) => some
      { state with
        records := records
        recorded :=
          if commit.isSome then state.recorded ++ [(commandId, status)] else state.recorded }

/-- A flush goes on with the dispatches that are left, or returns. -/
def continueFlush (dispatches : List (OutboundDispatch Request)) (sentCommandIds : List CommandId) :
    OutboundState Request :=
  { state with flush := if dispatches.isEmpty then none else some ⟨dispatches, sentCommandIds⟩ }

/-- One turn of the loop of `flush_outbound`. -/
def flushTurn (state : OutboundState Request) (dispatch : OutboundDispatch Request)
    (rest : List (OutboundDispatch Request)) (sentCommandIds : List CommandId)
    (answer : Except ContractError String) (detail : Option Value) : OutboundState Request :=
  match answer with
  | .error _ =>
    -- the error is returned, after the command was recorded as failed
    let state := { state with flush := none }
    (state.record dispatch.commandId .failed detail .realtimeUpdate).getD state
  | .ok _ =>
    let state := { state with handed := state.handed ++ [dispatch.envelope] }
    if dispatch.commandId ∈ sentCommandIds then state.continueFlush rest sentCommandIds
    else
      match state.record dispatch.commandId .sent detail .realtimeUpdate with
      -- `record_command_status(…)?` returns at once
      | none => { state with flush := none }
      | some state => state.continueFlush rest (sentCommandIds ++ [dispatch.commandId])

/-- One step; `none` when the event does not fit where the flush stands. -/
def step : OutboundEvent Request → Option (OutboundState Request)
  | .submit _ _ (.error _) => some state
  | .submit domain seed (.ok requests) =>
    let (commandId, ledger) := state.records.ledger.allocate domain seed
    let envelopes := requests.map (⟨commandId, ·⟩)
    some { state with
      records := { state.records with ledger := ledger }
      outbound := state.outbound ++ envelopes
      pushed := state.pushed ++ envelopes }
  | .recordCommandStatus commandId status detail scope =>
    some ((state.record commandId status detail scope).getD state)
  | .drainDispatches =>
    let state' := { state with outbound := [] }
    match state.records.ledger.drain state.outbound with
    | .error _ => some state'
    | .ok dispatches => some { state' with
        handed := state.handed ++ dispatches.map (·.envelope) }
  | .flushOutbound =>
    match state.flush with
    | some _ => none
    | none =>
      let state' := { state with outbound := [] }
      match state.records.ledger.drain state.outbound with
      | .error _ => some state'
      | .ok dispatches => some (state'.continueFlush dispatches [])
  | .dispatched answer detail =>
    match state.flush with
    | some ⟨dispatch :: rest, sentCommandIds⟩ =>
      some (state.flushTurn dispatch rest sentCommandIds answer detail)
    | _ => none
  | .flushDropped taken =>
    match state.flush with
    | some ⟨dispatch :: _, _⟩ => some { state with
        flush := none
        handed := if taken then state.handed ++ [dispatch.envelope] else state.handed }
    | _ => none

/-- The dispatches of a running flush that were not handed over yet. -/
def inFlight : List (OutboundEnvelope Request) :=
  (state.flush.map fun flush => flush.dispatches.map (·.envelope)).getD []

/-- A terminal status of the command is among the recorded ones. -/
def Terminal (recorded : List (CommandId × CommandStatus)) (commandId : CommandId) : Prop :=
  ∃ status, (commandId, status) ∈ recorded ∧ status.isTerminal = true

/-- The ledger knows the command. -/
def knows (commandId : CommandId) : Bool :=
  (state.records.ledger.domain commandId).isSome

/-- The event loses nothing: the queue is drained only while the ledger knows every queued
command and no dispatch is in flight, and a flush that is about to return with an error, or that is
dropped, has only dispatches of finished commands left. -/
def keeps : OutboundEvent Request → Bool
  | .submit .. | .recordCommandStatus .. => true
  | .drainDispatches =>
    state.outbound.all (fun envelope => state.knows envelope.commandId) &&
      (state.outbound.isEmpty || state.inFlight.isEmpty)
  | .flushOutbound => state.outbound.all fun envelope => state.knows envelope.commandId
  | .dispatched answer _ =>
    match state.flush, answer with
    | some ⟨dispatch :: rest, _⟩, .error _ =>
      rest.all fun later =>
        later.commandId == dispatch.commandId || !state.knows later.commandId
    | some ⟨dispatch :: rest, sentCommandIds⟩, .ok _ =>
      sentCommandIds.contains dispatch.commandId ||
        state.records.ledger.status dispatch.commandId == some .queued ||
        (!state.knows dispatch.commandId &&
          state.records.ledger.isEvictedTerminal dispatch.commandId) ||
        rest.all fun later => !state.knows later.commandId
    | _, _ => true
  | .flushDropped taken =>
    (state.inFlight.drop taken.toNat).all fun later => !state.knows later.commandId

/-! ## Where the requests are -/

/-- Everything pushed has left in order, except for what is left; what has left was handed over
or belongs to a finished command. -/
def Accounted (pushed left handed : List (OutboundEnvelope Request))
    (recorded : List (CommandId × CommandStatus)) : Prop :=
  ∃ journal : List (OutboundEnvelope Request × Bool),
    pushed = journal.map Prod.fst ++ left ∧
    handed = (journal.filter (·.2)).map Prod.fst ∧
    ∀ entry ∈ journal, entry.2 = false → Terminal recorded entry.1.commandId

section Accounted

variable {pushed left handed took : List (OutboundEnvelope Request)}
  {recorded recorded' : List (CommandId × CommandStatus)}

theorem Accounted.mono (acct : Accounted pushed left handed recorded)
    (more : recorded ⊆ recorded') : Accounted pushed left handed recorded' := by
  obtain ⟨journal, all, out, done⟩ := acct
  refine ⟨journal, all, out, ?_⟩
  intro ent mem lost
  obtain ⟨stat, seen, term⟩ := done ent mem lost
  exact ⟨stat, more seen, term⟩

theorem Accounted.push (acct : Accounted pushed left handed recorded)
    (plus : List (OutboundEnvelope Request)) :
    Accounted (pushed ++ plus) (left ++ plus) handed recorded := by
  obtain ⟨journal, all, out, done⟩ := acct
  exact ⟨journal, by rw [all, append_assoc], out, done⟩

theorem Accounted.hand (acct : Accounted pushed (took ++ left) handed recorded) :
    Accounted pushed left (handed ++ took) recorded := by
  obtain ⟨journal, all, out, done⟩ := acct
  refine ⟨journal ++ took.map (·, true), ?_, ?_, ?_⟩
  · simp [all, Function.comp_def]
  · simp [out, filter_map, Function.comp_def]
  · intro ent mem lost
    rcases mem_append.mp mem with old | new
    · exact done ent old lost
    · obtain ⟨envelope, -, rfl⟩ := mem_map.mp new
      cases lost

theorem Accounted.lose (acct : Accounted pushed (took ++ left) handed recorded)
    (terminal : ∀ envelope ∈ took, Terminal recorded envelope.commandId) :
    Accounted pushed left handed recorded := by
  obtain ⟨journal, all, out, done⟩ := acct
  refine ⟨journal ++ took.map (·, false), ?_, ?_, ?_⟩
  · simp [all, Function.comp_def]
  · simp [out, filter_map, Function.comp_def]
  · intro ent mem lost
    rcases mem_append.mp mem with old | new
    · exact done ent old lost
    · obtain ⟨envelope, inTaken, rfl⟩ := mem_map.mp new
      exact terminal envelope inTaken

end Accounted

/-- A queue whose commands the ledger knows is drained completely and in order. -/
theorem drain_ok {ldg : CommandLedger} {que : List (OutboundEnvelope Request)}
    (seen : ∀ envelope ∈ que, ldg.domain envelope.commandId ≠ none) :
    ∃ disps, ldg.drain que = .ok disps ∧ disps.map (·.envelope) = que := by
  induction que with
  | nil => exact ⟨[], rfl, rfl⟩
  | cons envelope que ih =>
    obtain ⟨disps, drained, same⟩ := ih fun post mem => seen post (mem_cons_of_mem _ mem)
    obtain ⟨dom, got⟩ := Option.ne_none_iff_exists'.mp (seen envelope mem_cons_self)
    rw [CommandLedger.drain, drained, CommandLedger.dispatch, got]
    exact ⟨_, rfl, congrArg (envelope :: ·) same⟩

/-! ## The ledger along a run -/

/-- The ledger has given out this id. -/
def Issued (records : CommandRecords) (commandId : CommandId) : Prop :=
  1 ≤ commandId ∧ commandId < records.ledger.nextCommandId

/-- A command that was issued and that the ledger does not know is finished. -/
structure Settled (records : CommandRecords) (recorded : List (CommandId × CommandStatus)) :
    Prop where
  consistent : records.Consistent
  positive : 1 ≤ records.ledger.nextCommandId
  closed : ∀ commandId, Issued records commandId →
    records.ledger.domain commandId = none → Terminal recorded commandId

section Settled

variable {records records' : CommandRecords} {recorded : List (CommandId × CommandStatus)}
  (settled : Settled records recorded)

include settled

theorem Settled.allocate (dom : ProtocolDomain) (seed : Fields) :
    Settled ⟨(records.ledger.allocate dom seed).2, records.store⟩ recorded where
  consistent := settled.consistent.allocate dom seed
  positive := Nat.le_succ_of_le settled.positive
  closed := by
    intro cid gave miss
    simp only [CommandLedger.domain_allocate] at miss
    split at miss
    · cases miss
    · rename_i old
      have pre := Nat.lt_of_le_of_ne (Nat.le_of_lt_succ gave.2) old
      exact settled.closed cid ⟨gave.1, pre⟩ miss

theorem Settled.record {cid : CommandId} {stat : CommandStatus} {det : Option Value}
    {sc : CommitScope} {com : Option CommitResult}
    (done : records.recordCommandStatus cid stat det sc = .ok (records', com)) :
    Settled records'
        (if com.isSome then recorded ++ [(cid, stat)] else recorded) ∧
      records'.ledger.nextCommandId = records.ledger.nextCommandId := by
  rcases settled.consistent.record_spec done with ⟨rfl, rfl⟩ | ⟨move, comd, -⟩
  · exact ⟨settled, rfl⟩
  · rw [if_pos comd]
    refine ⟨⟨move.consistent, move.next ▸ settled.positive, ?_⟩, move.next⟩
    intro alt gave miss
    unfold Issued at gave
    rw [move.next] at gave
    rw [move.domain] at miss
    split at miss
    · rename_i here
      exact ⟨stat, by simp [here.1], here.2⟩
    · obtain ⟨fin, mem, term⟩ := settled.closed alt gave miss
      exact ⟨fin, mem_append_left _ mem, term⟩

/-- After a failure was recorded, or could not be, the command is finished. -/
theorem Settled.failed {cid : CommandId} (gave : Issued records cid)
    (det : Option Value) (sc : CommitScope) :
    match records.recordCommandStatus cid .failed det sc with
    | .error _ => Terminal recorded cid
    | .ok (_, com) => Terminal
        (if com.isSome then recorded ++ [(cid, .failed)] else recorded) cid := by
  cases seen : records.ledger.status cid with
  | some cur =>
    have mvs := CommandStatus.canMoveTo_failed (settled.consistent.open_ cid cur seen).1
    obtain ⟨sto, com, gone, done, -, -⟩ := settled.consistent.record_committed seen mvs det sc
    rw [done]
    exact ⟨.failed, by simp, rfl⟩
  | none =>
    obtain ⟨fin, mem, term⟩ := settled.closed cid gave ((settled.consistent.statuses cid).mp seen)
    split
    · exact ⟨fin, mem, term⟩
    · refine ⟨fin, ?_, term⟩
      split
      · exact mem_append_left _ mem
      · exact mem

end Settled

/-! ## The invariant -/

structure Kept (state : OutboundState Request) : Prop where
  settled : Settled state.records state.recorded
  issued : ∀ envelope ∈ state.pushed, Issued state.records envelope.commandId
  accounted : Accounted state.pushed (state.inFlight ++ state.outbound) state.handed
    state.recorded

theorem new_kept (maxRetainedTerminalCommands : Nat) (rev : Revision) :
    (new maxRetainedTerminalCommands rev : OutboundState Request).Kept where
  settled := by
    refine ⟨CommandRecords.withRetention_consistent _ rev, le_refl 1, ?_⟩
    intro cid gave _
    exact absurd gave.1 (Nat.not_le.mpr gave.2)
  issued := nofun
  accounted := ⟨[], rfl, rfl, nofun⟩

section Steps

variable {state state' : OutboundState Request}

/-- Recording a status leaves the requests where they are. -/
theorem record_some {cid : CommandId} {stat : CommandStatus} {det : Option Value}
    {sc : CommitScope} (recorded : state.record cid stat det sc = some state') :
    ∃ records com,
      state.records.recordCommandStatus cid stat det sc = .ok (records, com) ∧
      state' = { state with
        records := records
        recorded := if com.isSome then state.recorded ++ [(cid, stat)]
          else state.recorded } := by
  unfold record at recorded
  split at recorded
  · cases recorded
  · rename_i records com done
    cases recorded
    exact ⟨records, com, done, rfl⟩

theorem subset_recorded (recorded : List (CommandId × CommandStatus))
    (com : Option CommitResult) (ent : CommandId × CommandStatus) :
    recorded ⊆ if com.isSome then recorded ++ [ent] else recorded := by
  split
  · exact subset_append_left _ _
  · exact List.Subset.refl _

theorem Kept.record (kept : state.Kept) {cid : CommandId} {stat : CommandStatus}
    {det : Option Value} {sc : CommitScope}
    (recorded : state.record cid stat det sc = some state') : state'.Kept := by
  obtain ⟨records, com, done, rfl⟩ := record_some recorded
  obtain ⟨settled, next⟩ := kept.settled.record done
  refine ⟨settled, ?_, kept.accounted.mono (subset_recorded _ _ _)⟩
  intro envelope mem
  obtain ⟨pos, bnd⟩ := kept.issued envelope mem
  exact ⟨pos, next ▸ bnd⟩

theorem inFlight_continueFlush (state : OutboundState Request)
    (disps : List (OutboundDispatch Request)) (sentCommandIds : List CommandId) :
    (state.continueFlush disps sentCommandIds).inFlight = disps.map (·.envelope) := by
  cases disps <;> rfl

section

variable (kept : state.Kept) {envelope : OutboundEnvelope Request}
  (mem : envelope ∈ state.inFlight ++ state.outbound)

include kept mem

theorem mem_pushed_of_left : envelope ∈ state.pushed := by
  obtain ⟨journal, all, -, -⟩ := kept.accounted
  rw [all]
  exact mem_append_right _ mem

theorem Kept.terminal_of_unknown (unknown : state.knows envelope.commandId = false) :
    Terminal state.recorded envelope.commandId :=
  kept.settled.closed _ (kept.issued envelope (mem_pushed_of_left kept mem))
    (by simpa [knows] using unknown)

end

theorem Kept.submit (kept : state.Kept) (dom : ProtocolDomain) (seed : Fields)
    (reqs : List Request) :
    let (cid, ldg) := state.records.ledger.allocate dom seed
    let envelopes := reqs.map (⟨cid, ·⟩)
    ({ state with
        records := { state.records with ledger := ldg }
        outbound := state.outbound ++ envelopes
        pushed := state.pushed ++ envelopes } : OutboundState Request).Kept := by
  refine ⟨kept.settled.allocate dom seed, ?_, ?_⟩
  · intro envelope mem
    rcases mem_append.mp mem with old | new
    · obtain ⟨pos, bnd⟩ := kept.issued envelope old
      exact ⟨pos, Nat.lt_succ_of_lt bnd⟩
    · obtain ⟨req, -, rfl⟩ := mem_map.mp new
      exact ⟨kept.settled.positive, Nat.lt_succ_self _⟩
  · have acct := kept.accounted.push (reqs.map (⟨(state.records.ledger.allocate dom seed).1, ·⟩))
    rw [append_assoc] at acct
    exact acct

/-- The known commands of the queue, as the drain needs them. -/
theorem known_of_all
    (seen : (state.outbound.all fun envelope => state.knows envelope.commandId) = true) :
    ∀ envelope ∈ state.outbound, state.records.ledger.domain envelope.commandId ≠ none := by
  intro envelope mem
  exact Option.isSome_iff_ne_none.mp (all_eq_true.mp seen envelope mem)

theorem Kept.drain (kept : state.Kept) (hold : state.keeps .drainDispatches = true)
    (stepped : state.step .drainDispatches = some state') : state'.Kept := by
  rw [OutboundState.keeps, Bool.and_eq_true, Bool.or_eq_true, List.isEmpty_iff,
    List.isEmpty_iff] at hold
  obtain ⟨disps, drained, same⟩ := drain_ok (known_of_all hold.1)
  simp only [step, drained, Option.some.injEq] at stepped
  subst stepped
  refine ⟨kept.settled, kept.issued, ?_⟩
  have acct := kept.accounted
  simp only [same, append_nil]
  change Accounted _ state.inFlight _ _
  rcases hold.2 with emp | idle
  · rw [emp, append_nil] at acct ⊢
    exact acct
  · rw [idle] at acct ⊢
    apply Accounted.hand
    rw [append_nil]
    exact acct

theorem Kept.beginFlush (kept : state.Kept) (hold : state.keeps .flushOutbound = true)
    (stepped : state.step .flushOutbound = some state') : state'.Kept := by
  obtain ⟨disps, drained, same⟩ := drain_ok (known_of_all hold)
  cases flush : state.flush with
  | some runs => simp [step, flush] at stepped
  | none =>
    simp only [step, flush, drained, Option.some.injEq] at stepped
    subst stepped
    have acct := kept.accounted
    have idle : state.inFlight = [] := by rw [inFlight, flush]; rfl
    rw [idle] at acct
    refine ⟨kept.settled, kept.issued, ?_⟩
    rw [inFlight_continueFlush, same]
    simpa [continueFlush] using acct

/-- A flush that returns early loses nothing when all that it leaves behind is finished. -/
theorem Kept.abandon (kept : state.Kept)
    (done : ∀ envelope ∈ state.inFlight, Terminal state.recorded envelope.commandId) :
    ({ state with flush := none } : OutboundState Request).Kept :=
  ⟨kept.settled, kept.issued, kept.accounted.lose done⟩

variable {dispatch : OutboundDispatch Request} {rest : List (OutboundDispatch Request)}
  {sentCommandIds : List CommandId}

/-- A dispatch that the transport has taken leaves the flush. -/
theorem Kept.handOver (kept : state.Kept)
    (runs : state.flush = some ⟨dispatch :: rest, sentCommandIds⟩)
    (sentCommandIds' : List CommandId) :
    ({ state with handed := state.handed ++ [dispatch.envelope] }.continueFlush rest
      sentCommandIds').Kept := by
  refine ⟨kept.settled, kept.issued, ?_⟩
  rw [inFlight_continueFlush]
  apply Accounted.hand
  have acct := kept.accounted
  rw [inFlight, runs] at acct
  exact acct

/-- The flush ends after a dispatch, and the others belong to finished commands. -/
theorem Kept.abandonRest (kept : state.Kept)
    (runs : state.flush = some ⟨dispatch :: rest, sentCommandIds⟩)
    (unknown : ∀ later ∈ rest, state.knows later.commandId = false) :
    { state with flush := none, handed := state.handed ++ [dispatch.envelope] }.Kept := by
  refine (kept.handOver runs []).abandon ?_
  intro envelope mem
  rw [inFlight_continueFlush] at mem
  obtain ⟨later, left, rfl⟩ := mem_map.mp mem
  refine kept.terminal_of_unknown (mem_append_left _ ?_) (unknown later left)
  rw [inFlight, runs]
  exact mem_cons_of_mem _ mem

theorem Kept.dropFlush (kept : state.Kept) {taken : Bool}
    (hold : state.keeps (.flushDropped taken) = true)
    (runs : state.flush = some ⟨dispatch :: rest, sentCommandIds⟩) :
    { state with
      flush := none
      handed := if taken then state.handed ++ [dispatch.envelope] else state.handed }.Kept := by
  cases taken with
  | true =>
    refine kept.abandonRest runs fun later left => ?_
    simp only [keeps, inFlight, runs] at hold
    exact (Bool.not_eq_true' _).mp (all_eq_true.mp hold later.envelope (mem_map_of_mem left))
  | false =>
    refine kept.abandon fun envelope mem => kept.terminal_of_unknown (mem_append_left _ mem) ?_
    simpa using all_eq_true.mp hold envelope mem

theorem record_flush (state : OutboundState Request) (flush : Option (Flush Request))
    (handed : List (OutboundEnvelope Request)) (cid : CommandId) (stat : CommandStatus)
    (det : Option Value) (sc : CommitScope) :
    { state with flush := flush, handed := handed }.record cid stat det sc =
      (state.record cid stat det sc).map fun state =>
        { state with flush := flush, handed := handed } := by
  unfold record
  dsimp only
  split <;> rfl

theorem Kept.failedTurn (kept : state.Kept)
    (runs : state.flush = some ⟨dispatch :: rest, sentCommandIds⟩)
    (hold : ∀ later ∈ rest, later.commandId = dispatch.commandId ∨
      state.knows later.commandId = false) (error : ContractError) (det : Option Value) :
    (state.flushTurn dispatch rest sentCommandIds (.error error) det).Kept := by
  have inFlight : state.inFlight = dispatch.envelope :: rest.map (·.envelope) := by
    rw [inFlight, runs]
    rfl
  have gave : Issued state.records dispatch.commandId :=
    kept.issued dispatch.envelope (mem_pushed_of_left kept (by simp [inFlight]))
  have fail := kept.settled.failed gave det .realtimeUpdate
  -- the failed command and the others that are left are finished
  have fin {recorded : List (CommandId × CommandStatus)} (more : state.recorded ⊆ recorded)
      (here : Terminal recorded dispatch.commandId) :
      ∀ envelope ∈ state.inFlight, Terminal recorded envelope.commandId := by
    intro envelope mem
    rw [inFlight] at mem
    rcases mem_cons.mp mem with rfl | later
    · exact here
    · obtain ⟨dispatch', left, rfl⟩ := mem_map.mp later
      rcases hold dispatch' left with same | unknown
      · change Terminal recorded dispatch'.commandId
        rwa [same]
      · obtain ⟨stat, seen, term⟩ := kept.terminal_of_unknown
          (mem_append_left _ (inFlight ▸ mem)) unknown
        exact ⟨stat, more seen, term⟩
  have fld := record_flush state none state.handed dispatch.commandId .failed det .realtimeUpdate
  unfold flushTurn
  dsimp only
  rw [fld]
  cases recorded : state.record dispatch.commandId .failed det .realtimeUpdate with
  | none =>
    unfold OutboundState.record at recorded
    split at recorded
    · rename_i done
      rw [done] at fail
      exact kept.abandon (fin (List.Subset.refl _) fail)
    · cases recorded
  | some state' =>
    have kept' := kept.record recorded
    obtain ⟨records, com, done, rfl⟩ := record_some recorded
    rw [done] at fail
    exact kept'.abandon (fin (subset_recorded _ _ _) fail)

theorem Kept.sentTurn (kept : state.Kept)
    (runs : state.flush = some ⟨dispatch :: rest, sentCommandIds⟩)
    (hold : dispatch.commandId ∈ sentCommandIds ∨
      state.records.ledger.status dispatch.commandId = some .queued ∨
      (state.knows dispatch.commandId = false ∧
        state.records.ledger.isEvictedTerminal dispatch.commandId = true) ∨
      ∀ post ∈ rest, state.knows post.commandId = false) (route : String) (det : Option Value) :
    (state.flushTurn dispatch rest sentCommandIds (.ok route) det).Kept := by
  have handed := kept.handOver runs
  unfold flushTurn
  dsimp only
  by_cases already : dispatch.commandId ∈ sentCommandIds
  · rw [if_pos already]
    exact handed sentCommandIds
  · rw [if_neg already]
    have fld := record_flush state state.flush (state.handed ++ [dispatch.envelope])
      dispatch.commandId .sent det .realtimeUpdate
    rw [fld]
    cases recorded : state.record dispatch.commandId .sent det .realtimeUpdate with
    | some state' =>
      have kept' := kept.record recorded
      obtain ⟨records, com, done, rfl⟩ := record_some recorded
      exact kept'.handOver runs (sentCommandIds ++ [dispatch.commandId])
    | none =>
      have bad : ∀ res, state.records.recordCommandStatus dispatch.commandId .sent det
          .realtimeUpdate ≠ .ok res := by
        intro res done
        rw [OutboundState.record, done] at recorded
        cases recorded
      have unknown : ∀ post ∈ rest, state.knows post.commandId = false := by
        rcases hold with sent | queued | evicted | unknown
        · exact absurd sent already
        · obtain ⟨_, _, _, done, -, -⟩ := kept.settled.consistent.record_committed queued
            (show CommandStatus.queued.canMoveTo .sent = true from rfl) det .realtimeUpdate
          exact absurd done (bad _)
        · have gone : state.records.ledger.domain dispatch.commandId = none := by
            simpa [knows] using evicted.1
          have done : state.records.recordCommandStatus dispatch.commandId .sent det
              .realtimeUpdate = .ok (state.records, none) := by
            rw [CommandRecords.recordCommandStatus, if_pos ⟨gone, evicted.2⟩]
          exact absurd done (bad _)
        · exact unknown
      exact kept.abandonRest runs unknown

theorem Kept.step (kept : state.Kept) {ev : OutboundEvent Request}
    (hold : state.keeps ev = true) (stepped : state.step ev = some state') :
    state'.Kept := by
  cases ev with
  | submit dom seed enc =>
    cases enc with
    | error error =>
      cases stepped
      exact kept
    | ok reqs =>
      cases stepped
      exact kept.submit dom seed reqs
  | recordCommandStatus cid stat det sc =>
    cases recorded : state.record cid stat det sc with
    | none =>
      simp only [OutboundState.step, recorded, Option.getD_none, Option.some.injEq] at stepped
      exact stepped ▸ kept
    | some post =>
      simp only [OutboundState.step, recorded, Option.getD_some, Option.some.injEq] at stepped
      exact stepped ▸ kept.record recorded
  | drainDispatches => exact kept.drain hold stepped
  | flushOutbound => exact kept.beginFlush hold stepped
  | dispatched ans det =>
    cases runs : state.flush with
    | none => simp [OutboundState.step, runs] at stepped
    | some flush =>
      obtain ⟨disps, sentCommandIds⟩ := flush
      cases disps with
      | nil => simp [OutboundState.step, runs] at stepped
      | cons dispatch rest =>
        simp only [OutboundState.step, runs, Option.some.injEq] at stepped
        subst stepped
        cases ans with
        | error error =>
          refine kept.failedTurn runs ?_ error det
          simpa [OutboundState.keeps, runs] using hold
        | ok route =>
          refine kept.sentTurn runs ?_ route det
          simpa [OutboundState.keeps, runs, or_assoc] using hold
  | flushDropped taken =>
    cases runs : state.flush with
    | none => simp [OutboundState.step, runs] at stepped
    | some flush =>
      obtain ⟨_ | ⟨dispatch, rest⟩, sentCommandIds⟩ := flush
      · simp [OutboundState.step, runs] at stepped
      · simp only [OutboundState.step, runs, Option.some.injEq] at stepped
        exact stepped ▸ kept.dropFlush hold runs

end Steps

/-! ## Runs -/

/-- A step that meets the condition. -/
def Keeping (state state' : OutboundState Request) : Prop :=
  ∃ event, state.keeps event = true ∧ state.step event = some state'

theorem run_kept {state state' : OutboundState Request} (kept : state.Kept)
    (run : Relation.ReflTransGen Keeping state state') : state'.Kept := by
  induction run with
  | refl => exact kept
  | tail _ last ih =>
    obtain ⟨ev, hold, stepped⟩ := last
    exact ih.step hold stepped

/-- No request is lost in a run whose steps all meet the condition.  Everything pushed has left
the queue in order: it was handed over, once and in that order, or belongs to a finished
command; or it is in flight in a running flush; or it is still queued.  A drain that meets the
condition returns the whole queue. -/
theorem requests_kept {maxRetainedTerminalCommands : Nat} {revision : Revision}
    {state : OutboundState Request}
    (run : Relation.ReflTransGen Keeping (new maxRetainedTerminalCommands revision) state) :
    (∃ journal : List (OutboundEnvelope Request × Bool),
      state.pushed = journal.map Prod.fst ++ (state.inFlight ++ state.outbound) ∧
      state.handed = (journal.filter (·.2)).map Prod.fst ∧
      ∀ entry ∈ journal, entry.2 = false → Terminal state.recorded entry.1.commandId) ∧
    ((state.keeps .drainDispatches = true ∨ state.keeps .flushOutbound = true) →
      ∃ dispatches, state.records.ledger.drain state.outbound = .ok dispatches ∧
        dispatches.map (·.envelope) = state.outbound) := by
  have kept := run_kept (new_kept _ _) run
  refine ⟨kept.accounted, ?_⟩
  rintro (keeps | keeps)
  · rw [OutboundState.keeps, Bool.and_eq_true] at keeps
    exact drain_ok (known_of_all keeps.1)
  · exact drain_ok (known_of_all keeps)

/-- The run of a list of events. -/
def runEvents (state : OutboundState Request) :
    List (OutboundEvent Request) → Option (OutboundState Request)
  | [] => some state
  | event :: events =>
    match state.step event with
    | none => none
    | some state' => runEvents state' events

/-- Every event of the run meets the condition. -/
def keepsAll (state : OutboundState Request) : List (OutboundEvent Request) → Bool
  | [] => true
  | event :: events =>
    state.keeps event &&
      match state.step event with
      | none => true
      | some state' => keepsAll state' events

theorem runEvents_keeping {evs : List (OutboundEvent Request)}
    {state state' : OutboundState Request} (ran : state.runEvents evs = some state')
    (hold : state.keepsAll evs = true) : Relation.ReflTransGen Keeping state state' := by
  induction evs generalizing state with
  | nil =>
    cases ran
    exact .refl
  | cons ev evs ih =>
    rw [keepsAll, Bool.and_eq_true] at hold
    rw [runEvents] at ran
    cases stepped : state.step ev with
    | none =>
      rw [stepped] at ran
      cases ran
    | some mid =>
      rw [stepped] at ran hold
      exact .head ⟨ev, hold.1, stepped⟩ (ih ran hold.2)

/-- An order is sent, a query fails at the transport, and another order is queued. -/
def flushedRun : List (OutboundEvent String) :=
  [.submit .trade [] (.ok ["insert_order a"]), .submit .query [] (.ok ["ins_query q"]),
    .flushOutbound, .dispatched (.ok "trade") none,
    .dispatched (.error (.transport "closed")) none,
    .submit .trade [] (.ok ["insert_order b"])]

theorem requests_kept_flushedRun :
    ∃ state, (new 8 0).runEvents flushedRun = some state ∧
      state.handed = [⟨1, "insert_order a"⟩] ∧ state.outbound = [⟨3, "insert_order b"⟩] ∧
      state.recorded = [(1, .sent), (2, .failed)] ∧
      ∃ journal : List (OutboundEnvelope String × Bool),
        state.pushed = journal.map Prod.fst ++ (state.inFlight ++ state.outbound) ∧
        state.handed = (journal.filter (·.2)).map Prod.fst ∧
        ∀ entry ∈ journal, entry.2 = false → Terminal state.recorded entry.1.commandId := by
  have hold : (new 8 0).keepsAll flushedRun = true := by decide
  have shown : ((new 8 0).runEvents flushedRun).map (fun state =>
      (state.handed, state.outbound, state.recorded)) =
      some ([⟨1, "insert_order a"⟩], [⟨3, "insert_order b"⟩], [(1, .sent), (2, .failed)]) := by
    decide
  obtain ⟨state, ran, shown⟩ := Option.map_eq_some_iff.mp shown
  simp only [Prod.mk.injEq] at shown
  exact ⟨state, ran, shown.1, shown.2.1, shown.2.2,
    (requests_kept (runEvents_keeping ran hold)).1⟩

/-- The first order is cancelled while the second one is queued, and the queue is drained. -/
def drainedRun : List (OutboundEvent String) :=
  [.submit .trade [] (.ok ["insert_order a"]), .submit .trade [] (.ok ["insert_order b"]),
    .recordCommandStatus 1 .cancelled none .realtimeUpdate, .drainDispatches]

/-- The transport fails on the first order of a flush. -/
def brokenRun : List (OutboundEvent String) :=
  [.submit .trade [] (.ok ["insert_order a"]), .submit .trade [] (.ok ["insert_order b"]),
    .flushOutbound, .dispatched (.error (.transport "closed")) none]

/-- Both runs lose the second order: it is nowhere, and its command is still `queued`. -/
theorem requests_lost :
    (∃ state, (new 8 0).runEvents drainedRun = some state ∧
      state.pushed = [⟨1, "insert_order a"⟩, ⟨2, "insert_order b"⟩] ∧
      state.handed ++ state.inFlight ++ state.outbound = [] ∧
      state.recorded = [(1, .cancelled)] ∧
      state.records.ledger.status 2 = some .queued) ∧
    ∃ state, (new 8 0).runEvents brokenRun = some state ∧
      state.pushed = [⟨1, "insert_order a"⟩, ⟨2, "insert_order b"⟩] ∧
      state.handed ++ state.inFlight ++ state.outbound = [] ∧
      state.recorded = [(1, .failed)] ∧
      state.records.ledger.status 2 = some .queued := by
  have drained : ((new 8 0).runEvents drainedRun).map (fun state =>
      ((state.pushed, state.handed ++ state.inFlight ++ state.outbound),
        (state.recorded, state.records.ledger.status 2))) =
      some (([⟨1, "insert_order a"⟩, ⟨2, "insert_order b"⟩], []),
        ([(1, .cancelled)], some .queued)) := by
    decide
  have broken : ((new 8 0).runEvents brokenRun).map (fun state =>
      ((state.pushed, state.handed ++ state.inFlight ++ state.outbound),
        (state.recorded, state.records.ledger.status 2))) =
      some (([⟨1, "insert_order a"⟩, ⟨2, "insert_order b"⟩], []),
        ([(1, .failed)], some .queued)) := by
    decide
  obtain ⟨state, ran, shown⟩ := Option.map_eq_some_iff.mp drained
  obtain ⟨state', ran', shown'⟩ := Option.map_eq_some_iff.mp broken
  simp only [Prod.mk.injEq, and_assoc] at shown shown'
  exact ⟨⟨state, ran, shown⟩, ⟨state', ran', shown'⟩⟩

end OutboundState

end Tqsdk
