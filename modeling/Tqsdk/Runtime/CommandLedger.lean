import Mathlib.Data.Finset.Erase
import Mathlib.Data.Finset.Insert
import Tqsdk.Lib.Numbered
import Tqsdk.Runtime.Handle

/-!
# The command ledger

`runtime/command_ledger.rs` and `RuntimeHandle::record_command_status`.  The ledger knows a
command from its submission until a terminal status is recorded; from then on only the state
tree tells its status, and not even that once later terminal commands have evicted it.

`LedgerConsistent` ties the ledger to the state tree: the tree holds the last recorded status
of every command the ledger knows, and nothing but terminal statuses otherwise.  With it a
recorded status is always committed (`record_committed`), so that a command leaves the ledger
exactly when a terminal status of it is recorded (`record_spec`).
-/

namespace Tqsdk

open OrdMap

open Option Value

/-! ## Statuses -/

inductive CommandStatus
  | queued | sent | acked | partiallyApplied | completed | rejected | failed | cancelled
  deriving DecidableEq

namespace CommandStatus

def asStr : CommandStatus → String
  | .queued => "queued"
  | .sent => "sent"
  | .acked => "acked"
  | .partiallyApplied => "partially_applied"
  | .completed => "completed"
  | .rejected => "rejected"
  | .failed => "failed"
  | .cancelled => "cancelled"

def fromStr : String → Option CommandStatus
  | "queued" => some .queued
  | "sent" => some .sent
  | "acked" => some .acked
  | "partially_applied" => some .partiallyApplied
  | "completed" => some .completed
  | "rejected" => some .rejected
  | "failed" => some .failed
  | "cancelled" => some .cancelled
  | _ => none

def isTerminal : CommandStatus → Bool
  | .completed | .rejected | .failed | .cancelled => true
  | _ => false

/-- The `match` of `validate_command_status_transition`. -/
def canMoveTo (current next : CommandStatus) : Bool :=
  match current with
  | .queued => [.sent, .rejected, .failed, .cancelled].contains next
  | .sent =>
    [.acked, .partiallyApplied, .completed, .rejected, .failed, .cancelled].contains next
  | .acked => [.partiallyApplied, .completed, .rejected, .failed, .cancelled].contains next
  | .partiallyApplied => [.completed, .rejected, .failed, .cancelled].contains next
  | .completed | .rejected | .failed | .cancelled => current == next

theorem fromStr_asStr (status : CommandStatus) : fromStr status.asStr = some status := by
  cases status <;> rfl

theorem asStr_injective {status status' : CommandStatus} (same : status.asStr = status'.asStr) :
    status = status' := by
  have parsed := congrArg fromStr same
  rwa [fromStr_asStr, fromStr_asStr, some.injEq] at parsed

variable {current : CommandStatus}

theorem canMoveTo_terminal {next : CommandStatus} (terminal : current.isTerminal = true)
    (mvs : current.canMoveTo next = true) : next = current := by
  cases current <;> cases next <;> revert terminal mvs <;> decide

/-- No status leads back to itself or to the first one before it is final. -/
theorem canMoveTo_ne {next : CommandStatus} (open_ : current.isTerminal = false)
    (mvs : current.canMoveTo next = true) : next ≠ current ∧ next ≠ .queued := by
  cases current <;> cases next <;> revert open_ mvs <;> decide

theorem canMoveTo_failed (open_ : current.isTerminal = false) :
    current.canMoveTo .failed = true := by
  cases current <;> revert open_ <;> decide

end CommandStatus

def validateCommandStatusTransition (commandId : CommandId) (current : Option CommandStatus)
    (next : CommandStatus) : Except ContractError Unit :=
  match current with
  | none => .error (.validation
      ("unknown command status for command status update: " ++ toString commandId))
  | some current =>
    if current.canMoveTo next then .ok ()
    else .error (.validation ("invalid command status transition for command " ++
      toString commandId ++ ": " ++ current.asStr ++ " -> " ++ next.asStr))

/-! ## The ledger -/

structure CommandLedger where
  nextCommandId : CommandId
  commandDomains : List (CommandId × ProtocolDomain)
  commandStatuses : List (CommandId × CommandStatus)
  commandDetailSeeds : List (CommandId × Fields)
  retainedTerminalCommands : List CommandId
  retainedTerminalSet : Finset CommandId
  evictedTerminalCommands : List CommandId
  evictedTerminalSet : Finset CommandId
  maxRetainedTerminalCommands : Nat
  maxEvictedTerminalCommands : Nat

namespace CommandLedger

def withRetention (maxRetainedTerminalCommands : Nat) : CommandLedger :=
  let maxRetainedTerminalCommands := max maxRetainedTerminalCommands 1
  ⟨1, [], [], [], [], ∅, [], ∅, maxRetainedTerminalCommands, maxRetainedTerminalCommands⟩

variable (ledger : CommandLedger)

def allocate (domain : ProtocolDomain) (detailSeed : Fields) : CommandId × CommandLedger :=
  (ledger.nextCommandId,
    { ledger with
      nextCommandId := ledger.nextCommandId + 1
      commandDomains := OrdMap.insert ledger.nextCommandId domain ledger.commandDomains
      commandStatuses := OrdMap.insert ledger.nextCommandId .queued ledger.commandStatuses
      commandDetailSeeds :=
        if detailSeed.isEmpty then ledger.commandDetailSeeds
        else OrdMap.insert ledger.nextCommandId detailSeed ledger.commandDetailSeeds })

def domain (commandId : CommandId) : Option ProtocolDomain :=
  get? commandId ledger.commandDomains

def detailSeed (commandId : CommandId) : Option Fields :=
  get? commandId ledger.commandDetailSeeds

def status (commandId : CommandId) : Option CommandStatus :=
  get? commandId ledger.commandStatuses

def updateStatus (commandId : CommandId) (status : CommandStatus) : CommandLedger :=
  if (ledger.domain commandId).isSome then
    { ledger with commandStatuses := OrdMap.insert commandId status ledger.commandStatuses }
  else ledger

def release (commandId : CommandId) : CommandLedger :=
  { ledger with
    commandDomains := OrdMap.erase commandId ledger.commandDomains
    commandStatuses := OrdMap.erase commandId ledger.commandStatuses
    commandDetailSeeds := OrdMap.erase commandId ledger.commandDetailSeeds }

def isEvictedTerminal (commandId : CommandId) : Bool :=
  decide (commandId ∈ ledger.evictedTerminalSet)

def pendingTerminalEviction (commandId : CommandId) : Option CommandId :=
  if commandId ∈ ledger.retainedTerminalSet ∨ commandId ∈ ledger.evictedTerminalSet then none
  else if ledger.maxRetainedTerminalCommands ≤ ledger.retainedTerminalCommands.length then
    ledger.retainedTerminalCommands.head?
  else none

/-- The loop of `record_evicted_terminal`: the oldest evicted commands are forgotten. -/
def expireEvicted (limit : Nat) : List CommandId → Finset CommandId →
    List CommandId × Finset CommandId
  | [], set => ([], set)
  | commandId :: rest, set =>
    if limit < (commandId :: rest).length then
      expireEvicted limit rest (set.erase commandId)
    else (commandId :: rest, set)

def recordEvictedTerminal (commandId : CommandId) : CommandLedger :=
  if commandId ∈ ledger.evictedTerminalSet then ledger
  else
    let (commands, set) := expireEvicted ledger.maxEvictedTerminalCommands
      (ledger.evictedTerminalCommands ++ [commandId]) (insert commandId ledger.evictedTerminalSet)
    { ledger with evictedTerminalCommands := commands, evictedTerminalSet := set }

/-- The part of `commit_terminal` that evicts the oldest retained command. -/
def evict : Option CommandId → CommandLedger
  | none => ledger
  | some evicted =>
    if ledger.retainedTerminalCommands.head? = some evicted then
      { ledger with
        retainedTerminalCommands := ledger.retainedTerminalCommands.tail
        retainedTerminalSet := ledger.retainedTerminalSet.erase evicted
        }.recordEvictedTerminal evicted
    else ledger

def commitTerminal (commandId : CommandId) (evicted : Option CommandId) : CommandLedger :=
  let ledger := ledger.release commandId
  if commandId ∈ ledger.retainedTerminalSet ∨ commandId ∈ ledger.evictedTerminalSet then ledger
  else
    let ledger := ledger.evict evicted
    { ledger with
      retainedTerminalCommands := ledger.retainedTerminalCommands ++ [commandId]
      retainedTerminalSet := insert commandId ledger.retainedTerminalSet }

end CommandLedger

def mergedDetailFromSeed (seed : Option Fields) (detail : Option Value) : Value :=
  let merged := seed.getD []
  match detail with
  | some (.object fields) =>
    .object (fields.foldl (fun merged field => OrdMap.insert field.1 field.2 merged) merged)
  | some value =>
    if merged.isEmpty then value else .object (OrdMap.insert "value" value merged)
  | none => if merged.isEmpty then .null else .object merged

/-! ## Recording a status -/

/-- Where the state tree keeps a field of a command, inside the runtime partition. -/
def commandPath (commandId : CommandId) (field : String) : List PathSegment :=
  ["commands", toString commandId, field]

def commandDomainFromRuntime (runtime : Value) (commandId : CommandId) :
    Option ProtocolDomain :=
  match (runtime.getAtPath (commandPath commandId "domain")).bind Value.asStr with
  | some "system" => some .system
  | some "market" => some .market
  | some "trade" => some .trade
  | some "replay" => some .replay
  | some "query" => some .query
  | some "schema" => some .schema
  | _ => none

def commandDetailSeedFromRuntime (runtime : Value) (commandId : CommandId) : Option Fields :=
  (runtime.getAtPath (commandPath commandId "detail")).bind Value.asObject

def commandStatusFromRuntime (runtime : Value) (commandId : CommandId) :
    Option CommandStatus :=
  ((runtime.getAtPath (commandPath commandId "status")).bind Value.asStr).bind
    CommandStatus.fromStr

def commandStatusMutation (commandId : CommandId) (domain : ProtocolDomain)
    (status : CommandStatus) (detail : Value) : NormalizedMutation where
  path := ["runtime", "commands", toString commandId]
  object := some (.command commandId)
  fields := sortFieldMutations
    [⟨"domain", .string domain.asStr⟩, ⟨"status", .string status.asStr⟩, ⟨"detail", detail⟩]
  source := .sessionControl

def commandCleanupMutation (commandId : CommandId) : NormalizedMutation where
  path := ["runtime", "commands", toString commandId]
  object := some (.command commandId)
  fields := [⟨"detail", .null⟩, ⟨"domain", .null⟩, ⟨"status", .null⟩]
  source := .sessionControl

/-- The ledger and the state tree it is kept next to. -/
structure CommandRecords where
  ledger : CommandLedger
  store : StateStore

namespace CommandRecords

/-- The part of `record_command_status` behind the checks. -/
def commitStatus (records : CommandRecords) (commandId : CommandId) (domain : ProtocolDomain)
    (status : CommandStatus) (detail : Value) (scope : CommitScope) :
    Except ContractError (CommandRecords × Option CommitResult) := do
  let evicted :=
    if status.isTerminal then records.ledger.pendingTerminalEviction commandId else none
  let (store, commit) ← RuntimeHandle.applyUnderCommitGate records.store
    (commandStatusMutation commandId domain status detail ::
      (evicted.map commandCleanupMutation).toList)
    [domain] [commandId] scope
  let ledger :=
    if commit.isNone then records.ledger
    else if status.isTerminal then records.ledger.commitTerminal commandId evicted
    else records.ledger.updateStatus commandId status
  return (⟨ledger, store⟩, commit)

/-- `record_command_status`.  A call that fails changes nothing. -/
def recordCommandStatus (records : CommandRecords) (commandId : CommandId)
    (status : CommandStatus) (detail : Option Value) (scope : CommitScope) :
    Except ContractError (CommandRecords × Option CommitResult) :=
  let ledger := records.ledger
  let runtime := records.store.partitions .runtime
  if ledger.domain commandId = none ∧ ledger.isEvictedTerminal commandId = true then
    .ok (records, none)
  else
    -- the state tree is only asked about commands that the ledger does not know
    let (domain, seedFromSnapshot, statusFromSnapshot) :=
      match ledger.domain commandId with
      | some domain => (some domain, none, none)
      | none =>
        (commandDomainFromRuntime runtime commandId,
          commandDetailSeedFromRuntime runtime commandId,
          commandStatusFromRuntime runtime commandId)
    match domain with
    | none => .error (.validation
        ("unknown command id for command status update: " ++ toString commandId))
    | some domain => do
        let current := (ledger.status commandId).or statusFromSnapshot
        validateCommandStatusTransition commandId current status
        if current = some status ∧ status.isTerminal = true then
          return (records, none)
        let detail :=
          mergedDetailFromSeed ((ledger.detailSeed commandId).or seedFromSnapshot) detail
        records.commitStatus commandId domain status detail scope

end CommandRecords

/-! ## What a recorded status does to the state tree -/

theorem commandPath_apart {commandId other : CommandId} (ne : other ≠ commandId) (fld : String) :
    Apart ["commands", toString commandId] (commandPath other fld) := by
  have segs : toString commandId ≠ toString other := fun same =>
    ne (Numbered.toString_injective same).symm
  have lt := Apart.of_head_ne segs [] [fld]
  constructor
  · intro ovr
    exact lt.1 ((List.prefix_cons_inj "commands").mp ovr)
  · intro ovr
    exact lt.2 ((List.prefix_cons_inj "commands").mp ovr)

section CommandTurn

variable {commandId : CommandId} {fields : List FieldMutation}

/-- A mutation of the object of a command. -/
def commandMutation (commandId : CommandId) (fields : List FieldMutation) :
    NormalizedMutation :=
  ⟨["runtime", "commands", toString commandId], some (.command commandId), fields,
    .sessionControl⟩

theorem commandTurn_runtime (ps : Partitions) (idx : Nat) :
    (applyTurn ps idx (commandMutation commandId fields)).1 .runtime =
      (applyMutationAtPath (some (.command commandId)) fields true (ps .runtime)
        ["commands", toString commandId]).node := by
  rfl

theorem commandTurn_written (commandId : CommandId) (nd : (fields.map (·.field)).Nodup)
    {fld : FieldMutation} (mem : fld ∈ fields) (ps : Partitions) (idx : Nat) :
    ((applyTurn ps idx (commandMutation commandId fields)).1 .runtime).getAtPath
      (commandPath commandId fld.field) = fieldAfter fld := by
  rw [commandTurn_runtime]
  exact applyMutationAtPath_written _ _ _ (fun _ => rfl) nd mem _ ["commands", toString commandId]

theorem commandTurn_other {other : CommandId} (ne : other ≠ commandId) (fld : String)
    (ps : Partitions) (idx : Nat) :
    ((applyTurn ps idx (commandMutation commandId fields)).1 .runtime).getAtPath
      (commandPath other fld) = (ps .runtime).getAtPath (commandPath other fld) := by
  rw [commandTurn_runtime]
  exact (applyMutationAtPath_frame _ _ _ _ _).apart _ (commandPath_apart ne fld)

end CommandTurn

/-- The fields of a recorded status, in the order in which they are written. -/
theorem commandStatusMutation_fields (commandId : CommandId) (dom : ProtocolDomain)
    (status : CommandStatus) (det : Value) :
    commandStatusMutation commandId dom status det = commandMutation commandId
      [⟨"detail", det⟩, ⟨"domain", .string dom.asStr⟩,
        ⟨"status", .string status.asStr⟩] := by
  have srt : sortFieldMutations [⟨"domain", .string dom.asStr⟩,
      ⟨"status", .string status.asStr⟩, ⟨"detail", det⟩] =
      [⟨"detail", det⟩, ⟨"domain", .string dom.asStr⟩, ⟨"status", .string status.asStr⟩] := by
    have hd : ¬ ("domain" : String) ≤ "detail" := by decide
    have snd : ("domain" : String) ≤ "status" := by decide
    have third : ¬ ("status" : String) ≤ "detail" := by decide
    simp [sortFieldMutations, List.insertionSort, List.orderedInsert, hd, snd, third]
  unfold commandStatusMutation commandMutation
  rw [srt]

/-- The status of a command in the state tree. -/
def StateStore.commandStatus (store : StateStore) (commandId : CommandId) : Option Value :=
  (store.partitions .runtime).getAtPath (commandPath commandId "status")

/-- A batch of command mutations passes the normalization and the validation. -/
theorem applyUnderCommitGate_commands (sto : StateStore) {mus : List NormalizedMutation}
    (cmds : ∀ m ∈ mus, ∃ commandId fields, m = commandMutation commandId fields)
    (doms : List ProtocolDomain) (cause : List CommandId) (sc : CommitScope) :
    RuntimeHandle.applyUnderCommitGate sto mus doms cause sc =
      .ok (CommitEngine.apply sto mus doms cause sc) := by
  have raw : mus.any isTradeOrderMutation = false := by
    rw [List.any_eq_false]
    intro m mem
    obtain ⟨commandId, fields, rfl⟩ := cmds m mem
    simp [isTradeOrderMutation, tradeOrderKey, commandMutation]
  have nrm : RuntimeHandle.normalizeMutations sto doms mus = .ok mus := by
    unfold RuntimeHandle.normalizeMutations normalizeOrderLifecycleMutations
    rw [raw]
    split <;> rfl
  have acc : validateMutationDomains mus = .ok () := by
    rw [validateMutationDomains_ok_iff]
    intro m mem
    obtain ⟨commandId, fields, rfl⟩ := cmds m mem
    exact ⟨"runtime", _, rfl, rfl⟩
  unfold RuntimeHandle.applyUnderCommitGate
  rw [nrm]
  change (validateMutationDomains mus >>= fun _ => _) = _
  rw [acc]
  rfl

/-- The statuses in the tree after a status was recorded and a command was evicted. -/
structure StatusRecorded (store store' : StateStore) (commandId : CommandId)
    (status : CommandStatus) (evicted : Option CommandId) : Prop where
  here : store'.commandStatus commandId = some (.string status.asStr)
  gone : ∀ other ∈ evicted, store'.commandStatus other = none
  others : ∀ other, other ≠ commandId → other ∉ evicted →
    store'.commandStatus other = store.commandStatus other

theorem recordTurns_status (sto : StateStore) (commandId : CommandId)
    (dom : ProtocolDomain) (status : CommandStatus) (det : Value)
    {gone : Option CommandId} (sep : commandId ∉ gone) (rev : Revision) :
    StatusRecorded sto ⟨rev, (StateStore.applyLoop 0 sto.partitions
      (commandStatusMutation commandId dom status det ::
        (gone.map commandCleanupMutation).toList)).1⟩ commandId status gone := by
  rw [commandStatusMutation_fields]
  have mem : (⟨"status", .string status.asStr⟩ : FieldMutation) ∈
      [(⟨"detail", det⟩ : FieldMutation), ⟨"domain", .string dom.asStr⟩,
        ⟨"status", .string status.asStr⟩] := by simp
  have put := commandTurn_written commandId (by simp) mem sto.partitions 0
  cases gone with
  | none =>
    refine ⟨put, nofun, ?_⟩
    intro other ne _
    exact commandTurn_other ne "status" sto.partitions 0
  | some gone =>
    have ne : commandId ≠ gone := fun same => sep (same ▸ rfl)
    have cleanup : commandCleanupMutation gone =
      commandMutation gone [⟨"detail", .null⟩, ⟨"domain", .null⟩, ⟨"status", .null⟩] := rfl
    rw [map_some, toList_some, cleanup]
    refine ⟨?_, ?_, ?_⟩
    · exact (commandTurn_other ne "status" _ 1).trans put
    · rintro _ ⟨⟩
      have erased : (⟨"status", .null⟩ : FieldMutation) ∈
        [(⟨"detail", .null⟩ : FieldMutation), ⟨"domain", .null⟩, ⟨"status", .null⟩] := by simp
      exact commandTurn_written gone (by simp) erased _ 1
    · intro other otherNe notEvicted
      have kept : other ≠ gone := fun same => notEvicted (same ▸ rfl)
      exact (commandTurn_other kept "status" _ 1).trans
        (commandTurn_other otherNe "status" sto.partitions 0)

/-- A status that the tree does not show yet is committed. -/
theorem CommandRecords.commitStatus_ok (records : CommandRecords) {commandId : CommandId}
    (dom : ProtocolDomain) {status : CommandStatus} (det : Value) (sc : CommitScope)
    {gone : Option CommandId}
    (eviction : (if status.isTerminal then records.ledger.pendingTerminalEviction commandId
      else none) = gone) (sep : commandId ∉ gone)
    (ne : records.store.commandStatus commandId ≠ some (.string status.asStr)) :
    ∃ sto com, records.commitStatus commandId dom status det sc =
        .ok (⟨if status.isTerminal then records.ledger.commitTerminal commandId gone
          else records.ledger.updateStatus commandId status, sto⟩, some com) ∧
      StatusRecorded records.store sto commandId status gone := by
  have cmds : ∀ m ∈ commandStatusMutation commandId dom status det ::
      (gone.map commandCleanupMutation).toList,
      ∃ commandId fields, m = commandMutation commandId fields := by
    intro m member
    rcases List.mem_cons.mp member with rfl | member
    · exact ⟨_, _, commandStatusMutation_fields commandId dom status det⟩
    · obtain ⟨other, -, rfl⟩ := by simpa using member
      exact ⟨_, _, rfl⟩
  have gate := applyUnderCommitGate_commands records.store cmds [dom] [commandId] sc
  rw [CommitEngine.apply_eq] at gate
  have note := recordTurns_status records.store commandId dom status det sep
  unfold commitStatus
  rw [eviction]
  dsimp only
  rw [gate]
  split
  · rename_i silent
    -- then nothing would have changed, and the status would be the old one
    have here := (note records.store.revision).here
    rw [CommitEngine.partitions_of_silent silent] at here
    exact absurd here ne
  · exact ⟨_, _, rfl, note _⟩

/-! ## The ledger and the tree agree -/

namespace CommandLedger

section Maps

variable (ledger : CommandLedger) (commandId other : CommandId)

theorem domain_allocate (dom : ProtocolDomain) (seed : Fields) :
    (ledger.allocate dom seed).2.domain other =
      if other = ledger.nextCommandId then some dom else ledger.domain other :=
  get?_insert _ _ _ _

theorem status_allocate (dom : ProtocolDomain) (seed : Fields) :
    (ledger.allocate dom seed).2.status other =
      if other = ledger.nextCommandId then some .queued else ledger.status other :=
  get?_insert _ _ _ _

theorem updateStatus_maps (status : CommandStatus) :
    (ledger.updateStatus commandId status).commandDomains = ledger.commandDomains ∧
      (ledger.updateStatus commandId status).nextCommandId = ledger.nextCommandId ∧
      (ledger.updateStatus commandId status).retainedTerminalCommands =
        ledger.retainedTerminalCommands := by
  unfold updateStatus
  split <;> exact ⟨rfl, rfl, rfl⟩

theorem status_updateStatus {commandId : CommandId} (seen : ledger.domain commandId ≠ none)
    (status : CommandStatus) :
    (ledger.updateStatus commandId status).status other =
      if other = commandId then some status else ledger.status other := by
  unfold updateStatus
  rw [if_pos (isSome_iff_ne_none.mpr seen)]
  exact get?_insert _ _ _ _

/-- An eviction only moves a command from the retained to the evicted ones. -/
theorem evict_maps (gone : Option CommandId) :
    (ledger.evict gone).commandDomains = ledger.commandDomains ∧
      (ledger.evict gone).commandStatuses = ledger.commandStatuses ∧
      (ledger.evict gone).nextCommandId = ledger.nextCommandId ∧
      (ledger.evict gone).retainedTerminalCommands ⊆ ledger.retainedTerminalCommands := by
  cases gone with
  | none => exact ⟨rfl, rfl, rfl, List.Subset.refl _⟩
  | some gone =>
    rw [evict]
    split
    · unfold recordEvictedTerminal
      split <;> exact ⟨rfl, rfl, rfl, List.tail_subset _⟩
    · exact ⟨rfl, rfl, rfl, List.Subset.refl _⟩

theorem commitTerminal_maps (gone : Option CommandId) :
    (∀ other, (ledger.commitTerminal commandId gone).domain other =
        if other = commandId then none else ledger.domain other) ∧
      (∀ other, (ledger.commitTerminal commandId gone).status other =
        if other = commandId then none else ledger.status other) ∧
      (ledger.commitTerminal commandId gone).nextCommandId = ledger.nextCommandId ∧
      (ledger.commitTerminal commandId gone).retainedTerminalCommands ⊆
        ledger.retainedTerminalCommands ++ [commandId] := by
  have released :
      (∀ other, (ledger.release commandId).domain other =
        if other = commandId then none else ledger.domain other) ∧
      ∀ other, (ledger.release commandId).status other =
        if other = commandId then none else ledger.status other :=
    ⟨fun other => get?_erase _ _ _, fun other => get?_erase _ _ _⟩
  obtain ⟨doms, stats, next, kept⟩ := evict_maps (ledger.release commandId) gone
  unfold commitTerminal
  dsimp only
  split
  · exact ⟨released.1, released.2, rfl, List.subset_append_left _ _⟩
  · refine ⟨?_, ?_, next, ?_⟩
    · intro other
      rw [← released.1 other]
      exact congrArg (get? other) doms
    · intro other
      rw [← released.2 other]
      exact congrArg (get? other) stats
    · exact List.append_subset.mpr
        ⟨List.Subset.trans kept (List.subset_append_left _ _), List.subset_append_right _ _⟩

theorem pendingTerminalEviction_mem {ledger : CommandLedger} {commandId gone : CommandId}
    (pend : ledger.pendingTerminalEviction commandId = some gone) :
    gone ∈ ledger.retainedTerminalCommands := by
  unfold pendingTerminalEviction at pend
  split at pend
  · cases pend
  · split at pend
    · exact List.mem_of_head? pend
    · cases pend

end Maps

end CommandLedger

/-- The tree shows the status of every command that the ledger knows, once it has moved on
from `queued`, and only terminal statuses of the others. -/
structure CommandRecords.Consistent (records : CommandRecords) : Prop where
  statuses : ∀ commandId, records.ledger.status commandId = none ↔
    records.ledger.domain commandId = none
  issued : ∀ commandId, records.ledger.domain commandId ≠ none →
    commandId < records.ledger.nextCommandId
  retained : ∀ commandId ∈ records.ledger.retainedTerminalCommands,
    records.ledger.domain commandId = none ∧ commandId < records.ledger.nextCommandId
  open_ : ∀ commandId status, records.ledger.status commandId = some status →
    status.isTerminal = false ∧ records.store.commandStatus commandId =
      if status = .queued then none else some (.string status.asStr)
  closed : ∀ commandId, records.ledger.domain commandId = none →
    ∀ value, records.store.commandStatus commandId = some value →
      ∃ status : CommandStatus, status.isTerminal = true ∧ value = .string status.asStr
  unissued : ∀ commandId, records.ledger.nextCommandId ≤ commandId →
    records.store.commandStatus commandId = none

namespace CommandRecords

theorem withRetention_consistent (maxRetained : Nat) (rev : Revision) :
    (⟨.withRetention maxRetained, .new rev⟩ : CommandRecords).Consistent :=
  ⟨fun _ => ⟨fun _ => rfl, fun _ => rfl⟩, fun _ seen => absurd rfl seen, nofun, nofun, nofun,
    fun _ _ => rfl⟩

/-- The state tree is not asked about a command that the ledger knows. -/
theorem recordCommandStatus_known {records : CommandRecords} {commandId : CommandId}
    {dom : ProtocolDomain} {current : CommandStatus}
    (got : records.ledger.domain commandId = some dom)
    (seen : records.ledger.status commandId = some current) (status : CommandStatus)
    (det : Option Value) (sc : CommitScope) :
    records.recordCommandStatus commandId status det sc = (do
      validateCommandStatusTransition commandId (some current) status
      if some current = some status ∧ status.isTerminal = true then
        return (records, none)
      records.commitStatus commandId dom status
        (mergedDetailFromSeed (records.ledger.detailSeed commandId) det) sc) := by
  unfold recordCommandStatus
  simp only [got, seen, or_none, reduceCtorEq, false_and, if_false]

/-- The ledger after a recording that committed. -/
structure Moved (records records' : CommandRecords) (commandId : CommandId)
    (status : CommandStatus) : Prop where
  consistent : records'.Consistent
  next : records'.ledger.nextCommandId = records.ledger.nextCommandId
  domain : ∀ other, records'.ledger.domain other =
    if other = commandId ∧ status.isTerminal = true then none else records.ledger.domain other
  status : ∀ other, records'.ledger.status other =
    if other = commandId then if status.isTerminal = true then none else some status
    else records.ledger.status other

section Recording

variable {records : CommandRecords} (cons : records.Consistent)

include cons

theorem Consistent.allocate (dom : ProtocolDomain) (seed : Fields) :
    (⟨(records.ledger.allocate dom seed).2, records.store⟩ : CommandRecords).Consistent where
  statuses := by
    intro commandId
    simp only [CommandLedger.status_allocate, CommandLedger.domain_allocate]
    split
    · simp
    · exact cons.statuses commandId
  issued := by
    intro commandId seen
    simp only [CommandLedger.domain_allocate] at seen
    split at seen
    · rename_i new
      exact new ▸ Nat.lt_succ_self _
    · exact Nat.lt_succ_of_lt (cons.issued commandId seen)
  retained := by
    intro commandId mem
    obtain ⟨miss, gave⟩ := cons.retained commandId mem
    refine ⟨?_, Nat.lt_succ_of_lt gave⟩
    simp only [CommandLedger.domain_allocate]
    rw [if_neg gave.ne, miss]
  open_ := by
    intro commandId status seen
    simp only [CommandLedger.status_allocate] at seen
    split at seen
    · rename_i new
      cases seen
      exact ⟨rfl, cons.unissued commandId new.ge⟩
    · exact cons.open_ commandId status seen
  closed := by
    intro commandId miss
    simp only [CommandLedger.domain_allocate] at miss
    split at miss
    · cases miss
    · exact cons.closed commandId miss
  unissued := by
    intro commandId fresh
    exact cons.unissued commandId ((Nat.le_succ _).trans fresh)

variable {status : CommandStatus}

/-- A status that may follow the current one is recorded and committed. -/
theorem Consistent.record_committed {commandId : CommandId} {current : CommandStatus}
    (known : records.ledger.status commandId = some current)
    (moves : current.canMoveTo status = true) (detail : Option Value) (scope : CommitScope) :
    ∃ store commit evicted,
      records.recordCommandStatus commandId status detail scope =
        .ok (⟨if status.isTerminal then records.ledger.commitTerminal commandId evicted
          else records.ledger.updateStatus commandId status, store⟩, some commit) ∧
      StatusRecorded records.store store commandId status evicted ∧
      (∀ other ∈ evicted, records.ledger.domain other = none ∧
        other < records.ledger.nextCommandId) ∧
      (if status.isTerminal then records.ledger.pendingTerminalEviction commandId else none) =
        evicted := by
  obtain ⟨notFinal, shown⟩ := cons.open_ commandId current known
  obtain ⟨notSame, notQueued⟩ := CommandStatus.canMoveTo_ne notFinal moves
  have hasDomain : records.ledger.domain commandId ≠ none := by
    intro miss
    rw [(cons.statuses commandId).mpr miss] at known
    cases known
  obtain ⟨dom, got⟩ := ne_none_iff_exists'.mp hasDomain
  have differs : records.store.commandStatus commandId ≠ some (.string status.asStr) := by
    rw [shown]
    split
    · exact nofun
    · intro same
      exact notSame (CommandStatus.asStr_injective (Value.string.inj (some.inj same)).symm)
  generalize eviction : (if status.isTerminal then
    records.ledger.pendingTerminalEviction commandId else none) = evicted
  have gone : ∀ other ∈ evicted, records.ledger.domain other = none ∧
      other < records.ledger.nextCommandId := by
    rintro other ⟨⟩
    split at eviction
    · exact cons.retained other (CommandLedger.pendingTerminalEviction_mem eviction)
    · cases eviction
  have apart : commandId ∉ evicted := fun mem => hasDomain (gone commandId mem).1
  obtain ⟨store, commit, committed, noted⟩ := records.commitStatus_ok dom (mergedDetailFromSeed
    (records.ledger.detailSeed commandId) detail) scope eviction apart differs
  refine ⟨store, commit, evicted, ?_, noted, gone, rfl⟩
  have ne : ¬ (some current = some status ∧ status.isTerminal = true) := fun both =>
    notSame (some.inj both.1).symm
  rw [recordCommandStatus_known got known, validateCommandStatusTransition, if_pos moves]
  change (if some current = some status ∧ status.isTerminal = true then _ else _) = _
  rw [if_neg ne, committed]

/-- What a recording that succeeds may do: nothing, or move a command that the ledger knows. -/
theorem Consistent.record_moves {records' : CommandRecords} {commandId : CommandId}
    {status : CommandStatus} {det : Option Value} {sc : CommitScope} {com : Option CommitResult}
    (note : records.recordCommandStatus commandId status det sc = .ok (records', com)) :
    (records' = records ∧ com = none) ∨ ∃ current,
      records.ledger.status commandId = some current ∧ current.canMoveTo status = true := by
  cases got : records.ledger.domain commandId with
  | some dom =>
    obtain ⟨current, seen⟩ : ∃ current, records.ledger.status commandId = some current := by
      rw [← ne_none_iff_exists', Ne, cons.statuses, got]
      exact nofun
    refine .inr ⟨current, seen, ?_⟩
    rw [recordCommandStatus_known got seen, validateCommandStatusTransition] at note
    by_contra blocked
    rw [if_neg blocked] at note
    cases note
  | none =>
    -- the tree can only show a terminal status, which stays
    have miss := (cons.statuses commandId).mpr got
    unfold recordCommandStatus at note
    simp only [got, miss, none_or, true_and] at note
    split at note
    · cases note
      exact .inl ⟨rfl, rfl⟩
    · cases shown : commandDomainFromRuntime (records.store.partitions .runtime) commandId with
      | none =>
        rw [shown] at note
        cases note
      | some dom =>
        rw [shown] at note
        cases current : commandStatusFromRuntime (records.store.partitions .runtime) commandId with
        | none =>
          rw [current] at note
          cases note
        | some current' =>
          have fin : current'.isTerminal = true := by
            obtain ⟨text, read, parsed⟩ := bind_eq_some_iff.mp current
            obtain ⟨val, at_, text'⟩ := bind_eq_some_iff.mp read
            obtain ⟨seen, fin, rfl⟩ := cons.closed commandId got val at_
            cases text'
            rw [CommandStatus.fromStr_asStr] at parsed
            cases parsed
            exact fin
          rw [current] at note
          simp only [validateCommandStatusTransition] at note
          by_cases mvs : current'.canMoveTo status = true
          · have same := CommandStatus.canMoveTo_terminal fin mvs
            subst same
            rw [if_pos mvs] at note
            change (if some status = some status ∧ status.isTerminal = true then _ else _)
              = _ at note
            rw [if_pos ⟨rfl, fin⟩] at note
            cases note
            exact .inl ⟨rfl, rfl⟩
          · rw [if_neg mvs] at note
            cases note

theorem Consistent.moved {commandId : CommandId} {current status : CommandStatus}
    (known : records.ledger.status commandId = some current)
    (mvs : current.canMoveTo status = true) {sto : StateStore} {out : Option CommandId}
    (note : StatusRecorded records.store sto commandId status out)
    (gone : ∀ other ∈ out, records.ledger.domain other = none ∧
      other < records.ledger.nextCommandId) :
    Moved records ⟨if status.isTerminal then records.ledger.commitTerminal commandId out
      else records.ledger.updateStatus commandId status, sto⟩ commandId status := by
  generalize post : (if status.isTerminal then records.ledger.commitTerminal commandId out
    else records.ledger.updateStatus commandId status) = ledger
  have hasDomain : records.ledger.domain commandId ≠ none := by
    rw [Ne, ← cons.statuses, known]
    exact nofun
  have notQueued := (CommandStatus.canMoveTo_ne (cons.open_ commandId current known).1 mvs).2
  -- both ways to leave the ledger touch this command only
  obtain ⟨doms, stats, next, retained⟩ :
      (∀ other, ledger.domain other =
        if other = commandId ∧ status.isTerminal = true then none
        else records.ledger.domain other) ∧
      (∀ other, ledger.status other =
        if other = commandId then if status.isTerminal = true then none else some status
        else records.ledger.status other) ∧
      ledger.nextCommandId = records.ledger.nextCommandId ∧
      ∀ other ∈ ledger.retainedTerminalCommands,
        other ∈ records.ledger.retainedTerminalCommands ∨
          other = commandId ∧ status.isTerminal = true := by
    subst post
    cases fin : status.isTerminal with
    | true =>
      obtain ⟨doms, stats, next, retained⟩ := records.ledger.commitTerminal_maps commandId out
      refine ⟨?_, ?_, next, ?_⟩
      · intro other
        simpa using doms other
      · intro other
        simpa using stats other
      · intro other mem
        simpa using retained mem
    | false =>
      obtain ⟨doms, next, retained⟩ := records.ledger.updateStatus_maps commandId status
      refine ⟨?_, ?_, next, ?_⟩
      · intro other
        simp only [Bool.false_eq_true, and_false, if_false]
        exact congrArg (get? other) doms
      · intro other
        simpa using records.ledger.status_updateStatus other hasDomain status
      · intro other mem
        exact .inl (retained ▸ mem)
  have store_other {other : CommandId} (ne : other ≠ commandId)
      (kept : records.ledger.domain other ≠ none ∨ records.ledger.nextCommandId ≤ other) :
      sto.commandStatus other = records.store.commandStatus other := by
    refine note.others other ne ?_
    intro mem
    obtain ⟨miss, gave⟩ := gone other mem
    rcases kept with known | fresh
    · exact known miss
    · exact absurd gave (Nat.not_lt.mpr fresh)
  refine ⟨⟨?_, ?_, ?_, ?_, ?_, ?_⟩, next, doms, stats⟩
  · intro other
    simp only [doms, stats]
    by_cases here : other = commandId
    · subst here
      cases status.isTerminal <;> simp [hasDomain]
    · simpa [here] using cons.statuses other
  · intro other known
    simp only [doms] at known
    split at known
    · exact absurd rfl known
    · exact next ▸ cons.issued other known
  · intro other mem
    simp only [doms, next]
    rcases retained other mem with old | ⟨rfl, fin⟩
    · obtain ⟨miss, gave⟩ := cons.retained other old
      simp [miss, gave]
    · simpa [fin] using cons.issued other hasDomain
  · intro other status' known
    simp only [stats] at known
    by_cases here : other = commandId
    · subst here
      rw [if_pos rfl] at known
      split at known
      · cases known
      · rename_i notFinal
        cases known
        exact ⟨by simpa using notFinal, by rw [if_neg notQueued]; exact note.here⟩
    · rw [if_neg here] at known
      have seen : records.ledger.domain other ≠ none := by
        rw [Ne, ← cons.statuses, known]
        exact nofun
      rw [store_other here (.inl seen)]
      exact cons.open_ other status' known
  · intro other miss val shown
    by_cases here : other = commandId
    · subst here
      simp only [doms, true_and] at miss
      split at miss
      · rename_i fin
        rw [note.here] at shown
        cases shown
        exact ⟨status, fin, rfl⟩
      · exact absurd miss hasDomain
    · simp only [doms, here, false_and, if_false] at miss
      by_cases mem : other ∈ out
      · rw [note.gone other mem] at shown
        cases shown
      · rw [note.others other here mem] at shown
        exact cons.closed other miss val shown
  · intro other fresh
    simp only [next] at fresh
    have ne : other ≠ commandId := by
      rintro rfl
      exact absurd (cons.issued other hasDomain) (Nat.not_lt.mpr fresh)
    rw [store_other ne (.inr fresh)]
    exact cons.unissued other fresh

/-- A recording that succeeds changes nothing, or moves a command that the ledger knows. -/
theorem Consistent.record_spec {records' : CommandRecords} {commandId : CommandId}
    {status : CommandStatus} {detail : Option Value} {scope : CommitScope}
    {commit : Option CommitResult}
    (noted : records.recordCommandStatus commandId status detail scope = .ok (records', commit)) :
    (records' = records ∧ commit = none) ∨
      Moved records records' commandId status ∧ commit.isSome = true ∧ ∃ current,
        records.ledger.status commandId = some current ∧ current.canMoveTo status = true := by
  rcases cons.record_moves noted with kept | ⟨current, known, moves⟩
  · exact .inl kept
  · obtain ⟨store, res, evicted, committed, put, gone, -⟩ :=
      cons.record_committed known moves detail scope
    rw [committed] at noted
    cases noted
    exact .inr ⟨cons.moved known moves put gone, rfl, current, known, moves⟩

end Recording

end CommandRecords

end Tqsdk
