import Tqsdk.Adapter.Registry
import Tqsdk.Runtime.CommitEngine
import Tqsdk.Runtime.OrderLifecycle

/-!
# Ingesting inputs

The ingest calls of `RuntimeHandle`.  Each holds the commit gate from the decoding of its
inputs to the publication of its commit, so a call is one step on the store.  A call that
fails, whether in a decoder, in the normalization or in the validation, has not touched the
store yet.
-/

namespace Tqsdk

def inputDomains : RuntimeInput → List ProtocolDomain
  | .io event => event.domains
  | .replay _ => [.replay]
  | .auth _ | .timer _ | .internal _ => [.system]

def batchInputDomains (inputs : List RuntimeInput) : List ProtocolDomain :=
  inputs.foldl
    (fun domains input => (inputDomains input).foldl
      (fun domains domain => if domain ∈ domains then domains else domains ++ [domain]) domains)
    []

def domainsArePureMarket (domains : List ProtocolDomain) : Bool :=
  domains == [.market]

namespace RuntimeHandle

/-- A market-only batch has no orders and skips the normalization. -/
def normalizeMutations (store : StateStore) (domains : List ProtocolDomain)
    (mutations : List NormalizedMutation) : Except ContractError (List NormalizedMutation) :=
  if domainsArePureMarket domains then .ok mutations
  else normalizeOrderLifecycleMutations store mutations

/-- `apply_and_publish_under_commit_gate`, up to the publication in the commit log. -/
def applyUnderCommitGate (store : StateStore) (mutations : List NormalizedMutation)
    (domains : List ProtocolDomain) (causedBy : List CommandId) (scope : CommitScope) :
    Except ContractError (StateStore × Option CommitResult) := do
  let mutations ← normalizeMutations store domains mutations
  validateMutationDomains mutations
  return CommitEngine.apply store mutations domains causedBy scope

/-- `RuntimeHandle::ingest`, for the decoder it is given. -/
def ingestWith (decode : RuntimeInput → Decoded) (store : StateStore) (input : RuntimeInput)
    (causedBy : List CommandId) (scope : CommitScope) :
    Except ContractError (StateStore × Option CommitResult) := do
  let mutations ← decode input
  applyUnderCommitGate store mutations (inputDomains input) causedBy scope

def ingest (adapters : AdapterRegistry) : StateStore → RuntimeInput → List CommandId →
    CommitScope → Except ContractError (StateStore × Option CommitResult) :=
  ingestWith adapters.decodeInputOwned

/-- The inputs of a batch are decoded in order; the first error ends the call. -/
def decodeBatch (adapters : AdapterRegistry) : List RuntimeInput → Decoded
  | [] => .ok []
  | input :: rest => do
      let mutations ← adapters.decodeInputOwned input
      let later ← decodeBatch adapters rest
      return mutations ++ later

def ingestBatch (adapters : AdapterRegistry) (store : StateStore) (inputs : List RuntimeInput)
    (causedBy : List CommandId) (scope : CommitScope) :
    Except ContractError (StateStore × Option CommitResult) := do
  let mutations ← decodeBatch adapters inputs
  applyUnderCommitGate store mutations (batchInputDomains inputs) causedBy scope

end RuntimeHandle

end Tqsdk
