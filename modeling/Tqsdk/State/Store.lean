import Mathlib.Logic.Function.Basic
import Tqsdk.State.Changes

/-!
# The partitioned state store

`StateStore` keeps the state tree in twelve partitions.  A batch of mutations is applied
in order, each to the partition its path starts with, and the mutations that changed
something are reported.  The locks of the source are held for the whole batch, so a batch
is one step here; a partition is mutated in place, also when the batch ends up without a
report, so the store is returned in both cases.
-/

namespace Tqsdk

open OrdMap

/-! ## Partitions -/

inductive StateRoot
  | quotes | tradingStatus | charts | klines | ticks | trade | query | schema | replay
  | system | runtime | other
  deriving DecidableEq

namespace StateRoot

def fromSegment : String → Option StateRoot
  | "quotes" => some .quotes
  | "trading_status" => some .tradingStatus
  | "charts" => some .charts
  | "klines" => some .klines
  | "ticks" => some .ticks
  | "trade" => some .trade
  | "query" => some .query
  | "schema" => some .schema
  | "replay" => some .replay
  | "system" => some .system
  | "runtime" => some .runtime
  | _ => none

def asStr : StateRoot → String
  | .quotes => "quotes"
  | .tradingStatus => "trading_status"
  | .charts => "charts"
  | .klines => "klines"
  | .ticks => "ticks"
  | .trade => "trade"
  | .query => "query"
  | .schema => "schema"
  | .replay => "replay"
  | .system => "system"
  | .runtime => "runtime"
  | .other => "other"

/-- The partitions a snapshot shows under their own name, in the order it inserts them. -/
def visible : List StateRoot :=
  [.quotes, .tradingStatus, .charts, .klines, .ticks, .trade, .query, .schema, .replay,
    .system, .runtime]

/-- The roots `apply_market_with` locks directly. -/
def isMarket : StateRoot → Bool
  | .quotes | .tradingStatus | .charts | .klines | .ticks | .other => true
  | _ => false

end StateRoot

/-- `partition_path_segments`: a path outside the known roots stays whole, in the fallback
partition. -/
def partitionPathSegments : StatePath → StateRoot × List PathSegment
  | [] => (.other, [])
  | segment :: rest =>
    match StateRoot.fromSegment segment with
    | some root => (root, rest)
    | none => (.other, segment :: rest)

def partitionPath (mutation : NormalizedMutation) : StateRoot × List PathSegment :=
  partitionPathSegments mutation.path

def isEmptyPartition (value : Value) : Bool :=
  value.asObject.any List.isEmpty

/-! ## Applying one mutation inside a partition -/

/-- What applying a mutation leaves: the node, the mutation's fields (a written value is
moved out of its field), the indexes of the fields that changed, and whether anything did. -/
structure Applied where
  node : Value
  fields : List FieldMutation
  fieldIndexes : List Nat
  changed : Bool
  deriving DecidableEq

def preservesNullField (object : Option ObjectKey) (field : String) : Bool :=
  object == some .sessionReconnect && field == "max_attempts"

/-- One turn of the loop of `apply_fields`; `none` is its `continue`. -/
def applyField (object : Option ObjectKey) (map : Fields) (field : FieldMutation) :
    Option (Fields × FieldMutation) :=
  if field.value.isNull && !preservesNullField object field.field then
    match get? field.field map with
    | none => none
    | some _ => some (OrdMap.erase field.field map, field)
  else
    match get? field.field map with
    | some existing =>
      if existing = field.value then none
      else some (OrdMap.insert field.field field.value map, { field with value := .null })
    | none => some (OrdMap.insert field.field field.value map, { field with value := .null })

/-- The loop of `apply_fields`, from the field at `index` on. -/
def applyFieldsFrom (object : Option ObjectKey) :
    Nat → Fields → List FieldMutation → Fields × List FieldMutation × List Nat
  | _, map, [] => (map, [], [])
  | index, map, field :: rest =>
    match applyField object map field with
    | none =>
      let (map, rest, indexes) := applyFieldsFrom object (index + 1) map rest
      (map, field :: rest, indexes)
    | some (map, field) =>
      let (map, rest, indexes) := applyFieldsFrom object (index + 1) map rest
      (map, field :: rest, index :: indexes)

def applyFields (object : Option ObjectKey) (cursor : Value) (fields : List FieldMutation) :
    Applied :=
  -- a cursor that is no object is replaced by the empty one first
  let (map, fields, indexes) := applyFieldsFrom object 0 cursor.entries fields
  { node := .object map
    fields := fields
    fieldIndexes := indexes
    changed := !cursor.isObject || !indexes.isEmpty }

/-- The members around a child that is an object, after `ensure_child_object`. -/
structure EnsuredChild where
  members : Fields
  child : Value
  changed : Bool

def ensureChildObject (root : Value) (segment : PathSegment) : EnsuredChild :=
  match get? segment root.entries with
  | none => ⟨OrdMap.insert segment (.object []) root.entries, .object [], true⟩
  | some child =>
    if child.isObject then ⟨root.entries, child, !root.isObject⟩
    else ⟨OrdMap.insert segment (.object []) root.entries, .object [], true⟩

def applyMutationAtPath (object : Option ObjectKey) (fields : List FieldMutation)
    (pruneEmptyParents : Bool) : Value → List PathSegment → Applied
  | cursor, [] => applyFields object cursor fields
  | cursor, segment :: rest =>
    let ensured := ensureChildObject cursor segment
    let inner := applyMutationAtPath object fields pruneEmptyParents ensured.child rest
    let members := OrdMap.insert segment inner.node ensured.members
    if pruneEmptyParents && isEmptyPartition inner.node then
      { inner with node := .object (OrdMap.erase segment members), changed := true }
    else
      { inner with node := .object members, changed := ensured.changed || inner.changed }

/-- A single `value: null` at a known root asks for the whole partition's removal. -/
def isPartitionRootDelete (root : StateRoot) (path : List PathSegment)
    (fields : List FieldMutation) : Bool :=
  root != .other && path.isEmpty &&
    match fields with
    | [field] => field.field == "value" && field.value.isNull
    | _ => false

def applyPartitionRootDelete (root : Value) (fields : List FieldMutation) : Applied :=
  if isEmptyPartition root then ⟨root, fields, [], false⟩
  else ⟨.object [], fields, [0], true⟩

def isDirectScalarPath (root : StateRoot) (path : List PathSegment) : Bool :=
  match root, path with
  | .other, [field] => field == "ins_list" || field == "mdhis_more_data"
  | .trade, [_, field] => field == "trade_more_data"
  | _, _ => false

/-- The removing half of `apply_direct_scalar`; `none` when there is nothing to remove. -/
def removeScalar : Value → List PathSegment → PathSegment → Option Value
  | cursor, [], segment =>
    match cursor.asObject with
    | none => none
    | some map =>
      if (get? segment map).isSome then some (.object (OrdMap.erase segment map))
      else none
  | cursor, parent :: parents, segment =>
    match cursor.asObject with
    | none => none
    | some map =>
      match get? parent map with
      | none => none
      | some child =>
        (removeScalar child parents segment).map fun child =>
          .object (OrdMap.insert parent child map)

/-- The writing half of `apply_direct_scalar`, with whether the value was written. -/
def writeScalar (value : Value) : Value → List PathSegment → PathSegment → Value × Bool
  | cursor, [], segment =>
    if get? segment cursor.entries = some value then (.object cursor.entries, false)
    else (.object (OrdMap.insert segment value cursor.entries), true)
  | cursor, parent :: parents, segment =>
    let ensured := ensureChildObject cursor parent
    let inner := writeScalar value ensured.child parents segment
    (.object (OrdMap.insert parent inner.1 ensured.members), inner.2)

def applyDirectScalar (root : Value) (path : List PathSegment)
    (fields : List FieldMutation) : Applied :=
  match path.getLast?, fields with
  | some segment, [field] =>
    if field.field != "value" then ⟨root, fields, [], false⟩
    else if field.value.isNull then
      match removeScalar root path.dropLast segment with
      | none => ⟨root, fields, [], false⟩
      | some root => ⟨root, fields, [0], true⟩
    else
      match writeScalar field.value root path.dropLast segment with
      | (root, false) => ⟨root, fields, [], false⟩
      | (root, true) => ⟨root, [{ field with value := .null }], [0], true⟩
  | _, _ => ⟨root, fields, [], false⟩

/-- The three ways a mutation is applied to its partition. -/
def applyAtPartition (root : StateRoot) (partition : Value) (path : List PathSegment)
    (object : Option ObjectKey) (fields : List FieldMutation) : Applied :=
  if isPartitionRootDelete root path fields then applyPartitionRootDelete partition fields
  else if isDirectScalarPath root path then applyDirectScalar partition path fields
  else applyMutationAtPath object fields (root == .runtime) partition path

/-- `apply_mutation_at_partition`: the partition, the mutation with its written values moved
out, and the report when something changed. -/
def applyMutationAtPartition (root : StateRoot) (partition : Value) (mutationIndex : Nat)
    (mutation : NormalizedMutation) : Value × NormalizedMutation × Option AppliedChange :=
  let applied :=
    applyAtPartition root partition (partitionPath mutation).2 mutation.object mutation.fields
  (applied.node, { mutation with fields := applied.fields },
    if applied.fieldIndexes.isEmpty && !applied.changed then none
    else some ⟨root.asStr, mutationIndex, applied.fieldIndexes⟩)

/-! ## The store -/

/-- The content of every partition, the roots a snapshot shares with the store. -/
abbrev Partitions := StateRoot → Value

structure StateStore where
  revision : Revision
  partitions : Partitions

/-- The reports of a batch and the mutations as the batch left them. -/
abbrev AppliedBatch := List AppliedChange × List NormalizedMutation

/-- One turn of the loops below: the mutation goes to the partition its path starts with. -/
def applyTurn (partitions : Partitions) (index : Nat) (mutation : NormalizedMutation) :
    Partitions × NormalizedMutation × Option AppliedChange :=
  let root := (partitionPath mutation).1
  let (partition, mutation, report) :=
    applyMutationAtPartition root (partitions root) index mutation
  (Function.update partitions root partition, mutation, report)

namespace StateStore

def new (revision : Revision) : StateStore := ⟨revision, fun _ => .object []⟩

/-- The loop of `apply_with` over the partitions it has locked. -/
def applyLoop : Nat → Partitions → List NormalizedMutation → Partitions × AppliedBatch
  | _, partitions, [] => (partitions, [], [])
  | index, partitions, mutation :: rest =>
    let (partitions, mutation, report) := applyTurn partitions index mutation
    let (partitions, reports, rest) := applyLoop (index + 1) partitions rest
    (partitions, report.toList ++ reports, mutation :: rest)

/-- The loop of `apply_single_root`, over the one partition it has locked. -/
def applySingleRootLoop (root : StateRoot) : Nat → Value → List NormalizedMutation →
    Value × AppliedBatch
  | _, partition, [] => (partition, [], [])
  | index, partition, mutation :: rest =>
    let (partition, mutation, report) :=
      applyMutationAtPartition root partition index mutation
    let (partition, reports, rest) := applySingleRootLoop root (index + 1) partition rest
    (partition, report.toList ++ reports, mutation :: rest)

variable (store : StateStore)

/-- The end of every apply: the revision moves when something was applied. -/
def finish (revision : Revision) (partitions : Partitions) (batch : AppliedBatch) :
    StateStore × Option AppliedBatch :=
  if batch.1.isEmpty then ({ store with partitions := partitions }, none)
  else (⟨revision, partitions⟩, some batch)

def applySingleRoot (revision : Revision) (root : StateRoot) (mutations : List NormalizedMutation) :
    StateStore × Option AppliedBatch :=
  let (partition, batch) := applySingleRootLoop root 0 (store.partitions root) mutations
  store.finish revision (Function.update store.partitions root partition) batch

/-- Every mutation of the batch goes to the partition of the first one. -/
def singleRoot (mutations : List NormalizedMutation) (root : StateRoot) : Bool :=
  mutations.all fun mutation => (partitionPath mutation).1 == root

def applyWith (revision : Revision) (mutations : List NormalizedMutation) :
    StateStore × Option AppliedBatch :=
  match mutations with
  | [] => (store, none)
  | first :: _ =>
    if singleRoot mutations (partitionPath first).1 then
      store.applySingleRoot revision (partitionPath first).1 mutations
    else
      let (partitions, batch) := applyLoop 0 store.partitions mutations
      store.finish revision partitions batch

/-- `apply_market_with`: a batch that leaves the market roots falls back to `apply_with`. -/
def applyMarketWith (revision : Revision) (mutations : List NormalizedMutation) :
    StateStore × Option AppliedBatch :=
  match mutations with
  | [] => (store, none)
  | first :: _ =>
    if singleRoot mutations (partitionPath first).1 then
      store.applySingleRoot revision (partitionPath first).1 mutations
    else if mutations.all fun mutation => (partitionPath mutation).1.isMarket then
      let (partitions, batch) := applyLoop 0 store.partitions mutations
      store.finish revision partitions batch
    else store.applyWith revision mutations

end StateStore

/-! ## Snapshots -/

def insertSnapshotRoot (data : Fields) (key : String) (value : Value) : Fields :=
  if isEmptyPartition value then data else OrdMap.insert key value data

def mergeFallbackRoots (data : Fields) (fallback : Value) : Fields :=
  fallback.entries.foldl (fun data entry => insertSnapshotRoot data entry.1 entry.2) data

/-- `snapshot_partition_get`: an empty partition reads as absent. -/
def snapshotPartitionGet (partition : Value) (path : List PathSegment) : Option Value :=
  match path with
  | [] => if isEmptyPartition partition then none else some partition
  | path => partition.getAtPath path

namespace Partitions

/-- `SnapshotRoots::materialized`: the tree a snapshot shows as one document. -/
def materialized (partitions : Partitions) : Value :=
  .object (mergeFallbackRoots
    (StateRoot.visible.foldl
      (fun data root => insertSnapshotRoot data root.asStr (partitions root)) [])
    (partitions .other))

/-- `SnapshotRoots::get`: a read resolves its first segment to a partition directly. -/
def get (partitions : Partitions) (path : StatePath) : Option Value :=
  match path with
  | [] => some partitions.materialized
  | segment :: rest =>
    match StateRoot.fromSegment segment with
    | some root => snapshotPartitionGet (partitions root) rest
    | none =>
      ((partitions .other).get segment).bind fun fallback =>
        snapshotPartitionGet fallback rest

end Partitions

end Tqsdk
