import Tqsdk.State.Batch

/-!
# The commit engine

`CommitEngine::apply` applies a batch of mutations under the next revision and publishes
what changed.  The main result is that no update is silent: a batch without a commit leaves
the store exactly as it was, and every path at which the snapshot differs after a commit
lies on the path of a hit.

A field hit is recorded by the keyed mutation that wrote the field.  A key of a keyed
object that changed through another mutation, at another depth or without a key, is
reported as that mutation's path hit only.
-/

namespace Tqsdk

open List Value

/-- `CommitEngine::apply`, with the commit handed to `on_commit` as its result. -/
def CommitEngine.apply (store : StateStore) (mutations : List NormalizedMutation)
    (domains : List ProtocolDomain) (causedBy : List CommandId) (scope : CommitScope) :
    StateStore × Option CommitResult :=
  if mutations.isEmpty then (store, none)
  else
    let nextRevision := store.revision + 1
    let (store, applied) :=
      if domains = [.market] then store.applyMarketWith nextRevision mutations
      else store.applyWith nextRevision mutations
    (store, applied.map fun batch =>
      { revision := nextRevision
        domains := domains
        changes := .ofAppliedChanges batch.1 batch.2
        causedBy := causedBy
        scope := scope })

/-- The stores a runtime can hold: empty at first, then changed by accepted batches of
documents. -/
inductive StateStore.Reachable : StateStore → Prop
  | new (revision : Revision) : Reachable (.new revision)
  | commit {store : StateStore} {mutations : List NormalizedMutation}
      (domains : List ProtocolDomain) (causedBy : List CommandId) (scope : CommitScope) :
      store.Reachable → validateMutationDomains mutations = .ok () →
        (∀ mutation ∈ mutations, mutation.Wf) →
        Reachable (CommitEngine.apply store mutations domains causedBy scope).1

namespace CommitEngine

section

variable (store : StateStore) (mutations : List NormalizedMutation) (domains : List ProtocolDomain)
  (causedBy : List CommandId) (scope : CommitScope)

include store mutations domains causedBy scope

/-- Both apply functions are the one loop; the commit is built from what it reports. -/
theorem apply_eq :
    let out := StateStore.applyLoop 0 store.partitions mutations
    apply store mutations domains causedBy scope =
      if out.2.1 = [] then ({ store with partitions := out.1 }, none)
      else (⟨store.revision + 1, out.1⟩, some
        { revision := store.revision + 1
          domains := domains
          changes := .ofAppliedChanges out.2.1 out.2.2
          causedBy := causedBy
          scope := scope }) := by
  intro out
  unfold apply
  split
  · rename_i emp
    rw [List.isEmpty_iff] at emp
    subst emp
    rfl
  · simp only [StateStore.applyMarketWith_eq, StateStore.applyWith_eq, ite_self]
    unfold StateStore.applyGeneric StateStore.finish
    by_cases silent : out.2.1 = []
    · simp [out, silent]
    · simp [out, silent]

theorem apply_partitions :
    (apply store mutations domains causedBy scope).1.partitions =
      (StateStore.applyLoop 0 store.partitions mutations).1 := by
  rw [apply_eq]
  split <;> rfl

/-- The commit of a batch depends on its turns only, not on their positions. -/
theorem apply_eq_turns :
    let ps := (StateStore.applyLoop 0 store.partitions mutations).1
    let turns := StateStore.appliedTurns store.partitions mutations
    apply store mutations domains causedBy scope =
      if turns = [] then (⟨store.revision, ps⟩, none)
      else (⟨store.revision + 1, ps⟩, some
        { revision := store.revision + 1
          domains := domains
          changes := turns.foldl ChangeSet.recordTurn ChangeSet.empty
          causedBy := causedBy
          scope := scope }) := by
  intro ps turns
  have res := StateStore.resolve_applyLoop [] store.partitions mutations
  rw [nil_append, length_nil] at res
  rw [apply_eq]
  simp only [StateStore.applyLoop_silent_iff, ChangeSet.ofAppliedChanges_resolve, res]
  rfl

end

/-! ## What a turn that changed something publishes -/

section Published

variable {batch : AppliedBatch} {mutations : List NormalizedMutation} {reached : Partitions}
  {at_ : Nat} {mutation : NormalizedMutation}

section

variable (turn : StateStore.TurnOf 0 batch mutations reached at_ mutation)
  (changed : (applyTurn reached (0 + at_) mutation).1 ≠ reached)

include turn changed

/-- A turn that changed the partitions is reported under its position. -/
theorem report_of_changed :
    ∃ rep ∈ batch.1, rep.mutationIndex = at_ ∧
      rep.fieldIndexes = (turnApplied reached mutation).fieldIndexes := by
  cases repd : (applyTurn reached (0 + at_) mutation).2.2 with
  | none => exact absurd (applyTurn_silent _ repd) changed
  | some rep =>
    obtain ⟨atPosition, ixs⟩ := applyTurn_report _ repd
    exact ⟨rep, turn.reports rep repd, by omega, ixs⟩

theorem pathHit_of_changed :
    mutation.path ∈ (ChangeSet.ofAppliedChanges batch.1 batch.2).pathHits := by
  obtain ⟨rep, mem, atPosition, -⟩ := report_of_changed turn changed
  rw [ChangeSet.mem_pathHits_iff]
  refine ⟨rep, mem, _, ?_, (applyTurn_sameShape reached (0 + at_) mutation).1⟩
  rw [atPosition, turn.left]

theorem fieldHit_of_changed {obj : ObjectKey} (key : mutation.object = some obj)
    {name : String} (reps : (turnApplied reached mutation).Reports mutation.fields name) :
    ⟨mutation.path, obj, name⟩ ∈
      (ChangeSet.ofAppliedChanges batch.1 batch.2).fieldHits := by
  obtain ⟨rep, mem, atPosition, ixs⟩ := report_of_changed turn changed
  obtain ⟨samePath, sameObject, names⟩ := applyTurn_sameShape reached (0 + at_) mutation
  obtain ⟨idx, repd, fld, got, nm⟩ := reps
  -- the field kept its name when its value was moved out
  obtain ⟨move, storedMoved, movedName⟩ : ∃ move,
      (applyTurn reached (0 + at_) mutation).2.1.fields[idx]? = some move ∧ move.field = name := by
    have sameName := congrArg (·[idx]?) names
    simp only [getElem?_map, got, Option.map_some, Option.map_eq_some_iff, nm] at sameName
    exact sameName
  rw [ChangeSet.mem_fieldHits_iff]
  refine ⟨rep, mem, _, atPosition ▸ turn.left, obj, sameObject.trans key, idx,
    ixs ▸ repd, move, storedMoved, ?_⟩
  rw [samePath, movedName]

end

end Published

end CommitEngine

theorem StateStore.Reachable.fallbackSorted {store : StateStore}
    (rch : store.Reachable) : store.partitions.FallbackSorted := by
  induction rch with
  | new rev => exact OrdMap.sorted_nil
  | commit domains causedBy scope _ _ _ ih =>
    rw [CommitEngine.apply_partitions]
    exact StateStore.applyLoop_invariant (fun _ idx _ srt => applyTurn_sorted idx srt) 0 ih _

/-- The mutation lies above the path and deletes, replaces or writes the next key on the way to
it, among its fields or with its whole partition. -/
def NormalizedMutation.Overwrites (mutation : NormalizedMutation) (path : StatePath) : Prop :=
  mutation.path <+: path ∧ mutation.path ≠ path ∧
    (WritesFields mutation → ∃ written ∈ mutation.fields, mutation.path ++ [written.field] <+: path)

/-- What the snapshot would show after these mutations. -/
def StateStore.snapshotAfter (store : StateStore) (mutations : List NormalizedMutation) : Value :=
  (StateStore.applyLoop 0 store.partitions mutations).1.materialized

/-- A hit mutation of the batch, of the given kind, changes in its own turn what the snapshot shows
at the path. -/
def ChangedBy (store : StateStore) (mutations : List NormalizedMutation) (changes : ChangeSet)
    (path : StatePath) (kind : NormalizedMutation → Prop) : Prop :=
  ∃ position mutation, mutations[position]? = some mutation ∧
    mutation.path ∈ changes.pathHits ∧ kind mutation ∧
    (store.snapshotAfter (mutations.take (position + 1))).getAtPath path ≠
      (store.snapshotAfter (mutations.take position)).getAtPath path

namespace CommitEngine

/-- The mutation is the reason why `field` of the object at `path` differs although no
keyed write of that object reports the field: it overwrites the object from above, it writes
below the field, or it writes the object itself without a key, as a whole partition or as a
direct scalar. -/
def WritesAround (mutation : NormalizedMutation) (path : StatePath) (field : String) : Prop :=
  mutation.path ≠ path ∧ mutation.Overwrites (path ++ [field]) ∨
    path ++ [field] <+: mutation.path ∨
    mutation.path = path ∧ (mutation.object = none ∨ ¬ WritesFields mutation)

section Differences

variable {store : StateStore} {mutations : List NormalizedMutation}

/-- A batch without reports leaves every partition as it was. -/
theorem partitions_of_silent
    (silent : (StateStore.applyLoop 0 store.partitions mutations).2.1 = []) :
    (StateStore.applyLoop 0 store.partitions mutations).1 = store.partitions := by
  by_contra differs
  obtain ⟨position, mutation, turn, changed⟩ := StateStore.applyLoop_differs id differs
  obtain ⟨rep, mem, -⟩ := report_of_changed turn changed
  rw [silent] at mem
  cases mem

theorem turn_ne_of_differs {reached : Partitions} {at_ : Nat} {mutation : NormalizedMutation}
    {path : StatePath} (ne : (applyTurn reached at_ mutation).1.materialized.getAtPath path ≠
      reached.materialized.getAtPath path) :
    (applyTurn reached at_ mutation).1 ≠ reached := by
  intro same
  rw [same] at ne
  exact ne rfl

/-- A turn changes a path from above, where it overwrites it, or at the path or below. -/
theorem overwrites_of_differs {reached : Partitions} (srt : reached.FallbackSorted)
    {at_ : Nat} {mutation : NormalizedMutation} {path : StatePath}
    (ne : (applyTurn reached at_ mutation).1.materialized.getAtPath path ≠
      reached.materialized.getAtPath path) :
    mutation.Overwrites path ∨ path <+: mutation.path := by
  by_cases above : mutation.path <+: path
  · by_cases same : mutation.path = path
    · exact .inr (same ▸ prefix_refl _)
    refine .inl ⟨above, same, fun fieldwise => ?_⟩
    obtain ⟨rest, split⟩ := above
    cases rest with
    | nil => exact absurd ((append_nil _).symm.trans split) same
    | cons next rest =>
      subst split
      by_contra unwritten
      refine ne (applyTurn_reported at_ srt fieldwise (fun reports => unwritten ?_) rest)
      obtain ⟨_, -, written, stored, rfl⟩ := reports
      exact ⟨written, mem_of_getElem? stored, rest, append_cons .. |>.symm⟩
  · by_contra apart
    exact ne (applyTurn_apart at_ srt ⟨above, fun below => apart (.inr below)⟩)

/-- The turn of the batch that is responsible for a difference at a path. -/
theorem responsible_turn (srt : store.partitions.FallbackSorted) {path : StatePath}
    (ne : (StateStore.applyLoop 0 store.partitions mutations).1.materialized.getAtPath path
      ≠ store.partitions.materialized.getAtPath path) :
    ∃ position mutation,
      let reached := (StateStore.applyLoop 0 store.partitions (mutations.take position)).1
      reached.FallbackSorted ∧
        StateStore.TurnOf 0 (StateStore.applyLoop 0 store.partitions mutations).2 mutations
          reached position mutation ∧
        (applyTurn reached (0 + position) mutation).1.materialized.getAtPath path ≠
          reached.materialized.getAtPath path := by
  obtain ⟨position, mutation, turn, changed⟩ :=
    StateStore.applyLoop_differs (fun ps => ps.materialized.getAtPath path) ne
  exact ⟨position, mutation, StateStore.applyLoop_invariant
    (fun _ idx _ srt => applyTurn_sorted idx srt) 0 srt _, turn, changed⟩

/-- The responsible mutation is hit, and it changes the path in its turn. -/
theorem changedBy_of_turn {path : StatePath} {position : Nat} {mutation : NormalizedMutation}
    {kind : NormalizedMutation → Prop}
    (turn : StateStore.TurnOf 0 (StateStore.applyLoop 0 store.partitions mutations).2 mutations
      (StateStore.applyLoop 0 store.partitions (mutations.take position)).1 position mutation)
    (changed : (applyTurn (StateStore.applyLoop 0 store.partitions (mutations.take position)).1
        (0 + position) mutation).1.materialized.getAtPath path ≠
      (store.snapshotAfter (mutations.take position)).getAtPath path)
    (isKind : kind mutation) :
    ChangedBy store mutations (ChangeSet.ofAppliedChanges
      (StateStore.applyLoop 0 store.partitions mutations).2.1
      (StateStore.applyLoop 0 store.partitions mutations).2.2) path kind := by
  refine ⟨position, mutation, turn.stored, pathHit_of_changed turn (turn_ne_of_differs changed),
    isKind, ?_⟩
  rw [StateStore.snapshotAfter, StateStore.applyLoop_take_succ turn.stored]
  exact changed

/-- Whatever differs after a batch was overwritten from above, or written at the path or below. -/
theorem changedBy_of_differs (srt : store.partitions.FallbackSorted) {path : StatePath}
    (differs : (StateStore.applyLoop 0 store.partitions mutations).1.materialized.getAtPath path
      ≠ store.partitions.materialized.getAtPath path) :
    ChangedBy store mutations (ChangeSet.ofAppliedChanges
      (StateStore.applyLoop 0 store.partitions mutations).2.1
      (StateStore.applyLoop 0 store.partitions mutations).2.2) path
      fun mutation => mutation.Overwrites path ∨ path <+: mutation.path := by
  obtain ⟨position, mutation, reachedSorted, turn, changed⟩ := responsible_turn srt differs
  exact changedBy_of_turn turn changed (overwrites_of_differs reachedSorted changed)

/-- The key `field` of the object at `path` differs: some field write of that object
reports it, or a mutation around it has changed it. -/
theorem field_reported (srt : store.partitions.FallbackSorted) {path : StatePath} {fld : String}
    (differs : (StateStore.applyLoop 0 store.partitions mutations).1.materialized.getAtPath
      (path ++ [fld]) ≠ store.partitions.materialized.getAtPath (path ++ [fld])) :
    let chs := ChangeSet.ofAppliedChanges
      (StateStore.applyLoop 0 store.partitions mutations).2.1
      (StateStore.applyLoop 0 store.partitions mutations).2.2
    (∃ hit ∈ chs.fieldHits, hit.path = path ∧ hit.field = fld ∧
        ∃ mutation ∈ mutations, mutation.path = path ∧ mutation.object = some hit.object) ∨
      ChangedBy store mutations chs (path ++ [fld]) fun other => WritesAround other path fld := by
  intro chs
  obtain ⟨position, mutation, reachedSorted, turn, changed⟩ := responsible_turn srt differs
  have mem := mem_of_getElem? turn.stored
  rcases overwrites_of_differs reachedSorted changed with ovr | below
  · by_cases same : mutation.path = path
    · by_cases special : mutation.object = none ∨ ¬ WritesFields mutation
      · exact .inr (changedBy_of_turn turn changed (.inr (.inr ⟨same, special⟩)))
      · rw [not_or, not_not] at special
        obtain ⟨obj, key⟩ := Option.ne_none_iff_exists'.mp special.1
        -- a keyed field write at the object's own path reports what it changes
        have reps : (turnApplied (StateStore.applyLoop 0 store.partitions
            (mutations.take position)).1 mutation).Reports mutation.fields fld := by
          by_contra unreported
          apply changed
          rw [← same]
          exact applyTurn_reported _ reachedSorted special.2 unreported []
        exact .inl ⟨_, fieldHit_of_changed turn (turn_ne_of_differs changed) key reps, same, rfl,
          mutation, mem, same, key⟩
    · exact .inr (changedBy_of_turn turn changed (.inl ⟨same, ovr⟩))
  · exact .inr (changedBy_of_turn turn changed (.inr (.inl below)))

end Differences

/-- No update of the store is silent. -/
theorem apply_reports_changes {store : StateStore} (reachable : store.Reachable)
    (mutations : List NormalizedMutation) (domains : List ProtocolDomain)
    (causedBy : List CommandId) (scope : CommitScope) :
    let after := (apply store mutations domains causedBy scope).1
    let snapshot := store.partitions.materialized
    let snapshot' := after.partitions.materialized
    match (apply store mutations domains causedBy scope).2 with
    | none => after = store
    | some com =>
      (∀ path, snapshot'.getAtPath path ≠ snapshot.getAtPath path →
        ∃ hit ∈ com.changes.pathHits, hit <+: path ∨ path <+: hit) ∧
      ∀ mutation ∈ mutations, mutation.object ≠ none → ∀ fld,
        snapshot'.getAtPath (mutation.path ++ [fld]) ≠
            snapshot.getAtPath (mutation.path ++ [fld]) →
          (∃ hit ∈ com.changes.fieldHits,
            hit.path = mutation.path ∧ hit.field = fld) ∨
          ChangedBy store mutations com.changes (mutation.path ++ [fld]) fun other =>
            WritesAround other mutation.path fld := by
  have srt := reachable.fallbackSorted
  simp only [apply_eq]
  by_cases silent : (StateStore.applyLoop 0 store.partitions mutations).2.1 = []
  · simp only [silent, if_true, partitions_of_silent silent]
  · simp only [silent, if_false]
    constructor
    · intro path ne
      obtain ⟨position, mutation, -, hit, kind, -⟩ := changedBy_of_differs srt ne
      exact ⟨mutation.path, hit, kind.imp_left And.left⟩
    · intro mutation _ _ fld ne
      refine (field_reported srt ne).imp_left ?_
      rintro ⟨hit, note, samePath, sameField, -⟩
      exact ⟨hit, note, samePath, sameField⟩

/-! A quote with a nested object, whose members the decoder cuts into a mutation of their
own, and a quote that one item updates in place and the next one removes. -/

def quoteStore : StateStore :=
  (apply (.new 0)
    [⟨["quotes", "X"], some (.quote "X"), [⟨"last_price", .ofI64 1⟩], .marketDiff⟩]
    [.market] [] .realtimeUpdate).1

def nestedQuoteBatch : List NormalizedMutation :=
  [⟨["quotes", "X"], some (.quote "X"), [⟨"last_price", .ofI64 2⟩], .marketDiff⟩,
    ⟨["quotes", "X", "limits"], none, [⟨"upper", .ofI64 9⟩], .marketDiff⟩]

def removedQuoteBatch : List NormalizedMutation :=
  [⟨["quotes", "X"], some (.quote "X"), [⟨"last_price", .ofI64 1⟩], .marketDiff⟩,
    ⟨["quotes"], none, [⟨"X", .null⟩], .marketDiff⟩]

theorem quoteStore_reachable : quoteStore.Reachable :=
  .commit _ _ _ (.new 0) (by decide) (by simp [NormalizedMutation.Wf, ofI64, Wf])

theorem apply_reports_changes_nestedQuote :
    (apply quoteStore nestedQuoteBatch [.market] [] .realtimeUpdate).2.isSome = true ∧
      ∀ commit, (apply quoteStore nestedQuoteBatch [.market] [] .realtimeUpdate).2 =
          some commit →
        ∃ hit ∈ commit.changes.pathHits,
          hit <+: ["quotes", "X", "limits"] ∨ ["quotes", "X", "limits"] <+: hit := by
  refine ⟨by decide, fun commit comd => ?_⟩
  have repd :=
    apply_reports_changes quoteStore_reachable nestedQuoteBatch [.market] [] .realtimeUpdate
  rw [comd] at repd
  exact repd.1 _ (by decide)

/-- Neither the nested object nor the removed field has a field hit, although the batch
writes the quote under its key. -/
theorem apply_field_hits_incomplete :
    quoteStore.Reachable ∧
      validateMutationDomains nestedQuoteBatch = .ok () ∧
      validateMutationDomains removedQuoteBatch = .ok () ∧
      (let out := apply quoteStore nestedQuoteBatch [.market] [] .realtimeUpdate
       out.1.partitions.materialized.getAtPath ["quotes", "X", "limits"] ≠
           quoteStore.partitions.materialized.getAtPath ["quotes", "X", "limits"] ∧
         out.2.map (·.changes.fieldHits) =
           some [⟨["quotes", "X"], .quote "X", "last_price"⟩]) ∧
      let out := apply quoteStore removedQuoteBatch [.market] [] .realtimeUpdate
      out.1.partitions.materialized.getAtPath ["quotes", "X", "last_price"] ≠
          quoteStore.partitions.materialized.getAtPath ["quotes", "X", "last_price"] ∧
        out.2.map (·.changes.fieldHits) = some [] := by
  refine ⟨quoteStore_reachable, by decide, by decide, ?_, ?_⟩ <;> decide

end CommitEngine

end Tqsdk
