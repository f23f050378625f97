import Tqsdk.Runtime.CommitLog
import Tqsdk.Runtime.Handle

/-!
# Cursors on a runtime

Any number of readers follow one runtime, each with a cursor of its own, while commits are
published under the commit gate.  A cursor that reads through `next_checked` or `next_view`
obtains the commits in revision order, none skipped and none twice; it waits when it is ahead
of the head, and it is told when its revision was trimmed.
-/

namespace Tqsdk

open List

/-- `apply_and_publish_under_commit_gate`.  The addresses and sizes of the snapshot's roots are
the allocator's. -/
def RuntimeHandle.applyAndPublishUnderCommitGate (estimateCommitBytes : CommitResult → Nat)
    (store : StateStore) (log : CommitLog) (mutations : List NormalizedMutation)
    (domains : List ProtocolDomain) (causedBy : List CommandId) (scope : CommitScope)
    (accounts : List (Nat × Nat)) :
    Except ContractError ((StateStore × CommitLog) × Option Publication) := do
  let (store, commit) ← applyUnderCommitGate store mutations domains causedBy scope
  match commit with
  | none => return ((store, log), none)
  | some commit =>
    let snapshot : StateSnapshot := ⟨store.revision, store.partitions, accounts⟩
    return ((store, log.publish estimateCommitBytes commit snapshot),
      some (commit, snapshot))

/-- A cursor with where it started and what it has obtained. -/
structure CursorReader where
  cursor : UpdateCursor
  start : Revision
  obtained : List CommitResult

namespace CursorReader

/-- The reader after a read. -/
def take {α : Type} (commitOf : α → CommitResult) (reader : CursorReader)
    (out : Except CommitLogLagged (Option α) × UpdateCursor) : CursorReader :=
  { reader with
    cursor := out.2
    obtained := reader.obtained ++
      match out.1 with
      | .ok found => (found.map commitOf).toList
      | .error _ => [] }

def nextChecked (log : CommitLog) (reader : CursorReader) : CursorReader :=
  reader.take id (log.nextChecked reader.cursor)

def nextView (log : CommitLog) (reader : CursorReader) : CursorReader :=
  reader.take Prod.fst (log.nextView reader.cursor)

end CursorReader

/-- A runtime with its readers, and with everything it ever published. -/
structure CursorSystem where
  store : StateStore
  log : CommitLog
  published : List Publication
  readers : List CursorReader

namespace CursorSystem

def initial (retention : CommitLogRetention) : CursorSystem :=
  ⟨.new 0, .withLimits retention, [], []⟩

inductive Step (estimateCommitBytes : CommitResult → Nat) : CursorSystem → CursorSystem → Prop
  | apply {system : CursorSystem} {mutations : List NormalizedMutation}
      {domains : List ProtocolDomain} {causedBy : List CommandId} {scope : CommitScope}
      {accounts : List (Nat × Nat)} {store : StateStore} {log : CommitLog}
      {publication : Option Publication} :
      RuntimeHandle.applyAndPublishUnderCommitGate estimateCommitBytes system.store system.log
          mutations domains causedBy scope accounts = .ok ((store, log), publication) →
        Step estimateCommitBytes system
          { system with
            store := store
            log := log
            published := system.published ++ publication.toList }
  | cursorFrom {system : CursorSystem} (nextRevision : Revision) :
      Step estimateCommitBytes system
        { system with
          log := (system.log.newCursor nextRevision).1
          readers := system.readers ++
            [⟨(system.log.newCursor nextRevision).2, nextRevision, []⟩] }
  | nextChecked {system : CursorSystem} {index : Nat} {reader : CursorReader} :
      system.readers[index]? = some reader →
        Step estimateCommitBytes system
          { system with readers := system.readers.set index (reader.nextChecked system.log) }
  | nextView {system : CursorSystem} {index : Nat} {reader : CursorReader} :
      system.readers[index]? = some reader →
        Step estimateCommitBytes system
          { system with readers := system.readers.set index (reader.nextView system.log) }

/-- The systems some interleaving leads to. -/
def Reachable (estimateCommitBytes : CommitResult → Nat) (retention : CommitLogRetention) :
    CursorSystem → Prop :=
  Relation.ReflTransGen (Step estimateCommitBytes) (initial retention)

/-- The revision was published and is no longer retained. -/
def Trimmed (system : CursorSystem) (revision : Revision) : Prop :=
  (∃ publication ∈ system.published, publication.1.revision = revision) ∧
    ∀ entry ∈ system.log.entries, entry.commit.revision ≠ revision

/-! ## The invariant -/

end CursorSystem

/-- A commit carries the revision it brings the store to. -/
theorem RuntimeHandle.applyUnderCommitGate_revision {sto post : StateStore}
    {muts : List NormalizedMutation} {doms : List ProtocolDomain} {cause : List CommandId}
    {sc : CommitScope} {com : Option CommitResult}
    (app : applyUnderCommitGate sto muts doms cause sc = .ok (post, com)) :
    post.revision = sto.revision + com.toList.length ∧
      ∀ res ∈ com, res.revision = sto.revision + 1 := by
  unfold applyUnderCommitGate at app
  cases nrm : normalizeMutations sto doms muts with
  | error error =>
    rw [nrm] at app
    cases app
  | ok norm =>
    rw [nrm] at app
    change (validateMutationDomains norm >>= fun _ => _) = _ at app
    cases acc : validateMutationDomains norm with
    | error error =>
      rw [acc] at app
      cases app
    | ok _ =>
      rw [acc] at app
      have out : CommitEngine.apply sto norm doms cause sc = (post, com) := Except.ok.inj app
      rw [CommitEngine.apply_eq] at out
      split at out
      · cases out
        exact ⟨rfl, nofun⟩
      · cases out
        refine ⟨rfl, ?_⟩
        rintro _ ⟨⟩
        rfl

/-- What a reader has obtained: the commits from its start to its cursor. -/
structure CursorReader.UpTo (reader : CursorReader) (published : List Publication) : Prop where
  position : reader.start + reader.obtained.length = reader.cursor.nextRevision
  commits : reader.obtained =
    ((published.drop (reader.start - 1)).take reader.obtained.length).map Prod.fst
  counted : reader.obtained ≠ [] → 1 ≤ reader.start

namespace CursorReader.UpTo

variable {reader : CursorReader} {published : List Publication}

/-- Later publications do not change what was obtained. -/
theorem append (upTo : reader.UpTo published) (more : List Publication) :
    reader.UpTo (published ++ more) := by
  refine ⟨upTo.position, ?_, upTo.counted⟩
  have commits := upTo.commits
  have len := congrArg List.length commits
  rw [length_map, length_take, length_drop] at len
  have bnd := len.trans_le (Nat.min_le_right _ _)
  by_cases low : reader.start - 1 ≤ published.length
  · rw [drop_append_of_le_length low, take_append_of_le_length]
    · exact commits
    · rw [length_drop]
      exact bnd
  · have none_ : reader.obtained.length = 0 := by
      rw [Nat.sub_eq_zero_of_le (Nat.le_of_not_le low)] at bnd
      exact Nat.le_zero.mp bnd
    rw [none_, take_zero, map_nil]
    exact eq_nil_of_length_eq_zero none_

/-- The commit at the cursor extends what was obtained by one. -/
theorem concat (upTo : reader.UpTo published) {pub : Publication} {cur : UpdateCursor}
    (pos : 1 ≤ reader.cursor.nextRevision)
    (hit : published[reader.cursor.nextRevision - 1]? = some pub)
    (move : reader.cursor.nextRevision + 1 = cur.nextRevision) :
    ({ reader with cursor := cur, obtained := reader.obtained ++ [pub.1] } :
      CursorReader).UpTo published := by
  have posn := upTo.position
  have began : 1 ≤ reader.start := by
    by_cases new : reader.obtained = []
    · rw [new] at posn
      unfold Revision at *
      rw [length_nil] at posn
      omega
    · exact upTo.counted new
  refine ⟨?_, ?_, fun _ => began⟩
  · dsimp only
    rw [length_append, length_singleton]
    unfold Revision at *
    omega
  · dsimp only
    rw [length_append, length_singleton]
    have at_ : (published.drop (reader.start - 1))[reader.obtained.length]? =
        some pub := by
      rw [getElem?_drop, ← hit]
      congr 1
      unfold Revision at *
      omega
    rw [take_add_one, at_, map_append, ← upTo.commits]
    rfl

/-- Either way of reading keeps a reader complete. -/
theorem read {α : Type} {log : CommitLog} {trimmed : Nat} {ofPub : Publication → α}
    {commitOf : α → CommitResult} (upTo : reader.UpTo published)
    {res : Except CommitLogLagged (Option α)}
    (readAt : log.ReadAt published trimmed ofPub reader.cursor.nextRevision res)
    (com : ∀ pub, commitOf (ofPub pub) = pub.1) :
    (reader.take commitOf (CommitLog.advance commitOf reader.cursor res)).UpTo published := by
  have kept : ({ reader with obtained := reader.obtained ++ [] } : CursorReader).UpTo
      published := by
    rw [append_nil]
    exact upTo
  cases readAt with
  | ahead => exact kept
  | lagging => exact kept
  | retained pub kept hit same =>
    have took : reader.take commitOf (CommitLog.advance commitOf reader.cursor
        (.ok (some (ofPub pub)))) =
      { reader with
        cursor := { reader.cursor with nextRevision := pub.1.revision + 1 }
        obtained := reader.obtained ++ [pub.1] } := by
      simp [CursorReader.take, CommitLog.advance, com]
    rw [took]
    refine upTo.concat ?_ hit ?_
    · exact Nat.lt_of_le_of_lt (Nat.zero_le _) kept
    · rw [← same]

end CursorReader.UpTo

namespace CursorSystem

/-- What holds of a system between two steps. -/
structure Consistent (system : CursorSystem) : Prop where
  records : ∃ trimmed, system.log.Records system.published trimmed
  revision : system.published.length = system.store.revision
  snapshots : ∀ publication ∈ system.published,
    publication.2.revision = publication.1.revision
  readers : ∀ reader ∈ system.readers, reader.UpTo system.published

theorem consistent_initial (ret : CommitLogRetention) : (initial ret).Consistent :=
  ⟨⟨0, CommitLog.withLimits_records ret⟩, rfl, nofun, nofun⟩

/-- A published commit extends the records, also when it is trimmed at once. -/
theorem Consistent.apply {estimateCommitBytes : CommitResult → Nat} {system : CursorSystem}
    (cons : system.Consistent) {muts : List NormalizedMutation} {doms : List ProtocolDomain}
    {cause : List CommandId} {sc : CommitScope} {accs : List (Nat × Nat)} {sto : StateStore}
    {log : CommitLog} {pub : Option Publication}
    (app : RuntimeHandle.applyAndPublishUnderCommitGate estimateCommitBytes system.store
      system.log muts doms cause sc accs = .ok ((sto, log), pub)) :
    ({ system with
        store := sto
        log := log
        published := system.published ++ pub.toList } : CursorSystem).Consistent := by
  obtain ⟨trimmed, records⟩ := cons.records
  have len := cons.revision
  unfold RuntimeHandle.applyAndPublishUnderCommitGate at app
  cases gate : RuntimeHandle.applyUnderCommitGate system.store muts doms cause sc with
  | error error =>
    rw [gate] at app
    cases app
  | ok out =>
    obtain ⟨post, com⟩ := out
    obtain ⟨move, rev⟩ := RuntimeHandle.applyUnderCommitGate_revision gate
    rw [gate] at app
    cases com with
    | none =>
      cases app
      rw [Option.toList_none, append_nil]
      exact ⟨⟨trimmed, records⟩, len.trans move.symm, cons.snapshots, cons.readers⟩
    | some com =>
      cases app
      have next := rev com rfl
      have head : sto.revision = system.store.revision + 1 := move
      obtain ⟨trimmed', -, records'⟩ := CommitLog.publish_records estimateCommitBytes records
        (by rw [next, len]) ⟨sto.revision, sto.partitions, accs⟩
      refine ⟨⟨trimmed', records'⟩, ?_, ?_, ?_⟩
      · rw [head, ← len]
        simp
      · intro pub mem
        rcases mem_append.mp mem with old | new
        · exact cons.snapshots pub old
        · rw [mem_singleton.mp new]
          exact head.trans next.symm
      · intro reader mem
        exact (cons.readers reader mem).append _

variable {estimateCommitBytes : CommitResult → Nat}

theorem Step.consistent {system system' : CursorSystem}
    (step : Step estimateCommitBytes system system') (cons : system.Consistent) :
    system'.Consistent := by
  have swap {idx : Nat} {reader : CursorReader} (upTo : reader.UpTo system.published) :
      ∀ alt ∈ system.readers.set idx reader, alt.UpTo system.published := by
    intro alt mem
    rcases mem_or_eq_of_mem_set mem with old | rfl
    · exact cons.readers alt old
    · exact upTo
  cases step with
  | apply app => exact cons.apply app
  | cursorFrom nextRev =>
    obtain ⟨trimmed, records⟩ := cons.records
    refine ⟨⟨trimmed, CommitLog.newCursor_records records nextRev⟩, cons.revision,
      cons.snapshots, ?_⟩
    intro reader mem
    rcases mem_append.mp mem with old | new
    · exact cons.readers reader old
    · rw [mem_singleton.mp new]
      exact ⟨rfl, rfl, fun some_ => absurd rfl some_⟩
  | nextChecked hit =>
    obtain ⟨trimmed, records⟩ := cons.records
    have upTo := cons.readers _ (mem_of_getElem? hit)
    exact ⟨⟨trimmed, records⟩, cons.revision, cons.snapshots,
      swap (upTo.read (CommitLog.nextAt_readAt records _) fun _ => rfl)⟩
  | nextView hit =>
    obtain ⟨trimmed, records⟩ := cons.records
    have upTo := cons.readers _ (mem_of_getElem? hit)
    exact ⟨⟨trimmed, records⟩, cons.revision, cons.snapshots,
      swap (upTo.read (CommitLog.viewAt_readAt records _) fun _ => rfl)⟩

theorem Reachable.consistent {ret : CommitLogRetention} {system : CursorSystem}
    (run : Reachable estimateCommitBytes ret system) : system.Consistent := by
  induction run with
  | refl => exact consistent_initial ret
  | tail _ step ih => exact step.consistent ih

/-! ## Completeness -/

section Outcomes

variable {system : CursorSystem} {trimmed : Nat}
  (records : system.log.Records system.published trimmed)

include records

/-- A revision is trimmed when it lies before the retained ones; no commit has revision zero. -/
theorem trimmed_iff (rev : Revision) :
    system.Trimmed rev ↔ 1 ≤ rev ∧ rev ≤ trimmed := by
  have published := records.numbered.exists_iff (n := rev)
  have kept := CommitLog.retained_iff records rev
  have bnd := records.bound
  unfold Trimmed
  rw [published]
  have unretained : (∀ entry ∈ system.log.entries, entry.commit.revision ≠ rev) ↔
      ¬ (trimmed < rev ∧ rev ≤ system.published.length) := by
    rw [← kept]
    simp only [not_exists, not_and, ne_eq]
  rw [unretained]
  unfold Revision at *
  omega

end Outcomes

/-- What one read at a cursor can give, in either of the two ways to read. -/
structure ReadOutcome {α : Type} (system : CursorSystem) (commitOf : α → CommitResult)
    (cursor : UpdateCursor) (out : Except CommitLogLagged (Option α) × UpdateCursor) :
    Prop where
  waits : out.1 = .ok none ↔ ∀ head ∈ system.log.head, head < cursor.nextRevision
  lags : (∃ lagged, out.1 = .error lagged) ↔ system.Trimmed cursor.nextRevision ∨
    cursor.nextRevision = 0 ∧ system.log.head ≠ none
  unmoved : (∀ read, out.1 ≠ .ok (some read)) → out.2 = cursor
  reads : ∀ read, out.1 = .ok (some read) →
    (commitOf read).revision = cursor.nextRevision ∧
      (∃ publication ∈ system.published, publication.1 = commitOf read) ∧
      out.2.nextRevision = cursor.nextRevision + 1

section Outcome

variable {system : CursorSystem} {trimmed : Nat}
  (records : system.log.Records system.published trimmed)

include records

theorem head_lt_iff (rev : Revision) :
    (∀ head ∈ system.log.head, head < rev) ↔
      system.published = [] ∨ system.published.length < rev := by
  rw [records.head]
  by_cases emp : system.published = []
  · simp [emp]
  · simp [emp]

theorem head_ne_none_iff : system.log.head ≠ none ↔ system.published ≠ [] := by
  rw [records.head]
  by_cases emp : system.published = []
  · simp [emp]
  · simp [emp]

theorem readOutcome {α : Type} {ofPub : Publication → α} {commitOf : α → CommitResult}
    {cur : UpdateCursor} {res : Except CommitLogLagged (Option α)}
    (readAt : system.log.ReadAt system.published trimmed ofPub cur.nextRevision
      res) (com : ∀ pub, commitOf (ofPub pub) = pub.1) :
    ReadOutcome system commitOf cur (CommitLog.advance commitOf cur res) := by
  have heads := head_lt_iff records cur.nextRevision
  have lags := trimmed_iff records cur.nextRevision
  have bnd := records.bound
  cases readAt with
  | ahead after =>
    refine ⟨⟨fun _ => heads.mpr after, fun _ => rfl⟩, ⟨nofun, ?_⟩, fun _ => rfl, nofun⟩
    rw [lags, head_ne_none_iff records]
    rcases after with emp | after
    · rw [emp, length_nil] at bnd
      unfold Revision at *
      rintro (lag | ⟨-, some_⟩)
      · omega
      · exact absurd emp some_
    · unfold Revision at *
      omega
  | lagging some_ lag =>
    refine ⟨⟨nofun, fun all => ?_⟩, ⟨fun _ => ?_, fun _ => ⟨_, rfl⟩⟩, fun _ => rfl, nofun⟩
    · rcases heads.mp all with emp | after
      · exact absurd emp some_
      · unfold Revision at *
        omega
    · rw [lags, head_ne_none_iff records]
      unfold Revision at *
      by_cases zero : cur.nextRevision = 0
      · exact .inr ⟨zero, some_⟩
      · exact .inl ⟨Nat.one_le_iff_ne_zero.mpr zero, lag⟩
  | retained pub kept hit same =>
    have mem := (List.getElem?_eq_some_iff.mp hit).1
    have mem' := mem_of_getElem? hit
    refine ⟨⟨nofun, fun all => ?_⟩, ⟨nofun, ?_⟩, fun unread => absurd rfl (unread _), ?_⟩
    · rcases heads.mp all with emp | after
      · exact absurd emp (ne_nil_of_mem mem')
      · unfold Revision at *
        omega
    · rw [lags]
      unfold Revision at *
      omega
    · rintro _ ⟨⟩
      rw [com]
      refine ⟨same, ⟨pub, mem', rfl⟩, ?_⟩
      rw [CommitLog.advance, com, same]

end Outcome

/-- Completeness of every cursor, over every interleaving and with any retention. -/
theorem Reachable.cursor_complete {estimateCommitBytes : CommitResult → Nat}
    {retention : CommitLogRetention} {system : CursorSystem}
    (run : Reachable estimateCommitBytes retention system) {reader : CursorReader}
    (member : reader ∈ system.readers) :
    (reader.start + reader.obtained.length = reader.cursor.nextRevision ∧
      ∀ index commit, reader.obtained[index]? = some commit →
        commit.revision = reader.start + index ∧
          ∃ publication ∈ system.published, publication.1 = commit) ∧
    ReadOutcome system id reader.cursor (system.log.nextChecked reader.cursor) ∧
    ReadOutcome system Prod.fst reader.cursor (system.log.nextView reader.cursor) ∧
    ∀ view, (system.log.nextView reader.cursor).1 = .ok (some view) →
      view ∈ system.published ∧ view.2.revision = view.1.revision := by
  have cons := run.consistent
  obtain ⟨trimmed, records⟩ := cons.records
  have upTo := cons.readers reader member
  have viewAt := CommitLog.viewAt_readAt records reader.cursor.nextRevision
  refine ⟨⟨upTo.position, ?_⟩,
    readOutcome records (CommitLog.nextAt_readAt records _) fun _ => rfl,
    readOutcome records viewAt fun _ => rfl, ?_⟩
  · intro index commit obtained
    have began := upTo.counted (ne_nil_of_mem (mem_of_getElem? obtained))
    rw [upTo.commits, getElem?_map, Option.map_eq_some_iff] at obtained
    obtain ⟨publication, took, rfl⟩ := obtained
    rw [getElem?_take] at took
    split at took
    · rw [getElem?_drop] at took
      have cnt := records.numbered.getElem? took
      refine ⟨?_, publication, mem_of_getElem? took, rfl⟩
      unfold Revision at *
      omega
    · cases took
  · intro view read
    unfold CommitLog.nextView CommitLog.advance at read
    generalize system.log.viewAt reader.cursor.nextRevision = result at viewAt read
    cases viewAt with
    | ahead => cases read
    | lagging => cases read
    | retained publication kept hit same =>
      cases read
      have member := mem_of_getElem? hit
      exact ⟨member, cons.snapshots _ member⟩

/-! One quote is published to two cursors, one from the first revision and one from zero. -/

def publishQuote (system : CursorSystem) (price : Int) : CursorSystem :=
  match RuntimeHandle.applyAndPublishUnderCommitGate (fun _ => 1) system.store system.log
    [⟨["quotes", "X"], some (.quote "X"), [⟨"last_price", .ofI64 price⟩], .marketDiff⟩]
    [.market] [] .realtimeUpdate [] with
  | .ok ((store, log), publication) =>
    { system with
      store := store
      log := log
      published := system.published ++ publication.toList }
  | .error _ => system

theorem publishQuote_run {system lo : CursorSystem} {px : Int}
    (run : Relation.ReflTransGen (Step fun _ => 1) lo system) :
    Relation.ReflTransGen (Step fun _ => 1) lo (publishQuote system px) := by
  unfold publishQuote
  split
  · rename_i app
    exact run.tail (.apply app)
  · exact run

def twoCursors : CursorSystem :=
  publishQuote
    { initial (.new 1 100) with
      log := (((initial (.new 1 100)).log.newCursor 1).1.newCursor 0).1
      readers := [⟨⟨1, 1⟩, 1, []⟩, ⟨⟨2, 0⟩, 0, []⟩] } 7

theorem twoCursors_reachable : Reachable (fun _ => 1) (.new 1 100) twoCursors := by
  have opn : Step (fun _ => 1) (initial (.new 1 100)) _ := .cursorFrom 1
  exact publishQuote_run ((Relation.ReflTransGen.single opn).tail (.cursorFrom 0))

theorem Reachable.cursor_complete_twoCursors :
    (twoCursors.log.nextChecked ⟨1, 1⟩).1.toOption.join.isSome = true ∧
      ∀ commit, (twoCursors.log.nextChecked ⟨1, 1⟩).1 = .ok (some commit) →
        commit.revision = 1 := by
  refine ⟨by decide, ?_⟩
  intro commit read
  have mem : (⟨⟨1, 1⟩, 1, []⟩ : CursorReader) ∈ twoCursors.readers := mem_cons_self
  exact ((twoCursors_reachable.cursor_complete mem).2.1.reads commit read).1

/-- The cursor at zero is told that it lags, although no commit was trimmed. -/
theorem lagged_at_zero :
    Reachable (fun _ => 1) (.new 1 100) twoCursors ∧
      (twoCursors.log.nextChecked ⟨2, 0⟩).1.toOption = none ∧
      (twoCursors.log.entries.map (·.commit.revision)) =
        twoCursors.published.map (·.1.revision) ∧
      ¬ twoCursors.Trimmed 0 := by
  refine ⟨twoCursors_reachable, by decide, by decide, ?_⟩
  rintro ⟨⟨pub, mem, zero⟩, -⟩
  have revisions : twoCursors.published.map (·.1.revision) = [1] := by decide
  have hit := mem_map_of_mem (f := (·.1.revision)) mem
  rw [revisions, zero] at hit
  revert hit
  decide

end CursorSystem

end Tqsdk
