import Tqsdk.Lib.Numbered
import Tqsdk.State.Batch

/-!
# The commit log

`runtime/commit_log.rs`: a buffer of the latest commits with the snapshots they published,
bounded in entries and in bytes.  A commit is found by the distance of its revision from the
first retained one, which needs the retained revisions to be consecutive through every push
and trim; `CommitLog.Records` is that invariant, against the list of everything ever
published.

How many bytes a commit or a snapshot root takes is an estimate over the allocator's data,
so it is a parameter.  The positions that the log tracks for its telemetry are left out.
-/

namespace Tqsdk

open List Option

/-- `usize::MAX`. -/
def usizeMax : Nat := 2 ^ 64 - 1

def saturatingAdd (a b : Nat) : Nat := min (a + b) usizeMax

structure CommitLogRetention where
  maxEntries : Nat
  maxRetainedBytes : Nat
  someEntry : 1 ≤ maxEntries
  someByte : 1 ≤ maxRetainedBytes

def CommitLogRetention.new (maxEntries maxRetainedBytes : Nat) : CommitLogRetention :=
  ⟨max maxEntries 1, max maxRetainedBytes 1, Nat.le_max_right _ _, Nat.le_max_right _ _⟩

structure CommitLogLagged where
  expectedRevision : Revision
  oldestAvailableRevision : Revision
  currentRevision : Revision
  deriving DecidableEq

/-- A snapshot of the store.  The roots are shared, so each has an address under which the
log accounts its bytes once. -/
structure StateSnapshot where
  revision : Revision
  roots : Partitions
  /-- The address and the bytes of every root. -/
  accounts : List (Nat × Nat)

namespace StateSnapshot

def retainedRootKeys (snapshot : StateSnapshot) : List Nat := snapshot.accounts.map Prod.fst

def retainedRootBytesFor (snapshot : StateSnapshot) (key : Nat) : Option Nat :=
  (snapshot.accounts.find? (·.1 == key)).map Prod.snd

end StateSnapshot

/-- A commit with the snapshot it was published with. -/
abbrev Publication := CommitResult × StateSnapshot

structure UpdateCursor where
  id : CursorId
  nextRevision : Revision
  deriving DecidableEq

structure RetainedCommit where
  commit : CommitResult
  snapshot : Option StateSnapshot
  payloadBytes : Nat
  rootKeys : List Nat

structure RetainedSnapshotRoot where
  references : Nat
  bytes : Nat

structure CommitLog where
  nextCursorId : CursorId
  head : Option Revision
  firstRetainedRevision : Option Revision
  entries : List RetainedCommit
  retainedRoots : List (Nat × RetainedSnapshotRoot)
  retention : CommitLogRetention
  retainedBytes : Nat

namespace CommitLog

def withLimits (retention : CommitLogRetention) : CommitLog :=
  ⟨1, none, none, [], [], retention, 0⟩

/-! ## Reading -/

variable (log : CommitLog)

def entryAt (revision : Revision) : Option RetainedCommit :=
  match log.firstRetainedRevision with
  | none => none
  | some first =>
    if revision < first then none
    else log.entries[revision - first]?.filter fun entry => entry.commit.revision == revision

def commitAt (revision : Revision) : Option CommitResult :=
  (log.entryAt revision).map (·.commit)

def lagged (revision head : Revision) : CommitLogLagged where
  expectedRevision := revision
  oldestAvailableRevision := log.firstRetainedRevision.getD (head + 1)
  currentRevision := head

/-- What `next` and `view_at` answer for a revision that is not retained. -/
def missing {α : Type} (log : CommitLog) (revision : Revision) :
    Except CommitLogLagged (Option α) :=
  match log.head with
  | none => .ok none
  | some head => if head < revision then .ok none else .error (log.lagged revision head)

/-- `CommitLogInner::next`. -/
def nextAt (revision : Revision) : Except CommitLogLagged (Option CommitResult) :=
  match log.commitAt revision with
  | some commit => .ok (some commit)
  | none => log.missing revision

/-- `CommitLogInner::view_at`. -/
def viewAt (revision : Revision) : Except CommitLogLagged (Option (CommitResult × StateSnapshot)) :=
  match log.entryAt revision with
  | some entry => .ok (entry.snapshot.map fun snapshot => (entry.commit, snapshot))
  | none => log.missing revision

/-- A read moves its cursor behind the commit it obtained, and only then. -/
def advance {α : Type} (commitOf : α → CommitResult) (cursor : UpdateCursor)
    (read : Except CommitLogLagged (Option α)) :
    Except CommitLogLagged (Option α) × UpdateCursor :=
  match read with
  | .error lagged => (.error lagged, cursor)
  | .ok none => (.ok none, cursor)
  | .ok (some found) =>
    (.ok (some found), { cursor with nextRevision := (commitOf found).revision + 1 })

def nextChecked (cursor : UpdateCursor) :
    Except CommitLogLagged (Option CommitResult) × UpdateCursor :=
  advance id cursor (log.nextAt cursor.nextRevision)

/-- `RuntimeReader::next_view`. -/
def nextView (cursor : UpdateCursor) : Except CommitLogLagged (Option Publication) × UpdateCursor :=
  advance Prod.fst cursor (log.viewAt cursor.nextRevision)

def resyncCursorToHead (cursor : UpdateCursor) : Option Revision × UpdateCursor :=
  match log.head with
  | none => (none, cursor)
  | some head => (some (head + 1), { cursor with nextRevision := head + 1 })

/-- `CommitLog::next`, which skips to the head when the cursor has fallen behind. -/
def next (cursor : UpdateCursor) : Option CommitResult × UpdateCursor :=
  match log.nextChecked cursor with
  | (.ok commit, cursor) => (commit, cursor)
  | (.error _, cursor) => (none, (log.resyncCursorToHead cursor).2)

def newCursor (nextRevision : Revision) : CommitLog × UpdateCursor :=
  ({ log with nextCursorId := log.nextCursorId + 1 }, ⟨log.nextCursorId, nextRevision⟩)

/-! ## Publishing -/

/-- The snapshot roots with their reference counts, and the bytes retained in all. -/
abbrev Accounts := List (Nat × RetainedSnapshotRoot) × Nat

/-- A root of a pushed snapshot: one more reference, or a new root with its bytes. -/
def retainRoot (bytesFor : Nat → Option Nat) (accounts : Accounts) (key : Nat) : Accounts :=
  match OrdMap.get? key accounts.1 with
  | some root =>
    (OrdMap.insert key { root with references := saturatingAdd root.references 1 } accounts.1,
      accounts.2)
  | none =>
    let bytes := (bytesFor key).getD 0
    (OrdMap.insert key ⟨1, bytes⟩ accounts.1, saturatingAdd accounts.2 bytes)

/-- A root of a released entry: one reference less, and gone with the last one. -/
def releaseRoot (accounts : Accounts) (key : Nat) : Accounts :=
  match OrdMap.get? key accounts.1 with
  | none => accounts
  | some root =>
    if root.references - 1 = 0 then (OrdMap.erase key accounts.1, accounts.2 - root.bytes)
    else (OrdMap.insert key { root with references := root.references - 1 } accounts.1,
      accounts.2)

def releaseEntry (accounts : Accounts) (entry : RetainedCommit) : Accounts :=
  entry.rootKeys.foldl releaseRoot (accounts.1, accounts.2 - entry.payloadBytes)

/-- The loop of `trim`: entries leave at the front until both limits are met. -/
def trimEntries (retention : CommitLogRetention) :
    List RetainedCommit → Accounts → List RetainedCommit × Accounts
  | [], accounts => ([], accounts)
  | entry :: rest, accounts =>
    if retention.maxEntries < (entry :: rest).length ∨
        retention.maxRetainedBytes < accounts.2 then
      trimEntries retention rest (releaseEntry accounts entry)
    else (entry :: rest, accounts)

def trim : CommitLog :=
  let (entries, roots, bytes) :=
    trimEntries log.retention log.entries (log.retainedRoots, log.retainedBytes)
  { log with
    entries := entries
    retainedRoots := roots
    retainedBytes := bytes
    firstRetainedRevision := entries.head?.map (·.commit.revision) }

def push (estimateCommitBytes : CommitResult → Nat) (log : CommitLog) (commit : CommitResult)
    (snapshot : Option StateSnapshot) : CommitLog :=
  let payloadBytes := estimateCommitBytes commit
  let rootKeys := (snapshot.map (·.retainedRootKeys)).getD []
  let bytesFor := fun key => snapshot.bind fun snapshot => snapshot.retainedRootBytesFor key
  let (roots, bytes) := rootKeys.foldl (retainRoot bytesFor)
    (log.retainedRoots, saturatingAdd log.retainedBytes payloadBytes)
  trim { log with
    head := some commit.revision
    firstRetainedRevision :=
      if log.entries.isEmpty then some commit.revision else log.firstRetainedRevision
    entries := log.entries ++ [⟨commit, snapshot, payloadBytes, rootKeys⟩]
    retainedRoots := roots
    retainedBytes := bytes }

def publish (estimateCommitBytes : CommitResult → Nat) (log : CommitLog)
    (commit : CommitResult) (snapshot : StateSnapshot) : CommitLog :=
  push estimateCommitBytes log commit (some snapshot)

/-! ## What the log holds -/

/-- The log against everything that was ever published: revisions are counted from one, and
all but the first `trimmed` publications are retained. -/
structure Records (log : CommitLog) (published : List Publication) (trimmed : Nat) : Prop where
  numbered : Numbered.From (·.1.revision) 1 published
  bound : trimmed ≤ published.length
  head : log.head = if published = [] then none else some published.length
  window : log.entries.map (fun entry => (entry.commit, entry.snapshot)) =
    (published.drop trimmed).map fun publication => (publication.1, some publication.2)
  first : log.firstRetainedRevision = log.entries.head?.map (·.commit.revision)

theorem withLimits_records (ret : CommitLogRetention) : (withLimits ret).Records [] 0 :=
  ⟨trivial, le_refl _, rfl, rfl, rfl⟩

theorem newCursor_records {log : CommitLog} {published : List Publication} {trimmed : Nat}
    (recs : log.Records published trimmed) (nextRev : Revision) :
    (log.newCursor nextRev).1.Records published trimmed :=
  ⟨recs.numbered, recs.bound, recs.head, recs.window, recs.first⟩

theorem trimEntries_drop (ret : CommitLogRetention) (ents : List RetainedCommit) (accs : Accounts) :
    ∃ n ≤ ents.length, (trimEntries ret ents accs).1 = ents.drop n := by
  induction ents generalizing accs with
  | nil => exact ⟨0, le_refl _, rfl⟩
  | cons ent ents ih =>
    rw [trimEntries]
    split
    · obtain ⟨n, bnd, dropped⟩ := ih (releaseEntry accs ent)
      exact ⟨n + 1, Nat.succ_le_succ bnd, dropped⟩
    · exact ⟨0, Nat.zero_le _, rfl⟩

/-- A publication under the next revision is recorded, whatever is trimmed for it. -/
theorem publish_records (est : CommitResult → Nat) {log : CommitLog} {published : List Publication}
    {trimmed : Nat} (recs : log.Records published trimmed) {com : CommitResult}
    (next : com.revision = published.length + 1) (snap : StateSnapshot) :
    ∃ trimmed' ≥ trimmed, (publish est log com snap).Records
      (published ++ [(com, snap)]) trimmed' := by
  generalize plus : ({
    commit := com
    snapshot := some snap
    payloadBytes := est com
    rootKeys := snap.retainedRootKeys } : RetainedCommit) = ent
  generalize accs : snap.retainedRootKeys.foldl
    (retainRoot fun key => snap.retainedRootBytesFor key)
      (log.retainedRoots, saturatingAdd log.retainedBytes (est com)) = roots
  have push : (log.entries ++ [ent]).map (fun ent => (ent.commit, ent.snapshot)) =
      ((published ++ [(com, snap)]).drop trimmed).map fun pub => (pub.1, some pub.2) := by
    rw [map_append, recs.window, drop_append_of_le_length recs.bound, map_append, ← plus]
    rfl
  obtain ⟨n, bnd, dropped⟩ := trimEntries_drop log.retention (log.entries ++ [ent]) roots
  have len := congrArg List.length push
  simp only [length_map, length_drop, length_append, length_singleton] at len bnd
  have out : publish est log com snap =
      trim { log with
        head := some com.revision
        firstRetainedRevision :=
          if log.entries.isEmpty then some com.revision else log.firstRetainedRevision
        entries := log.entries ++ [ent]
        retainedRoots := roots.1
        retainedBytes := roots.2 } := by
    rw [← plus, ← accs]
    rfl
  have ents : (publish est log com snap).entries =
      (log.entries ++ [ent]).drop n := by
    rw [out]
    exact dropped
  refine ⟨trimmed + n, by omega, ?_, ?_, ?_, ?_, ?_⟩
  · exact recs.numbered.concat (by rw [next]; omega)
  · rw [length_append, length_singleton]
    have := recs.bound
    omega
  · rw [out]
    simp [trim, next]
  · rw [ents, map_drop, push, ← map_drop, drop_drop]
  · rw [out]
    rfl

section Reads

variable {log : CommitLog} {published : List Publication} {trimmed : Nat}
  (recs : log.Records published trimmed)

include recs

/-- The entry of a revision is the publication of that revision, unless it was trimmed. -/
theorem entryAt_eq (revision : Revision) :
    (log.entryAt revision).map (fun ent => (ent.commit, ent.snapshot)) =
      if trimmed < revision then
        published[revision - 1]?.map fun publication => (publication.1, some publication.2)
      else none := by
  have wnd := recs.window
  have nums := recs.numbered.drop trimmed
  unfold entryAt
  rw [recs.first]
  unfold Revision at *
  cases got : log.entries with
  | nil =>
    rw [got] at wnd
    have emp : published.drop trimmed = [] := map_eq_nil_iff.mp wnd.symm
    have all : published.length ≤ trimmed := drop_eq_nil_iff.mp emp
    by_cases low : trimmed < revision
    · rw [if_pos low, getElem?_eq_none (by omega)]
      rfl
    · rw [if_neg low]
      rfl
  | cons ent ents =>
    rw [got] at wnd
    obtain ⟨publication, rest, kept⟩ : ∃ publication rest,
        published.drop trimmed = publication :: rest := by
      cases kept : published.drop trimmed with
      | nil =>
        rw [kept] at wnd
        cases wnd
      | cons publication rest => exact ⟨publication, rest, rfl⟩
    have firstRevision : ent.commit.revision = trimmed + 1 := by
      have same : ent.commit = publication.1 := by
        rw [kept] at wnd
        exact congrArg Prod.fst (List.cons.inj wnd).1
      rw [kept] at nums
      have cnt : 1 + trimmed = publication.1.revision := nums.1.symm
      rw [same, ← cnt]
      exact Nat.add_comm 1 trimmed
    simp only [head?_cons, map_some, firstRevision]
    by_cases low : trimmed < revision
    · have notBelow : ¬ revision < trimmed + 1 := by omega
      rw [if_neg notBelow, if_pos low]
      have posn : published[revision - 1]? =
          (published.drop trimmed)[revision - (trimmed + 1)]? := by
        rw [getElem?_drop]
        congr 1
        omega
      have algn := congrArg (·[revision - (trimmed + 1)]?) wnd
      simp only [getElem?_map] at algn
      rw [posn, ← algn]
      -- the entry found there has the revision that was asked for
      cases found : (ent :: ents)[revision - (trimmed + 1)]? with
      | none => rfl
      | some at_ =>
        rw [found] at algn
        obtain ⟨publication', found', same⟩ := map_eq_some_iff.mp algn.symm
        have right : revision = at_.commit.revision := by
          have cnt : 1 + trimmed + (revision - (trimmed + 1)) =
            publication'.1.revision := (nums.getElem? found').symm
          have com : publication'.1 = at_.commit := congrArg Prod.fst same
          rw [← com, ← cnt]
          omega
        simp [Option.filter, ← right]
    · have lt : revision < trimmed + 1 := by omega
      rw [if_pos lt, if_neg low]
      rfl

end Reads

theorem missing_eq {log : CommitLog} {published : List Publication} {trimmed : Nat}
    (recs : log.Records published trimmed) {α : Type} (revision : Revision) :
    log.missing revision = (if published = [] ∨ published.length < revision then .ok none
      else .error (log.lagged revision published.length) : Except CommitLogLagged (Option α)) := by
  unfold missing
  rw [recs.head]
  by_cases emp : published = []
  · simp [emp]
  · simp [emp]

/-- What a read of a revision answers: nothing yet, a lag, or what it reads of the publication
of that revision. -/
inductive ReadAt {α : Type} (log : CommitLog) (published : List Publication) (trimmed : Nat)
    (ofPublication : Publication → α) (revision : Revision) :
    Except CommitLogLagged (Option α) → Prop
  | ahead (after : published = [] ∨ published.length < revision) :
      ReadAt log published trimmed ofPublication revision (.ok none)
  | lagging (some_ : published ≠ []) (behind : revision ≤ trimmed) :
      ReadAt log published trimmed ofPublication revision
        (.error (log.lagged revision published.length))
  | retained (publication : Publication) (kept : trimmed < revision)
      (found : published[revision - 1]? = some publication)
      (same : publication.1.revision = revision) :
      ReadAt log published trimmed ofPublication revision
        (.ok (some (ofPublication publication)))

section ReadAt

variable {log : CommitLog} {published : List Publication} {trimmed : Nat}
  (recs : log.Records published trimmed) (revision : Revision)

include recs

theorem missing_readAt {α : Type} (ofPub : Publication → α) (abst : log.entryAt revision = none) :
    log.ReadAt published trimmed ofPub revision (log.missing revision) := by
  have ent := entryAt_eq recs revision
  rw [abst] at ent
  by_cases post : published = [] ∨ published.length < revision
  · rw [missing_eq recs, if_pos post]
    exact .ahead post
  · rw [missing_eq recs, if_neg post]
    rw [not_or] at post
    refine .lagging post.1 ?_
    -- a later revision up to the head is retained
    by_contra late
    rw [not_le] at late
    rw [if_pos late, map_none, eq_comm, map_eq_none_iff, getElem?_eq_none_iff] at ent
    unfold Revision at *
    omega

theorem entryAt_retained {ent : RetainedCommit} (got : log.entryAt revision = some ent) :
    ∃ pub, trimmed < revision ∧ published[revision - 1]? = some pub ∧
      pub.1.revision = revision ∧ ent.commit = pub.1 ∧
      ent.snapshot = some pub.2 := by
  have hit := entryAt_eq recs revision
  rw [got, map_some] at hit
  split at hit
  · rename_i kept
    obtain ⟨pub, at_, same⟩ := map_eq_some_iff.mp hit.symm
    have cnt := recs.numbered.getElem? at_
    refine ⟨pub, kept, at_, ?_, (congrArg Prod.fst same).symm, (congrArg Prod.snd same).symm⟩
    unfold Revision at *
    omega
  · cases hit

theorem nextAt_readAt :
    log.ReadAt published trimmed Prod.fst revision (log.nextAt revision) := by
  unfold nextAt commitAt
  cases got : log.entryAt revision with
  | none => exact missing_readAt recs revision Prod.fst got
  | some ent =>
    obtain ⟨pub, kept, hit, same, com, -⟩ := entryAt_retained recs revision got
    rw [map_some, com]
    exact .retained pub kept hit same

theorem viewAt_readAt : log.ReadAt published trimmed id revision (log.viewAt revision) := by
  unfold viewAt
  cases got : log.entryAt revision with
  | none => exact missing_readAt recs revision id got
  | some ent =>
    obtain ⟨pub, kept, hit, same, com, snap⟩ := entryAt_retained recs revision got
    dsimp only
    rw [snap, map_some, com]
    exact .retained pub kept hit same

/-- The retained revisions are those behind the trimmed ones. -/
theorem retained_iff (revision : Revision) :
    (∃ ent ∈ log.entries, ent.commit.revision = revision) ↔
      trimmed < revision ∧ revision ≤ published.length := by
  have revisions : log.entries.map (·.commit.revision) =
      (published.drop trimmed).map (·.1.revision) := by
    have wnd := congrArg (List.map fun ent => ent.1.revision) recs.window
    simpa only [List.map_map, Function.comp_def] using wnd
  have bnd := recs.bound
  have rng := (recs.numbered.drop trimmed).exists_iff (n := revision)
  rw [length_drop] at rng
  have same : (∃ ent ∈ log.entries, ent.commit.revision = revision) ↔
      ∃ publication ∈ published.drop trimmed, publication.1.revision = revision := by
    rw [← List.mem_map, revisions, List.mem_map]
  rw [same, rng]
  unfold Revision at *
  omega

/-- A cursor that has not fallen behind reads the next publication, or waits for it. -/
theorem next_retained {cur : UpdateCursor} (pos : 1 ≤ cur.nextRevision)
    (retains : ∀ pub ∈ published, cur.nextRevision ≤ pub.1.revision →
      ∃ ent ∈ log.entries, ent.commit.revision = pub.1.revision) :
    log.next cur =
      match published[cur.nextRevision - 1]? with
      | some pub => (some pub.1, { cur with nextRevision := cur.nextRevision + 1 })
      | none => (none, cur) := by
  have bnd := recs.bound
  have readAt := nextAt_readAt recs cur.nextRevision
  unfold next nextChecked
  generalize log.nextAt cur.nextRevision = res at readAt
  cases readAt with
  | ahead after =>
    have gone : published[cur.nextRevision - 1]? = none := by
      rw [getElem?_eq_none_iff]
      rcases after with emp | after
      · rw [emp]
        exact Nat.zero_le _
      · exact Nat.le_sub_one_of_lt after
    rw [gone]
    rfl
  | lagging some_ lag =>
    -- its revision is published and was trimmed, against what was assumed
    obtain ⟨pub, mem, same⟩ := (recs.numbered.exists_iff
      (n := cur.nextRevision)).mpr (by unfold Revision at *; omega)
    obtain ⟨ent, got, revision⟩ := retains pub mem (le_of_eq same.symm)
    have kept := ((retained_iff recs cur.nextRevision).mp ⟨ent, got, revision.trans same⟩).1
    exact absurd lag (Nat.not_le.mpr kept)
  | retained pub kept hit same =>
    rw [hit]
    simp only [advance, id, same]

end ReadAt

end CommitLog

end Tqsdk
