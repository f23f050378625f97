import Mathlib.Logic.Relation
import Tqsdk.Runtime.CommitLog

/-!
# The wait facade

`TqApi` of the wait crate, without a backtest: `wait_update` and `step_until` hand the caller
one commit at a time, and the readiness calls (`kline_ready`, `tick_ready`,
`login_trade_account`) wait for commits through the same `wait_update` and defer what they
have consumed.  The calls are a state machine, one transition for each stretch of code between
two awaits, because commits are published while a call waits.

A readiness call that gives up at its deadline puts the commits it consumed back.  One that
fails after it has consumed some drops them (`WaitState.leave`), and with them the updates that
they carry.
-/

namespace Tqsdk

open List Option

/-- What the loop of `wait_until_ready_until` keeps. -/
structure Readiness where
  previousLastCommit : Option CommitResult
  replay : List CommitResult
  deriving DecidableEq

/-- Where a call of the facade stands.  A wait is the caller's own, or that of a readiness
call. -/
inductive WaitCall
  | idle
  | reading (caller : Option Readiness)
  | progressing (caller : Option Readiness)
  | checking (caller : Readiness)
  deriving DecidableEq

/-- The readiness call that waits, if it is one. -/
def WaitCall.caller : WaitCall → Option Readiness
  | .idle => none
  | .reading caller | .progressing caller => caller
  | .checking caller => some caller

/-- The call has found nothing deferred and waits for the log. -/
def WaitCall.isWaiting : WaitCall → Bool
  | .reading _ | .progressing _ => true
  | _ => false

/-- `Result<bool>` of a readiness closure. -/
inductive ReadyAnswer
  | ready | notReady | failed
  deriving DecidableEq

/-- What `progress_once` comes back with: progress, its deadline, or a session error. -/
inductive ProgressOutcome
  | progress | idle | failed
  deriving DecidableEq

/-- The driver of the facade with the log it reads.  `published` is everything that was ever
published, `handed` what `wait_update` and `step_until` have returned, and `returns` the last
commit before and after every readiness call. -/
structure WaitState where
  log : CommitLog
  published : List Publication
  cursor : UpdateCursor
  deferredCommits : List CommitResult
  lastCommit : Option CommitResult
  call : WaitCall
  handed : List CommitResult
  returns : List (Option CommitResult × Option CommitResult)

inductive WaitEvent
  /-- A commit is published under the next revision, at any time. -/
  | publish (commit : CommitResult) (snapshot : StateSnapshot)
  /-- `wait_update` or `step_until` is called. -/
  | update
  /-- A readiness call begins; `failed` is also a failure before it waits. -/
  | becomeReady (answer : ReadyAnswer)
  /-- The condition of its loop is evaluated. -/
  | check (answer : ReadyAnswer)
  /-- A wait reads the log. -/
  | read
  | progress (outcome : ProgressOutcome)

namespace WaitState

/-- `TqApi::new` on a runtime, with a cursor behind its head. -/
def new (log : CommitLog) (published : List Publication) (nextRevision : Revision) :
    WaitState :=
  ⟨(log.newCursor nextRevision).1, published, (log.newCursor nextRevision).2, [], none, .idle,
    [], []⟩

variable (state : WaitState)

/-- A wait has obtained a commit: the caller gets it, or the readiness call remembers it. -/
def obtain (commit : CommitResult) : Option Readiness → WaitState
  | none =>
    { state with
      lastCommit := some commit
      handed := state.handed ++ [commit]
      call := .idle }
  | some caller =>
    { state with
      lastCommit := some commit
      call := .checking { caller with replay := caller.replay ++ [commit] } }

/-- The beginning of a wait: a deferred commit is taken first. -/
def wait (caller : Option Readiness) : WaitState :=
  match state.deferredCommits with
  | commit :: rest => { state with deferredCommits := rest }.obtain commit caller
  | [] => { state with call := .reading caller }

/-- A readiness call returns. -/
def leave (caller : Readiness) : WaitState :=
  { state with
    call := .idle
    returns := state.returns ++ [(caller.previousLastCommit, state.lastCommit)] }

/-- The commits of the call go back in front of the deferred ones. -/
def putBack (caller : Readiness) : WaitState :=
  { state with
    deferredCommits := caller.replay ++ state.deferredCommits
    lastCommit := caller.previousLastCommit }.leave caller

/-- One transition; `none` when the event does not fit where the call stands. -/
def step (estimateCommitBytes : CommitResult → Nat) (state : WaitState) :
    WaitEvent → Option WaitState
  | .publish commit snapshot =>
    let commit := { commit with revision := state.published.length + 1 }
    some { state with
      log := state.log.publish estimateCommitBytes commit snapshot
      published := state.published ++ [(commit, snapshot)] }
  | .update =>
    match state.call with
    | .idle => some (state.wait none)
    | _ => none
  | .becomeReady answer =>
    match state.call, answer with
    | .idle, .notReady => some { state with call := .checking ⟨state.lastCommit, []⟩ }
    | .idle, _ => some (state.leave ⟨state.lastCommit, []⟩)
    | _, _ => none
  | .check answer =>
    match state.call, answer with
    | .checking caller, .ready => some (state.putBack caller)
    | .checking caller, .notReady => some (state.wait (some caller))
    -- `ready()?` returns at once
    | .checking caller, .failed => some (state.leave caller)
    | _, _ => none
  | .read =>
    match state.call with
    | .reading caller =>
      match state.log.next state.cursor with
      | (some commit, cursor) => some ({ state with cursor := cursor }.obtain commit caller)
      | (none, cursor) =>
        some { state with cursor := cursor, call := .progressing caller }
    | _ => none
  | .progress outcome =>
    match state.call, outcome with
    | .progressing caller, .progress => some { state with call := .reading caller }
    | .progressing (some caller), .idle => some (state.putBack caller)
    -- `wait_update(deadline).await?` returns at once
    | .progressing (some caller), .failed => some (state.leave caller)
    | .progressing none, _ => some { state with call := .idle }
    | _, _ => none

/-- The commits a readiness call holds. -/
def replaying : List CommitResult :=
  (state.call.caller.map (·.replay)).getD []

/-- The commits that were published and not read yet. -/
def unread : List CommitResult :=
  (state.published.drop (state.cursor.nextRevision - 1)).map Prod.fst

/-! ## The invariant -/

/-- Every commit the cursor has not read is retained. -/
def Retains : Prop :=
  ∀ publication ∈ state.published, state.cursor.nextRevision ≤ publication.1.revision →
    ∃ entry ∈ state.log.entries, entry.commit.revision = publication.1.revision

/-- The event ends a readiness call with an error after it has consumed a commit. -/
def dropsReplay : WaitEvent → Bool
  | .check .failed =>
    match state.call with
    | .checking caller => !caller.replay.isEmpty
    | _ => false
  | .progress .failed =>
    match state.call with
    | .progressing (some caller) => !caller.replay.isEmpty
    | _ => false
  | _ => false

/-- Everything from the first revision on is handed out, remembered, deferred or unread, in
this order, and no readiness call so far has moved the last commit. -/
structure Complete (start : Revision) (state : WaitState) : Prop where
  records : ∃ trimmed, state.log.Records state.published trimmed
  first : 1 ≤ start
  passed : start ≤ state.cursor.nextRevision
  behind : state.cursor.nextRevision ≤ state.published.length + 1
  all : state.handed ++ state.replaying ++ state.deferredCommits ++ state.unread =
    (state.published.drop (start - 1)).map Prod.fst
  drained : state.call.isWaiting = true → state.deferredCommits = []
  untouched : ∀ caller ∈ state.call.caller, caller.replay = [] →
    state.lastCommit = caller.previousLastCommit
  restored : ∀ returned ∈ state.returns, returned.1 = returned.2

theorem new_complete {log : CommitLog} {pub : List Publication} {trim : Nat}
    (recs : log.Records pub trim) {start : Revision} (hd : 1 ≤ start)
    (post : start ≤ pub.length + 1) : (new log pub start).Complete start :=
  ⟨⟨trim, CommitLog.newCursor_records recs start⟩, hd, le_refl _, post, rfl, nofun, nofun, nofun⟩

section Transitions

variable {start : Revision} {state : WaitState}

theorem Complete.publish (complete : state.Complete start)
    (estimateCommitBytes : CommitResult → Nat) (com : CommitResult) (snap : StateSnapshot) :
    let com := { com with revision := state.published.length + 1 }
    ({ state with
        log := state.log.publish estimateCommitBytes com snap
        published := state.published ++ [(com, snap)] } : WaitState).Complete start := by
  intro com
  obtain ⟨trimmed, recs⟩ := complete.records
  have next : com.revision = state.published.length + 1 := rfl
  obtain ⟨trimmed', -, records'⟩ := CommitLog.publish_records estimateCommitBytes recs next snap
  have lag := complete.behind
  have past := complete.passed
  refine ⟨⟨trimmed', records'⟩, complete.first, past, ?_, ?_, complete.drained,
    complete.untouched, complete.restored⟩
  · exact lag.trans (by simp)
  · have grown (position : Nat) (inside : position ≤ state.published.length + 1) :
        ((state.published ++ [(com, snap)]).drop (position - 1)).map Prod.fst =
          (state.published.drop (position - 1)).map Prod.fst ++ [com] := by
      rw [drop_append_of_le_length (by omega), map_append]
      rfl
    have all := complete.all
    unfold unread at all ⊢
    dsimp only
    rw [grown _ lag, grown _ (past.trans lag), ← all]
    simp [replaying, append_assoc]

variable {caller : Option Readiness}

/-- A commit taken from in front of the deferred ones goes to whom it was taken for. -/
theorem obtain_complete {com : CommitResult} (recs : ∃ trim, state.log.Records state.published trim)
    (hd : 1 ≤ start) (past : start ≤ state.cursor.nextRevision)
    (post : state.cursor.nextRevision ≤ state.published.length + 1)
    (all : state.handed ++ (caller.map (·.replay)).getD [] ++ com :: state.deferredCommits ++
      state.unread = (state.published.drop (start - 1)).map Prod.fst)
    (restored : ∀ ret ∈ state.returns, ret.1 = ret.2) :
    (state.obtain com caller).Complete start := by
  cases caller with
  | none =>
    refine ⟨recs, hd, past, post, ?_, nofun, nofun, restored⟩
    refine Eq.trans ?_ all
    simp [obtain, replaying, WaitCall.caller, unread]
  | some caller =>
    refine ⟨recs, hd, past, post, ?_, nofun, ?_, restored⟩
    · refine Eq.trans ?_ all
      simp [obtain, replaying, WaitCall.caller, unread]
    · rintro _ ⟨⟩ emp
      simp at emp

section

variable (complete : state.Complete start)

include complete

theorem Complete.wait (cls : state.call.caller = caller) :
    (state.wait caller).Complete start := by
  have all := complete.all
  unfold replaying at all
  rw [cls] at all
  unfold WaitState.wait
  cases late : state.deferredCommits with
  | nil =>
    rw [late] at all
    refine ⟨complete.records, complete.first, complete.passed, complete.behind, all,
      fun _ => rfl, ?_, complete.restored⟩
    · rintro seen mem
      exact complete.untouched seen (cls ▸ mem)
  | cons com rest =>
    rw [late] at all
    exact obtain_complete complete.records complete.first complete.passed complete.behind all
      complete.restored

/-- A readiness call that has consumed nothing may return at any point. -/
theorem Complete.leave {caller : Readiness} (cls : state.call.caller = some caller)
    (unused : caller.replay = []) :
    (state.leave caller).Complete start := by
  have all := complete.all
  unfold replaying at all
  rw [cls, map_some, getD_some, unused] at all
  refine ⟨complete.records, complete.first, complete.passed, complete.behind, ?_, nofun, nofun, ?_⟩
  · exact all
  · intro ret mem
    rcases mem_append.mp mem with old | new
    · exact complete.restored ret old
    · rw [mem_singleton.mp new]
      exact (complete.untouched caller cls unused).symm

theorem Complete.putBack {caller : Readiness} (cls : state.call.caller = some caller) :
    (state.putBack caller).Complete start := by
  have all := complete.all
  unfold replaying at all
  rw [cls, map_some, getD_some] at all
  refine ⟨complete.records, complete.first, complete.passed, complete.behind, ?_, nofun, nofun, ?_⟩
  · refine Eq.trans ?_ all
    simp [WaitState.putBack, WaitState.leave, replaying, WaitCall.caller, unread]
  · intro ret mem
    rcases mem_append.mp mem with old | new
    · exact complete.restored ret old
    · rw [mem_singleton.mp new]

/-- A wait reads the next unread commit, or finds none and lets the session progress. -/
theorem Complete.read (retains : state.Retains) (reading : state.call = .reading caller)
    {state' : WaitState} {estimateCommitBytes : CommitResult → Nat}
    (stepped : state.step estimateCommitBytes .read = some state') : state'.Complete start := by
  obtain ⟨trim, recs⟩ := complete.records
  have past := complete.passed
  have lag := complete.behind
  have cls : state.call.caller = caller := by rw [reading]; rfl
  have late : state.deferredCommits = [] := complete.drained (by rw [reading]; rfl)
  have all := complete.all
  unfold replaying at all
  rw [cls, late, append_nil] at all
  have next := CommitLog.next_retained recs (complete.first.trans past) retains
  simp only [step, reading] at stepped
  rw [next] at stepped
  cases hit : state.published[state.cursor.nextRevision - 1]? with
  | none =>
    simp only [hit, some.injEq] at stepped
    subst stepped
    refine ⟨complete.records, complete.first, past, lag, ?_, fun _ => late, ?_, complete.restored⟩
    · refine Eq.trans ?_ all
      simp [replaying, WaitCall.caller, late, unread]
    · intro seen mem
      exact complete.untouched seen (cls ▸ mem)
  | some pub =>
    simp only [hit, some.injEq] at stepped
    subst stepped
    have inn := (List.getElem?_eq_some_iff.mp hit).1
    have pos : 1 ≤ state.cursor.nextRevision := complete.first.trans past
    -- the unread commits lose their first one to the wait
    have split : state.unread = pub.1 ::
        (state.published.drop (state.cursor.nextRevision + 1 - 1)).map Prod.fst := by
      unfold unread Revision at *
      rw [drop_eq_getElem_cons inn, (List.getElem?_eq_some_iff.mp hit).2,
        map_cons, Nat.sub_add_cancel pos, Nat.add_sub_cancel]
    refine obtain_complete complete.records complete.first ?_ ?_ ?_ complete.restored
    · exact past.trans (Nat.le_succ _)
    · unfold Revision at *
      dsimp only
      omega
    · refine Eq.trans ?_ all
      rw [split]
      simp [late, unread]

/-- Unless it drops a replay, a transition loses nothing. -/
theorem Complete.step (retains : state.Retains) {estimateCommitBytes : CommitResult → Nat}
    {ev : WaitEvent} (hold : state.dropsReplay ev = false) {state' : WaitState}
    (stepped : state.step estimateCommitBytes ev = some state') :
    state'.Complete start := by
  cases ev with
  | publish com snap =>
    cases stepped
    exact complete.publish estimateCommitBytes com snap
  | update =>
    cases call : state.call with
    | idle =>
      simp only [WaitState.step, call, some.injEq] at stepped
      subst stepped
      exact complete.wait (by rw [call]; rfl)
    | _ => simp [WaitState.step, call] at stepped
  | becomeReady ans =>
    cases call : state.call with
    | idle =>
      -- the call begins with the last commit and nothing to replay
      have begun : ({ state with call := .checking ⟨state.lastCommit, []⟩ } :
          WaitState).Complete start := by
        refine ⟨complete.records, complete.first, complete.passed, complete.behind, ?_,
          nofun, ?_, complete.restored⟩
        · refine Eq.trans ?_ complete.all
          simp [replaying, call, WaitCall.caller, unread]
        · rintro _ ⟨⟩ -
          rfl
      have cls : (WaitCall.checking ⟨state.lastCommit, []⟩).caller =
          some ⟨state.lastCommit, []⟩ := rfl
      have left := begun.leave cls rfl
      cases ans <;> simp only [WaitState.step, call, some.injEq] at stepped <;>
        subst stepped
      · exact left
      · exact begun
      · exact left
    | _ => simp [WaitState.step, call] at stepped
  | check ans =>
    cases call : state.call with
    | checking caller =>
      have cls : state.call.caller = some caller := by rw [call]; rfl
      cases ans <;> simp only [WaitState.step, call, some.injEq] at stepped <;>
        subst stepped
      · exact complete.putBack cls
      · exact complete.wait cls
      · refine complete.leave cls ?_
        simpa [dropsReplay, call] using hold
    | _ => simp [WaitState.step, call] at stepped
  | read =>
    cases call : state.call with
    | reading caller => exact complete.read retains call stepped
    | _ => simp [WaitState.step, call] at stepped
  | progress out =>
    cases call : state.call with
    | progressing caller =>
      have late : state.deferredCommits = [] := complete.drained (by rw [call]; rfl)
      have cls : state.call.caller = caller := by rw [call]; rfl
      -- a call that stays where it is, or a wait of the caller that ends with nothing
      have move (call' : WaitCall) (same : call'.caller = caller) :
          ({ state with call := call' } : WaitState).Complete start := by
        refine ⟨complete.records, complete.first, complete.passed, complete.behind, ?_,
          fun _ => late, ?_, complete.restored⟩
        · refine Eq.trans ?_ complete.all
          simp [replaying, same, cls, unread]
        · intro seen mem
          exact complete.untouched seen (by rw [cls, ← same]; exact mem)
      cases caller with
      | none =>
        cases out <;> simp only [WaitState.step, call, some.injEq] at stepped <;>
          subst stepped
        · exact move (.reading none) rfl
        · exact move .idle rfl
        · exact move .idle rfl
      | some caller =>
        cases out <;> simp only [WaitState.step, call, some.injEq] at stepped <;>
          subst stepped
        · exact move (.reading (some caller)) rfl
        · exact complete.putBack cls
        · refine complete.leave cls ?_
          simpa [dropsReplay, call] using hold
    | _ => simp [WaitState.step, call] at stepped

end

end Transitions

/-! ## Runs -/

/-- A transition of a run whose log retains what the cursor has not read, and in which no
readiness call fails after it has consumed a commit. -/
def Keeping (estimateCommitBytes : CommitResult → Nat) (state state' : WaitState) : Prop :=
  ∃ event, state.Retains ∧ state.dropsReplay event = false ∧
    state.step estimateCommitBytes event = some state'

theorem run_complete {estimateCommitBytes : CommitResult → Nat} {start : Revision}
    {state state' : WaitState} (complete : state.Complete start)
    (run : Relation.ReflTransGen (Keeping estimateCommitBytes) state state') :
    state'.Complete start := by
  induction run with
  | refl => exact complete
  | tail _ last ih =>
    obtain ⟨ev, retains, hold, stepped⟩ := last
    exact ih.step retains hold stepped

/-- What is handed out is numbered from the first revision on. -/
theorem Complete.handed_revision {start : Revision} {state : WaitState}
    (complete : state.Complete start) {idx : Nat} {com : CommitResult}
    (hit : state.handed[idx]? = some com) : com.revision = start + idx := by
  obtain ⟨trim, recs⟩ := complete.records
  have nums := recs.numbered.drop (start - 1)
  have mem := (List.getElem?_eq_some_iff.mp hit).1
  have at_ : ((state.published.drop (start - 1)).map Prod.fst)[idx]? = some com := by
    rw [← complete.all, append_assoc, append_assoc, getElem?_append_left mem, hit]
  rw [getElem?_map] at at_
  obtain ⟨pub, got, same⟩ := map_eq_some_iff.mp at_
  have cnt := nums.getElem? got
  have hd := complete.first
  unfold Revision at *
  rw [← same, cnt]
  omega

section

variable (estimateCommitBytes : CommitResult → Nat) {start : Revision} {state : WaitState}
  (complete : state.Complete start) (retains : state.Retains) (idle : state.call = .idle)

include estimateCommitBytes complete retains idle

/-- The next commit that is not handed out yet is handed out by one more `wait_update`. -/
theorem Complete.deliver {com : CommitResult} {rest : List CommitResult}
    (pend : state.deferredCommits ++ state.unread = com :: rest) :
    ∃ state', Relation.ReflTransGen (Keeping estimateCommitBytes) state state' ∧
      state'.Retains ∧ state'.call = .idle ∧ state'.published = state.published ∧
      state'.deferredCommits ++ state'.unread = rest := by
  have upd : Keeping estimateCommitBytes state (state.wait none) :=
    ⟨.update, retains, rfl, by simp [WaitState.step, idle]⟩
  cases late : state.deferredCommits with
  | cons hd alts =>
    rw [late] at pend
    cases pend
    refine ⟨state.wait none, .single upd, ?_, ?_, ?_, ?_⟩ <;> rw [WaitState.wait, late]
    · exact retains
    · rfl
    · rfl
    · rfl
  | nil =>
    rw [late, nil_append] at pend
    have waits : state.wait none = { state with call := .reading none } := by
      rw [WaitState.wait, late]
    rw [waits] at upd
    obtain ⟨trim, recs⟩ := complete.records
    have pos : 1 ≤ state.cursor.nextRevision := complete.first.trans complete.passed
    have next := CommitLog.next_retained recs pos retains
    cases hit : state.published[state.cursor.nextRevision - 1]? with
    | none =>
      rw [getElem?_eq_none_iff] at hit
      rw [unread, drop_eq_nil_of_le hit] at pend
      cases pend
    | some pub =>
      rw [hit] at next
      have inn := (List.getElem?_eq_some_iff.mp hit).1
      unfold unread at pend
      rw [drop_eq_getElem_cons inn, (List.getElem?_eq_some_iff.mp hit).2, map_cons] at pend
      obtain ⟨rfl, rfl⟩ := List.cons.inj pend
      let cur : UpdateCursor := { state.cursor with nextRevision := state.cursor.nextRevision + 1 }
      have read : Keeping estimateCommitBytes { state with call := .reading none }
          ({ state with cursor := cur, call := .reading none }.obtain pub.1 none) :=
        ⟨.read, retains, rfl, by simp only [WaitState.step, next, cur]⟩
      refine ⟨_, .tail (.single upd) read, ?_, rfl, rfl, ?_⟩
      · intro published mem ahead
        exact retains published mem ((Nat.le_succ _).trans ahead)
      · simp only [obtain, late, nil_append, unread, cur]
        congr 2
        unfold Revision at *
        omega

/-- Once no call runs, more calls of `wait_update` hand out everything that is pending. -/
theorem Complete.drain :
    ∃ state', Relation.ReflTransGen (Keeping estimateCommitBytes) state state' ∧
      state'.published = state.published ∧
      state'.handed = (state.published.drop (start - 1)).map Prod.fst := by
  generalize pending : state.deferredCommits ++ state.unread = commits
  induction commits generalizing state with
  | nil =>
    refine ⟨state, .refl, rfl, ?_⟩
    rw [← complete.all, append_assoc, pending]
    simp [replaying, idle, WaitCall.caller]
  | cons com rest ih =>
    obtain ⟨state', run, retains', idle', same, pending'⟩ :=
      complete.deliver estimateCommitBytes retains idle pending
    obtain ⟨state'', run', same', handed⟩ := ih (run_complete complete run) retains' idle' pending'
    exact ⟨state'', run.trans run', same'.trans same, same ▸ handed⟩

end

/-- The wait facade loses no update in a run in which the log retains what is unread and no
readiness call fails after it has consumed a commit.  What was handed out, what a running
readiness call holds, what is deferred and what is unread are together the published commits
from the cursor's first revision on; the handed commits carry consecutive revisions; every
readiness call that returned left the last commit as it was; and between calls the caller can
still obtain everything. -/
theorem loses_no_update {log : CommitLog} {published : List Publication} {trimmed : Nat}
    (records : log.Records published trimmed) {start : Revision} (first : 1 ≤ start)
    (behind : start ≤ published.length + 1) {estimateCommitBytes : CommitResult → Nat}
    {state : WaitState}
    (run : Relation.ReflTransGen (Keeping estimateCommitBytes) (new log published start) state) :
    state.handed ++ state.replaying ++ state.deferredCommits ++ state.unread =
        (state.published.drop (start - 1)).map Prod.fst ∧
      (∀ index commit, state.handed[index]? = some commit → commit.revision = start + index) ∧
      (∀ returned ∈ state.returns, returned.1 = returned.2) ∧
      (state.Retains → state.call = .idle →
        ∃ state', Relation.ReflTransGen (Keeping estimateCommitBytes) state state' ∧
          state'.published = state.published ∧
          state'.handed = (state.published.drop (start - 1)).map Prod.fst) := by
  have complete := run_complete (new_complete records first behind) run
  refine ⟨complete.all, ?_, complete.restored, ?_⟩
  · intro index commit hit
    exact complete.handed_revision hit
  · intro retains idle
    exact complete.drain estimateCommitBytes retains idle

/-! ### A call that gives up and one that fails -/

instance (state : WaitState) : Decidable state.Retains := by
  unfold Retains
  infer_instance

/-- The run of a list of events, as long as the log retains what is unread. -/
def runEvents (estimateCommitBytes : CommitResult → Nat) (state : WaitState) :
    List WaitEvent → Option WaitState
  | [] => some state
  | event :: events =>
    if state.Retains then
      match state.step estimateCommitBytes event with
      | none => none
      | some state' => runEvents estimateCommitBytes state' events
    else none

/-- Some readiness call of the run fails after it has consumed a commit. -/
def dropsSome (estimateCommitBytes : CommitResult → Nat) (state : WaitState) :
    List WaitEvent → Bool
  | [] => false
  | event :: events =>
    state.dropsReplay event ||
      match state.step estimateCommitBytes event with
      | none => false
      | some state' => dropsSome estimateCommitBytes state' events

theorem runEvents_keeping {estimateCommitBytes : CommitResult → Nat} {evs : List WaitEvent}
    {state state' : WaitState} (ran : state.runEvents estimateCommitBytes evs = some state')
    (hold : state.dropsSome estimateCommitBytes evs = false) :
    Relation.ReflTransGen (Keeping estimateCommitBytes) state state' := by
  induction evs generalizing state with
  | nil =>
    cases ran
    exact .refl
  | cons ev evs ih =>
    rw [runEvents] at ran
    rw [dropsSome, Bool.or_eq_false_iff] at hold
    split at ran
    · rename_i retains
      cases stepped : state.step estimateCommitBytes ev with
      | none =>
        rw [stepped] at ran
        cases ran
      | some mid =>
        rw [stepped] at ran hold
        exact .head ⟨ev, retains, hold.1, stepped⟩ (ih ran hold.2)
    · cases ran

def firstCommit : CommitResult := ⟨1, [], .empty, [], .realtimeUpdate⟩

def emptySnapshot : StateSnapshot := ⟨1, fun _ => .null, []⟩

def firstLog : CommitLog := .withLimits (.new 8 1000)

/-- A readiness call that consumes a commit and meets its deadline, and a `wait_update`. -/
def deadlineRun : List WaitEvent :=
  [.becomeReady .notReady, .check .notReady, .publish firstCommit emptySnapshot, .read,
    .check .notReady, .read, .progress .idle, .update]

theorem loses_no_update_deadlineRun :
    ∃ state, (new firstLog [] 1).runEvents (fun _ => 1) deadlineRun = some state ∧
      state.handed = [firstCommit] ∧ state.returns = [(none, none)] ∧
        state.handed ++ state.replaying ++ state.deferredCommits ++ state.unread =
          (state.published.drop 0).map Prod.fst := by
  have hold : (new firstLog [] 1).dropsSome (fun _ => 1) deadlineRun = false := by decide
  have shown : ((new firstLog [] 1).runEvents (fun _ => 1) deadlineRun).map
      (fun state => (state.handed, state.returns)) = some ([firstCommit], [(none, none)]) := by
    decide
  obtain ⟨state, ran, shown⟩ := map_eq_some_iff.mp shown
  rw [Prod.mk.injEq] at shown
  have complete := loses_no_update (CommitLog.withLimits_records _) (le_refl 1) (by decide)
    (runEvents_keeping ran hold)
  exact ⟨state, ran, shown.1, shown.2, complete.1⟩

/-- A readiness call that consumes a commit and fails. -/
def failedRun : List WaitEvent :=
  [.becomeReady .notReady, .check .notReady, .publish firstCommit emptySnapshot, .read,
    .check .failed]

/-- The commit that a rejected login has consumed reaches nobody, and it stays the last
commit. -/
theorem failedRun_loses_update :
    ∃ state, (new firstLog [] 1).runEvents (fun _ => 1) failedRun = some state ∧
      state.published.map Prod.fst = [firstCommit] ∧
      state.handed ++ state.replaying ++ state.deferredCommits ++ state.unread = [] ∧
      state.returns = [(none, some firstCommit)] := by
  have shown : ((new firstLog [] 1).runEvents (fun _ => 1) failedRun).map (fun state =>
      (state.published.map Prod.fst,
        state.handed ++ state.replaying ++ state.deferredCommits ++ state.unread,
        state.returns)) =
      some ([firstCommit], [], [(none, some firstCommit)]) := by
    decide
  obtain ⟨state, ran, shown⟩ := map_eq_some_iff.mp shown
  simp only [Prod.mk.injEq] at shown
  exact ⟨state, ran, shown⟩

end WaitState

end Tqsdk
