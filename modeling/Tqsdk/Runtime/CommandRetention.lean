import Mathlib.Data.Finset.Card
import Tqsdk.Runtime.CommandLedger

/-!
# Finished commands are retained in order

A run of submissions and recorded statuses.  The two queues of the ledger are windows on the
commands in the order in which they finished, their sets mirror them, and the state tree shows a
terminal status for exactly the retained ones.
-/

namespace Tqsdk

open List

namespace CommandLedger

/-- The last `limit` of the finished commands are retained, and of those before them the last
`limit` are remembered. -/
structure Windows (ledger : CommandLedger) (limit : Nat) (finished : List CommandId) : Prop where
  positive : 0 < limit
  maxRetained : ledger.maxRetainedTerminalCommands = limit
  maxEvicted : ledger.maxEvictedTerminalCommands = limit
  retained : ledger.retainedTerminalCommands = finished.drop (finished.length - limit)
  evicted : ledger.evictedTerminalCommands =
    (finished.take (finished.length - limit)).drop (finished.length - limit - limit)
  retainedSet : ledger.retainedTerminalSet = ledger.retainedTerminalCommands.toFinset
  evictedSet : ledger.evictedTerminalSet = ledger.evictedTerminalCommands.toFinset
  distinct : finished.Nodup

theorem expireEvicted_eq (limit : Nat) {cmds : List CommandId} (nd : cmds.Nodup) :
    expireEvicted limit cmds cmds.toFinset =
      (cmds.drop (cmds.length - limit),
        (cmds.drop (cmds.length - limit)).toFinset) := by
  induction cmds with
  | nil => simp [expireEvicted]
  | cons cid rest ih =>
    rw [expireEvicted]
    split
    · rename_i long
      have hd : cid ∉ rest.toFinset := fun mem =>
        (nodup_cons.mp nd).1 (mem_toFinset.mp mem)
      have dropped : (cid :: rest).length - limit = rest.length - limit + 1 := by
        rw [length_cons] at long ⊢
        omega
      rw [toFinset_cons, Finset.erase_insert hd, ih nd.of_cons, dropped, drop_succ_cons]
    · rename_i few
      rw [Nat.sub_eq_zero_of_le (Nat.not_lt.mp few), drop_zero]

theorem evict_head (ledger : CommandLedger) {oldest : CommandId} {rest : List CommandId}
    (held : ledger.retainedTerminalCommands = oldest :: rest)
    (unknown : oldest ∉ ledger.evictedTerminalSet) :
    ledger.evict (some oldest) =
      { ledger with
        retainedTerminalCommands := rest
        retainedTerminalSet := ledger.retainedTerminalSet.erase oldest
        evictedTerminalCommands := (expireEvicted ledger.maxEvictedTerminalCommands
          (ledger.evictedTerminalCommands ++ [oldest])
          (insert oldest ledger.evictedTerminalSet)).1
        evictedTerminalSet := (expireEvicted ledger.maxEvictedTerminalCommands
          (ledger.evictedTerminalCommands ++ [oldest])
          (insert oldest ledger.evictedTerminalSet)).2 } := by
  simp [evict, recordEvictedTerminal, held, unknown]

theorem commitTerminal_fresh (ledger : CommandLedger) {cid : CommandId}
    (unseen : ¬ (cid ∈ ledger.retainedTerminalSet ∨ cid ∈ ledger.evictedTerminalSet))
    (gone : Option CommandId) :
    ledger.commitTerminal cid gone =
      { (ledger.release cid).evict gone with
        retainedTerminalCommands :=
          ((ledger.release cid).evict gone).retainedTerminalCommands ++ [cid]
        retainedTerminalSet := insert cid ((ledger.release cid).evict gone).retainedTerminalSet } :=
  if_neg unseen

section

variable {ledger : CommandLedger} {limit : Nat} {finished : List CommandId}
  (wnds : ledger.Windows limit finished)

include wnds

theorem Windows.finished_of_retained {cid : CommandId}
    (mem : cid ∈ ledger.retainedTerminalSet) : cid ∈ finished := by
  rw [wnds.retainedSet, mem_toFinset, wnds.retained] at mem
  exact mem_of_mem_drop mem

theorem Windows.finished_of_evicted {cid : CommandId}
    (mem : cid ∈ ledger.evictedTerminalSet) : cid ∈ finished := by
  rw [wnds.evictedSet, mem_toFinset, wnds.evicted] at mem
  exact mem_of_mem_take (mem_of_mem_drop mem)

/-- A command that finishes moves both windows by one, once the first is full. -/
theorem Windows.commitTerminal {cid : CommandId} (new : cid ∉ finished) :
    (ledger.commitTerminal cid (ledger.pendingTerminalEviction cid)).Windows limit
        (finished ++ [cid]) ∧
      ∀ alt, alt ∈ (ledger.commitTerminal cid
          (ledger.pendingTerminalEviction cid)).retainedTerminalCommands ↔
        alt = cid ∨ alt ∈ ledger.retainedTerminalCommands ∧
          alt ∉ ledger.pendingTerminalEviction cid := by
  have unseen : ¬ (cid ∈ ledger.retainedTerminalSet ∨
      cid ∈ ledger.evictedTerminalSet) := by
    rintro (member | member)
    · exact new (wnds.finished_of_retained member)
    · exact new (wnds.finished_of_evicted member)
  have nd : (finished ++ [cid]).Nodup :=
    nodup_append.mpr ⟨wnds.distinct, nodup_singleton _, fun alt member last isLast
      same => new (mem_singleton.mp isLast ▸ same ▸ member)⟩
  have len : ledger.retainedTerminalCommands.length = min finished.length limit := by
    rw [wnds.retained, length_drop]
    omega
  have extended : insert cid ledger.retainedTerminalSet =
      (ledger.retainedTerminalCommands ++ [cid]).toFinset := by
    rw [wnds.retainedSet]
    ext alt
    simp
  rw [commitTerminal_fresh ledger unseen, pendingTerminalEviction, if_neg unseen,
    wnds.maxRetained, len]
  by_cases full : limit ≤ finished.length
  · rw [if_pos (le_min full (Nat.le_refl _))]
    obtain ⟨oldest, rest, held⟩ : ∃ oldest rest,
        ledger.retainedTerminalCommands = oldest :: rest := by
      refine exists_cons_of_length_pos ?_
      rw [len]
      exact lt_min (Nat.lt_of_lt_of_le wnds.positive full) wnds.positive
    generalize fst : finished.take (finished.length - limit) = older
    have all : finished = older ++ oldest :: rest := by
      rw [← fst, ← held, wnds.retained, take_append_drop]
    have n : older.length = finished.length - limit := by
      rw [← fst, length_take]
      omega
    have isDistinct := wnds.distinct
    rw [all] at isDistinct
    have older_ne : oldest ∉ older := fun member =>
      (nodup_append.mp isDistinct).2.2 _ member _ mem_cons_self rfl
    have rest_ne : oldest ∉ rest := (nodup_cons.mp (nodup_append.mp isDistinct).2.1).1
    have gone : ledger.evictedTerminalCommands = older.drop (older.length - limit) := by
      rw [wnds.evicted, fst, n]
    have miss : oldest ∉ ledger.evictedTerminalSet := by
      rw [wnds.evictedSet, mem_toFinset, gone]
      exact fun member => older_ne (mem_of_mem_drop member)
    have remembered : insert oldest ledger.evictedTerminalSet =
        (ledger.evictedTerminalCommands ++ [oldest]).toFinset := by
      rw [wnds.evictedSet]
      ext alt
      simp
    have join : ledger.evictedTerminalCommands ++ [oldest] =
        (older ++ [oldest]).drop (older.length - limit) := by
      rw [gone, drop_append_of_le_length (Nat.sub_le _ _)]
    have sep : (ledger.evictedTerminalCommands ++ [oldest]).Nodup := by
      rw [join]
      refine List.Nodup.sublist (drop_sublist _ _) ?_
      exact List.Nodup.sublist (List.Sublist.append_left
        (singleton_sublist.mpr mem_cons_self) older) isDistinct
    rw [held, head?_cons, evict_head (ledger.release cid) held miss]
    dsimp only [release]
    rw [remembered, wnds.maxEvicted, expireEvicted_eq limit sep]
    dsimp only
    have shifted : (finished ++ [cid]).length - limit = (older ++ [oldest]).length := by
      rw [length_append, length_append, n, length_singleton,
        length_singleton, Nat.sub_add_comm full]
    have regrouped : finished ++ [cid] = (older ++ [oldest]) ++ (rest ++ [cid]) := by
      rw [all, append_assoc, append_assoc, singleton_append, cons_append]
    refine ⟨⟨wnds.positive, wnds.maxRetained, rfl, ?_, ?_, ?_, rfl, nd⟩, fun alt => ?_⟩
    · rw [shifted, regrouped, drop_left]
    · rw [shifted, regrouped, take_left, join, drop_drop, length_drop]
      refine congrArg (drop · (older ++ [oldest])) ?_
      rw [length_append, length_singleton]
      omega
    · rw [wnds.retainedSet, held, toFinset_cons,
        Finset.erase_insert (mt mem_toFinset.mp rest_ne)]
      ext alt
      simp
    · rw [mem_append, mem_singleton, mem_cons, Option.mem_some_iff]
      constructor
      · rintro (inRest | rfl)
        · exact .inr ⟨.inr inRest, fun same => rest_ne (same ▸ inRest)⟩
        · exact .inl rfl
      · rintro (rfl | ⟨rfl | inRest, sep⟩)
        · exact .inr rfl
        · exact absurd rfl sep
        · exact .inl inRest
  · have few : finished.length - limit = 0 := Nat.sub_eq_zero_of_le (Nat.le_of_not_le full)
    have all : (finished ++ [cid]).length - limit = 0 := by
      rw [length_append, length_singleton]
      omega
    have none_evicted : ledger.evictedTerminalCommands = [] := by
      rw [wnds.evicted, few, take_zero, drop_nil]
    rw [if_neg (fun fits => full (le_min_iff.mp fits).1)]
    dsimp only [release, evict]
    refine ⟨⟨wnds.positive, wnds.maxRetained, wnds.maxEvicted, ?_, ?_, extended,
      wnds.evictedSet, nd⟩, fun alt => ?_⟩
    · rw [all, drop_zero]
      rw [wnds.retained, few, drop_zero]
    · rw [all, take_zero, drop_nil, none_evicted]
    · simp [or_comm]

end

end CommandLedger

/-! ## Runs -/

inductive CommandStep
  | submit (domain : ProtocolDomain) (detailSeed : Fields)
  | record (commandId : CommandId) (status : CommandStatus) (detail : Option Value)
      (scope : CommitScope)

/-- The records, the commits that the runtime published, and the commands in the order in which a
terminal status of them was recorded. -/
structure CommandRun where
  records : CommandRecords
  commits : List CommitResult := []
  finished : List CommandId := []

namespace CommandRun

def step (run : CommandRun) : CommandStep → CommandRun
  | .submit domain detailSeed =>
    { run with records.ledger := (run.records.ledger.allocate domain detailSeed).2 }
  | .record commandId status detail scope =>
    match run.records.recordCommandStatus commandId status detail scope with
    | .ok (records, some commit) =>
      ⟨records, run.commits ++ [commit],
        if status.isTerminal then run.finished ++ [commandId] else run.finished⟩
    | .ok (records, none) => { run with records := records }
    | .error _ => run

def run (maxRetained : Nat) (revision : Revision) (steps : List CommandStep) : CommandRun :=
  steps.foldl step ⟨⟨.withRetention maxRetained, .new revision⟩, [], []⟩

/-- The tree shows a terminal status of the command. -/
def ShowsTerminal (run : CommandRun) (commandId : CommandId) : Prop :=
  ∃ status : CommandStatus, status.isTerminal = true ∧
    run.records.store.commandStatus commandId = some (.string status.asStr)

/-- What a step does to the status of a command in the tree: nothing; it prunes a command that
has finished; or it writes a status that may follow the last one of a command that has not. -/
def Advances (run next : CommandRun) (commandId : CommandId) : Prop :=
  next.records.store.commandStatus commandId = run.records.store.commandStatus commandId ∨
  (commandId ∈ run.finished ∧ next.records.store.commandStatus commandId = none) ∨
  ∃ current status : CommandStatus, commandId ∉ run.finished ∧ current.isTerminal = false ∧
    validateCommandStatusTransition commandId (some current) status = .ok () ∧
    run.records.store.commandStatus commandId =
      (if current = .queued then none else some (.string current.asStr)) ∧
    next.records.store.commandStatus commandId = some (.string status.asStr)

structure Kept (run : CommandRun) (limit : Nat) : Prop where
  consistent : run.records.Consistent
  windows : run.records.ledger.Windows limit run.finished
  done : ∀ commandId ∈ run.finished, run.records.ledger.domain commandId = none ∧
    commandId < run.records.ledger.nextCommandId
  shown : ∀ commandId,
    run.ShowsTerminal commandId ↔ commandId ∈ run.records.ledger.retainedTerminalCommands

variable {run : CommandRun} {limit : Nat}

theorem Kept.submit (kept : run.Kept limit) (dom : ProtocolDomain) (detailSeed : Fields) :
    (run.step (.submit dom detailSeed)).Kept limit where
  consistent := kept.consistent.allocate dom detailSeed
  windows := ⟨kept.windows.positive, kept.windows.maxRetained, kept.windows.maxEvicted,
    kept.windows.retained, kept.windows.evicted, kept.windows.retainedSet,
    kept.windows.evictedSet, kept.windows.distinct⟩
  done cid member := by
    obtain ⟨miss, gave⟩ := kept.done cid member
    exact ⟨(CommandLedger.domain_allocate _ _ _ _).trans ((if_neg gave.ne).trans miss),
      Nat.lt_succ_of_lt gave⟩
  shown := kept.shown

/-- A status of a command that the ledger knows is recorded. -/
theorem Kept.recorded (kept : run.Kept limit) {cid : CommandId} {cur status : CommandStatus}
    (known : run.records.ledger.status cid = some cur) (mvs : cur.canMoveTo status = true)
    {sto : StateStore} {evicted : Option CommandId}
    (eviction : (if status.isTerminal then run.records.ledger.pendingTerminalEviction cid
      else none) = evicted) (note : StatusRecorded run.records.store sto cid status evicted)
    (gone : ∀ alt ∈ evicted, run.records.ledger.domain alt = none ∧
      alt < run.records.ledger.nextCommandId) (commits : List CommitResult) :
    Kept ⟨⟨if status.isTerminal then run.records.ledger.commitTerminal cid evicted
        else run.records.ledger.updateStatus cid status, sto⟩, commits,
      if status.isTerminal then run.finished ++ [cid] else run.finished⟩ limit := by
  have move := kept.consistent.moved known mvs note gone
  have seen : run.records.ledger.domain cid ≠ none := by
    rw [Ne, ← kept.consistent.statuses, known]
    exact nofun
  have fresh : cid ∉ run.finished := fun mem => seen (kept.done _ mem).1
  have done : ∀ alt ∈ run.finished,
      (if status.isTerminal then run.records.ledger.commitTerminal cid evicted
        else run.records.ledger.updateStatus cid status).domain alt = none ∧
      alt < (if status.isTerminal then run.records.ledger.commitTerminal cid evicted
        else run.records.ledger.updateStatus cid status).nextCommandId := by
    intro alt mem
    obtain ⟨miss, gave⟩ := kept.done alt mem
    refine ⟨(move.domain alt).trans ?_, move.next.symm ▸ gave⟩
    split
    · rfl
    · exact miss
  have alts {alt : CommandId} (ne : alt ≠ cid) (stays : alt ∉ evicted) :
      (∃ status : CommandStatus, status.isTerminal = true ∧
        sto.commandStatus alt = some (.string status.asStr)) ↔
      alt ∈ run.records.ledger.retainedTerminalCommands := by
    rw [note.others alt ne stays]
    exact kept.shown alt
  cases final : status.isTerminal with
  | true =>
    rw [final] at move done
    rw [final, if_pos rfl] at eviction
    subst eviction
    obtain ⟨wnds, retained⟩ := kept.windows.commitTerminal fresh
    refine ⟨move.consistent, wnds, fun alt mem => ?_, fun alt => ?_⟩
    · rcases mem_append.mp mem with old | new
      · exact done alt old
      · obtain rfl := mem_singleton.mp new
        exact ⟨(move.domain alt).trans (if_pos ⟨rfl, final⟩),
          move.next.symm ▸ kept.consistent.issued alt seen⟩
    · refine Iff.trans ?_ (retained alt).symm
      by_cases here : alt = cid
      · subst here
        exact ⟨fun _ => .inl rfl, fun _ => ⟨status, final, note.here⟩⟩
      · by_cases out : alt ∈ run.records.ledger.pendingTerminalEviction cid
        · refine iff_of_false ?_ ?_
          · rintro ⟨status, -, shows⟩
            cases (note.gone alt out).symm.trans shows
          · rintro (same | ⟨-, stays⟩)
            · exact here same
            · exact stays out
        · refine (alts here out).trans ⟨fun old => .inr ⟨old, out⟩, ?_⟩
          rintro (same | ⟨old, -⟩)
          · exact absurd same here
          · exact old
  | false =>
    rw [final] at move done
    rw [final, if_neg Bool.false_ne_true] at eviction
    subst eviction
    obtain ⟨-, -, retained⟩ := run.records.ledger.updateStatus_maps cid status
    refine ⟨move.consistent, ?_, done, fun alt => ?_⟩
    · rw [if_neg Bool.false_ne_true, if_neg Bool.false_ne_true]
      unfold CommandLedger.updateStatus
      split
      · exact ⟨kept.windows.positive, kept.windows.maxRetained, kept.windows.maxEvicted,
          kept.windows.retained, kept.windows.evicted, kept.windows.retainedSet,
          kept.windows.evictedSet, kept.windows.distinct⟩
      · exact kept.windows
    · refine Iff.trans ?_ (Eq.to_iff (congrArg (alt ∈ ·) retained.symm))
      by_cases here : alt = cid
      · subst here
        refine iff_of_false ?_ fun mem => seen (kept.consistent.retained alt mem).1
        rintro ⟨status', final', shows⟩
        have same := CommandStatus.asStr_injective
          (Value.string.inj (Option.some.inj (note.here.symm.trans shows)))
        rw [same, final'] at final
        cases final
      · exact alts here nofun

/-- What a recording does to a run: nothing, or it commits. -/
theorem Kept.record (kept : run.Kept limit) (cid : CommandId) (stat : CommandStatus)
    (det : Option Value) (sc : CommitScope) :
    run.step (.record cid stat det sc) = run ∨
      cid ∉ run.finished ∧
      (run.step (.record cid stat det sc)).Kept limit ∧
      ∀ alt, run.Advances (run.step (.record cid stat det sc)) alt := by
  cases ans : run.records.recordCommandStatus cid stat det sc with
  | error error =>
    rw [step, ans]
    exact .inl rfl
  | ok res =>
    obtain ⟨recs, com⟩ := res
    rcases kept.consistent.record_moves ans with ⟨rfl, rfl⟩ | ⟨cur, seen, mvs⟩
    · rw [step, ans]
      exact .inl rfl
    · obtain ⟨sto, res, evicted, comd, put, gone, eviction⟩ :=
        kept.consistent.record_committed seen mvs det sc
      rw [step, comd]
      obtain ⟨notFinal, shows⟩ := kept.consistent.open_ cid cur seen
      have new : cid ∉ run.finished := by
        intro mem
        have miss := (kept.consistent.statuses cid).mpr (kept.done cid mem).1
        rw [miss] at seen
        cases seen
      refine .inr ⟨new, kept.recorded seen mvs eviction put gone _, fun alt => ?_⟩
      by_cases here : alt = cid
      · subst here
        exact .inr (.inr ⟨cur, stat, new, notFinal, if_pos mvs, shows, put.here⟩)
      · by_cases out : alt ∈ evicted
        · refine .inr (.inl ⟨kept.windows.finished_of_retained ?_, put.gone alt out⟩)
          rw [kept.windows.retainedSet, mem_toFinset]
          rw [← eviction] at out
          split at out
          · exact CommandLedger.pendingTerminalEviction_mem out
          · cases out
        · exact .inl (put.others alt here out)

theorem run_kept (maxRetained : Nat) (rev : Revision) (steps : List CommandStep) :
    (CommandRun.run maxRetained rev steps).Kept (max maxRetained 1) := by
  induction steps using reverseRecOn with
  | nil =>
    refine ⟨CommandRecords.withRetention_consistent maxRetained rev, ⟨?_, rfl, rfl,
      drop_nil.symm, ?_, rfl, rfl, nodup_nil⟩, nofun, fun cid => iff_of_false ?_ not_mem_nil⟩
    · exact Nat.lt_of_lt_of_le Nat.zero_lt_one (Nat.le_max_right _ _)
    · exact drop_nil.symm.trans (congrArg _ take_nil.symm)
    · rintro ⟨stat, -, shows⟩
      cases shows
  | append_singleton steps last ih =>
    unfold CommandRun.run at ih ⊢
    rw [foldl_concat]
    cases last with
    | submit dom detailSeed => exact ih.submit dom detailSeed
    | record cid stat det sc =>
      rcases ih.record cid stat det sc with same | ⟨-, kept, -⟩
      · rw [same]
        exact ih
      · exact kept

/-- In every run a status in the tree only moves to one that may follow it and a terminal one is
only pruned; the commands that show a terminal status are the retained ones, which are the last
that finished; a command that the ledger knows is neither retained nor evicted; and recording any
status of one that is changes nothing. -/
theorem run_retains (maxRetained : Nat) (revision : Revision) (steps : List CommandStep) :
    let run := CommandRun.run maxRetained revision steps
    let limit := max maxRetained 1
    (∀ step cid, run.Advances (run.step step) cid) ∧
    ((∀ cid,
        run.ShowsTerminal cid ↔ cid ∈ run.records.ledger.retainedTerminalSet) ∧
      run.records.ledger.retainedTerminalSet.card ≤ limit ∧
      run.records.ledger.retainedTerminalSet =
        (run.finished.drop (run.finished.length - limit)).toFinset) ∧
    (∀ cid, run.records.ledger.domain cid ≠ none →
      cid ∉ run.records.ledger.retainedTerminalSet ∧
        cid ∉ run.records.ledger.evictedTerminalSet) ∧
    ∀ cid, cid ∈ run.records.ledger.retainedTerminalSet ∨
        cid ∈ run.records.ledger.evictedTerminalSet →
      ∀ stat det sc, run.step (.record cid stat det sc) = run := by
  intro run limit
  have kept : run.Kept limit := run_kept maxRetained revision steps
  have retained : run.records.ledger.retainedTerminalSet =
      (run.finished.drop (run.finished.length - limit)).toFinset := by
    rw [kept.windows.retainedSet, kept.windows.retained]
  refine ⟨fun step cid => ?_, ⟨fun cid => ?_, ?_, retained⟩,
    fun cid seen => ⟨fun mem => ?_, fun mem => ?_⟩,
    fun cid held stat det sc => ?_⟩
  · cases step with
    | submit dom detailSeed => exact .inl rfl
    | record note stat det sc =>
      rcases kept.record note stat det sc with same | ⟨-, -, adv⟩
      · rw [same]
        exact .inl rfl
      · exact adv cid
  · rw [kept.windows.retainedSet, mem_toFinset]
    exact kept.shown cid
  · rw [retained]
    refine (toFinset_card_le _).trans ?_
    rw [length_drop]
    omega
  · exact seen (kept.done cid (kept.windows.finished_of_retained mem)).1
  · exact seen (kept.done cid (kept.windows.finished_of_evicted mem)).1
  · have finished : cid ∈ run.finished :=
      held.elim kept.windows.finished_of_retained kept.windows.finished_of_evicted
    exact (kept.record cid stat det sc).resolve_right fun move => move.1 finished

end CommandRun

end Tqsdk
