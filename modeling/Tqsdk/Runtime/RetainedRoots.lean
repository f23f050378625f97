import Mathlib
import Tqsdk.Runtime.CommitLog

/-!
# The bytes of the commit log

The log counts for every snapshot root how many retained entries list it, and accounts its bytes
once, when the first of them arrives, until the last has left.  `Balanced` states this of the
roots that are listed, and every retained and released root keeps it.
-/

namespace Tqsdk

open List Option OrdMap

namespace CommitLog

/-! ## Balanced accounts -/

/-- The accounts when retained entries list these roots, with repetitions, and carry this payload
in all. -/
structure Balanced (listed : List Nat) (payload : Nat) (accounts : Accounts) : Prop where
  sorted : OrdMap.Sorted accounts.1
  counted : ∀ key, (get? key accounts.1).map (·.references) =
    if listed.count key = 0 then none else some (listed.count key)
  bytes : accounts.2 = payload + (accounts.1.map (·.2.bytes)).sum

section Balanced

variable {listed : List Nat} {payload : Nat} {accounts : Accounts}

section

variable (bal : Balanced listed payload accounts)

include bal

theorem Balanced.of_perm {listed' : List Nat} (perm : listed.Perm listed') :
    Balanced listed' payload accounts where
  sorted := bal.sorted
  counted key := perm.count_eq key ▸ bal.counted key
  bytes := bal.bytes

theorem Balanced.absent_iff (key : Nat) :
    get? key accounts.1 = none ↔ key ∉ listed := by
  rw [← count_eq_zero, ← map_eq_none_iff, bal.counted]
  split <;> simp [*]

theorem Balanced.references {key : Nat} {root : RetainedSnapshotRoot}
    (got : get? key accounts.1 = some root) :
    root.references = listed.count key ∧ listed.count key ≠ 0 := by
  have cnt := bal.counted key
  rw [got, map_some] at cnt
  split at cnt
  · cases cnt
  · exact ⟨some.inj cnt, by assumption⟩

end

/-- What a new root adds to the retained bytes. -/
def newBytes (bytesFor : Nat → Option Nat) (roots : List (Nat × RetainedSnapshotRoot))
    (key : Nat) : Nat :=
  if get? key roots = none then (bytesFor key).getD 0 else 0

theorem retainRoot_balanced (bal : Balanced listed payload accounts)
    (bsFor : Nat → Option Nat) (key : Nat) (countable : listed.count key < usizeMax)
    (room : accounts.2 + newBytes bsFor accounts.1 key ≤ usizeMax) :
    Balanced (key :: listed) payload (retainRoot bsFor accounts key) ∧
      (retainRoot bsFor accounts key).2 = accounts.2 + newBytes bsFor accounts.1 key := by
  have count_self : (key :: listed).count key = listed.count key + 1 := count_cons_self
  unfold retainRoot newBytes at *
  cases got : get? key accounts.1 with
  | some root =>
    obtain ⟨references, -⟩ := bal.references got
    have total := sum_insert (fun ent : Nat × RetainedSnapshotRoot => ent.2.bytes)
      key { root with references := saturatingAdd root.references 1 } accounts.1
    rw [got, map_some, getD_some] at total
    dsimp only at total
    refine ⟨⟨bal.sorted.insert _ _, fun alt => ?_, ?_⟩, ?_⟩
    · dsimp only
      rw [get?_insert]
      split
      · rename_i same
        subst same
        rw [count_self, map_some, if_neg (Nat.succ_ne_zero _), references,
          saturatingAdd, Nat.min_eq_left countable]
      · rename_i alt
        rw [count_cons_of_ne (Ne.symm alt), bal.counted]
    · dsimp only
      rw [bal.bytes]
      omega
    · simp
  | none =>
    rw [got, if_pos rfl] at room
    have unl := (count_eq_zero.mpr ((bal.absent_iff key).mp got))
    have total := sum_insert (fun ent : Nat × RetainedSnapshotRoot => ent.2.bytes)
      key ⟨1, (bsFor key).getD 0⟩ accounts.1
    rw [got, map_none, getD_none] at total
    dsimp only at total
    have plus : saturatingAdd accounts.2 ((bsFor key).getD 0) =
        accounts.2 + (bsFor key).getD 0 := Nat.min_eq_left room
    refine ⟨⟨bal.sorted.insert _ _, fun alt => ?_, ?_⟩, ?_⟩
    · dsimp only
      rw [get?_insert]
      split
      · rename_i same
        subst same
        rw [count_self, unl]
        rfl
      · rename_i alt
        rw [count_cons_of_ne (Ne.symm alt), bal.counted]
    · dsimp only
      rw [plus, bal.bytes]
      omega
    · dsimp only
      rw [plus, if_pos rfl]

theorem releaseRoot_balanced {key : Nat} (bal : Balanced (key :: listed) payload accounts) :
    Balanced listed payload (releaseRoot accounts key) := by
  have count_self : (key :: listed).count key = listed.count key + 1 := count_cons_self
  unfold releaseRoot
  cases got : get? key accounts.1 with
  | none => exact absurd mem_cons_self ((bal.absent_iff key).mp got)
  | some root =>
    obtain ⟨references, -⟩ := bal.references got
    rw [count_self] at references
    dsimp only
    rw [references, Nat.add_sub_cancel]
    split
    · rename_i last
      have total := ((perm_erase bal.sorted got).map (·.2.bytes)).sum_eq
      rw [map_cons, sum_cons] at total
      dsimp only at total
      refine ⟨bal.sorted.erase key, fun alt => ?_, ?_⟩
      · dsimp only
        rw [get?_erase]
        split
        · rename_i same
          subst same
          rw [last]
          rfl
        · rename_i alt
          rw [bal.counted, count_cons_of_ne (Ne.symm alt)]
      · dsimp only
        rw [bal.bytes]
        omega
    · rename_i more
      have total := sum_insert (fun ent : Nat × RetainedSnapshotRoot => ent.2.bytes)
        key { root with references := listed.count key } accounts.1
      rw [got, map_some, getD_some] at total
      dsimp only at total
      refine ⟨bal.sorted.insert _ _, fun alt => ?_, ?_⟩
      · dsimp only
        rw [get?_insert]
        split
        · rename_i same
          subst same
          rw [if_neg more, map_some]
        · rename_i alt
          rw [bal.counted, count_cons_of_ne (Ne.symm alt)]
      · dsimp only
        rw [bal.bytes]
        omega

theorem get?_retainRoot_ne {key alt : Nat} (ne : alt ≠ key) (bsFor : Nat → Option Nat)
    (accounts : Accounts) :
    get? alt (retainRoot bsFor accounts key).1 = get? alt accounts.1 := by
  unfold retainRoot
  split <;> exact get?_insert_ne ne _ _

theorem retainRoots_balanced {keys : List Nat} (bal : Balanced listed payload accounts)
    (bsFor : Nat → Option Nat) (nd : keys.Nodup)
    (countable : ∀ key ∈ keys, listed.count key < usizeMax)
    (room : accounts.2 + (keys.map (newBytes bsFor accounts.1)).sum ≤ usizeMax) :
    Balanced (keys ++ listed) payload (keys.foldl (retainRoot bsFor) accounts) := by
  induction keys generalizing listed accounts with
  | nil => exact bal
  | cons key rest ih =>
    obtain ⟨unl, nd⟩ := nodup_cons.mp nd
    rw [map_cons, sum_cons] at room
    obtain ⟨kept, bs⟩ := retainRoot_balanced bal bsFor key (countable key mem_cons_self) (by omega)
    have ne : ∀ alt ∈ rest, alt ≠ key := fun alt mem same => unl (same ▸ mem)
    have same : rest.map (newBytes bsFor (retainRoot bsFor accounts key).1) =
        rest.map (newBytes bsFor accounts.1) := by
      refine map_congr_left fun alt mem => ?_
      rw [newBytes, newBytes, get?_retainRoot_ne (ne alt mem)]
    have post := ih kept nd
      (fun alt mem => by
        rw [count_cons_of_ne (Ne.symm (ne alt mem))]
        exact countable alt (mem_cons_of_mem _ mem))
      (by rw [same, bs]; omega)
    exact post.of_perm perm_middle

theorem releaseRoots_balanced {keys : List Nat} (bal : Balanced (keys ++ listed) payload accounts) :
    Balanced listed payload (keys.foldl releaseRoot accounts) := by
  induction keys generalizing accounts with
  | nil => exact bal
  | cons key rest ih => exact ih (releaseRoot_balanced bal)

end Balanced

/-! ## The bytes of a root stay as recorded -/

/-- Every root of `accounts'` is one of `accounts`, with its bytes. -/
def Keeps (accounts accounts' : Accounts) : Prop :=
  ∀ key root, get? key accounts'.1 = some root →
    ∃ old, get? key accounts.1 = some old ∧ old.bytes = root.bytes

theorem Keeps.trans {hd snd third : Accounts} (hold : Keeps hd snd)
    (post : Keeps snd third) : Keeps hd third := by
  intro key root got
  obtain ⟨mid, storedMiddle, same⟩ := post key root got
  obtain ⟨old, storedOld, sameOld⟩ := hold key mid storedMiddle
  exact ⟨old, storedOld, sameOld.trans same⟩

theorem releaseRoot_keeps (accounts : Accounts) (key : Nat) :
    Keeps accounts (releaseRoot accounts key) := by
  intro alt root got
  unfold releaseRoot at got
  cases hit : get? key accounts.1 with
  | none =>
    rw [hit] at got
    exact ⟨root, got, rfl⟩
  | some old =>
    rw [hit] at got
    dsimp only at got
    split at got
    · rw [get?_erase] at got
      split at got
      · cases got
      · exact ⟨root, got, rfl⟩
    · rw [get?_insert] at got
      split at got
      · rename_i same
        subst same
        exact ⟨old, hit, congrArg (·.bytes) (some.inj got)⟩
      · exact ⟨root, got, rfl⟩

theorem releaseEntry_keeps (accounts : Accounts) (ent : RetainedCommit) :
    Keeps accounts (releaseEntry accounts ent) := by
  have run : ∀ (keys : List Nat) (accounts : Accounts),
      Keeps accounts (keys.foldl releaseRoot accounts) := by
    intro keys
    induction keys with
    | nil => exact fun accounts key root got => ⟨root, got, rfl⟩
    | cons key rest ih => exact fun accounts => (releaseRoot_keeps accounts key).trans (ih _)
  exact run ent.rootKeys (accounts.1, accounts.2 - ent.payloadBytes)

/-- A root after a push was there before, with its bytes, or has those of the snapshot. -/
theorem retainRoots_bytes (bsFor : Nat → Option Nat) (keys : List Nat) (accounts : Accounts)
    {key : Nat} {root : RetainedSnapshotRoot}
    (got : get? key (keys.foldl (retainRoot bsFor) accounts).1 = some root) :
    (∃ old, get? key accounts.1 = some old ∧ old.bytes = root.bytes) ∨
      get? key accounts.1 = none ∧ root.bytes = (bsFor key).getD 0 := by
  induction keys generalizing accounts with
  | nil => exact .inl ⟨root, got, rfl⟩
  | cons next rest ih =>
    have post := ih _ got
    by_cases same : key = next
    · subst same
      cases hit : get? key accounts.1 with
      | some old =>
        simp only [retainRoot, hit, get?_insert_self] at post
        simpa using post
      | none =>
        simp only [retainRoot, hit, get?_insert_self] at post
        simpa [eq_comm] using post
    · rw [get?_retainRoot_ne same] at post
      exact post

/-! ## Trimming -/

section Trim

variable (retention : CommitLogRetention)

def listedRoots (entries : List RetainedCommit) : List Nat := entries.flatMap (·.rootKeys)

def payloads (entries : List RetainedCommit) : Nat := (entries.map (·.payloadBytes)).sum

/-- Trimming keeps the balance and ends within both limits. -/
theorem trimEntries_balanced {ents : List RetainedCommit} {accounts : Accounts}
    (bal : Balanced (listedRoots ents) (payloads ents) accounts) :
    Balanced (listedRoots (trimEntries retention ents accounts).1)
        (payloads (trimEntries retention ents accounts).1)
        (trimEntries retention ents accounts).2 ∧
      Keeps accounts (trimEntries retention ents accounts).2 ∧
      (trimEntries retention ents accounts).1.length ≤ retention.maxEntries ∧
      (trimEntries retention ents accounts).2.2 ≤ retention.maxRetainedBytes := by
  induction ents generalizing accounts with
  | nil =>
    have emp : accounts.1 = [] := by
      rw [eq_nil_iff_forall_not_mem]
      intro ent mem
      exact get?_ne_none_of_mem mem ((bal.absent_iff ent.1).mpr not_mem_nil)
    have bs : accounts.2 = 0 := by
      rw [bal.bytes, emp]
      rfl
    exact ⟨bal, fun key root got => ⟨root, got, rfl⟩, Nat.zero_le _, bs ▸ Nat.zero_le _⟩
  | cons ent rest ih =>
    rw [trimEntries]
    split
    · have lighter : Balanced (ent.rootKeys ++ listedRoots rest) (payloads rest)
          (accounts.1, accounts.2 - ent.payloadBytes) := by
        refine ⟨bal.sorted, bal.counted, ?_⟩
        have bs := bal.bytes
        rw [payloads, map_cons, sum_cons, ← payloads] at bs
        dsimp only
        omega
      obtain ⟨trim, hold, lims⟩ := ih (releaseRoots_balanced lighter)
      exact ⟨trim, (releaseEntry_keeps accounts ent).trans hold, lims⟩
    · rename_i win
      obtain ⟨few, light⟩ := not_or.mp win
      exact ⟨bal, fun key root got => ⟨root, got, rfl⟩, Nat.not_lt.mp few, Nat.not_lt.mp light⟩

end Trim

/-! ## Pushes -/

def rootKeys (snapshot : Option StateSnapshot) : List Nat :=
  (snapshot.map (·.retainedRootKeys)).getD []

def rootBytesFor (snapshot : Option StateSnapshot) (key : Nat) : Option Nat :=
  snapshot.bind fun snapshot => snapshot.retainedRootBytesFor key

/-- The keys of a pushed snapshot are the addresses of live allocations: each is listed once,
and a key that a retained entry lists too is of the same allocation.  Nothing saturates. -/
structure Admits (estimateCommitBytes : CommitResult → Nat) (log : CommitLog)
    (commit : CommitResult) (snapshot : Option StateSnapshot) : Prop where
  distinct : (rootKeys snapshot).Nodup
  live : ∀ entry ∈ log.entries, ∀ key ∈ entry.rootKeys, key ∈ rootKeys snapshot →
    rootBytesFor entry.snapshot key = rootBytesFor snapshot key
  countable : log.entries.length < usizeMax
  room : log.retainedBytes + estimateCommitBytes commit +
    ((rootKeys snapshot).map (newBytes (rootBytesFor snapshot) log.retainedRoots)).sum ≤ usizeMax

inductive Pushed (estimateCommitBytes : CommitResult → Nat) (retention : CommitLogRetention) :
    CommitLog → Prop
  | new : Pushed estimateCommitBytes retention (withLimits retention)
  | push {log : CommitLog} {commit : CommitResult} {snapshot : Option StateSnapshot}
      (pushed : Pushed estimateCommitBytes retention log)
      (admits : log.Admits estimateCommitBytes commit snapshot) :
      Pushed estimateCommitBytes retention (push estimateCommitBytes log commit snapshot)

structure Accounted (log : CommitLog) : Prop where
  balanced : Balanced (listedRoots log.entries) (payloads log.entries)
    (log.retainedRoots, log.retainedBytes)
  distinct : ∀ entry ∈ log.entries, entry.rootKeys.Nodup
  known : ∀ entry ∈ log.entries, ∀ key ∈ entry.rootKeys, ∀ root,
    get? key log.retainedRoots = some root →
      rootBytesFor entry.snapshot key = some root.bytes
  entries : log.entries.length ≤ log.retention.maxEntries
  bytes : log.retainedBytes ≤ log.retention.maxRetainedBytes

theorem count_listedRoots {ents : List RetainedCommit}
    (nd : ∀ ent ∈ ents, ent.rootKeys.Nodup) (key : Nat) :
    (listedRoots ents).count key = ents.countP fun ent => key ∈ ent.rootKeys := by
  induction ents with
  | nil => rfl
  | cons ent rest ih =>
    have here := (nd ent mem_cons_self).count (a := key)
    have post := ih fun alt mem => nd alt (mem_cons_of_mem _ mem)
    rw [listedRoots, flatMap_cons, count_append, here, ← listedRoots, post,
      countP_cons, Nat.add_comm]
    simp

theorem rootBytesFor_listed {snap : Option StateSnapshot} {key : Nat}
    (listed : key ∈ rootKeys snap) : ∃ bs, rootBytesFor snap key = some bs := by
  cases snap with
  | none => exact absurd listed not_mem_nil
  | some snap =>
    obtain ⟨acct, mem, rfl⟩ := mem_map.mp listed
    have hit : (snap.accounts.find? (·.1 == acct.1)).isSome :=
      find?_isSome.mpr ⟨acct, mem, beq_self_eq_true _⟩
    exact ⟨_, congrArg (Option.map Prod.snd) (some_get hit).symm⟩

theorem push_accounted {est : CommitResult → Nat} {log : CommitLog} {com : CommitResult}
    {snap : Option StateSnapshot} (acct : log.Accounted) (admits : log.Admits est com snap) :
    (push est log com snap).Accounted := by
  have few : ∀ key ∈ rootKeys snap, (listedRoots log.entries).count key < usizeMax :=
    fun key _ => (count_listedRoots acct.distinct key ▸ countP_le_length).trans_lt admits.countable
  have payload : saturatingAdd log.retainedBytes (est com) =
      log.retainedBytes + est com :=
    Nat.min_eq_left ((Nat.le_add_right _ _).trans admits.room)
  have heavier : Balanced (listedRoots log.entries)
      (payloads log.entries + est com)
      (log.retainedRoots, saturatingAdd log.retainedBytes (est com)) := by
    have bs := acct.balanced.bytes
    refine ⟨acct.balanced.sorted, acct.balanced.counted, ?_⟩
    dsimp only at bs ⊢
    omega
  have retained := retainRoots_balanced heavier (rootBytesFor snap) admits.distinct few
    (payload ▸ admits.room)
  let ent : RetainedCommit := ⟨com, snap, est com, rootKeys snap⟩
  have listed : (rootKeys snap ++ listedRoots log.entries).Perm
      (listedRoots (log.entries ++ [ent])) := by
    rw [listedRoots, listedRoots, flatMap_append, flatMap_singleton]
    exact perm_append_comm
  have total : payloads log.entries + est com =
      payloads (log.entries ++ [ent]) := by
    rw [payloads, payloads, map_append, sum_append, map_singleton, sum_singleton]
  obtain ⟨bal, hold, ents, bs⟩ :=
    trimEntries_balanced log.retention (total ▸ retained.of_perm listed)
  obtain ⟨n, -, dropped⟩ := trimEntries_drop log.retention (log.entries ++ [ent])
    ((rootKeys snap).foldl (retainRoot (rootBytesFor snap))
      (log.retainedRoots, saturatingAdd log.retainedBytes (est com)))
  have old : ∀ kept ∈ (push est log com snap).entries,
      kept ∈ log.entries ∨ kept = ent := by
    intro kept mem
    have inDrop : kept ∈ List.drop n (log.entries ++ [ent]) := by
      rw [← dropped]
      exact mem
    exact (mem_append.mp (mem_of_mem_drop inDrop)).imp_right mem_singleton.mp
  refine ⟨bal, ?_, ?_, ents, bs⟩
  · intro kept mem
    rcases old kept mem with pre | rfl
    · exact acct.distinct kept pre
    · exact admits.distinct
  · intro kept mem key listedKey root got
    obtain ⟨mid, storedMiddle, same⟩ := hold key root got
    rw [← same]
    rcases retainRoots_bytes _ _ _ storedMiddle with ⟨hd, storedFirst, sameFirst⟩ | ⟨gone, new⟩
    · rw [← sameFirst]
      rcases old kept mem with pre | rfl
      · exact acct.known kept pre key listedKey hd storedFirst
      · -- a retained entry lists the key too, and the allocation is the same
        have both : key ∈ listedRoots log.entries := by
          by_contra unlisted
          rw [(acct.balanced.absent_iff key).mpr unlisted] at storedFirst
          cases storedFirst
        obtain ⟨alt, altM, otherListed⟩ := mem_flatMap.mp both
        rw [← acct.known alt altM key otherListed hd storedFirst]
        exact (admits.live alt altM key otherListed listedKey).symm
    · rcases old kept mem with pre | rfl
      · exact absurd (mem_flatMap.mpr ⟨kept, pre, listedKey⟩)
          ((acct.balanced.absent_iff key).mp gone)
      · obtain ⟨bs, hit⟩ := rootBytesFor_listed listedKey
        rw [new, hit]
        rfl

theorem Pushed.accounted {est : CommitResult → Nat} {retention : CommitLogRetention}
    {log : CommitLog} (pushed : Pushed est retention log) :
    log.Accounted ∧ log.retention = retention := by
  induction pushed with
  | new =>
    have emp : Balanced [] 0 ([], 0) := ⟨sorted_nil, fun _ => rfl, rfl⟩
    exact ⟨⟨emp, fun _ mem => absurd mem not_mem_nil,
      fun _ mem => absurd mem not_mem_nil, Nat.zero_le _, Nat.zero_le _⟩, rfl⟩
  | push _ admits ih => exact ⟨push_accounted ih.1 admits, ih.2⟩

/-- After any pushes: a root is retained exactly while entries list it, with their number; the
retained bytes are the payloads of the entries and the bytes of every retained root once, as the
snapshots of the entries give them; and both limits hold. -/
theorem pushed_accounts {estimateCommitBytes : CommitResult → Nat}
    {retention : CommitLogRetention} {log : CommitLog}
    (pushed : Pushed estimateCommitBytes retention log) :
    (∀ key, (get? key log.retainedRoots).map (·.references) =
        let references := log.entries.countP fun entry => key ∈ entry.rootKeys
        if references = 0 then none else some references) ∧
      (log.retainedRoots.map Prod.fst).Nodup ∧
      log.retainedBytes = (log.entries.map (·.payloadBytes)).sum +
        (log.retainedRoots.map (·.2.bytes)).sum ∧
      (∀ entry ∈ log.entries, ∀ key ∈ entry.rootKeys, ∀ root,
        get? key log.retainedRoots = some root →
          rootBytesFor entry.snapshot key = some root.bytes) ∧
      log.entries.length ≤ retention.maxEntries ∧
      log.retainedBytes ≤ retention.maxRetainedBytes := by
  obtain ⟨acct, rfl⟩ := pushed.accounted
  refine ⟨fun key => ?_, acct.balanced.sorted.keys_nodup, acct.balanced.bytes,
    acct.known, acct.entries, acct.bytes⟩
  have cnt := acct.balanced.counted key
  rw [count_listedRoots acct.distinct] at cnt
  exact cnt

/-- A small commit whose snapshot has these roots. -/
def sharingPush (log : CommitLog) (revision : Revision) (accounts : List (Nat × Nat)) :
    CommitLog :=
  push (fun _ => 5) log ⟨revision, [], ⟨[], [], []⟩, [], .realtimeUpdate⟩
    (some ⟨revision, fun _ => .null, accounts⟩)

/-- Two entries share a root. -/
theorem pushed_accounts_shared :
    (get? 7 (sharingPush (sharingPush (withLimits (.new 2 90)) 1 [(7, 40), (8, 1)]) 2
      [(7, 40), (9, 2)]).retainedRoots).map (·.references) = some 2 := by
  have hd : Pushed (fun _ => 5) (.new 2 90)
      (sharingPush (withLimits (.new 2 90)) 1 [(7, 40), (8, 1)]) :=
    .push .new ⟨by decide, fun _ mem => absurd mem not_mem_nil, by decide, by decide⟩
  exact (pushed_accounts (hd.push ⟨by decide, by decide, by decide, by decide⟩)).1 7

end CommitLog

end Tqsdk
