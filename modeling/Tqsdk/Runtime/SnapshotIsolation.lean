import Mathlib
import Tqsdk.Runtime.Reachable

/-!
# Snapshots share the partitions of the store

The store and every snapshot of it hold each partition by the address of one allocation, and a
batch writes through `Arc::make_mut`, which clones a partition that is held elsewhere too.  A
snapshot answers a path from its own partition or from the tree it materializes when it is first
asked for it: both answers agree, and later batches change neither.
-/

namespace Tqsdk

open List Value

/-! ## Lookups -/

theorem snapshotPartitionGet_eq (part : Value) (path : StatePath) :
    snapshotPartitionGet part path = (shown part).bind (·.getAtPath path) := by
  cases path with
  | nil => exact (Option.bind_fun_some (shown part)).symm
  | cons hd rest => exact (shown_bind_getAtPath part (cons_ne_nil _ _)).symm

theorem Partitions.Regular.get_eq {ps : Partitions} (regl : ps.Regular)
    (path : StatePath) : ps.get path = ps.materialized.getAtPath path := by
  cases path with
  | nil => rfl
  | cons hd rest =>
    rw [materialized_getAtPath regl.fallbackSorted, Partitions.get]
    cases seen : StateRoot.fromSegment hd with
    | some root =>
      rw [regl.unshadowed hd (seen ▸ Option.some_ne_none root)]
      exact snapshotPartitionGet_eq _ _
    | none =>
      cases (ps .other).get hd with
      | none => rfl
      | some fb =>
        dsimp only [Option.bind_some, Option.bind_none]
        rw [Option.or_none, snapshotPartitionGet_eq]

/-! ## The shared store -/

/-- The addresses of the partitions. -/
abbrev PartitionRoots := StateRoot → Nat

structure SharedStore where
  memory : Nat → Value
  nextAddress : Nat
  roots : PartitionRoots
  /-- The snapshots that are held, each with its number. -/
  snapshots : List (Nat × PartitionRoots)
  nextSnapshot : Nat

def StateRoot.all : List StateRoot := StateRoot.visible ++ [.other]

theorem StateRoot.mem_all (root : StateRoot) : root ∈ StateRoot.all := by
  cases root <;> decide

namespace SharedStore

def new : SharedStore := ⟨fun _ => .object [], 12, fun root => StateRoot.all.idxOf root, [], 0⟩

variable (store : SharedStore)

/-- What a holder of these addresses reads now. -/
def read (roots : PartitionRoots) : Partitions :=
  fun root => store.memory (roots root)

def contents : Partitions := store.read store.roots

def strongCount (address : Nat) : Nat :=
  ((store.roots :: store.snapshots.map Prod.snd).map fun roots =>
    StateRoot.all.countP fun root => roots root = address).sum

/-- `Arc::make_mut` on one partition of the store. -/
def makeMut (root : StateRoot) : SharedStore :=
  if store.strongCount (store.roots root) = 1 then store
  else
    { store with
      memory :=
        Function.update store.memory store.nextAddress (store.memory (store.roots root))
      nextAddress := store.nextAddress + 1
      roots := Function.update store.roots root store.nextAddress }

def applyTurn (index : Nat) (mutation : NormalizedMutation) : SharedStore :=
  let root := (partitionPath mutation).1
  let store := store.makeMut root
  let written := applyMutationAtPartition root (store.contents root) index mutation
  { store with memory := Function.update store.memory (store.roots root) written.1 }

def applyLoop : Nat → SharedStore → List NormalizedMutation → SharedStore
  | _, store, [] => store
  | index, store, mutation :: rest => applyLoop (index + 1) (store.applyTurn index mutation) rest

end SharedStore

/-- A batch of documents, a snapshot, or the end of the snapshot with a number. -/
inductive StoreOperation
  | commit (mutations : List NormalizedMutation) (wf : ∀ mutation ∈ mutations, mutation.Wf)
  | snapshot
  | drop (dropped : Nat)

namespace SharedStore

def step (store : SharedStore) : StoreOperation → SharedStore
  | .commit mutations _ =>
    match validateMutationDomains mutations with
    | .ok () => applyLoop 0 store mutations
    | .error _ => store
  | .snapshot =>
    { store with
      snapshots := (store.nextSnapshot, store.roots) :: store.snapshots
      nextSnapshot := store.nextSnapshot + 1 }
  | .drop dropped => { store with snapshots := store.snapshots.filter (·.1 != dropped) }

def run (operations : List StoreOperation) : SharedStore := operations.foldl step new

/-! ## One write -/

structure Sound (store : SharedStore) : Prop where
  allocated : ∀ root, store.roots root < store.nextAddress
  apart : Function.Injective store.roots
  held : ∀ snapshot ∈ store.snapshots, ∀ root, snapshot.2 root < store.nextAddress
  numbered : ∀ snapshot ∈ store.snapshots, snapshot.1 < store.nextSnapshot

theorem sound_new : new.Sound where
  allocated := fun root => by cases root <;> decide
  apart := fun left _ same => (idxOf_inj (StateRoot.mem_all left)).mp same
  held := fun _ mem => absurd mem not_mem_nil
  numbered := fun _ mem => absurd mem not_mem_nil

/-- The snapshots are held as before and read as before. -/
structure Keeps (store store' : SharedStore) : Prop where
  snapshots : store'.snapshots = store.snapshots
  nextSnapshot : store'.nextSnapshot = store.nextSnapshot
  memory : ∀ snapshot ∈ store.snapshots, ∀ root,
    store'.memory (snapshot.2 root) = store.memory (snapshot.2 root)

theorem Keeps.refl (store : SharedStore) : store.Keeps store := ⟨rfl, rfl, fun _ _ _ => rfl⟩

theorem Keeps.trans {hd snd third : SharedStore} (hold : hd.Keeps snd)
    (post : snd.Keeps third) : hd.Keeps third where
  snapshots := post.snapshots.trans hold.snapshots
  nextSnapshot := post.nextSnapshot.trans hold.nextSnapshot
  memory snap mem root :=
    (post.memory snap (hold.snapshots.symm ▸ mem) root).trans (hold.memory snap mem root)

/-- An address that is counted once is held by no snapshot. -/
theorem sole_of_strongCount {store : SharedStore} {root : StateRoot}
    (once : store.strongCount (store.roots root) = 1) {snap : Nat × PartitionRoots}
    (mem : snap ∈ store.snapshots) (each : StateRoot) :
    snap.2 each ≠ store.roots root := by
  intro both
  have own : 0 < StateRoot.all.countP fun root' => store.roots root' = store.roots root :=
    countP_pos_iff.mpr ⟨root, root.mem_all, decide_eq_true rfl⟩
  have theirs : 0 < StateRoot.all.countP fun root' => snap.2 root' = store.roots root :=
    List.countP_pos_iff.mpr ⟨each, each.mem_all, decide_eq_true both⟩
  have cnt := List.sum_pos_iff_exists_pos_nat.mpr ⟨_, List.mem_map_of_mem
    (f := fun roots : PartitionRoots =>
      StateRoot.all.countP fun root' => roots root' = store.roots root)
    (mem_map_of_mem (f := Prod.snd) mem), theirs⟩
  rw [strongCount, map_cons, sum_cons] at once
  omega

section Write

variable {store : SharedStore} (sound : store.Sound)

include sound

/-- After `make_mut` no snapshot holds the partition, and everything reads as before. -/
theorem makeMut_spec (root : StateRoot) :
    (store.makeMut root).Sound ∧ store.Keeps (store.makeMut root) ∧
      (store.makeMut root).contents = store.contents ∧
      ∀ snap ∈ store.snapshots, ∀ each,
        snap.2 each ≠ (store.makeMut root).roots root := by
  unfold makeMut
  split
  · rename_i once
    exact ⟨sound, .refl store, rfl, fun _ mem each => sole_of_strongCount once mem each⟩
  · have new : ∀ each, store.roots each ≠ store.nextAddress :=
      fun each => Nat.ne_of_lt (sound.allocated each)
    have unheld : ∀ snap ∈ store.snapshots, ∀ each,
        snap.2 each ≠ store.nextAddress :=
      fun snap mem each => Nat.ne_of_lt (sound.held snap mem each)
    refine ⟨⟨?_, ?_, ?_, sound.numbered⟩, ⟨rfl, rfl, ?_⟩, ?_, ?_⟩
    · intro each
      rcases eq_or_ne each root with rfl | ne
      · dsimp only
        rw [Function.update_self]
        exact Nat.lt_succ_self _
      · dsimp only
        rw [Function.update_of_ne ne]
        exact Nat.lt_succ_of_lt (sound.allocated each)
    · intro left right same
      dsimp only at same
      rcases eq_or_ne left root with rfl | leftNe <;> rcases eq_or_ne right left with rfl | ne
      · rfl
      · rw [Function.update_self, Function.update_of_ne ne] at same
        exact absurd same.symm (new right)
      · rfl
      · rcases eq_or_ne right root with rfl | rightNe
        · rw [Function.update_self, Function.update_of_ne leftNe] at same
          exact absurd same (new left)
        · rw [Function.update_of_ne leftNe, Function.update_of_ne rightNe] at same
          exact sound.apart same
    · exact fun snap mem each => Nat.lt_succ_of_lt (sound.held snap mem each)
    · exact fun snap mem each => Function.update_of_ne (unheld snap mem each) _ _
    · funext each
      rcases eq_or_ne each root with rfl | ne
      · simp only [contents, read, Function.update_self]
      · simp only [contents, read, Function.update_of_ne ne, Function.update_of_ne (new each)]
    · intro snap mem each
      dsimp only
      rw [Function.update_self]
      exact unheld snap mem each

/-- A turn changes the store as the turn of its contents does, and no snapshot. -/
theorem applyTurn_spec (idx : Nat) (m : NormalizedMutation) :
    (store.applyTurn idx m).Sound ∧ store.Keeps (store.applyTurn idx m) ∧
      (store.applyTurn idx m).contents = (Tqsdk.applyTurn store.contents idx m).1 := by
  obtain ⟨made, kept, same, sole⟩ := makeMut_spec sound (partitionPath m).1
  refine ⟨⟨made.allocated, made.apart, made.held, made.numbered⟩,
    kept.trans ⟨rfl, rfl, fun snap mem root => ?_⟩, ?_⟩
  · exact Function.update_of_ne (sole snap (kept.snapshots ▸ mem) root) _ _
  · rw [applyTurn_partitions, ← same]
    funext each
    rcases eq_or_ne each (partitionPath m).1 with rfl | ne
    · rw [Function.update_self]
      exact Function.update_self _ _ _
    · rw [Function.update_of_ne ne]
      exact Function.update_of_ne (fun both => ne (made.apart both)) _ _

theorem applyLoop_spec (idx : Nat) (muts : List NormalizedMutation) :
    (applyLoop idx store muts).Sound ∧ store.Keeps (applyLoop idx store muts) ∧
      (applyLoop idx store muts).contents = (StateStore.applyLoop idx store.contents muts).1 := by
  induction muts generalizing idx store with
  | nil => exact ⟨sound, .refl store, rfl⟩
  | cons m muts ih =>
    obtain ⟨turn, kept, same⟩ := applyTurn_spec sound idx m
    obtain ⟨post, keptLater, sameLater⟩ := ih turn (idx + 1)
    refine ⟨post, kept.trans keptLater, ?_⟩
    rw [applyLoop, sameLater, same, StateStore.applyLoop_cons]

end Write

/-! ## Runs -/

/-- What operations do: a snapshot that is held afterwards is new, or was held before and reads
as before. -/
structure Stepped (store store' : SharedStore) : Prop where
  sound : store'.Sound
  nextSnapshot : store.nextSnapshot ≤ store'.nextSnapshot
  held : ∀ snapshot ∈ store'.snapshots, snapshot.1 < store.nextSnapshot →
    snapshot ∈ store.snapshots ∧ store'.read snapshot.2 = store.read snapshot.2

theorem Keeps.stepped {store store' : SharedStore} (hold : store.Keeps store')
    (sound : store'.Sound) : store.Stepped store' where
  sound := sound
  nextSnapshot := hold.nextSnapshot.ge
  held snap mem _ :=
    have old : snap ∈ store.snapshots := hold.snapshots ▸ mem
    ⟨old, funext (hold.memory snap old)⟩

theorem Stepped.trans {hd snd third : SharedStore} (step : hd.Stepped snd)
    (post : snd.Stepped third) : hd.Stepped third where
  sound := post.sound
  nextSnapshot := step.nextSnapshot.trans post.nextSnapshot
  held snap mem before := by
    obtain ⟨still, same⟩ := post.held snap mem (before.trans_le step.nextSnapshot)
    obtain ⟨held, sameBefore⟩ := step.held snap still before
    exact ⟨held, same.trans sameBefore⟩

theorem step_stepped {store : SharedStore} (sound : store.Sound) (operation : StoreOperation) :
    store.Stepped (store.step operation) := by
  cases operation with
  | commit muts wf =>
    dsimp only [step]
    split
    · obtain ⟨post, kept, -⟩ := applyLoop_spec sound 0 muts
      exact kept.stepped post
    · exact (Keeps.refl store).stepped sound
  | snapshot =>
    refine ⟨⟨sound.allocated, sound.apart, ?_, ?_⟩, Nat.le_succ _, ?_⟩
    · intro snapshot mem
      rcases mem_cons.mp mem with rfl | old
      · exact sound.allocated
      · exact sound.held snapshot old
    · intro snapshot mem
      rcases mem_cons.mp mem with rfl | old
      · exact Nat.lt_succ_self _
      · exact Nat.lt_succ_of_lt (sound.numbered snapshot old)
    · intro snapshot mem pre
      rcases mem_cons.mp mem with rfl | old
      · exact absurd pre (Nat.lt_irrefl _)
      · exact ⟨old, rfl⟩
  | drop dropped =>
    have old : ∀ snapshot ∈ store.snapshots.filter (·.1 != dropped),
        snapshot ∈ store.snapshots := fun _ mem => mem_of_mem_filter mem
    refine ⟨⟨sound.allocated, sound.apart, ?_, ?_⟩, Nat.le_refl _, ?_⟩
    · exact fun snapshot mem => sound.held snapshot (old snapshot mem)
    · exact fun snapshot mem => sound.numbered snapshot (old snapshot mem)
    · exact fun snapshot mem _ => ⟨old snapshot mem, rfl⟩

theorem foldl_stepped {store : SharedStore} (sound : store.Sound)
    (ops : List StoreOperation) : store.Stepped (ops.foldl step store) := by
  induction ops generalizing store with
  | nil => exact (Keeps.refl store).stepped sound
  | cons operation ops ih =>
    have stepped := step_stepped sound operation
    exact stepped.trans (ih stepped.sound)

theorem run_reachable (ops : List StoreOperation) :
    ∃ store : StateStore, store.Reachable ∧ (run ops).contents = store.partitions := by
  induction ops using reverseRecOn with
  | nil => exact ⟨.new 0, .new 0, rfl⟩
  | append_singleton ops operation ih =>
    obtain ⟨store, rch, same⟩ := ih
    rw [run, foldl_concat]
    change ∃ store : StateStore, store.Reachable ∧
      ((run ops).step operation).contents = store.partitions
    cases operation with
    | commit muts wf =>
      dsimp only [step]
      split
      · rename_i acc
        obtain ⟨-, -, app⟩ := applyLoop_spec (foldl_stepped sound_new ops).sound 0 muts
        refine ⟨_, .commit [] [] .realtimeUpdate rch acc wf, ?_⟩
        rw [CommitEngine.apply_partitions, ← same]
        exact app
      · exact ⟨store, rch, same⟩
    | snapshot => exact ⟨store, rch, same⟩
    | drop dropped => exact ⟨store, rch, same⟩

/-- The partitions of every reachable store answer each path as the tree made of them does.  A
snapshot that is still held after any later operations reads, at every path, what the store
held when it was taken. -/
theorem snapshot_reads_tree (operations later : List StoreOperation) (path : StatePath) :
    (∀ store : StateStore, store.Reachable →
      store.partitions.get path = store.partitions.materialized.getAtPath path) ∧
      (run operations).contents.get path =
        (run operations).contents.materialized.getAtPath path ∧
      ∀ roots, ((run operations).nextSnapshot, roots) ∈
          (run (operations ++ .snapshot :: later)).snapshots →
        ((run (operations ++ .snapshot :: later)).read roots).get path =
            (run operations).contents.get path ∧
          ((run (operations ++ .snapshot :: later)).read roots).materialized.getAtPath path =
            (run operations).contents.materialized.getAtPath path := by
  have agr : ∀ store : StateStore, store.Reachable →
      store.partitions.get path = store.partitions.materialized.getAtPath path :=
    fun store rch => rch.regular.get_eq path
  obtain ⟨store, rch, same⟩ := run_reachable operations
  refine ⟨agr, ?_, ?_⟩
  · rw [same]
    exact agr store rch
  · intro roots mem
    have sound := (foldl_stepped sound_new operations).sound
    have took := step_stepped sound .snapshot
    rw [run, foldl_append, foldl_cons] at mem ⊢
    obtain ⟨held, reads⟩ := (foldl_stepped took.sound later).held _ mem (Nat.lt_succ_self _)
    have own : roots = (run operations).roots := by
      rcases mem_cons.mp held with new | old
      · exact congrArg Prod.snd new
      · exact absurd (sound.numbered _ old) (Nat.lt_irrefl _)
    subst own
    constructor <;> rw [reads] <;> rfl

end SharedStore

end Tqsdk
