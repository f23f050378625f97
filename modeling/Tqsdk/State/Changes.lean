import Mathlib.Algebra.GroupWithZero.Nat
import Mathlib.Data.List.Induction
import Tqsdk.State.Mutation

/-!
# Change sets of a commit

`ChangeSet::from_applied_changes` turns what the store reported as applied into the hits a
commit publishes.  It has two builders, a linear one for small batches and one over hash
sets; `ofHashedAppliedChanges_eq` shows that they agree, and `mem_pathHits_iff` and
`mem_fieldHits_iff` are the specification every later module uses.
-/

namespace Tqsdk

open List

structure ChangeHit where
  path : StatePath
  object : ObjectKey
  field : String
  deriving DecidableEq

/-- One mutation that changed the tree, with the indexes of its fields that did. -/
structure AppliedChange where
  root : String
  mutationIndex : Nat
  fieldIndexes : List Nat
  deriving DecidableEq

structure ChangeSet where
  pathHits : List StatePath
  objectHits : List ObjectKey
  fieldHits : List ChangeHit
  deriving DecidableEq

inductive CommitScope
  | initialReady | realtimeUpdate | resyncRecovery | replayStep | queryRefresh
  | sessionTransition
  deriving DecidableEq

structure CommitResult where
  revision : Revision
  domains : List ProtocolDomain
  changes : ChangeSet
  causedBy : List CommandId
  scope : CommitScope
  deriving DecidableEq

namespace ChangeSet

def linearAppliedChangesetLimit : Nat := 8
def linearAppliedFieldHitLimit : Nat := 8

def empty : ChangeSet := ⟨[], [], []⟩

/-! ## The linear builder -/

def pushPath (changes : ChangeSet) (path : StatePath) : ChangeSet :=
  if changes.pathHits.any (· == path) then changes
  else { changes with pathHits := changes.pathHits ++ [path] }

def pushObject (changes : ChangeSet) (object : ObjectKey) : ChangeSet :=
  if changes.objectHits.any (· == object) then changes
  else { changes with objectHits := changes.objectHits ++ [object] }

def pushField (changes : ChangeSet) (path : StatePath) (object : ObjectKey)
    (field : String) : ChangeSet :=
  if changes.fieldHits.any fun hit =>
      hit.path == path && hit.object == object && hit.field == field then changes
  else { changes with fieldHits := changes.fieldHits ++ [⟨path, object, field⟩] }

/-- The loop over `change.field_indexes`. -/
def pushFields (mutation : NormalizedMutation) (object : ObjectKey) :
    ChangeSet → List Nat → ChangeSet
  | changes, [] => changes
  | changes, index :: rest =>
    match mutation.fields[index]? with
    | none => pushFields mutation object changes rest
    | some field =>
      pushFields mutation object (changes.pushField mutation.path object field.field) rest

def recordChange (mutations : List NormalizedMutation) (changes : ChangeSet)
    (change : AppliedChange) : ChangeSet :=
  match mutations[change.mutationIndex]? with
  | none => changes
  | some mutation =>
    match mutation.object with
    | none => changes.pushPath mutation.path
    | some object =>
      pushFields mutation object ((changes.pushPath mutation.path).pushObject object)
        change.fieldIndexes

/-- `from_small_applied_changes`. -/
def ofSmallAppliedChanges (changes : List AppliedChange)
    (mutations : List NormalizedMutation) : ChangeSet :=
  changes.foldl (recordChange mutations) empty

/-! ## The hash-set builder -/

/-- The three `seen` sets next to the change set under construction; a set is the list of
its members. -/
structure Builder where
  pathSeen : List StatePath
  objectSeen : List ObjectKey
  fieldSeen : List (StatePath × ObjectKey × String)
  changes : ChangeSet

def Builder.empty : Builder := ⟨[], [], [], ChangeSet.empty⟩

def Builder.pushPath (b : Builder) (path : StatePath) : Builder :=
  if path ∈ b.pathSeen then b
  else { b with
    pathSeen := b.pathSeen ++ [path]
    changes := { b.changes with pathHits := b.changes.pathHits ++ [path] } }

def Builder.pushObject (b : Builder) (object : ObjectKey) : Builder :=
  if object ∈ b.objectSeen then b
  else { b with
    objectSeen := b.objectSeen ++ [object]
    changes := { b.changes with objectHits := b.changes.objectHits ++ [object] } }

def Builder.pushField (b : Builder) (path : StatePath) (object : ObjectKey)
    (field : String) : Builder :=
  if (path, object, field) ∈ b.fieldSeen then b
  else { b with
    fieldSeen := b.fieldSeen ++ [(path, object, field)]
    changes := { b.changes with
      fieldHits := b.changes.fieldHits ++ [⟨path, object, field⟩] } }

def Builder.pushFields (mutation : NormalizedMutation) (object : ObjectKey) :
    Builder → List Nat → Builder
  | b, [] => b
  | b, index :: rest =>
    match mutation.fields[index]? with
    | none => Builder.pushFields mutation object b rest
    | some field =>
      Builder.pushFields mutation object
        (b.pushField mutation.path object field.field) rest

def Builder.recordChange (mutations : List NormalizedMutation) (b : Builder)
    (change : AppliedChange) : Builder :=
  match mutations[change.mutationIndex]? with
  | none => b
  | some mutation =>
    match mutation.object with
    | none => b.pushPath mutation.path
    | some object =>
      Builder.pushFields mutation object ((b.pushPath mutation.path).pushObject object)
        change.fieldIndexes

def ofHashedAppliedChanges (changes : List AppliedChange)
    (mutations : List NormalizedMutation) : ChangeSet :=
  (changes.foldl (Builder.recordChange mutations) Builder.empty).changes

/-- `from_applied_changes`: the linear builder up to the two limits, hash sets above. -/
def ofAppliedChanges (changes : List AppliedChange)
    (mutations : List NormalizedMutation) : ChangeSet :=
  let fieldHitCapacity := (changes.map fun change => change.fieldIndexes.length).sum
  if changes.length ≤ linearAppliedChangesetLimit ∧
      fieldHitCapacity ≤ linearAppliedFieldHitLimit then
    ofSmallAppliedChanges changes mutations
  else ofHashedAppliedChanges changes mutations

/-! ## The two builders agree -/

/-- The `seen` sets hold exactly what was pushed. -/
structure Builder.Tracks (b : Builder) : Prop where
  paths : b.pathSeen = b.changes.pathHits
  objects : b.objectSeen = b.changes.objectHits
  fields : b.fieldSeen = b.changes.fieldHits.map fun hit => (hit.path, hit.object, hit.field)

variable {changes : ChangeSet} {object : ObjectKey} {path : StatePath} {b : Builder}
  {field : String} {hit : ChangeHit} {mutations : List NormalizedMutation}

theorem Builder.Tracks.pushPath (trk : b.Tracks) (path : StatePath) :
    (b.pushPath path).Tracks ∧ (b.pushPath path).changes = b.changes.pushPath path := by
  obtain ⟨paths, objs, flds⟩ := trk
  have seen : (b.changes.pathHits.any (· == path)) = true ↔ path ∈ b.pathSeen := by simp [paths]
  unfold Builder.pushPath ChangeSet.pushPath
  by_cases old : path ∈ b.pathSeen
  · rw [if_pos old, if_pos (seen.mpr old)]
    exact ⟨⟨paths, objs, flds⟩, rfl⟩
  · rw [if_neg old, if_neg (mt seen.mp old)]
    exact ⟨⟨by simp [paths], objs, flds⟩, rfl⟩

theorem Builder.Tracks.pushObject (trk : b.Tracks) (object : ObjectKey) :
    (b.pushObject object).Tracks ∧ (b.pushObject object).changes = b.changes.pushObject object := by
  obtain ⟨paths, objs, flds⟩ := trk
  have seen : (b.changes.objectHits.any (· == object)) = true ↔ object ∈ b.objectSeen := by
    simp [objs]
  unfold Builder.pushObject ChangeSet.pushObject
  by_cases old : object ∈ b.objectSeen
  · rw [if_pos old, if_pos (seen.mpr old)]
    exact ⟨⟨paths, objs, flds⟩, rfl⟩
  · rw [if_neg old, if_neg (mt seen.mp old)]
    exact ⟨⟨paths, by simp [objs], flds⟩, rfl⟩

theorem Builder.Tracks.pushField (trk : b.Tracks) (path : StatePath) (object : ObjectKey)
    (field : String) :
    (b.pushField path object field).Tracks ∧
      (b.pushField path object field).changes = b.changes.pushField path object field := by
  obtain ⟨paths, objs, flds⟩ := trk
  have seen : (b.changes.fieldHits.any fun hit =>
      hit.path == path && hit.object == object && hit.field == field) = true ↔
        (path, object, field) ∈ b.fieldSeen := by
    simp [flds, and_assoc]
  unfold Builder.pushField ChangeSet.pushField
  by_cases old : (path, object, field) ∈ b.fieldSeen
  · rw [if_pos old, if_pos (seen.mpr old)]
    exact ⟨⟨paths, objs, flds⟩, rfl⟩
  · rw [if_neg old, if_neg (mt seen.mp old)]
    exact ⟨⟨paths, objs, by simp [flds]⟩, rfl⟩

theorem Builder.Tracks.pushFields (trk : b.Tracks) (m : NormalizedMutation)
    (object : ObjectKey) (ixs : List Nat) :
    (Builder.pushFields m object b ixs).Tracks ∧
      (Builder.pushFields m object b ixs).changes =
        ChangeSet.pushFields m object b.changes ixs := by
  induction ixs generalizing b with
  | nil => exact ⟨trk, rfl⟩
  | cons idx ixs ih =>
    rw [Builder.pushFields, ChangeSet.pushFields]
    cases m.fields[idx]? with
    | none => exact ih trk
    | some field =>
      obtain ⟨next, same⟩ := trk.pushField m.path object field.field
      have post := ih next
      rw [same] at post
      exact post

theorem Builder.Tracks.recordChange (trk : b.Tracks) (mutations : List NormalizedMutation)
    (chg : AppliedChange) :
    (b.recordChange mutations chg).Tracks ∧
      (b.recordChange mutations chg).changes = b.changes.recordChange mutations chg := by
  unfold Builder.recordChange ChangeSet.recordChange
  cases mutations[chg.mutationIndex]? with
  | none => exact ⟨trk, rfl⟩
  | some m =>
    obtain ⟨afterPath, samePath⟩ := trk.pushPath m.path
    dsimp only
    cases m.object with
    | none => exact ⟨afterPath, samePath⟩
    | some object =>
      obtain ⟨afterObject, sameObject⟩ := afterPath.pushObject object
      have afterFields := afterObject.pushFields m object chg.fieldIndexes
      rw [sameObject, samePath] at afterFields
      exact afterFields

theorem ofHashedAppliedChanges_eq (changes : List AppliedChange)
    (mutations : List NormalizedMutation) :
    ofHashedAppliedChanges changes mutations = ofSmallAppliedChanges changes mutations := by
  have lockstep : ∀ (b : Builder), b.Tracks →
      (changes.foldl (Builder.recordChange mutations) b).changes =
        changes.foldl (ChangeSet.recordChange mutations) b.changes := by
    induction changes with
    | nil => intro b _; rfl
    | cons chg changes ih =>
      intro b trk
      obtain ⟨next, same⟩ := trk.recordChange mutations chg
      rw [foldl_cons, foldl_cons, ih _ next, same]
  exact lockstep Builder.empty ⟨rfl, rfl, rfl⟩

theorem ofAppliedChanges_eq (changes : List AppliedChange) (mutations : List NormalizedMutation) :
    ofAppliedChanges changes mutations = ofSmallAppliedChanges changes mutations := by
  unfold ofAppliedChanges
  dsimp only
  split
  · rfl
  · exact ofHashedAppliedChanges_eq changes mutations

/-! ## Independence of the positions

A report names its mutation by position.  Only the mutations found there matter, in the
order of the reports. -/

/-- The reported mutations, each with the indexes of its fields that changed. -/
def resolve (changes : List AppliedChange) (mutations : List NormalizedMutation) :
    List (NormalizedMutation × List Nat) :=
  changes.filterMap fun change =>
    mutations[change.mutationIndex]?.map fun mutation => (mutation, change.fieldIndexes)

def recordTurn (changes : ChangeSet) (turn : NormalizedMutation × List Nat) : ChangeSet :=
  match turn.1.object with
  | none => changes.pushPath turn.1.path
  | some object =>
    pushFields turn.1 object ((changes.pushPath turn.1.path).pushObject object) turn.2

theorem ofAppliedChanges_resolve (changes : List AppliedChange)
    (mutations : List NormalizedMutation) :
    ofAppliedChanges changes mutations = (resolve changes mutations).foldl recordTurn empty := by
  have run : ∀ acc : ChangeSet, changes.foldl (recordChange mutations) acc =
      (resolve changes mutations).foldl recordTurn acc := by
    induction changes with
    | nil => intro acc; rfl
    | cons chg changes ih =>
      intro acc
      rw [foldl_cons, ih]
      unfold recordChange
      cases found : mutations[chg.mutationIndex]? with
      | none => simp [resolve, found]
      | some m => simp [resolve, found, recordTurn]
  rw [ofAppliedChanges_eq, ofSmallAppliedChanges, run]

/-! ## What the hits are

The hits are the first occurrences of what the reported mutations name, in their order. -/

def turnHits (turn : NormalizedMutation × List Nat) : List ChangeHit :=
  turn.1.object.toList.flatMap fun object => turn.2.filterMap fun index =>
    turn.1.fields[index]?.map fun field => ⟨turn.1.path, object, field.field⟩

def firstHits (turns : List (NormalizedMutation × List Nat)) : ChangeSet where
  pathHits := (turns.map fun turn => turn.1.path).eraseDups
  objectHits := (turns.filterMap fun turn => turn.1.object).eraseDups
  fieldHits := (turns.flatMap turnHits).eraseDups

section

variable {κ : Type} [BEq κ] [LawfulBEq κ]

theorem eraseDups_of_mem {keys : List κ} {key : κ} (mem : key ∈ keys) :
    (keys ++ [key]).eraseDups = keys.eraseDups := by
  simp [eraseDups_append, removeAll, mem]

theorem eraseDups_of_new {keys : List κ} {key : κ} (new : key ∉ keys) :
    (keys ++ [key]).eraseDups = keys.eraseDups ++ [key] := by
  simp [eraseDups_append, removeAll, new, eraseDups_cons]

theorem nodup_eraseDups {keys : List κ} : keys.eraseDups.Nodup := by
  induction keys using List.reverseRecOn with
  | nil => exact nodup_nil
  | append_singleton keys key ih =>
    by_cases mem : key ∈ keys
    · rw [eraseDups_of_mem mem]
      exact ih
    · rw [eraseDups_of_new mem]
      exact nodup_append'.mpr ⟨ih, nodup_singleton _, by simpa using mem⟩

end

/-- A path, an object or a field is kept when it is seen for the first time. -/
theorem pushPath_eraseDups {paths : List StatePath} (same : changes.pathHits = paths.eraseDups) :
    changes.pushPath path = { changes with pathHits := (paths ++ [path]).eraseDups } := by
  have seen : changes.pathHits.any (· == path) = true ↔ path ∈ paths := by simp [same]
  unfold pushPath
  by_cases mem : path ∈ paths
  · rw [if_pos (seen.mpr mem), eraseDups_of_mem mem, ← same]
  · rw [if_neg (mt seen.mp mem), eraseDups_of_new mem, same]

theorem pushObject_eraseDups {objs : List ObjectKey} (same : changes.objectHits = objs.eraseDups) :
    changes.pushObject object = { changes with objectHits := (objs ++ [object]).eraseDups } := by
  have seen : changes.objectHits.any (· == object) = true ↔ object ∈ objs := by simp [same]
  unfold pushObject
  by_cases mem : object ∈ objs
  · rw [if_pos (seen.mpr mem), eraseDups_of_mem mem, ← same]
  · rw [if_neg (mt seen.mp mem), eraseDups_of_new mem, same]

theorem pushField_eraseDups {hits : List ChangeHit} (same : changes.fieldHits = hits.eraseDups) :
    changes.pushField path object field =
      { changes with fieldHits := (hits ++ [ChangeHit.mk path object field]).eraseDups } := by
  have seen : (changes.fieldHits.any fun hit =>
      hit.path == path && hit.object == object && hit.field == field) = true ↔
        ChangeHit.mk path object field ∈ hits := by
    simp only [same, any_eq_true, Bool.and_eq_true, beq_iff_eq, mem_eraseDups]
    constructor
    · rintro ⟨hit, mem, ⟨rfl, rfl⟩, rfl⟩
      exact mem
    · exact fun mem => ⟨_, mem, ⟨rfl, rfl⟩, rfl⟩
  unfold pushField
  by_cases mem : ChangeHit.mk path object field ∈ hits
  · rw [if_pos (seen.mpr mem), eraseDups_of_mem mem, ← same]
  · rw [if_neg (mt seen.mp mem), eraseDups_of_new mem, same]

theorem pushFields_eraseDups {m : NormalizedMutation} (ixs : List Nat) {hits : List ChangeHit}
    (same : changes.fieldHits = hits.eraseDups) :
    pushFields m object changes ixs =
      { changes with fieldHits := (hits ++ ixs.filterMap fun idx =>
          m.fields[idx]?.map fun field => ChangeHit.mk m.path object field.field).eraseDups } := by
  induction ixs generalizing changes hits with
  | nil => simp [pushFields, ← same]
  | cons idx ixs ih =>
    rw [pushFields, filterMap_cons]
    cases m.fields[idx]? with
    | none => exact ih same
    | some field =>
      dsimp only
      rw [pushField_eraseDups same, ih rfl]
      simp

theorem recordTurn_firstHits (turns : List (NormalizedMutation × List Nat))
    (turn : NormalizedMutation × List Nat) :
    (firstHits turns).recordTurn turn = firstHits (turns ++ [turn]) := by
  have paths : (firstHits turns).pathHits = (turns.map fun turn => turn.1.path).eraseDups := rfl
  unfold recordTurn
  rw [pushPath_eraseDups paths]
  cases key : turn.1.object with
  | none => simp [firstHits, turnHits, key]
  | some object =>
    dsimp only
    rw [pushObject_eraseDups rfl, pushFields_eraseDups turn.2 rfl]
    simp [firstHits, turnHits, key]

theorem ofAppliedChanges_firstHits (changes : List AppliedChange)
    (mutations : List NormalizedMutation) :
    ofAppliedChanges changes mutations = firstHits (resolve changes mutations) := by
  have run : ∀ turns before : List (NormalizedMutation × List Nat),
      turns.foldl recordTurn (firstHits before) = firstHits (before ++ turns) := by
    intro turns
    induction turns with
    | nil => simp
    | cons turn turns ih => simp [recordTurn_firstHits, ih]
  rw [ofAppliedChanges_resolve]
  exact run _ []

/-- Both builders list what the applied changes name, each name once and in the order in which
it first occurs. -/
theorem builders_list_first_hits (changes : List AppliedChange)
    (mutations : List NormalizedMutation) :
    ofSmallAppliedChanges changes mutations = firstHits (resolve changes mutations) ∧
      ofHashedAppliedChanges changes mutations = firstHits (resolve changes mutations) ∧
      ofAppliedChanges changes mutations = firstHits (resolve changes mutations) ∧
      (firstHits (resolve changes mutations)).pathHits.Nodup ∧
      (firstHits (resolve changes mutations)).objectHits.Nodup ∧
      (firstHits (resolve changes mutations)).fieldHits.Nodup := by
  have app := ofAppliedChanges_firstHits changes mutations
  have small := ofAppliedChanges_eq changes mutations
  have hashed := ofHashedAppliedChanges_eq changes mutations
  exact ⟨small ▸ app, hashed.trans (small ▸ app), app, nodup_eraseDups,
    nodup_eraseDups, nodup_eraseDups⟩

/-- The path of every applied change is hit, and nothing else is. -/
theorem mem_pathHits_iff {changes : List AppliedChange} :
    path ∈ (ofAppliedChanges changes mutations).pathHits ↔
      ∃ chg ∈ changes, ∃ m,
        mutations[chg.mutationIndex]? = some m ∧ m.path = path := by
  rw [ofAppliedChanges_firstHits, firstHits, mem_eraseDups]
  simp only [resolve, List.mem_map, mem_filterMap, Option.map_eq_some_iff]
  grind

/-- A field is hit exactly when a keyed mutation reported it as applied. -/
theorem mem_fieldHits_iff {changes : List AppliedChange} :
    hit ∈ (ofAppliedChanges changes mutations).fieldHits ↔
      ∃ chg ∈ changes, ∃ m, mutations[chg.mutationIndex]? = some m ∧
        ∃ object, m.object = some object ∧ ∃ idx ∈ chg.fieldIndexes, ∃ field,
          m.fields[idx]? = some field ∧ hit = ⟨m.path, object, field.field⟩ := by
  rw [ofAppliedChanges_firstHits, firstHits, mem_eraseDups]
  simp only [resolve, turnHits, mem_flatMap, mem_filterMap, Option.map_eq_some_iff, Option.mem_toList]
  grind

end ChangeSet

end Tqsdk
