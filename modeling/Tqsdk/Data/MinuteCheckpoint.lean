import Tqsdk.Data.TradingDay
import Tqsdk.Data.Rows
import Tqsdk.Lib.Ranges
import Tqsdk.Lib.OrdMap
import Mathlib.Logic.Relation

/-!
# Provisional minute checkpoints

`minute_kline_cache.rs`: the sidecar file that holds the minutes of the open trading day of a
symbol, the calls of `store_provisional_range` that build it up, and the three places that read
its claim of time.

The file stores one interval.  A call that starts after the complete part of the stored interval
is joined with it all the same, so the time between the two is claimed and was never fetched.
Where no call does this, every instant up to `complete_through_ns` was fetched.
-/

namespace Tqsdk

open List

/-! ## The sidecar file -/

structure MinuteKlineCacheSnapshot where
  version : Nat
  calendarHash : String
  sessionHash : String
  deriving DecidableEq

/-- `ProvisionalMetadata`; the trading day is the day itself and not its text. -/
structure ProvisionalMetadata where
  symbol : String
  tradingDay : Int
  rangeStartNs : Int
  rangeEndNs : Int
  completeThroughNs : Int
  asOfNs : Int
  snapshot : MinuteKlineCacheSnapshot
  deriving DecidableEq

structure ProvisionalFile where
  metadata : ProvisionalMetadata
  rows : List Kline
  deriving DecidableEq

/-- The cache and the path of the sidecar of one symbol. -/
structure ProvisionalSlot where
  readOnly : Bool
  path : String

/-- The arguments of one call of `store_provisional_range`. -/
structure ProvisionalCall where
  symbol : String
  rangeStartNs : Int
  rangeEndNs : Int
  asOfNs : Int
  snapshot : MinuteKlineCacheSnapshot
  rows : List Kline
  deriving DecidableEq

def ProvisionalSlot.ensureWritable (slot : ProvisionalSlot) : Except DataError Unit :=
  if slot.readOnly then .error (.invalidState "minute kline cache was opened read-only") else .ok ()

def ProvisionalSlot.formatError (slot : ProvisionalSlot) (reason : String) : DataError :=
  .invalidResponse ("minute kline cache " ++ slot.path ++ ": " ++ reason)

def validateMetadataString (name value : String) : Except DataError Unit :=
  if value.isEmpty then
    .error (.validation ("minute kline cache " ++ name ++ " must not be empty"))
  else if 65535 < value.utf8ByteSize then
    .error (.validation ("minute kline cache " ++ name ++ " exceeds u16 length"))
  else .ok ()

def MinuteKlineCacheSnapshot.validate (snapshot : MinuteKlineCacheSnapshot) :
    Except DataError Unit := do
  if snapshot.version = 0 then
    .error (.validation "minute kline cache snapshot version must be greater than zero")
  else
    validateMetadataString "calendar hash" snapshot.calendarHash
    validateMetadataString "session hash" snapshot.sessionHash

def validateSymbol (symbol : String) : Except DataError Unit :=
  if symbol.isEmpty then .error (.validation "minute kline cache symbol must not be empty")
  else if 16 * 1024 < symbol.utf8ByteSize then
    .error (.validation "minute kline cache symbol is too long")
  else .ok ()

def validateTimestampRange (startNs endNs : Int) : Except DataError Unit :=
  if endNs ≤ startNs then
    .error (.validation "minute kline cache range start must be before range end")
  else .ok ()

/-- `value - value.rem_euclid(MINUTE_KLINE_DURATION_NS)`. -/
def floorMinute (timestampNs : Int) : Int := timestampNs - timestampNs % nanosPerMinute

def maxProvisionalRows : Nat := 2000

def validateOneStoredRow (slot : ProvisionalSlot) (month : Int) (row : Kline) :
    Except DataError Unit :=
  if row.datetime % nanosPerMinute ≠ 0 then
    .error (slot.formatError "Kline row is not aligned to 60 seconds")
  else if tradingMonth (tradingDayForTimestampNs row.datetime) ≠ month then
    .error (slot.formatError "Kline row belongs to another trading month")
  else .ok ()

def validateStoredRows (slot : ProvisionalSlot) (month : Int) :
    Option Int → List Kline → Except DataError Unit
  | _, [] => .ok ()
  | previous, row :: rest => do
      validateOneStoredRow slot month row
      if previous.any fun datetime => decide (row.datetime ≤ datetime) then
        .error (slot.formatError "Kline rows are not strictly datetime-ordered")
      else validateStoredRows slot month (some row.datetime) rest

def validateProvisionalRow (slot : ProvisionalSlot) (metadata : ProvisionalMetadata)
    (asOfDay : Int) (row : Kline) : Except DataError Unit :=
  match I64.checked (row.datetime + nanosPerMinute) with
  | none => .error (slot.formatError "provisional row end overflow")
  | some rowEndNs =>
    if row.datetime < metadata.rangeStartNs ∨ metadata.rangeEndNs ≤ row.datetime ∨
        metadata.completeThroughNs < rowEndNs ∨
        tradingDayForTimestampNs row.datetime ≠ asOfDay then
      .error (slot.formatError "provisional row outside checkpoint bounds")
    else .ok ()

def validateProvisionalFile (slot : ProvisionalSlot) (file : ProvisionalFile) :
    Except DataError Unit := do
  let metadata := file.metadata
  validateSymbol metadata.symbol
  metadata.snapshot.validate
  validateTimestampRange metadata.rangeStartNs metadata.rangeEndNs
  if metadata.asOfNs < metadata.rangeEndNs ∨
      metadata.completeThroughNs ≠
        min (floorMinute metadata.asOfNs) (floorMinute metadata.rangeEndNs) ∨
      metadata.rangeEndNs < metadata.completeThroughNs ∨
      metadata.completeThroughNs % nanosPerMinute ≠ 0 then
    .error (slot.formatError "invalid provisional time bounds")
  else
    let asOfDay := tradingDayForTimestampNs metadata.asOfNs
    if metadata.tradingDay ≠ asOfDay then
      .error (slot.formatError "provisional trading day mismatch")
    else
      validateStoredRows slot (tradingMonth asOfDay) none file.rows
      let _ ← file.rows.mapM (validateProvisionalRow slot metadata asOfDay)

/-! ## Storing a range -/

def ProvisionalCall.completeThroughNs (call : ProvisionalCall) : Int :=
  min (floorMinute call.asOfNs) (floorMinute call.rangeEndNs)

def ProvisionalCall.tradingDay (call : ProvisionalCall) : Int :=
  tradingDayForTimestampNs call.asOfNs

/-- The test of a row in the loop over the rows of a call. -/
def ProvisionalCall.takes (call : ProvisionalCall) (row : Kline) : Bool :=
  decide (call.rangeStartNs ≤ row.datetime ∧ row.datetime < call.rangeEndNs ∧
    row.datetime + nanosPerMinute ≤ call.completeThroughNs ∧
    tradingDayForTimestampNs row.datetime = call.tradingDay)

/-- The loop that fills `rows_by_datetime`. -/
def acceptRows (call : ProvisionalCall) :
    List Kline → List (Int × Kline) → Except DataError (List (Int × Kline))
  | [], rowsByDatetime => .ok rowsByDatetime
  | row :: rest, rowsByDatetime =>
    match I64.checked (row.datetime + nanosPerMinute) with
    | none => .error (.validation "provisional minute row end overflow")
    | some _ =>
      acceptRows call rest
        (if call.takes row then OrdMap.insert row.datetime row rowsByDatetime
          else rowsByDatetime)

/-- The loop over the rows of the existing file: `entry(…).or_insert(…)`. -/
def keepRows (rangeStartNs : Int) : List Kline → List (Int × Kline) → List (Int × Kline)
  | [], rowsByDatetime => rowsByDatetime
  | row :: rest, rowsByDatetime =>
    keepRows rangeStartNs rest
      (if row.datetime < rangeStartNs ∧ OrdMap.get? row.datetime rowsByDatetime = none then
        OrdMap.insert row.datetime row rowsByDatetime
      else rowsByDatetime)

/-- What a call does with the file: leave the one that is there, or write another. -/
inductive Prepared
  | keep (existing : ProvisionalFile)
  | replace (file : ProvisionalFile)
  deriving DecidableEq

def validateProvisionalIdentity (slot : ProvisionalSlot) (metadata : ProvisionalMetadata)
    (symbol : String) (snapshot : MinuteKlineCacheSnapshot) : Except DataError Unit :=
  if metadata.symbol ≠ symbol then
    .error (slot.formatError "provisional symbol metadata mismatch")
  else if metadata.snapshot ≠ snapshot then
    .error (slot.formatError "provisional snapshot metadata mismatch")
  else .ok ()

def validateCall (slot : ProvisionalSlot) (call : ProvisionalCall) : Except DataError Unit := do
  slot.ensureWritable
  validateSymbol call.symbol
  validateTimestampRange call.rangeStartNs call.rangeEndNs
  call.snapshot.validate
  if call.asOfNs < call.rangeEndNs then
    .error (.validation "provisional minute range must not extend beyond its as-of timestamp")
  else if tradingDayForTimestampNs call.rangeStartNs ≠ call.tradingDay ∨
      tradingDayForTimestampNs (call.rangeEndNs - 1) ≠ call.tradingDay then
    .error (.validation "provisional minute range must stay within its as-of trading day")
  else .ok ()

def ProvisionalCall.file (call : ProvisionalCall) (startNs endNs : Int)
    (rowsByDatetime : List (Int × Kline)) : ProvisionalFile where
  metadata :=
    { symbol := call.symbol
      tradingDay := call.tradingDay
      rangeStartNs := startNs
      rangeEndNs := endNs
      completeThroughNs := call.completeThroughNs
      asOfNs := call.asOfNs
      snapshot := call.snapshot }
  rows := rowsByDatetime.map Prod.snd

/-- The part of `store_provisional_range` before the file is written. -/
def prepareProvisional (slot : ProvisionalSlot) (existing : Option ProvisionalFile)
    (call : ProvisionalCall) : Except DataError Prepared := do
  validateCall slot call
  let rowsByDatetime ← acceptRows call call.rows []
  match existing with
  | none => return .replace (call.file call.rangeStartNs call.rangeEndNs rowsByDatetime)
  | some file =>
    if file.metadata.tradingDay ≠ call.tradingDay then
      return .replace (call.file call.rangeStartNs call.rangeEndNs rowsByDatetime)
    else
      validateProvisionalIdentity slot file.metadata call.symbol call.snapshot
      if call.asOfNs < file.metadata.asOfNs then return .keep file
      else if call.completeThroughNs < file.metadata.completeThroughNs then return .keep file
      else
        return .replace (call.file (min call.rangeStartNs file.metadata.rangeStartNs)
          (max call.rangeEndNs file.metadata.rangeEndNs)
          (keepRows call.rangeStartNs file.rows rowsByDatetime))

/-- How the storage answers a write: it fails before the new file is in its place (also for
metadata that are too long), after that, or not at all. -/
inductive WriteFault
  | beforeRename | afterRename | none
  deriving DecidableEq

/-- `write_provisional_atomically`. -/
def writeProvisional (slot : ProvisionalSlot) (existing : Option ProvisionalFile)
    (file : ProvisionalFile) (fault : WriteFault) :
    Option ProvisionalFile × Except DataError ProvisionalFile :=
  match validateProvisionalFile slot file with
  | .error error => (existing, .error error)
  | .ok () =>
    if maxProvisionalRows < file.rows.length then
      (existing, .error (.validation "provisional minute file exceeds safety limit"))
    else
      match fault with
      | .beforeRename => (existing, .error (.io "provisional minute file was not written"))
      | .afterRename => (some file, .error (.io "provisional directory was not synced"))
      | .none => (some file, .ok file)

/-- The file after a call, and its result.  A file is loaded as it was written. -/
def storeProvisionalRange (slot : ProvisionalSlot) (existing : Option ProvisionalFile)
    (call : ProvisionalCall) (fault : WriteFault) :
    Option ProvisionalFile × Except DataError ProvisionalFile :=
  match prepareProvisional slot existing call with
  | .error error => (existing, .error error)
  | .ok (.keep file) => (existing, .ok file)
  | .ok (.replace file) => writeProvisional slot existing file fault

/-! ## Lookups in the stored rows -/

def rowAt (rows : List Kline) (datetime : Int) : Option Kline :=
  rows.find? fun row => decide (row.datetime = datetime)

/-- The row a call stores for an instant: the last one it delivers there. -/
def ProvisionalCall.rowAt (call : ProvisionalCall) (datetime : Int) : Option Kline :=
  (call.rows.filter fun row => call.takes row && decide (row.datetime = datetime)).getLast?

theorem getLast?_cons_filter {α : Type} {p : α → Bool} {hd : α} {rest : List α} :
    ((hd :: rest).filter p).getLast? =
      (rest.filter p).getLast?.or (if p hd then some hd else none) := by
  rw [filter_cons]
  split
  · rw [getLast?_cons]
    cases (rest.filter p).getLast? <;> rfl
  · cases (rest.filter p).getLast? <;> rfl

variable {call : ProvisionalCall} {rowsByDatetime : List (Int × Kline)} {slot : ProvisionalSlot}
  {rows : List Kline} {day : Int} {state state' : CheckpointState}

theorem get?_acceptRows {res : List (Int × Kline)}
    (ok : acceptRows call rows rowsByDatetime = .ok res) (dt : Int) :
    OrdMap.get? dt res =
      (rows.filter fun row => call.takes row && decide (row.datetime = dt)).getLast?.or
        (OrdMap.get? dt rowsByDatetime) := by
  induction rows generalizing rowsByDatetime with
  | nil =>
    obtain rfl := Except.ok.inj ok
    rfl
  | cons row rows ih =>
    unfold acceptRows at ok
    split at ok
    · cases ok
    · rw [ih ok, getLast?_cons_filter, Option.or_assoc]
      congr 1
      by_cases took : call.takes row = true
      · rw [if_pos took, OrdMap.get?_insert, took, Bool.true_and]
        by_cases same : row.datetime = dt
        · rw [if_pos same.symm, if_pos (decide_eq_true same)]
          rfl
        · rw [if_neg (Ne.symm same), if_neg (by simpa using same)]
          rfl
      · rw [if_neg took, Bool.eq_false_of_not_eq_true took, Bool.false_and,
          if_neg Bool.false_ne_true]
        rfl

theorem get?_keepRows {rngLo : Int} (dt : Int) :
    OrdMap.get? dt (keepRows rngLo rows rowsByDatetime) =
      (OrdMap.get? dt rowsByDatetime).or
        (if dt < rngLo then rowAt rows dt else none) := by
  induction rows generalizing rowsByDatetime with
  | nil => simp [keepRows, rowAt]
  | cons row rows ih =>
    unfold keepRows
    rw [ih]
    by_cases same : row.datetime = dt
    · obtain rfl := same
      have hit : rowAt (row :: rows) row.datetime = some row := by simp [rowAt]
      rw [hit]
      split
      · rename_i ins
        rw [OrdMap.get?_insert_self, ins.2, if_pos ins.1, if_pos ins.1]
        rfl
      · rename_i notInserted
        by_cases early : row.datetime < rngLo
        · obtain ⟨val, here⟩ := Option.ne_none_iff_exists'.mp fun gone => notInserted ⟨early, gone⟩
          rw [here]
          rfl
        · rw [if_neg early, if_neg early]
    · have skipped : rowAt (row :: rows) dt = rowAt rows dt := by simp [rowAt, same]
      rw [skipped]
      split
      · rw [OrdMap.get?_insert_ne (Ne.symm same)]
      · rfl

/-- Every row stands under its own instant. -/
def Keyed (rowsByDatetime : List (Int × Kline)) : Prop :=
  ∀ entry ∈ rowsByDatetime, entry.1 = entry.2.datetime

theorem keyed_insert (key : Keyed rowsByDatetime) (row : Kline) :
    Keyed (OrdMap.insert row.datetime row rowsByDatetime) := by
  intro ent member
  rcases OrdMap.mem_insert member with rfl | member
  · rfl
  · exact key ent member

theorem keyed_acceptRows {res : List (Int × Kline)} (key : Keyed rowsByDatetime)
    (ok : acceptRows call rows rowsByDatetime = .ok res) : Keyed res := by
  induction rows generalizing rowsByDatetime with
  | nil =>
    obtain rfl := Except.ok.inj ok
    exact key
  | cons row rows ih =>
    unfold acceptRows at ok
    split at ok
    · cases ok
    · refine ih ?_ ok
      split
      · exact keyed_insert key row
      · exact key

theorem keyed_keepRows {rngLo : Int} (key : Keyed rowsByDatetime) :
    Keyed (keepRows rngLo rows rowsByDatetime) := by
  induction rows generalizing rowsByDatetime with
  | nil => exact key
  | cons row rows ih =>
    unfold keepRows
    refine ih ?_
    split
    · exact keyed_insert key row
    · exact key

theorem rowAt_map_snd (keyed : Keyed rowsByDatetime) (dt : Int) :
    rowAt (rowsByDatetime.map Prod.snd) dt = OrdMap.get? dt rowsByDatetime := by
  induction rowsByDatetime with
  | nil => rfl
  | cons ent rest ih =>
    obtain ⟨key, row⟩ := ent
    have same : key = row.datetime := keyed (key, row) mem_cons_self
    have rest := ih fun ent mem => keyed ent (mem_cons_of_mem _ mem)
    unfold rowAt at rest ⊢
    rw [map_cons, find?_cons, OrdMap.get?_cons, rest, same]
    by_cases here : row.datetime = dt
    · simp [here]
    · simp [here, Ne.symm here]

/-! ## What a call writes -/

/-- The file a call writes, if it writes one. -/
def writtenFile (slot : ProvisionalSlot) (existing : Option ProvisionalFile)
    (call : ProvisionalCall) (fault : WriteFault) : Option ProvisionalFile :=
  match prepareProvisional slot existing call with
  | .ok (.replace file) => (writeProvisional slot none file fault).1
  | _ => none

theorem writeProvisional_fst (slot : ProvisionalSlot) (old : Option ProvisionalFile)
    (file : ProvisionalFile) (err : WriteFault) :
    (writeProvisional slot old file err).1 = (writeProvisional slot none file err).1.or old := by
  unfold writeProvisional
  split
  · rfl
  · split
    · rfl
    · cases err <;> rfl

theorem writeProvisional_eq_some {file put : ProvisionalFile} {err : WriteFault}
    (wrote : (writeProvisional slot none file err).1 = some put) :
    put = file := by
  unfold writeProvisional at wrote
  split at wrote
  · cases wrote
  · split at wrote
    · cases wrote
    · cases err
      · cases wrote
      · exact (Option.some.inj wrote).symm
      · exact (Option.some.inj wrote).symm

theorem storeProvisionalRange_fst (slot : ProvisionalSlot) (old : Option ProvisionalFile)
    (call : ProvisionalCall) (err : WriteFault) :
    (storeProvisionalRange slot old call err).1 = (writtenFile slot old call err).or old := by
  unfold storeProvisionalRange writtenFile
  split
  · rename_i fail
    rw [fail]
    rfl
  · rename_i kept
    rw [kept]
    rfl
  · rename_i swap
    rw [swap]
    exact writeProvisional_fst slot old _ err

/-- The two ways a call comes to write a file: there is no checkpoint of its day, or there is
one that is not newer, with which it is joined. -/
theorem writtenFile_cases {old : Option ProvisionalFile} {err : WriteFault}
    {new : ProvisionalFile} (wrote : writtenFile slot old call err = some new) :
    call.rangeStartNs < call.rangeEndNs ∧ call.rangeEndNs ≤ call.asOfNs ∧
    ∃ rowsByDatetime, acceptRows call call.rows [] = .ok rowsByDatetime ∧
      (((∀ file, old = some file → file.metadata.tradingDay ≠ call.tradingDay) ∧
          new = call.file call.rangeStartNs call.rangeEndNs rowsByDatetime) ∨
        ∃ file, old = some file ∧ file.metadata.tradingDay = call.tradingDay ∧
          file.metadata.asOfNs ≤ call.asOfNs ∧
          file.metadata.completeThroughNs ≤ call.completeThroughNs ∧
          new = call.file (min call.rangeStartNs file.metadata.rangeStartNs)
            (max call.rangeEndNs file.metadata.rangeEndNs)
            (keepRows call.rangeStartNs file.rows rowsByDatetime)) := by
  unfold writtenFile at wrote
  split at wrote
  case h_2 => cases wrote
  case h_1 file replaced =>
    obtain rfl := writeProvisional_eq_some wrote
    obtain ⟨_, fine, prep⟩ := Result.of_bind replaced
    obtain ⟨rowsByDatetime, acc, prep⟩ := Result.of_bind prep
    obtain ⟨_, -, fine⟩ := Result.of_bind fine
    obtain ⟨_, -, fine⟩ := Result.of_bind fine
    obtain ⟨_, incr, fine⟩ := Result.of_bind fine
    obtain ⟨_, -, fine⟩ := Result.of_bind fine
    unfold validateTimestampRange at incr
    split_ifs at incr with ord
    split_ifs at fine with late
    refine ⟨not_le.mp ord, not_lt.mp late, rowsByDatetime, acc, ?_⟩
    cases old with
    | none =>
      obtain rfl := Prepared.replace.inj (Except.ok.inj prep)
      exact .inl ⟨fun _ isSome => (by cases isSome), rfl⟩
    | some old =>
      dsimp only at prep
      split at prep
      · rename_i otherDay
        obtain rfl := Prepared.replace.inj (Except.ok.inj prep)
        refine .inl ⟨fun _ isSome => ?_, rfl⟩
        obtain rfl := Option.some.inj isSome
        exact otherDay
      · rename_i sameDay
        obtain ⟨_, -, prep⟩ := Result.of_bind prep
        split at prep
        · cases Except.ok.inj prep
        · rename_i notOlder
          split at prep
          · cases Except.ok.inj prep
          · rename_i notLess
            obtain rfl := Prepared.replace.inj (Except.ok.inj prep)
            exact .inr ⟨old, rfl, not_not.mp sameDay, not_lt.mp notOlder, not_lt.mp notLess, rfl⟩

/-! ## The claim of a checkpoint -/

/-- The last of the calls that starts at or before an instant. -/
def lastStarting (accepted : List ProvisionalCall) (instant : Int) : Option ProvisionalCall :=
  accepted.reverse.find? fun call => decide (call.rangeStartNs ≤ instant)

/-- The last of the calls whose range holds an instant. -/
def lastCovering (accepted : List ProvisionalCall) (instant : Int) : Option ProvisionalCall :=
  accepted.reverse.find? fun call =>
    decide (call.rangeStartNs ≤ instant ∧ instant < call.rangeEndNs)

theorem lastStarting_snoc (acc : List ProvisionalCall) (call : ProvisionalCall) (inst : Int) :
    lastStarting (acc ++ [call]) inst =
      if call.rangeStartNs ≤ inst then some call else lastStarting acc inst := by
  unfold lastStarting
  rw [reverse_append, reverse_singleton, singleton_append, find?_cons]
  split
  · rename_i los
    rw [if_pos (of_decide_eq_true los)]
  · rename_i late
    rw [if_neg (of_decide_eq_false late)]

theorem lastCovering_of_lastStarting {acc : List ProvisionalCall} {time : Int}
    (last : lastStarting acc time = some call) (mem : time < call.rangeEndNs) :
    lastCovering acc time = some call := by
  unfold lastStarting at last
  unfold lastCovering
  generalize acc.reverse = calls at last ⊢
  induction calls with
  | nil => cases last
  | cons hd rest ih =>
    rw [find?_cons] at last ⊢
    split at last
    · rename_i los
      obtain rfl := Option.some.inj last
      rw [decide_eq_true ⟨of_decide_eq_true los, mem⟩]
    · rename_i late
      have out : ¬ (hd.rangeStartNs ≤ time ∧ time < hd.rangeEndNs) :=
        fun cov => of_decide_eq_false late cov.1
      rw [decide_eq_false out]
      exact ih last

/-- What the accepted calls make of a checkpoint: it is complete up to the minute its range
ends in, every instant it is complete for lies in the complete part of the last call that starts
before it, and that call has given the row. -/
structure Checkpointed (accepted : List ProvisionalCall) (file : ProvisionalFile) : Prop where
  complete : file.metadata.completeThroughNs = floorMinute file.metadata.rangeEndNs
  reach : ∀ instant, file.metadata.rangeStartNs ≤ instant →
    instant < file.metadata.completeThroughNs →
    ∃ call, lastStarting accepted instant = some call ∧ instant < call.completeThroughNs
  rows : ∀ instant, rowAt file.rows instant =
    (lastStarting accepted instant).bind (·.rowAt instant)

/-- A call goes on with the checkpoint of its day: it starts where that one is complete, or does
not extend it. -/
def ProvisionalCall.Continues (call : ProvisionalCall) (existing : Option ProvisionalFile) : Prop :=
  ∀ file, existing = some file → file.metadata.tradingDay = call.tradingDay →
    call.rangeStartNs ≤ file.metadata.completeThroughNs ∨
      call.completeThroughNs ≤ file.metadata.completeThroughNs ∨
      call.asOfNs < file.metadata.asOfNs

theorem floorMinute_mono {left right : Int} (le : left ≤ right) :
    floorMinute left ≤ floorMinute right := by
  unfold floorMinute nanosPerMinute nanosPerSecond
  omega

theorem floorMinute_le (ts : Int) : floorMinute ts ≤ ts := by
  unfold floorMinute nanosPerMinute nanosPerSecond
  omega

theorem ProvisionalCall.completeThroughNs_eq (seen : call.rangeEndNs ≤ call.asOfNs) :
    call.completeThroughNs = floorMinute call.rangeEndNs :=
  min_eq_right (floorMinute_mono seen)

theorem ProvisionalCall.completeThroughNs_le (call : ProvisionalCall) :
    call.completeThroughNs ≤ call.rangeEndNs :=
  (min_le_right _ _).trans (floorMinute_le _)

theorem ProvisionalCall.rowAt_of_acceptRows
    (acc : acceptRows call call.rows [] = .ok rowsByDatetime) (inst : Int) :
    OrdMap.get? inst rowsByDatetime = call.rowAt inst := by
  rw [get?_acceptRows acc inst, OrdMap.get?_nil, Option.or_none]
  rfl

theorem ProvisionalCall.rowAt_early {time : Int} (early : time < call.rangeStartNs) :
    call.rowAt time = none := by
  unfold rowAt
  rw [getLast?_eq_none_iff, filter_eq_nil_iff]
  intro row _ took
  rw [Bool.and_eq_true, takes, decide_eq_true_eq, decide_eq_true_eq] at took
  omega

theorem checkpointed_first (seen : call.rangeEndNs ≤ call.asOfNs)
    (acc : acceptRows call call.rows [] = .ok rowsByDatetime) :
    Checkpointed [call] (call.file call.rangeStartNs call.rangeEndNs rowsByDatetime) where
  complete := call.completeThroughNs_eq seen
  reach instant starts below := by
    have one := lastStarting_snoc [] call instant
    rw [nil_append] at one
    rw [one]
    exact ⟨call, if_pos starts, below⟩
  rows instant := by
    have key : Keyed rowsByDatetime := keyed_acceptRows (fun _ mem => by cases mem) acc
    have one := lastStarting_snoc [] call instant
    rw [nil_append] at one
    rw [one]
    refine (rowAt_map_snd key instant).trans ?_
    rw [call.rowAt_of_acceptRows acc]
    split
    · rfl
    · rename_i early
      exact call.rowAt_early (not_le.mp early)

/-- A call joined with the checkpoint that it goes on with. -/
theorem Checkpointed.join {acc : List ProvisionalCall} {file : ProvisionalFile}
    (ckpt : Checkpointed acc file)
    (sameDay : file.metadata.tradingDay = call.tradingDay) (continues : call.Continues (some file))
    (seen : call.rangeEndNs ≤ call.asOfNs) (notOlder : file.metadata.asOfNs ≤ call.asOfNs)
    (notLess : file.metadata.completeThroughNs ≤ call.completeThroughNs)
    (isAccepted : acceptRows call call.rows [] = .ok rowsByDatetime) :
    Checkpointed (acc ++ [call])
      (call.file (min call.rangeStartNs file.metadata.rangeStartNs)
        (max call.rangeEndNs file.metadata.rangeEndNs)
        (keepRows call.rangeStartNs file.rows rowsByDatetime)) where
  complete := by
    change call.completeThroughNs = floorMinute (max call.rangeEndNs file.metadata.rangeEndNs)
    rw [call.completeThroughNs_eq seen] at notLess ⊢
    rw [ckpt.complete] at notLess
    rcases le_total file.metadata.rangeEndNs call.rangeEndNs with le | ge
    · rw [max_eq_left le]
    · rw [max_eq_right ge]
      exact le_antisymm (floorMinute_mono ge) notLess
  reach instant los below := by
    change min call.rangeStartNs file.metadata.rangeStartNs ≤ instant at los
    change instant < call.completeThroughNs at below
    rw [lastStarting_snoc]
    split
    · exact ⟨call, rfl, below⟩
    · rename_i late
      -- the instant is before the call, so it is one of the stored checkpoint
      refine ckpt.reach instant (by omega) ?_
      rcases continues file rfl sameDay with joins | within | older
      · omega
      · omega
      · omega
  rows instant := by
    have key : Keyed rowsByDatetime := keyed_acceptRows (fun _ mem => by cases mem) isAccepted
    refine (rowAt_map_snd (keyed_keepRows key) instant).trans ?_
    rw [get?_keepRows, call.rowAt_of_acceptRows isAccepted, lastStarting_snoc]
    by_cases los : call.rangeStartNs ≤ instant
    · rw [if_neg los.not_gt, if_pos los, Option.or_none]
      rfl
    · rw [if_pos (not_le.mp los), if_neg los, call.rowAt_early (not_le.mp los), ckpt.rows]
      rfl

/-! ## Runs -/

/-- The sidecar together with the calls whose files have replaced it since the start. -/
structure CheckpointState where
  file : Option ProvisionalFile
  accepted : List ProvisionalCall

def CheckpointState.store (slot : ProvisionalSlot) (state : CheckpointState)
    (call : ProvisionalCall) (fault : WriteFault) : CheckpointState where
  file := (storeProvisionalRange slot state.file call fault).1
  accepted :=
    if (writtenFile slot state.file call fault).isSome then state.accepted ++ [call]
    else state.accepted

/-- A call for a trading day that goes on with the stored checkpoint. -/
def CheckpointState.SafeStep (slot : ProvisionalSlot) (day : Int)
    (state state' : CheckpointState) : Prop :=
  ∃ call fault, call.tradingDay = day ∧ call.Continues state.file ∧
    state' = state.store slot call fault

/-- No checkpoint of the day is stored, or its claim is that of the accepted calls. -/
def CheckpointState.Sound (day : Int) (state : CheckpointState) : Prop :=
  ((∀ file, state.file = some file → file.metadata.tradingDay ≠ day) ∧ state.accepted = []) ∨
    ∃ file, state.file = some file ∧ file.metadata.tradingDay = day ∧
      Checkpointed state.accepted file

theorem CheckpointState.Sound.step {slot : ProvisionalSlot} {day : Int}
    {state state' : CheckpointState} (snd : state.Sound day)
    (step : SafeStep slot day state state') : state'.Sound day := by
  obtain ⟨call, err, rfl, continues, rfl⟩ := step
  unfold store
  rw [storeProvisionalRange_fst]
  cases wrote : writtenFile slot state.file call err with
  | none => exact snd
  | some new =>
    obtain ⟨-, seen, rowsByDatetime, acc, hd | joined⟩ := writtenFile_cases wrote
    · obtain ⟨noFile, rfl⟩ := hd
      refine .inr ⟨_, rfl, rfl, ?_⟩
      rcases snd with ⟨-, emp⟩ | ⟨file, isFile, sameDay, -⟩
      · dsimp only
        rw [Option.isSome_some, if_pos rfl, emp]
        exact checkpointed_first seen acc
      · exact absurd sameDay (noFile file isFile)
    · obtain ⟨file, isFile, sameDay, notOlder, notLess, rfl⟩ := joined
      refine .inr ⟨_, rfl, rfl, ?_⟩
      rcases snd with ⟨otherDay, -⟩ | ⟨file', isFile', -, ckpt⟩
      · exact absurd sameDay (otherDay file isFile)
      · rw [isFile] at isFile' continues
        obtain rfl := Option.some.inj isFile'
        dsimp only
        rw [Option.isSome_some, if_pos rfl]
        exact ckpt.join sameDay continues seen notOlder notLess acc

theorem CheckpointState.Sound.run (snd : state.Sound day)
    (run : Relation.ReflTransGen (SafeStep slot day) state state') : state'.Sound day := by
  induction run with
  | refl => exact snd
  | tail _ step ih => exact ih.step step

/-- Checkpoints of the day only get newer. -/
def Newer (day : Int) (before after : Option ProvisionalFile) : Prop :=
  ∀ file, before = some file → file.metadata.tradingDay = day →
    ∃ file', after = some file' ∧ file'.metadata.tradingDay = day ∧
      file.metadata.asOfNs ≤ file'.metadata.asOfNs ∧
      file.metadata.completeThroughNs ≤ file'.metadata.completeThroughNs

theorem newer_step (step : CheckpointState.SafeStep slot day state state') :
    Newer day state.file state'.file := by
  obtain ⟨call, err, rfl, -, rfl⟩ := step
  intro file isFile sameDay
  unfold CheckpointState.store
  rw [storeProvisionalRange_fst]
  cases wrote : writtenFile slot state.file call err with
  | none => exact ⟨file, isFile, sameDay, le_rfl, le_rfl⟩
  | some new =>
    refine ⟨new, rfl, ?_⟩
    obtain ⟨-, -, rowsByDatetime, -, hd | joined⟩ := writtenFile_cases wrote
    · exact absurd sameDay (hd.1 file isFile)
    · obtain ⟨file', isFile', -, notOlder, notLess, rfl⟩ := joined
      rw [isFile] at isFile'
      obtain rfl := Option.some.inj isFile'
      exact ⟨rfl, notOlder, notLess⟩

theorem newer_run (run : Relation.ReflTransGen (CheckpointState.SafeStep slot day) state state') :
    Newer day state.file state'.file := by
  induction run with
  | refl => exact fun file isFile sameDay => ⟨file, isFile, sameDay, le_rfl, le_rfl⟩
  | tail _ step ih =>
    intro file isFile sameDay
    obtain ⟨mid, isMiddle, middleDay, asOf, complete⟩ := ih file isFile sameDay
    obtain ⟨last, fin, lastDay, asOf', complete'⟩ := newer_step step mid isMiddle middleDay
    exact ⟨last, fin, lastDay, asOf.trans asOf', complete.trans complete'⟩

end Tqsdk
