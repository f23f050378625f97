import Tqsdk.Adapter.ObjectKeys

/-!
# Handles and the commits they are told about

The handles of `tqsdk-wait`: what a handle shows of the state, and whether the changes of a
commit are taken to be changes of it.  A change is matched one way: it concerns a handle when
it lies at a path of the handle or below.
-/

namespace Tqsdk

open List

open Value

/-! ## Matching -/

/-- What `ChangeTrackedRef` answers for a handle. -/
structure ChangeTrackedRef where
  objectKey : Option ObjectKey
  statePath : StatePath
  extraStatePaths : List StatePath
  fieldStatePaths : List StatePath

def ChangeTrackedRef.paths (target : ChangeTrackedRef) : List StatePath :=
  target.statePath :: target.extraStatePaths

def pathMatches (target changed : StatePath) : Bool :=
  target.length ≤ changed.length && (target.zip changed).all fun pair => pair.1 == pair.2

def matchesAny (changes : ChangeSet) (target : ChangeTrackedRef) : Bool :=
  target.objectKey.any (fun key => changes.objectHits.contains key) ||
    changes.pathHits.any (pathMatches target.statePath) ||
    target.extraStatePaths.any fun path => changes.pathHits.any (pathMatches path)

def matchesFields (changes : ChangeSet) (target : ChangeTrackedRef) (fields : List String) :
    Bool :=
  changes.fieldHits.any fun hit =>
    fields.contains hit.field &&
      (target.objectKey.any (fun key => hit.object == key) ||
        target.fieldStatePaths.any fun path => pathMatches path hit.path)

theorem pathMatches_iff {tgt chg : StatePath} :
    pathMatches tgt chg = true ↔ tgt <+: chg := by
  induction tgt generalizing chg with
  | nil => simp [pathMatches]
  | cons seg tgt ih =>
    cases chg with
    | nil => simp [pathMatches]
    | cons alt chg =>
      rw [cons_prefix_cons, ← ih]
      simp only [pathMatches, length_cons, Nat.add_le_add_iff_right, zip_cons_cons,
        all_cons, Bool.and_eq_true, decide_eq_true_eq, beq_iff_eq]
      tauto

variable {id : Int} {changes : ChangeSet} {snapshot : Value}

theorem matchesAny_of_hit {tgt : ChangeTrackedRef} {path hit : StatePath}
    (trkd : path ∈ tgt.paths) (note : hit ∈ changes.pathHits) (less : path <+: hit) :
    matchesAny changes tgt = true := by
  have hits : changes.pathHits.any (pathMatches path) = true :=
    any_eq_true.mpr ⟨hit, note, pathMatches_iff.mpr less⟩
  unfold matchesAny
  rcases mem_cons.mp trkd with rfl | extra
  · simp [hits]
  · have any : (tgt.extraStatePaths.any fun path => changes.pathHits.any (pathMatches path)) =
        true := any_eq_true.mpr ⟨path, extra, hits⟩
    simp [any]

/-! ## Row ids -/

/-- The values of an `i64`. -/
def IsI64 (n : Int) : Prop := -2 ^ 63 ≤ n ∧ n < 2 ^ 63

theorem parseDigits_toDigits (n : Nat) : parseDigits (Nat.toDigits 10 n) = some n := by
  have digits : (Nat.toDigits 10 n).all Char.isDigit = true :=
    all_eq_true.mpr fun _ mem => Nat.isDigit_of_mem_toDigits (by decide) (by decide) mem
  have ne : (Nat.toDigits 10 n).isEmpty = false := isEmpty_eq_false_iff.mpr Nat.toDigits_ne_nil
  have val : (Nat.toDigits 10 n).foldl (fun n c => 10 * n + (c.toNat - '0'.toNat)) 0 = n := by
    rw [← Nat.ofDigitChars_eq_foldl, Nat.ofDigitChars_ten_toDigits]
  rw [parseDigits, ne, digits, val]
  rfl

theorem parseI64_toString (fits : IsI64 id) : parseI64 (toString id) = some id := by
  obtain ⟨low, high⟩ := fits
  cases id with
  | ofNat n =>
    have text : (toString (Int.ofNat n)).toList = Nat.toDigits 10 n := Nat.toList_repr
    have bnd : n < 2 ^ 63 := by
      rw [Int.ofNat_eq_natCast] at high
      omega
    have head : ∀ sign rest, Nat.toDigits 10 n = sign :: rest → sign.isDigit = true := by
      intro sign rest same
      exact Nat.isDigit_of_mem_toDigits (by decide) (by decide) (same ▸ mem_cons_self)
    unfold parseI64
    rw [text]
    split
    · rename_i rest same
      exact absurd (head _ _ same) (by decide)
    · rename_i rest same
      exact absurd (head _ _ same) (by decide)
    · rw [parseDigits_toDigits, Option.bind_some, if_pos bnd]
      rfl
  | negSucc n =>
    have text : (toString (Int.negSucc n)).toList = '-' :: Nat.toDigits 10 (n + 1) := by
      change ("-" ++ Nat.repr (n + 1)).toList = _
      rw [String.toList_append, Nat.toList_repr]
      rfl
    have bnd : n + 1 ≤ 2 ^ 63 := by
      rw [Int.negSucc_eq] at low
      omega
    unfold parseI64
    rw [text]
    change ((parseDigits (Nat.toDigits 10 (n + 1))).bind _) = _
    rw [parseDigits_toDigits, Option.bind_some, if_pos bnd, Int.negSucc_eq]
    rfl

/-- Insertion into a `BTreeSet<i64>`. -/
def insertId (id : Int) : List Int → List Int
  | [] => [id]
  | first :: rest =>
    if id < first then id :: first :: rest
    else if id = first then first :: rest
    else first :: insertId id rest

theorem mem_insertId {alt : Int} {ids : List Int} :
    alt ∈ insertId id ids ↔ alt = id ∨ alt ∈ ids := by
  induction ids with
  | nil => simp [insertId]
  | cons hd rest ih =>
    unfold insertId
    split
    · simp
    · split
      · rename_i same
        simp [same]
      · simp only [mem_cons, ih]
        tauto

/-- A `BTreeSet<i64>` of the ids. -/
def collectIds (ids : List Int) : List Int := ids.foldl (fun set id => insertId id set) []

theorem mem_collectIds {ids : List Int} : id ∈ collectIds ids ↔ id ∈ ids := by
  have fold (set : List Int) :
      id ∈ ids.foldl (fun set id => insertId id set) set ↔ id ∈ ids ∨ id ∈ set := by
    induction ids generalizing set with
    | nil => simp
    | cons hd rest ih =>
      rw [foldl_cons, ih, mem_insertId, mem_cons]
      tauto
  simpa [collectIds] using fold []

/-- `left..=right`. -/
def idsBetween (left right : Int) : List Int :=
  (List.range (right - left + 1).toNat).map fun n : Nat => left + n

theorem mem_idsBetween {left right : Int} :
    id ∈ idsBetween left right ↔ left ≤ id ∧ id ≤ right := by
  simp only [idsBetween, mem_map, mem_range]
  constructor
  · rintro ⟨n, bnd, rfl⟩
    omega
  · rintro ⟨low, high⟩
    exact ⟨(id - left).toNat, by omega, by omega⟩

/-! ## Handles -/

structure KlineHandle where
  symbol : String
  durationNs : Int
  durationFits : IsI64 durationNs
  chartId : String

structure MultiKlineHandle where
  symbols : List String
  durationNs : Int
  viewWidth : Nat
  chartId : String

structure TickHandle where
  symbol : String
  viewWidth : Nat
  chartId : String

def chartPath (chartId : String) : StatePath := ["charts", chartId]

def klineDataPath (symbol : String) (durationNs : Int) : StatePath :=
  ["klines", symbol, toString durationNs, "data"]

def tickDataPath (symbol : String) : StatePath := ["ticks", symbol, "data"]

def bindingPath (primary : String) (durationNs : Int) (secondary : String) : StatePath :=
  ["klines", primary, toString durationNs, "binding", secondary]

/-- A row below the data of its series. -/
def rowPath (dataPath : StatePath) (id : Int) : StatePath := dataPath ++ [toString id]

def chartBounds (snapshot : Value) (chartId : String) : Option (Int × Int) :=
  match (snapshot.getAtPath (chartPath chartId ++ ["left_id"])).bind asI64,
      (snapshot.getAtPath (chartPath chartId ++ ["right_id"])).bind asI64 with
  | some left, some right => if left ≤ right then some (left, right) else none
  | _, _ => none

def idInChartBounds (snapshot : Value) (chartId : String) (id : Int) : Bool :=
  (chartBounds snapshot chartId).any fun bounds => bounds.1 ≤ id && id ≤ bounds.2

/-- The handles on one object of the state. -/
inductive ObjectHandle
  | quote (symbol : Symbol)
  | account (accountId : AccountId)
  | position (accountId : AccountId) (symbol : Symbol)
  | order (accountId : AccountId) (orderId : OrderId)
  | trade (accountId : AccountId) (tradeId : TradeId)

def ObjectHandle.objectKey : ObjectHandle → ObjectKey
  | .quote symbol => .quote symbol
  | .account accountId => .account accountId
  | .position accountId symbol => .position accountId symbol
  | .order accountId orderId => .order accountId orderId
  | .trade accountId tradeId => .trade accountId tradeId

def ObjectHandle.statePath : ObjectHandle → StatePath
  | .quote symbol => ["quotes", symbol]
  | .account accountId => ["trade", accountId, "accounts", "CNY"]
  | .position accountId symbol => ["trade", accountId, "positions", symbol]
  | .order accountId orderId => ["trade", accountId, "orders", orderId]
  | .trade accountId tradeId => ["trade", accountId, "trades", tradeId]

def ObjectHandle.tracked (handle : ObjectHandle) : ChangeTrackedRef :=
  ⟨some handle.objectKey, handle.statePath, [], []⟩

/-- A chart with the series it shows. -/
def seriesRef (chartId : String) (paths : List StatePath) : ChangeTrackedRef :=
  ⟨some (.chart chartId), chartPath chartId, paths, paths⟩

def KlineHandle.dataPath (handle : KlineHandle) : StatePath :=
  klineDataPath handle.symbol handle.durationNs

def KlineHandle.tracked (handle : KlineHandle) : ChangeTrackedRef :=
  seriesRef handle.chartId [handle.dataPath]

def MultiKlineHandle.tracked (handle : MultiKlineHandle) : ChangeTrackedRef :=
  seriesRef handle.chartId <|
    match handle.symbols with
    | [] => []
    | primary :: others =>
      handle.symbols.map (klineDataPath · handle.durationNs) ++
        others.map (bindingPath primary handle.durationNs)

def TickHandle.dataPath (handle : TickHandle) : StatePath := tickDataPath handle.symbol

def TickHandle.tracked (handle : TickHandle) : ChangeTrackedRef :=
  seriesRef handle.chartId [handle.dataPath]

/-! ## What a handle shows -/

/-- The ids that `KlineHandle::window` reads. -/
def KlineHandle.windowIds (handle : KlineHandle) (snapshot : Value) : List Int :=
  match chartBounds snapshot handle.chartId with
  | none => []
  | some (left, right) => idsBetween left right

/-- A turn of the loop of `row_ids_from_guard`: a full set forgets its first id. -/
def TickHandle.visitKey (handle : TickHandle) (left right : Int) (ids : List Int)
    (entry : String × Value) : List Int :=
  match parseI64 entry.1 with
  | none => ids
  | some id =>
    if id < left || right < id then ids
    else
      let ids := insertId id ids
      if handle.viewWidth < ids.length then ids.tail else ids

/-- `row_ids_from_guard`: the last ids of the data that lie in the bounds of the chart. -/
def TickHandle.windowIds (handle : TickHandle) (snapshot : Value) : List Int :=
  match chartBounds snapshot handle.chartId, snapshot.getAtPath handle.dataPath with
  | some (left, right), some (.object data) => data.foldl (handle.visitKey left right) []
  | _, _ => []

/-- The rows with these ids, as far as they are there. -/
def storedRows (snapshot : Value) (dataPath : StatePath) (ids : List Int) : List (Int × Value) :=
  ids.filterMap fun id => (snapshot.getAtPath (rowPath dataPath id)).map (id, ·)

def bindingRowId (snapshot : Value) (primary : String) (durationNs : Int) (secondary : String)
    (primaryId : Int) : Option Int := do
  let value ← snapshot.getAtPath
    (bindingPath primary durationNs secondary ++ [toString primaryId])
  let boundId ← value.asI64.or (value.asStr.bind parseI64)
  if 0 ≤ boundId then some boundId else none

/-- The rows of the other symbols that are bound to a row of the first. -/
def boundRows (snapshot : Value) (primary : String) (durationNs primaryId : Int) :
    List String → Fields → Option Fields
  | [], rows => some rows
  | symbol :: rest, rows => do
      let boundId ← bindingRowId snapshot primary durationNs symbol primaryId
      let row ← snapshot.getAtPath (rowPath (klineDataPath symbol durationNs) boundId)
      boundRows snapshot primary durationNs primaryId rest (OrdMap.insert symbol row rows)

def MultiKlineHandle.alignedRow (handle : MultiKlineHandle) (snapshot : Value) (primaryId : Int) :
    Option (Int × Fields) :=
  match handle.symbols with
  | [] => none
  | primary :: others => do
      let row ← snapshot.getAtPath (rowPath (klineDataPath primary handle.durationNs) primaryId)
      let rows ← boundRows snapshot primary handle.durationNs primaryId others
        (OrdMap.insert primary row [])
      return (primaryId, rows)

/-- `MultiKlineHandle::window`: the last aligned rows, up to the view width. -/
def MultiKlineHandle.window (handle : MultiKlineHandle) (snapshot : Value) :
    List (Int × Fields) :=
  match chartBounds snapshot handle.chartId with
  | none => []
  | some (left, right) =>
    let rows := (idsBetween left right).filterMap (handle.alignedRow snapshot)
    rows.drop (rows.length - handle.viewWidth)

inductive TrackedHandle
  | object (handle : ObjectHandle)
  | kline (handle : KlineHandle)
  | multiKline (handle : MultiKlineHandle)
  | tick (handle : TickHandle)

def TrackedHandle.tracked : TrackedHandle → ChangeTrackedRef
  | .object handle => handle.tracked
  | .kline handle => handle.tracked
  | .multiKline handle => handle.tracked
  | .tick handle => handle.tracked

/-- What a handle reads: its object, or the ids and contents of its rows. -/
inductive Shown
  | object (value : Option Value)
  | rows (rows : List (Int × Value))
  | aligned (rows : List (Int × Fields))
  deriving DecidableEq

def TrackedHandle.shown (snapshot : Value) : TrackedHandle → Shown
  | .object handle => .object (snapshot.getAtPath handle.statePath)
  | .kline handle => .rows (storedRows snapshot handle.dataPath (handle.windowIds snapshot))
  | .multiKline handle => .aligned (handle.window snapshot)
  | .tick handle => .rows (storedRows snapshot handle.dataPath (handle.windowIds snapshot))

/-! ## What a handle shows depends on its paths -/

section SamePaths

variable {before after : Value}

theorem getAtPath_below {path : StatePath} (same : after.getAtPath path = before.getAtPath path)
    (rest : StatePath) : after.getAtPath (path ++ rest) = before.getAtPath (path ++ rest) := by
  rw [getAtPath_append, getAtPath_append, same]

theorem chartBounds_congr {cht : String}
    (same : after.getAtPath (chartPath cht) = before.getAtPath (chartPath cht)) :
    chartBounds after cht = chartBounds before cht := by
  unfold chartBounds
  rw [getAtPath_below same, getAtPath_below same]

theorem storedRows_congr {path : StatePath}
    (same : after.getAtPath path = before.getAtPath path) (ids : List Int) :
    storedRows after path ids = storedRows before path ids := by
  unfold storedRows rowPath
  simp only [getAtPath_below same]

theorem KlineHandle.windowIds_congr {handle : KlineHandle}
    (same : after.getAtPath (chartPath handle.chartId) =
      before.getAtPath (chartPath handle.chartId)) :
    handle.windowIds after = handle.windowIds before := by
  unfold windowIds
  rw [chartBounds_congr same]

theorem TickHandle.windowIds_congr {handle : TickHandle}
    (same : after.getAtPath (chartPath handle.chartId) =
      before.getAtPath (chartPath handle.chartId))
    (sameData : after.getAtPath handle.dataPath = before.getAtPath handle.dataPath) :
    handle.windowIds after = handle.windowIds before := by
  unfold windowIds
  rw [chartBounds_congr same, sameData]

theorem boundRows_congr {prim : String} {dur : Int} {syms : List String} (primaryId : Int)
    (sameData : ∀ sym ∈ syms, after.getAtPath (klineDataPath sym dur) =
      before.getAtPath (klineDataPath sym dur))
    (sameBinding : ∀ sym ∈ syms, after.getAtPath (bindingPath prim dur sym) =
      before.getAtPath (bindingPath prim dur sym)) (rows : Fields) :
    boundRows after prim dur primaryId syms rows =
      boundRows before prim dur primaryId syms rows := by
  induction syms generalizing rows with
  | nil => rfl
  | cons sym syms ih =>
    have binding := getAtPath_below (sameBinding sym mem_cons_self) [toString primaryId]
    have row (id : Int) := getAtPath_below (sameData sym mem_cons_self) [toString id]
    have rest := ih (fun alt mem => sameData alt (mem_cons_of_mem _ mem))
      fun alt mem => sameBinding alt (mem_cons_of_mem _ mem)
    simp only [boundRows, bindingRowId, rowPath, binding, row, rest]

theorem MultiKlineHandle.window_congr {handle : MultiKlineHandle}
    (same : ∀ path ∈ handle.tracked.paths, after.getAtPath path = before.getAtPath path) :
    handle.window after = handle.window before := by
  have algn : handle.alignedRow after = handle.alignedRow before := by
    funext primaryId
    unfold alignedRow
    cases syms : handle.symbols with
    | nil => rfl
    | cons prim alts =>
      have trkd (path : StatePath)
          (mem : path ∈ (prim :: alts).map (klineDataPath · handle.durationNs) ++
            alts.map (bindingPath prim handle.durationNs)) :
          after.getAtPath path = before.getAtPath path := by
        refine same path (mem_cons_of_mem _ ?_)
        unfold MultiKlineHandle.tracked
        rw [syms]
        exact mem
      have data (sym : String) (mem : sym ∈ prim :: alts) :=
        trkd (klineDataPath sym handle.durationNs) (mem_append_left _ (mem_map_of_mem mem))
      have binding (sym : String) (mem : sym ∈ alts) :=
        trkd (bindingPath prim handle.durationNs sym) (mem_append_right _ (mem_map_of_mem mem))
      have row := getAtPath_below (data prim mem_cons_self) [toString primaryId]
      have rest := boundRows_congr primaryId
        (fun sym mem => data sym (mem_cons_of_mem _ mem)) binding
      simp only [rowPath, row, rest]
  unfold window
  rw [chartBounds_congr (same _ mem_cons_self), algn]

theorem TrackedHandle.shown_congr {handle : TrackedHandle}
    (same : ∀ path ∈ handle.tracked.paths, after.getAtPath path = before.getAtPath path) :
    handle.shown after = handle.shown before := by
  cases handle with
  | object handle => exact congrArg Shown.object (same _ mem_cons_self)
  | kline handle =>
    have data := same handle.dataPath (mem_cons_of_mem _ mem_cons_self)
    rw [shown, shown, KlineHandle.windowIds_congr (same _ mem_cons_self), storedRows_congr data]
  | multiKline handle => exact congrArg Shown.aligned (MultiKlineHandle.window_congr same)
  | tick handle =>
    have data := same handle.dataPath (mem_cons_of_mem _ mem_cons_self)
    rw [shown, shown, TickHandle.windowIds_congr (same _ mem_cons_self) data, storedRows_congr data]

end SamePaths

/-! ## The rows that changed -/

section ChangedRows

variable {ε α : Type} (decode : Value → Except ε α)

/-- The rows with these ids, decoded; the first row that cannot be decoded ends it. -/
def decodeRows (snapshot : Value) (dataPath : StatePath) : List Int → Except ε (List α)
  | [] => .ok []
  | id :: rest =>
    match snapshot.getAtPath (rowPath dataPath id) with
    | none => decodeRows snapshot dataPath rest
    | some value => do
        let row ← decode value
        let rows ← decodeRows snapshot dataPath rest
        return row :: rows

/-- `changed_rows`: the changed rows that are visible, or the window when no row id is known. -/
def changedRowsOf (changing : Bool) (snapshot : Value) (dataPath : StatePath)
    (windowIds changedIds : List Int) (visible : Int → Bool) : Except ε (List α) :=
  if !changing then .ok []
  else if changedIds.isEmpty then decodeRows decode snapshot dataPath windowIds
  else decodeRows decode snapshot dataPath (changedIds.filter visible)

def klineRowIdFromPath (symbol : String) (durationNs : Int) : StatePath → Option Int
  | [root, pathSymbol, duration, rowId] =>
    if root == "klines" && pathSymbol == symbol && parseI64 duration == some durationNs then
      parseI64 rowId
    else none
  | [root, pathSymbol, duration, data, rowId] =>
    if root == "klines" && pathSymbol == symbol && parseI64 duration == some durationNs &&
        data == "data" then
      parseI64 rowId
    else none
  | _ => none

def KlineHandle.rowIdOfKey (handle : KlineHandle) : ObjectKey → Option Int
  | .kline series barId =>
    if series.primary == handle.symbol && series.durationNs == handle.durationNs then some barId
    else none
  | _ => none

def KlineHandle.changedRowIds (handle : KlineHandle) (changes : ChangeSet) : List Int :=
  collectIds (changes.objectHits.filterMap handle.rowIdOfKey ++
    changes.fieldHits.filterMap (fun hit => handle.rowIdOfKey hit.object) ++
    changes.pathHits.filterMap (klineRowIdFromPath handle.symbol handle.durationNs))

def KlineHandle.changedRows (handle : KlineHandle) (changes : ChangeSet) (snapshot : Value) :
    Except ε (List α) :=
  changedRowsOf decode (matchesAny changes handle.tracked) snapshot handle.dataPath
    (handle.windowIds snapshot) (handle.changedRowIds changes)
    (idInChartBounds snapshot handle.chartId)

def tickRowIdFromPath (symbol : String) : StatePath → Option Int
  | [root, pathSymbol, rowId] =>
    if root == "ticks" && pathSymbol == symbol then parseI64 rowId else none
  | [root, pathSymbol, data, rowId] =>
    if root == "ticks" && pathSymbol == symbol && data == "data" then parseI64 rowId else none
  | _ => none

def TickHandle.rowIdOfKey (handle : TickHandle) : ObjectKey → Option Int
  | .tick symbol tickId => if symbol == handle.symbol then some tickId else none
  | _ => none

def backtestTickRowMarkerField : String := "_wait_backtest_tick_row_id"

def TickHandle.currentBacktestTickMarker (handle : TickHandle) (snapshot : Value) : Option Int :=
  (snapshot.getAtPath (chartPath handle.chartId ++ [backtestTickRowMarkerField])).bind asI64

/-- The ids a field hit gives: of the row it is about, and of the row a backtest marks. -/
def TickHandle.rowIdsOfHit (handle : TickHandle) (snapshot : Value) (hit : ChangeHit) :
    List Int :=
  (handle.rowIdOfKey hit.object).toList ++
    if hit.object == .chart handle.chartId && hit.field == backtestTickRowMarkerField then
      (handle.currentBacktestTickMarker snapshot).toList
    else []

def TickHandle.changedRowIds (handle : TickHandle) (changes : ChangeSet) (snapshot : Value) :
    List Int :=
  collectIds (changes.objectHits.filterMap handle.rowIdOfKey ++
    changes.fieldHits.flatMap (handle.rowIdsOfHit snapshot) ++
    changes.pathHits.filterMap (tickRowIdFromPath handle.symbol))

def TickHandle.changedRows (handle : TickHandle) (changes : ChangeSet) (snapshot : Value) :
    Except ε (List α) :=
  changedRowsOf decode (matchesAny changes handle.tracked) snapshot handle.dataPath
    (handle.windowIds snapshot) (handle.changedRowIds changes snapshot)
    fun id => idInChartBounds snapshot handle.chartId id && (handle.windowIds snapshot).contains id

theorem mem_decodeRows {snapshot : Value} {path : StatePath} {ids : List Int} {rows : List α}
    (dec : decodeRows decode snapshot path ids = .ok rows) {id : Int} (mem : id ∈ ids)
    {val : Value} (got : snapshot.getAtPath (rowPath path id) = some val) {row : α}
    (reads : decode val = .ok row) : row ∈ rows := by
  induction ids generalizing rows with
  | nil => cases mem
  | cons hd rest ih =>
    rw [decodeRows] at dec
    cases here : snapshot.getAtPath (rowPath path hd) with
    | none =>
      rw [here] at dec
      rcases mem_cons.mp mem with rfl | later
      · rw [here] at got
        cases got
      · exact ih dec later
    | some hit =>
      rw [here] at dec
      dsimp only at dec
      cases head : decode hit with
      | error error =>
        rw [head] at dec
        cases dec
      | ok decodedRow =>
        cases tail : decodeRows decode snapshot path rest with
        | error error =>
          rw [head, tail] at dec
          cases dec
        | ok alts =>
          rw [head, tail] at dec
          cases dec
          rcases mem_cons.mp mem with rfl | later
          · rw [here] at got
            obtain rfl := Option.some.inj got
            rw [head] at reads
            obtain rfl := Except.ok.inj reads
            exact mem_cons_self
          · exact mem_cons_of_mem _ (ih tail later)

/-- A visible row of the window is among the changed rows when it is known to have changed, or
when no row is. -/
theorem mem_changedRowsOf {changing : Bool} {snapshot : Value} {path : StatePath}
    {windowIds chgIds : List Int} {vis : Int → Bool} {rows : List α}
    (told : changedRowsOf decode changing snapshot path windowIds chgIds vis =
      .ok rows) (changes : changing = true) {id : Int} (wnd : id ∈ windowIds)
    (shows : vis id = true) (seen : id ∈ chgIds ∨ chgIds = []) {val : Value}
    (got : snapshot.getAtPath (rowPath path id) = some val) {row : α}
    (reads : decode val = .ok row) : row ∈ rows := by
  unfold changedRowsOf at told
  rw [changes] at told
  rcases seen with chg | none_
  · have some_ : chgIds.isEmpty = false := by
      cases chgIds with
      | nil => cases chg
      | cons _ _ => rfl
    rw [some_] at told
    exact mem_decodeRows decode told (mem_filter.mpr ⟨chg, shows⟩) got reads
  · rw [none_] at told
    exact mem_decodeRows decode told wnd got reads

end ChangedRows

/-! ## A row that is hit is known to have changed -/

theorem KlineHandle.mem_changedRowIds {handle : KlineHandle} (fits : IsI64 id)
    (hit : rowPath handle.dataPath id ∈ changes.pathHits) :
    id ∈ handle.changedRowIds changes := by
  refine mem_collectIds.mpr (mem_append_right _ (mem_filterMap.mpr ⟨_, hit, ?_⟩))
  have dur := parseI64_toString handle.durationFits
  have row := parseI64_toString fits
  change (if _ then parseI64 (toString id) else none) = some id
  rw [dur, row]
  simp

theorem TickHandle.mem_changedRowIds {handle : TickHandle} (fits : IsI64 id)
    (hit : rowPath handle.dataPath id ∈ changes.pathHits) :
    id ∈ handle.changedRowIds changes snapshot := by
  refine mem_collectIds.mpr (mem_append_right _ (mem_filterMap.mpr ⟨_, hit, ?_⟩))
  have row := parseI64_toString fits
  change (if _ then parseI64 (toString id) else none) = some id
  rw [row]
  simp

theorem KlineHandle.visible_of_window {handle : KlineHandle}
    (wnd : id ∈ handle.windowIds snapshot) :
    idInChartBounds snapshot handle.chartId id = true := by
  unfold windowIds at wnd
  unfold idInChartBounds
  cases bnds : chartBounds snapshot handle.chartId with
  | none =>
    rw [bnds] at wnd
    cases wnd
  | some pair =>
    rw [bnds] at wnd
    obtain ⟨low, high⟩ := mem_idsBetween.mp wnd
    simp [low, high]

theorem TickHandle.foldl_visitKey_within (handle : TickHandle) (left right : Int)
    (ents : Fields) (ids : List Int) (wtn : ∀ id ∈ ids, left ≤ id ∧ id ≤ right) :
    ∀ id ∈ ents.foldl (handle.visitKey left right) ids, left ≤ id ∧ id ≤ right := by
  induction ents generalizing ids with
  | nil => exact wtn
  | cons ent ents ih =>
    refine ih _ ?_
    unfold visitKey
    split
    · exact wtn
    · split
      · exact wtn
      · rename_i parsed _ inn
        rw [Bool.or_eq_true, decide_eq_true_eq, decide_eq_true_eq, not_or] at inn
        have ins : ∀ id ∈ insertId parsed ids, left ≤ id ∧ id ≤ right := by
          intro id mem
          rcases mem_insertId.mp mem with rfl | old
          · exact ⟨by omega, by omega⟩
          · exact wtn id old
        dsimp only
        split
        · exact fun id mem => ins id (mem_of_mem_tail mem)
        · exact ins

theorem TickHandle.visible_of_window {handle : TickHandle} {snapshot : Value} {id : Int}
    (wnd : id ∈ handle.windowIds snapshot) :
    idInChartBounds snapshot handle.chartId id = true := by
  unfold windowIds at wnd
  unfold idInChartBounds
  cases bnds : chartBounds snapshot handle.chartId with
  | none =>
    rw [bnds] at wnd
    cases wnd
  | some pair =>
    rw [bnds] at wnd
    cases data : snapshot.getAtPath handle.dataPath with
    | none =>
      rw [data] at wnd
      cases wnd
    | some val =>
      rw [data] at wnd
      cases val with
      | object ents =>
        -- only ids in the bounds are ever inserted
        have win := handle.foldl_visitKey_within pair.1 pair.2 ents [] nofun id wnd
        simpa using win
      | null | bool | number | string | array => cases wnd

/-! ## What a commit tells a handle -/

/-- A mutation of the batch overwrites the path from above: it deletes, replaces or writes the next
key on the way to it. -/
def ChangedAbove (store : StateStore) (mutations : List NormalizedMutation) (changes : ChangeSet)
    (path : StatePath) : Prop :=
  ChangedBy store mutations changes path fun mutation => mutation.Overwrites path

section Commit

variable {store store' : StateStore} {mutations : List NormalizedMutation} {commit : CommitResult}

/-- What is needed of a commit: every difference is the work of a hit mutation. -/
def ReportsDifferences (store store' : StateStore) (mutations : List NormalizedMutation)
    (commit : CommitResult) : Prop :=
  ∀ path, store'.partitions.materialized.getAtPath path ≠
      store.partitions.materialized.getAtPath path →
    ChangedBy store mutations commit.changes path fun mutation =>
      mutation.Overwrites path ∨ path <+: mutation.path

variable (reports : ReportsDifferences store store' mutations commit)

include reports

theorem changedAbove_or_hit {path : StatePath}
    (ne : store'.partitions.materialized.getAtPath path ≠
      store.partitions.materialized.getAtPath path) :
    ChangedAbove store mutations commit.changes path ∨
      ChangedBy store mutations commit.changes path fun mutation => path <+: mutation.path := by
  obtain ⟨position, mutation, stored, hit, above | below, differs⟩ := reports path ne
  · exact .inl ⟨position, mutation, stored, hit, above, differs⟩
  · exact .inr ⟨position, mutation, stored, hit, below, differs⟩

theorem isChanging_of_differs {tgt : ChangeTrackedRef} {path : StatePath} (trkd : path ∈ tgt.paths)
    (ne : store'.partitions.materialized.getAtPath path ≠
      store.partitions.materialized.getAtPath path) :
    matchesAny commit.changes tgt = true ∨
      ∃ path ∈ tgt.paths, ChangedAbove store mutations commit.changes path := by
  rcases changedAbove_or_hit reports ne with above | ⟨-, mutation, -, hit, below, -⟩
  · exact .inr ⟨path, trkd, above⟩
  · exact .inl (matchesAny_of_hit trkd hit below)

theorem isChanging_of_shown {handle : TrackedHandle}
    (ne : handle.shown store'.partitions.materialized ≠
      handle.shown store.partitions.materialized) :
    matchesAny commit.changes handle.tracked = true ∨
      ∃ path ∈ handle.tracked.paths, ChangedAbove store mutations commit.changes path := by
  by_contra silent
  apply ne
  apply TrackedHandle.shown_congr
  intro path trkd
  by_contra changed
  exact silent (isChanging_of_differs reports trkd changed)

/-- Why a row may be left out of the changed rows: the row, its series or the chart was overwritten
from above, only something inside the row was written, or the row only moved into the window while
other rows are known to have changed. -/
inductive RowLeftOut (store : StateStore) (mutations : List NormalizedMutation)
    (changes : ChangeSet) (chartId : String) (dataPath : StatePath) (id : Int)
    (movedIn : Prop) : Prop
  | above (overwritten : ∃ path ∈ [rowPath dataPath id, dataPath, chartPath chartId],
      ChangedAbove store mutations changes path)
  | inside (written : ChangedBy store mutations changes (rowPath dataPath id) fun mutation =>
      rowPath dataPath id <+: mutation.path ∧ mutation.path ≠ rowPath dataPath id)
  | movedIn (moved : movedIn)

/-- The rows that a handle of the series returns hold every row of its window that is new there or
that had another content before, unless the row is left out. -/
def TellsRows (store store' : StateStore) (mutations : List NormalizedMutation)
    (changes : ChangeSet) (chartId : String) (dataPath : StatePath)
    (windowIds : Value → List Int) (changedRowIds : List Int) {ε α : Type}
    (decode : Value → Except ε α) (rows : List α) : Prop :=
  let before := store.partitions.materialized
  let after := store'.partitions.materialized
  ∀ id ∈ windowIds after, IsI64 id →
    ∀ val, after.getAtPath (rowPath dataPath id) = some val → ∀ row, decode val = .ok row →
      ¬(id ∈ windowIds before ∧ before.getAtPath (rowPath dataPath id) = some val) →
        row ∈ rows ∨ RowLeftOut store mutations changes chartId dataPath id
          (before.getAtPath (rowPath dataPath id) = some val ∧ changedRowIds ≠ [])

/-- A series: its window depends on the chart and the data, and a row that is hit is known to
have changed. -/
theorem tellsRows {ε α : Type} {decode : Value → Except ε α} {cht : String} {dataPath : StatePath}
    {windowIds : Value → List Int} {chgIds : List Int} {vis : Int → Bool} {rows : List α}
    (congr : ∀ before after : Value,
      after.getAtPath (chartPath cht) = before.getAtPath (chartPath cht) →
      after.getAtPath dataPath = before.getAtPath dataPath → windowIds after = windowIds before)
    (seen : ∀ id, IsI64 id → rowPath dataPath id ∈ commit.changes.pathHits → id ∈ chgIds)
    (shows : ∀ id ∈ windowIds store'.partitions.materialized, vis id = true)
    (told : changedRowsOf decode (matchesAny commit.changes (seriesRef cht [dataPath]))
      store'.partitions.materialized dataPath (windowIds store'.partitions.materialized)
      chgIds vis = .ok rows) :
    TellsRows store store' mutations commit.changes cht dataPath windowIds chgIds decode rows := by
  intro id wnd fits val got row reads new
  by_cases same : store.partitions.materialized.getAtPath (rowPath dataPath id) = some val
  · -- the row itself is as it was, so the window has moved
    have move : windowIds store'.partitions.materialized ≠
        windowIds store.partitions.materialized := by
      intro still
      rw [still] at wnd
      exact new ⟨wnd, same⟩
    have changing : matchesAny commit.changes (seriesRef cht [dataPath]) = true ∨
        ∃ path ∈ (seriesRef cht [dataPath]).paths,
          ChangedAbove store mutations commit.changes path := by
      by_contra silent
      refine move (congr _ _ ?_ ?_)
      · by_contra ne
        exact silent (isChanging_of_differs reports mem_cons_self ne)
      · by_contra ne
        exact silent (isChanging_of_differs reports (mem_cons_of_mem _ mem_cons_self) ne)
    rcases changing with changing | ⟨path, trk, hit⟩
    · by_cases none_ : chgIds = []
      · exact .inl (mem_changedRowsOf decode told changing wnd (shows id wnd)
          (.inr none_) got reads)
      · exact .inr (.movedIn ⟨same, none_⟩)
    · refine .inr (.above ⟨path, ?_, hit⟩)
      simp only [ChangeTrackedRef.paths, seriesRef, mem_cons, not_mem_nil, or_false] at trk ⊢
      exact .inr trk.symm
  · have ne : store'.partitions.materialized.getAtPath (rowPath dataPath id) ≠
        store.partitions.materialized.getAtPath (rowPath dataPath id) := by
      rw [got]
      exact Ne.symm same
    rcases changedAbove_or_hit reports ne with
      above | ⟨position, mutation, stored, hit, below, differs⟩
    · exact .inr (.above ⟨_, mem_cons_self, above⟩)
    · by_cases exact_ : mutation.path = rowPath dataPath id
      · rw [exact_] at hit
        have changing : matchesAny commit.changes (seriesRef cht [dataPath]) = true :=
          matchesAny_of_hit (mem_cons_of_mem _ mem_cons_self) hit (prefix_append _ _)
        exact .inl (mem_changedRowsOf decode told changing wnd (shows id wnd)
          (.inl (seen id fits hit)) got reads)
      · exact .inr (.inside ⟨position, mutation, stored, hit, ⟨below, exact_⟩, differs⟩)

end Commit

/-! ## Fields of an object -/

variable (handle : ObjectHandle)

theorem ObjectHandle.keyedPath : KeyedPath handle.statePath := by
  cases handle with
  | quote sym => exact .inl ⟨sym, rfl⟩
  | account | position | order | trade => exact .inr ⟨_, _, _, rfl⟩

theorem ObjectHandle.inferObjectKey :
    inferObjectKeyFromSegments handle.statePath = some handle.objectKey := by
  cases handle <;> rfl

/-- A mutation of an object is applied field by field. -/
theorem ObjectHandle.writesFields {mu : NormalizedMutation}
    (here : mu.path = handle.statePath) : WritesFields mu := by
  unfold WritesFields partitionPath
  rw [here]
  cases handle <;> exact ⟨by simp [statePath, partitionPathSegments, isPartitionRootDelete,
    StateRoot.fromSegment], by simp [statePath, partitionPathSegments, isDirectScalarPath,
    StateRoot.fromSegment]⟩

/-- A mutation that overwrites the object from above, or writes inside of the field. -/
def ObjectHandle.WritesFieldAround (field : String) (mutation : NormalizedMutation) : Prop :=
  mutation.path ≠ handle.statePath ∧ mutation.Overwrites (handle.statePath ++ [field]) ∨
    handle.statePath ++ [field] <+: mutation.path

/-- A field of the object differs: the handle is told so, or the object was overwritten from above,
or the field is an object that was written by itself. -/
theorem isChangingFields_of_differs {store : StateStore} (srt : store.partitions.FallbackSorted)
    {muts : List NormalizedMutation} (keyed : ∀ m ∈ muts, KeyedByPath m) (handle : ObjectHandle)
    {fld : String}
    (differs : (StateStore.applyLoop 0 store.partitions muts).1.materialized.getAtPath
      (handle.statePath ++ [fld]) ≠
        store.partitions.materialized.getAtPath (handle.statePath ++ [fld])) :
    let changes := ChangeSet.ofAppliedChanges
      (StateStore.applyLoop 0 store.partitions muts).2.1
      (StateStore.applyLoop 0 store.partitions muts).2.2
    matchesFields changes handle.tracked [fld] = true ∨
      ChangedBy store muts changes (handle.statePath ++ [fld]) (handle.WritesFieldAround fld) := by
  intro changes
  have keyOf {m : NormalizedMutation} (mem : m ∈ muts)
      (here : m.path = handle.statePath) : m.object = some handle.objectKey := by
    have key := keyed m mem (here ▸ handle.keyedPath)
    rw [key, here, handle.inferObjectKey]
  rcases CommitEngine.field_reported srt differs with
    ⟨hit, recorded, -, sameField, m, mem, here, obj⟩ |
    ⟨position, other, stored, recorded, above | below | ⟨here, special⟩, turned⟩
  · refine .inl (any_eq_true.mpr ⟨hit, recorded, ?_⟩)
    have own : hit.object = handle.objectKey := Option.some.inj (obj.symm.trans (keyOf mem here))
    simp [sameField, own, ObjectHandle.tracked]
  · exact .inr ⟨position, other, stored, recorded, .inl above, turned⟩
  · exact .inr ⟨position, other, stored, recorded, .inr below, turned⟩
  · rcases special with unkeyed | whole
    · rw [keyOf (mem_of_getElem? stored) here] at unkeyed
      cases unkeyed
    · exact absurd (handle.writesFields here) whole

/-! ## Every handle is told -/

namespace CommitResult

/-- `WaitStep::is_changing`. -/
def isChanging (commit : CommitResult) (target : ChangeTrackedRef) : Bool :=
  matchesAny commit.changes target

/-- `WaitStep::is_changing_fields`. -/
def isChangingFields (commit : CommitResult) (target : ChangeTrackedRef)
    (fields : List String) : Bool :=
  matchesFields commit.changes target fields

end CommitResult

/-- A commit of `ingest` tells every handle of what it shows.  Whatever a handle shows, a
field of its object, a row of its window: when it differs after the commit, the handle is told,
unless a mutation of the input overwrote it from above, or wrote inside of it (a field that is an
object, a row), or the row only moved into the window while other rows have changed. -/
theorem RuntimeHandle.ingest_tells_handles {store store' : StateStore} {commit : CommitResult}
    (reachable : store.Reachable) (adapters : AdapterRegistry) (input : RuntimeInput)
    (causedBy : List CommandId) (scope : CommitScope)
    (ingested : ingest adapters store input causedBy scope = .ok (store', some commit)) :
    let before := store.partitions.materialized
    let after := store'.partitions.materialized
    ∃ mutations, (adapters.decodeInputOwned input >>=
      normalizeMutations store (inputDomains input)) = .ok mutations ∧
    (∀ handle : TrackedHandle, handle.shown after ≠ handle.shown before →
      commit.isChanging handle.tracked = true ∨
        ∃ path ∈ handle.tracked.paths, ChangedAbove store mutations commit.changes path) ∧
    (∀ (handle : ObjectHandle) (fld : String),
      after.getAtPath (handle.statePath ++ [fld]) ≠
          before.getAtPath (handle.statePath ++ [fld]) →
        commit.isChangingFields handle.tracked [fld] = true ∨
          ChangedBy store mutations commit.changes (handle.statePath ++ [fld])
            (handle.WritesFieldAround fld)) ∧
    (∀ (ε α : Type) (decode : Value → Except ε α) (handle : KlineHandle) (rows : List α),
      handle.changedRows decode commit.changes after = .ok rows →
        TellsRows store store' mutations commit.changes handle.chartId handle.dataPath
          handle.windowIds (handle.changedRowIds commit.changes) decode rows) ∧
    ∀ (ε α : Type) (decode : Value → Except ε α) (handle : TickHandle) (rows : List α),
      handle.changedRows decode commit.changes after = .ok rows →
        TellsRows store store' mutations commit.changes handle.chartId handle.dataPath
          handle.windowIds (handle.changedRowIds commit.changes after) decode rows := by
  intro before after
  obtain ⟨mutations, decoded, key, app⟩ := ingest_ok ingested
  have sorted := reachable.fallbackSorted
  rw [CommitEngine.apply_eq] at app
  have reports : ReportsDifferences store store' mutations commit := by
    split at app <;> cases app
    exact fun path ne => CommitEngine.changedBy_of_differs sorted ne
  refine ⟨mutations, decoded, fun handle ne => isChanging_of_shown reports ne, ?_, ?_, ?_⟩
  · intro handle fld ne
    split at app <;> cases app
    exact isChangingFields_of_differs sorted key handle ne
  · intro ε α decode handle rows ans
    exact tellsRows reports (fun _ _ ch _ => handle.windowIds_congr ch)
      (fun _ fits hit => handle.mem_changedRowIds fits hit)
      (fun _ mem => handle.visible_of_window mem) ans
  · intro ε α decode handle rows ans
    refine tellsRows reports (fun _ _ ch data => handle.windowIds_congr ch data)
      (fun _ fits hit => handle.mem_changedRowIds fits hit) (fun id mem => ?_) ans
    rw [handle.visible_of_window mem, contains_iff_mem.mpr mem]
    rfl

/-- A packet with one item on the market domain. -/
def marketItem (fields : Fields) : RuntimeInput :=
  .io ⟨"md", [.market], .json (.object [("aid", .string "rtn_data"),
    ("data", .array [.object fields])])⟩

/-- A chart over the last two of three rows. -/
def chartStore : StateStore :=
  (CommitEngine.apply (.new 0)
    [⟨["charts", "c"], some (.chart "c"), [⟨"left_id", .ofI64 6⟩, ⟨"right_id", .ofI64 7⟩],
        .marketDiff⟩,
      ⟨["klines", "X", "60", "data", "5"], none, [⟨"close", .ofI64 1⟩], .marketDiff⟩,
      ⟨["klines", "X", "60", "data", "6"], none, [⟨"close", .ofI64 1⟩], .marketDiff⟩,
      ⟨["klines", "X", "60", "data", "7"], none, [⟨"close", .ofI64 1⟩], .marketDiff⟩]
    [.market] [] .realtimeUpdate).1

theorem chartStore_reachable : chartStore.Reachable :=
  .commit _ _ _ (.new 0) (by decide) (by simp [NormalizedMutation.Wf, ofI64, Wf])

def chartHandle : KlineHandle := ⟨"X", 60, by unfold IsI64; omega, "c"⟩

/-- The last row of the chart is written, and its series is hit with the new `last_id`: no mutation
overwrites the rows, so the handle is told. -/
theorem RuntimeHandle.ingest_tells_kline :
    ∃ store' commit, ingest AdapterRegistry.defaultAdapters chartStore
        (marketItem [("klines", .object [("X", .object [("60", .object [("last_id", .ofI64 8),
          ("data", .object [("7", .object [("close", .ofI64 2)])])])])])]) [] .realtimeUpdate =
          .ok (store', some commit) ∧
      ["klines", "X", "60"] ∈ commit.changes.pathHits ∧
      commit.isChanging (TrackedHandle.kline chartHandle).tracked = true := by
  obtain ⟨store', commit, ing, hit, ne⟩ : ∃ store' commit,
      ingest AdapterRegistry.defaultAdapters chartStore
        (marketItem [("klines", .object [("X", .object [("60", .object [("last_id", .ofI64 8),
          ("data", .object [("7", .object [("close", .ofI64 2)])])])])])]) [] .realtimeUpdate =
          .ok (store', some commit) ∧
        ["klines", "X", "60"] ∈ commit.changes.pathHits ∧
        (TrackedHandle.kline chartHandle).shown store'.partitions.materialized ≠
          (TrackedHandle.kline chartHandle).shown chartStore.partitions.materialized :=
    ⟨_, _, rfl, by decide, by decide⟩
  obtain ⟨mutations, decoded, told, -⟩ := ingest_tells_handles chartStore_reachable
    AdapterRegistry.defaultAdapters _ [] .realtimeUpdate ing
  have clear : ∀ path ∈ (TrackedHandle.kline chartHandle).tracked.paths,
      ∀ mutation ∈ mutations, ¬mutation.Overwrites path := by
    cases decoded
    simp only [NormalizedMutation.Overwrites, WritesFields]
    decide
  refine ⟨store', commit, ing, hit, (told _ ne).resolve_right ?_⟩
  rintro ⟨path, tracked, position, mutation, stored, -, overwrites, -⟩
  exact clear path tracked mutation (mem_of_getElem? stored) overwrites

/-- A quote that its parent removes, a field that is an object, and a row that moves into the
window while another one is written: the handles are not told. -/
theorem RuntimeHandle.ingest_untold :
    CommitEngine.quoteStore.Reachable ∧ chartStore.Reachable ∧
      (∃ store' commit, ingest AdapterRegistry.defaultAdapters CommitEngine.quoteStore
          (marketItem [("quotes", .object [("X", .null)])]) [] .realtimeUpdate =
            .ok (store', some commit) ∧
        CommitEngine.quoteStore.partitions.materialized.getAtPath ["quotes", "X"] ≠ none ∧
        store'.partitions.materialized.getAtPath ["quotes", "X"] = none ∧
        commit.isChanging (ObjectHandle.quote "X").tracked = false) ∧
      (∃ store' commit, ingest AdapterRegistry.defaultAdapters CommitEngine.quoteStore
          (marketItem [("quotes", .object [("X", .object [("limits",
            .object [("upper", .ofI64 9)])])])]) [] .realtimeUpdate = .ok (store', some commit) ∧
        store'.partitions.materialized.getAtPath ["quotes", "X", "limits"] ≠
          CommitEngine.quoteStore.partitions.materialized.getAtPath ["quotes", "X", "limits"] ∧
        commit.isChangingFields (ObjectHandle.quote "X").tracked ["limits"] = false) ∧
      ∃ store' commit, ingest AdapterRegistry.defaultAdapters chartStore
          (marketItem [("charts", .object [("c", .object [("left_id", .ofI64 5)])]),
            ("klines", .object [("X", .object [("60", .object [("data", .object [("7",
              .object [("close", .ofI64 2)])])])])])]) [] .realtimeUpdate =
            .ok (store', some commit) ∧
        chartHandle.windowIds chartStore.partitions.materialized = [6, 7] ∧
        chartHandle.windowIds store'.partitions.materialized = [5, 6, 7] ∧
        chartHandle.changedRows (ε := Unit) (α := Value) .ok commit.changes
            store'.partitions.materialized =
          .ok [.object [("close", .ofI64 2), ("id", .ofI64 7)]] := by
  refine ⟨CommitEngine.quoteStore_reachable, chartStore_reachable, ⟨_, _, rfl, ?_⟩, ⟨_, _, rfl, ?_⟩,
    ⟨_, _, rfl, ?_⟩⟩
  · decide
  · decide
  · decide

end Tqsdk
