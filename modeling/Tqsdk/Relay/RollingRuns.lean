import Tqsdk.Relay.RollingViews
import Mathlib.Logic.Equiv.List
import Mathlib.Tactic.DeriveEncodable

/-!
# Runs of the rolling writer

Intents and restarts on one cache root.  Every view is kept in a run whose rows meet their rings.
-/

namespace Tqsdk

open List Result

open HistoryContainer RollingMarketCache

/-- A writer and the files it works on, with what was sent so far. -/
structure RollingWorld where
  writer : RollingWriter
  files : RollingFiles
  upstream : String → Upstream
  sent : String → Int → List StoredKline

/-- An intent, or a restart of the writer; a tick comes with the id run that it is of. -/
inductive RollingInput
  | sourceEpoch (epoch : Nat)
  | tick (symbol : String) (run : Nat) (tick : Tick)
  | kline (symbol : String) (durationNs : Int) (row : StoredKline)
  | restart

namespace RollingSystem

variable (system : RollingSystem)

/-- A step of the writer on what may be sent to it. -/
inductive Step : RollingWorld → RollingInput → RollingWorld → Prop
  | sourceEpoch (world : RollingWorld) (epoch : Nat) :
      Step world (.sourceEpoch epoch)
        { world with
          writer := (system.process world.writer world.files (.sourceEpoch epoch)).writer }
  | tick {world : RollingWorld} {symbol : String} {run : Nat} {tick : Tick} {next : Upstream}
      (sends : (world.upstream symbol).Sends run tick next) (stored : tick.Stored) :
      Step world (.tick symbol run tick)
        { world with
          writer := (system.process world.writer world.files (.tick symbol tick)).writer
          files := (system.process world.writer world.files (.tick symbol tick)).files
          upstream := Function.update world.upstream symbol next }
  | kline {world : RollingWorld} {symbol : String} {durationNs : Int} {row : StoredKline}
      (arrives : KlineArrives (world.sent symbol durationNs) row) (stored : row.Stored) :
      Step world (.kline symbol durationNs row)
        { world with
          writer := (system.process world.writer world.files (.kline symbol durationNs row)).writer
          files := (system.process world.writer world.files (.kline symbol durationNs row)).files
          sent := fun other duration =>
            if other = symbol ∧ duration = durationNs then row :: world.sent other duration
            else world.sent other duration }
  | restart {world : RollingWorld} {writer : RollingWriter}
      (started : system.start world.files = .ok writer) :
      Step world .restart { world with writer := writer }

/-- The row of an input meets the ring of its stream. -/
def Meets (world : RollingWorld) : RollingInput → Prop
  | .tick symbol run tick => TickMeets system.cache.capacity (world.upstream symbol)
      (system.tickRing world.writer world.files symbol) symbol run tick
  | .kline symbol durationNs row => KlineMeets system.cache.capacity
      (system.klineRing world.writer world.files symbol durationNs) symbol durationNs row
  | _ => True

/-- The worlds of the runs on an empty cache root whose rows meet their rings. -/
inductive Reaches : RollingWorld → Prop
  | start {writer : RollingWriter} (started : system.start [] = .ok writer) :
      Reaches ⟨writer, [], fun _ => .empty, fun _ _ => []⟩
  | step {world next : RollingWorld} {input : RollingInput} (before : Reaches world)
      (meets : system.Meets world input) (step : system.Step world input next) : Reaches next

/-- An input was processed as it should be: the write was accepted, the view that is loaded is the
ring of the writer, and the ring has the row and is in order. -/
def Kept (world : RollingWorld) (input : RollingInput) (next : RollingWorld) : Prop :=
  match input with
  | .tick symbol _ tick =>
    (system.process world.writer world.files (.tick symbol tick)).persisted = true ∧
    ∃ metadata ring, Table.get? symbol next.writer.rings = some ring ∧
      system.cache.loadTicks system.wire system.zstd next.files symbol =
        .ok (some ⟨metadata, ring⟩) ∧
      ring.length ≤ system.cache.capacity ∧ tick ∈ ring ∧
      ((ring.map Tick.id).IsChain fun left right => right = left + 1) ∧
      (ring.Pairwise fun left right => left.datetime ≤ right.datetime) ∧
      ∃ run, ∀ row ∈ ring, (next.upstream symbol).RunOf row run
  | .kline symbol durationNs row =>
    (system.process world.writer world.files (.kline symbol durationNs row)).persisted = true ∧
    ∃ metadata ring, Table.get? (symbol, durationNs) next.writer.klineRings = some ring ∧
      system.cache.loadKlines system.wire system.zstd next.files symbol durationNs =
        .ok (some ⟨metadata, ring⟩) ∧
      ring.length ≤ system.cache.capacity ∧ row ∈ ring ∧
      ∀ earlier ∈ next.sent symbol durationNs, (∃ kept ∈ ring, kept.id = earlier.id) ∨
        (ring.length = system.cache.capacity ∧ ∀ kept ∈ ring, earlier.id < kept.id)
  | _ => True

/-! ## The invariant -/

/-- A symbol has neither a view nor a ring, or a view that its ring, if there is one, agrees
with. -/
def TickView (writer : RollingWriter) (files : RollingFiles) (up : Upstream) (symbol : String) :
    Prop :=
  (Table.get? (symbol, .tick) files = none ∧ Table.get? symbol writer.rings = none) ∨
    ∃ snapshot, system.cache.loadTicks system.wire system.zstd files symbol =
        .ok (some snapshot) ∧
      (Table.get? symbol writer.rings = none ∨
        Table.get? symbol writer.rings = some snapshot.rows) ∧
      GoodTicks system.cache.capacity up snapshot.rows

def KlineView (writer : RollingWriter) (files : RollingFiles) (sent : List StoredKline)
    (symbol : String) (durationNs : Int) : Prop :=
  (Table.get? (symbol, .kline durationNs) files = none ∧
      Table.get? (symbol, durationNs) writer.klineRings = none ∧ sent = []) ∨
    ∃ snapshot, system.cache.loadKlines system.wire system.zstd files symbol durationNs =
        .ok (some snapshot) ∧
      (Table.get? (symbol, durationNs) writer.klineRings = none ∨
        Table.get? (symbol, durationNs) writer.klineRings = some snapshot.rows) ∧
      GoodKlines system.cache.capacity sent snapshot.rows

structure Sound (world : RollingWorld) : Prop where
  upstream : ∀ symbol, (world.upstream symbol).Sound
  ticks : ∀ symbol, system.TickView world.writer world.files (world.upstream symbol) symbol
  klines : ∀ symbol durationNs, system.KlineView world.writer world.files
    (world.sent symbol durationNs) symbol durationNs

variable {system} {writer : RollingWriter} {files next : RollingFiles} {symbol : String}
  {durationNs : Int}

section

variable {R : Type}
  {read : List Nat → HistoryContainer.Index RollingMarketCacheMetadata → Nat →
    Except DataError (List R)}
  {c : RollingMarketCache} {wire : IndexWire RollingMarketCacheMetadata}
  {kind : RollingMarketCacheKind}

theorem load_congr (same : Table.get? (symbol, kind) next = Table.get? (symbol, kind) files) :
    c.load wire read next symbol kind = c.load wire read files symbol kind := by
  unfold RollingMarketCache.load
  rw [same]

theorem load_absent (abst : Table.get? (symbol, kind) files = none)
    (snap : RollingMarketCacheSnapshot R) :
    c.load wire read files symbol kind ≠ .ok (some snap) := by
  unfold RollingMarketCache.load
  rw [abst]
  intro loaded
  obtain ⟨⟨⟩, -, loaded⟩ := of_bind loaded
  cases loaded

end

theorem goodTicks_nil (cap : Nat) (up : Upstream) : GoodTicks cap up [] where
  few := Nat.zero_le _
  fits := Nat.zero_le _
  consecutive := .nil
  ordered := .nil
  stored := forall_mem_nil _
  ends := forall_mem_nil _
  oneRun := ⟨0, forall_mem_nil _⟩

theorem goodKlines_nil (cap : Nat) : GoodKlines cap [] [] where
  few := Nat.zero_le _
  fits := Nat.zero_le _
  ids := .nil
  ordered := .nil
  stored := forall_mem_nil _
  ends := forall_mem_nil _
  known := forall_mem_nil _
  largest := forall_mem_nil _

variable {up : Upstream} {sent : List StoredKline} {world : RollingWorld}

theorem TickView.good (view : system.TickView writer files up symbol) :
    GoodTicks system.cache.capacity up (system.tickRing writer files symbol) := by
  unfold tickRing
  rcases view with ⟨gone, noRing⟩ | ⟨snap, load, noRing | ring, good⟩
  · rw [noRing]
    dsimp only
    split
    · rename_i snap load
      exact absurd load (load_absent gone snap)
    · exact goodTicks_nil _ _
  · rw [noRing, load]
    exact good
  · rw [ring]
    exact good

theorem KlineView.good (view : system.KlineView writer files sent symbol durationNs) :
    GoodKlines system.cache.capacity sent (system.klineRing writer files symbol durationNs) := by
  unfold klineRing
  rcases view with ⟨gone, noRing, rfl⟩ | ⟨snap, load, noRing | ring, good⟩
  · rw [noRing]
    dsimp only
    split
    · rename_i snap load
      exact absurd load (load_absent gone snap)
    · exact goodKlines_nil _
  · rw [noRing, load]
    exact good
  · rw [ring]
    exact good

theorem validateMetadata_metadataAt (writer : RollingWriter) (rev : Nat) :
    system.cache.validateMetadata (system.metadataAt writer rev) = .ok () := by
  unfold validateMetadata metadataAt
  rw [if_neg]
  rintro (other | other | other | other | less)
  · exact other rfl
  · exact other rfl
  · exact other rfl
  · exact other rfl
  · exact absurd less (lt_irrefl _)

theorem TickView.of_same {post : RollingWriter} (view : system.TickView writer files up symbol)
    (sameFile : Table.get? (symbol, .tick) next = Table.get? (symbol, .tick) files)
    (sameRing : Table.get? symbol post.rings = Table.get? symbol writer.rings) :
    system.TickView post next up symbol := by
  have loads : system.cache.loadTicks system.wire system.zstd next symbol =
      system.cache.loadTicks system.wire system.zstd files symbol := load_congr sameFile
  unfold TickView at *
  rwa [sameFile, sameRing, loads]

theorem KlineView.of_same {sent : List StoredKline} {post : RollingWriter}
    (view : system.KlineView writer files sent symbol durationNs)
    (sameFile : Table.get? (symbol, .kline durationNs) next =
      Table.get? (symbol, .kline durationNs) files)
    (sameRing : Table.get? (symbol, durationNs) post.klineRings =
      Table.get? (symbol, durationNs) writer.klineRings) :
    system.KlineView post next sent symbol durationNs := by
  have loads : system.cache.loadKlines system.wire system.zstd next symbol durationNs =
      system.cache.loadKlines system.wire system.zstd files symbol durationNs :=
    load_congr sameFile
  unfold KlineView at *
  rwa [sameFile, sameRing, loads]

/-! ## Steps -/

theorem get?_upsert_self {κ α : Type} [DecidableEq κ] (key : κ) (row : α)
    (tbl : List (κ × α)) : Table.get? key (Table.upsert key row (fun _ => row) tbl) = some row := by
  rw [Table.get?_upsert, if_pos rfl]
  cases Table.get? key tbl <;> rfl

theorem get?_upsert_other {κ α : Type} [DecidableEq κ] {key alt : κ} (ne : alt ≠ key)
    (row : α) (tbl : List (κ × α)) :
    Table.get? alt (Table.upsert key row (fun _ => row) tbl) = Table.get? alt tbl := by
  rw [Table.get?_upsert, if_neg ne]

/-- What processing a tick that meets its ring does. -/
theorem processTick_spec {up after : Upstream} {run : Nat} {tick : Tick}
    (small : SmallIndexes system.wire) (sound : up.Sound)
    (view : system.TickView writer files up symbol) (sends : up.Sends run tick after)
    (stored : tick.Stored) (meets : TickMeets system.cache.capacity up
      (system.tickRing writer files symbol) symbol run tick) :
    ∃ next ring metadata, (system.processTick writer files symbol tick).files = next ∧
      (system.processTick writer files symbol tick).persisted = true ∧
      (system.processTick writer files symbol tick).writer.rings =
        Table.upsert symbol ring (fun _ => ring) writer.rings ∧
      (system.processTick writer files symbol tick).writer.klineRings = writer.klineRings ∧
      system.cache.loadTicks system.wire system.zstd next symbol = .ok (some ⟨metadata, ring⟩) ∧
      GoodTicks system.cache.capacity after ring ∧ tick ∈ ring ∧
      ∀ other, other ≠ (symbol, .tick) → Table.get? other next = Table.get? other files := by
  obtain ⟨good, new⟩ := view.good.pushTick system.cache.positive sound sends stored meets
  obtain ⟨next, replaced, loaded, alts⟩ := @replaceTicks_load system.cache symbol
    (system.metadataAt writer (u64SaturatingSucc writer.revision)) system.wire system.zstd _ files
    meets.named (validateMetadata_metadataAt _ _) small (ne_nil_of_mem new) good.few
    good.fits good.stored good.ends good.ordered
  refine ⟨next, _, _, ?_, ?_, ?_, ?_, loaded, good, new, alts⟩ <;>
    rw [processTick, replaced] <;> rfl

theorem processKline_spec {sent : List StoredKline} {row : StoredKline}
    (small : SmallIndexes system.wire) (view : system.KlineView writer files sent symbol durationNs)
    (arrives : KlineArrives sent row) (stored : row.Stored)
    (meets : KlineMeets system.cache.capacity
      (system.klineRing writer files symbol durationNs) symbol durationNs row) :
    ∃ next ring metadata, (system.processKline writer files symbol durationNs row).files = next ∧
      (system.processKline writer files symbol durationNs row).persisted = true ∧
      (system.processKline writer files symbol durationNs row).writer.klineRings =
        Table.upsert (symbol, durationNs) ring (fun _ => ring) writer.klineRings ∧
      (system.processKline writer files symbol durationNs row).writer.rings = writer.rings ∧
      system.cache.loadKlines system.wire system.zstd next symbol durationNs =
        .ok (some ⟨metadata, ring⟩) ∧
      GoodKlines system.cache.capacity (row :: sent) ring ∧ row ∈ ring ∧
      ∀ other, other ≠ (symbol, .kline durationNs) →
        Table.get? other next = Table.get? other files := by
  obtain ⟨good, new⟩ := view.good.pushKline system.cache.positive arrives stored meets
  obtain ⟨next, replaced, loaded, alts⟩ := @replaceKlines_load system.cache symbol
    (system.metadataAt writer (u64SaturatingSucc writer.revision)) system.wire system.zstd _
    durationNs files meets.named meets.positive (validateMetadata_metadataAt _ _) small
    (ne_nil_of_mem new) good.few good.fits good.stored good.ends good.ordered
  refine ⟨next, _, _, ?_, ?_, ?_, ?_, loaded, good, new, alts⟩ <;>
    rw [processKline, replaced] <;> rfl

theorem Sound.exists_start (snd : system.Sound world) :
    ∃ writer, system.start world.files = .ok writer := by
  have every : ∀ entry ∈ world.files, ∃ epoch,
      system.storedEpoch world.files entry.1 = .ok epoch := by
    rintro ⟨⟨symbol, kind⟩, file⟩ mem
    have here : Table.get? (symbol, kind) world.files ≠ none := fun gone =>
      Table.get?_eq_none_iff.mp gone (mem_map_of_mem mem)
    cases kind with
    | tick =>
      rcases snd.ticks symbol with ⟨gone, -⟩ | ⟨snap, load, -⟩
      · exact absurd gone here
      · exact ⟨_, by rw [storedEpoch, load]; rfl⟩
    | kline durationNs =>
      rcases snd.klines symbol durationNs with ⟨gone, -⟩ | ⟨snap, load, -⟩
      · exact absurd gone here
      · exact ⟨_, by rw [storedEpoch, load]; rfl⟩
  obtain ⟨epochs, hit⟩ := exists_mapM every
  exact ⟨_, by rw [start, sourceEpochFloor, hit]; rfl⟩

theorem rings_of_start {files : RollingFiles} {writer : RollingWriter}
    (began : system.start files = .ok writer) :
    writer.rings = [] ∧ writer.klineRings = [] := by
  obtain ⟨floor, -, began⟩ := of_bind began
  obtain rfl := Except.ok.inj began
  exact ⟨rfl, rfl⟩

/-- A step keeps the invariant, and its input is processed as it should be. -/
theorem Step.sound_kept {after : RollingWorld} {input : RollingInput}
    (small : SmallIndexes system.wire) (sound : system.Sound world)
    (step : system.Step world input after) (meets : system.Meets world input) :
    system.Sound after ∧ system.Kept world input after := by
  cases step with
  | sourceEpoch epoch => exact ⟨⟨sound.upstream, sound.ticks, sound.klines⟩, trivial⟩
  | restart started =>
    obtain ⟨noRings, noKlineRings⟩ := rings_of_start started
    refine ⟨⟨sound.upstream, fun symbol => ?_, fun symbol durationNs => ?_⟩, trivial⟩
    · rcases sound.ticks symbol with ⟨absent, -⟩ | ⟨snap, loaded, -, good⟩
      · exact .inl ⟨absent, by rw [noRings]; rfl⟩
      · exact .inr ⟨snap, loaded, .inl (by rw [noRings]; rfl), good⟩
    · rcases sound.klines symbol durationNs with ⟨absent, -, none⟩ | ⟨snap, loaded, -, good⟩
      · exact .inl ⟨absent, by rw [noKlineRings]; rfl, none⟩
      · exact .inr ⟨snap, loaded, .inl (by rw [noKlineRings]; rfl), good⟩
  | @tick symbol run tick next sends stored =>
    obtain ⟨files, ring, metadata, isFiles, persisted, rings, klineRings, loaded, good, newest,
      others⟩ := processTick_spec small (sound.upstream symbol) (sound.ticks symbol) sends stored
        meets
    have held := get?_upsert_self symbol ring world.writer.rings
    rw [← rings] at held
    refine ⟨⟨fun other => ?_, fun other => ?_, fun other durationNs => ?_⟩, persisted, metadata,
      ring, held, ?_, good.few, newest, good.consecutive, good.ordered, ?_⟩
    · by_cases same : other = symbol
      · rw [same]
        dsimp only
        rw [Function.update_self]
        exact sends.sound (sound.upstream symbol)
      · dsimp only
        rw [Function.update_of_ne same]
        exact sound.upstream other
    · by_cases same : other = symbol
      · rw [same]
        dsimp only
        rw [Function.update_self]
        exact .inr ⟨⟨metadata, ring⟩, isFiles ▸ loaded, .inr held, good⟩
      · dsimp only
        rw [Function.update_of_ne same]
        refine (sound.ticks other).of_same ?_ ?_
        · exact isFiles ▸ others _ fun equal => same (Prod.mk.inj equal).1
        · exact rings ▸ get?_upsert_other same _ _
    · refine (sound.klines other durationNs).of_same ?_ ?_
      · exact isFiles ▸ others _ fun equal => nomatch (Prod.mk.inj equal).2
      · exact congrArg _ klineRings
    · exact isFiles ▸ loaded
    · dsimp only
      rw [Function.update_self]
      exact good.oneRun
  | @kline symbol durationNs row arrives stored =>
    obtain ⟨files, ring, metadata, isFiles, persisted, klineRings, rings, loaded, good, newest,
      others⟩ := processKline_spec small (sound.klines symbol durationNs) arrives stored meets
    have held := get?_upsert_self (symbol, durationNs) ring world.writer.klineRings
    rw [← klineRings] at held
    refine ⟨⟨sound.upstream, fun other => ?_, fun other duration => ?_⟩, persisted, metadata,
      ring, held, ?_, good.few, newest, ?_⟩
    · refine (sound.ticks other).of_same ?_ ?_
      · exact isFiles ▸ others _ fun equal => nomatch (Prod.mk.inj equal).2
      · exact congrArg _ rings
    · by_cases same : other = symbol ∧ duration = durationNs
      · dsimp only
        rw [if_pos same]
        obtain ⟨rfl, rfl⟩ := same
        exact .inr ⟨⟨metadata, ring⟩, isFiles ▸ loaded, .inr held, good⟩
      · dsimp only
        rw [if_neg same]
        refine (sound.klines other duration).of_same ?_ ?_
        · refine isFiles ▸ others _ fun equal => same ?_
          obtain ⟨sameSymbol, sameKind⟩ := Prod.mk.inj equal
          exact ⟨sameSymbol, RollingMarketCacheKind.kline.inj sameKind⟩
        · refine klineRings ▸ get?_upsert_other (fun equal => same ?_) _ _
          exact Prod.mk.inj equal
    · exact isFiles ▸ loaded
    · dsimp only
      rw [if_pos ⟨rfl, rfl⟩]
      exact good.largest

theorem Reaches.sound (small : SmallIndexes system.wire) (rch : system.Reaches world) :
    system.Sound world := by
  induction rch with
  | start began =>
    obtain ⟨noRings, noKlineRings⟩ := rings_of_start began
    refine ⟨fun _ => Upstream.sound_empty, fun _ => .inl ⟨rfl, ?_⟩, fun _ _ => .inl ⟨rfl, ?_, rfl⟩⟩
    · dsimp only
      rw [noRings]
      rfl
    · dsimp only
      rw [noKlineRings]
      rfl
  | step pre meets step ih => exact (step.sound_kept small ih meets).1

/-- Every row that meets its ring is persisted in a view that is loaded as the writer holds it, and
a restart finds every view. -/
theorem views_kept {world : RollingWorld} (small : SmallIndexes system.wire)
    (reached : system.Reaches world) :
    (∃ writer, system.start world.files = .ok writer) ∧
      ∀ input after, system.Meets world input → system.Step world input after →
        system.Kept world input after :=
  ⟨(reached.sound small).exists_start, fun _ _ meets step =>
    (step.sound_kept small (reached.sound small) meets).2⟩

/-! ## K-lines that arrive backwards -/

theorem klineRings_processKline (writer : RollingWriter) (files : RollingFiles)
    (symbol : String) (durationNs : Int) (row : StoredKline) :
    (system.processKline writer files symbol durationNs row).writer.klineRings =
      Table.upsert (symbol, durationNs)
        (pushKline system.cache.capacity (system.klineRing writer files symbol durationNs) row)
        (fun _ => pushKline system.cache.capacity
          (system.klineRing writer files symbol durationNs) row) writer.klineRings := by
  unfold processKline persist
  dsimp only
  split <;> rfl

/-- K-lines are only persisted in the order of their times. -/
theorem ordered_of_persisted {row : StoredKline}
    (sav : (system.processKline writer files symbol durationNs row).persisted = true) :
    (pushKline system.cache.capacity
      (system.klineRing writer files symbol durationNs) row).Pairwise fun left right =>
        left.datetime < right.datetime := by
  unfold processKline persist at sav
  dsimp only at sav
  split at sav
  · rename_i next put
    obtain ⟨⟨⟩, -, put⟩ := of_bind put
    obtain ⟨⟨⟩, -, put⟩ := of_bind put
    split at put
    · cases put
    obtain ⟨seriesKind, -, put⟩ := of_bind put
    obtain ⟨enc, encs, -⟩ := of_bind put
    cases push : pushKline system.cache.capacity
        (system.klineRing writer files symbol durationNs) row with
    | nil => exact .nil
    | cons hd rest =>
      rw [push] at encs
      obtain ⟨blk, encs, -⟩ := of_bind encs
      obtain ⟨_, _, -, -, ord, -⟩ := encodeKlines_parts encs
      exact ord
  · cases sav

end RollingSystem

instance encodableChar : Encodable Char :=
  Encodable.ofLeftInjection Char.toNat (fun number => some (Char.ofNat number)) fun char => by simp

instance encodableString : Encodable String :=
  Encodable.ofLeftInjection String.toList (fun chars => some (String.ofList chars)) fun text => by
    simp

deriving instance Encodable for SeriesKind
deriving instance Encodable for Identity
deriving instance Encodable for Finality
deriving instance Encodable for Codec
deriving instance Encodable for Compression
deriving instance Encodable for Block
deriving instance Encodable for Slice

deriving instance Encodable for Extent
deriving instance Encodable for RollingMarketCacheMetadata
deriving instance Encodable for HistoryContainer.Index

/-- An index as one number. -/
def numberWire : IndexWire RollingMarketCacheMetadata where
  toBytes index := [Encodable.encode { index with generation := 0, committedLen := 0 }]
  ofBytes
    | [number] =>
      match Encodable.decode number with
      | some index => .ok index
      | none => .error (containerError "expected value")
    | _ => .error (containerError "expected value")
  ofBytes_toBytes _ _ _ _ _ := by simp only [Encodable.encodek]

/-- The relay with its own capacity. -/
def relaySystem : RollingSystem where
  cache := ⟨10000, "session-v1", 1, by decide, by decide, by decide⟩
  wire := numberWire
  zstd := none

theorem smallIndexes_numberWire : SmallIndexes relaySystem.wire :=
  fun _ _ _ _ _ _ _ _ => show 1 ≤ maxIndexBytes by decide

def startedWriter : RollingWriter := ⟨[], [], 0, 1, ⟨0, 0, 0, false⟩⟩

def startedWorld : RollingWorld := ⟨startedWriter, [], fun _ => .empty, fun _ _ => []⟩

theorem reaches_startedWorld : relaySystem.Reaches startedWorld := .start rfl

def klineAt (id : Int) : StoredKline := ⟨id, id * 60000000000, List.replicate 7 0, none⟩

theorem stored_klineAt {id : Int} (inR : I64.InRange id)
    (time : I64.InRange (id * 60000000000)) : (klineAt id).Stored where
  idInRange := inR
  datetimeInRange := time
  bitsFit := fun word mem => by
    rw [eq_of_mem_replicate mem]
    decide
  length := rfl
  epochInRange := fun _ absurd => by cases absurd

/-- The world behind a first K-line. -/
def newerSent : RollingWorld where
  writer := (relaySystem.process startedWriter []
    (.kline "SHFE.cu2501" 60000000000 (klineAt 2))).writer
  files := (relaySystem.process startedWriter []
    (.kline "SHFE.cu2501" 60000000000 (klineAt 2))).files
  upstream := startedWorld.upstream
  sent := fun other duration =>
    if other = "SHFE.cu2501" ∧ duration = 60000000000 then [klineAt 2] else []

theorem klineRing_startedWriter :
    relaySystem.klineRing startedWriter [] "SHFE.cu2501" 60000000000 = [] := by
  decide +kernel

theorem meets_newerSent :
    relaySystem.Meets startedWorld (.kline "SHFE.cu2501" 60000000000 (klineAt 2)) := by
  show KlineMeets _ (relaySystem.klineRing startedWriter [] _ _) _ _ _
  rw [klineRing_startedWriter]
  exact ⟨by decide, by decide, by decide, .inr (forall_mem_nil _), .inr (.inl (by decide))⟩

theorem step_newerSent :
    relaySystem.Step startedWorld (.kline "SHFE.cu2501" 60000000000 (klineAt 2)) newerSent :=
  .kline (forall_mem_nil _) (stored_klineAt (by decide) (by decide))

theorem reaches_newerSent : relaySystem.Reaches newerSent :=
  .step reaches_startedWorld meets_newerSent step_newerSent

theorem klineRing_newerSent :
    relaySystem.klineRing newerSent.writer newerSent.files "SHFE.cu2501" 60000000000 =
      [klineAt 2] := by
  have rings : newerSent.writer.klineRings =
      Table.upsert ("SHFE.cu2501", 60000000000) [klineAt 2] (fun _ => [klineAt 2]) [] := by
    have rings := @RollingSystem.klineRings_processKline relaySystem startedWriter []
      "SHFE.cu2501" 60000000000 (klineAt 2)
    rw [klineRing_startedWriter] at rings
    exact rings
  rw [RollingSystem.klineRing, rings, RollingSystem.get?_upsert_self]

/-- A restart finds the view of the first K-line, and the next K-line is kept behind it. -/
theorem views_kept_restarted : ∃ writer after,
    relaySystem.start newerSent.files = .ok writer ∧
      relaySystem.klineRing writer newerSent.files "SHFE.cu2501" 60000000000 = [klineAt 2] ∧
      relaySystem.Step { newerSent with writer := writer }
        (.kline "SHFE.cu2501" 60000000000 (klineAt 3)) after ∧
      relaySystem.Kept { newerSent with writer := writer }
        (.kline "SHFE.cu2501" 60000000000 (klineAt 3)) after := by
  obtain ⟨-, metadata, ring, held, loaded, -⟩ :=
    (RollingSystem.views_kept smallIndexes_numberWire reaches_startedWorld).2 _ _
      meets_newerSent step_newerSent
  have isRing := klineRing_newerSent
  rw [RollingSystem.klineRing, held] at isRing
  obtain rfl : ring = [klineAt 2] := isRing
  obtain ⟨⟨writer, started⟩, -⟩ :=
    RollingSystem.views_kept smallIndexes_numberWire reaches_newerSent
  have restored : relaySystem.klineRing writer newerSent.files "SHFE.cu2501" 60000000000 =
      [klineAt 2] := by
    rw [RollingSystem.klineRing, (RollingSystem.rings_of_start started).2, loaded]
    rfl
  have meets : relaySystem.Meets { newerSent with writer := writer }
      (.kline "SHFE.cu2501" 60000000000 (klineAt 3)) := by
    show KlineMeets _ (relaySystem.klineRing writer newerSent.files _ _) _ _ _
    rw [restored]
    exact ⟨by decide, by decide, by decide, .inr (by decide), .inr (.inl (by decide))⟩
  have arrives : KlineArrives (newerSent.sent "SHFE.cu2501" 60000000000) (klineAt 3) := by
    intro earlier mem
    obtain rfl : earlier = klineAt 2 := mem_singleton.mp mem
    decide
  have step : relaySystem.Step { newerSent with writer := writer }
      (.kline "SHFE.cu2501" 60000000000 (klineAt 3)) _ :=
    .kline arrives (stored_klineAt (by decide) (by decide))
  have reaches : relaySystem.Reaches { newerSent with writer := writer } :=
    @RollingSystem.Reaches.step _ _ _ .restart reaches_newerSent trivial (.restart started)
  exact ⟨writer, _, started, restored, step,
    (RollingSystem.views_kept smallIndexes_numberWire reaches).2 _ _ meets step⟩

/-- Two K-lines of one stream, the newer one first: the older one is refused. -/
theorem not_kept_backwards : ∃ world input after, relaySystem.Reaches world ∧
    relaySystem.Step world input after ∧ ¬ relaySystem.Kept world input after := by
  have arrives : KlineArrives (newerSent.sent "SHFE.cu2501" 60000000000) (klineAt 1) := by
    intro pre mem
    obtain rfl : pre = klineAt 2 := mem_singleton.mp mem
    decide
  refine ⟨newerSent, _, _, reaches_newerSent,
    .kline arrives (stored_klineAt (by decide) (by decide)), fun kept => ?_⟩
  have ord := RollingSystem.ordered_of_persisted kept.1
  rw [klineRing_newerSent] at ord
  revert ord
  decide

end Tqsdk
