import Mathlib.Data.List.Lex
import Mathlib.Data.Prod.Lex
import Tqsdk.Lib.Index
import Tqsdk.Relay.UpstreamCharts

/-!
# Downstream interests of the relay

The registry maps every client's charts to their sources and keeps reverse indexes for the
fan-out.  `InterestRegistry.Indexed` says that the indexes list exactly what the mappings hold;
every change of the registry keeps it.
-/

namespace Tqsdk

open List Option OrdMap

abbrev ClientId := Nat

structure SourceKey where
  symbols : List String
  durationNs : Int
  viewWidth : Nat
  deriving DecidableEq

namespace SourceKey

def fields (source : SourceKey) : List String ×ₗ Int ×ₗ Nat :=
  toLex (source.symbols, toLex (source.durationNs, source.viewWidth))

theorem fields_injective : Function.Injective fields := by
  rintro ⟨symbols, dur, viewWidth⟩ ⟨symbols', durationNs', viewWidth'⟩ same
  simpa [fields] using same

instance : LinearOrder SourceKey := LinearOrder.lift' fields fields_injective

end SourceKey

/-- A `set_chart` command; its focus fields are not read. -/
structure SetChartCommand where
  chartId : String
  symbols : List String
  durationNs : Int
  viewWidth : Nat

inductive DownstreamCommand
  | subscribeQuote (symbols : List String)
  | setChart (command : SetChartCommand)
  | peekMessage

def preserveSymbolOrderFrom (seen : List String) : List String → List String
  | [] => []
  | symbol :: rest =>
    if symbol ∈ seen then preserveSymbolOrderFrom seen rest
    else symbol :: preserveSymbolOrderFrom (symbol :: seen) rest

/-- The first occurrence of every symbol. -/
def preserveSymbolOrder (symbols : List String) : List String := preserveSymbolOrderFrom [] symbols

theorem mem_preserveSymbolOrderFrom {sym : String} {seen syms : List String} :
    sym ∈ preserveSymbolOrderFrom seen syms ↔ sym ∈ syms ∧ sym ∉ seen := by
  induction syms generalizing seen with
  | nil => simp [preserveSymbolOrderFrom]
  | cons hd syms ih =>
    rw [preserveSymbolOrderFrom]
    by_cases old : hd ∈ seen
    · rw [if_pos old, ih, mem_cons]
      constructor
      · exact fun ⟨member, new⟩ => ⟨.inr member, new⟩
      · rintro ⟨rfl | member, new⟩
        · exact absurd old new
        · exact ⟨member, new⟩
    · rw [if_neg old, mem_cons, ih, mem_cons, mem_cons]
      by_cases same : sym = hd
      · subst same
        simp [old]
      · simp [same]

@[simp] theorem mem_preserveSymbolOrder {sym : String} {syms : List String} :
    sym ∈ preserveSymbolOrder syms ↔ sym ∈ syms := by
  rw [preserveSymbolOrder, mem_preserveSymbolOrderFrom]
  simp

/-- One chart of a client, with its symbols in the order the client gave. -/
structure ChartSubscription where
  clientId : ClientId
  chartId : String
  symbols : List String
  deriving DecidableEq

/-! ## The registry -/

structure InterestRegistry where
  clientQuotes : List (ClientId × List String)
  chartMappings : List ((ClientId ×ₗ String) × SourceKey)
  chartSymbolsByClientChart : List ((ClientId ×ₗ String) × List String)
  quoteClientsBySymbol : List (String × List ClientId)
  sourcesBySymbol : List (String × List SourceKey)
  chartClientsBySource : List (SourceKey × List ClientId)
  chartIdsByClientSource : List ((ClientId ×ₗ SourceKey) × List String)

namespace InterestRegistry

def empty : InterestRegistry := ⟨[], [], [], [], [], [], []⟩

variable (registry : InterestRegistry)

def removeQuotes (clientId : ClientId) : InterestRegistry :=
  match get? clientId registry.clientQuotes with
  | none => registry
  | some symbols =>
    { registry with
      clientQuotes := OrdMap.erase clientId registry.clientQuotes
      quoteClientsBySymbol := symbols.foldl
        (fun index symbol => Index.remove symbol clientId index) registry.quoteClientsBySymbol }

def setQuotes (clientId : ClientId) (symbols : List String) : InterestRegistry :=
  let registry := registry.removeQuotes clientId
  { registry with
    quoteClientsBySymbol := (sortDedup symbols).foldl
      (fun index symbol => Index.add symbol clientId index) registry.quoteClientsBySymbol
    clientQuotes := OrdMap.insert clientId (sortDedup symbols) registry.clientQuotes }

def addChartIndex (clientId : ClientId) (chartId : String) (source : SourceKey) :
    InterestRegistry :=
  { registry with
    chartClientsBySource := Index.add source clientId registry.chartClientsBySource
    chartIdsByClientSource :=
      Index.add (toLex (clientId, source)) chartId registry.chartIdsByClientSource
    sourcesBySymbol := source.symbols.foldl
      (fun index symbol => Index.add symbol source index) registry.sourcesBySymbol }

/-- The client has no further chart on the source. -/
def lastChart (clientId : ClientId) (chartId : String) (source : SourceKey) : Bool :=
  match get? (toLex (clientId, source)) registry.chartIdsByClientSource with
  | some chartIds => (chartIds.filter (· ≠ chartId)).isEmpty
  | none => false

def removeChartIndex (clientId : ClientId) (chartId : String) (source : SourceKey) :
    InterestRegistry :=
  let clients :=
    if registry.lastChart clientId chartId source then
      Index.remove source clientId registry.chartClientsBySource
    else registry.chartClientsBySource
  { registry with
    chartIdsByClientSource :=
      Index.remove (toLex (clientId, source)) chartId registry.chartIdsByClientSource
    chartClientsBySource := clients
    sourcesBySymbol :=
      if (get? source clients).isNone then
        source.symbols.foldl
          (fun index symbol => Index.remove symbol source index) registry.sourcesBySymbol
      else registry.sourcesBySymbol }

/-- Forget one chart that is mapped to the source. -/
def unmapChart (clientId : ClientId) (chartId : String) (source : SourceKey) : InterestRegistry :=
  { registry with
    chartMappings := OrdMap.erase (toLex (clientId, chartId)) registry.chartMappings
    chartSymbolsByClientChart :=
      OrdMap.erase (toLex (clientId, chartId)) registry.chartSymbolsByClientChart
    }.removeChartIndex clientId chartId source

def sourceOf (command : SetChartCommand) : SourceKey where
  symbols := sortDedup (preserveSymbolOrder command.symbols)
  durationNs := command.durationNs
  viewWidth := command.viewWidth

def removeChart (clientId : ClientId) (chartId : String) : InterestRegistry :=
  match get? (toLex (clientId, chartId)) registry.chartMappings with
  | none => registry
  | some source => registry.unmapChart clientId chartId source

def setChart (clientId : ClientId) (command : SetChartCommand) : InterestRegistry :=
  let source := sourceOf command
  let registry :=
    (registry.removeChart clientId command.chartId).addChartIndex clientId command.chartId source
  { registry with
    chartMappings :=
      OrdMap.insert (toLex (clientId, command.chartId)) source registry.chartMappings
    chartSymbolsByClientChart :=
      OrdMap.insert (toLex (clientId, command.chartId)) (preserveSymbolOrder command.symbols)
        registry.chartSymbolsByClientChart }

/-- The charts of a client, with their sources. -/
def chartsOf (clientId : ClientId) : List ((ClientId ×ₗ String) × SourceKey) :=
  registry.chartMappings.filter fun entry => decide ((ofLex entry.1).1 = clientId)

def removeClient (clientId : ClientId) : InterestRegistry :=
  ((registry.removeQuotes clientId).chartsOf clientId).foldl
    (fun registry entry => registry.unmapChart clientId (ofLex entry.1).2 entry.2)
    (registry.removeQuotes clientId)

def quoteClients (symbol : String) : List ClientId :=
  Index.values symbol registry.quoteClientsBySymbol

def sourcesForSymbol (symbol : String) : List SourceKey :=
  Index.values symbol registry.sourcesBySymbol

def sources : List SourceKey :=
  registry.chartClientsBySource.map Prod.fst

def chartSubscriptions (source : SourceKey) : List ChartSubscription :=
  (Index.values source registry.chartClientsBySource).flatMap fun clientId =>
    (Index.values (toLex (clientId, source)) registry.chartIdsByClientSource).map fun chartId =>
      ⟨clientId, chartId, (get? (toLex (clientId, chartId))
        registry.chartSymbolsByClientChart).getD source.symbols⟩

def activeChartSources : List SourceKey :=
  registry.chartMappings.map Prod.snd

def chartSymbols : List String :=
  sortDedup (registry.chartMappings.flatMap fun entry => entry.2.symbols)

def subscribedSymbols : List String :=
  sortDedup (registry.clientQuotes.flatMap Prod.snd ++
    registry.chartMappings.flatMap fun entry => entry.2.symbols)

/-- The source a client's chart is mapped to. -/
def chartOf (clientId : ClientId) (chartId : String) : Option SourceKey :=
  get? (toLex (clientId, chartId)) registry.chartMappings

/-- The quotes a client is subscribed to. -/
def quotesOf (clientId : ClientId) : List String :=
  (get? clientId registry.clientQuotes).getD []

/-! ## The indexes list what the mappings hold -/

structure Indexed (registry : InterestRegistry) : Prop where
  ids : ∀ clientId source chartId,
    chartId ∈ Index.values (toLex (clientId, source)) registry.chartIdsByClientSource ↔
      registry.chartOf clientId chartId = some source
  clients : ∀ source clientId, clientId ∈ Index.values source registry.chartClientsBySource ↔
    ∃ chartId, registry.chartOf clientId chartId = some source
  bySymbol : ∀ symbol source, source ∈ registry.sourcesForSymbol symbol ↔
    symbol ∈ source.symbols ∧ ∃ clientId chartId, registry.chartOf clientId chartId = some source
  quoted : ∀ symbol clientId, clientId ∈ registry.quoteClients symbol ↔
    symbol ∈ registry.quotesOf clientId
  requested : ∀ clientId chartId source, registry.chartOf clientId chartId = some source →
    ∃ symbols, get? (toLex (clientId, chartId)) registry.chartSymbolsByClientChart =
      some symbols ∧ source.symbols = sortDedup symbols
  idsTight : Index.Tight registry.chartIdsByClientSource
  clientsTight : Index.Tight registry.chartClientsBySource
  sorted : OrdMap.Sorted registry.chartMappings

theorem indexed_empty : empty.Indexed := by
  refine ⟨fun _ _ _ => ?_, fun _ _ => ?_, fun _ _ => ?_, fun _ _ => ?_, nofun, Index.tight_nil,
    Index.tight_nil, sorted_nil⟩ <;>
  simp [empty, chartOf, sourcesForSymbol, quoteClients, quotesOf]

variable {registry : InterestRegistry} {clientId : ClientId} {chartId : String}
  {source : SourceKey}

variable (alt : ClientId)

theorem chartOf_unmapChart (id : String) :
    (registry.unmapChart clientId chartId source).chartOf alt id =
      if alt = clientId ∧ id = chartId then none else registry.chartOf alt id := by
  have same : (toLex (alt, id) = toLex (clientId, chartId)) ↔ alt = clientId ∧ id = chartId := by
    rw [toLex_inj, Prod.mk.injEq]
  rw [chartOf, unmapChart, removeChartIndex]
  dsimp only
  rw [get?_erase]
  simp only [same, chartOf]

theorem chartOf_unmapChart_eq_some {other : ClientId} {id : String} {key : SourceKey} :
    (registry.unmapChart clientId chartId source).chartOf other id = some key ↔
      ¬(other = clientId ∧ id = chartId) ∧ registry.chartOf other id = some key := by
  rw [chartOf_unmapChart]
  split <;> simp [*]

theorem chartClientsBySource_unmapChart :
    (registry.unmapChart clientId chartId source).chartClientsBySource =
      if registry.lastChart clientId chartId source then
        Index.remove source clientId registry.chartClientsBySource
      else registry.chartClientsBySource := rfl

section UnmapChart

variable (indexed : registry.Indexed) (mapped : registry.chartOf clientId chartId = some source)

include indexed mapped

/-- Whether a client keeps a chart on the source is read off its chart ids. -/
theorem Indexed.lastChart_iff :
    registry.lastChart clientId chartId source = true ↔
      ∀ alt, registry.chartOf clientId alt = some source → alt = chartId := by
  have seen := indexed.ids clientId source
  unfold lastChart
  cases got : get? (toLex (clientId, source)) registry.chartIdsByClientSource with
  | none =>
    have mem := (seen chartId).mpr mapped
    rw [Index.values, got] at mem
    cases mem
  | some chartIds =>
    simp only [Index.values, got, getD_some] at seen
    simp only [List.isEmpty_iff, filter_eq_nil_iff, decide_eq_true_eq, not_not]
    constructor
    · intro only alt shown
      exact only alt ((seen alt).mpr shown)
    · intro only alt mem
      exact only alt ((seen alt).mp mem)

theorem Indexed.unmapChart_clients (key : SourceKey) (alt : ClientId) :
    alt ∈ Index.values key (registry.unmapChart clientId chartId source).chartClientsBySource ↔
      ∃ id, (registry.unmapChart clientId chartId source).chartOf alt id = some key := by
  have pre := indexed.clients key alt
  rw [chartClientsBySource_unmapChart]
  by_cases only : registry.lastChart clientId chartId source = true
  · rw [if_pos only, Index.mem_values_remove, pre]
    constructor
    · rintro ⟨away, id, shown⟩
      refine ⟨id, chartOf_unmapChart_eq_some.mpr ⟨?_, shown⟩⟩
      rintro ⟨rfl, rfl⟩
      rw [mapped] at shown
      cases shown
      exact away ⟨rfl, rfl⟩
    · rintro ⟨id, left⟩
      obtain ⟨away, shown⟩ := chartOf_unmapChart_eq_some.mp left
      refine ⟨?_, id, shown⟩
      rintro ⟨rfl, rfl⟩
      exact away ⟨rfl, (indexed.lastChart_iff mapped).mp only id shown⟩
  · rw [if_neg only, pre]
    constructor
    · rintro ⟨id, shown⟩
      by_cases gone : alt = clientId ∧ id = chartId
      · obtain ⟨rfl, rfl⟩ := gone
        rw [mapped] at shown
        cases shown
        rw [indexed.lastChart_iff mapped] at only
        push Not at only
        obtain ⟨remaining, shown, ne⟩ := only
        exact ⟨remaining, chartOf_unmapChart_eq_some.mpr ⟨fun same => ne same.2, shown⟩⟩
      · exact ⟨id, chartOf_unmapChart_eq_some.mpr ⟨gone, shown⟩⟩
    · exact fun ⟨id, left⟩ => ⟨id, (chartOf_unmapChart_eq_some.mp left).2⟩

omit mapped in
theorem Indexed.unmapChart_clientsTight :
    Index.Tight (registry.unmapChart clientId chartId source).chartClientsBySource := by
  rw [chartClientsBySource_unmapChart]
  split
  · exact indexed.clientsTight.remove _ _
  · exact indexed.clientsTight

theorem Indexed.unmapChart_ids (alt : ClientId) (key : SourceKey) (id : String) :
    id ∈ Index.values (toLex (alt, key))
        (registry.unmapChart clientId chartId source).chartIdsByClientSource ↔
      (registry.unmapChart clientId chartId source).chartOf alt id = some key := by
  have eq : (registry.unmapChart clientId chartId source).chartIdsByClientSource =
      Index.remove (toLex (clientId, source)) chartId registry.chartIdsByClientSource := rfl
  rw [eq, Index.mem_values_remove, indexed.ids, toLex_inj, Prod.mk.injEq, chartOf_unmapChart]
  by_cases gone : alt = clientId ∧ id = chartId
  · obtain ⟨rfl, rfl⟩ := gone
    rw [if_pos ⟨rfl, rfl⟩, mapped]
    constructor
    · rintro ⟨away, same⟩
      exact absurd ⟨⟨rfl, (some.inj same).symm⟩, rfl⟩ away
    · exact nofun
  · rw [if_neg gone]
    exact ⟨And.right, fun here => ⟨fun same => gone ⟨same.1.1, same.2⟩, here⟩⟩

theorem Indexed.unmapChart_bySymbol (sym : String) (key : SourceKey) :
    key ∈ (registry.unmapChart clientId chartId source).sourcesForSymbol sym ↔
      sym ∈ key.symbols ∧ ∃ alt id,
        (registry.unmapChart clientId chartId source).chartOf alt id = some key := by
  have eq : (registry.unmapChart clientId chartId source).sourcesForSymbol sym =
      Index.values sym
        (if (get? source
            (registry.unmapChart clientId chartId source).chartClientsBySource).isNone then
          source.symbols.foldl
            (fun idx sym => Index.remove sym source idx) registry.sourcesBySymbol
        else registry.sourcesBySymbol) := rfl
  have emptied : (get? source
      (registry.unmapChart clientId chartId source).chartClientsBySource).isNone = true ↔
      ¬∃ alt id, (registry.unmapChart clientId chartId source).chartOf alt id = some source := by
    rw [← not_isSome, Bool.not_eq_true', ← Bool.not_eq_true,
      indexed.unmapChart_clientsTight.isSome_iff]
    simp only [indexed.unmapChart_clients mapped]
  have pre := indexed.bySymbol sym key
  rw [sourcesForSymbol] at pre
  have kept : ∀ alt, (∃ id, (registry.unmapChart clientId chartId source).chartOf alt id =
      some key) → ∃ id, registry.chartOf alt id = some key :=
    fun alt ⟨id, left⟩ => ⟨id, (chartOf_unmapChart_eq_some.mp left).2⟩
  rw [eq]
  by_cases none : (get? source
      (registry.unmapChart clientId chartId source).chartClientsBySource).isNone = true
  · rw [if_pos none, Index.mem_values_foldl_remove, pre]
    constructor
    · rintro ⟨away, mem, alt, id, shown⟩
      refine ⟨mem, alt, id, chartOf_unmapChart_eq_some.mpr ⟨?_, shown⟩⟩
      rintro ⟨rfl, rfl⟩
      rw [mapped] at shown
      cases shown
      exact away ⟨mem, rfl⟩
    · rintro ⟨mem, alt, left⟩
      refine ⟨?_, mem, alt, kept alt left⟩
      rintro ⟨-, rfl⟩
      exact emptied.mp none ⟨alt, left⟩
  · rw [if_neg none, pre]
    constructor
    · rintro ⟨mem, alt, id, shown⟩
      refine ⟨mem, ?_⟩
      by_cases same : key = source
      · subst same
        rw [emptied, not_not] at none
        exact none
      · refine ⟨alt, id, chartOf_unmapChart_eq_some.mpr ⟨?_, shown⟩⟩
        rintro ⟨rfl, rfl⟩
        rw [mapped] at shown
        exact same (some.inj shown).symm
    · rintro ⟨mem, alt, left⟩
      exact ⟨mem, alt, kept alt left⟩

theorem Indexed.unmapChart : (registry.unmapChart clientId chartId source).Indexed := by
  refine ⟨indexed.unmapChart_ids mapped, indexed.unmapChart_clients mapped,
    indexed.unmapChart_bySymbol mapped, indexed.quoted, fun alt id key left => ?_,
    indexed.idsTight.remove _ _, indexed.unmapChart_clientsTight, indexed.sorted.erase _⟩
  obtain ⟨away, shown⟩ := chartOf_unmapChart_eq_some.mp left
  obtain ⟨syms, got, same⟩ := indexed.requested alt id key shown
  refine ⟨syms, ?_, same⟩
  have eq : (registry.unmapChart clientId chartId source).chartSymbolsByClientChart =
      OrdMap.erase (toLex (clientId, chartId)) registry.chartSymbolsByClientChart := rfl
  rw [eq, get?_erase_ne, got]
  rw [ne_eq, toLex_inj, Prod.mk.injEq]
  exact away

end UnmapChart

theorem Indexed.removeChart (indexed : registry.Indexed) (clientId : ClientId)
    (chartId : String) : (registry.removeChart clientId chartId).Indexed := by
  unfold InterestRegistry.removeChart
  cases mp : get? (toLex (clientId, chartId)) registry.chartMappings with
  | none => exact indexed
  | some source => exact indexed.unmapChart mp

theorem chartOf_removeChart (id : String) :
    (registry.removeChart clientId chartId).chartOf alt id =
      if alt = clientId ∧ id = chartId then none else registry.chartOf alt id := by
  unfold removeChart
  cases mp : get? (toLex (clientId, chartId)) registry.chartMappings with
  | none =>
    dsimp only
    split
    · rename_i same
      obtain ⟨rfl, rfl⟩ := same
      exact mp
    · rfl
  | some source => exact chartOf_unmapChart alt id

theorem chartOf_setChart (cmd : SetChartCommand) (alt : ClientId) (id : String) :
    (registry.setChart clientId cmd).chartOf alt id =
      if alt = clientId ∧ id = cmd.chartId then some (sourceOf cmd)
      else registry.chartOf alt id := by
  have same : (toLex (alt, id) = toLex (clientId, cmd.chartId)) ↔
      alt = clientId ∧ id = cmd.chartId := by
    rw [toLex_inj, Prod.mk.injEq]
  have rem := @chartOf_removeChart registry clientId cmd.chartId alt id
  rw [chartOf] at rem
  rw [chartOf, setChart]
  dsimp only [addChartIndex]
  rw [get?_insert, rem]
  simp only [same]
  split <;> rfl

theorem Indexed.addChart (indexed : registry.Indexed) (cmd : SetChartCommand)
    (free : registry.chartOf clientId cmd.chartId = none) :
    ({ registry.addChartIndex clientId cmd.chartId (sourceOf cmd) with
      chartMappings := OrdMap.insert (toLex (clientId, cmd.chartId)) (sourceOf cmd)
        registry.chartMappings
      chartSymbolsByClientChart := OrdMap.insert (toLex (clientId, cmd.chartId))
        (preserveSymbolOrder cmd.symbols)
        registry.chartSymbolsByClientChart } : InterestRegistry).Indexed := by
  generalize source_eq : sourceOf cmd = source
  have ch : ∀ alt id, ({ registry.addChartIndex clientId cmd.chartId source with
      chartMappings := OrdMap.insert (toLex (clientId, cmd.chartId)) source registry.chartMappings
      chartSymbolsByClientChart := OrdMap.insert (toLex (clientId, cmd.chartId))
        (preserveSymbolOrder cmd.symbols)
        registry.chartSymbolsByClientChart } : InterestRegistry).chartOf alt id =
      if alt = clientId ∧ id = cmd.chartId then some source
      else registry.chartOf alt id := by
    intro alt id
    have same : (toLex (alt, id) = toLex (clientId, cmd.chartId)) ↔
        alt = clientId ∧ id = cmd.chartId := by
      rw [toLex_inj, Prod.mk.injEq]
    rw [chartOf]
    dsimp only
    rw [get?_insert]
    simp only [same, chartOf]
  have hit : ∀ key alt, (∃ id, (if alt = clientId ∧ id = cmd.chartId then some source
      else registry.chartOf alt id) = some key) ↔
      (key = source ∧ alt = clientId) ∨ ∃ id, registry.chartOf alt id = some key := by
    intro key alt
    constructor
    · rintro ⟨id, mapped⟩
      split at mapped
      · rename_i here
        exact .inl ⟨(some.inj mapped).symm, here.1⟩
      · exact .inr ⟨id, mapped⟩
    · rintro (⟨rfl, rfl⟩ | ⟨id, mapped⟩)
      · exact ⟨cmd.chartId, if_pos ⟨rfl, rfl⟩⟩
      · refine ⟨id, ?_⟩
        rw [if_neg, mapped]
        rintro ⟨rfl, rfl⟩
        rw [free] at mapped
        cases mapped
  refine ⟨fun alt key id => ?_, fun key alt => ?_, fun sym key => ?_, indexed.quoted, fun alt id key
    mapped => ?_, indexed.idsTight.add _ _, indexed.clientsTight.add _ _, indexed.sorted.insert _ _⟩
  · rw [ch]
    dsimp only [addChartIndex]
    rw [Index.mem_values_add, indexed.ids, toLex_inj, Prod.mk.injEq]
    by_cases here : alt = clientId ∧ id = cmd.chartId
    · obtain ⟨rfl, rfl⟩ := here
      rw [if_pos ⟨rfl, rfl⟩, free]
      simp [eq_comm]
    · rw [if_neg here]
      constructor
      · rintro (⟨⟨rfl, -⟩, rfl⟩ | mapped)
        · exact absurd ⟨rfl, rfl⟩ here
        · exact mapped
      · exact .inr
  · simp only [ch]
    rw [hit]
    dsimp only [addChartIndex]
    rw [Index.mem_values_add, indexed.clients]
  · simp only [ch, sourcesForSymbol]
    dsimp only [addChartIndex]
    rw [Index.mem_values_foldl_add]
    have before := indexed.bySymbol sym key
    rw [sourcesForSymbol] at before
    rw [before]
    constructor
    · rintro (⟨mem, rfl⟩ | ⟨mem, alt, mapped⟩)
      · exact ⟨mem, clientId, (hit key clientId).mpr (.inl ⟨rfl, rfl⟩)⟩
      · exact ⟨mem, alt, (hit key alt).mpr (.inr mapped)⟩
    · rintro ⟨mem, alt, mapped⟩
      rcases (hit key alt).mp mapped with ⟨rfl, -⟩ | before
      · exact .inl ⟨mem, rfl⟩
      · exact .inr ⟨mem, alt, before⟩
  · rw [ch] at mapped
    dsimp only
    split at mapped
    · rename_i here
      obtain ⟨rfl, rfl⟩ := here
      cases mapped
      refine ⟨preserveSymbolOrder cmd.symbols, ?_, ?_⟩
      · rw [get?_insert, if_pos rfl]
      · rw [← source_eq]
        rfl
    · rename_i away
      obtain ⟨syms, got, same⟩ := indexed.requested alt id key mapped
      refine ⟨syms, ?_, same⟩
      rw [get?_insert_ne, got]
      rw [ne_eq, toLex_inj, Prod.mk.injEq]
      exact away

theorem Indexed.setChart (indexed : registry.Indexed) (clientId : ClientId)
    (cmd : SetChartCommand) : (registry.setChart clientId cmd).Indexed := by
  refine (indexed.removeChart clientId cmd.chartId).addChart cmd ?_
  rw [chartOf_removeChart, if_pos ⟨rfl, rfl⟩]

theorem quotesOf_removeQuotes :
    (registry.removeQuotes clientId).quotesOf alt =
      if alt = clientId then [] else registry.quotesOf alt := by
  unfold removeQuotes quotesOf
  cases got : get? clientId registry.clientQuotes with
  | none =>
    dsimp only
    split
    · rename_i same
      rw [same, got]
      rfl
    · rfl
  | some syms =>
    dsimp only
    rw [get?_erase]
    split <;> rfl

theorem chartOf_removeQuotes (id : String) :
    (registry.removeQuotes clientId).chartOf alt id = registry.chartOf alt id := by
  unfold removeQuotes
  cases get? clientId registry.clientQuotes <;> rfl

theorem Indexed.removeQuotes (indexed : registry.Indexed) (clientId : ClientId) :
    (registry.removeQuotes clientId).Indexed := by
  have qs := @quotesOf_removeQuotes registry clientId
  have quoted : ∀ sym alt, alt ∈ (registry.removeQuotes clientId).quoteClients sym ↔
      sym ∈ (registry.removeQuotes clientId).quotesOf alt := by
    intro sym alt
    have pre := indexed.quoted sym alt
    rw [qs]
    unfold InterestRegistry.removeQuotes
    cases got : get? clientId registry.clientQuotes with
    | none =>
      dsimp only
      rw [pre]
      split
      · rename_i same
        rw [same, quotesOf, got]
        rfl
      · rfl
    | some syms =>
      dsimp only [quoteClients] at pre ⊢
      rw [Index.mem_values_foldl_remove, pre]
      by_cases same : alt = clientId
      · subst same
        rw [quotesOf, got]
        simp
      · simp [same]
  have rest : (registry.removeQuotes clientId).chartMappings = registry.chartMappings ∧
      (registry.removeQuotes clientId).chartSymbolsByClientChart =
        registry.chartSymbolsByClientChart ∧
      (registry.removeQuotes clientId).sourcesBySymbol = registry.sourcesBySymbol ∧
      (registry.removeQuotes clientId).chartClientsBySource = registry.chartClientsBySource ∧
      (registry.removeQuotes clientId).chartIdsByClientSource =
        registry.chartIdsByClientSource := by
    unfold InterestRegistry.removeQuotes
    cases get? clientId registry.clientQuotes <;> exact ⟨rfl, rfl, rfl, rfl, rfl⟩
  obtain ⟨mappings, syms, bySymbol, clients, ids⟩ := rest
  refine ⟨?_, ?_, ?_, quoted, ?_, ?_, ?_, ?_⟩
  · simpa only [ids, chartOf_removeQuotes] using indexed.ids
  · simpa only [clients, chartOf_removeQuotes] using indexed.clients
  · simpa only [sourcesForSymbol, bySymbol, chartOf_removeQuotes] using indexed.bySymbol
  · simpa only [syms, chartOf_removeQuotes] using indexed.requested
  · rw [ids]
    exact indexed.idsTight
  · rw [clients]
    exact indexed.clientsTight
  · rw [mappings]
    exact indexed.sorted

theorem chartOf_setQuotes (syms : List String) (alt : ClientId) (id : String) :
    (registry.setQuotes clientId syms).chartOf alt id = registry.chartOf alt id :=
  chartOf_removeQuotes alt id

theorem quotesOf_setQuotes (syms : List String) (alt : ClientId) :
    (registry.setQuotes clientId syms).quotesOf alt =
      if alt = clientId then sortDedup syms else registry.quotesOf alt := by
  have rem := @quotesOf_removeQuotes registry clientId alt
  rw [quotesOf] at rem
  rw [quotesOf, setQuotes]
  dsimp only
  rw [get?_insert]
  split
  · rfl
  · rename_i away
    rw [rem, if_neg away]

theorem Indexed.setQuotes (indexed : registry.Indexed) (clientId : ClientId)
    (syms : List String) : (registry.setQuotes clientId syms).Indexed := by
  have rem := indexed.removeQuotes clientId
  refine ⟨rem.ids, rem.clients, rem.bySymbol, fun sym alt => ?_,
    rem.requested, rem.idsTight, rem.clientsTight, rem.sorted⟩
  have pre := rem.quoted sym alt
  rw [quotesOf_removeQuotes] at pre
  rw [quotesOf_setQuotes, quoteClients, InterestRegistry.setQuotes]
  dsimp only [quoteClients] at pre ⊢
  rw [Index.mem_values_foldl_add, pre]
  by_cases same : alt = clientId
  · simp [same]
  · simp [same]

/-! ### Removing a client -/

/-- Unmapping distinct charts of a client, each of them mapped. -/
theorem Indexed.unmapCharts {chts : List ((ClientId ×ₗ String) × SourceKey)}
    (indexed : registry.Indexed) (nd : (chts.map fun ent => (ofLex ent.1).2).Nodup)
    (mapped : ∀ ent ∈ chts, registry.chartOf clientId (ofLex ent.1).2 = some ent.2) :
    (chts.foldl (fun registry ent => registry.unmapChart clientId (ofLex ent.1).2 ent.2)
      registry).Indexed ∧
    ∀ alt id, (chts.foldl
      (fun registry ent => registry.unmapChart clientId (ofLex ent.1).2 ent.2)
      registry).chartOf alt id =
        if alt = clientId ∧ ∃ ent ∈ chts, (ofLex ent.1).2 = id then none
        else registry.chartOf alt id := by
  induction chts generalizing registry with
  | nil => exact ⟨indexed, by simp⟩
  | cons hd chts ih =>
    rw [map_cons, nodup_cons] at nd
    obtain ⟨new, nd⟩ := nd
    have here := mapped hd mem_cons_self
    have ch := @chartOf_unmapChart registry clientId (ofLex hd.1).2 hd.2
    obtain ⟨ixdPost, post⟩ := ih (indexed.unmapChart here) nd
      fun ent member => by
        rw [ch, if_neg, mapped ent (mem_cons_of_mem _ member)]
        rintro ⟨-, same⟩
        exact new (same ▸ mem_map_of_mem member)
    refine ⟨ixdPost, fun alt id => ?_⟩
    rw [foldl_cons, post, ch]
    simp only [exists_mem_cons_iff]
    by_cases own : alt = clientId
    · by_cases seen : ∃ ent ∈ chts, (ofLex ent.1).2 = id
      · rw [if_pos ⟨own, seen⟩, if_pos ⟨own, .inr seen⟩]
      · rw [if_neg fun both => seen both.2]
        by_cases nm : (ofLex hd.1).2 = id
        · rw [if_pos ⟨own, nm.symm⟩, if_pos ⟨own, .inl nm⟩]
        · rw [if_neg fun both => nm both.2.symm, if_neg]
          rintro ⟨-, same | member⟩
          · exact nm same
          · exact seen member
    · rw [if_neg fun both => own both.1, if_neg fun both => own both.1,
        if_neg fun both => own both.1]

theorem mem_chartsOf (srt : OrdMap.Sorted registry.chartMappings)
    {ent : (ClientId ×ₗ String) × SourceKey} : ent ∈ registry.chartsOf clientId ↔
      (ofLex ent.1).1 = clientId ∧ registry.chartOf clientId (ofLex ent.1).2 = some ent.2 := by
  unfold chartsOf chartOf
  rw [mem_filter, decide_eq_true_eq]
  constructor
  · rintro ⟨mem, rfl⟩
    exact ⟨rfl, srt.get?_of_mem mem⟩
  · rintro ⟨rfl, got⟩
    exact ⟨mem_of_get? got, rfl⟩

theorem nodup_chartsOf (srt : OrdMap.Sorted registry.chartMappings) :
    ((registry.chartsOf clientId).map fun ent => (ofLex ent.1).2).Nodup := by
  have keys := (srt.filter fun ent => decide ((ofLex ent.1).1 = clientId)).keys_nodup
  refine List.Nodup.of_map (fun id => toLex (clientId, id)) ?_
  rw [List.map_map]
  refine (map_congr_left fun ent mem => ?_) ▸ keys
  obtain ⟨own, -⟩ := (mem_chartsOf srt).mp mem
  exact congrArg (fun client => toLex (client, (ofLex ent.1).2)) own

section

variable (indexed : registry.Indexed)

include indexed

theorem removeClient_spec (clientId : ClientId) :
    (registry.removeClient clientId).Indexed ∧
      ∀ alt id, (registry.removeClient clientId).chartOf alt id =
        if alt = clientId then none else registry.chartOf alt id := by
  have rem := indexed.removeQuotes clientId
  obtain ⟨ixdPost, post⟩ := rem.unmapCharts (nodup_chartsOf rem.sorted)
    fun ent mem => ((mem_chartsOf rem.sorted).mp mem).2
  refine ⟨ixdPost, fun alt id => ?_⟩
  rw [removeClient, post]
  by_cases own : alt = clientId
  · subst own
    rw [if_pos rfl]
    split
    · rfl
    · rename_i unl
      cases mapped : (registry.removeQuotes alt).chartOf alt id with
      | none => rfl
      | some source =>
        exact absurd ⟨rfl, (toLex (alt, id), source),
          (mem_chartsOf rem.sorted).mpr ⟨rfl, mapped⟩, rfl⟩ unl
  · rw [if_neg fun both => own both.1, if_neg own, chartOf_removeQuotes]

theorem Indexed.removeClient (clientId : ClientId) : (registry.removeClient clientId).Indexed :=
  (removeClient_spec indexed clientId).1

theorem Indexed.chartOf_removeClient (clientId alt : ClientId) (id : String) :
    (registry.removeClient clientId).chartOf alt id =
      if alt = clientId then none else registry.chartOf alt id :=
  (removeClient_spec indexed clientId).2 alt id

/-! ### What the fan-out reads -/

theorem Indexed.mem_chartSubscriptions {sub : ChartSubscription} :
    sub ∈ registry.chartSubscriptions source ↔
      registry.chartOf sub.clientId sub.chartId = some source ∧
        get? (toLex (sub.clientId, sub.chartId))
          registry.chartSymbolsByClientChart = some sub.symbols := by
  simp only [chartSubscriptions, mem_flatMap, List.mem_map]
  constructor
  · rintro ⟨clientId, -, chartId, mem, rfl⟩
    have mapped := (indexed.ids clientId source chartId).mp mem
    obtain ⟨syms, got, -⟩ := indexed.requested _ _ _ mapped
    refine ⟨mapped, ?_⟩
    dsimp only
    rw [got]
    rfl
  · rintro ⟨mapped, got⟩
    refine ⟨sub.clientId, (indexed.clients _ _).mpr ⟨_, mapped⟩, sub.chartId,
      (indexed.ids _ _ _).mpr mapped, ?_⟩
    rw [got]
    rfl

theorem Indexed.mem_sources :
    source ∈ registry.sources ↔
      ∃ clientId chartId, registry.chartOf clientId chartId = some source := by
  have keys : source ∈ registry.sources ↔
      (get? source registry.chartClientsBySource).isSome := by
    rw [sources, List.mem_map]
    constructor
    · rintro ⟨ent, mem, rfl⟩
      exact isSome_iff_ne_none.mpr (get?_ne_none_of_mem mem)
    · intro got
      obtain ⟨clients, got⟩ := isSome_iff_exists.mp got
      exact ⟨_, mem_of_get? got, rfl⟩
  rw [keys, indexed.clientsTight.isSome_iff]
  simp only [indexed.clients]

theorem Indexed.mem_activeChartSources :
    source ∈ registry.activeChartSources ↔
      ∃ clientId chartId, registry.chartOf clientId chartId = some source := by
  rw [activeChartSources, List.mem_map]
  constructor
  · rintro ⟨ent, mem, rfl⟩
    exact ⟨_, _, indexed.sorted.get?_of_mem mem⟩
  · rintro ⟨clientId, chartId, mp⟩
    exact ⟨_, mem_of_get? mp, rfl⟩

end

end InterestRegistry

end Tqsdk
