import Mathlib.Data.Set.Card
import Tqsdk.Relay.Interests

/-!
# The indexes of the registry against the current interests

`CurrentInterests` is what the clients last asked for.  Over every run of requests, replacements
and disconnects the registry's indexes list exactly that, and its counts count it.
-/

namespace Tqsdk

open List Option OrdMap

/-- The quotes and charts the clients asked for last. -/
structure CurrentInterests where
  quotes : ClientId → Option (List String)
  charts : ClientId → String → Option SetChartCommand

inductive InterestChange
  | setQuotes (clientId : ClientId) (symbols : List String)
  | setChart (clientId : ClientId) (command : SetChartCommand)
  | removeChart (clientId : ClientId) (chartId : String)
  | removeClient (clientId : ClientId)

namespace CurrentInterests

def empty : CurrentInterests := ⟨fun _ => none, fun _ _ => none⟩

def apply (current : CurrentInterests) : InterestChange → CurrentInterests
  | .setQuotes clientId symbols =>
    { current with
      quotes := fun other => if other = clientId then some symbols else current.quotes other }
  | .setChart clientId command =>
    { current with
      charts := fun other id =>
        if other = clientId ∧ id = command.chartId then some command
        else current.charts other id }
  | .removeChart clientId chartId =>
    { current with
      charts := fun other id =>
        if other = clientId ∧ id = chartId then none else current.charts other id }
  | .removeClient clientId =>
    { quotes := fun other => if other = clientId then none else current.quotes other
      charts := fun other id => if other = clientId then none else current.charts other id }

variable (current : CurrentInterests)

def Quotes (clientId : ClientId) (symbol : String) : Prop :=
  ∃ symbols, current.quotes clientId = some symbols ∧ symbol ∈ symbols

/-- The chart is on the source. -/
def On (source : SourceKey) (clientId : ClientId) (chartId : String) : Prop :=
  ∃ command, current.charts clientId chartId = some command ∧
    InterestRegistry.sourceOf command = source

/-- The chart shows the symbol. -/
def Shows (symbol : String) (clientId : ClientId) (chartId : String) : Prop :=
  ∃ command, current.charts clientId chartId = some command ∧ symbol ∈ command.symbols

end CurrentInterests

structure SymbolSubscriptionCounts where
  quoteSubscriberCount : Nat
  chartSubscriberCount : Nat

namespace InterestRegistry

variable (registry : InterestRegistry)

def apply : InterestChange → InterestRegistry
  | .setQuotes clientId symbols => registry.setQuotes clientId symbols
  | .setChart clientId command => registry.setChart clientId command
  | .removeChart clientId chartId => registry.removeChart clientId chartId
  | .removeClient clientId => registry.removeClient clientId

def quoteInterestCount (symbol : String) : Nat :=
  (Index.values symbol registry.quoteClientsBySymbol).length

def chartInterestCount (source : SourceKey) : Nat :=
  ((registry.chartIdsByClientSource.filter fun entry => decide ((ofLex entry.1).2 = source)).map
    fun entry => entry.2.length).sum

def clientCount : Nat :=
  (registry.clientQuotes.map Prod.fst ++
    registry.chartMappings.map fun entry => (ofLex entry.1).1).dedup.length

def totalQuoteSubscriptions : Nat := (registry.clientQuotes.map fun entry => entry.2.length).sum

def totalChartSubscriptions : Nat := registry.chartMappings.length

/-- Count a subscriber of the symbol. -/
def countSymbol (bump : SymbolSubscriptionCounts → SymbolSubscriptionCounts)
    (counts : List (String × SymbolSubscriptionCounts)) (symbol : String) :
    List (String × SymbolSubscriptionCounts) :=
  OrdMap.insert symbol (bump ((get? symbol counts).getD ⟨0, 0⟩)) counts

def symbolSubscriptionCounts : List (String × SymbolSubscriptionCounts) :=
  let quoted := (registry.clientQuotes.flatMap Prod.snd).foldl (countSymbol fun counts =>
    { counts with quoteSubscriberCount := counts.quoteSubscriberCount + 1 }) []
  (registry.chartMappings.flatMap fun entry => entry.2.symbols).foldl (countSymbol fun counts =>
    { counts with chartSubscriberCount := counts.chartSubscriberCount + 1 }) quoted

/-! ## The maps follow the current interests -/

structure Follows (registry : InterestRegistry) (current : CurrentInterests) : Prop where
  indexed : registry.Indexed
  quotes : ∀ clientId,
    get? clientId registry.clientQuotes = (current.quotes clientId).map sortDedup
  charts : ∀ clientId chartId,
    registry.chartOf clientId chartId = (current.charts clientId chartId).map sourceOf
  requested : ∀ clientId chartId,
    get? (toLex (clientId, chartId)) registry.chartSymbolsByClientChart =
      (current.charts clientId chartId).map fun command => preserveSymbolOrder command.symbols
  quotesSorted : OrdMap.Sorted registry.clientQuotes
  symbolsSorted : OrdMap.Sorted registry.chartSymbolsByClientChart
  quoteClients : Index.Neat registry.quoteClientsBySymbol
  sources : Index.Neat registry.sourcesBySymbol
  clients : Index.Neat registry.chartClientsBySource
  ids : Index.Neat registry.chartIdsByClientSource

theorem follows_empty : empty.Follows .empty :=
  ⟨indexed_empty, fun _ => rfl, fun _ _ => rfl, fun _ _ => rfl, sorted_nil, sorted_nil,
    Index.neat_nil, Index.neat_nil, Index.neat_nil, Index.neat_nil⟩

variable {registry : InterestRegistry} {current : CurrentInterests} {clientId : ClientId}
  {chartId : String} {source : SourceKey}

section

variable (follows : registry.Follows current)

include follows

theorem Follows.removeQuotes (clientId : ClientId) : (registry.removeQuotes clientId).Follows
    { current with quotes := fun other => if other = clientId then none else current.quotes other } := by
  have indexed := follows.indexed.removeQuotes clientId
  have here := follows.quotes clientId
  unfold InterestRegistry.removeQuotes at indexed ⊢
  cases got : get? clientId registry.clientQuotes with
  | none =>
    rw [got] at here indexed
    refine { follows with quotes := fun other => ?_ }
    dsimp only
    split
    · rename_i same
      rw [same, got]
      rfl
    · exact follows.quotes other
  | some symbols =>
    rw [got] at indexed
    refine { follows with
      indexed
      quotes := fun other => ?_
      quotesSorted := follows.quotesSorted.erase _
      quoteClients := follows.quoteClients.foldl_remove _ _ }
    dsimp only
    rw [get?_erase]
    split
    · rfl
    · exact follows.quotes other

theorem Follows.setQuotes (clientId : ClientId) (symbols : List String) :
    (registry.setQuotes clientId symbols).Follows (current.apply (.setQuotes clientId symbols)) := by
  have removed := follows.removeQuotes clientId
  refine { removed with
    indexed := follows.indexed.setQuotes clientId symbols
    quotes := fun other => ?_
    quotesSorted := removed.quotesSorted.insert _ _
    quoteClients := removed.quoteClients.foldl_add _ _ }
  have before := removed.quotes other
  dsimp only [InterestRegistry.setQuotes, CurrentInterests.apply] at before ⊢
  rw [get?_insert]
  split
  · rfl
  · rename_i elsewhere
    rw [if_neg elsewhere] at before
    exact before

theorem Follows.unmapChart (mapped : registry.chartOf clientId chartId = some source) :
    (registry.unmapChart clientId chartId source).Follows
      (current.apply (.removeChart clientId chartId)) := by
  refine { follows with
    indexed := follows.indexed.unmapChart mapped
    charts := fun other id => ?_
    requested := fun other id => ?_
    symbolsSorted := follows.symbolsSorted.erase _
    sources := ?_
    clients := ?_
    ids := follows.ids.remove _ _ }
  · rw [chartOf_unmapChart, follows.charts]
    dsimp only [CurrentInterests.apply]
    split <;> rfl
  · dsimp only [InterestRegistry.unmapChart, removeChartIndex, CurrentInterests.apply]
    rw [get?_erase, follows.requested]
    simp only [toLex_inj, Prod.mk.injEq]
    split <;> rfl
  · dsimp only [InterestRegistry.unmapChart, removeChartIndex]
    generalize (get? source _).isNone = last
    cases last
    · exact follows.sources
    · exact follows.sources.foldl_remove _ _
  · dsimp only [InterestRegistry.unmapChart, removeChartIndex]
    split
    · exact follows.clients.remove _ _
    · exact follows.clients

theorem Follows.removeChart (clientId : ClientId) (chartId : String) :
    (registry.removeChart clientId chartId).Follows
      (current.apply (.removeChart clientId chartId)) := by
  unfold InterestRegistry.removeChart
  cases mapped : get? (toLex (clientId, chartId)) registry.chartMappings with
  | none =>
    have absent : current.charts clientId chartId = none := by
      have here := follows.charts clientId chartId
      rw [chartOf, mapped] at here
      exact map_eq_none_iff.mp here.symm
    have same : current.apply (.removeChart clientId chartId) = current := by
      refine congrArg (CurrentInterests.mk current.quotes) (funext fun other => funext fun id => ?_)
      split
      · rename_i here
        rw [here.1, here.2, absent]
      · rfl
    rw [same]
    exact follows
  | some source => exact follows.unmapChart mapped

theorem Follows.setChart (clientId : ClientId) (command : SetChartCommand) :
    (registry.setChart clientId command).Follows (current.apply (.setChart clientId command)) := by
  have removed := follows.removeChart clientId command.chartId
  refine { removed with
    indexed := follows.indexed.setChart clientId command
    charts := fun other id => ?_
    requested := fun other id => ?_
    symbolsSorted := removed.symbolsSorted.insert _ _
    sources := removed.sources.foldl_add _ _
    clients := removed.clients.add _ _
    ids := removed.ids.add _ _ }
  · rw [chartOf_setChart, follows.charts]
    dsimp only [CurrentInterests.apply]
    split <;> rfl
  · have before := removed.requested other id
    dsimp only [InterestRegistry.setChart, addChartIndex, CurrentInterests.apply] at before ⊢
    rw [get?_insert, before]
    simp only [toLex_inj, Prod.mk.injEq]
    split <;> rfl

/-- Unmapping distinct charts of a client, each of them mapped. -/
theorem Follows.unmapCharts {charts : List ((ClientId ×ₗ String) × SourceKey)}
    (distinct : (charts.map fun entry => (ofLex entry.1).2).Nodup)
    (mapped : ∀ entry ∈ charts, registry.chartOf clientId (ofLex entry.1).2 = some entry.2) :
    (charts.foldl (fun registry entry => registry.unmapChart clientId (ofLex entry.1).2 entry.2)
      registry).Follows
      { current with
        charts := fun other id =>
          if other = clientId ∧ ∃ entry ∈ charts, (ofLex entry.1).2 = id then none
          else current.charts other id } := by
  induction charts generalizing registry current with
  | nil => simpa using follows
  | cons first charts ih =>
    rw [map_cons, nodup_cons] at distinct
    have step := ih (follows.unmapChart (mapped first mem_cons_self)) distinct.2 fun entry mem => by
      rw [chartOf_unmapChart, if_neg, mapped entry (mem_cons_of_mem _ mem)]
      rintro ⟨-, same⟩
      exact distinct.1 (same ▸ mem_map_of_mem mem)
    have same : ∀ other id, (if other = clientId ∧ ∃ entry ∈ first :: charts,
        (ofLex entry.1).2 = id then none else current.charts other id) =
        if other = clientId ∧ ∃ entry ∈ charts, (ofLex entry.1).2 = id then none
        else (current.apply (.removeChart clientId (ofLex first.1).2)).charts other id := by
      intro other id
      simp only [exists_mem_cons_iff, CurrentInterests.apply]
      grind
    simp only [same]
    exact step

theorem Follows.removeClient (clientId : ClientId) :
    (registry.removeClient clientId).Follows (current.apply (.removeClient clientId)) := by
  have removed := follows.removeQuotes clientId
  have unmapped := removed.unmapCharts (@nodup_chartsOf _ clientId removed.indexed.sorted)
    fun entry mem => ((mem_chartsOf removed.indexed.sorted).mp mem).2
  have same : ∀ other id, (if other = clientId then none else current.charts other id) =
      if other = clientId ∧ ∃ entry ∈ (registry.removeQuotes clientId).chartsOf clientId,
        (ofLex entry.1).2 = id then none else current.charts other id := by
    intro other id
    by_cases owner : other = clientId
    · subst owner
      rw [if_pos rfl]
      split
      · rfl
      · rename_i unlisted
        cases held : current.charts other id with
        | none => rfl
        | some command =>
          have mapped := removed.charts other id
          dsimp only at mapped
          rw [held] at mapped
          exact absurd ⟨rfl, (toLex (other, id), sourceOf command),
            (mem_chartsOf removed.indexed.sorted).mpr ⟨rfl, mapped⟩, rfl⟩ unlisted
    · rw [if_neg owner, if_neg fun both => owner both.1]
  unfold CurrentInterests.apply
  simp only [same]
  exact unmapped

theorem Follows.apply (change : InterestChange) :
    (registry.apply change).Follows (current.apply change) := by
  cases change with
  | setQuotes clientId symbols => exact follows.setQuotes clientId symbols
  | setChart clientId command => exact follows.setChart clientId command
  | removeChart clientId chartId => exact follows.removeChart clientId chartId
  | removeClient clientId => exact follows.removeClient clientId

theorem Follows.run (changes : List InterestChange) :
    (changes.foldl InterestRegistry.apply registry).Follows
      (changes.foldl CurrentInterests.apply current) := by
  induction changes generalizing registry current with
  | nil => exact follows
  | cons change changes ih => exact ih (follows.apply change)

end

/-! ## What the queries answer -/

section

variable {α β ι : Type}

theorem ncard_of_list {items : List α} (distinct : items.Nodup) {p : α → Prop}
    (mem : ∀ item, item ∈ items ↔ p item) : {item | p item}.ncard = items.length := by
  classical
  have same : {item | p item} = ↑items.toFinset := by
    ext item
    simp [mem]
  rw [same, Set.ncard_coe_finset, toFinset_card_of_nodup distinct]

/-- Distinct owners with distinct values make distinct pairs. -/
theorem nodup_pairs {items : List ι} {owner : ι → β} {values : ι → List α}
    (distinct : (items.map owner).Nodup) (once : ∀ item ∈ items, (values item).Nodup) :
    (items.flatMap fun item => (values item).map fun value => (owner item, value)).Nodup := by
  refine nodup_flatMap.mpr ⟨fun item mem => ?_, ?_⟩
  · exact (once item mem).map fun _ _ same => (Prod.mk.inj same).2
  · refine (pairwise_map.mp distinct).imp fun differs => ?_
    rintro ⟨other, value⟩ left right
    obtain ⟨_, -, here⟩ := List.mem_map.mp left
    obtain ⟨_, -, there⟩ := List.mem_map.mp right
    exact differs ((Prod.mk.inj here).1.trans (Prod.mk.inj there).1.symm)

theorem count_flatMap_of_once {items : List ι} {values : ι → List String}
    (once : ∀ item ∈ items, (values item).Nodup) (symbol : String) :
    (items.flatMap values).count symbol =
      (items.filter fun item => decide (symbol ∈ values item)).length := by
  induction items with
  | nil => rfl
  | cons first items ih =>
    rw [flatMap_cons, count_append, ih fun item mem => once item (mem_cons_of_mem _ mem),
      filter_cons]
    by_cases mem : symbol ∈ values first
    · rw [count_eq_one_of_mem (once first mem_cons_self) mem, if_pos (decide_eq_true mem),
        length_cons, Nat.add_comm]
    · rw [count_eq_zero_of_not_mem mem, if_neg (by simpa using mem), Nat.zero_add]

end

theorem preserveSymbolOrder_eq (symbols : List String) :
    preserveSymbolOrder symbols = symbols.eraseDups := by
  have from_ : ∀ seen, preserveSymbolOrderFrom seen symbols =
      (symbols.filter fun symbol => decide (symbol ∉ seen)).eraseDups := by
    induction symbols with
    | nil => exact fun _ => rfl
    | cons first symbols ih =>
      intro seen
      rw [preserveSymbolOrderFrom, filter_cons, ih, ih]
      by_cases old : first ∈ seen
      · simp [old]
      · rw [if_neg old, if_pos (by simpa using old), eraseDups_cons, List.filter_filter]
        congr 3
        funext symbol
        simp [Bool.beq_eq_decide_eq]
  rw [preserveSymbolOrder, from_]
  simp

theorem get?_foldl_countSymbol (bump : SymbolSubscriptionCounts → SymbolSubscriptionCounts)
    (symbols : List String) (counts : List (String × SymbolSubscriptionCounts)) (symbol : String) :
    get? symbol (symbols.foldl (countSymbol bump) counts) =
      if symbol ∈ symbols then
        some (bump^[symbols.count symbol] ((get? symbol counts).getD ⟨0, 0⟩))
      else get? symbol counts := by
  induction symbols generalizing counts with
  | nil => rfl
  | cons first symbols ih =>
    rw [foldl_cons, ih, countSymbol, get?_insert]
    by_cases same : symbol = first
    · subst same
      rw [if_pos rfl, if_pos mem_cons_self, count_cons_self, Function.iterate_succ_apply]
      split
      · rfl
      · rename_i last
        rw [count_eq_zero_of_not_mem last]
        rfl
    · simp only [mem_cons, same, false_or, if_false, count_cons_of_ne (Ne.symm same)]

section

variable (follows : registry.Follows current)

include follows

theorem Follows.mem_quotesOf {symbol : String} :
    symbol ∈ registry.quotesOf clientId ↔ current.Quotes clientId symbol := by
  rw [quotesOf, follows.quotes, CurrentInterests.Quotes]
  cases current.quotes clientId <;> simp

theorem Follows.on_iff :
    registry.chartOf clientId chartId = some source ↔ current.On source clientId chartId := by
  rw [follows.charts, CurrentInterests.On, Option.map_eq_some_iff]

theorem Follows.mem_chartMappings {entry : (ClientId ×ₗ String) × SourceKey} :
    entry ∈ registry.chartMappings ↔ current.On entry.2 (ofLex entry.1).1 (ofLex entry.1).2 := by
  rw [← follows.on_iff]
  exact ⟨follows.indexed.sorted.get?_of_mem, mem_of_get?⟩

omit follows in
theorem shows_iff {symbol : String} : current.Shows symbol clientId chartId ↔
    ∃ source, current.On source clientId chartId ∧ symbol ∈ source.symbols := by
  constructor
  · rintro ⟨command, asked, mem⟩
    exact ⟨_, ⟨command, asked, rfl⟩, by simpa [sourceOf] using mem⟩
  · rintro ⟨source, ⟨command, asked, rfl⟩, mem⟩
    exact ⟨command, asked, by simpa [sourceOf] using mem⟩

theorem Follows.nodup_charts : (registry.chartMappings.map fun entry => ofLex entry.1).Nodup :=
  follows.indexed.sorted.keys_nodup

theorem Follows.quoteInterestCount_eq (symbol : String) : registry.quoteInterestCount symbol =
    {clientId | current.Quotes clientId symbol}.ncard := by
  refine (ncard_of_list (follows.quoteClients.nodup_values symbol) fun clientId => ?_).symm
  rw [← follows.mem_quotesOf]
  exact follows.indexed.quoted symbol clientId

theorem Follows.chartInterestCount_eq (source : SourceKey) : registry.chartInterestCount source =
    {key : ClientId × String | current.On source key.1 key.2}.ncard := by
  have distinct : ((registry.chartIdsByClientSource.filter
      fun entry => decide ((ofLex entry.1).2 = source)).map fun entry => (ofLex entry.1).1).Nodup := by
    refine List.Nodup.of_map (fun clientId => toLex (clientId, source)) ?_
    rw [List.map_map]
    refine (map_congr_left fun entry mem => ?_) ▸ (follows.ids.sorted.filter _).keys_nodup
    exact (of_decide_eq_true (mem_filter.mp mem).2) ▸ rfl
  have pairs := nodup_pairs distinct fun entry mem =>
    (follows.ids.filled entry (mem_filter.mp mem).1).1
  rw [ncard_of_list pairs, length_flatMap]
  · simp [chartInterestCount]
  · rintro ⟨clientId, chartId⟩
    rw [← follows.on_iff, ← follows.indexed.ids, mem_flatMap]
    constructor
    · rintro ⟨entry, mem, here⟩
      obtain ⟨stored, onSource⟩ := mem_filter.mp mem
      obtain ⟨id, mem, same⟩ := List.mem_map.mp here
      cases same
      rw [← of_decide_eq_true onSource]
      exact (follows.ids.values_of_mem stored).symm ▸ mem
    · intro mem
      cases got : get? (toLex (clientId, source)) registry.chartIdsByClientSource with
      | none => simp [Index.values, got] at mem
      | some ids =>
        rw [Index.values, got] at mem
        exact ⟨_, mem_filter.mpr ⟨mem_of_get? got, decide_eq_true rfl⟩, mem_map_of_mem mem⟩

theorem Follows.clientCount_eq : registry.clientCount = {clientId | current.quotes clientId ≠ none ∨
    ∃ chartId, current.charts clientId chartId ≠ none}.ncard := by
  refine (ncard_of_list (nodup_dedup _) fun clientId => ?_).symm
  rw [mem_dedup, mem_append]
  refine or_congr ?_ ?_
  · have here := follows.quotes clientId
    constructor
    · intro mem none
      rw [none] at here
      obtain ⟨entry, stored, rfl⟩ := List.mem_map.mp mem
      exact get?_ne_none_of_mem stored here
    · intro some
      obtain ⟨symbols, some⟩ := ne_none_iff_exists'.mp some
      rw [some] at here
      exact mem_map_of_mem (mem_of_get? here)
  · rw [List.mem_map]
    constructor
    · rintro ⟨entry, mem, rfl⟩
      obtain ⟨command, asked, -⟩ := follows.mem_chartMappings.mp mem
      exact ⟨_, asked ▸ some_ne_none _⟩
    · rintro ⟨chartId, some⟩
      obtain ⟨command, some⟩ := ne_none_iff_exists'.mp some
      exact ⟨(toLex (clientId, chartId), sourceOf command),
        follows.mem_chartMappings.mpr ⟨command, some, rfl⟩, rfl⟩

theorem Follows.mem_clientQuotes {entry : ClientId × List String} (mem : entry ∈ registry.clientQuotes)
    {symbol : String} : symbol ∈ entry.2 ↔ current.Quotes entry.1 symbol := by
  rw [← follows.mem_quotesOf, quotesOf, follows.quotesSorted.get?_of_mem mem]
  rfl

theorem Follows.exists_clientQuotes {symbol : String} (quoted : current.Quotes clientId symbol) :
    ∃ symbols, (clientId, symbols) ∈ registry.clientQuotes ∧ symbol ∈ symbols := by
  obtain ⟨symbols, asked, mem⟩ := quoted
  have here := follows.quotes clientId
  rw [asked] at here
  exact ⟨_, mem_of_get? here, mem_sortDedup.mpr mem⟩

theorem Follows.nodup_quotes : ∀ entry ∈ registry.clientQuotes, entry.2.Nodup := by
  intro entry mem
  have here := follows.quotes entry.1
  rw [follows.quotesSorted.get?_of_mem mem] at here
  obtain ⟨symbols, -, same⟩ := Option.map_eq_some_iff.mp here.symm
  exact same ▸ nodup_sortDedup symbols

theorem Follows.totalQuoteSubscriptions_eq : registry.totalQuoteSubscriptions =
    {pair : ClientId × String | current.Quotes pair.1 pair.2}.ncard := by
  have pairs := nodup_pairs follows.quotesSorted.keys_nodup follows.nodup_quotes
  rw [ncard_of_list pairs, length_flatMap]
  · simp [totalQuoteSubscriptions]
  · rintro ⟨clientId, symbol⟩
    rw [mem_flatMap]
    constructor
    · rintro ⟨entry, mem, here⟩
      obtain ⟨_, inside, same⟩ := List.mem_map.mp here
      cases same
      exact (follows.mem_clientQuotes mem).mp inside
    · intro quoted
      obtain ⟨symbols, mem, inside⟩ := follows.exists_clientQuotes quoted
      exact ⟨_, mem, mem_map_of_mem inside⟩

theorem Follows.totalChartSubscriptions_eq : registry.totalChartSubscriptions =
    {key : ClientId × String | current.charts key.1 key.2 ≠ none}.ncard := by
  rw [ncard_of_list follows.nodup_charts, length_map, totalChartSubscriptions]
  rintro ⟨clientId, chartId⟩
  rw [List.mem_map]
  constructor
  · rintro ⟨entry, mem, same⟩
    obtain ⟨command, asked, -⟩ := follows.mem_chartMappings.mp mem
    rw [same] at asked
    exact asked ▸ some_ne_none _
  · intro some
    obtain ⟨command, some⟩ := ne_none_iff_exists'.mp some
    exact ⟨(toLex (clientId, chartId), sourceOf command),
      follows.mem_chartMappings.mpr ⟨command, some, rfl⟩, rfl⟩

theorem Follows.subscriber_counts (symbol : String) :
    (registry.clientQuotes.flatMap Prod.snd).count symbol =
        {clientId | current.Quotes clientId symbol}.ncard ∧
      (registry.chartMappings.flatMap fun entry => entry.2.symbols).count symbol =
        {key : ClientId × String | current.Shows symbol key.1 key.2}.ncard := by
  have sourceOnce : ∀ entry ∈ registry.chartMappings, entry.2.symbols.Nodup := by
    intro entry mem
    obtain ⟨command, -, same⟩ := follows.mem_chartMappings.mp mem
    exact same ▸ nodup_sortDedup _
  rw [count_flatMap_of_once follows.nodup_quotes, count_flatMap_of_once sourceOnce]
  have quoted : ((registry.clientQuotes.filter fun entry =>
      decide (symbol ∈ entry.2)).map Prod.fst).Nodup := (follows.quotesSorted.filter _).keys_nodup
  have shown : ((registry.chartMappings.filter fun entry =>
      decide (symbol ∈ entry.2.symbols)).map fun entry => ofLex entry.1).Nodup :=
    (follows.indexed.sorted.filter _).keys_nodup
  constructor
  · rw [ncard_of_list quoted, length_map]
    intro clientId
    rw [List.mem_map]
    constructor
    · rintro ⟨entry, mem, rfl⟩
      obtain ⟨stored, inside⟩ := mem_filter.mp mem
      exact (follows.mem_clientQuotes stored).mp (of_decide_eq_true inside)
    · intro quotes
      obtain ⟨symbols, mem, inside⟩ := follows.exists_clientQuotes quotes
      exact ⟨_, mem_filter.mpr ⟨mem, decide_eq_true inside⟩, rfl⟩
  · rw [ncard_of_list shown, length_map]
    rintro ⟨clientId, chartId⟩
    rw [List.mem_map, shows_iff]
    constructor
    · rintro ⟨entry, mem, same⟩
      obtain ⟨stored, inside⟩ := mem_filter.mp mem
      have on := follows.mem_chartMappings.mp stored
      rw [same] at on
      exact ⟨_, on, of_decide_eq_true inside⟩
    · rintro ⟨source, on, inside⟩
      exact ⟨(toLex (clientId, chartId), source),
        mem_filter.mpr ⟨follows.mem_chartMappings.mpr on, decide_eq_true inside⟩, rfl⟩

theorem Follows.mem_quoted {symbol : String} :
    symbol ∈ registry.clientQuotes.flatMap Prod.snd ↔
      ∃ clientId, current.Quotes clientId symbol := by
  rw [mem_flatMap]
  constructor
  · rintro ⟨entry, mem, inside⟩
    exact ⟨_, (follows.mem_clientQuotes mem).mp inside⟩
  · rintro ⟨clientId, quotes⟩
    obtain ⟨symbols, mem, inside⟩ := follows.exists_clientQuotes quotes
    exact ⟨_, mem, inside⟩

theorem Follows.mem_shown {symbol : String} :
    (symbol ∈ registry.chartMappings.flatMap fun entry => entry.2.symbols) ↔
      ∃ clientId chartId, current.Shows symbol clientId chartId := by
  simp only [mem_flatMap, shows_iff]
  constructor
  · rintro ⟨entry, mem, inside⟩
    exact ⟨_, _, _, follows.mem_chartMappings.mp mem, inside⟩
  · rintro ⟨clientId, chartId, source, on, inside⟩
    exact ⟨(toLex (clientId, chartId), source), follows.mem_chartMappings.mpr on, inside⟩

theorem Follows.symbolSubscriptionCounts_eq (symbol : String) :
    get? symbol registry.symbolSubscriptionCounts =
      if (symbol ∈ registry.subscribedSymbols) then
        some ⟨{clientId | current.Quotes clientId symbol}.ncard,
          {key : ClientId × String | current.Shows symbol key.1 key.2}.ncard⟩
      else none := by
  have quotes : ∀ n (counts : SymbolSubscriptionCounts),
      (fun counts : SymbolSubscriptionCounts =>
        { counts with quoteSubscriberCount := counts.quoteSubscriberCount + 1 })^[n] counts =
        ⟨counts.quoteSubscriberCount + n, counts.chartSubscriberCount⟩ := by
    intro n
    induction n with
    | zero => exact fun _ => rfl
    | succ n ih =>
      intro counts
      rw [Function.iterate_succ_apply, ih, Nat.add_right_comm, Nat.add_assoc]
  have charts : ∀ n (counts : SymbolSubscriptionCounts),
      (fun counts : SymbolSubscriptionCounts =>
        { counts with chartSubscriberCount := counts.chartSubscriberCount + 1 })^[n] counts =
        ⟨counts.quoteSubscriberCount, counts.chartSubscriberCount + n⟩ := by
    intro n
    induction n with
    | zero => exact fun _ => rfl
    | succ n ih =>
      intro counts
      rw [Function.iterate_succ_apply, ih, Nat.add_right_comm, Nat.add_assoc]
  obtain ⟨quoted, shown⟩ := follows.subscriber_counts symbol
  rw [← quoted, ← shown, symbolSubscriptionCounts, get?_foldl_countSymbol,
    get?_foldl_countSymbol, get?_nil, charts]
  simp only [subscribedSymbols, mem_sortDedup, mem_append]
  by_cases inQuotes : symbol ∈ registry.clientQuotes.flatMap Prod.snd
  · rw [if_pos inQuotes, quotes]
    by_cases inCharts : symbol ∈ registry.chartMappings.flatMap fun entry => entry.2.symbols
    · simp [inCharts]
    · simp [inCharts, inQuotes, count_eq_zero_of_not_mem inCharts]
  · rw [if_neg inQuotes, count_eq_zero_of_not_mem inQuotes]
    simp only [inQuotes, false_or, Option.getD_none, Nat.zero_add]

theorem Follows.chartSubscriptions_nodup (source : SourceKey) :
    ((registry.chartSubscriptions source).map fun subscription =>
      (subscription.clientId, subscription.chartId)).Nodup := by
  have pairs := @nodup_pairs _ _ _ _ id _ (by simpa using follows.clients.nodup_values source)
    fun clientId _ => follows.ids.nodup_values (toLex (clientId, source))
  rw [chartSubscriptions, map_flatMap]
  simpa [Function.comp_def] using pairs

theorem Follows.mem_subscriptions {subscription : ChartSubscription} :
    subscription ∈ registry.chartSubscriptions source ↔ ∃ command,
      current.charts subscription.clientId subscription.chartId = some command ∧
        sourceOf command = source ∧ subscription.symbols = command.symbols.eraseDups := by
  rw [follows.indexed.mem_chartSubscriptions, follows.on_iff, follows.requested,
    Option.map_eq_some_iff]
  constructor
  · rintro ⟨⟨command, asked, onSource⟩, same, asked', listed⟩
    rw [asked] at asked'
    cases asked'
    exact ⟨command, asked, onSource, by rw [← listed, preserveSymbolOrder_eq]⟩
  · rintro ⟨command, asked, onSource, listed⟩
    exact ⟨⟨command, asked, onSource⟩, command, asked, by rw [listed, preserveSymbolOrder_eq]⟩

end

/-- Every query answers from the current interests, and no index holds anything else. -/
structure Exact (registry : InterestRegistry) (current : CurrentInterests) : Prop where
  quoteClients : ∀ symbol clientId,
    clientId ∈ registry.quoteClients symbol ↔ current.Quotes clientId symbol
  sourcesForSymbol : ∀ symbol source, source ∈ registry.sourcesForSymbol symbol ↔
    symbol ∈ source.symbols ∧ ∃ clientId chartId, current.On source clientId chartId
  subscriptions : ∀ source subscription, subscription ∈ registry.chartSubscriptions source ↔
    ∃ command, current.charts subscription.clientId subscription.chartId = some command ∧
      sourceOf command = source ∧ subscription.symbols = command.symbols.eraseDups
  subscribedOnce : ∀ source, ((registry.chartSubscriptions source).map fun subscription =>
    (subscription.clientId, subscription.chartId)).Nodup
  quoteInterest : ∀ symbol,
    registry.quoteInterestCount symbol = {clientId | current.Quotes clientId symbol}.ncard
  chartInterest : ∀ source, registry.chartInterestCount source =
    {key : ClientId × String | current.On source key.1 key.2}.ncard
  clientTotal : registry.clientCount = {clientId | current.quotes clientId ≠ none ∨
    ∃ chartId, current.charts clientId chartId ≠ none}.ncard
  quoteTotal : registry.totalQuoteSubscriptions =
    {pair : ClientId × String | current.Quotes pair.1 pair.2}.ncard
  chartTotal : registry.totalChartSubscriptions =
    {key : ClientId × String | current.charts key.1 key.2 ≠ none}.ncard
  subscribed : ∀ symbol, symbol ∈ registry.subscribedSymbols ↔
    (∃ clientId, current.Quotes clientId symbol) ∨
      ∃ clientId chartId, current.Shows symbol clientId chartId
  symbolCounts : ∀ symbol, get? symbol registry.symbolSubscriptionCounts =
    if symbol ∈ registry.subscribedSymbols then
      some ⟨{clientId | current.Quotes clientId symbol}.ncard,
        {key : ClientId × String | current.Shows symbol key.1 key.2}.ncard⟩
    else none
  quotesHeld : ∀ entry ∈ registry.clientQuotes, current.quotes entry.1 ≠ none
  chartsHeld : ∀ entry ∈ registry.chartMappings,
    current.On entry.2 (ofLex entry.1).1 (ofLex entry.1).2
  symbolsHeld : ∀ entry ∈ registry.chartSymbolsByClientChart,
    current.charts (ofLex entry.1).1 (ofLex entry.1).2 ≠ none
  quoteIndex : ∀ entry ∈ registry.quoteClientsBySymbol, entry.2 ≠ [] ∧
    ∀ clientId ∈ entry.2, current.Quotes clientId entry.1
  sourceIndex : ∀ entry ∈ registry.sourcesBySymbol, entry.2 ≠ [] ∧ ∀ source ∈ entry.2,
    entry.1 ∈ source.symbols ∧ ∃ clientId chartId, current.On source clientId chartId
  clientIndex : ∀ entry ∈ registry.chartClientsBySource, entry.2 ≠ [] ∧
    ∀ clientId ∈ entry.2, ∃ chartId, current.On entry.1 clientId chartId
  idIndex : ∀ entry ∈ registry.chartIdsByClientSource, entry.2 ≠ [] ∧
    ∀ chartId ∈ entry.2, current.On (ofLex entry.1).2 (ofLex entry.1).1 chartId

theorem Follows.exact (follows : registry.Follows current) : registry.Exact current where
  quoteClients symbol clientId :=
    (follows.indexed.quoted symbol clientId).trans follows.mem_quotesOf
  sourcesForSymbol symbol source := by
    rw [follows.indexed.bySymbol]
    simp only [follows.on_iff]
  subscriptions _ _ := follows.mem_subscriptions
  subscribedOnce := follows.chartSubscriptions_nodup
  quoteInterest := follows.quoteInterestCount_eq
  chartInterest := follows.chartInterestCount_eq
  clientTotal := follows.clientCount_eq
  quoteTotal := follows.totalQuoteSubscriptions_eq
  chartTotal := follows.totalChartSubscriptions_eq
  subscribed symbol := by
    rw [subscribedSymbols, mem_sortDedup, mem_append, follows.mem_quoted, follows.mem_shown]
  symbolCounts := follows.symbolSubscriptionCounts_eq
  quotesHeld entry mem none := by
    have here := follows.quotes entry.1
    rw [none] at here
    exact get?_ne_none_of_mem mem here
  chartsHeld _ mem := follows.mem_chartMappings.mp mem
  symbolsHeld entry mem none := by
    have here := follows.requested (ofLex entry.1).1 (ofLex entry.1).2
    rw [none] at here
    exact get?_ne_none_of_mem mem here
  quoteIndex entry mem := by
    refine ⟨(follows.quoteClients.filled entry mem).2, fun clientId held => ?_⟩
    rw [← follows.quoteClients.values_of_mem mem] at held
    exact follows.mem_quotesOf.mp ((follows.indexed.quoted _ _).mp held)
  sourceIndex entry mem := by
    refine ⟨(follows.sources.filled entry mem).2, fun source held => ?_⟩
    rw [← follows.sources.values_of_mem mem] at held
    simpa only [follows.on_iff] using (follows.indexed.bySymbol _ _).mp held
  clientIndex entry mem := by
    refine ⟨(follows.clients.filled entry mem).2, fun clientId held => ?_⟩
    rw [← follows.clients.values_of_mem mem] at held
    simpa only [follows.on_iff] using (follows.indexed.clients _ _).mp held
  idIndex entry mem := by
    refine ⟨(follows.ids.filled entry mem).2, fun chartId held => ?_⟩
    rw [← follows.ids.values_of_mem mem] at held
    exact follows.on_iff.mp ((follows.indexed.ids _ _ _).mp held)

/-- After every sequence of requests and disconnects the registry is exact. -/
theorem run_exact (changes : List InterestChange) :
    (changes.foldl InterestRegistry.apply empty).Exact
      (changes.foldl CurrentInterests.apply .empty) :=
  (follows_empty.run changes).exact

end InterestRegistry

end Tqsdk
