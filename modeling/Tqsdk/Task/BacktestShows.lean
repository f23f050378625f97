import Tqsdk.Task.BacktestQuotes

/-!
# Runs of a backtest

The state shows after each step the quotes the simulated exchange was given, symbol by symbol and
field by field.  One kind of field is left out: an event writes a value into it, and the last quote
of the step repeats the value that was published before, so that nothing is published.  The field
then hides the value of the quote until a later step publishes another value or writes this one.

`hiddenAfter` says from the events of a step which fields it leaves so, and `Shown` is the invariant
of every run: a published value is shown exactly where it is not hidden.
-/

namespace Tqsdk

open List Option

open Value

/-! ## Publishing the changed fields only -/

section Publish

variable {symbol : Symbol} {shown : Option Value}

theorem get?_publishQuote (prev : Option ReplayStepQuote) (quote : ReplayStepQuote)
    (name : String) :
    OrdMap.get? name (quoteMembers
        (publishQuote symbol shown (quoteStateFieldsSince prev quote))) =
      (if prev.bind (·.value name) = quote.value name then none else quote.value name).or
        (OrdMap.get? name (quoteMembers shown)) := by
  have last := lastWrite_quoteStateFieldsSince prev quote name
  unfold publishQuote
  split
  · rename_i none
    rw [isEmpty_iff.mp none] at last
    rw [← last]
    rfl
  · rw [get?_quoteAfterFields, lastWrite_sortFieldMutations
      (quoteStateFieldsSince_nodup prev quote), last]
    intro fld mem
    exact quoteStateFieldsSince_isNull fld (mem_sortFieldMutations.mp mem)

theorem IsQuote.publish (isQuote : IsQuote shown) (flds : List FieldMutation) :
    IsQuote (publishQuote symbol shown flds) := by
  unfold publishQuote
  split
  · exact isQuote
  · exact isQuote.afterFields symbol _

theorem isSome_publishQuote (flds : List FieldMutation) :
    (publishQuote symbol shown flds).isSome = (!flds.isEmpty || shown.isSome) := by
  unfold publishQuote
  cases flds <;> rfl

/-- Leaving out the unchanged fields makes no difference exactly when they are shown. -/
theorem publishQuote_since_iff (isQuote : IsQuote shown) (prev : Option ReplayStepQuote)
    (quote : ReplayStepQuote) :
    publishQuote symbol shown (quoteStateFieldsSince prev quote) =
        publishQuote symbol shown (quoteStateFields quote) ↔
      ∀ name val, quote.value name = some val →
        prev.bind (·.value name) = some val →
        OrdMap.get? name (quoteMembers shown) = some val := by
  have all (name : String) : OrdMap.get? name (quoteMembers
        (publishQuote symbol shown (quoteStateFields quote))) =
      (quote.value name).or (OrdMap.get? name (quoteMembers shown)) := by
    rw [quoteStateFields, get?_publishQuote, bind_none]
    cases quote.value name <;> rfl
  constructor
  · intro same name val here unchanged
    have fld := congrArg (fun quote => OrdMap.get? name (quoteMembers quote)) same
    rw [all, get?_publishQuote, unchanged, here, if_pos rfl] at fld
    exact fld
  · intro kept
    apply (isQuote.publish _).ext (isQuote.publish _)
    · rw [isSome_publishQuote, isSome_publishQuote]
      cases left : quoteStateFieldsSince prev quote with
      | cons fld flds =>
        -- every changed field is a field
        have mem : fld ∈ quoteStateFields quote := by
          have chg : fld ∈ quoteStateFieldsSince prev quote := left ▸ mem_cons_self
          have here := (mem_quoteStateFieldsSince.mp chg).2
          exact mem_quoteStateFieldsSince.mpr ⟨nofun, here⟩
        cases right : quoteStateFields quote with
        | nil => exact absurd (right ▸ mem) not_mem_nil
        | cons alt alts => rfl
      | nil =>
        cases right : quoteStateFields quote with
        | nil => rfl
        | cons fld flds =>
          have mem : fld ∈ quoteStateFields quote := right ▸ mem_cons_self
          have here := (mem_quoteStateFieldsSince.mp mem).2
          have unchanged : prev.bind (·.value fld.field) = some fld.value := by
            by_contra chg
            have push := mem_quoteStateFieldsSince.mpr ⟨chg, here⟩
            rw [left] at push
            exact not_mem_nil push
          have fld := kept _ _ here unchanged
          cases shown with
          | none => cases fld
          | some val => rfl
    · intro name
      rw [all, get?_publishQuote]
      split
      · rename_i unchanged
        cases here : quote.value name with
        | none => rfl
        | some val =>
          rw [kept name val here (unchanged.trans here)]
          rfl
      · rfl

end Publish

namespace StrategyBacktest

/-! ## Hidden fields -/

/-- Which fields of which symbols are hidden. -/
abbrev HiddenFields := Symbol → String → Bool

/-- An event of the step wrote another value, or none was written and the field was hidden. -/
def hides (written : Option Value) (value : Value) (hidden : Bool) : Bool :=
  match written with
  | none => hidden
  | some written => decide (written ≠ value)

/-- The fields a step leaves hidden.  The last quote of a symbol repeats the value published before,
and an event of the step wrote another one, or none was written and the field was hidden already.
A symbol without an event keeps its hidden fields. -/
def hiddenAfter (backtest : StrategyBacktest) (batch : ReplayStepBatch) (hidden : HiddenFields) :
    HiddenFields := fun symbol name =>
  match Table.get? symbol batch.latestQuotes with
  | none => hidden symbol name
  | some quote => (quote.value name).any fun value =>
      decide ((OrdMap.get? symbol backtest.lastReplayQuotes).bind (·.value name) = some value) &&
        hides (lastWrite name (quoteWrites symbol batch.marketMutations)) value
          (hidden symbol name)

/-- The fields of the published quotes are shown, but for the hidden ones. -/
structure Shown (backtest : StrategyBacktest) (hidden : HiddenFields) : Prop where
  isQuote : ∀ symbol, IsQuote (backtest.store.partitions.quote symbol)
  published : ∀ symbol quote, OrdMap.get? symbol backtest.lastReplayQuotes = some quote →
    ∀ name value, quote.value name = some value →
      (OrdMap.get? name (quoteMembers (backtest.store.partitions.quote symbol)) = some value ↔
        ¬ hidden symbol name)

/-- The backtests that runs reach from the first state of a backtest on, with the fields that the
steps on the way have left hidden. -/
inductive Reached (arith : F64Arith) : StrategyBacktest → HiddenFields → Prop
  | start {backtest : StrategyBacktest} : backtest.lastReplayQuotes = [] →
      backtest.store.partitions .quotes = .object [] → Reached arith backtest fun _ _ => false
  /-- Whatever else happens in the host, such as orders and their trades, is not in the quotes. -/
  | elsewhere {backtest : StrategyBacktest} {hidden : HiddenFields} (store : StateStore)
      (sim : TqSim) : Reached arith backtest hidden →
      store.partitions .quotes = backtest.store.partitions .quotes →
      Reached arith { backtest with store := store, sim := sim } hidden
  | stopped {backtest after : StrategyBacktest} {hidden : HiddenFields} {error : BacktestError}
      {universeAt} : Reached arith backtest hidden →
      backtest.next arith universeAt = (after, .error error) → Reached arith after hidden
  | ended {backtest after : StrategyBacktest} {hidden : HiddenFields} {universeAt} :
      Reached arith backtest hidden →
      backtest.next arith universeAt = (after, .ok none) → Reached arith after hidden
  | next {backtest after : StrategyBacktest} {hidden : HiddenFields} {batch : ReplayStepBatch}
      {universeAt} : Reached arith backtest hidden →
      backtest.next arith universeAt = (after, .ok (some batch)) →
      Reached arith after (backtest.hiddenAfter batch hidden)

/-- The step with all fields of its quotes published. -/
def withAllFields (backtest : StrategyBacktest) (batch : ReplayStepBatch) : StrategyBacktest :=
  (StrategyBacktest.ingestReplayBatch { backtest with lastReplayQuotes := [] } batch).1

/-! ## One step -/

section Step

variable {arith : F64Arith} {backtest after : StrategyBacktest} {batch : ReplayStepBatch}
  {universeAt : Int → Except BacktestError (List ReplayUniverseBatch)} {hidden : HiddenFields}

/-- What `next` leaves of a step that it ran. -/
structure Stepped (backtest : StrategyBacktest) (batch : ReplayStepBatch)
    (after : StrategyBacktest) : Prop where
  market : ∀ mutation ∈ batch.marketMutations, ∃ symbol,
    Table.get? symbol batch.latestQuotes ≠ none ∧ mutation.OfEvent symbol
  distinct : (batch.latestQuotes.map Prod.fst).Nodup
  present : ∀ event ∈ backtest.stepEvents, Table.get? event.symbol batch.latestQuotes ≠ none
  given : ∀ symbol quote, Table.get? symbol batch.latestQuotes = some quote →
    backtest.MatchesAgainst after backtest.stepEvents symbol quote.quote.toQuote
  last : after.lastReplayQuotes =
    (quoteFieldsForReplayBatch backtest.lastReplayQuotes batch.latestQuotes).1
  quote : ∀ symbol, after.store.partitions.quote symbol = publishQuote symbol
    (quoteAfter symbol (backtest.store.partitions.quote symbol) batch.marketMutations)
    (publishedFields backtest.lastReplayQuotes batch symbol)
  whole : ∀ symbol, (backtest.withAllFields batch).store.partitions.quote symbol =
    publishQuote symbol
      (quoteAfter symbol (backtest.store.partitions.quote symbol) batch.marketMutations)
      (publishedFields [] batch symbol)

theorem next_stepped (stepped : backtest.next arith universeAt = (after, .ok (some batch))) :
    Stepped backtest batch after := by
  have coll := collectStep_spec backtest arith universeAt
  unfold StrategyBacktest.next at stepped
  split at stepped
  · cases stepped
  · cases stepped
  · rename_i rch hit same
    rw [same] at coll
    have collecting := coll.collecting hit rfl
    obtain ⟨sto, done, qs⟩ := collecting.toBatchOf.ingestReplayBatch rch
    obtain ⟨wholeStore, wholeDone, wholeQuotes⟩ := collecting.toBatchOf.ingestReplayBatch
      { backtest with lastReplayQuotes := [] }
    rw [done] at stepped
    cases stepped
    rw [collecting.store, collecting.last] at qs
    exact
      { market := fun m mem => by
          obtain ⟨ev, eventMember, ofEvent⟩ := collecting.market m mem
          exact ⟨ev.symbol, coll.present _ rfl ev eventMember, ofEvent⟩
        distinct := collecting.distinct
        present := coll.present _ rfl
        given := collecting.given
        last := by rw [collecting.last]
        quote := qs
        whole := fun symbol => by
          rw [withAllFields, wholeDone]
          exact wholeQuotes symbol }

theorem next_sameShown {out : Except BacktestError (Option ReplayStepBatch)}
    (stepped : backtest.next arith universeAt = (after, out))
    (none : ∀ batch, out ≠ .ok (some batch)) : SameShown backtest after := by
  have coll := collectStep_spec backtest arith universeAt
  unfold StrategyBacktest.next at stepped
  split at stepped
  · rename_i rch err same
    rw [same] at coll
    cases stepped
    exact coll.sameShown
  · rename_i rch same
    rw [same] at coll
    cases stepped
    exact coll.sameShown
  · rename_i rch hit same
    rw [same] at coll
    obtain ⟨sto, done, -⟩ := (coll.collecting hit rfl).toBatchOf.ingestReplayBatch rch
    rw [done] at stepped
    cases stepped
    exact absurd rfl (none hit)

/-- The fields of a quote after the writes of the step's events. -/
theorem Stepped.get?_written (step : Stepped backtest batch after) (symbol : Symbol)
    (quote : Option Value) (name : String) :
    OrdMap.get? name (quoteMembers (quoteAfter symbol quote batch.marketMutations)) =
      (lastWrite name (quoteWrites symbol batch.marketMutations)).or
        (OrdMap.get? name (quoteMembers quote)) := by
  apply get?_quoteAfter
  intro fld mem
  obtain ⟨m, mutationMember, fMem⟩ := mem_flatMap.mp mem
  split at fMem
  · rename_i path
    obtain ⟨ev, -, ofEvent⟩ := step.market m mutationMember
    rcases ofEvent.writes with away | ⟨_, _, _, put⟩
    · unfold partitionPath at away
      rw [path] at away
      exact absurd rfl away
    · exact put fld fMem
  · cases fMem

theorem Stepped.quote_kept (step : Stepped backtest batch after) {symbol : Symbol}
    (abst : Table.get? symbol batch.latestQuotes = none) :
    after.store.partitions.quote symbol = backtest.store.partitions.quote symbol := by
  have sep : ∀ m ∈ batch.marketMutations, m.path ≠ ["quotes", symbol] := by
    intro m mem path
    obtain ⟨alt, here, ofEvent⟩ := step.market m mem
    rw [← ofEvent.own symbol path] at here
    exact here abst
  rw [step.quote, quoteAfter_of_apart sep, publishedFields, abst]
  rfl

variable {symbol : Symbol} {quote : ReplayStepQuote}

/-- What a step shows of a symbol it has an event of. -/
theorem Stepped.get?_shown (step : Stepped backtest batch after)
    (hit : Table.get? symbol batch.latestQuotes = some quote) (name : String) :
    OrdMap.get? name (quoteMembers (after.store.partitions.quote symbol)) =
      (if (OrdMap.get? symbol backtest.lastReplayQuotes).bind (·.value name) = quote.value name
        then none else quote.value name).or
        ((lastWrite name (quoteWrites symbol batch.marketMutations)).or
          (OrdMap.get? name (quoteMembers (backtest.store.partitions.quote symbol)))) := by
  rw [step.quote, publishedFields, hit, get?_publishQuote, step.get?_written]

section

variable (shown : Shown backtest hidden) (step : Stepped backtest batch after)

include shown step

/-- In front of the published fields an unchanged field is shown when an event of the step wrote its
value, and when it was shown before and none wrote it. -/
theorem Shown.get?_written_iff {name : String} {val : Value}
    (kept : (OrdMap.get? symbol backtest.lastReplayQuotes).bind (·.value name) = some val) :
    OrdMap.get? name (quoteMembers (quoteAfter symbol (backtest.store.partitions.quote symbol)
        batch.marketMutations)) = some val ↔
      ¬ hides (lastWrite name (quoteWrites symbol batch.marketMutations)) val
        (hidden symbol name) := by
  obtain ⟨prev, pub, old⟩ := bind_eq_some_iff.mp kept
  rw [step.get?_written]
  cases lastWrite name (quoteWrites symbol batch.marketMutations) with
  | none => exact shown.published symbol prev pub name val old
  | some put => simp [hides]

/-- After a step a symbol shows the field of the last quote, and an older value where that has none,
exactly where the field is not hidden. -/
theorem Shown.get?_next_iff (hit : Table.get? symbol batch.latestQuotes = some quote)
    (name : String) :
    OrdMap.get? name (quoteMembers (after.store.partitions.quote symbol)) =
        (quote.value name).or
          ((lastWrite name (quoteWrites symbol batch.marketMutations)).or
            (OrdMap.get? name (quoteMembers (backtest.store.partitions.quote symbol)))) ↔
      ¬ backtest.hiddenAfter batch hidden symbol name := by
  rw [step.get?_shown hit, hiddenAfter, hit]
  dsimp only
  cases here : quote.value name with
  | none => simp
  | some val =>
    by_cases same : (OrdMap.get? symbol backtest.lastReplayQuotes).bind (·.value name) = some val
    · rw [if_pos same, none_or, some_or, ← step.get?_written, shown.get?_written_iff step same]
      rw [any_some, decide_eq_true same, Bool.true_and]
    · rw [if_neg same, any_some, decide_eq_false same, Bool.false_and]
      exact iff_of_true rfl Bool.false_ne_true

/-- Leaving out the unchanged fields makes no difference to a quote none of whose fields is hidden
afterwards. -/
theorem Shown.withAllFields_iff (hit : Table.get? symbol batch.latestQuotes = some quote) :
    after.store.partitions.quote symbol =
        (backtest.withAllFields batch).store.partitions.quote symbol ↔
      ∀ name, ¬ backtest.hiddenAfter batch hidden symbol name := by
  rw [step.quote, step.whole, publishedFields, publishedFields, hit]
  refine (@publishQuote_since_iff symbol _
    ((shown.isQuote symbol).after symbol batch.marketMutations)
    (OrdMap.get? symbol backtest.lastReplayQuotes) quote).trans (forall_congr' fun name => ?_)
  rw [hiddenAfter, hit]
  dsimp only
  rw [Option.any_eq_true]
  constructor
  · rintro kept ⟨val, here, hides⟩
    obtain ⟨unchanged, hides⟩ := (Bool.and_eq_true _ _).mp hides
    rw [decide_eq_true_eq] at unchanged
    exact (shown.get?_written_iff step unchanged).mp (kept val here unchanged) hides
  · intro plain val here unchanged
    exact (shown.get?_written_iff step unchanged).mpr fun hides =>
      plain ⟨val, here, by rw [decide_eq_true unchanged, Bool.true_and]; exact hides⟩

theorem Shown.next : Shown after (backtest.hiddenAfter batch hidden) := by
  refine ⟨fun symbol => ?_, fun symbol quote pub name val here => ?_⟩
  · rw [step.quote]
    exact ((shown.isQuote symbol).after symbol _).publish _
  · rw [step.last, get?_lastReplayQuotes step.distinct] at pub
    cases hit : Table.get? symbol batch.latestQuotes with
    | none =>
      rw [hit] at pub
      rw [step.quote_kept hit, hiddenAfter, hit]
      exact shown.published symbol quote pub name val here
    | some latest =>
      rw [hit] at pub
      cases pub
      rw [← shown.get?_next_iff step hit, here]
      rfl

end

end Step

/-! ## Runs -/

theorem Shown.of_same {backtest after : StrategyBacktest} {hidden : HiddenFields}
    (shown : Shown backtest hidden)
    (qs : after.store.partitions .quotes = backtest.store.partitions .quotes)
    (last : after.lastReplayQuotes = backtest.lastReplayQuotes) : Shown after hidden := by
  have same (symbol : Symbol) : after.store.partitions.quote symbol =
      backtest.store.partitions.quote symbol := by
    rw [Partitions.quote, qs]
    rfl
  refine ⟨fun symbol => same symbol ▸ shown.isQuote symbol, ?_⟩
  rw [last]
  intro symbol
  rw [same]
  exact shown.published symbol

theorem Reached.shown {arith : F64Arith} {backtest : StrategyBacktest} {hidden : HiddenFields}
    (rch : Reached arith backtest hidden) : Shown backtest hidden := by
  induction rch with
  | @start backtest none emp =>
    refine ⟨fun symbol val => ?_, fun symbol quote pub => ?_⟩
    · rw [Partitions.quote, emp]
      intro no
      cases no
    · rw [none] at pub
      cases pub
  | elsewhere sto sim _ qs ih => exact ih.of_same qs rfl
  | stopped _ stepped ih =>
    have same := next_sameShown stepped nofun
    exact ih.of_same (same.1 ▸ rfl) same.2
  | ended _ stepped ih =>
    have same := next_sameShown stepped nofun
    exact ih.of_same (same.1 ▸ rfl) same.2
  | next _ stepped ih => exact ih.next (next_stepped stepped)

variable (backtest : StrategyBacktest)

/-- A quote as the state shows it to the strategy. -/
def shownQuote (symbol : Symbol) : Option Value :=
  backtest.store.partitions.get ["quotes", symbol]

def shownField (symbol : Symbol) (name : String) : Option Value :=
  backtest.store.partitions.get ["quotes", symbol, name]

/-- The fields of the price and the first level of the book, each with its value if the quote
has one. -/
def bookFields (quote : Quote) : List (String × Option Value) :=
  [("last_price", quote.lastPrice.toJson), ("ask_price1", quote.askPrice1.toJson),
    ("ask_volume1", nonzeroJson quote.askVolume1), ("bid_price1", quote.bidPrice1.toJson),
    ("bid_volume1", nonzeroJson quote.bidVolume1)]

theorem shownField_eq (symbol : Symbol) (name : String) :
    backtest.shownField symbol name =
      OrdMap.get? name (quoteMembers (backtest.store.partitions.quote symbol)) := by
  change (backtest.store.partitions .quotes).getAtPath [symbol, name] =
    OrdMap.get? name (quoteMembers ((backtest.store.partitions .quotes).getAtPath [symbol]))
  rw [getAtPath_cons, getAtPath_cons]
  cases (backtest.store.partitions .quotes).get symbol with
  | none => rfl
  | some quote =>
    have mems : quoteMembers (quote.getAtPath []) = quote.entries := rfl
    rw [bind_some, bind_some, mems, getAtPath_cons, get_eq_entries]
    cases OrdMap.get? name quote.entries <;> rfl

theorem value_of_mem_bookFields {quote : ReplayStepQuote} :
    ∀ fld ∈ bookFields quote.quote.toQuote, quote.value fld.1 = fld.2 := by
  simp only [bookFields, forall_mem_cons]
  exact ⟨rfl, rfl, rfl, rfl, rfl, forall_mem_nil _⟩

/-- After every step each symbol of the step shows the last quote the simulated exchange was given
for it, with older values where that has none, except for the hidden fields; and where none is
hidden, and only there, leaving out the unchanged fields makes no difference. -/
theorem next_shows {arith : F64Arith} {backtest after : StrategyBacktest} {hidden : HiddenFields}
    {batch : ReplayStepBatch}
    {universeAt : Int → Except BacktestError (List ReplayUniverseBatch)}
    (reached : Reached arith backtest hidden)
    (stepped : backtest.next arith universeAt = (after, .ok (some batch))) :
    ∀ event ∈ backtest.stepEvents, ∃ given,
      Table.get? event.symbol batch.latestQuotes = some given ∧
        backtest.MatchesAgainst after backtest.stepEvents event.symbol given.quote.toQuote ∧
        (∀ field ∈ bookFields given.quote.toQuote,
          (after.shownField event.symbol field.1 = field.2.or
            ((lastWrite field.1 (quoteWrites event.symbol batch.marketMutations)).or
              (backtest.shownField event.symbol field.1)) ↔
            ¬ backtest.hiddenAfter batch hidden event.symbol field.1)) ∧
        (after.shownQuote event.symbol = (backtest.withAllFields batch).shownQuote event.symbol ↔
          ∀ name, ¬ backtest.hiddenAfter batch hidden event.symbol name) := by
  have shown := reached.shown
  have step := next_stepped stepped
  intro event mem
  obtain ⟨quote, hit⟩ := ne_none_iff_exists'.mp (step.present event mem)
  refine ⟨quote, hit, step.given _ _ hit, fun field fMem => ?_, shown.withAllFields_iff step hit⟩
  rw [shownField_eq, shownField_eq, ← shown.get?_next_iff step hit,
    value_of_mem_bookFields field fMem]

/-! A symbol whose offer disappears, one whose quote event is taken back by a tick of the same time,
and one that a main-continuous contract is executed in. -/

def exactArith : F64Arith where
  add
    | .finite left, .finite right => .finite (left + right)
    | _, _ => .nan
  sub
    | .finite left, .finite right => .finite (left - right)
    | _, _ => .nan

def tickAt (time : Int) (lastPrice : ℚ) (askPrice : F64) (askVolume : Int) :
    ReplayMarketEvent where
  symbol := "SHFE.cu2501"
  eventTimeNs := time
  underlyingSymbol := none
  payload := .tick
    { id := time, datetime := time, lastPrice := .finite lastPrice, average := .nan,
      highest := .nan, lowest := .nan, askPrice1 := askPrice, askVolume1 := askVolume,
      bidPrice1 := .finite 99, bidVolume1 := 3, volume := 7, amount := .nan, openInterest := 0 }

def quoteAt (symbol : Symbol) (underlyingSymbol : Option Symbol) (time : Int) (lastPrice : ℚ) :
    ReplayMarketEvent where
  symbol := symbol
  eventTimeNs := time
  underlyingSymbol := underlyingSymbol
  payload := .quote { ReplayQuote.default with lastPrice := .finite lastPrice }

def startedBacktest (events : List ReplayMarketEvent) : StrategyBacktest where
  replay := events.map .ok
  pendingEvent := none
  store := .new 0
  sim := { accountId := "TQSIM", initBalance := 1000, balance := 1000 }
  klines := []
  priceTicks := []
  quoteMetadataPriceTicks := []
  lastReplayQuotes := []
  tickSubscriptions := []
  defaultPriceTick := none

def offerGone : StrategyBacktest :=
  startedBacktest [tickAt 1 100 (.finite 101) 5, tickAt 2 100 .nan 0]

def priceTakenBack : StrategyBacktest :=
  startedBacktest [tickAt 1 100 (.finite 101) 5, quoteAt "SHFE.cu2501" none 2 102,
    tickAt 2 100 (.finite 101) 5, tickAt 3 103 (.finite 104) 5]

def executedIn : StrategyBacktest :=
  startedBacktest [tickAt 1 100 (.finite 101) 5, quoteAt "KQ.m@SHFE.cu" (some "SHFE.cu2501") 1 105]

def nextOf : StrategyBacktest :=
  (backtest.next exactArith fun _ => .ok []).1

/-- The state shows every field as the simulated exchange was given it. -/
def ShowsGiven (backtest after : StrategyBacktest) : Prop :=
  ∀ event ∈ backtest.stepEvents, ∃ given,
    OrdMap.get? event.symbol after.sim.quotes = some given ∧
      ∀ field ∈ bookFields given, after.shownField event.symbol field.1 = field.2

/-- The batch of the next step, if it runs. -/
def stepBatch? : Option ReplayStepBatch :=
  match (backtest.next exactArith fun _ => .ok []).2 with
  | .ok batch => batch
  | .error _ => none

def stepBatch (backtest : StrategyBacktest) : ReplayStepBatch := backtest.stepBatch?.getD {}

theorem next_of_steps {backtest : StrategyBacktest} (steps : backtest.stepBatch?.isSome = true) :
    backtest.next exactArith (fun _ => .ok []) =
      (nextOf backtest, .ok (some backtest.stepBatch)) := by
  obtain ⟨batch, hit⟩ := isSome_iff_exists.mp steps
  have same : backtest.stepBatch = batch := by
    rw [stepBatch, hit]
    rfl
  refine Prod.ext rfl ?_
  rw [same, ← hit]
  unfold stepBatch? at steps ⊢
  split at steps
  · rename_i done
    exact done
  · cases steps

/-- A backtest has reached the state after its first step. -/
theorem reached_nextOf {evs : List ReplayMarketEvent}
    (steps : (startedBacktest evs).stepBatch?.isSome = true) :
    Reached exactArith (nextOf (startedBacktest evs))
      ((startedBacktest evs).hiddenAfter (startedBacktest evs).stepBatch fun _ _ => false) :=
  .next (.start rfl rfl) (next_of_steps steps)

theorem not_showsGiven {backtest after : StrategyBacktest} {ev : ReplayMarketEvent}
    (mem : ev ∈ backtest.stepEvents) (ne : (OrdMap.get? ev.symbol after.sim.quotes).map
        (fun got => (bookFields got).all fun fld =>
          after.shownField ev.symbol fld.1 == fld.2) ≠ some true) :
    ¬ ShowsGiven backtest after := by
  intro shows
  obtain ⟨got, hit, flds⟩ := shows ev mem
  rw [hit] at ne
  apply ne
  rw [map_some, some.injEq, List.all_eq_true]
  exact fun fld fMem => beq_iff_eq.mpr (flds fld fMem)

/-- What the second step leaves hidden. -/
def takenBackHidden : HiddenFields :=
  (nextOf priceTakenBack).hiddenAfter (nextOf priceTakenBack).stepBatch
    (priceTakenBack.hiddenAfter priceTakenBack.stepBatch fun _ _ => false)

theorem reached_takenBack :
    Reached exactArith (nextOf (nextOf priceTakenBack)) takenBackHidden :=
  .next (reached_nextOf (by decide +kernel)) (next_of_steps (by decide +kernel))

/-- The price that was taken back is hidden after the second step, and the bid volume is not; the
third step changes the price, and it is shown again. -/
theorem next_shows_priceTakenBack :
    takenBackHidden "SHFE.cu2501" "last_price" = true ∧
      takenBackHidden "SHFE.cu2501" "bid_volume1" = false ∧
      ∃ given, Table.get? "SHFE.cu2501"
          (nextOf (nextOf priceTakenBack)).stepBatch.latestQuotes = some given ∧
        (nextOf (nextOf (nextOf priceTakenBack))).shownField "SHFE.cu2501" "last_price" =
          given.quote.lastPrice.toJson.or
            ((lastWrite "last_price" (quoteWrites "SHFE.cu2501"
              (nextOf (nextOf priceTakenBack)).stepBatch.marketMutations)).or
                ((nextOf (nextOf priceTakenBack)).shownField "SHFE.cu2501" "last_price")) := by
  have symbols : (nextOf (nextOf priceTakenBack)).stepEvents.map (·.symbol) = ["SHFE.cu2501"] := by
    decide +kernel
  have here : "SHFE.cu2501" ∈ (nextOf (nextOf priceTakenBack)).stepEvents.map (·.symbol) := by
    rw [symbols]
    exact mem_singleton_self _
  obtain ⟨event, mem, same⟩ := mem_map.mp here
  obtain ⟨given, hit, -, fields, -⟩ :=
    next_shows reached_takenBack (next_of_steps (by decide +kernel)) event mem
  rw [same] at hit fields
  have plain : ¬ (nextOf (nextOf priceTakenBack)).hiddenAfter
      (nextOf (nextOf priceTakenBack)).stepBatch takenBackHidden "SHFE.cu2501" "last_price" := by
    decide +kernel
  have shown := (fields ("last_price", given.quote.lastPrice.toJson) mem_cons_self).mpr plain
  exact ⟨by decide +kernel, by decide +kernel, given, hit, shown⟩

/-- The offer that is gone is still shown; the price that was taken back is shown, and is not
when all fields are published; and the exchange matches a contract against the quote of the
main-continuous one that is executed in it. -/
theorem not_showsGiven_runs :
    (Reached exactArith (nextOf offerGone)
        (offerGone.hiddenAfter offerGone.stepBatch fun _ _ => false) ∧
      (nextOf offerGone).next exactArith (fun _ => .ok []) =
        (nextOf (nextOf offerGone), .ok (some (nextOf offerGone).stepBatch)) ∧
      ¬ ShowsGiven (nextOf offerGone) (nextOf (nextOf offerGone))) ∧
    (Reached exactArith (nextOf priceTakenBack)
        (priceTakenBack.hiddenAfter priceTakenBack.stepBatch fun _ _ => false) ∧
      (nextOf priceTakenBack).next exactArith (fun _ => .ok []) =
        (nextOf (nextOf priceTakenBack), .ok (some (nextOf priceTakenBack).stepBatch)) ∧
      ¬ ShowsGiven (nextOf priceTakenBack) (nextOf (nextOf priceTakenBack)) ∧
      (nextOf (nextOf priceTakenBack)).shownQuote "SHFE.cu2501" ≠
        ((nextOf priceTakenBack).withAllFields
          (nextOf priceTakenBack).stepBatch).shownQuote "SHFE.cu2501") ∧
    executedIn.next exactArith (fun _ => .ok []) =
        (nextOf executedIn, .ok (some executedIn.stepBatch)) ∧
      ¬ ShowsGiven executedIn (nextOf executedIn) := by
  refine ⟨⟨reached_nextOf (by decide +kernel), next_of_steps (by decide +kernel),
      @not_showsGiven _ _ (tickAt 2 100 .nan 0) ?_ (by decide +kernel)⟩,
    ⟨reached_nextOf (by decide +kernel), next_of_steps (by decide +kernel),
      @not_showsGiven _ _ (quoteAt "SHFE.cu2501" none 2 102) ?_ (by decide +kernel),
      by decide +kernel⟩,
    next_of_steps (by decide +kernel),
    @not_showsGiven _ _ (tickAt 1 100 (.finite 101) 5) ?_ (by decide +kernel)⟩
  · exact mem_singleton_self _
  · exact mem_cons_self
  · exact mem_cons_self

end StrategyBacktest

end Tqsdk
