import Tqsdk.Lib.Int64
import Tqsdk.Runtime.OrderLifecycle
import Tqsdk.Session.MarketLeases

/-!
# Market handles of the wait facade

`quote`, `quotes`, `trading_status`, `kline`, `kline_multi` and `tick` of a `TqApi` without a
backtest, over the interest registry of its session.  The facade remembers what it has subscribed
in sets of its own.  Symbols enter theirs before the call that may fail, so a symbol whose first
call failed is never subscribed again; chart ids enter theirs after it, but an id blots out
characters of its symbols and two requests may share one.
-/

namespace Tqsdk

open List OrdMap

/-! ## The session -/

/-- The interest registry and the market commands that the session has submitted. -/
structure InterestSession where
  interests : MarketInterestRegistry := {}
  submitted : List MarketCommand := []

/-- What a submission of the session answers. -/
abbrev Submission := Except SessionFacadeError Unit

namespace InterestSession

/-- `ensure_quotes` and `ensure_trading_status`. -/
def ensureSymbols (interest : SymbolInterest) (session : InterestSession)
    (submission : Submission) (symbols : List Symbol) : InterestSession × Submission :=
  if symbols.isEmpty then
    (session, .error (.invalidState "market interest requires at least one symbol"))
  else
    let acquired := acquireSymbols (session.interests.counts interest) symbols
    let registered (counts : SymbolCounts) := session.interests.setCounts counts interest
    if acquired.2.isEmpty then (⟨registered acquired.1, session.submitted⟩, .ok ())
    else
      match submission with
      | .ok () =>
        (⟨registered acquired.1, session.submitted ++ [interest.subscribe acquired.2]⟩, .ok ())
      | .error error =>
        (⟨registered (releaseSymbols acquired.1 symbols).1, session.submitted⟩, .error error)

def ensureChart (session : InterestSession) (submission : Submission)
    (command : MarketChartCommand) : InterestSession × Submission :=
  match session.interests.acquireChart command with
  | .error error => (session, .error error)
  | .ok (interests, false) => (⟨interests, session.submitted⟩, .ok ())
  | .ok (interests, true) =>
    match submission with
    | .ok () => (⟨interests, session.submitted ++ [.setChart command]⟩, .ok ())
    | .error error =>
      (⟨(interests.releaseChart command.chartId).1, session.submitted⟩, .error error)

/-! ### What is registered has been submitted -/

variable {session : InterestSession}

def count (session : InterestSession) (interest : SymbolInterest) (symbol : Symbol) : Nat :=
  (get? symbol (session.interests.counts interest)).getD 0

def Subscribes (session : InterestSession) (interest : SymbolInterest) (symbol : Symbol) : Prop :=
  ∃ symbols, interest.subscribe symbols ∈ session.submitted ∧ symbol ∈ symbols

/-- The registry holds the symbol, and a command that subscribes it was submitted. -/
def HoldsSymbol (session : InterestSession) (interest : SymbolInterest) (symbol : Symbol) : Prop :=
  0 < session.count interest symbol ∧ session.Subscribes interest symbol

/-- The registry has the chart, and the command that sets it was submitted. -/
def HoldsChart (session : InterestSession) (command : MarketChartCommand) : Prop :=
  (∃ refs, get? command.chartId session.interests.charts = some ⟨command, refs⟩) ∧
    .setChart command ∈ session.submitted

structure Accounted (session : InterestSession) : Prop where
  counted : ∀ interest, Counts (session.interests.counts interest) (session.count interest)
  symbols : ∀ interest symbol, 0 < session.count interest symbol →
    session.Subscribes interest symbol
  charts : ∀ chartId stored, get? chartId session.interests.charts = some stored →
    .setChart stored.command ∈ session.submitted

theorem accounted_empty : Accounted {} where
  counted interest symbol := by cases interest <;> rfl
  symbols interest symbol held := by cases interest <;> exact absurd held (Nat.lt_irrefl 0)
  charts _ _ found := by cases found

/-- Nothing that was held is let go. -/
structure Extends (session next : InterestSession) : Prop where
  symbols : ∀ interest symbol, session.HoldsSymbol interest symbol →
    next.HoldsSymbol interest symbol
  charts : ∀ command, session.HoldsChart command → next.HoldsChart command

theorem Extends.refl (session : InterestSession) : session.Extends session :=
  ⟨fun _ _ held => held, fun _ held => held⟩

section

variable (accounted : session.Accounted)

include accounted

theorem Accounted.of_counts (next : InterestSession) {want : SymbolInterest}
    {cts : SymbolCounts} {held : Symbol → Nat} (counts_eq : ∀ alt, next.interests.counts alt =
      if alt = want then cts else session.interests.counts alt)
    (charts_eq : next.interests.charts = session.interests.charts)
    (sent : session.submitted ⊆ next.submitted) (cnt : Counts cts held)
    (more : ∀ sym, session.count want sym ≤ held sym)
    (subscribes : ∀ sym, 0 < held sym → next.Subscribes want sym) :
    next.Accounted ∧ session.Extends next ∧ ∀ sym, 0 < held sym → next.HoldsSymbol want sym := by
  have count_eq (alt : SymbolInterest) (sym : Symbol) : next.count alt sym =
      if alt = want then held sym else session.count alt sym := by
    rw [count, counts_eq]
    split
    · exact cnt.getD sym
    · rfl
  have kept : next.Accounted := by
    refine ⟨fun alt => ?_, fun alt sym pos => ?_, fun ch got hit => ?_⟩
    · rw [funext (count_eq alt), counts_eq]
      split
      · exact cnt
      · exact accounted.counted alt
    · rw [count_eq] at pos
      split at pos
      · rename_i same
        exact same ▸ subscribes sym pos
      · obtain ⟨syms, old, mem⟩ := accounted.symbols alt sym pos
        exact ⟨syms, sent old, mem⟩
    · rw [charts_eq] at hit
      exact sent (accounted.charts ch got hit)
  have hld (alt : SymbolInterest) (sym : Symbol)
      (pos : 0 < if alt = want then held sym else session.count alt sym) :
      next.HoldsSymbol alt sym := by
    rw [← count_eq] at pos
    exact ⟨pos, kept.symbols alt sym pos⟩
  refine ⟨kept, ⟨fun alt sym old => hld alt sym ?_, fun cmd old => ?_⟩,
    fun sym pos => hld want sym (by rwa [if_pos rfl])⟩
  · split
    · rename_i same
      subst same
      exact Nat.lt_of_lt_of_le old.1 (more sym)
    · exact old.1
  · obtain ⟨⟨refs, got⟩, old⟩ := old
    exact ⟨⟨refs, by rwa [charts_eq]⟩, sent old⟩

theorem Accounted.of_charts (next : InterestSession) (chts : List (String × ChartInterest))
    (wants : next.interests = { session.interests with charts := chts })
    (sent : session.submitted ⊆ next.submitted)
    (kept : ∀ ch got, get? ch session.interests.charts = some got →
      ∃ refs, get? ch chts = some ⟨got.command, refs⟩)
    (sets : ∀ ch got, get? ch chts = some got → .setChart got.command ∈ next.submitted) :
    next.Accounted ∧ session.Extends next := by
  have charts_eq : next.interests.charts = chts := by rw [wants]
  have counts_eq (want : SymbolInterest) :
      next.interests.counts want = session.interests.counts want := by
    rw [wants]
    cases want <;> rfl
  have count_eq : next.count = session.count := by
    funext want sym
    rw [count, counts_eq, count]
  rw [← charts_eq] at kept sets
  have subd (want : SymbolInterest) (sym : Symbol)
      (old : session.Subscribes want sym) : next.Subscribes want sym := by
    obtain ⟨syms, old, mem⟩ := old
    exact ⟨syms, sent old, mem⟩
  refine ⟨⟨fun want => ?_, fun want sym pos => ?_, sets⟩,
    fun want sym old => ⟨?_, subd want sym old.2⟩, fun cmd old => ?_⟩
  · rw [counts_eq, count_eq]
    exact accounted.counted want
  · rw [count_eq] at pos
    exact subd want sym (accounted.symbols want sym pos)
  · rw [count_eq]
    exact old.1
  · obtain ⟨⟨refs, got⟩, old⟩ := old
    exact ⟨kept _ _ got, sent old⟩

theorem Accounted.ensureSymbols (want : SymbolInterest) (submission : Submission)
    (syms : List Symbol) :
    (ensureSymbols want session submission syms).1.Accounted ∧
      session.Extends (ensureSymbols want session submission syms).1 ∧
      ((ensureSymbols want session submission syms).2 = .ok () → ∀ sym ∈ syms,
        (ensureSymbols want session submission syms).1.HoldsSymbol want sym) := by
  obtain ⟨cnt, chg⟩ := (accounted.counted want).acquire syms
  have more (sym : Symbol) := Nat.le_add_right (session.count want sym) (syms.count sym)
  have pos {sym : Symbol} (mem : sym ∈ syms) :
      0 < session.count want sym + syms.count sym :=
    Nat.add_pos_right _ (count_pos_iff.mpr mem)
  have seen {sym : Symbol} (held : 0 < session.count want sym + syms.count sym) :
      0 < session.count want sym ∨
        sym ∈ (acquireSymbols (session.interests.counts want) syms).2 := by
    rw [chg]
    rcases Nat.eq_zero_or_pos (session.count want sym) with zero | old
    · rw [zero, Nat.zero_add] at held
      exact .inr ⟨zero, count_pos_iff.mp held⟩
    · exact .inl old
  unfold InterestSession.ensureSymbols
  split
  · exact ⟨accounted, .refl _, nofun⟩
  · dsimp only
    split
    · rename_i nothing
      refine (accounted.of_counts ⟨_, _⟩ (MarketInterestRegistry.counts_setCounts _ _ want)
        (MarketInterestRegistry.charts_setCounts _ _ _) (List.Subset.refl _) cnt more
        fun sym held => ?_).imp_right (And.imp_right fun hld _ sym mem => hld sym (pos mem))
      rcases seen held with old | fresh
      · exact accounted.symbols want sym old
      · rw [isEmpty_iff.mp nothing] at fresh
        cases fresh
    · cases submission with
      | ok =>
        refine (accounted.of_counts ⟨_, _⟩ (MarketInterestRegistry.counts_setCounts _ _ want)
          (MarketInterestRegistry.charts_setCounts _ _ _) (subset_append_left _ _) cnt
          more fun sym held => ?_).imp_right (And.imp_right fun hld _ sym mem => hld sym (pos mem))
        rcases seen held with old | fresh
        · obtain ⟨syms, old, mem⟩ := accounted.symbols want sym old
          exact ⟨syms, mem_append_left _ old, mem⟩
        · exact ⟨_, mem_append_right _ mem_cons_self, fresh⟩
      | error error =>
        have released := (cnt.release fun sym => Nat.le_add_left _ _).1.congr
          fun sym => Nat.add_sub_cancel _ _
        exact (accounted.of_counts ⟨_, _⟩ (MarketInterestRegistry.counts_setCounts _ _ want)
          (MarketInterestRegistry.charts_setCounts _ _ _) (List.Subset.refl _) released
          (fun _ => Nat.le_refl _) (accounted.symbols want)).imp_right
            (And.imp_right fun _ => nofun)

theorem Accounted.ensureChart (submission : Submission) (cmd : MarketChartCommand) :
    (session.ensureChart submission cmd).1.Accounted ∧
      session.Extends (session.ensureChart submission cmd).1 ∧
      ((session.ensureChart submission cmd).2 = .ok () →
        (session.ensureChart submission cmd).1.HoldsChart cmd) := by
  unfold InterestSession.ensureChart MarketInterestRegistry.acquireChart
  cases hit : get? cmd.chartId session.interests.charts with
  | some existing =>
    by_cases same : existing.command = cmd
    · subst same
      dsimp only
      rw [if_neg (not_not_intro rfl)]
      dsimp only
      refine (accounted.of_charts ⟨_, _⟩ (OrdMap.insert existing.command.chartId
        ⟨existing.command, existing.refs + 1⟩ session.interests.charts) rfl (List.Subset.refl _)
        (fun ch got old => ?_) fun ch got new => ?_).imp_right fun grown =>
          ⟨grown, fun _ => ⟨⟨_, get?_insert_self _ _ _⟩, accounted.charts _ _ hit⟩⟩
      · rw [get?_insert]
        split
        · rename_i here
          subst here
          cases hit.symm.trans old
          exact ⟨_, rfl⟩
        · exact ⟨got.refs, old⟩
      · rw [get?_insert] at new
        split at new
        · cases new
          exact (accounted.charts _ _ hit :)
        · exact accounted.charts ch got new
    · dsimp only
      rw [if_pos same]
      exact ⟨accounted, .refl _, fun done => by cases done⟩
  | none =>
    have alt {ch : String} {got : ChartInterest}
        (old : get? ch session.interests.charts = some got) :
        ch ≠ cmd.chartId := by
      rintro rfl
      cases hit.symm.trans old
    dsimp only
    cases submission with
    | ok =>
      dsimp only
      refine (accounted.of_charts ⟨_, _⟩ _ rfl (subset_append_left _ _)
        (fun ch got old => ⟨got.refs, ?_⟩) fun ch got new => ?_).imp_right
          fun grown => ⟨grown, fun _ => ⟨⟨_, get?_insert_self _ _ _⟩,
            mem_append_right _ mem_cons_self⟩⟩
      · exact (get?_insert_ne (alt old) _ _).trans old
      · rw [get?_insert] at new
        split at new
        · cases new
          exact mem_append_right _ mem_cons_self
        · exact mem_append_left _ (accounted.charts ch got new)
    | error error =>
      dsimp only
      rw [MarketInterestRegistry.releaseChart, get?_insert_self]
      refine (accounted.of_charts ⟨_, _⟩ (OrdMap.erase cmd.chartId
        (OrdMap.insert cmd.chartId ⟨cmd, 1⟩ session.interests.charts)) rfl
        (List.Subset.refl _)
        (fun ch got old => ⟨got.refs, ?_⟩) fun ch got new => ?_).imp_right
          fun grown => ⟨grown, fun done => by cases done⟩
      · exact (get?_erase_ne (alt old) _).trans ((get?_insert_ne (alt old) _ _).trans old)
      · rw [get?_erase, get?_insert] at new
        split at new
        · cases new
        · exact accounted.charts ch got new

end

end InterestSession

/-! ## Serial requests -/

inductive WaitFacadeError
  | invalidState (message : String)
  | session (error : SessionFacadeError)

inductive SerialKind
  | kline
  | klineMulti
  | tick
  deriving DecidableEq

/-- The validated arguments of a serial call. -/
structure SerialRequest where
  kind : SerialKind
  symbols : List String
  durationNs : Int
  dataLength : Nat
  deriving DecidableEq

def maxSerialDataLength : Nat := 10000

namespace SerialRequest

def sanitizeChartToken (raw : String) : String :=
  raw.map fun ch => if ch.isAlphanum then ch else '_'

def chartId (request : SerialRequest) : String :=
  let tokens := "_".intercalate (request.symbols.map sanitizeChartToken)
  match request.kind with
  | .kline =>
    "wait-kline-" ++ tokens ++ "-" ++ toString request.durationNs ++ "-" ++
      toString request.dataLength
  | .klineMulti =>
    "wait-kline-multi-" ++ tokens ++ "-" ++ toString request.durationNs ++ "-" ++
      toString request.dataLength
  | .tick => "wait-tick-" ++ tokens ++ "-" ++ toString request.dataLength

def viewWidth (request : SerialRequest) : Nat :=
  match request.kind with
  | .klineMulti =>
    if request.symbols.length = 1 then request.dataLength else maxSerialDataLength
  | .kline | .tick => request.dataLength

def command (request : SerialRequest) : MarketChartCommand where
  chartId := request.chartId
  symbols := request.symbols
  durationNs := request.durationNs
  viewWidth := request.viewWidth

end SerialRequest

def validateSingleSerialSymbol (symbol message : String) : Except WaitFacadeError Unit :=
  if symbol.toList.contains ',' then .error (.invalidState message)
  else if (OrderLifecycle.trim symbol.toList).isEmpty then
    .error (.invalidState "serial symbol must not be empty")
  else .ok ()

def normalizeSerialDataLength (dataLength : Nat) : Except WaitFacadeError Nat :=
  if dataLength = 0 then
    .error (.invalidState "serial data_length must be greater than zero")
  else .ok (min dataLength maxSerialDataLength)

/-- `duration_to_ns` of a duration in nanoseconds. -/
def durationToNs (duration : Nat) : Except WaitFacadeError Int :=
  if duration = 0 then .error (.invalidState "kline duration must be positive")
  else
    let ns := (I64.checked ↑(duration / 1000000000)).bind fun secs =>
      (I64.checked (secs * 1000000000)).bind fun ns =>
        I64.checked (ns + ↑(duration % 1000000000))
    match ns with
    | some ns => .ok ns
    | none => .error (.invalidState "kline duration is too large")

/-- The loop of `normalize_multi_kline_symbols`. -/
def normalizeMultiKlineSymbolsFrom (normalized : List String) :
    List String → Except WaitFacadeError (List String)
  | [] =>
    if normalized.isEmpty then
      .error (.invalidState "kline_multi requires at least one symbol")
    else .ok normalized
  | raw :: symbols =>
    let symbol := String.ofList (OrderLifecycle.trim raw.toList)
    if symbol.isEmpty then
      .error (.invalidState "kline_multi requires non-empty symbols")
    else if symbol.toList.contains ',' then
      .error (.invalidState "kline_multi expects separate symbols, not comma-joined items")
    else if normalized.contains symbol then
      .error (.invalidState "kline_multi symbols must be unique")
    else normalizeMultiKlineSymbolsFrom (normalized ++ [symbol]) symbols

def klineRequest (symbol : String) (duration dataLength : Nat) :
    Except WaitFacadeError SerialRequest := do
  validateSingleSerialSymbol symbol
    "kline accepts one symbol; use kline_multi for multi-contract kline serials"
  let dataLength ← normalizeSerialDataLength dataLength
  let durationNs ← durationToNs duration
  return ⟨.kline, [symbol], durationNs, dataLength⟩

def klineMultiRequest (symbols : List String) (duration dataLength : Nat) :
    Except WaitFacadeError SerialRequest := do
  let symbols ← normalizeMultiKlineSymbolsFrom [] symbols
  let dataLength ← normalizeSerialDataLength dataLength
  let durationNs ← durationToNs duration
  return ⟨.klineMulti, symbols, durationNs, dataLength⟩

def tickRequest (symbol : String) (dataLength : Nat) : Except WaitFacadeError SerialRequest := do
  validateSingleSerialSymbol symbol
    "tick serials accept one symbol; multi-contract tick serials are not supported"
  let dataLength ← normalizeSerialDataLength dataLength
  return ⟨.tick, [symbol], 0, dataLength⟩

/-! ## The facade -/

/-- The session and the sets of what the facade takes for subscribed. -/
structure WaitFacade where
  session : InterestSession := {}
  quoteSubscriptions : List String := []
  tradingStatusSubscriptions : List String := []
  serialCharts : List String := []

/-- A returned handle, by what it reads. -/
inductive MarketHandle
  | symbols (interest : SymbolInterest) (symbols : List String)
  | serial (request : SerialRequest)

inductive MarketCall
  | quote (symbol : String)
  | quotes (symbols : List String)
  | tradingStatus (symbol : String)
  | kline (symbol : String) (duration dataLength : Nat)
  | klineMulti (symbols : List String) (duration dataLength : Nat)
  | tick (symbol : String) (dataLength : Nat)

abbrev CallAnswer := Except WaitFacadeError MarketHandle

/-- Each symbol put into the set; with the set, the symbols that were not in it. -/
def insertAll : List String → List String → List String × List String
  | held, [] => (held, [])
  | held, symbol :: symbols =>
    if held.contains symbol then insertAll held symbols
    else
      let (held, fresh) := insertAll (symbol :: held) symbols
      (held, symbol :: fresh)

namespace WaitFacade

def subscriptions (facade : WaitFacade) : SymbolInterest → List String
  | .quotes => facade.quoteSubscriptions
  | .tradingStatus => facade.tradingStatusSubscriptions

def setSubscriptions (facade : WaitFacade) (symbols : List String) : SymbolInterest → WaitFacade
  | .quotes => { facade with quoteSubscriptions := symbols }
  | .tradingStatus => { facade with tradingStatusSubscriptions := symbols }

def subscribe (interest : SymbolInterest) (facade : WaitFacade) (submission : Submission)
    (symbols : List String) : WaitFacade × CallAnswer :=
  let inserted := insertAll (facade.subscriptions interest) symbols
  let facade := facade.setSubscriptions inserted.1 interest
  if inserted.2.isEmpty then (facade, .ok (.symbols interest symbols))
  else
    match InterestSession.ensureSymbols interest facade.session submission inserted.2 with
    | (session, .ok ()) => ({ facade with session := session }, .ok (.symbols interest symbols))
    | (session, .error error) => ({ facade with session := session }, .error (.session error))

def quote (facade : WaitFacade) (submission : Submission) (symbol : String) :
    WaitFacade × CallAnswer :=
  facade.subscribe .quotes submission [symbol]

def quotes := subscribe .quotes

def tradingStatus (facade : WaitFacade) (submission : Submission) (symbol : String) :
    WaitFacade × CallAnswer :=
  facade.subscribe .tradingStatus submission [symbol]

def serial (facade : WaitFacade) (submission : Submission) (request : SerialRequest) :
    WaitFacade × CallAnswer :=
  if facade.serialCharts.contains request.chartId then (facade, .ok (.serial request))
  else
    match facade.session.ensureChart submission request.command with
    | (session, .ok ()) =>
      ({ facade with
        session := session
        serialCharts := request.chartId :: facade.serialCharts }, .ok (.serial request))
    | (session, .error error) => ({ facade with session := session }, .error (.session error))

/-- A serial call whose arguments may be refused. -/
def validated (facade : WaitFacade) (submission : Submission) :
    Except WaitFacadeError SerialRequest → WaitFacade × CallAnswer
  | .ok request => facade.serial submission request
  | .error error => (facade, .error error)

def kline (facade : WaitFacade) (submission : Submission) (symbol : String)
    (duration dataLength : Nat) : WaitFacade × CallAnswer :=
  facade.validated submission (klineRequest symbol duration dataLength)

def klineMulti (facade : WaitFacade) (submission : Submission) (symbols : List String)
    (duration dataLength : Nat) : WaitFacade × CallAnswer :=
  facade.validated submission (klineMultiRequest symbols duration dataLength)

def tick (facade : WaitFacade) (submission : Submission) (symbol : String) (dataLength : Nat) :
    WaitFacade × CallAnswer :=
  facade.validated submission (tickRequest symbol dataLength)

def call (facade : WaitFacade) (submission : Submission) :
    MarketCall → WaitFacade × CallAnswer
  | .quote symbol => facade.quote submission symbol
  | .quotes symbols => facade.quotes submission symbols
  | .tradingStatus symbol => facade.tradingStatus submission symbol
  | .kline symbol duration dataLength => facade.kline submission symbol duration dataLength
  | .klineMulti symbols duration dataLength =>
    facade.klineMulti submission symbols duration dataLength
  | .tick symbol dataLength => facade.tick submission symbol dataLength

end WaitFacade

/-! ## Runs -/

/-- The calls so far with their answers. -/
abbrev CallHistory := List (MarketCall × CallAnswer)

structure WaitRun where
  facade : WaitFacade
  history : CallHistory := []

def WaitRun.step (run : WaitRun) (submission : Submission) (call : MarketCall) : WaitRun :=
  ⟨(run.facade.call submission call).1,
    run.history ++ [(call, (run.facade.call submission call).2)]⟩

/-- The registry holds every symbol of the handle, or the chart that its id names. -/
def MarketHandle.SubscribedIn (session : InterestSession) : MarketHandle → Prop
  | .symbols interest listed => ∀ symbol ∈ listed, session.HoldsSymbol interest symbol
  | .serial request => ∃ command : MarketChartCommand, command.chartId = request.chartId ∧
      command.symbols = request.symbols ∧ command.durationNs = request.durationNs ∧
        session.HoldsChart command

namespace MarketCall

def request : MarketCall → Option (Except WaitFacadeError SerialRequest)
  | .quote _ | .quotes _ | .tradingStatus _ => none
  | .kline symbol duration dataLength => some (klineRequest symbol duration dataLength)
  | .klineMulti symbols duration dataLength => some (klineMultiRequest symbols duration dataLength)
  | .tick symbol dataLength => some (tickRequest symbol dataLength)

def symbols : MarketCall → SymbolInterest → List String
  | .quote symbol, .quotes => [symbol]
  | .quotes symbols, .quotes => symbols
  | .tradingStatus symbol, .tradingStatus => [symbol]
  | _, _ => []

end MarketCall

namespace CallHistory

variable (history : CallHistory)

def Returned (handle : MarketHandle) : Prop := ∃ call, (call, .ok handle) ∈ history

def Named (interest : SymbolInterest) (symbol : String) : Prop :=
  ∃ entry ∈ history, symbol ∈ entry.1.symbols interest

/-- The first call that named the symbol failed. -/
def Lost (interest : SymbolInterest) (symbol : String) : Prop :=
  ∃ earlier call error later, history = earlier ++ (call, .error error) :: later ∧
    symbol ∈ call.symbols interest ∧ ¬ Named earlier interest symbol

/-- The call names no symbol that is lost, and its chart id was given to no other request. -/
structure Meets (call : MarketCall) : Prop where
  symbols : ∀ interest, ∀ symbol ∈ call.symbols interest, ¬ history.Lost interest symbol
  charts : ∀ request other, call.request = some (.ok request) →
    history.Returned (.serial other) → other.chartId = request.chartId → other = request

end CallHistory

/-- The runs from a session whose steps all meet the condition. -/
inductive WaitRun.Reached (session : InterestSession) : WaitRun → Prop
  | start : Reached session ⟨{ session := session }, []⟩
  | step {run : WaitRun} (reached : Reached session run) (submission : Submission)
      {call : MarketCall} (meets : run.history.Meets call) :
      Reached session (run.step submission call)

/-! ## What a run keeps -/

theorem insertAll_spec (held syms : List String) (sym : String) :
    (sym ∈ (insertAll held syms).1 ↔ sym ∈ held ∨ sym ∈ syms) ∧
      (sym ∈ (insertAll held syms).2 ↔ sym ∉ held ∧ sym ∈ syms) := by
  induction syms generalizing held with
  | nil => simp [insertAll]
  | cons hd syms ih =>
    rw [insertAll]
    split
    · rename_i seen
      have mem := contains_iff_mem.mp seen
      obtain ⟨all, new⟩ := ih held
      rw [all, new]
      by_cases same : sym = hd <;> simp [same, mem]
    · rename_i miss
      have mem : hd ∉ held := fun mem => miss (contains_iff_mem.mpr mem)
      obtain ⟨all, new⟩ := ih (hd :: held)
      dsimp only
      simp only [all, mem_cons, new]
      by_cases same : sym = hd <;> simp [same, mem]

theorem MarketHandle.SubscribedIn.mono {session next : InterestSession} {hd : MarketHandle}
    (subd : hd.SubscribedIn session) (grown : session.Extends next) :
    hd.SubscribedIn next := by
  cases hd with
  | symbols want symbols => exact fun sym mem => grown.symbols _ _ (subd sym mem)
  | serial req =>
    obtain ⟨cmd, ch, symbols, dur, hld⟩ := subd
    exact ⟨cmd, ch, symbols, dur, grown.charts _ hld⟩

namespace CallHistory

variable {history : CallHistory} {call : MarketCall} {answer : CallAnswer}

theorem returned_append {hd : MarketHandle} :
    Returned (history ++ [(call, answer)]) hd ↔ Returned history hd ∨ answer = .ok hd := by
  constructor
  · rintro ⟨alt, mem⟩
    rcases mem_append.mp mem with old | new
    · exact .inl ⟨alt, old⟩
    · cases mem_singleton.mp new
      exact .inr rfl
  · rintro (⟨alt, old⟩ | rfl)
    · exact ⟨alt, mem_append_left _ old⟩
    · exact ⟨call, mem_append_right _ mem_cons_self⟩

theorem named_append {want : SymbolInterest} {sym : String} :
    Named (history ++ [(call, answer)]) want sym ↔
      Named history want sym ∨ sym ∈ call.symbols want := by
  simp [Named, or_and_right, exists_or]

theorem Lost.append {want : SymbolInterest} {sym : String} (lost : history.Lost want sym) :
    Lost (history ++ [(call, answer)]) want sym := by
  obtain ⟨pre, hd, err, post, rfl, nm, new⟩ := lost
  exact ⟨pre, hd, err, post ++ [(call, answer)], append_assoc _ _ _, nm, new⟩

end CallHistory

namespace WaitRun

structure Kept (run : WaitRun) : Prop where
  accounted : run.facade.session.Accounted
  named : ∀ interest symbol,
    symbol ∈ run.facade.subscriptions interest ↔ run.history.Named interest symbol
  held : ∀ interest symbol, run.history.Named interest symbol →
    ¬ run.history.Lost interest symbol → run.facade.session.HoldsSymbol interest symbol
  charts : ∀ chartId ∈ run.facade.serialCharts, ∃ request,
    run.history.Returned (.serial request) ∧ request.chartId = chartId
  subscribed : ∀ handle, run.history.Returned handle → handle.SubscribedIn run.facade.session
  apart : ∀ request other, run.history.Returned (.serial request) →
    run.history.Returned (.serial other) → request.chartId = other.chartId → request = other

/-- One call, by what it does to the session and the sets. -/
theorem Kept.append {run : WaitRun} (kept : run.Kept) {call : MarketCall}
    (meets : run.history.Meets call) {next : WaitFacade} {answer : CallAnswer}
    (accounted : next.session.Accounted) (grown : run.facade.session.Extends next.session)
    (named : ∀ interest symbol, symbol ∈ next.subscriptions interest ↔
      symbol ∈ run.facade.subscriptions interest ∨ symbol ∈ call.symbols interest)
    (fresh : ∀ interest, ∀ symbol ∈ call.symbols interest,
      symbol ∉ run.facade.subscriptions interest →
        (∃ error, answer = .error error) ∨ next.session.HoldsSymbol interest symbol)
    (charts : ∀ chart ∈ next.serialCharts, chart ∈ run.facade.serialCharts ∨
      ∃ req, answer = .ok (.serial req) ∧ req.chartId = chart)
    (returned : ∀ handle, answer = .ok handle → handle.SubscribedIn next.session)
    (serial : ∀ req, answer = .ok (.serial req) → call.request = some (.ok req)) :
    Kept ⟨next, run.history ++ [(call, answer)]⟩ where
  accounted := accounted
  named interest symbol := by rw [named, kept.named, CallHistory.named_append]
  held interest symbol isNamed found := by
    rcases CallHistory.named_append.mp isNamed with old | new
    · exact grown.symbols _ _ (kept.held interest symbol old fun lost => found lost.append)
    · by_cases known : run.history.Named interest symbol
      · exact grown.symbols _ _ (kept.held interest symbol known fun lost => found lost.append)
      · rcases fresh interest symbol new (mt (kept.named interest symbol).mp known) with
          ⟨error, rfl⟩ | holds
        · exact absurd ⟨run.history, call, error, [], rfl, new, known⟩ found
        · exact holds
  charts chart member := by
    rcases charts chart member with old | ⟨req, ans, same⟩
    · obtain ⟨req, returned, same⟩ := kept.charts chart old
      exact ⟨req, CallHistory.returned_append.mpr (.inl returned), same⟩
    · exact ⟨req, CallHistory.returned_append.mpr (.inr ans), same⟩
  subscribed handle isReturned := by
    rcases CallHistory.returned_append.mp isReturned with old | new
    · exact (kept.subscribed handle old).mono grown
    · exact returned handle new
  apart req other first second same := by
    rcases CallHistory.returned_append.mp first with old | new <;>
      rcases CallHistory.returned_append.mp second with old' | new'
    · exact kept.apart req other old old' same
    · exact meets.charts other req (serial other new') old same
    · exact (meets.charts req other (serial req new) old' same.symm).symm
    · cases new.symm.trans new'
      rfl

section

variable {run : WaitRun} (kept : run.Kept) {call : MarketCall} (meets : run.history.Meets call)
  (submission : Submission)

include kept meets

theorem Kept.subscribe {want : SymbolInterest} {syms : List String}
    (names : ∀ alt, call.symbols alt = if alt = want then syms else []) :
    Kept ⟨(run.facade.subscribe want submission syms).1,
      run.history ++ [(call, (run.facade.subscribe want submission syms).2)]⟩ := by
  have ins := insertAll_spec (run.facade.subscriptions want) syms
  generalize inserts : insertAll (run.facade.subscriptions want) syms = res at ins
  obtain ⟨all, fresh⟩ := res
  have asked {sym : String} (mem : sym ∈ syms) : sym ∈ call.symbols want := by
    rwa [names, if_pos rfl]
  have append {session : InterestSession} {answer : CallAnswer} (accounted : session.Accounted)
      (grown : run.facade.session.Extends session)
      (opn : ∀ sym ∈ fresh, (∃ error, answer = .error error) ∨ session.HoldsSymbol want sym)
      (answers : answer = .ok (.symbols want syms) ∨ ∃ error, answer = .error error) :
      Kept ⟨{ run.facade.setSubscriptions all want with session := session },
        run.history ++ [(call, answer)]⟩ := by
    refine kept.append meets accounted grown (fun alt sym => ?_) (fun alt sym asks new => ?_)
      (fun ch mem => .inl ?_) (fun hd ans => ?_) fun req ans => ?_
    · rw [names]
      by_cases same : alt = want
      · subst same
        rw [if_pos rfl, ← (ins sym).1]
        cases alt <;> rfl
      · rw [if_neg same]
        cases alt <;> cases want <;>
          first | exact absurd rfl same | exact (or_iff_left not_mem_nil).symm
    · rw [names] at asks
      split at asks
      · rename_i same
        subst same
        exact opn sym ((ins sym).2.mpr ⟨new, asks⟩)
      · cases asks
    · cases want <;> exact mem
    · rcases answers with rfl | ⟨error, rfl⟩
      · cases ans
        intro sym mem
        by_cases seen : sym ∈ run.facade.subscriptions want
        · exact grown.symbols _ _ (kept.held _ _ ((kept.named _ _).mp seen)
            (meets.symbols want sym (asked mem)))
        · exact (opn sym ((ins sym).2.mpr ⟨seen, mem⟩)).resolve_left nofun
      · cases ans
    · rcases answers with rfl | ⟨error, rfl⟩ <;> cases ans
  have sameSession : (run.facade.setSubscriptions all want).session = run.facade.session := by
    cases want <;> rfl
  unfold WaitFacade.subscribe
  rw [inserts]
  dsimp only
  split
  · rename_i nothing
    have step := @append _ (.ok (.symbols want syms)) kept.accounted (.refl _)
      (fun sym mem => by cases isEmpty_iff.mp nothing ▸ mem) (.inl rfl)
    rwa [← sameSession] at step
  · rw [sameSession]
    obtain ⟨accounted, grown, opn⟩ := kept.accounted.ensureSymbols want submission fresh
    generalize InterestSession.ensureSymbols want run.facade.session submission fresh = res at *
    obtain ⟨session, answer⟩ := res
    cases answer with
    | ok done =>
      cases done
      exact append accounted grown (fun sym mem => .inr (opn rfl sym mem)) (.inl rfl)
    | error error => exact append accounted grown (fun _ _ => .inl ⟨_, rfl⟩) (.inr ⟨_, rfl⟩)

variable (unnamed : ∀ interest, call.symbols interest = [])

include unnamed

theorem Kept.serial {req : SerialRequest} (asks : call.request = some (.ok req)) :
    Kept ⟨(run.facade.serial submission req).1,
      run.history ++ [(call, (run.facade.serial submission req).2)]⟩ := by
  have same (want : SymbolInterest) (sym : String) :
      sym ∈ run.facade.subscriptions want ↔
        sym ∈ run.facade.subscriptions want ∨ sym ∈ call.symbols want := by
    rw [unnamed, or_iff_left not_mem_nil]
  unfold WaitFacade.serial
  split
  · rename_i seen
    obtain ⟨alt, ret, sameId⟩ := kept.charts _ (contains_iff_mem.mp seen)
    obtain rfl := meets.charts req alt asks ret sameId
    refine kept.append meets kept.accounted (.refl _) same (fun want sym names => ?_)
      (fun _ mem => .inl mem) (fun hd ans => ?_) fun alt ans => ?_
    · cases unnamed want ▸ names
    · cases ans
      exact kept.subscribed _ ret
    · cases ans
      exact asks
  · obtain ⟨accounted, grown, opn⟩ := kept.accounted.ensureChart submission req.command
    generalize run.facade.session.ensureChart submission req.command = res at *
    obtain ⟨session, answer⟩ := res
    cases answer with
    | ok done =>
      cases done
      refine kept.append meets accounted grown same (fun want sym names => ?_)
        (fun ch mem => ?_) (fun hd ans => ?_) fun alt ans => ?_
      · cases unnamed want ▸ names
      · rcases mem_cons.mp mem with rfl | old
        · exact .inr ⟨req, rfl, rfl⟩
        · exact .inl old
      · cases ans
        exact ⟨req.command, rfl, rfl, rfl, opn rfl⟩
      · cases ans
        exact asks
    | error error =>
      exact kept.append meets accounted grown same (fun _ _ _ _ => .inl ⟨_, rfl⟩)
        (fun _ mem => .inl mem) nofun nofun

theorem Kept.validated {req : Except WaitFacadeError SerialRequest}
    (asks : call.request = some req) :
    Kept ⟨(run.facade.validated submission req).1,
      run.history ++ [(call, (run.facade.validated submission req).2)]⟩ := by
  cases req with
  | ok req => exact kept.serial meets submission unnamed asks
  | error error =>
    exact kept.append meets kept.accounted (.refl _)
      (fun want sym => by rw [unnamed, or_iff_left not_mem_nil]; exact Iff.rfl)
      (fun _ _ _ _ => .inl ⟨_, rfl⟩) (fun _ mem => .inl mem) nofun nofun

end

theorem Kept.step {run : WaitRun} (kept : run.Kept) {call : MarketCall}
    (meets : run.history.Meets call) (submission : Submission) :
    (run.step submission call).Kept := by
  cases call with
  | quote sym => exact kept.subscribe meets submission fun alt => by cases alt <;> rfl
  | quotes syms => exact kept.subscribe meets submission fun alt => by cases alt <;> rfl
  | tradingStatus sym => exact kept.subscribe meets submission fun alt => by cases alt <;> rfl
  | kline sym dur dataLength =>
    exact kept.validated meets submission (fun want => by cases want <;> rfl) rfl
  | klineMulti syms dur dataLength =>
    exact kept.validated meets submission (fun want => by cases want <;> rfl) rfl
  | tick sym dataLength =>
    exact kept.validated meets submission (fun want => by cases want <;> rfl) rfl

variable {session : InterestSession} {run : WaitRun}

theorem Reached.kept (accounted : session.Accounted) (rch : Reached session run) :
    run.Kept := by
  induction rch with
  | start =>
    refine ⟨accounted, fun want sym => ?_, ?_, ?_, ?_, ?_⟩
    · cases want <;> exact ⟨nofun, by rintro ⟨_, mem, -⟩; cases mem⟩
    · rintro want sym ⟨_, mem, -⟩
      cases mem
    · exact nofun
    · rintro hd ⟨_, mem⟩
      cases mem
    · rintro req alt ⟨_, mem⟩
      cases mem
  | step rch submission meets ih => exact ih.step meets submission

/-- In a run that names no symbol after its first call failed and gives no chart id to a second
request, every handle that was returned is subscribed, and requests that differ have charts that
differ. -/
theorem returned_subscribed (accounted : session.Accounted) (reached : Reached session run) :
    (∀ handle, run.history.Returned handle → handle.SubscribedIn run.facade.session) ∧
      ∀ request other, run.history.Returned (.serial request) →
        run.history.Returned (.serial other) → request.chartId = other.chartId →
          request = other :=
  ⟨(reached.kept accounted).subscribed, (reached.kept accounted).apart⟩

theorem meets_quote {history : CallHistory} {symbol : String}
    (answered : ∀ entry ∈ history, symbol ∈ entry.1.symbols .quotes → entry.2.isOk = true) :
    history.Meets (.quote symbol) := by
  refine ⟨fun interest name named => ?_, nofun⟩
  cases interest with
  | tradingStatus => cases named
  | quotes =>
    rintro ⟨earlier, call, error, later, rfl, failed, -⟩
    rw [mem_singleton.mp named] at failed
    cases answered _ (mem_append_right _ mem_cons_self) failed

/-- A quote whose call fails, and another one that is asked for twice. -/
theorem returned_subscribed_secondQuote :
    let failed := WaitRun.step ⟨{}, []⟩ (.error (.invalidState "closed")) (.quote "SHFE.rb2510")
    let run := (failed.step (.ok ()) (.quote "SHFE.au2512")).step (.ok ()) (.quote "SHFE.au2512")
    (MarketHandle.symbols .quotes ["SHFE.au2512"]).SubscribedIn run.facade.session := by
  intro failed run
  have first : failed.history.Meets (.quote "SHFE.au2512") := meets_quote (by decide +kernel)
  have reached : Reached {} run :=
    .step (.step (.step .start _ (meets_quote nofun)) (.ok ()) first) (.ok ())
      (meets_quote (by decide +kernel))
  exact (returned_subscribed InterestSession.accounted_empty reached).1 _
    ⟨_, mem_append_right _ (mem_singleton.mpr (by rfl))⟩

/-- A quote whose first call failed is returned without a subscription. -/
theorem returned_not_subscribed :
    ∃ run : WaitRun, run = (WaitRun.step ⟨{}, []⟩ (.error (.invalidState "closed"))
        (.quote "SHFE.rb2510")).step (.ok ()) (.quote "SHFE.rb2510") ∧
      run.history.Returned (.symbols .quotes ["SHFE.rb2510"]) ∧
      ¬ (MarketHandle.symbols .quotes ["SHFE.rb2510"]).SubscribedIn run.facade.session := by
  refine ⟨_, rfl, ⟨.quote "SHFE.rb2510", ?_⟩, fun subd => ?_⟩
  · exact mem_cons_of_mem _ mem_cons_self
  · exact absurd (subd _ mem_cons_self).1 (by decide +kernel)

end WaitRun

end Tqsdk
