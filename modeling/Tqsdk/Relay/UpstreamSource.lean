import Mathlib.Data.Finset.Basic
import Mathlib.Data.Finset.Lattice.Fold
import Tqsdk.Lib.Result
import Tqsdk.Lib.Writes
import Tqsdk.Relay.UpstreamCharts

/-!
# Reconciling the upstream source

The source records what it has sent: its quote set and its charts.  A call sends the difference
between what is wanted and what is recorded, and records the new set only when every send
succeeded.  The peer is what the requests that arrived have made of it; a send may arrive, be
lost, or arrive and still be reported as failed.

* `UpstreamLink.converged_iff`: after a call that succeeds, the peer holds exactly what is wanted
  if and only if it already held, as recorded, everything the call did not send again.
* `UpstreamLink.InStep.converged`: with no failure since the last successful call it always does.
-/

namespace Tqsdk

open List Option

/-! ## The peer -/

inductive UpstreamRequest
  | subscribeQuote (symbols : Finset String)
  | setChart (chartId insList : String) (durationNs : Int) (viewWidth : Nat)
  | peekMessage

structure PeerChart where
  insList : String
  durationNs : Int
  viewWidth : Nat
  deriving DecidableEq

structure UpstreamPeer where
  quotes : Finset String
  charts : String → Option PeerChart

namespace UpstreamPeer

def fresh : UpstreamPeer := ⟨∅, fun _ => none⟩

/-- A `set_chart` with an empty `ins_list` deletes the chart. -/
def receive (peer : UpstreamPeer) : UpstreamRequest → UpstreamPeer
  | .subscribeQuote symbols => { peer with quotes := symbols }
  | .setChart chartId insList durationNs viewWidth =>
    { peer with
      charts := fun id => if chartId = id then
        (if insList = "" then none else some ⟨insList, durationNs, viewWidth⟩)
        else peer.charts id }
  | .peekMessage => peer

end UpstreamPeer

namespace UpstreamRequest

def chartWrite : UpstreamRequest → Option (String × Option PeerChart)
  | .setChart chartId insList durationNs viewWidth =>
    some (chartId, if insList = "" then none else some ⟨insList, durationNs, viewWidth⟩)
  | _ => none

def quoteWrite : UpstreamRequest → Option (Unit × Finset String)
  | .subscribeQuote symbols => some ((), symbols)
  | _ => none

theorem overwrites_chartWrite :
    Writes.Overwrites UpstreamPeer.charts UpstreamPeer.receive chartWrite := by
  intro peer req id
  cases req with
  | setChart cht insList dur view =>
    simp only [UpstreamPeer.receive, Writes.writeAt, chartWrite]
    split <;> rfl
  | subscribeQuote syms => rfl
  | peekMessage => rfl

theorem overwrites_quoteWrite :
    Writes.Overwrites (fun peer (_ : Unit) => peer.quotes) UpstreamPeer.receive quoteWrite := by
  intro peer req id
  cases req <;> rfl

end UpstreamRequest

/-! ## Sends -/

/-- What becomes of one websocket send. -/
inductive SendOutcome
  | arrives
  | lost (err : String)
  | arrivesThenFails (err : String)

def sendFailed (err : String) : RelayError :=
  .transport ("upstream websocket send failed: " ++ err)

/-- Send in turn, up to the first failure. -/
def sendAll : List UpstreamRequest → (Nat → SendOutcome) → UpstreamPeer →
    UpstreamPeer × RelayResult Unit
  | [], _, peer => (peer, .ok ())
  | request :: rest, outcome, peer =>
    match outcome 0 with
    | .arrives => sendAll rest (fun sent => outcome (sent + 1)) (peer.receive request)
    | .lost err => (peer, .error (sendFailed err))
    | .arrivesThenFails err => (peer.receive request, .error (sendFailed err))

theorem sendAll_ok {reqs : List UpstreamRequest} {out : Nat → SendOutcome}
    {peer post : UpstreamPeer} (sent : sendAll reqs out peer = (post, .ok ())) :
    post = reqs.foldl UpstreamPeer.receive peer := by
  induction reqs generalizing out peer with
  | nil =>
    cases sent
    rfl
  | cons req reqs ih =>
    rw [sendAll] at sent
    cases hd : out 0 with
    | arrives =>
      rw [hd] at sent
      exact ih sent
    | lost err =>
      rw [hd] at sent
      cases sent
    | arrivesThenFails err =>
      rw [hd] at sent
      cases sent

/-! ## The source -/

namespace UpstreamTickChart

variable (chart : UpstreamTickChart)

def peerChart : PeerChart :=
  ⟨chart.insList, chart.durationNs, chart.viewWidth⟩

theorem Is.peerChart {chart : UpstreamTickChart} {cht sym : String} {dur : Int}
    {view : Nat} (is_chart : Is cht sym dur view chart) :
    chart.peerChart = ⟨sym, dur, view⟩ := by
  rw [UpstreamTickChart.peerChart, insList, is_chart.symbols, is_chart.durationNs,
    is_chart.viewWidth]
  rfl

def subscription : List UpstreamRequest :=
  [.setChart chart.chartId chart.insList chart.durationNs chart.viewWidth, .peekMessage]

def deletion : List UpstreamRequest :=
  [.setChart chart.chartId "" chart.durationNs chart.viewWidth, .peekMessage]

end UpstreamTickChart

/-- Charts under their ids. -/
abbrev ChartMap := List (String × UpstreamTickChart)

structure UpstreamSource where
  quoteSymbols : Finset String
  subscribedQuoteSymbols : Finset String
  tickCharts : ChartMap

namespace UpstreamSource

def connected : UpstreamSource := ⟨∅, ∅, []⟩

def conflicting (chartId : String) : RelayError :=
  .invalidConfig ("upstream tick chart_id " ++ chartId ++ " has conflicting definitions")

def addDesired (desired : ChartMap) (chart : UpstreamTickChart) : RelayResult ChartMap :=
  match OrdMap.get? chart.chartId desired with
  | some previous =>
    if previous ≠ chart then .error (conflicting chart.chartId)
    else .ok (OrdMap.insert chart.chartId chart desired)
  | none => .ok (OrdMap.insert chart.chartId chart desired)

def desiredCharts (charts : List UpstreamTickChart) : RelayResult ChartMap :=
  charts.foldlM addDesired []

def chartSymbols (charts : ChartMap) : Finset String :=
  (charts.flatMap fun entry => entry.2.symbols).toFinset

variable (source : UpstreamSource)

def staleCharts (desired : ChartMap) : List UpstreamTickChart :=
  (source.tickCharts.filter fun entry => (OrdMap.get? entry.1 desired).isNone).map Prod.snd

def changedCharts (desired : ChartMap) : List UpstreamTickChart :=
  (desired.filter fun entry =>
    decide (OrdMap.get? entry.1 source.tickCharts ≠ some entry.2)).map Prod.snd

def shouldSendQuote (desired : ChartMap) : Bool :=
  decide (source.quoteSymbols ∪ chartSymbols desired ≠ source.subscribedQuoteSymbols) ||
    !(source.changedCharts desired).isEmpty

/-- The requests of one reconciliation, in the order they are sent. -/
def requests (desired : ChartMap) : List UpstreamRequest :=
  (if source.shouldSendQuote desired then
    [.subscribeQuote (source.quoteSymbols ∪ chartSymbols desired), .peekMessage] else []) ++
  (source.staleCharts desired).flatMap UpstreamTickChart.deletion ++
  (source.changedCharts desired).flatMap UpstreamTickChart.subscription

def reconcileTickCharts (charts : List UpstreamTickChart) (outcome : Nat → SendOutcome)
    (peer : UpstreamPeer) : UpstreamSource × UpstreamPeer × RelayResult Unit :=
  match desiredCharts charts with
  | .error error => (source, peer, .error error)
  | .ok desired =>
    if !source.shouldSendQuote desired && (source.staleCharts desired).isEmpty &&
        (source.changedCharts desired).isEmpty then
      (source, peer, .ok ())
    else
      match sendAll (source.requests desired) outcome peer with
      | (after, .error error) => (source, after, .error error)
      | (after, .ok ()) =>
        ({ source with
            subscribedQuoteSymbols := source.quoteSymbols ∪ chartSymbols desired
            tickCharts := desired },
          after, .ok ())

def subscribeQuoteSymbols (symbols : List String) (outcome : Nat → SendOutcome)
    (peer : UpstreamPeer) : UpstreamSource × UpstreamPeer × RelayResult Unit :=
  if trimmedSymbols symbols = [] then
    (source, peer,
      .error (.invalidConfig "upstream quote subscriptions require at least one symbol"))
  else
    let extended := { source with
      quoteSymbols := source.quoteSymbols ∪ (trimmedSymbols symbols).toFinset }
    extended.reconcileTickCharts (extended.tickCharts.map Prod.snd) outcome peer

def subscribeTickCharts (charts : List UpstreamTickChart) (outcome : Nat → SendOutcome)
    (peer : UpstreamPeer) : UpstreamSource × UpstreamPeer × RelayResult Unit :=
  if charts = [] then
    (source, peer, .error (.invalidConfig "upstream tick charts require at least one chart"))
  else
    let desired := charts.foldl (fun desired chart =>
      OrdMap.insert chart.chartId chart desired) source.tickCharts
    source.reconcileTickCharts (desired.map Prod.snd) outcome peer

/-! ### What the requests write -/

theorem addDesired_ok {desired next : ChartMap} {chart : UpstreamTickChart}
    (ok : addDesired desired chart = .ok next) :
    next = OrdMap.insert chart.chartId chart desired ∧
      (OrdMap.get? chart.chartId desired = none ∨
        OrdMap.get? chart.chartId desired = some chart) := by
  unfold addDesired at ok
  cases got : OrdMap.get? chart.chartId desired with
  | none =>
    rw [got] at ok
    cases ok
    exact ⟨rfl, .inl rfl⟩
  | some prev =>
    rw [got] at ok
    dsimp only at ok
    split at ok
    · cases ok
    · rename_i same
      cases ok
      exact ⟨rfl, .inr (congrArg some (not_ne_iff.mp same))⟩

/-- Under its id, the map holds the charts it was made of. -/
theorem foldlM_addDesired_ok {chts : List UpstreamTickChart} {lo desired : ChartMap}
    (ok : chts.foldlM addDesired lo = .ok desired) (srt : OrdMap.Sorted lo) :
    OrdMap.Sorted desired ∧ ∀ id chart, OrdMap.get? id desired = some chart ↔
      OrdMap.get? id lo = some chart ∨ (chart ∈ chts ∧ chart.chartId = id) := by
  induction chts generalizing lo with
  | nil =>
    cases ok
    exact ⟨srt, by simp⟩
  | cons hd chts ih =>
    rw [foldlM_cons, Result.bind_eq_ok] at ok
    obtain ⟨next, plus, ok⟩ := ok
    obtain ⟨rfl, pre⟩ := addDesired_ok plus
    obtain ⟨sortedAfter, held⟩ := ih ok (srt.insert _ _)
    refine ⟨sortedAfter, fun id chart => ?_⟩
    rw [held, OrdMap.get?_insert, mem_cons]
    by_cases here : id = hd.chartId
    · subst here
      rw [if_pos rfl]
      constructor
      · rintro (same | ⟨member, nm⟩)
        · cases same
          exact .inr ⟨.inl rfl, rfl⟩
        · exact .inr ⟨.inr member, nm⟩
      · rintro (got | ⟨rfl | member, nm⟩)
        · rcases pre with none | same
          · rw [none] at got
            cases got
          · rw [same] at got
            exact .inl got
        · exact .inl rfl
        · exact .inr ⟨member, nm⟩
    · rw [if_neg here]
      constructor
      · rintro (got | ⟨member, nm⟩)
        · exact .inl got
        · exact .inr ⟨.inr member, nm⟩
      · rintro (got | ⟨rfl | member, nm⟩)
        · exact .inl got
        · exact absurd nm.symm here
        · exact .inr ⟨member, nm⟩

theorem exists_foldlM_addDesired {chts : List UpstreamTickChart} {lo : ChartMap} :
    (∃ desired, chts.foldlM addDesired lo = .ok desired) ↔
      (∀ chart ∈ chts, ∀ prev, OrdMap.get? chart.chartId lo = some prev → prev = chart) ∧
      ∀ chart ∈ chts, ∀ alt ∈ chts, chart.chartId = alt.chartId → chart = alt := by
  induction chts generalizing lo with
  | nil => exact ⟨fun _ => ⟨nofun, nofun⟩, fun _ => ⟨lo, rfl⟩⟩
  | cons hd chts ih =>
    rw [foldlM_cons]
    constructor
    · rintro ⟨desired, ok⟩
      obtain ⟨next, plus, ok⟩ := Result.of_bind ok
      obtain ⟨rfl, pre⟩ := addDesired_ok plus
      obtain ⟨agr, pairwise⟩ := ih.mp ⟨desired, ok⟩
      have first_eq : ∀ chart ∈ chts, chart.chartId = hd.chartId → hd = chart :=
        fun chart mem same => agr chart mem hd (by rw [same, OrdMap.get?_insert_self])
      refine ⟨fun chart mem prev got => ?_, fun chart mem alt member' same => ?_⟩
      · rcases mem_cons.mp mem with rfl | later
        · rcases pre with none | here
          · cases none.symm.trans got
          · exact some.inj (got.symm.trans here)
        · by_cases here : chart.chartId = hd.chartId
          · rw [here] at got
            rw [← first_eq chart later here]
            rcases pre with none | same
            · cases none.symm.trans got
            · exact some.inj (got.symm.trans same)
          · exact agr chart later prev (by rw [OrdMap.get?_insert_ne here, got])
      · rcases mem_cons.mp mem with rfl | later
        · rcases mem_cons.mp member' with rfl | later'
          · rfl
          · exact first_eq alt later' same.symm
        · rcases mem_cons.mp member' with rfl | later'
          · exact (first_eq chart later same).symm
          · exact pairwise chart later alt later' same
    · rintro ⟨agr, pairwise⟩
      have plus : addDesired lo hd =
          .ok (OrdMap.insert hd.chartId hd lo) := by
        unfold addDesired
        cases got : OrdMap.get? hd.chartId lo with
        | none => rfl
        | some prev =>
          dsimp only
          rw [if_neg (not_not_intro (agr hd mem_cons_self prev got))]
      rw [plus, Result.ok_bind]
      refine ih.mpr ⟨fun chart mem prev got => ?_, fun chart mem alt member' =>
        pairwise chart (mem_cons_of_mem _ mem) alt (mem_cons_of_mem _ member')⟩
      rw [OrdMap.get?_insert] at got
      split at got
      · rename_i here
        rw [← some.inj got]
        exact pairwise hd mem_cons_self chart (mem_cons_of_mem _ mem) here.symm
      · exact agr chart (mem_cons_of_mem _ mem) prev got

/-- Charts conflict only when two of one id differ. -/
theorem exists_desiredCharts {chts : List UpstreamTickChart} :
    (∃ desired, desiredCharts chts = .ok desired) ↔
      ∀ chart ∈ chts, ∀ alt ∈ chts, chart.chartId = alt.chartId → chart = alt := by
  rw [desiredCharts, exists_foldlM_addDesired]
  refine ⟨And.right, fun agr => ⟨fun chart mem prev got => ?_, agr⟩⟩
  cases got

theorem get?_desiredCharts {chts : List UpstreamTickChart} {desired : ChartMap}
    (ok : desiredCharts chts = .ok desired) (id : String) (chart : UpstreamTickChart) :
    OrdMap.get? id desired = some chart ↔ chart ∈ chts ∧ chart.chartId = id := by
  rw [(foldlM_addDesired_ok ok OrdMap.sorted_nil).2]
  simp

/-- The recorded charts stand under their own ids. -/
structure Keyed (charts : ChartMap) : Prop where
  sorted : OrdMap.Sorted charts
  named : ∀ entry ∈ charts, entry.2.chartId = entry.1

theorem Keyed.get? {chts : ChartMap} (key : Keyed chts) {id : String}
    {chart : UpstreamTickChart} (got : OrdMap.get? id chts = some chart) :
    chart.chartId = id :=
  key.named _ (OrdMap.mem_of_get? got)

theorem keyed_desiredCharts {chts : List UpstreamTickChart} {desired : ChartMap}
    (ok : desiredCharts chts = .ok desired) : Keyed desired := by
  have srt := (foldlM_addDesired_ok ok OrdMap.sorted_nil).1
  refine ⟨srt, fun ent mem => ?_⟩
  exact ((get?_desiredCharts ok ent.1 ent.2).mp (srt.get?_of_mem mem)).2

theorem mem_staleCharts {source : UpstreamSource} (key : Keyed source.tickCharts)
    {desired : ChartMap} {chart : UpstreamTickChart} :
    chart ∈ source.staleCharts desired ↔
      OrdMap.get? chart.chartId source.tickCharts = some chart ∧
        OrdMap.get? chart.chartId desired = none := by
  simp only [staleCharts, List.mem_map, mem_filter, isNone_iff_eq_none]
  constructor
  · rintro ⟨ent, ⟨mem, gone⟩, rfl⟩
    rw [key.named ent mem]
    exact ⟨key.sorted.get?_of_mem mem, gone⟩
  · rintro ⟨got, gone⟩
    exact ⟨_, ⟨OrdMap.mem_of_get? got, gone⟩, rfl⟩

theorem mem_changedCharts {source : UpstreamSource} {desired : ChartMap}
    (key : Keyed desired) {chart : UpstreamTickChart} :
    chart ∈ source.changedCharts desired ↔
      OrdMap.get? chart.chartId desired = some chart ∧
        OrdMap.get? chart.chartId source.tickCharts ≠ some chart := by
  simp only [changedCharts, List.mem_map, mem_filter, decide_eq_true_eq]
  constructor
  · rintro ⟨ent, ⟨mem, chg⟩, rfl⟩
    rw [key.named ent mem]
    exact ⟨key.sorted.get?_of_mem mem, chg⟩
  · rintro ⟨got, chg⟩
    exact ⟨_, ⟨OrdMap.mem_of_get? got, chg⟩, rfl⟩

/-- The charts a map shows the peer. -/
def peerCharts (charts : ChartMap) (id : String) : Option PeerChart :=
  (OrdMap.get? id charts).map UpstreamTickChart.peerChart

theorem lastWrite_subscription (id : String) (chart : UpstreamTickChart) :
    Writes.lastWrite UpstreamRequest.chartWrite id chart.subscription =
      if chart.chartId = id then some (some chart.peerChart) else none := by
  simp only [UpstreamTickChart.subscription, Writes.lastWrite_cons, Writes.lastWrite_nil,
    none_or, Writes.writeAt, UpstreamRequest.chartWrite, if_neg chart.insList_ne_empty]
  rfl

theorem lastWrite_deletion (id : String) (chart : UpstreamTickChart) :
    Writes.lastWrite UpstreamRequest.chartWrite id chart.deletion =
      if chart.chartId = id then some none else none := by
  simp only [UpstreamTickChart.deletion, Writes.lastWrite_cons, Writes.lastWrite_nil,
    none_or, Writes.writeAt, UpstreamRequest.chartWrite, if_true]

/-- The requests write exactly the charts that change, and write them as desired. -/
theorem lastWrite_requests {source : UpstreamSource} (note : Keyed source.tickCharts)
    {desired : ChartMap} (key : Keyed desired) (id : String) :
    Writes.lastWrite UpstreamRequest.chartWrite id (source.requests desired) =
      if OrdMap.get? id desired = OrdMap.get? id source.tickCharts then none
      else some (peerCharts desired id) := by
  have qs : Writes.lastWrite UpstreamRequest.chartWrite id
      (if source.shouldSendQuote desired then
        [.subscribeQuote (source.quoteSymbols ∪ chartSymbols desired), .peekMessage] else []) =
      none := by
    split <;> rfl
  have stale := fun chart => @mem_staleCharts source note desired chart
  have chg := fun chart => @mem_changedCharts source desired key chart
  rw [requests, Writes.lastWrite_append, Writes.lastWrite_append, qs, or_none]
  cases asks : OrdMap.get? id desired with
  | none =>
    have untouched : ∀ chart ∈ source.changedCharts desired, chart.chartId ≠ id := by
      rintro chart mem rfl
      rw [((chg chart).mp mem).1] at asks
      cases asks
    rw [Writes.lastWrite_blocks_eq_none (lastWrite_subscription id) untouched, none_or]
    cases held : OrdMap.get? id source.tickCharts with
    | none =>
      rw [if_pos rfl]
      refine Writes.lastWrite_blocks_eq_none (lastWrite_deletion id) ?_
      rintro chart mem rfl
      rw [((stale chart).mp mem).1] at held
      cases held
    | some chart =>
      obtain rfl := note.get? held
      rw [if_neg (by simp), peerCharts, asks]
      exact Writes.lastWrite_blocks_eq_some (lastWrite_deletion chart.chartId)
        ⟨chart, (stale chart).mpr ⟨held, asks⟩, rfl⟩ fun _ _ _ => rfl
  | some chart =>
    obtain rfl := key.get? asks
    have kept : ∀ alt ∈ source.staleCharts desired, alt.chartId ≠ chart.chartId := by
      intro alt mem same
      rw [← same, ((stale alt).mp mem).2] at asks
      cases asks
    rw [Writes.lastWrite_blocks_eq_none (lastWrite_deletion chart.chartId) kept, or_none]
    by_cases same : OrdMap.get? chart.chartId source.tickCharts = some chart
    · rw [if_pos same.symm]
      refine Writes.lastWrite_blocks_eq_none (lastWrite_subscription _) ?_
      intro alt mem nm
      obtain ⟨hit, ne⟩ := (chg alt).mp mem
      rw [nm] at hit ne
      rw [asks] at hit
      cases hit
      exact ne same
    · rw [if_neg fun eq => same eq.symm, peerCharts, asks]
      refine Writes.lastWrite_blocks_eq_some (lastWrite_subscription _)
        ⟨chart, (chg chart).mpr ⟨asks, same⟩, rfl⟩ fun alt mem nm => ?_
      have hit := ((chg alt).mp mem).1
      rw [nm, asks] at hit
      cases hit
      rfl

theorem lastWrite_quotes (desired : ChartMap) :
    Writes.lastWrite UpstreamRequest.quoteWrite () (source.requests desired) =
      if source.shouldSendQuote desired then
        some (source.quoteSymbols ∪ chartSymbols desired) else none := by
  have silent : ∀ (chts : List UpstreamTickChart) (blk : UpstreamTickChart →
      List UpstreamRequest), (∀ chart, ∀ req ∈ blk chart, req.quoteWrite = none) →
      Writes.lastWrite UpstreamRequest.quoteWrite () (chts.flatMap blk) = none := by
    intro chts blk quiet
    refine Writes.lastWrite_of_silent fun req mem => ?_
    obtain ⟨chart, -, mem⟩ := mem_flatMap.mp mem
    exact quiet chart req mem
  rw [requests, Writes.lastWrite_append, Writes.lastWrite_append,
    silent _ _ (by simp [UpstreamTickChart.subscription, UpstreamRequest.quoteWrite]),
    silent _ _ (by simp [UpstreamTickChart.deletion, UpstreamRequest.quoteWrite]),
    none_or, none_or]
  split <;> rfl

/-! ### One reconciliation -/

/-- Both sources record the same as sent. -/
def SameSent (before after : UpstreamSource) : Prop :=
  after.subscribedQuoteSymbols = before.subscribedQuoteSymbols ∧
    after.tickCharts = before.tickCharts

theorem sendAll_arrives (reqs : List UpstreamRequest) (peer : UpstreamPeer) :
    (sendAll reqs (fun _ => .arrives) peer).2 = .ok () := by
  induction reqs generalizing peer with
  | nil => rfl
  | cons req reqs ih => exact ih (peer.receive req)

/-- When every send arrives, only conflicting charts are refused. -/
theorem reconcileTickCharts_arrives {source : UpstreamSource} {chts : List UpstreamTickChart}
    {peer : UpstreamPeer} :
    (source.reconcileTickCharts chts (fun _ => .arrives) peer).2.2 = .ok () ↔
      ∃ desired, desiredCharts chts = .ok desired := by
  unfold reconcileTickCharts
  cases made : desiredCharts chts with
  | error error =>
    refine ⟨nofun, ?_⟩
    rintro ⟨desired, ok⟩
    cases ok
  | ok desired =>
    refine ⟨fun _ => ⟨desired, rfl⟩, fun _ => ?_⟩
    dsimp only
    split
    · rfl
    · have sent := sendAll_arrives (source.requests desired) peer
      split
      · rename_i fail
        rw [fail] at sent
        cases sent
      · rfl

theorem requests_eq_nil {source : UpstreamSource} {desired : ChartMap}
    (idle : (!source.shouldSendQuote desired && (source.staleCharts desired).isEmpty &&
      (source.changedCharts desired).isEmpty) = true) : source.requests desired = [] := by
  simp only [Bool.and_eq_true, Bool.not_eq_true', List.isEmpty_iff] at idle
  rw [requests, idle.1.1, idle.1.2, idle.2]
  rfl

/-- A successful reconciliation has sent all its requests and records what was desired. -/
theorem reconcileTickCharts_ok {source post : UpstreamSource} {chts : List UpstreamTickChart}
    {out : Nat → SendOutcome} {peer peerAfter : UpstreamPeer} (note : Keyed source.tickCharts)
    (ok : source.reconcileTickCharts chts out peer = (post, peerAfter, .ok ())) :
    ∃ desired, desiredCharts chts = .ok desired ∧
      peerAfter = (source.requests desired).foldl UpstreamPeer.receive peer ∧
      post.quoteSymbols = source.quoteSymbols ∧
      post.subscribedQuoteSymbols = source.quoteSymbols ∪ chartSymbols desired ∧
      Keyed post.tickCharts ∧
      ∀ id, OrdMap.get? id post.tickCharts = OrdMap.get? id desired := by
  unfold reconcileTickCharts at ok
  cases made : desiredCharts chts with
  | error error =>
    rw [made] at ok
    cases ok
  | ok desired =>
    have key := keyed_desiredCharts made
    rw [made] at ok
    dsimp only at ok
    refine ⟨desired, rfl, ?_⟩
    split at ok
    · rename_i idle
      cases ok
      have quiet := requests_eq_nil idle
      have unwritten := lastWrite_requests note key
      rw [quiet] at unwritten
      refine ⟨by rw [quiet]; rfl, rfl, ?_, note, fun id => ?_⟩
      · simp only [Bool.and_eq_true, Bool.not_eq_true', shouldSendQuote, Bool.or_eq_false_iff,
          decide_eq_false_iff_not, not_not] at idle
        exact idle.1.1.1.symm
      · by_contra differs
        have put := unwritten id
        rw [if_neg fun same => differs same.symm] at put
        cases put
    · split at ok
      · cases ok
      · rename_i sent
        cases ok
        exact ⟨sendAll_ok sent, rfl, rfl, key, fun _ => rfl⟩

theorem reconcileTickCharts_error {source : UpstreamSource} {chts : List UpstreamTickChart}
    {out : Nat → SendOutcome} {peer : UpstreamPeer} {error : RelayError}
    (fail : (source.reconcileTickCharts chts out peer).2.2 = .error error) :
    (source.reconcileTickCharts chts out peer).1 = source := by
  unfold reconcileTickCharts at fail ⊢
  split
  · rfl
  · split
    · rfl
    · rename_i made busy
      rw [made] at fail
      dsimp only at fail
      rw [if_neg busy] at fail
      split
      · rfl
      · rename_i sent
        rw [sent] at fail
        cases fail

end UpstreamSource

/-! ## Runs of calls -/

inductive UpstreamCall
  | subscribeQuoteSymbols (symbols : List String)
  | subscribeTickCharts (charts : List UpstreamTickChart)
  | reconcileTickCharts (charts : List UpstreamTickChart)

namespace UpstreamCall

/-- The charts a call asks for. -/
def wantedCharts (source : UpstreamSource) : UpstreamCall → List UpstreamTickChart
  | .subscribeQuoteSymbols _ => source.tickCharts.map Prod.snd
  | .subscribeTickCharts charts =>
    (charts.foldl (fun desired chart => OrdMap.insert chart.chartId chart desired)
      source.tickCharts).map Prod.snd
  | .reconcileTickCharts charts => charts

def wantedQuoteSymbols (source : UpstreamSource) : UpstreamCall → Finset String
  | .subscribeQuoteSymbols symbols => source.quoteSymbols ∪ (trimmedSymbols symbols).toFinset
  | _ => source.quoteSymbols

end UpstreamCall

/-- The source and the peer at the other end of its connection. -/
structure UpstreamLink where
  source : UpstreamSource
  peer : UpstreamPeer

namespace UpstreamLink

def connected : UpstreamLink := ⟨.connected, .fresh⟩

variable (link : UpstreamLink)

def call (outcome : Nat → SendOutcome) :
    UpstreamCall → UpstreamSource × UpstreamPeer × RelayResult Unit
  | .subscribeQuoteSymbols symbols =>
    link.source.subscribeQuoteSymbols symbols outcome link.peer
  | .subscribeTickCharts charts => link.source.subscribeTickCharts charts outcome link.peer
  | .reconcileTickCharts charts => link.source.reconcileTickCharts charts outcome link.peer

def after (outcome : Nat → SendOutcome) (call : UpstreamCall) : UpstreamLink :=
  ⟨(link.call outcome call).1, (link.call outcome call).2.1⟩

def result (outcome : Nat → SendOutcome) (call : UpstreamCall) : RelayResult Unit :=
  (link.call outcome call).2.2

/-- The calls one after the other, each with what becomes of its sends. -/
def run (calls : List (UpstreamCall × (Nat → SendOutcome))) : UpstreamLink :=
  calls.foldl (fun link step => link.after step.2 step.1) connected

/-- The peer holds exactly these charts, and the quotes of the source and of the charts. -/
structure Converged (link : UpstreamLink) (wanted : List UpstreamTickChart) : Prop where
  charts : ∀ id shown, link.peer.charts id = some shown ↔
    ∃ chart ∈ wanted, chart.chartId = id ∧ chart.peerChart = shown
  quotes : ∀ symbol, symbol ∈ link.peer.quotes ↔
    symbol ∈ link.source.quoteSymbols ∨ ∃ chart ∈ wanted, symbol ∈ chart.symbols

/-- The call wants nothing but the recorded definition under the id, or its absence. -/
def WantsRecorded (call : UpstreamCall) (id : String) : Prop :=
  ∀ chart, (chart ∈ call.wantedCharts link.source ∧ chart.chartId = id) ↔
    OrdMap.get? id link.source.tickCharts = some chart

/-- What the call does not send again, the peer holds as the source has recorded it. -/
structure Unstrayed (link : UpstreamLink) (call : UpstreamCall) : Prop where
  charts : ∀ id, link.WantsRecorded call id →
    link.peer.charts id = UpstreamSource.peerCharts link.source.tickCharts id
  quotes : (∀ chart ∈ call.wantedCharts link.source,
      OrdMap.get? chart.chartId link.source.tickCharts = some chart) →
    (∀ symbol, symbol ∈ link.source.subscribedQuoteSymbols ↔
      symbol ∈ call.wantedQuoteSymbols link.source ∨
        ∃ chart ∈ call.wantedCharts link.source, symbol ∈ chart.symbols) →
    link.peer.quotes = link.source.subscribedQuoteSymbols

/-- A call is refused before anything is sent, or reconciles what it wants. -/
theorem call_cases (out : Nat → SendOutcome) (call : UpstreamCall) :
    (∃ error, link.call out call = (link.source, link.peer, .error error)) ∨
    link.call out call =
      { link.source with
        quoteSymbols := call.wantedQuoteSymbols link.source }.reconcileTickCharts
        (call.wantedCharts link.source) out link.peer := by
  cases call with
  | subscribeQuoteSymbols syms =>
    dsimp only [UpstreamLink.call, UpstreamSource.subscribeQuoteSymbols]
    split
    · exact .inl ⟨_, rfl⟩
    · exact .inr rfl
  | subscribeTickCharts chts =>
    dsimp only [UpstreamLink.call, UpstreamSource.subscribeTickCharts]
    split
    · exact .inl ⟨_, rfl⟩
    · exact .inr rfl
  | reconcileTickCharts chts => exact .inr rfl

variable {link : UpstreamLink} {out : Nat → SendOutcome} {call : UpstreamCall}

theorem sameSent_of_error {error : RelayError} (fail : link.result out call = .error error) :
    link.source.SameSent (link.after out call).source := by
  unfold result at fail
  unfold after
  rcases link.call_cases out call with ⟨no, eq⟩ | eq
  · rw [eq]
    exact ⟨rfl, rfl⟩
  · rw [eq] at fail ⊢
    dsimp only
    rw [UpstreamSource.reconcileTickCharts_error fail]
    exact ⟨rfl, rfl⟩

theorem after_ok (note : UpstreamSource.Keyed link.source.tickCharts)
    (ok : link.result out call = .ok ()) :
    ∃ desired base, UpstreamSource.desiredCharts (call.wantedCharts link.source) = .ok desired ∧
      base = { link.source with quoteSymbols := call.wantedQuoteSymbols link.source } ∧
      (link.after out call).peer = (base.requests desired).foldl UpstreamPeer.receive link.peer ∧
      (link.after out call).source.quoteSymbols = base.quoteSymbols ∧
      (link.after out call).source.subscribedQuoteSymbols =
        base.quoteSymbols ∪ UpstreamSource.chartSymbols desired ∧
      UpstreamSource.Keyed (link.after out call).source.tickCharts ∧
      ∀ id, OrdMap.get? id (link.after out call).source.tickCharts = OrdMap.get? id desired := by
  unfold result at ok
  unfold after
  rcases link.call_cases out call with ⟨no, eq⟩ | eq
  · rw [eq] at ok
    cases ok
  · rw [eq] at ok ⊢
    generalize source_eq : { link.source with
      quoteSymbols := call.wantedQuoteSymbols link.source } = base at ok ⊢
    have key : UpstreamSource.Keyed base.tickCharts := by
      rw [← source_eq]
      exact note
    have done : base.reconcileTickCharts (call.wantedCharts link.source) out link.peer =
        (_, _, .ok ()) := Prod.ext rfl (Prod.ext rfl ok)
    obtain ⟨desired, made, peer_eq, qs, sent, keyedAfter, same⟩ :=
      UpstreamSource.reconcileTickCharts_ok key done
    exact ⟨desired, base, made, rfl, peer_eq, qs, sent, keyedAfter, same⟩

theorem keyed_after (out : Nat → SendOutcome) (call : UpstreamCall)
    (note : UpstreamSource.Keyed link.source.tickCharts) :
    UpstreamSource.Keyed (link.after out call).source.tickCharts := by
  cases fin : link.result out call with
  | error error =>
    rw [(sameSent_of_error fin).2]
    exact note
  | ok done =>
    obtain ⟨-, -, -, -, -, -, -, key, -⟩ := after_ok note fin
    exact key

theorem keyed_run (cls : List (UpstreamCall × (Nat → SendOutcome))) :
    UpstreamSource.Keyed (run cls).source.tickCharts := by
  have lo : UpstreamSource.Keyed connected.source.tickCharts := ⟨OrdMap.sorted_nil, nofun⟩
  unfold run
  generalize connected = link at lo ⊢
  induction cls generalizing link with
  | nil => exact lo
  | cons step cls ih => exact ih (link.after step.2 step.1) (keyed_after _ _ lo)

/-! ### Convergence -/

section Converged

variable {desired : ChartMap}

theorem wantsRecorded_iff
    (made : UpstreamSource.desiredCharts (call.wantedCharts link.source) = .ok desired)
    (id : String) : link.WantsRecorded call id ↔
      OrdMap.get? id desired = OrdMap.get? id link.source.tickCharts := by
  have asks := UpstreamSource.get?_desiredCharts made id
  unfold WantsRecorded
  constructor
  · intro same
    refine Option.ext fun chart => ?_
    rw [asks, same]
  · intro same chart
    rw [← asks, same]

theorem peerCharts_iff
    (made : UpstreamSource.desiredCharts (call.wantedCharts link.source) = .ok desired)
    (id : String) (shown : PeerChart) :
    UpstreamSource.peerCharts desired id = some shown ↔
      ∃ chart ∈ call.wantedCharts link.source, chart.chartId = id ∧ chart.peerChart = shown := by
  rw [UpstreamSource.peerCharts, map_eq_some_iff]
  constructor
  · rintro ⟨chart, got, same⟩
    obtain ⟨mem, nm⟩ := (UpstreamSource.get?_desiredCharts made id chart).mp got
    exact ⟨chart, mem, nm, same⟩
  · rintro ⟨chart, mem, nm, same⟩
    exact ⟨chart, (UpstreamSource.get?_desiredCharts made id chart).mpr ⟨mem, nm⟩, same⟩

theorem mem_chartSymbols
    (made : UpstreamSource.desiredCharts (call.wantedCharts link.source) = .ok desired)
    (sym : String) : sym ∈ UpstreamSource.chartSymbols desired ↔
      ∃ chart ∈ call.wantedCharts link.source, sym ∈ chart.symbols := by
  have key := UpstreamSource.keyed_desiredCharts made
  simp only [UpstreamSource.chartSymbols, List.mem_toFinset, mem_flatMap]
  constructor
  · rintro ⟨ent, mem, inn⟩
    obtain ⟨asks, -⟩ := (UpstreamSource.get?_desiredCharts made ent.1 ent.2).mp
      (key.sorted.get?_of_mem mem)
    exact ⟨ent.2, asks, inn⟩
  · rintro ⟨chart, mem, inn⟩
    have got := (UpstreamSource.get?_desiredCharts made chart.chartId chart).mpr ⟨mem, rfl⟩
    exact ⟨_, OrdMap.mem_of_get? got, inn⟩

theorem changedCharts_eq_nil {source : UpstreamSource}
    (made : UpstreamSource.desiredCharts (call.wantedCharts link.source) = .ok desired)
    (note : source.tickCharts = link.source.tickCharts) :
    source.changedCharts desired = [] ↔ ∀ chart ∈ call.wantedCharts link.source,
      OrdMap.get? chart.chartId link.source.tickCharts = some chart := by
  have key := UpstreamSource.keyed_desiredCharts made
  rw [eq_nil_iff_forall_not_mem]
  constructor
  · intro none chart mem
    by_contra chg
    refine none chart ((UpstreamSource.mem_changedCharts key).mpr ⟨?_, ?_⟩)
    · exact (UpstreamSource.get?_desiredCharts made _ _).mpr ⟨mem, rfl⟩
    · rw [note]
      exact chg
  · intro same chart mem
    obtain ⟨got, chg⟩ := (UpstreamSource.mem_changedCharts key).mp mem
    rw [note] at chg
    exact chg (same chart ((UpstreamSource.get?_desiredCharts made _ _).mp got).1)

end Converged

/-- After a successful call the peer holds exactly what was wanted if and only if it already
held, as recorded, what the call did not send again. -/
theorem converged_iff (note : UpstreamSource.Keyed link.source.tickCharts)
    (ok : link.result out call = .ok ()) :
    (link.after out call).Converged (call.wantedCharts link.source) ↔ link.Unstrayed call := by
  obtain ⟨desired, base, made, rfl, peer_eq, quotes_eq, -, -, -⟩ := after_ok note ok
  have key := UpstreamSource.keyed_desiredCharts made
  generalize base_eq : { link.source with
    quoteSymbols := call.wantedQuoteSymbols link.source } = base at peer_eq quotes_eq
  have same_charts : base.tickCharts = link.source.tickCharts := by rw [← base_eq]
  have same_sent : base.subscribedQuoteSymbols = link.source.subscribedQuoteSymbols := by
    rw [← base_eq]
  have wanted_quotes : base.quoteSymbols = call.wantedQuoteSymbols link.source := by rw [← base_eq]
  have charts_after : ∀ id, (link.after out call).peer.charts id =
      if OrdMap.get? id desired = OrdMap.get? id link.source.tickCharts
      then link.peer.charts id else UpstreamSource.peerCharts desired id := by
    intro id
    rw [peer_eq, UpstreamRequest.overwrites_chartWrite.foldl,
      UpstreamSource.lastWrite_requests (same_charts ▸ note) key, same_charts]
    split <;> rfl
  have quotes_after : (link.after out call).peer.quotes =
      if base.shouldSendQuote desired then
        base.quoteSymbols ∪ UpstreamSource.chartSymbols desired else link.peer.quotes := by
    have put := UpstreamRequest.overwrites_quoteWrite.foldl (base.requests desired) link.peer ()
    rw [peer_eq, put, UpstreamSource.lastWrite_quotes]
    split <;> rfl
  have asks : ∀ sym, sym ∈ base.quoteSymbols ∪ UpstreamSource.chartSymbols desired ↔
      sym ∈ call.wantedQuoteSymbols link.source ∨
        ∃ chart ∈ call.wantedCharts link.source, sym ∈ chart.symbols := by
    intro sym
    rw [Finset.mem_union, mem_chartSymbols made, wanted_quotes]
  constructor
  · rintro ⟨chts, qs⟩
    refine ⟨fun id same => ?_, fun kept sent => ?_⟩
    · rw [wantsRecorded_iff made] at same
      have here := charts_after id
      rw [if_pos same] at here
      rw [← here, UpstreamSource.peerCharts, ← same]
      refine Option.ext fun shown => ?_
      rw [chts, ← peerCharts_iff made, UpstreamSource.peerCharts]
    · have silent : base.shouldSendQuote desired = false := by
        rw [UpstreamSource.shouldSendQuote, (changedCharts_eq_nil made same_charts).mpr kept]
        simp only [isEmpty_nil, Bool.not_true, Bool.or_false, decide_eq_false_iff_not, not_not]
        rw [same_sent]
        ext sym
        rw [asks, sent]
      rw [silent, if_neg Bool.false_ne_true] at quotes_after
      rw [← quotes_after]
      ext sym
      rw [qs, quotes_eq, wanted_quotes, sent]
  · rintro ⟨chts, qs⟩
    refine ⟨fun id shown => ?_, fun sym => ?_⟩
    · rw [← peerCharts_iff made, charts_after]
      split
      · rename_i same
        rw [chts id ((wantsRecorded_iff made id).mpr same), UpstreamSource.peerCharts, ← same,
          UpstreamSource.peerCharts]
      · rfl
    · rw [quotes_eq, wanted_quotes, ← asks]
      rw [quotes_after]
      split
      · rfl
      · rename_i silent
        simp only [UpstreamSource.shouldSendQuote, Bool.or_eq_true, decide_eq_true_eq,
          Bool.not_eq_true', not_or, not_not, Bool.not_eq_false, List.isEmpty_iff] at silent
        obtain ⟨sent, kept⟩ := silent
        rw [same_sent] at sent
        rw [qs ((changedCharts_eq_nil made same_charts).mp kept)
          fun alt => by rw [← sent, asks], ← sent]

/-- The peer holds what the source has recorded as sent. -/
structure InStep (link : UpstreamLink) : Prop where
  charts : ∀ id, link.peer.charts id = UpstreamSource.peerCharts link.source.tickCharts id
  quotes : link.peer.quotes = link.source.subscribedQuoteSymbols

theorem inStep_connected : connected.InStep := ⟨fun _ => rfl, rfl⟩

theorem InStep.unstrayed (inStep : link.InStep) (call : UpstreamCall) :
    link.Unstrayed call :=
  ⟨fun id _ => inStep.charts id, fun _ _ => inStep.quotes⟩

/-- A successful call that converges leaves source and peer in step, whatever failed before. -/
theorem inStep_of_converged (note : UpstreamSource.Keyed link.source.tickCharts)
    (ok : link.result out call = .ok ())
    (conv : (link.after out call).Converged (call.wantedCharts link.source)) :
    (link.after out call).InStep := by
  obtain ⟨desired, base, made, -, -, quotes_eq, sent_eq, -, same⟩ := after_ok note ok
  constructor
  · intro id
    rw [UpstreamSource.peerCharts, same]
    refine Option.ext fun shown => ?_
    rw [conv.charts, ← peerCharts_iff made, UpstreamSource.peerCharts]
  · ext sym
    rw [conv.quotes, sent_eq, Finset.mem_union, mem_chartSymbols made, quotes_eq]

/-- With no failure since the last call that converged, every successful call converges. -/
theorem InStep.converged (inStep : link.InStep) (note : UpstreamSource.Keyed link.source.tickCharts)
    (ok : link.result out call = .ok ()) :
    (link.after out call).Converged (call.wantedCharts link.source) ∧
      (link.after out call).InStep := by
  have conv := (converged_iff note ok).mpr (inStep.unstrayed call)
  exact ⟨conv, inStep_of_converged note ok conv⟩

/-- In every run of calls, whatever becomes of their sends: a call that fails leaves the
recorded sent-state alone, and after a call that succeeds the peer holds exactly what the call
wanted if and only if it already held, as recorded, what the call did not send again. -/
theorem run_converged_iff (calls : List (UpstreamCall × (Nat → SendOutcome)))
    (outcome : Nat → SendOutcome) (call : UpstreamCall) :
    ((run calls).result outcome call ≠ .ok () →
      (run calls).source.SameSent ((run calls).after outcome call).source) ∧
    ((run calls).result outcome call = .ok () →
      (((run calls).after outcome call).Converged (call.wantedCharts (run calls).source) ↔
        (run calls).Unstrayed call)) := by
  refine ⟨fun fail => ?_, fun ok => converged_iff (keyed_run calls) ok⟩
  cases fin : (run calls).result outcome call with
  | error error => exact sameSent_of_error fin
  | ok done => exact absurd fin fail

/-! A chart set by a call whose last send failed outlives a call that no longer wants it. -/

def goldChart : UpstreamTickChart where
  chartId := "relay-upstream-tick-SHFE_au2602-10000"
  symbols := ["SHFE.au2602"]
  durationNs := 0
  viewWidth := 10000
  named := by decide +kernel
  visible := by decide
  single := ⟨"SHFE.au2602", rfl, by decide⟩

/-- The quotes and the chart arrive; the peek after the chart is lost. -/
def lastPeekLost : Nat → SendOutcome
  | 3 => .lost "connection reset"
  | _ => .arrives

def afterLostPeek : UpstreamLink := run [(.reconcileTickCharts [goldChart], lastPeekLost)]

theorem not_run_converged :
    afterLostPeek.result (fun _ => .arrives) (.reconcileTickCharts []) = .ok () ∧
      ¬(afterLostPeek.after (fun _ => .arrives) (.reconcileTickCharts [])).Converged [] := by
  refine ⟨by decide +kernel, fun conv => ?_⟩
  have held : (afterLostPeek.after (fun _ => .arrives) (.reconcileTickCharts [])).peer.charts
      goldChart.chartId = some goldChart.peerChart := by decide +kernel
  obtain ⟨chart, mem, -⟩ := (conv.charts _ _).mp held
  cases mem

end UpstreamLink

end Tqsdk
