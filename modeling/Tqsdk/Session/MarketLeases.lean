import Mathlib.Data.List.Count
import Tqsdk.Session.MarketSession

/-!
# The registry counts the open leases

What the registry counts is what the open leases hold, what the adapter keeps is what the
registry counts, and each operation of a lease holder moves the three together.
-/

namespace Tqsdk

open List OrdMap

/-! ## Symbol counts -/

/-- The map has the count of every held symbol and no entry at zero. -/
def Counts (counts : SymbolCounts) (held : Symbol → Nat) : Prop :=
  ∀ symbol, get? symbol counts = if held symbol = 0 then none else some (held symbol)

namespace Counts

variable {counts : SymbolCounts} {held : Symbol → Nat}

section

variable (cnt : Counts counts held) (symbol : Symbol)

include cnt symbol

theorem getD :
    (get? symbol counts).getD 0 = held symbol := by
  rw [cnt symbol]
  split
  · rename_i zero
    simp [zero]
  · rfl

theorem insert (n : Nat) (pos : 0 < n) :
    Counts (OrdMap.insert symbol n counts) (Function.update held symbol n) := by
  intro alt
  rw [get?_insert]
  by_cases same : alt = symbol
  · subst same
    simp [Nat.ne_of_gt pos]
  · rw [if_neg same, Function.update_of_ne same]
    exact cnt alt

theorem erase :
    Counts (OrdMap.erase symbol counts) (Function.update held symbol 0) := by
  intro alt
  rw [get?_erase]
  by_cases same : alt = symbol
  · subst same
    simp
  · rw [if_neg same, Function.update_of_ne same]
    exact cnt alt

end

theorem congr {held' : Symbol → Nat} (cnt : Counts counts held)
    (same : ∀ symbol, held symbol = held' symbol) : Counts counts held' := by
  obtain rfl : held = held' := funext same
  exact cnt

/-- Acquiring counts every symbol and reports those that were not held. -/
theorem acquire (cnt : Counts counts held) (syms : List Symbol) :
    Counts (acquireSymbols counts syms).1 (fun symbol => held symbol + syms.count symbol) ∧
      ∀ symbol, symbol ∈ (acquireSymbols counts syms).2 ↔ held symbol = 0 ∧ symbol ∈ syms := by
  induction syms generalizing counts held with
  | nil => exact ⟨cnt.congr fun symbol => by simp, fun symbol => by simp [acquireSymbols]⟩
  | cons hd syms ih =>
    have step := cnt.insert hd (held hd + 1) (Nat.succ_pos _)
    obtain ⟨rest, chg⟩ := ih step
    simp only [acquireSymbols, cnt.getD hd]
    refine ⟨rest.congr fun symbol => ?_, fun symbol => ?_⟩
    · by_cases same : symbol = hd
      · subst same
        simp only [Function.update_self, count_cons_self]
        omega
      · rw [Function.update_of_ne same, count_cons_of_ne (Ne.symm same)]
    · have mem := chg symbol
      by_cases same : symbol = hd
      · subst same
        simp only [Function.update_self] at mem
        split
        · rename_i zero
          simp [zero]
        · rename_i held
          simp [held, mem]
      · rw [Function.update_of_ne same] at mem
        split <;> simp [same, mem]

/-- Releasing symbols that are held counts them off and reports those no longer held. -/
theorem release (cnt : Counts counts held) {syms : List Symbol}
    (fits : ∀ symbol, syms.count symbol ≤ held symbol) :
    Counts (releaseSymbols counts syms).1 (fun symbol => held symbol - syms.count symbol) ∧
      ∀ symbol, symbol ∈ (releaseSymbols counts syms).2 ↔
        symbol ∈ syms ∧ held symbol = syms.count symbol := by
  induction syms generalizing counts held with
  | nil => exact ⟨cnt.congr fun symbol => by simp, fun symbol => by simp [releaseSymbols]⟩
  | cons hd syms ih =>
    have some_held : syms.count hd + 1 ≤ held hd := by simpa using fits hd
    have got : get? hd counts = some (held hd) := by rw [cnt hd, if_neg (by omega)]
    have enough_rest : ∀ symbol, syms.count symbol ≤
        Function.update held hd (held hd - 1) symbol := by
      intro symbol
      by_cases same : symbol = hd
      · subst same
        rw [Function.update_self]
        omega
      · rw [Function.update_of_ne same]
        exact le_trans count_le_count_cons (fits symbol)
    have counted_rest : ∀ symbol, Function.update held hd (held hd - 1) symbol -
        syms.count symbol = held symbol - (hd :: syms).count symbol := by
      intro symbol
      by_cases same : symbol = hd
      · subst same
        rw [Function.update_self, count_cons_self]
        omega
      · rw [Function.update_of_ne same, count_cons_of_ne (Ne.symm same)]
    have left_rest : ∀ symbol, symbol ≠ hd →
        ((symbol ∈ syms ∧ Function.update held hd (held hd - 1) symbol = syms.count symbol) ↔
        (symbol ∈ hd :: syms ∧ held symbol = (hd :: syms).count symbol)) := by
      intro symbol alt
      rw [Function.update_of_ne alt, count_cons_of_ne (Ne.symm alt)]
      simp [alt]
    simp only [releaseSymbols, got]
    split
    · rename_i last
      have erased : Counts (OrdMap.erase hd counts)
          (Function.update held hd (held hd - 1)) := by
        rw [last]
        exact cnt.erase hd
      obtain ⟨rest, chg⟩ := ih erased enough_rest
      refine ⟨rest.congr counted_rest, fun symbol => ?_⟩
      by_cases same : symbol = hd
      · subst same
        have only : syms.count symbol = 0 := by omega
        simp only [mem_cons, true_or, true_and, true_iff, count_cons_self]
        omega
      · rw [mem_cons, chg symbol, left_rest symbol same]
        simp [same]
    · rename_i more
      obtain ⟨rest, chg⟩ := ih (cnt.insert hd (held hd - 1) (by omega)) enough_rest
      refine ⟨rest.congr counted_rest, fun symbol => ?_⟩
      rw [chg symbol]
      by_cases same : symbol = hd
      · subst same
        rw [Function.update_self, count_cons_self]
        constructor
        · rintro ⟨-, eq⟩
          exact ⟨mem_cons_self, by omega⟩
        · rintro ⟨-, eq⟩
          have : 0 < syms.count symbol := by omega
          exact ⟨count_pos_iff.mp this, by omega⟩
      · exact left_rest symbol same

end Counts

/-! ## Symbol sets -/

theorem get?_extendSymbols (tgt : SymbolSet) (syms : List Symbol) (symbol : Symbol) :
    get? symbol (extendSymbols tgt syms) = if symbol ∈ syms then some () else get? symbol tgt := by
  unfold extendSymbols
  induction syms generalizing tgt with
  | nil => simp
  | cons hd syms ih =>
    rw [foldl_cons, ih, get?_insert]
    by_cases same : symbol = hd
    · simp [same]
    · simp [same]

theorem get?_removeSymbols (tgt : SymbolSet) (syms : List Symbol) (symbol : Symbol) :
    get? symbol (removeSymbols tgt syms) = if symbol ∈ syms then none else get? symbol tgt := by
  unfold removeSymbols
  induction syms generalizing tgt with
  | nil => simp
  | cons hd syms ih =>
    rw [foldl_cons, ih, get?_erase]
    by_cases same : symbol = hd
    · simp [same]
    · simp [same]

theorem sorted_extendSymbols {tgt : SymbolSet} (srt : OrdMap.Sorted tgt)
    (syms : List Symbol) : OrdMap.Sorted (extendSymbols tgt syms) := by
  unfold extendSymbols
  induction syms generalizing tgt with
  | nil => exact srt
  | cons hd syms ih => exact ih (srt.insert hd ())

theorem sorted_removeSymbols {tgt : SymbolSet} (srt : OrdMap.Sorted tgt)
    (syms : List Symbol) : OrdMap.Sorted (removeSymbols tgt syms) := by
  unfold removeSymbols
  induction syms generalizing tgt with
  | nil => exact srt
  | cons hd syms ih => exact ih (srt.erase hd)

/-! ## Leases by position -/

/-- Changing what one lease holds changes the counts by what it held before and holds now. -/
theorem count_flatten_set {lets : List (List Symbol)} {lease : Nat} {held : List Symbol}
    (open_lease : lets[lease]? = some held) (kept : List Symbol) (symbol : Symbol) :
    (lets.set lease kept).flatten.count symbol + held.count symbol =
      lets.flatten.count symbol + kept.count symbol := by
  induction lets generalizing lease with
  | nil => cases open_lease
  | cons hd lets ih =>
    cases lease with
    | zero =>
      cases open_lease
      simp only [set_cons_zero, flatten_cons, count_append]
      omega
    | succ lease =>
      have := @ih lease open_lease
      simp only [set_cons_succ, flatten_cons, count_append]
      omega

/-! ## One interest at a time -/

namespace MarketInterestRegistry

theorem counts_setCounts (reg : MarketInterestRegistry) (counts : SymbolCounts)
    (interest alt : SymbolInterest) :
    (reg.setCounts counts interest).counts alt =
      if alt = interest then counts else reg.counts alt := by
  cases interest <;> cases alt <;> rfl

@[simp] theorem charts_setCounts (reg : MarketInterestRegistry) (counts : SymbolCounts)
    (interest : SymbolInterest) : (reg.setCounts counts interest).charts = reg.charts := by
  cases interest <;> rfl

end MarketInterestRegistry

namespace MarketAdapter

variable (adapter : MarketAdapter)

def setSubscriptions (symbols : SymbolSet) :
    SymbolInterest → MarketAdapter
  | .quotes => { adapter with quoteSubscriptions := symbols }
  | .tradingStatus => { adapter with tradingStatusSubscriptions := symbols }

theorem subscriptions_setSubscriptions (syms : SymbolSet) (interest alt : SymbolInterest) :
    (adapter.setSubscriptions syms interest).subscriptions alt =
      if alt = interest then syms else adapter.subscriptions alt := by
  cases interest <;> cases alt <;> rfl

@[simp] theorem charts_setSubscriptions (syms : SymbolSet) (interest : SymbolInterest) :
    (adapter.setSubscriptions syms interest).charts = adapter.charts := by
  cases interest <;> rfl

end MarketAdapter

def SymbolInterest.message : SymbolInterest → String → DiffProtocolMessage
  | .quotes => .subscribeQuote
  | .tradingStatus => .subscribeTradingStatus

theorem MarketAdapter.encode_subscribe (adapter : MarketAdapter) (interest : SymbolInterest)
    (syms : List Symbol) :
    adapter.encode (interest.subscribe syms) =
      (adapter.setSubscriptions (extendSymbols (adapter.subscriptions interest) syms) interest,
        .ok (requestWithPeek (interest.message
          (joinSymbols (extendSymbols (adapter.subscriptions interest) syms))))) := by
  cases interest <;> rfl

theorem MarketAdapter.encode_unsubscribe (adapter : MarketAdapter) (interest : SymbolInterest)
    (syms : List Symbol) :
    adapter.encode (interest.unsubscribe syms) =
      (adapter.setSubscriptions (removeSymbols (adapter.subscriptions interest) syms) interest,
        .ok (requestWithPeek (interest.message
          (joinSymbols (removeSymbols (adapter.subscriptions interest) syms))))) := by
  cases interest <;> rfl

namespace MarketSession

section SetLeases

variable (session : MarketSession) (lets : List (List Symbol)) (interest : SymbolInterest)

@[simp] theorem setLeases_interests :
    (session.setLeases lets interest).interests = session.interests := by
  cases interest <;> rfl

@[simp] theorem setLeases_adapter :
    (session.setLeases lets interest).adapter = session.adapter := by
  cases interest <;> rfl

@[simp] theorem setLeases_chartLeases :
    (session.setLeases lets interest).chartLeases = session.chartLeases := by
  cases interest <;> rfl

@[simp] theorem setLeases_outbound :
    (session.setLeases lets interest).outbound = session.outbound := by
  cases interest <;> rfl

@[simp] theorem setLeases_phase : (session.setLeases lets interest).phase = session.phase := by
  cases interest <;> rfl

@[simp] theorem setLeases_server :
    (session.setLeases lets interest).server = session.server := by
  cases interest <;> rfl

end SetLeases

/-! ## The invariant -/

/-- What the open leases hold is what the registry counts and what the adapter keeps. -/
structure Leased (session : MarketSession) : Prop where
  counted : ∀ interest, Counts (session.interests.counts interest)
    fun symbol => (session.leases interest).flatten.count symbol
  kept : ∀ interest symbol, get? symbol (session.adapter.subscriptions interest) =
    if symbol ∈ (session.leases interest).flatten then some () else none
  sorted : ∀ interest, OrdMap.Sorted (session.adapter.subscriptions interest)
  charts : ∀ chartId, session.openCharts chartId =
    match get? chartId session.interests.charts with
    | none => []
    | some interest => List.replicate interest.refs interest.command
  keyed : ∀ chartId interest, get? chartId session.interests.charts = some interest →
    0 < interest.refs ∧ interest.command.chartId = chartId
  keptCharts : ∀ chartId, get? chartId session.adapter.charts =
    (get? chartId session.interests.charts).map ChartInterest.command
  sortedCharts : OrdMap.Sorted session.adapter.charts
  valid : ∀ chartId chart, get? chartId session.adapter.charts = some chart →
    validateChartRequest chart = .ok () ∧ joinSymbolList chart.symbols ≠ ""

/-! ## Lease operations -/

/-- From `session` to `next` the connection stays and at most this command was submitted. -/
structure Follows (session : MarketSession) (command : Option MarketCommand)
    (next : MarketSession) : Prop where
  phase : next.phase = session.phase
  server : next.server = session.server
  submitted : (next.adapter = session.adapter ∧ next.outbound = session.outbound) ∨
    ∃ submitted messages, command = some submitted ∧
      session.adapter.encode submitted = (next.adapter, .ok messages) ∧
      next.outbound = session.outbound ++ messages.map .market

theorem Follows.refl (session : MarketSession) (cmd : Option MarketCommand) :
    Follows session cmd session :=
  ⟨rfl, rfl, .inl ⟨rfl, rfl⟩⟩

variable {session : MarketSession}

variable {adapter : MarketAdapter} {lease : Nat} {next : MarketSession}

theorem submitMarketCommand_of_ok {cmd : MarketCommand} {msgs : List DiffProtocolMessage}
    (enc : session.adapter.encode cmd = (adapter, .ok msgs)) :
    session.submitMarketCommand cmd =
      ({ session with
        adapter := adapter
        outbound := session.outbound ++ msgs.map .market }, .ok ()) := by
  unfold submitMarketCommand
  rw [enc]

theorem submitMarketCommand_of_error {cmd : MarketCommand} {error : ContractError}
    (enc : session.adapter.encode cmd = (adapter, .error error)) :
    session.submitMarketCommand cmd =
      ({ session with adapter := adapter }, .error (.core error)) := by
  unfold submitMarketCommand
  rw [enc]

/-- An operation on the leases of one list keeps the invariant of everything else. -/
theorem Leased.of_interest (leased : session.Leased) (interest : SymbolInterest)
    (counts : SymbolCounts) (lets : List (List Symbol)) (syms : SymbolSet)
    (wants : next.interests = session.interests.setCounts counts interest)
    (held : next.leases = fun alt => if alt = interest then lets else session.leases alt)
    (adapter : next.adapter = session.adapter.setSubscriptions syms interest)
    (chartLeases : next.chartLeases = session.chartLeases)
    (cnt : Counts counts fun symbol => lets.flatten.count symbol)
    (kept : ∀ symbol, get? symbol syms = if symbol ∈ lets.flatten then some () else none)
    (srt : OrdMap.Sorted syms) : next.Leased := by
  have openCharts : next.openCharts = session.openCharts := by
    unfold MarketSession.openCharts
    rw [chartLeases]
  constructor
  · intro alt
    rw [wants, held, MarketInterestRegistry.counts_setCounts]
    by_cases same : alt = interest
    · simpa only [if_pos same] using cnt
    · simpa only [if_neg same] using leased.counted alt
  · intro alt symbol
    rw [adapter, held, MarketAdapter.subscriptions_setSubscriptions]
    by_cases same : alt = interest
    · simpa only [if_pos same] using kept symbol
    · simpa only [if_neg same] using leased.kept alt symbol
  · intro alt
    rw [adapter, MarketAdapter.subscriptions_setSubscriptions]
    split
    · exact srt
    · exact leased.sorted alt
  · intro cht
    rw [openCharts, wants, MarketInterestRegistry.charts_setCounts]
    exact leased.charts cht
  · intro cht interest
    rw [wants, MarketInterestRegistry.charts_setCounts]
    exact leased.keyed cht interest
  · intro cht
    rw [adapter, wants, MarketInterestRegistry.charts_setCounts,
      MarketAdapter.charts_setSubscriptions]
    exact leased.keptCharts cht
  · rw [adapter, MarketAdapter.charts_setSubscriptions]
    exact leased.sortedCharts
  · intro cht ch
    rw [adapter, MarketAdapter.charts_setSubscriptions]
    exact leased.valid cht ch

theorem setSubscriptions_self (adapter : MarketAdapter) (interest : SymbolInterest) :
    adapter.setSubscriptions (adapter.subscriptions interest) interest = adapter := by
  cases interest <;> rfl

section

variable (leased : session.Leased) (interest : SymbolInterest)

include leased interest

theorem Leased.ensureSymbols (syms : List Symbol) :
    (ensureSymbols interest session syms).1.Leased ∧
      Follows session (session.subscribed interest syms)
        (ensureSymbols interest session syms).1 := by
  obtain ⟨cnt, chg⟩ := (leased.counted interest).acquire syms
  unfold MarketSession.ensureSymbols subscribed
  generalize acquireSymbols (session.interests.counts interest) syms = acquired at *
  obtain ⟨counts, fresh⟩ := acquired
  dsimp only at cnt chg ⊢
  have counted_next : Counts counts
      fun symbol => (session.leases interest ++ [syms]).flatten.count symbol :=
    cnt.congr fun symbol => by simp
  have fresh_iff : ∀ symbol, symbol ∈ fresh ↔
      symbol ∉ (session.leases interest).flatten ∧ symbol ∈ syms := by
    intro symbol
    rw [chg, count_eq_zero]
  have held_next : ∀ symbol, symbol ∈ (session.leases interest ++ [syms]).flatten ↔
      symbol ∈ (session.leases interest).flatten ∨ symbol ∈ syms := by
    intro symbol
    simp
  split
  · exact ⟨leased, Follows.refl _ _⟩
  · split
    · rename_i none_fresh
      rw [List.isEmpty_iff] at none_fresh
      have nothing : ∀ symbol, symbol ∈ syms → symbol ∈ (session.leases interest).flatten := by
        intro symbol mem
        by_contra new
        have := (fresh_iff symbol).mpr ⟨new, mem⟩
        rw [none_fresh] at this
        cases this
      refine ⟨leased.of_interest interest counts (session.leases interest ++ [syms])
        (session.adapter.subscriptions interest) (by cases interest <;> rfl) ?_
        (by cases interest <;> rfl) (by cases interest <;> rfl) counted_next (fun symbol => ?_)
        (leased.sorted interest), ?_⟩
      · funext other
        cases interest <;> cases other <;> rfl
      · rw [leased.kept interest symbol]
        have := nothing symbol
        have := held_next symbol
        split <;> split <;> tauto
      · exact ⟨by cases interest <;> rfl, by cases interest <;> rfl,
          .inl ⟨by cases interest <;> rfl, by cases interest <;> rfl⟩⟩
    · rw [submitMarketCommand_of_ok (MarketAdapter.encode_subscribe _ _ _)]
      refine ⟨leased.of_interest interest counts (session.leases interest ++ [syms])
        (extendSymbols (session.adapter.subscriptions interest) fresh)
        (by cases interest <;> rfl) ?_ (by cases interest <;> rfl) (by cases interest <;> rfl)
        counted_next (fun symbol => ?_) (sorted_extendSymbols (leased.sorted interest) _), ?_⟩
      · funext other
        cases interest <;> cases other <;> rfl
      · rw [get?_extendSymbols, leased.kept interest symbol]
        have := fresh_iff symbol
        have := held_next symbol
        split <;> split <;> try split
        all_goals tauto
      · refine ⟨by cases interest <;> rfl, by cases interest <;> rfl,
          .inr ⟨interest.subscribe fresh, requestWithPeek (interest.message
            (joinSymbols (extendSymbols (session.adapter.subscriptions interest) fresh))), rfl,
            ?_, ?_⟩⟩
        · rw [MarketAdapter.encode_subscribe]
          cases interest <;> rfl
        · cases interest <;> rfl

/-- Releasing symbols that one lease gives up, the lease already changed. -/
theorem Leased.releaseInterest {next : MarketSession} {lets : List (List Symbol)}
    {syms : List Symbol} (given_up : next = session.setLeases lets interest)
    (n : ∀ symbol, lets.flatten.count symbol + syms.count symbol =
      (session.leases interest).flatten.count symbol) :
    (next.releaseInterest interest syms).1.Leased ∧
      Follows session (session.unsubscribed interest syms)
        (next.releaseInterest interest syms).1 := by
  subst given_up
  have fits : ∀ symbol, syms.count symbol ≤ (session.leases interest).flatten.count symbol :=
    fun symbol => by rw [← n]; exact Nat.le_add_left _ _
  obtain ⟨cnt, chg⟩ := (leased.counted interest).release fits
  unfold MarketSession.releaseInterest unsubscribed
  rw [setLeases_interests]
  generalize Tqsdk.releaseSymbols (session.interests.counts interest) syms = released at *
  obtain ⟨counts, gone⟩ := released
  dsimp only at cnt chg ⊢
  have counted_next : Counts counts fun symbol => lets.flatten.count symbol :=
    cnt.congr fun symbol => by have := n symbol; omega
  have gone_iff : ∀ symbol, symbol ∈ gone ↔
      symbol ∈ (session.leases interest).flatten ∧ symbol ∉ lets.flatten := by
    intro symbol
    rw [chg, ← count_pos_iff, ← count_pos_iff, ← count_pos_iff]
    have := n symbol
    omega
  have still_held : ∀ symbol, symbol ∈ lets.flatten →
      symbol ∈ (session.leases interest).flatten := by
    intro symbol
    rw [← count_pos_iff, ← count_pos_iff]
    have := n symbol
    omega
  split
  · rename_i none_gone
    rw [List.isEmpty_iff] at none_gone
    subst none_gone
    refine ⟨leased.of_interest interest counts lets (session.adapter.subscriptions interest)
      (by cases interest <;> rfl) ?_ (by cases interest <;> rfl) (by cases interest <;> rfl)
      counted_next (fun symbol => ?_) (leased.sorted interest), ?_⟩
    · funext other
      cases interest <;> cases other <;> rfl
    · rw [leased.kept interest symbol]
      have := gone_iff symbol
      have := still_held symbol
      simp only [not_mem_nil, false_iff] at *
      split <;> split <;> tauto
    · exact ⟨by cases interest <;> rfl, by cases interest <;> rfl,
        .inl ⟨by cases interest <;> rfl, by cases interest <;> rfl⟩⟩
  · rw [submitMarketCommand_of_ok (MarketAdapter.encode_unsubscribe _ _ _)]
    refine ⟨leased.of_interest interest counts lets
      (removeSymbols (session.adapter.subscriptions interest) gone)
      (by cases interest <;> rfl) ?_ (by cases interest <;> rfl) (by cases interest <;> rfl)
      counted_next (fun symbol => ?_) (sorted_removeSymbols (leased.sorted interest) _), ?_⟩
    · funext other
      cases interest <;> cases other <;> rfl
    · rw [get?_removeSymbols, leased.kept interest symbol]
      have := gone_iff symbol
      have := still_held symbol
      split <;> split <;> try split
      all_goals tauto
    · refine ⟨by cases interest <;> rfl, by cases interest <;> rfl,
        .inr ⟨interest.unsubscribe gone, requestWithPeek (interest.message
          (joinSymbols (removeSymbols (session.adapter.subscriptions interest) gone))), rfl,
          ?_, ?_⟩⟩
      · rw [MarketAdapter.encode_unsubscribe]
        cases interest <;> rfl
      · cases interest <;> rfl

theorem Leased.closeSymbols (lease : Nat) :
    (closeSymbols interest session lease).1.Leased ∧
      Follows session ((session.leases interest)[lease]?.bind (session.unsubscribed interest))
        (closeSymbols interest session lease).1 := by
  unfold MarketSession.closeSymbols
  split
  · exact ⟨leased, Follows.refl _ _⟩
  · rename_i held open_lease
    rw [open_lease]
    refine leased.releaseInterest interest rfl fun symbol => ?_
    have := count_flatten_set open_lease [] symbol
    simpa using this

end

theorem Leased.releaseSymbols (leased : session.Leased) (lease : Nat) (asked : List Symbol) :
    (session.releaseSymbols lease asked).1.Leased ∧
      Follows session (session.leaseCommand (.releaseSymbols lease asked))
        (session.releaseSymbols lease asked).1 := by
  unfold MarketSession.releaseSymbols leaseCommand
  split
  · exact ⟨leased, Follows.refl _ _⟩
  · rename_i held open_lease
    have n : ∀ symbol,
        (session.quoteLeases.set lease
          (held.filter fun symbol => !asked.contains symbol)).flatten.count symbol +
        (held.filter fun symbol => asked.contains symbol).count symbol =
          session.quoteLeases.flatten.count symbol := by
      intro symbol
      have chg := count_flatten_set open_lease
        (held.filter fun symbol => !asked.contains symbol) symbol
      have ps : (held.filter fun symbol => asked.contains symbol).count symbol +
          (held.filter fun symbol => !asked.contains symbol).count symbol =
          held.count symbol := by
        rw [← count_append]
        exact (filter_append_perm _ held).count_eq symbol
      omega
    have released := leased.releaseInterest .quotes rfl n
    dsimp only
    rw [open_lease, Option.bind_some]
    split
    · rename_i none_released
      rw [List.isEmpty_iff] at none_released
      rw [none_released] at released ⊢
      exact released
    · exact released

/-! ## Chart leases -/

theorem exists_set_eq {lets : List (Option MarketChartCommand)} {held : MarketChartCommand}
    (open_lease : lets[lease]?.join = some held) :
    ∃ pre post, lets = pre ++ some held :: post ∧
      ∀ chg, lets.set lease chg = pre ++ chg :: post := by
  induction lets generalizing lease with
  | nil => cases open_lease
  | cons hd lets ih =>
    cases lease with
    | zero =>
      obtain rfl : hd = some held := by simpa using open_lease
      exact ⟨[], lets, rfl, fun _ => rfl⟩
    | succ lease =>
      obtain ⟨pre, post, same, set_same⟩ := @ih lease (by simpa using open_lease)
      refine ⟨hd :: pre, post, by rw [same]; rfl, fun chg => ?_⟩
      rw [set_cons_succ, set_same]
      rfl

/-- An operation on one chart keeps the invariant when it changes the chart's entry and its open
leases together, and the adapter with them. -/
theorem Leased.of_chart (leased : session.Leased) (cht : String) (ent : Option ChartInterest)
    (counts : next.interests.counts = session.interests.counts)
    (leases : next.leases = session.leases)
    (subscriptions : next.adapter.subscriptions = session.adapter.subscriptions)
    (registered : ∀ alt, get? alt next.interests.charts =
      if alt = cht then ent else get? alt session.interests.charts)
    (opened : ∀ alt, next.openCharts alt =
      if alt = cht then
        ent.elim [] fun interest => List.replicate interest.refs interest.command
      else session.openCharts alt)
    (keyed : ∀ interest, ent = some interest → 0 < interest.refs ∧
      interest.command.chartId = cht ∧ validateChartRequest interest.command = .ok () ∧
      joinSymbolList interest.command.symbols ≠ "")
    (kept : ∀ alt, get? alt next.adapter.charts =
      if alt = cht then ent.map ChartInterest.command
      else get? alt session.adapter.charts)
    (sorted : OrdMap.Sorted next.adapter.charts) : next.Leased where
  counted interest := by
    rw [counts, leases]
    exact leased.counted interest
  kept interest symbol := by
    rw [subscriptions, leases]
    exact leased.kept interest symbol
  sorted interest := by
    rw [subscriptions]
    exact leased.sorted interest
  charts alt := by
    rw [opened, registered]
    split
    · cases ent <;> rfl
    · exact leased.charts alt
  keyed alt interest stored := by
    rw [registered] at stored
    split at stored
    · rename_i same
      obtain ⟨pos, key, -, -⟩ := keyed interest stored
      exact ⟨pos, key.trans same.symm⟩
    · exact leased.keyed alt interest stored
  keptCharts alt := by
    rw [kept, registered]
    split
    · rfl
    · exact leased.keptCharts alt
  sortedCharts := sorted
  valid alt chart stored := by
    rw [kept] at stored
    split at stored
    · cases ent with
      | none => cases stored
      | some interest =>
        cases stored
        exact (keyed interest rfl).2.2
    · exact leased.valid alt chart stored

/-- The interest of an open chart is valid and shown. -/
theorem Leased.valid_interest (leased : session.Leased) {cht : String} {interest : ChartInterest}
    (got : get? cht session.interests.charts = some interest) :
    validateChartRequest interest.command = .ok () ∧
      joinSymbolList interest.command.symbols ≠ "" := by
  refine leased.valid cht interest.command ?_
  rw [leased.keptCharts, got]
  rfl

theorem eq_ite_of_eq {α : Type} {lookup : String → α} {key : String} {val : α}
    (same : lookup key = val) (alt : String) :
    lookup alt = if alt = key then val else lookup alt := by
  by_cases here : alt = key
  · rw [if_pos here, here, same]
  · rw [if_neg here]

theorem openCharts_append (lets : List (Option MarketChartCommand)) (cmd : MarketChartCommand)
    (cht : String) (same : session.chartLeases = lets ++ [some cmd]) :
    session.openCharts cht =
      ((lets.filterMap id).filter fun open_chart => open_chart.chartId = cht) ++
        if cmd.chartId = cht then [cmd] else [] := by
  unfold MarketSession.openCharts
  rw [same, filterMap_append, filter_append]
  by_cases key : cmd.chartId = cht <;> simp [key]

theorem encode_setChart_ok {ch : MarketChartCommand} (fine : validateChartRequest ch = .ok ()) :
    adapter.encode (.setChart ch) =
      ({ adapter with charts := OrdMap.insert ch.chartId ch adapter.charts },
        .ok (requestWithPeek (.setChart (buildChartMessage ch false)))) := by
  simp only [MarketAdapter.encode, fine]

theorem encode_setChart_error {ch : MarketChartCommand} {error : ContractError}
    (bad : validateChartRequest ch = .error error) :
    adapter.encode (.setChart ch) = (adapter, .error error) := by
  simp only [MarketAdapter.encode, bad]

theorem Leased.ensureChart (leased : session.Leased) (cmd : MarketChartCommand)
    (shown : ∀ subd, session.leaseCommand (.ensureChart cmd) = some subd →
      subd.namesNothing = false) :
    (session.ensureChart cmd).1.Leased ∧
      Follows session (session.leaseCommand (.ensureChart cmd))
        (session.ensureChart cmd).1 := by
  have opn := leased.charts cmd.chartId
  unfold MarketSession.ensureChart
  unfold MarketInterestRegistry.acquireChart
  cases got : get? cmd.chartId session.interests.charts with
  | some old =>
    rw [got] at opn
    dsimp only at opn ⊢
    obtain ⟨pos, key⟩ := leased.keyed _ _ got
    by_cases ne : old.command ≠ cmd
    · rw [if_pos ne]
      exact ⟨leased, Follows.refl _ _⟩
    · rw [if_neg ne]
      rw [not_not] at ne
      subst ne
      refine ⟨leased.of_chart old.command.chartId (some ⟨old.command, old.refs + 1⟩) rfl rfl rfl ?_
        ?_ ?_ ?_ leased.sortedCharts, ⟨rfl, rfl, .inl ⟨rfl, rfl⟩⟩⟩
      · intro alt
        exact get?_insert _ _ _ _
      · intro alt
        rw [openCharts_append session.chartLeases old.command alt rfl]
        by_cases same : alt = old.command.chartId
        · subst same
          rw [if_pos rfl, if_pos rfl, Option.elim_some, replicate_succ']
          exact congrArg (· ++ [old.command]) opn
        · rw [if_neg (Ne.symm same), if_neg same, append_nil]
          rfl
      · intro interest same
        cases same
        have fine := leased.valid_interest got
        exact ⟨Nat.succ_pos _, rfl, fine⟩
      · exact eq_ite_of_eq ((leased.keptCharts _).trans (by rw [got]; rfl))
  | none =>
    rw [got] at opn
    dsimp only at opn ⊢
    rw [if_pos rfl]
    cases chk : validateChartRequest cmd with
    | error error =>
      rw [submitMarketCommand_of_error (encode_setChart_error chk)]
      unfold MarketInterestRegistry.releaseChart
      dsimp only
      rw [get?_insert_self]
      refine ⟨leased.of_chart cmd.chartId none rfl rfl rfl ?_ ?_ ?_ ?_
        leased.sortedCharts, ⟨rfl, rfl, .inl ⟨rfl, rfl⟩⟩⟩
      · intro alt
        show get? alt (OrdMap.erase _ (OrdMap.insert _ _ _)) = _
        rw [get?_erase, get?_insert]
        split <;> rfl
      · exact eq_ite_of_eq opn
      · intro interest same
        cases same
      · refine eq_ite_of_eq ((leased.keptCharts _).trans ?_)
        rw [got]
    | ok _ =>
      rw [submitMarketCommand_of_ok (encode_setChart_ok chk)]
      dsimp only
      have submits : session.leaseCommand (.ensureChart cmd) = some (.setChart cmd) := by
        simp only [leaseCommand, MarketInterestRegistry.acquireChart, got]
      have names := shown _ submits
      refine ⟨leased.of_chart cmd.chartId (some ⟨cmd, 1⟩) rfl rfl rfl ?_ ?_ ?_ ?_
        (leased.sortedCharts.insert _ _), ⟨rfl, rfl,
          .inr ⟨.setChart cmd, _, submits, encode_setChart_ok chk, rfl⟩⟩⟩
      · intro alt
        exact get?_insert _ _ _ _
      · intro alt
        rw [openCharts_append session.chartLeases cmd alt rfl]
        by_cases same : alt = cmd.chartId
        · subst same
          rw [if_pos rfl, if_pos rfl]
          exact congrArg (· ++ [cmd]) opn
        · rw [if_neg (Ne.symm same), if_neg same, append_nil]
          rfl
      · intro interest same
        cases same
        refine ⟨Nat.one_pos, rfl, chk, ?_⟩
        simpa [MarketCommand.namesNothing, chk] using names
      · intro alt
        exact get?_insert _ _ _ _

/-- The open leases of the charts before and after one chart lease changes. -/
theorem openCharts_set {held : MarketChartCommand}
    (open_lease : session.chartLeases[lease]?.join = some held) :
    ∃ pre post : String → List MarketChartCommand,
      (∀ cht, session.openCharts cht =
        pre cht ++ (if held.chartId = cht then [held] else []) ++ post cht) ∧
      (∀ cht, { session with chartLeases := session.chartLeases.set lease none }.openCharts
        cht = pre cht ++ post cht) ∧
      ∀ cmd cht,
        { session with
          chartLeases := session.chartLeases.set lease (some cmd) }.openCharts cht =
        pre cht ++ (if cmd.chartId = cht then [cmd] else []) ++ post cht := by
  obtain ⟨pre, post, same, set_same⟩ := exists_set_eq open_lease
  let pick (lets : List (Option MarketChartCommand)) (cht : String) :=
    (lets.filterMap id).filter fun cmd : MarketChartCommand => cmd.chartId = cht
  have split_at : ∀ (cmd : MarketChartCommand) (cht : String),
      pick (pre ++ some cmd :: post) cht =
        pick pre cht ++ (if cmd.chartId = cht then [cmd] else []) ++
          pick post cht := by
    intro cmd cht
    simp only [pick, filterMap_append, filterMap_cons, id_eq, filter_append,
      filter_cons, append_assoc]
    split <;> simp_all
  refine ⟨pick pre, pick post, fun cht => ?_, fun cht => ?_, fun cmd cht => ?_⟩
  · rw [← split_at, ← same]
    rfl
  · unfold MarketSession.openCharts
    dsimp only
    rw [set_same none]
    simp [pick]
  · rw [← split_at, ← set_same]
    rfl

/-- The entry of an open chart counts its leases, and they all requested its command. -/
theorem Leased.interest_of_open (leased : session.Leased) {held : MarketChartCommand}
    (open_lease : session.chartLeases[lease]?.join = some held) :
    ∃ interest, get? held.chartId session.interests.charts = some interest ∧
      interest.command = held := by
  obtain ⟨pre, post, opn, -, -⟩ := openCharts_set open_lease
  have here := leased.charts held.chartId
  rw [opn, if_pos rfl] at here
  cases got : get? held.chartId session.interests.charts with
  | none =>
    rw [got] at here
    simp at here
  | some interest =>
    rw [got] at here
    dsimp only at here
    have mem : held ∈ List.replicate interest.refs interest.command := by
      rw [← here]
      simp
    exact ⟨interest, rfl, (mem_replicate.mp mem).2.symm⟩

theorem updatableChart_ok {cmd : MarketChartCommand} {interest : ChartInterest}
    (chk : session.updatableChart lease cmd = .ok interest) :
    ∃ held, session.chartLeases[lease]?.join = some held ∧ cmd.chartId = held.chartId ∧
      get? held.chartId session.interests.charts = some interest ∧ interest.refs = 1 := by
  unfold updatableChart at chk
  split at chk
  · cases chk
  · rename_i held open_lease
    split at chk
    · cases chk
    · rename_i same
      split at chk
      · cases chk
      · rename_i interest' got
        split at chk
        · cases chk
        · rename_i one
          cases chk
          exact ⟨held, open_lease, not_not.mp same, got, not_not.mp one⟩

theorem Leased.updateChart (leased : session.Leased) (lease : Nat) (cmd : MarketChartCommand)
    (shown : ∀ subd, session.leaseCommand (.updateChart lease cmd) = some subd →
      subd.namesNothing = false) :
    (session.updateChart lease cmd).1.Leased ∧
      Follows session (session.leaseCommand (.updateChart lease cmd))
        (session.updateChart lease cmd).1 := by
  unfold MarketSession.updateChart
  cases chk : session.updatableChart lease cmd with
  | error error => exact ⟨leased, Follows.refl _ _⟩
  | ok interest =>
    obtain ⟨held, open_lease, key, got, one⟩ := updatableChart_ok chk
    dsimp only
    by_cases same : interest.command = cmd
    · rw [if_pos same]
      exact ⟨leased, Follows.refl _ _⟩
    · rw [if_neg same]
      cases validated : validateChartRequest cmd with
      | error error =>
        rw [submitMarketCommand_of_error (encode_setChart_error validated)]
        exact ⟨leased, ⟨rfl, rfl, .inl ⟨rfl, rfl⟩⟩⟩
      | ok _ =>
        rw [submitMarketCommand_of_ok (encode_setChart_ok validated)]
        have submits : session.leaseCommand (.updateChart lease cmd) =
            some (.setChart cmd) := by
          simp only [leaseCommand, chk, if_neg same]
        have names := shown _ submits
        obtain ⟨pre, post, opn, -, move⟩ := openCharts_set open_lease
        have alone : pre held.chartId = [] ∧ post held.chartId = [] := by
          have here := leased.charts held.chartId
          rw [opn, if_pos rfl, got] at here
          have len := congrArg List.length here
          simp only [length_append, length_singleton, length_replicate, one] at len
          exact ⟨eq_nil_of_length_eq_zero (by omega),
            eq_nil_of_length_eq_zero (by omega)⟩
        refine ⟨leased.of_chart cmd.chartId (some ⟨cmd, interest.refs⟩) rfl rfl rfl
          ?_ ?_ ?_ ?_ (leased.sortedCharts.insert _ _), ⟨rfl, rfl,
          .inr ⟨.setChart cmd, _, submits, encode_setChart_ok validated, rfl⟩⟩⟩
        · intro alt
          exact get?_insert _ _ _ _
        · intro alt
          refine (move cmd alt).trans ?_
          by_cases here : alt = cmd.chartId
          · subst here
            rw [if_pos rfl, if_pos rfl, key, alone.1, alone.2, Option.elim_some, one]
            rfl
          · rw [if_neg (Ne.symm here), if_neg here, opn, if_neg (by rw [← key]; exact Ne.symm here)]
        · intro interest' same'
          cases same'
          refine ⟨by rw [one]; exact Nat.one_pos, rfl, validated, ?_⟩
          simpa [MarketCommand.namesNothing, validated] using names
        · intro alt
          exact get?_insert _ _ _ _

theorem Leased.closeChart (leased : session.Leased) (lease : Nat) :
    (session.closeChart lease).1.Leased ∧
      Follows session (session.leaseCommand (.closeChart lease))
        (session.closeChart lease).1 := by
  unfold MarketSession.closeChart
  cases open_lease : session.chartLeases[lease]?.join with
  | none => exact ⟨leased, Follows.refl _ _⟩
  | some held =>
    obtain ⟨interest, got, same⟩ := leased.interest_of_open open_lease
    obtain ⟨pre, post, opn, shut, -⟩ := openCharts_set open_lease
    have here := leased.charts held.chartId
    rw [opn, if_pos rfl, got] at here
    dsimp only at here ⊢
    have alts : ∀ alt, alt ≠ held.chartId →
        session.openCharts alt = pre alt ++ post alt := by
      intro alt ne
      rw [opn, if_neg (Ne.symm ne), append_nil]
    have rest : pre held.chartId ++ post held.chartId =
        List.replicate (interest.refs - 1) interest.command := by
      rw [eq_replicate_iff] at here ⊢
      obtain ⟨len, every⟩ := here
      simp only [length_append, length_singleton] at len ⊢
      refine ⟨by omega, fun cmd mem => every cmd ?_⟩
      simp only [mem_append] at mem ⊢
      tauto
    by_cases more : interest.refs - 1 > 0
    · have released : session.interests.releaseChart held.chartId =
          ({ session.interests with
            charts := OrdMap.insert held.chartId ⟨interest.command, interest.refs - 1⟩
              session.interests.charts }, false) := by
        simp only [MarketInterestRegistry.releaseChart, got, if_pos more]
      simp only [released, Bool.false_eq_true, if_false]
      refine ⟨leased.of_chart held.chartId (some ⟨interest.command, interest.refs - 1⟩)
        rfl rfl rfl ?_ ?_ ?_ ?_ leased.sortedCharts, ⟨rfl, rfl, .inl ⟨rfl, rfl⟩⟩⟩
      · intro alt
        exact get?_insert _ _ _ _
      · intro alt
        refine (shut alt).trans ?_
        by_cases here : alt = held.chartId
        · rw [if_pos here, here]
          exact rest
        · rw [if_neg here, alts alt here]
      · intro interest' same'
        cases same'
        have fine := leased.valid_interest got
        exact ⟨more, (leased.keyed _ _ got).2, fine⟩
      · refine eq_ite_of_eq ((leased.keptCharts _).trans ?_)
        rw [got]
        rfl
    · have released : session.interests.releaseChart held.chartId =
          ({ session.interests with
            charts := OrdMap.erase held.chartId session.interests.charts }, true) := by
        simp only [MarketInterestRegistry.releaseChart, got, if_neg more]
      have kept : get? held.chartId session.adapter.charts = some interest.command :=
        (leased.keptCharts _).trans (by rw [got]; rfl)
      have enc : session.adapter.encode (.cancelChart held.chartId) =
          ({ session.adapter with
            charts := OrdMap.erase held.chartId session.adapter.charts },
            .ok (requestWithPeek (.setChart (buildChartMessage interest.command true)))) := by
        simp only [MarketAdapter.encode, kept]
      have submits : session.leaseCommand (.closeChart lease) =
          some (.cancelChart held.chartId) := by
        simp only [leaseCommand, open_lease, Option.bind_some, released, if_true]
      simp only [released, if_true, submitMarketCommand, enc]
      refine ⟨leased.of_chart held.chartId none rfl rfl rfl ?_ ?_ ?_ ?_ (leased.sortedCharts.erase
        _), ⟨rfl, rfl, .inr ⟨.cancelChart held.chartId, _, submits, enc, rfl⟩⟩⟩
      · intro alt
        exact get?_erase _ _ _
      · intro alt
        refine (shut alt).trans ?_
        by_cases here : alt = held.chartId
        · rw [if_pos here, here, rest]
          obtain gone : interest.refs - 1 = 0 := by omega
          rw [gone]
          rfl
        · rw [if_neg here, alts alt here]
      · intro interest' same'
        cases same'
      · intro alt
        exact get?_erase _ _ _

end MarketSession

end Tqsdk
