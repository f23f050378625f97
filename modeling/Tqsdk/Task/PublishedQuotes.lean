import Tqsdk.Lib.Numbered
import Tqsdk.Task.QuoteWrites
import Tqsdk.Task.StrategyBacktest

/-!
# The published fields of a quote

`quote_state_fields_since` as one rule for all fields: a field that has a value is written
unless the quote published before had the same one.  The writes of several quotes in one commit
reach each quote as if it were alone.
-/

namespace Tqsdk

open List Option

open Value

namespace ReplayStepQuote

/-- The fields of a published quote, in the order they are pushed. -/
def fieldNames : List String :=
  ["amount", "ask_price1", "ask_volume1", "average", "bid_price1", "bid_volume1", "close",
    "commission", "datetime", "exchange_id", "highest", "ins_class", "instrument_id",
    "instrument_name", "last_price", "lowest", "margin", "max_limit_order_volume",
    "max_market_order_volume", "min_limit_order_volume", "min_market_order_volume", "open",
    "open_interest", "open_limit", "price_decs", "price_tick", "product_id", "strike_price",
    "underlying_symbol", "volume", "volume_multiple"]

/-- The value of a field, if it has one: a finite price, a volume that is not zero, a text that
is not empty. -/
def value (quote : ReplayStepQuote) : String → Option Value
  | "amount" => quote.quote.amount.toJson
  | "ask_price1" => quote.quote.askPrice1.toJson
  | "ask_volume1" => nonzeroJson quote.quote.askVolume1
  | "average" => quote.quote.average.toJson
  | "bid_price1" => quote.quote.bidPrice1.toJson
  | "bid_volume1" => nonzeroJson quote.quote.bidVolume1
  | "close" => quote.quote.close.toJson
  | "commission" => quote.quote.commission.toJson
  | "datetime" => (quoteDatetimeValue quote).map .string
  | "exchange_id" => presentJson quote.quote.exchangeId
  | "highest" => quote.quote.highest.toJson
  | "ins_class" => presentJson quote.quote.insClass
  | "instrument_id" => presentJson quote.quote.instrumentId
  | "instrument_name" => presentJson quote.quote.instrumentName
  | "last_price" => quote.quote.lastPrice.toJson
  | "lowest" => quote.quote.lowest.toJson
  | "margin" => quote.quote.margin.toJson
  | "max_limit_order_volume" => nonzeroJson quote.quote.maxLimitOrderVolume
  | "max_market_order_volume" => nonzeroJson quote.quote.maxMarketOrderVolume
  | "min_limit_order_volume" => nonzeroJson quote.quote.minLimitOrderVolume
  | "min_market_order_volume" => nonzeroJson quote.quote.minMarketOrderVolume
  | "open" => quote.quote.openPrice.toJson
  | "open_interest" => nonzeroJson quote.quote.openInterest
  | "open_limit" => nonzeroJson quote.quote.openLimit
  | "price_decs" => nonzeroJson quote.quote.priceDecs
  | "price_tick" => quote.quote.priceTick.toJson
  | "product_id" => presentJson quote.quote.productId
  | "strike_price" => quote.quote.strikePrice.toJson
  | "underlying_symbol" => presentJson quote.quote.underlyingSymbol
  | "volume" => nonzeroJson quote.quote.volume
  | "volume_multiple" => nonzeroJson quote.quote.volumeMultiple
  | _ => none

end ReplayStepQuote

/-! ## One field -/

/-- A field is written unless the quote before had the value. -/
def pushChanged (key : String) (previous current : Option Value) : List FieldMutation :=
  if previous = current then [] else pushField key current

theorem pushF64IfChanged_eq (previous : Option F64) (key : String) (current : F64) :
    pushF64IfChanged previous key current =
      pushChanged key (previous.bind F64.toJson) current.toJson := by
  unfold pushF64IfChanged pushChanged
  cases current with
  | infinite negative => simp [F64.toJson, pushField]
  | nan => simp [F64.toJson, pushField]
  | finite value =>
    cases previous with
    | none => simp [F64.toJson, pushField]
    | some previous => cases previous <;> simp [F64.toJson, F64.eq, pushField]

theorem ofI64_injective {left right : Int} (same : Value.ofI64 left = Value.ofI64 right) :
    left = right := by
  unfold Value.ofI64 at same
  injection same with num
  split at num <;> split at num <;> injection num
  omega

theorem pushI64IfChanged_eq (previous : Option Int) (key : String) (current : Int) :
    pushI64IfChanged previous key current =
      pushChanged key (previous.bind nonzeroJson) (nonzeroJson current) := by
  unfold pushI64IfChanged pushChanged nonzeroJson
  by_cases zero : current = 0
  · simp [zero, pushField]
  · cases previous with
    | none => simp [zero, pushField]
    | some previous =>
      by_cases same : previous = current
      · simp [same, zero]
      · have ne : Value.ofI64 previous ≠ Value.ofI64 current :=
          fun equal => same (ofI64_injective equal)
        by_cases old : previous = 0
        · simp [zero, old, pushField, Ne.symm zero]
        · simp [zero, same, old, ne, pushField]

theorem pushStringIfChanged_eq (previous : Option String) (key current : String) :
    pushStringIfChanged previous key current =
      pushChanged key (previous.bind presentJson) (presentJson current) := by
  unfold pushStringIfChanged pushChanged presentJson
  by_cases emp : current.isEmpty = true
  · simp [emp, pushField]
  · cases previous with
    | none => simp [emp, pushField]
    | some previous =>
      by_cases same : previous = current
      · have here : current ≠ "" := fun blank => emp (by rw [blank]; rfl)
        simp [same, here]
      · by_cases old : previous.isEmpty = true
        · simp [same, emp, pushField]
        · simp [same, emp, pushField]

section

variable (previous : Option ReplayStepQuote) (quote : ReplayStepQuote)

include previous quote

theorem quoteDatetimeMatches_iff :
    quoteDatetimeMatches previous quote = true ↔
      (quoteDatetimeValue quote).isSome ∧
        previous.bind quoteDatetimeValue = quoteDatetimeValue quote := by
  cases previous with
  | none =>
    cases quoteDatetimeValue quote <;> simp [quoteDatetimeMatches]
  | some previous =>
    obtain ⟨previous, previousNs⟩ := previous
    obtain ⟨quote, currentNs⟩ := quote
    have texts (left right : Int) : i64ToString left = i64ToString right ↔ left = right :=
      ⟨Numbered.toString_int_injective, congrArg i64ToString⟩
    cases previousNs with
    | none =>
      cases currentNs with
      | none =>
        by_cases emp : quote.datetime = ""
        · simp [quoteDatetimeMatches, quoteDatetimeValue, emp]
        · by_cases old : previous.datetime = ""
          · simp [quoteDatetimeMatches, quoteDatetimeValue, emp, old, Ne.symm emp]
          · simp [quoteDatetimeMatches, quoteDatetimeValue, emp, old]
      | some currentNs =>
        by_cases old : previous.datetime = ""
        · simp [quoteDatetimeMatches, quoteDatetimeValue, old]
        · simp [quoteDatetimeMatches, quoteDatetimeValue, old]
    | some previousNs =>
      cases currentNs with
      | none =>
        by_cases emp : quote.datetime = ""
        · simp [quoteDatetimeMatches, quoteDatetimeValue, emp]
        · simp [quoteDatetimeMatches, quoteDatetimeValue, emp]
      | some currentNs => simp [quoteDatetimeMatches, quoteDatetimeValue, texts]

theorem pushDatetimeIfChanged_eq :
    pushDatetimeIfChanged previous quote =
      pushChanged "datetime" (previous.bind fun previous => previous.value "datetime")
        (quote.value "datetime") := by
  have pre : (previous.bind fun previous => previous.value "datetime") =
      (previous.bind quoteDatetimeValue).map .string := by
    cases previous <;> rfl
  have current : quote.value "datetime" = (quoteDatetimeValue quote).map .string := rfl
  unfold pushDatetimeIfChanged pushChanged
  rw [pre, current]
  have injective : Function.Injective (Option.map Value.string) :=
    map_injective fun _ _ => Value.string.inj
  cases here : quoteDatetimeValue quote with
  | none => simp [pushField]
  | some text =>
    have matching := quoteDatetimeMatches_iff previous quote
    rw [here] at matching
    by_cases same : previous.bind quoteDatetimeValue = some text
    · rw [if_pos (matching.mpr ⟨rfl, same⟩), if_pos (congrArg _ same)]
    · rw [if_neg fun hld => same (matching.mp hld).2, if_neg fun hld => same (injective hld)]

/-! ## All fields -/

/-- The fields of a quote that the quote published before does not have. -/
theorem quoteStateFieldsSince_eq :
    quoteStateFieldsSince previous quote = ReplayStepQuote.fieldNames.flatMap fun name =>
      pushChanged name (previous.bind fun previous => previous.value name)
        (quote.value name) := by
  unfold quoteStateFieldsSince ReplayStepQuote.fieldNames
  simp only [pushF64IfChanged_eq, pushI64IfChanged_eq, pushStringIfChanged_eq,
    pushDatetimeIfChanged_eq, flatMap_cons, flatMap_nil, append_nil, append_assoc]
  cases previous <;> rfl

end

variable {value : Value} {quote : ReplayStepQuote} {name : String} {fields : List FieldMutation}
  {ents : QuoteFields}

theorem ReplayStepQuote.mem_fieldNames (here : quote.value name ≠ none) : name ∈ fieldNames := by
  unfold value at here
  split at here <;> first | decide | exact absurd rfl here

theorem isNull_toJson {px : F64} (here : px.toJson = some value) :
    value.isNull = false := by
  cases px <;> cases here
  rfl

theorem isNull_nonzeroJson {vol : Int} (here : nonzeroJson vol = some value) :
    value.isNull = false := by
  unfold nonzeroJson at here
  split at here <;> cases here
  rfl

theorem isNull_presentJson {text : String} (here : presentJson text = some value) :
    value.isNull = false := by
  unfold presentJson at here
  split at here <;> cases here
  rfl

theorem ReplayStepQuote.value_isNull (here : quote.value name = some value) :
    value.isNull = false := by
  have dt (here : (quoteDatetimeValue quote).map Value.string = some value) :
      value.isNull = false := by
    obtain ⟨_, -, rfl⟩ := map_eq_some_iff.mp here
    rfl
  unfold ReplayStepQuote.value at here
  split at here <;> first
    | exact isNull_toJson here
    | exact isNull_nonzeroJson here
    | exact isNull_presentJson here
    | exact dt here
    | cases here

section Fields

variable {names : List String} {previous current : String → Option Value}

theorem mem_flatMap_pushChanged {fld : FieldMutation} :
    fld ∈ names.flatMap (fun name => pushChanged name (previous name) (current name)) ↔
      fld.field ∈ names ∧ previous fld.field ≠ current fld.field ∧
        current fld.field = some fld.value := by
  have push (name : String) :
      fld ∈ pushChanged name (previous name) (current name) ↔
        fld.field = name ∧ previous name ≠ current name ∧ current name = some fld.value := by
    unfold pushChanged pushField
    split
    · rename_i same
      simp [same]
    · rename_i ne
      cases value : current name with
      | none => simp
      | some value =>
        rw [value] at ne
        constructor
        · intro mem
          rw [map_some, toList_some, mem_singleton] at mem
          subst mem
          exact ⟨rfl, ne, rfl⟩
        · rintro ⟨rfl, -, same⟩
          cases same
          exact mem_singleton_self _
  rw [mem_flatMap]
  constructor
  · rintro ⟨name, mem, put⟩
    obtain ⟨rfl, rest⟩ := (push name).mp put
    exact ⟨mem, rest⟩
  · rintro ⟨mem, rest⟩
    exact ⟨_, mem, (push _).mpr ⟨rfl, rest⟩⟩

theorem flatMap_pushChanged_names :
    ((names.flatMap fun name => pushChanged name (previous name) (current name)).map
      (·.field)).Sublist names := by
  induction names with
  | nil => exact List.Sublist.slnil
  | cons name names ih =>
    rw [flatMap_cons, map_append]
    have hd : (pushChanged name (previous name) (current name)).map (·.field) = [] ∨
        (pushChanged name (previous name) (current name)).map (·.field) = [name] := by
      unfold pushChanged pushField
      split
      · exact .inl rfl
      · cases current name <;> simp
    rcases hd with none | one
    · rw [none]
      exact ih.cons name
    · rw [one]
      exact ih.cons_cons name

end Fields

/-- Of writes to distinct fields each is the last one of its field. -/
theorem lastWrite_eq_some_iff (distinct : (fields.map (·.field)).Nodup) :
    lastWrite name fields = some value ↔ ⟨name, value⟩ ∈ fields := by
  induction fields generalizing value with
  | nil => simp [lastWrite]
  | cons fld fields ih =>
    rw [map_cons, nodup_cons] at distinct
    rw [lastWrite_cons, mem_cons, ← ih distinct.2]
    by_cases here : fld.field = name
    · subst here
      have post : lastWrite fld.field fields = none := by
        rw [eq_none_iff_forall_ne_some]
        intro value put
        have mem : (⟨fld.field, value⟩ : FieldMutation) ∈ fields := (ih distinct.2).mp put
        exact distinct.1 (mem_map_of_mem (f := (·.field)) mem)
      obtain ⟨name, put⟩ := fld
      simp [post, eq_comm]
    · have alt : (⟨name, value⟩ : FieldMutation) ≠ fld := by
        rintro rfl
        exact here rfl
      simp [here, alt]

theorem nodup_sortFieldMutations (distinct : (fields.map (·.field)).Nodup) :
    ((sortFieldMutations fields).map (·.field)).Nodup :=
  ((perm_insertionSort _ fields).map _).nodup_iff.mpr distinct

theorem mem_sortFieldMutations {fld : FieldMutation} :
    fld ∈ sortFieldMutations fields ↔ fld ∈ fields :=
  (perm_insertionSort _ fields).mem_iff

theorem lastWrite_sortFieldMutations (distinct : (fields.map (·.field)).Nodup) (name : String) :
    lastWrite name (sortFieldMutations fields) = lastWrite name fields := by
  apply Option.ext
  intro value
  rw [lastWrite_eq_some_iff (nodup_sortFieldMutations distinct), lastWrite_eq_some_iff distinct,
    mem_sortFieldMutations]

theorem quoteStateFieldsSince_nodup (previous : Option ReplayStepQuote) (quote : ReplayStepQuote) :
    ((quoteStateFieldsSince previous quote).map (·.field)).Nodup := by
  rw [quoteStateFieldsSince_eq]
  exact flatMap_pushChanged_names.nodup (by decide)

theorem mem_quoteStateFieldsSince {previous : Option ReplayStepQuote} :
    (⟨name, value⟩ : FieldMutation) ∈ quoteStateFieldsSince previous quote ↔
      previous.bind (·.value name) ≠ some value ∧ quote.value name = some value := by
  rw [quoteStateFieldsSince_eq, mem_flatMap_pushChanged]
  constructor
  · rintro ⟨-, ne, here⟩
    exact ⟨here ▸ ne, here⟩
  · rintro ⟨ne, here⟩
    have seen : quote.value name ≠ none := here ▸ some_ne_none value
    exact ⟨ReplayStepQuote.mem_fieldNames seen, here ▸ ne, here⟩

theorem lastWrite_quoteStateFieldsSince (previous : Option ReplayStepQuote)
    (quote : ReplayStepQuote) (name : String) :
    lastWrite name (quoteStateFieldsSince previous quote) =
      if previous.bind (·.value name) = quote.value name then none else quote.value name := by
  apply Option.ext
  intro value
  rw [lastWrite_eq_some_iff (quoteStateFieldsSince_nodup previous quote), mem_quoteStateFieldsSince]
  by_cases same : previous.bind (·.value name) = quote.value name
  · rw [if_pos same, same]
    simp
  · rw [if_neg same]
    constructor
    · exact And.right
    · intro here
      exact ⟨here ▸ same, here⟩

theorem quoteStateFieldsSince_isNull {previous : Option ReplayStepQuote} :
    ∀ fld ∈ quoteStateFieldsSince previous quote, fld.value.isNull = false := by
  intro fld mem
  exact ReplayStepQuote.value_isNull (mem_quoteStateFieldsSince.mp mem).2

/-! ## The quotes of one commit -/

/-- A quote after some of its fields are published, if there are any. -/
def publishQuote (symbol : Symbol) (quote : Option Value) (fields : List FieldMutation) :
    Option Value :=
  if fields.isEmpty then quote
  else some (quoteAfterFields symbol quote (sortFieldMutations fields))

theorem replayQuoteMutation_toList (symbol : Symbol) (fields : List FieldMutation) :
    (replayQuoteMutation symbol fields).toList =
      if fields.isEmpty then []
      else [⟨["quotes", symbol], some (.quote symbol), sortFieldMutations fields,
        .marketDiff⟩] := by
  unfold replayQuoteMutation marketMutation
  split <;> rfl

theorem quoteAfter_replayQuoteMutation (symbol : Symbol) (quote : Option Value)
    (fields : List FieldMutation) :
    quoteAfter symbol quote (replayQuoteMutation symbol fields).toList =
      publishQuote symbol quote fields := by
  rw [replayQuoteMutation_toList, publishQuote]
  split
  · rfl
  · exact if_pos rfl

theorem quoteAfter_replayQuoteMutation_ne {symbol alt : Symbol} (ne : alt ≠ symbol)
    (quote : Option Value) (fields : List FieldMutation) :
    quoteAfter symbol quote (replayQuoteMutation alt fields).toList = quote := by
  rw [replayQuoteMutation_toList]
  split
  · rfl
  · exact if_neg fun same => ne (quotePath_injective same)

theorem quoteAfter_filterMap (distinct : (ents.map Prod.fst).Nodup) (symbol : Symbol)
    (quote : Option Value) :
    quoteAfter symbol quote
        (ents.filterMap fun ent => replayQuoteMutation ent.1 ent.2) =
      publishQuote symbol quote ((Table.get? symbol ents).getD []) := by
  induction ents generalizing quote with
  | nil => rfl
  | cons ent ents ih =>
    obtain ⟨name, fields⟩ := ent
    rw [map_cons, nodup_cons] at distinct
    have split : ((name, fields) :: ents).filterMap
          (fun ent => replayQuoteMutation ent.1 ent.2) =
        (replayQuoteMutation name fields).toList ++
          ents.filterMap fun ent => replayQuoteMutation ent.1 ent.2 := by
      rw [filterMap_cons]
      cases replayQuoteMutation name fields <;> rfl
    rw [split, quoteAfter_append, ih distinct.2, Table.get?]
    by_cases here : name = symbol
    · subst here
      have post : Table.get? name ents = none := Table.get?_eq_none_iff.mpr distinct.1
      rw [quoteAfter_replayQuoteMutation, post, if_pos rfl]
      rfl
    · rw [quoteAfter_replayQuoteMutation_ne here, if_neg here]

theorem OrdMap.get?_eq_table {α : Type} (key : String) (ents : List (String × α)) :
    OrdMap.get? key ents = Table.get? key ents := by
  induction ents with
  | nil => rfl
  | cons ent ents ih =>
    rw [OrdMap.get?_cons, Table.get?, ih]
    exact if_congr eq_comm rfl rfl

/-- The fields of each symbol as several quotes of one commit are sorted. -/
theorem get?_latestBySymbol {latest : QuoteFields} (distinct : (ents.map Prod.fst).Nodup)
    (symbol : Symbol) :
    (OrdMap.get? symbol (ents.foldl (fun latest ent =>
        if ent.2.isEmpty then latest else OrdMap.insert ent.1 ent.2 latest) latest)) =
      ((Table.get? symbol ents).filter fun fields => !fields.isEmpty).or
        (OrdMap.get? symbol latest) := by
  induction ents generalizing latest with
  | nil => rfl
  | cons ent ents ih =>
    obtain ⟨name, fields⟩ := ent
    rw [map_cons, nodup_cons] at distinct
    rw [foldl_cons, ih distinct.2, Table.get?]
    by_cases here : name = symbol
    · subst here
      have post : Table.get? name ents = none := Table.get?_eq_none_iff.mpr distinct.1
      rw [post, if_pos rfl]
      cases fields with
      | nil => rfl
      | cons fld fields => simp [Option.filter]
    · rw [if_neg here]
      cases fields with
      | nil => rfl
      | cons fld fields => simp [OrdMap.get?_insert_ne (Ne.symm here)]

theorem sorted_latestBySymbol {latest : QuoteFields} (srt : OrdMap.Sorted latest) :
    OrdMap.Sorted (ents.foldl (fun latest ent =>
      if ent.2.isEmpty then latest else OrdMap.insert ent.1 ent.2 latest) latest) := by
  induction ents generalizing latest with
  | nil => exact srt
  | cons ent ents ih =>
    rw [foldl_cons]
    split
    · exact ih srt
    · exact ih (srt.insert _ _)

theorem publishQuote_filter (symbol : Symbol) (quote : Option Value)
    (fields : Option (List FieldMutation)) :
    publishQuote symbol quote ((fields.filter fun fields => !fields.isEmpty).getD []) =
      publishQuote symbol quote (fields.getD []) := by
  cases fields with
  | none => rfl
  | some fields => cases fields <;> rfl

/-- Each quote of a commit is published as if it were alone. -/
theorem quoteAfter_quoteFieldMutations {quoteFields : QuoteFields}
    (distinct : (quoteFields.map Prod.fst).Nodup) (symbol : Symbol) (quote : Option Value) :
    quoteAfter symbol quote (quoteFieldMutations quoteFields) =
      publishQuote symbol quote ((Table.get? symbol quoteFields).getD []) := by
  unfold quoteFieldMutations
  split
  · rfl
  · rename_i name fields
    have one := quoteAfter_filterMap distinct symbol quote
    rw [filterMap_cons] at one
    rw [← one]
    cases replayQuoteMutation name fields <;> rfl
  · have srt : OrdMap.Sorted (quoteFields.foldl (fun latest ent =>
        if ent.2.isEmpty then latest else OrdMap.insert ent.1 ent.2 latest) []) :=
      sorted_latestBySymbol OrdMap.sorted_nil
    have hit := @get?_latestBySymbol quoteFields [] distinct symbol
    rw [quoteAfter_filterMap srt.keys_nodup, ← OrdMap.get?_eq_table, hit,
      OrdMap.get?_nil, or_none, publishQuote_filter]

/-! ## The quotes of a step -/

namespace StrategyBacktest

theorem quoteFieldsForReplayBatch_keys (last qs : List (Symbol × ReplayStepQuote)) :
    ((quoteFieldsForReplayBatch last qs).2.map Prod.fst).Sublist (qs.map Prod.fst) := by
  induction qs generalizing last with
  | nil => exact List.Sublist.slnil
  | cons ent qs ih =>
    obtain ⟨symbol, quote⟩ := ent
    rw [quoteFieldsForReplayBatch]
    dsimp only
    split
    · exact (ih _).cons symbol
    · exact (ih _).cons_cons symbol

section

variable {qs : List (Symbol × ReplayStepQuote)} (distinct : (qs.map Prod.fst).Nodup)
  (last : List (Symbol × ReplayStepQuote)) (symbol : Symbol)

include distinct last symbol

/-- Each symbol has the fields its quote changes against the one published before. -/
theorem get?_quoteFieldsForReplayBatch :
    (Table.get? symbol (quoteFieldsForReplayBatch last qs).2).getD [] =
      match Table.get? symbol qs with
      | none => []
      | some quote => quoteStateFieldsSince (OrdMap.get? symbol last) quote := by
  induction qs generalizing last with
  | nil => rfl
  | cons ent qs ih =>
    obtain ⟨name, quote⟩ := ent
    rw [map_cons, nodup_cons] at distinct
    have alts := ih distinct.2 (OrdMap.insert name quote last)
    rw [quoteFieldsForReplayBatch, Table.get?]
    dsimp only
    by_cases here : name = symbol
    · subst here
      have gone : Table.get? name qs = none := Table.get?_eq_none_iff.mpr distinct.1
      rw [gone] at alts
      rw [if_pos rfl]
      split
      · rename_i none
        rw [alts]
        exact (isEmpty_iff.mp none).symm
      · rw [Table.get?, if_pos rfl]
        rfl
    · rw [OrdMap.get?_insert_ne (Ne.symm here)] at alts
      rw [if_neg here, ← alts]
      split
      · rfl
      · rw [Table.get?, if_neg here]

theorem get?_lastReplayQuotes :
    OrdMap.get? symbol (quoteFieldsForReplayBatch last qs).1 =
      (Table.get? symbol qs).or (OrdMap.get? symbol last) := by
  induction qs generalizing last with
  | nil => rfl
  | cons ent qs ih =>
    obtain ⟨name, quote⟩ := ent
    rw [map_cons, nodup_cons] at distinct
    have post := ih distinct.2 (OrdMap.insert name quote last)
    rw [quoteFieldsForReplayBatch, Table.get?]
    dsimp only
    rw [post]
    by_cases here : name = symbol
    · subst here
      have gone : Table.get? name qs = none := Table.get?_eq_none_iff.mpr distinct.1
      rw [gone, if_pos rfl, OrdMap.get?_insert_self]
      rfl
    · rw [if_neg here, OrdMap.get?_insert_ne (Ne.symm here)]

end

end StrategyBacktest

end Tqsdk
