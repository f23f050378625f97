import Mathlib.Data.String.Basic
import Tqsdk.Lib.OrdMap
import Tqsdk.Relay.KlineSynthesis
import Tqsdk.Relay.RollingViews

/-!
# The market cache of the relay

Rings of ticks and the last quotes by symbol, under a limit of symbols and of reserved bytes.  A
write first makes room by evicting the symbols that were written least recently.
-/

namespace Tqsdk

structure MarketCacheLimits where
  maxSymbols : Nat
  maxRetainedBytes : Nat
  deriving DecidableEq

/-- `size_of` of the types a reservation counts. -/
structure EntrySizes where
  string : Nat
  cachedQuote : Nat
  ring : Nat
  row : Nat

structure MarketCacheWriteReport where
  stored : Bool
  evictedSymbols : Nat
  retainedBytes : Nat
  deriving DecidableEq

/-- The fields of a `Quote` that the relay keeps. -/
structure RelayQuote where
  instrumentId : String
  datetime : String
  lastPrice : F64
  volume : Int
  openInterest : Int
  deriving DecidableEq

inductive CachedQuote
  | direct (quote : RelayQuote)
  | tick (row : RelayTickRow)
  deriving DecidableEq

structure MarketCache where
  sizes : EntrySizes
  tickCapacity : Nat
  klineCapacity : Nat
  limits : MarketCacheLimits
  ticks : List (String × List RelayTickRow)
  quotes : List (String × CachedQuote)
  lru : List String
  retainedBytes : Nat

namespace MarketCache

def usizeMax : Nat := 2 ^ 64 - 1

def quoteTextReservationBytes : Nat := 1024

def entryMetadataReservationBytes : Nat := 128

def entryReservation (sizes : EntrySizes) (tickCapacity : Nat) (symbol : String)
    (hasTick : Bool) : Nat :=
  min usizeMax
    ((2 + hasTick.toNat) *
        (sizes.string + symbol.utf8ByteSize + entryMetadataReservationBytes) +
      (sizes.cachedQuote + quoteTextReservationBytes * 2) +
      if hasTick then sizes.ring + tickCapacity * sizes.row else 0)

variable (cache : MarketCache)

def entryReservationFor (symbol : String) (hasTick : Bool) : Nat :=
  entryReservation cache.sizes cache.tickCapacity symbol hasTick

def withLimits (sizes : EntrySizes) (tickCapacity klineCapacity : Nat)
    (limits : MarketCacheLimits) : MarketCache :=
  ⟨sizes, tickCapacity, klineCapacity, limits, [], [], [], 0⟩

def hasTicks (symbol : String) : Bool :=
  (OrdMap.get? symbol cache.ticks).isSome

def tickRing (symbol : String) : Option (List RelayTickRow) :=
  OrdMap.get? symbol cache.ticks

def quote? (symbol : String) : Option CachedQuote :=
  OrdMap.get? symbol cache.quotes

/-! ## Admission -/

def evictSymbol (symbol : String) : MarketCache :=
  if !cache.hasTicks symbol && (cache.quote? symbol).isNone then cache
  else
    { cache with
      retainedBytes := cache.retainedBytes -
        cache.entryReservationFor symbol (cache.hasTicks symbol)
      ticks := OrdMap.erase symbol cache.ticks
      quotes := OrdMap.erase symbol cache.quotes }

/-- A write to a symbol that reserves `next` bytes where `previous` were reserved. -/
structure Admission where
  symbol : String
  isNew : Bool
  previous : Nat
  next : Nat

namespace Admission

variable (admission : Admission)

def retained (cache : MarketCache) : Nat :=
  min usizeMax (cache.retainedBytes - admission.previous + admission.next)

/-- The limits leave no room beside the `others`. -/
def crowded (cache : MarketCache) (others : List String) : Bool :=
  decide (cache.limits.maxSymbols < others.length + admission.isNew.toNat) ||
    decide (cache.limits.maxRetainedBytes < admission.retained cache)

def admitWrite (cache : MarketCache) (others : List String) (evicted : Nat) :
    MarketCache × MarketCacheWriteReport :=
  ({ cache with
      retainedBytes := admission.retained cache
      lru := others ++ [admission.symbol] },
    ⟨true, evicted, admission.retained cache⟩)

/-- Evict the least recently written symbols until the write fits. -/
def makeRoom (admission : Admission) : List String → MarketCache → Nat →
    MarketCache × MarketCacheWriteReport
  | [], cache, evicted =>
    if admission.crowded cache [] then
      ({ cache with lru := [admission.symbol] }, ⟨false, evicted, cache.retainedBytes⟩)
    else admission.admitWrite cache [] evicted
  | victim :: others, cache, evicted =>
    if admission.crowded cache (victim :: others) then
      admission.makeRoom others (cache.evictSymbol victim) (evicted + 1)
    else admission.admitWrite cache (victim :: others) evicted

end Admission

variable (cache : MarketCache)

def admission (symbol : String) (hasTick : Bool) : Admission where
  symbol
  isNew := !cache.lru.contains symbol
  previous :=
    if cache.lru.contains symbol then
      cache.entryReservationFor symbol (cache.hasTicks symbol)
    else 0
  next := cache.entryReservationFor symbol hasTick

/-- `admit` of the source. -/
def admitWrite (symbol : String) (hasTick : Bool) : MarketCache × MarketCacheWriteReport :=
  if cache.limits.maxRetainedBytes < cache.entryReservationFor symbol hasTick then
    (cache, ⟨false, 0, cache.retainedBytes⟩)
  else
    (cache.admission symbol hasTick).makeRoom (cache.lru.filter (· ≠ symbol)) cache 0

/-! ## Ticks -/

/-- A newer tick whose id does not grow starts a new id epoch. -/
def startsEpoch (ring : List RelayTickRow) (row : RelayTickRow) : Bool :=
  ring.getLast?.any fun existing =>
    decide (row.id ≤ existing.id ∧ existing.datetime < row.datetime)

/-- Places a tick of the current epoch in the ring. -/
def placeTick (ring : List RelayTickRow) (row : RelayTickRow) : List RelayTickRow :=
  match ring.getLast? with
  | none => ring ++ [row]
  | some last =>
    if last.id = row.id then ring.dropLast ++ [row]
    else if row.id < last.id then
      if hasRow RelayTickRow.id ring row then
        (overwriteRow RelayTickRow.id row ring.reverse).reverse
      else
        ring.takeWhile (fun existing => decide (existing.id ≤ row.id)) ++
          row :: ring.dropWhile fun existing => decide (existing.id ≤ row.id)
    else ring ++ [row]

def pushRow (capacity : Nat) (ring : List RelayTickRow) (row : RelayTickRow) :
    List RelayTickRow :=
  trimRing capacity (placeTick (if startsEpoch ring row then [] else ring) row)

def pushTick (symbol : String) (row : RelayTickRow) : MarketCache × MarketCacheWriteReport :=
  let admitted := cache.admitWrite symbol true
  if !admitted.2.stored then admitted
  else
    let ring := (admitted.1.tickRing symbol).getD []
    ({ admitted.1 with
        ticks := OrdMap.insert symbol (pushRow admitted.1.tickCapacity ring row) admitted.1.ticks
        quotes := OrdMap.insert symbol (.tick row) admitted.1.quotes },
      admitted.2)

/-! ## Quotes -/

/-- The longest prefix that fits in `room` bytes. -/
def charsWithin (room : Nat) : List Char → List Char
  | [] => []
  | character :: rest =>
    if character.utf8Size ≤ room then
      character :: charsWithin (room - character.utf8Size) rest
    else []

def boundedText (value fallback : String) : String :=
  if value.utf8ByteSize ≤ quoteTextReservationBytes then value
  else if fallback.utf8ByteSize ≤ quoteTextReservationBytes then fallback
  else String.ofList (charsWithin quoteTextReservationBytes fallback.toList)

def relayQuoteProjection (symbol : String) (quote : RelayQuote) : RelayQuote :=
  { quote with
    datetime := boundedText quote.datetime ""
    instrumentId := boundedText quote.instrumentId symbol }

def pushQuote (symbol : String) (quote : RelayQuote) : MarketCache × MarketCacheWriteReport :=
  let admitted := cache.admitWrite symbol (cache.hasTicks symbol)
  if !admitted.2.stored then admitted
  else
    ({ admitted.1 with
        quotes := OrdMap.insert symbol (.direct (relayQuoteProjection symbol quote))
          admitted.1.quotes },
      admitted.2)

end MarketCache

end Tqsdk
