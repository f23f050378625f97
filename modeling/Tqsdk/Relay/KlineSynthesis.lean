import Tqsdk.Data.Rows

/-!
# Synthesis of relay K-lines

One synthesizer makes the bars of one symbol and duration from the ticks pushed into it: a bar is
completed by the first tick of a later window, and a tick that comes too late is ignored.
-/

namespace Tqsdk

structure RelayTickRow where
  id : Int
  datetime : Int
  lastPrice : F64
  volume : Int
  openInterest : Int
  deriving DecidableEq

structure RelayKlineRow where
  id : Int
  datetime : Int
  open_ : F64
  high : F64
  low : F64
  close : F64
  volume : Int
  openOi : Int
  closeOi : Int
  deriving DecidableEq

structure MutableKline where
  row : RelayKlineRow
  firstVolume : Int
  lastVolume : Int
  deriving DecidableEq

def windowStart (datetime durationNs : Int) : Int := datetime / durationNs * durationNs

namespace MutableKline

/-- A bar opened by its first tick. -/
def newBar (id start : Int) (tick : RelayTickRow) : MutableKline where
  row := {
    id, datetime := start, open_ := tick.lastPrice, high := tick.lastPrice, low := tick.lastPrice
    close := tick.lastPrice, volume := 0, openOi := tick.openInterest
    closeOi := tick.openInterest }
  firstVolume := tick.volume
  lastVolume := tick.volume

def mergeTick (current : MutableKline) (tick : RelayTickRow) : MutableKline :=
  { current with
    row := { current.row with
      high := current.row.high.max tick.lastPrice
      low := current.row.low.min tick.lastPrice
      close := tick.lastPrice
      closeOi := tick.openInterest }
    lastVolume := tick.volume }

def finalize (current : MutableKline) : RelayKlineRow :=
  { current.row with volume := I64.saturated (current.lastVolume - current.firstVolume) }

end MutableKline

structure KlineSynthesis where
  durationNs : Int
  current : Option MutableKline
  nextId : Int
  lastTickId : Option Int
  deriving DecidableEq

namespace KlineSynthesis

def new (durationNs : Int) : KlineSynthesis := ⟨durationNs, none, 0, none⟩

variable (synthesis : KlineSynthesis)

/-- The tick is older than the last one by id, or belongs to a window before the current one. -/
def ignores (tick : RelayTickRow) : Bool :=
  (synthesis.lastTickId.any fun lastId => decide (tick.id < lastId)) ||
    synthesis.current.any fun current =>
      decide (windowStart tick.datetime synthesis.durationNs < current.row.datetime)

/-- Push one tick: the new state and the bars it completes. -/
def pushTick (tick : RelayTickRow) : KlineSynthesis × List RelayKlineRow :=
  let start := windowStart tick.datetime synthesis.durationNs
  if synthesis.ignores tick then (synthesis, [])
  else
    match synthesis.current with
    | none =>
      ({ synthesis with
        lastTickId := some tick.id
        current := some (.newBar synthesis.nextId start tick)
        nextId := synthesis.nextId + 1 }, [])
    | some current =>
      if current.row.datetime = start then
        ({ synthesis with
          lastTickId := some tick.id
          current := some (current.mergeTick tick) }, [])
      else
        ({ synthesis with
          lastTickId := some tick.id
          current := some (.newBar synthesis.nextId start tick)
          nextId := synthesis.nextId + 1 }, [current.finalize])

/-- Push ticks in turn: the last state and all bars they complete. -/
def pushTicks (synthesis : KlineSynthesis) : List RelayTickRow →
    KlineSynthesis × List RelayKlineRow
  | [] => (synthesis, [])
  | tick :: ticks =>
    let later := (synthesis.pushTick tick).1.pushTicks ticks
    (later.1, (synthesis.pushTick tick).2 ++ later.2)

theorem pushTicks_append (pre post : List RelayTickRow) :
    synthesis.pushTicks (pre ++ post) =
      (((synthesis.pushTicks pre).1.pushTicks post).1,
        (synthesis.pushTicks pre).2 ++ ((synthesis.pushTicks pre).1.pushTicks post).2) := by
  induction pre generalizing synthesis with
  | nil => rfl
  | cons tick pre ih =>
    rw [List.cons_append, pushTicks, ih]
    simp [pushTicks]

theorem pushTicks_snoc (tks : List RelayTickRow) (tick : RelayTickRow) :
    synthesis.pushTicks (tks ++ [tick]) =
      (((synthesis.pushTicks tks).1.pushTick tick).1,
        (synthesis.pushTicks tks).2 ++ ((synthesis.pushTicks tks).1.pushTick tick).2) := by
  rw [pushTicks_append]
  simp [pushTicks]

end KlineSynthesis

end Tqsdk
