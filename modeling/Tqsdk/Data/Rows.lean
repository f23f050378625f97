import Tqsdk.F64
import Tqsdk.Lib.Int64
import Mathlib.Data.Prod.Lex
import Mathlib.Data.Set.Defs

/-!
# Rows of market history

`Kline` and `Tick` of `tqsdk-core`.
-/

namespace Tqsdk

structure Kline where
  id : Int
  datetime : Int
  open_ : F64
  high : F64
  low : F64
  close : F64
  volume : Int
  openOi : Int
  closeOi : Int
  epoch : Option Int
  deriving DecidableEq

/-- A `Tick`; of its prices and volumes only the stored bits are used. -/
structure Tick where
  id : Int
  datetime : Int
  bits : List Nat
  epoch : Option Int
  deriving DecidableEq

def Tick.orderKey (tick : Tick) : Int ×ₗ Int := toLex (tick.datetime, tick.id)

/-- The ticks that a server has of a symbol: an id has one row. -/
structure TickSource where
  rows : Set Tick
  inRange : ∀ row ∈ rows, I64.InRange row.id
  unique : ∀ left ∈ rows, ∀ right ∈ rows, left.id = right.id → left = right

end Tqsdk
