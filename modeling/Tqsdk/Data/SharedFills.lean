import Tqsdk.Data.RangeAlgebra

/-!
# The fills that requests share

A request joins the fills of its series that are under way and starts fills for the rest.  A fill is
open until its last consumer leaves or all of them want to stop.  In whatever order that happens,
open fills of one compatibility do not overlap, and the fills of a request cover it.
-/

namespace Tqsdk

open List Ranges

structure FillCompatibility where
  provisionalAsOfNs : Option Int
  minuteSnapshot : Option MinuteKlineCacheSnapshot
  deriving DecidableEq

/-- The fill at the address `id`.  A consumer keeps its stop signal alive until it is released. -/
structure SharedFill where
  id : Nat
  range : Int × Int
  compatibility : FillCompatibility
  consumers : Nat
  stopSignals : List Nat
  cancelRequested : Bool
  alive : consumers ≤ stopSignals.length
  consumed : cancelRequested = false → 0 < consumers

namespace SharedFill

def new (id : Nat) (range : Int × Int) (compatibility : FillCompatibility) (stopSignal : Nat) :
    SharedFill :=
  ⟨id, range, compatibility, 1, [stopSignal], false, le_refl 1, fun _ => Nat.one_pos⟩

variable (fill : SharedFill)

def subscribe (stopSignal : Nat) : SharedFill :=
  { fill with
    consumers := fill.consumers + 1
    stopSignals := stopSignal :: fill.stopSignals
    alive := Nat.succ_le_succ fill.alive
    consumed := fun _ => Nat.succ_pos _ }

/-- The last consumer that is released cancels the fill. -/
def release : SharedFill :=
  { fill with
    consumers := fill.consumers - 1
    cancelRequested := fill.cancelRequested || fill.consumers = 1
    alive := (Nat.sub_le _ _).trans fill.alive
    consumed := fun live => by
      simp only [Bool.or_eq_false_iff, decide_eq_false_iff_not] at live
      have := fill.consumed live.1
      omega }

/-- The signal of a released consumer is dropped. -/
def expire (stopSignal : Nat) : SharedFill :=
  if released : fill.consumers < fill.stopSignals.length then
    { fill with
      stopSignals := fill.stopSignals.erase stopSignal
      alive := (Nat.le_sub_one_of_lt released).trans le_length_erase }
  else fill

def isDraining (stopped : List Nat) : Bool :=
  !fill.stopSignals.isEmpty && fill.stopSignals.all (· ∈ stopped)

def isOpen (stopped : List Nat) : Bool := !fill.cancelRequested && !fill.isDraining stopped

end SharedFill

/-- The fills of a series, and the stop signals that are set. -/
structure FillSeries where
  active : List SharedFill
  stopped : List Nat
  nextId : Nat

inductive FillEvent
  | subscribe (request : Int × Int) (compatibility : FillCompatibility) (stopSignal : Nat)
  | stop (stopSignal : Nat)
  | release (id : Nat)
  | expire (id stopSignal : Nat)
  | remove (id : Nat)

namespace FillSeries

section

variable (series : FillSeries)

def joins (request : Int × Int) (compatibility : FillCompatibility) (fill : SharedFill) : Bool :=
  fill.compatibility = compatibility && fill.isOpen series.stopped &&
    (intersectRanges fill.range request).isSome

def joined (request : Int × Int) (compatibility : FillCompatibility) : List SharedFill :=
  series.active.filter (series.joins request compatibility)

/-- What the joined fills leave of a request. -/
def rest (request : Int × Int) (compatibility : FillCompatibility) : List (Int × Int) :=
  subtractRanges request (((series.joined request compatibility).map (·.range)).filterMap
    fun range => intersectRanges range request)

/-- The series after a request, and the fills that the request waits for. -/
def subscribe (request : Int × Int) (compatibility : FillCompatibility) (stopSignal : Nat) :
    FillSeries × List SharedFill :=
  let fresh := ((series.rest request compatibility).zipIdx series.nextId).map fun entry =>
    SharedFill.new entry.2 entry.1 compatibility stopSignal
  ({ series with
      active := series.active.map (fun fill =>
        if series.joins request compatibility fill then fill.subscribe stopSignal else fill) ++ fresh
      nextId := series.nextId + fresh.length },
    (series.joined request compatibility).map (·.subscribe stopSignal) ++ fresh)

def change (id : Nat) (step : SharedFill → SharedFill) : FillSeries :=
  { series with active := series.active.map fun fill => if fill.id = id then step fill else fill }

def apply : FillEvent → FillSeries
  | .subscribe request compatibility stopSignal =>
    (series.subscribe request compatibility stopSignal).1
  | .stop stopSignal => { series with stopped := stopSignal :: series.stopped }
  | .release id => series.change id (·.release)
  | .expire id stopSignal => series.change id (·.expire stopSignal)
  | .remove id => { series with active := series.active.filter (·.id ≠ id) }

/-- Open fills of one compatibility do not overlap. -/
def Exclusive : Prop := series.active.Pairwise fun left right =>
  left.isOpen series.stopped → right.isOpen series.stopped →
    left.compatibility = right.compatibility →
      ∀ instant, Covers [left.range] instant → ¬Covers [right.range] instant

end

variable {series : FillSeries} {fill : SharedFill} {stopped : List Nat}

theorem isOpen_iff : fill.isOpen stopped ↔
    fill.cancelRequested = false ∧ ∃ signal ∈ fill.stopSignals, signal ∉ stopped := by
  unfold SharedFill.isOpen SharedFill.isDraining
  cases live : fill.cancelRequested with
  | true => simp
  | false => simp [ne_nil_of_length_pos ((fill.consumed live).trans_le fill.alive)]

/-- The fill later; it has not opened again. -/
structure Keeps (stopped stopped' : List Nat) (fill after : SharedFill) : Prop where
  range : after.range = fill.range
  compatibility : after.compatibility = fill.compatibility
  opened : after.isOpen stopped' → fill.isOpen stopped

theorem Keeps.refl (fill : SharedFill) : Keeps stopped stopped fill fill := ⟨rfl, rfl, id⟩

theorem Exclusive.map (excl : series.Exclusive) {step : SharedFill → SharedFill} (nextId : Nat)
    (keeps : ∀ fill, Keeps series.stopped stopped fill (step fill)) :
    Exclusive ⟨series.active.map step, stopped, nextId⟩ := by
  refine pairwise_map.mpr (excl.imp fun {l r} apart => ?_)
  rw [(keeps l).range, (keeps r).range, (keeps l).compatibility, (keeps r).compatibility]
  exact fun left right => apart ((keeps l).opened left) ((keeps r).opened right)

section

variable (series) (req : Int × Int) (comp : FillCompatibility)

theorem covers_rest (inst : Int) : Covers (series.rest req comp) inst ↔
    Covers [req] inst ∧ ¬Covers ((series.joined req comp).map (·.range)) inst := by
  rw [rest, covers_subtractRanges, covers_intersections, covers_cons]
  simp only [covers_nil, or_false]
  grind

theorem covers_joined {inst : Int} (inn : Covers [req] inst) (mem : fill ∈ series.active)
    (opened : fill.isOpen series.stopped) (cov : Covers [fill.range] inst) :
    Covers ((series.joined req fill.compatibility).map (·.range)) inst := by
  refine cov.of_subset fun _ one => mem_singleton.mp one ▸ mem_map_of_mem (mem_filter.mpr ⟨mem, ?_⟩)
  simp only [covers_cons, covers_nil, or_false] at inn cov
  have meets : max fill.range.1 req.1 < min fill.range.2 req.2 := by omega
  simp [joins, opened, intersectRanges, meets]

/-- The fills that are started have the ranges that are left. -/
theorem fresh_ranges (sig : Nat) : (((series.rest req comp).zipIdx series.nextId).map
    fun entry => SharedFill.new entry.2 entry.1 comp sig).map (·.range) = series.rest req comp :=
  List.map_map.trans (zipIdx_map_fst _ _)

end

theorem Exclusive.subscribe (excl : series.Exclusive) (req : Int × Int) (comp : FillCompatibility)
    (sig : Nat) : (series.subscribe req comp sig).1.Exclusive := by
  have joined : ∀ fill : SharedFill, Keeps series.stopped series.stopped fill
      (if series.joins req comp fill then fill.subscribe sig else fill) := by
    intro fill
    split
    · rename_i joins
      simp only [FillSeries.joins, Bool.and_eq_true] at joins
      exact ⟨rfl, rfl, fun _ => joins.1.2⟩
    · exact .refl fill
  have ranges := series.fresh_ranges req comp sig
  have apart : (series.rest req comp).Pairwise fun left right => left.2 ≤ right.1 :=
    (spread_subtractRanges _ _).2
  refine pairwise_append.mpr ⟨excl.map series.nextId joined, ?_, fun left lMem right rMem => ?_⟩
  · rw [← ranges] at apart
    refine (pairwise_map.mp apart).imp fun pre _ _ _ inst left right => ?_
    simp only [covers_cons, covers_nil, or_false] at left right
    omega
  · obtain ⟨fill, mem, rfl⟩ := List.mem_map.mp lMem
    rw [(joined fill).range, (joined fill).compatibility]
    have started := ranges ▸ mem_map_of_mem rMem
    intro opened _ same inst inLeft inRight
    obtain ⟨inn, free⟩ := (series.covers_rest req comp inst).mp
      (inRight.of_subset fun _ one => mem_singleton.mp one ▸ started)
    obtain ⟨entry, -, rfl⟩ := List.mem_map.mp rMem
    obtain rfl : fill.compatibility = comp := same
    exact free (covers_joined series req inn mem ((joined fill).opened opened) inLeft)

theorem Exclusive.apply (excl : series.Exclusive) (event : FillEvent) :
    (series.apply event).Exclusive := by
  have change : ∀ (id : Nat) (step : SharedFill → SharedFill),
      (∀ fill, Keeps series.stopped series.stopped fill (step fill)) →
        (series.change id step).Exclusive := fun id step keeps =>
    excl.map _ fun fill => by
      split
      · exact keeps fill
      · exact .refl fill
  cases event with
  | subscribe request compatibility stopSignal => exact excl.subscribe _ _ _
  | stop stopSignal =>
    have same := @Exclusive.map series (stopSignal :: series.stopped) excl id series.nextId
      fun fill => ⟨rfl, rfl, by simp only [isOpen_iff]; grind⟩
    rwa [List.map_id] at same
  | release id =>
    refine change id _ fun fill => ⟨rfl, rfl, ?_⟩
    simp only [isOpen_iff, SharedFill.release]
    grind
  | expire id stopSignal =>
    refine change id _ fun fill => ?_
    unfold SharedFill.expire
    split
    · refine ⟨rfl, rfl, ?_⟩
      simp only [isOpen_iff]
      grind [mem_of_mem_erase]
    · exact .refl fill
  | remove id => exact excl.filter _

/-- In whatever order requests come and stop, consumers leave and fills end, no instant is fetched
by two open fills of one compatibility, and the fills of the next request cover it. -/
theorem shared_fills_exclusive (events : List FillEvent) (request : Int × Int)
    (compatibility : FillCompatibility) (stopSignal : Nat) :
    let series := events.foldl apply ⟨[], [], 0⟩
    series.Exclusive ∧ ∀ instant, Covers [request] instant →
      Covers ((series.subscribe request compatibility stopSignal).2.map (·.range)) instant := by
  refine ⟨foldlRecOn events _ .nil fun series excl event _ => excl.apply event,
    fun instant inside => ?_⟩
  generalize events.foldl apply ⟨[], [], 0⟩ = series
  rw [subscribe, map_append, fresh_ranges, covers_append, covers_rest, List.map_map]
  exact (em _).imp_right fun free => ⟨inside, free⟩

end FillSeries

end Tqsdk
