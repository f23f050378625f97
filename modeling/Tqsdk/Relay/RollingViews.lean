import Tqsdk.Relay.RollingWriter
import Mathlib.Data.List.Chain

/-!
# Rolling views over runs

Which rows a stream of intents may carry, and what every ring of the writer is while each row joins
rows of its own id run and each new K-line is the newest of its ring.
-/

namespace Tqsdk

open List

open HistoryContainer

/-! ## Rings -/

section Rings

variable {R : Type} {id : R → Int} {ring : List R} {row : R}

theorem hasRow_eq_true : hasRow id ring row = true ↔ ∃ old ∈ ring, id old = id row := by
  simp only [hasRow, any_eq_true, decide_eq_true_eq]

theorem hasRow_eq_false : hasRow id ring row = false ↔ ∀ old ∈ ring, id old ≠ id row := by
  rw [← Bool.not_eq_true, hasRow_eq_true]
  push Not
  rfl

section

variable (nd : (ring.map id).Nodup)

include nd

theorem overwriteRow_eq_map :
    overwriteRow id row ring = ring.map fun old => if id old = id row then row else old := by
  induction ring with
  | nil => rfl
  | cons old ring ih =>
    rw [map_cons, nodup_cons] at nd
    rw [overwriteRow, map_cons]
    by_cases same : id old = id row
    · rw [if_pos same, if_pos same]
      congr 1
      refine (map_id _).symm.trans (map_congr_left fun alt mem => ?_)
      rw [if_neg fun again => nd.1 (by
        rw [same, ← again]
        exact mem_map_of_mem mem)]
      rfl
    · rw [if_neg same, if_neg same, ih nd.2]

theorem map_id_overwriteRow :
    (overwriteRow id row ring).map id = ring.map id := by
  rw [overwriteRow_eq_map nd, map_map]
  refine map_congr_left fun old _ => ?_
  show id (if id old = id row then row else old) = id old
  split
  · rename_i same
    exact same.symm
  · rfl

theorem length_overwriteRow :
    (overwriteRow id row ring).length = ring.length := by
  rw [overwriteRow_eq_map nd, length_map]

theorem mem_overwriteRow {alt : R} :
    alt ∈ overwriteRow id row ring ↔
      (alt = row ∧ hasRow id ring row = true) ∨ (alt ∈ ring ∧ id alt ≠ id row) := by
  rw [overwriteRow_eq_map nd, mem_map, hasRow_eq_true]
  constructor
  · rintro ⟨old, mem, rfl⟩
    by_cases same : id old = id row
    · rw [if_pos same]
      exact .inl ⟨rfl, old, mem, same⟩
    · rw [if_neg same]
      exact .inr ⟨mem, same⟩
  · rintro (⟨rfl, old, mem, same⟩ | ⟨mem, ne⟩)
    · exact ⟨old, mem, if_pos same⟩
    · exact ⟨alt, mem, if_neg ne⟩

theorem forall_overwriteRow {P : R → Prop} (new : P row) (kept : ∀ other ∈ ring, P other) :
    ∀ other ∈ overwriteRow id row ring, P other := by
  intro other member
  rcases (mem_overwriteRow nd).mp member with ⟨rfl, -⟩ | ⟨member, -⟩
  · exact new
  · exact kept other member

end

theorem overwriteRow_eq_self (same : ∀ old ∈ ring, id old = id row → old = row) :
    overwriteRow id row ring = ring := by
  induction ring with
  | nil => rfl
  | cons old ring ih =>
    rw [overwriteRow]
    split
    · rename_i hit
      rw [same old mem_cons_self hit]
    · rw [ih fun alt mem => same alt (mem_cons_of_mem _ mem)]

/-- The row is there once it has overwritten another, and again it overwrites itself. -/
theorem overwriteRow_twice (hit : hasRow id ring row = true) :
    hasRow id (overwriteRow id row ring) row = true ∧
      overwriteRow id row (overwriteRow id row ring) = overwriteRow id row ring := by
  induction ring with
  | nil => cases hit
  | cons old ring ih =>
    rw [overwriteRow]
    by_cases same : id old = id row
    · rw [if_pos same, overwriteRow, if_pos rfl]
      exact ⟨hasRow_eq_true.mpr ⟨row, mem_cons_self, rfl⟩, rfl⟩
    · rw [if_neg same, overwriteRow, if_neg same]
      have post : hasRow id ring row = true := by
        obtain ⟨alt, member, again⟩ := hasRow_eq_true.mp hit
        rcases mem_cons.mp member with rfl | member
        · exact absurd again same
        · exact hasRow_eq_true.mpr ⟨alt, member, again⟩
      obtain ⟨again, twice⟩ := ih post
      obtain ⟨alt, member, equal⟩ := hasRow_eq_true.mp again
      exact ⟨hasRow_eq_true.mpr ⟨alt, mem_cons_of_mem _ member, equal⟩, by rw [twice]⟩

/-- An order by ids and times is kept when the new row has the time of the row it replaces. -/
theorem pairwise_overwriteRow {time : R → Int} {rel : Int × Int → Int × Int → Prop}
    (nd : (ring.map id).Nodup)
    (ord : ring.Pairwise fun left right => rel (id left, time left) (id right, time right))
    (same : ∀ old ∈ ring, id old = id row → time old = time row) :
    (overwriteRow id row ring).Pairwise fun left right =>
      rel (id left, time left) (id right, time right) := by
  have view (old : R) (mem : old ∈ ring) :
      (id (if id old = id row then row else old),
        time (if id old = id row then row else old)) = (id old, time old) := by
    split
    · rename_i hit
      rw [hit, same old mem hit]
    · rfl
  rw [overwriteRow_eq_map nd, pairwise_map]
  refine ord.imp_of_mem fun {left right} lMem rMem related => ?_
  rw [view left lMem, view right rMem]
  exact related

theorem trimRing_sublist (capacity : Nat) (ring : List R) : (trimRing capacity ring).Sublist ring :=
  drop_sublist _ _

theorem length_trimRing (capacity : Nat) (ring : List R) :
    (trimRing capacity ring).length = min ring.length capacity := by
  rw [trimRing, length_drop]
  omega

theorem mem_trimRing_append {capacity : Nat} (pos : 0 < capacity) :
    row ∈ trimRing capacity (ring ++ [row]) := by
  rw [trimRing, drop_append_of_le_length]
  · exact mem_append_right _ (mem_singleton_self row)
  · rw [length_append, length_singleton]
    omega

theorem forall_trimRing_append {capacity : Nat} {P : R → Prop} (new : P row)
    (kept : ∀ other ∈ ring, P other) : ∀ other ∈ trimRing capacity (ring ++ [row]), P other := by
  intro other member
  rcases mem_append.mp ((trimRing_sublist _ _).subset member) with member | member
  · exact kept other member
  · rwa [mem_singleton.mp member]

theorem pairwise_trimRing_append {capacity : Nat} {S : R → R → Prop} (kept : ring.Pairwise S)
    (newest : ∀ other ∈ ring, S other row) : (trimRing capacity (ring ++ [row])).Pairwise S := by
  refine List.Pairwise.sublist (trimRing_sublist _ _) ?_
  refine pairwise_append.mpr ⟨kept, pairwise_singleton _ _, fun other member last isLast => ?_⟩
  rw [mem_singleton.mp isLast]
  exact newest other member

theorem trimRing_eq_self {capacity : Nat} (few : ring.length ≤ capacity) :
    trimRing capacity ring = ring := by
  rw [trimRing, Nat.sub_eq_zero_of_le few, drop_zero]

end Rings

/-! ## What a stream of ticks may carry -/

/-- What was sent of a symbol: the ticks with the id run each is of, and the last new one. -/
structure Upstream where
  run : Nat
  last : Option Tick
  sent : List (Nat × Tick)

/-- Ids go on, by one or by more; a tick that was sent comes again; or a lower id starts a new id
run at a later time. -/
inductive Upstream.Sends : Upstream → Nat → Tick → Upstream → Prop
  | first {up : Upstream} {tick : Tick} (fresh : up.last = none) :
      Sends up up.run tick ⟨up.run, some tick, (up.run, tick) :: up.sent⟩
  | onward {up : Upstream} {tick last : Tick} (isLast : up.last = some last)
      (ahead : last.id < tick.id) (later : last.datetime ≤ tick.datetime) :
      Sends up up.run tick ⟨up.run, some tick, (up.run, tick) :: up.sent⟩
  | again {up : Upstream} {run : Nat} {tick earlier : Tick} (sent : (run, earlier) ∈ up.sent)
      (sameId : earlier.id = tick.id) (sameTime : earlier.datetime = tick.datetime) :
      Sends up run tick up
  | restart {up : Upstream} {tick last : Tick} (isLast : up.last = some last)
      (lower : tick.id < last.id) (later : last.datetime < tick.datetime) :
      Sends up (up.run + 1) tick ⟨up.run + 1, some tick, (up.run + 1, tick) :: up.sent⟩

namespace Upstream

/-- A row is of an id run when the run has a tick with its id and its time. -/
def RunOf (up : Upstream) (row : Tick) (run : Nat) : Prop :=
  ∃ tick, (run, tick) ∈ up.sent ∧ tick.id = row.id ∧ tick.datetime = row.datetime

structure Sound (up : Upstream) : Prop where
  fresh : up.last = none → up.sent = []
  lastSent : ∀ last, up.last = some last → (up.run, last) ∈ up.sent
  upTo : ∀ last, up.last = some last → ∀ entry ∈ up.sent, entry.1 ≤ up.run ∧
    entry.2.datetime ≤ last.datetime ∧ (entry.1 = up.run → entry.2.id ≤ last.id)
  within : ∀ left ∈ up.sent, ∀ right ∈ up.sent, left.1 = right.1 →
    (left.2.id < right.2.id → left.2.datetime ≤ right.2.datetime) ∧
      (left.2.id = right.2.id → left.2.datetime = right.2.datetime)
  between : ∀ left ∈ up.sent, ∀ right ∈ up.sent, left.1 < right.1 →
    left.2.datetime < right.2.datetime

def empty : Upstream := ⟨0, none, []⟩

theorem sound_empty : empty.Sound := by
  constructor
  · exact fun _ => rfl
  · exact fun _ absurd => by cases absurd
  · exact fun _ absurd => by cases absurd
  · exact forall_mem_nil _
  · exact forall_mem_nil _

variable {up next : Upstream} {run : Nat} {tick : Tick}

theorem Sends.mem_sent (sends : up.Sends run tick next) :
    ∃ same, (run, same) ∈ next.sent ∧ same.id = tick.id ∧ same.datetime = tick.datetime := by
  cases sends with
  | first new => exact ⟨tick, mem_cons_self, rfl, rfl⟩
  | onward last ahead post => exact ⟨tick, mem_cons_self, rfl, rfl⟩
  | again sent sameId sameTime => exact ⟨_, sent, sameId, sameTime⟩
  | restart last lower post => exact ⟨tick, mem_cons_self, rfl, rfl⟩

theorem Sends.sent_subset (sends : up.Sends run tick next) : ∀ ent ∈ up.sent,
    ent ∈ next.sent := by
  cases sends with
  | first new => exact fun ent => mem_cons_of_mem _
  | onward last ahead post => exact fun ent => mem_cons_of_mem _
  | again sent sameId same => exact fun ent => id
  | restart last lower post => exact fun ent => mem_cons_of_mem _

theorem RunOf.mono {row : Tick} {alt : Nat} (sends : up.Sends run tick next)
    (of : up.RunOf row alt) : next.RunOf row alt :=
  of.imp fun _ hit => ⟨sends.sent_subset _ hit.1, hit.2⟩

theorem Sends.runOf (sends : up.Sends run tick next) : next.RunOf tick run :=
  sends.mem_sent

/-- A tick of the current run or of the next one, behind everything that was sent. -/
theorem Sound.send (snd : up.Sound) (upRun : up.run ≤ run)
    (post : ∀ ent ∈ up.sent, ent.2.datetime ≤ tick.datetime ∧
      (ent.1 < run → ent.2.datetime < tick.datetime) ∧ (ent.1 = run → ent.2.id < tick.id)) :
    Sound ⟨run, some tick, (run, tick) :: up.sent⟩ := by
  have runs (ent : Nat × Tick) (member : ent ∈ up.sent) : ent.1 ≤ run := by
    cases fin : up.last with
    | none =>
      rw [snd.fresh fin] at member
      cases member
    | some last => exact (snd.upTo last fin ent member).1.trans upRun
  refine ⟨nofun, ?_, ?_, ?_, ?_⟩
  · intro last fin
    obtain rfl := Option.some.inj fin
    exact mem_cons_self
  · intro last fin ent member
    obtain rfl := Option.some.inj fin
    rcases mem_cons.mp member with rfl | member
    · exact ⟨le_rfl, le_rfl, fun _ => le_rfl⟩
    · have lag := post ent member
      exact ⟨runs ent member, lag.1, fun same => (lag.2.2 same).le⟩
  · intro left leftMember right rightMember same
    rcases mem_cons.mp leftMember with rfl | leftMember <;>
      rcases mem_cons.mp rightMember with rfl | rightMember
    · exact ⟨fun _ => le_rfl, fun _ => rfl⟩
    · have := (post right rightMember).2.2 same.symm
      dsimp only
      constructor <;> intro <;> omega
    · have lag := post left leftMember
      have := lag.2.2 same
      dsimp only
      constructor <;> intro <;> omega
    · exact snd.within left leftMember right rightMember same
  · intro left leftMember right rightMember less
    rcases mem_cons.mp leftMember with rfl | leftMember <;>
      rcases mem_cons.mp rightMember with rfl | rightMember
    · exact absurd less (lt_irrefl _)
    · have := runs right rightMember
      dsimp only at less
      omega
    · exact (post left leftMember).2.1 less
    · exact snd.between left leftMember right rightMember less

theorem Sends.sound (sends : up.Sends run tick next) (snd : up.Sound) : next.Sound := by
  cases sends with
  | first new =>
    refine snd.send le_rfl fun ent mem => ?_
    rw [snd.fresh new] at mem
    cases mem
  | onward fin ahead post =>
    rename_i last
    refine snd.send le_rfl fun ent mem => ?_
    have bnd := snd.upTo last fin ent mem
    refine ⟨bnd.2.1.trans post, fun less => ?_, fun same => (bnd.2.2 same).trans_lt ahead⟩
    exact (snd.between ent mem _ (snd.lastSent last fin) less).trans_le post
  | again sent sameId sameTime => exact snd
  | restart fin lower post =>
    rename_i last
    refine snd.send (Nat.le_succ _) fun ent mem => ?_
    have bnd := snd.upTo last fin ent mem
    have pre := bnd.2.1.trans_lt post
    exact ⟨pre.le, fun _ => pre, fun same => by omega⟩

/-- A row is of one id run only. -/
theorem Sound.unique (sound : up.Sound) {row : Tick} {left right : Nat}
    (ofLeft : up.RunOf row left) (ofRight : up.RunOf row right) : left = right := by
  obtain ⟨hd, firstSent, -, firstTime⟩ := ofLeft
  obtain ⟨snd, secondSent, -, secondTime⟩ := ofRight
  have forward := sound.between _ firstSent _ secondSent
  have backward := sound.between _ secondSent _ firstSent
  dsimp only at forward backward
  omega

/-- Rows of one id run have times in the order of their ids. -/
theorem Sound.times (sound : up.Sound) {left right : Tick} {run : Nat}
    (ofLeft : up.RunOf left run) (ofRight : up.RunOf right run) :
    (left.id < right.id → left.datetime ≤ right.datetime) ∧
      (left.id = right.id → left.datetime = right.datetime) := by
  obtain ⟨hd, firstSent, firstId, firstTime⟩ := ofLeft
  obtain ⟨snd, secondSent, secondId, secondTime⟩ := ofRight
  have ord := sound.within _ firstSent _ secondSent rfl
  dsimp only at ord
  rwa [firstId, firstTime, secondId, secondTime] at ord

end Upstream

/-! ## Rings of ticks -/

/-- What the ring of a symbol is in front of a tick and behind it. -/
structure GoodTicks (capacity : Nat) (up : Upstream) (ring : List Tick) : Prop where
  few : ring.length ≤ capacity
  fits : ring.length ≤ tickMaxRows
  consecutive : (ring.map Tick.id).IsChain fun left right => right = left + 1
  ordered : ring.Pairwise fun left right => left.datetime ≤ right.datetime
  stored : ∀ row ∈ ring, row.Stored
  ends : ∀ row ∈ ring, row.datetime < I64.maximum
  oneRun : ∃ run, ∀ row ∈ ring, up.RunOf row run

/-- A tick meets its ring.  It has a name and a time that a view can have; where it joins the ring
beside other rows, these are of its id run; and where it makes the ring longer, the ring has fewer
rows than a block may have. -/
structure TickMeets (capacity : Nat) (up : Upstream) (ring : List Tick) (symbol : String)
    (run : Nat) (tick : Tick) : Prop where
  named : symbol ≠ "" ∧ symbol.utf8ByteSize ≤ 4096
  ends : tick.datetime < I64.maximum
  joins : capacity = 1 ∨ (hasRow Tick.id ring tick = false ∧ isDiscontinuity ring tick = true) ∨
    ∀ row ∈ ring, row.id ≠ tick.id → up.RunOf row run
  room : hasRow Tick.id ring tick = true ∨ isDiscontinuity ring tick = true ∨
    ring.length < tickMaxRows ∨ capacity ≤ tickMaxRows

variable {capacity : Nat}

theorem GoodTicks.distinct {up : Upstream} {ring : List Tick} (good : GoodTicks capacity up ring) :
    (ring.map Tick.id).Nodup := by
  have less : (ring.map Tick.id).IsChain (· < ·) := good.consecutive.imp fun _ _ next => by omega
  exact less.pairwise.imp fun pre => pre.ne

theorem goodTicks_singleton (pos : 0 < capacity) {up next : Upstream} {run : Nat} {tick : Tick}
    (sends : up.Sends run tick next) (got : tick.Stored) (ends : tick.datetime < I64.maximum) :
    GoodTicks capacity next [tick] where
  few := pos
  fits := show 1 ≤ tickMaxRows by decide
  consecutive := .singleton _
  ordered := pairwise_singleton _ _
  stored := fun row mem => by rwa [mem_singleton.mp mem]
  ends := fun row mem => by rwa [mem_singleton.mp mem]
  oneRun := ⟨run, fun row mem => by
    rw [mem_singleton.mp mem]
    exact sends.runOf⟩

theorem trimRing_append_one {R : Type} {ring : List R} {row : R} :
    trimRing 1 (ring ++ [row]) = [row] := by
  rw [trimRing, length_append, length_singleton, Nat.add_sub_cancel]
  exact drop_left' rfl

section PushTick

variable {up next : Upstream} {ring : List Tick} {sym : String} {run : Nat} {tick : Tick}
  (good : GoodTicks capacity up ring) (pos : 0 < capacity) (sound : up.Sound)
  (sends : up.Sends run tick next) (got : tick.Stored)
  (meets : TickMeets capacity up ring sym run tick)

include good pos sound sends got meets

/-- A tick that replaces a row. -/
theorem GoodTicks.overwrite (here : hasRow Tick.id ring tick = true) :
    GoodTicks capacity next (overwriteRow Tick.id tick ring) := by
  have alone := goodTicks_singleton pos sends got meets.ends
  obtain ⟨ringRun, inRun⟩ := good.oneRun
  have nextSound := sends.sound sound
  by_cases alts : ∃ row ∈ ring, row.id ≠ tick.id
  · obtain ⟨other, altM, ne⟩ := alts
    -- A ring of two rows has room for them, so the other row is of the tick's id run.
    have joined : up.RunOf other run := by
      rcases meets.joins with one | ⟨absurd, -⟩ | joined
      · obtain ⟨old, member, same⟩ := hasRow_eq_true.mp here
        have few := good.few
        rw [one] at few
        obtain ⟨only, rfl⟩ := length_eq_one_iff.mp (le_antisymm few (length_pos_of_mem member))
        rw [mem_singleton.mp member, ← mem_singleton.mp altM] at same
        exact absurd same ne
      · rw [here] at absurd
        cases absurd
      · exact joined other altM ne
    obtain rfl := sound.unique (inRun other altM) joined
    have times (old : Tick) (member : old ∈ ring) (same : old.id = tick.id) :
        old.datetime = tick.datetime :=
      (nextSound.times ((inRun old member).mono sends) sends.runOf).2 same
    refine ⟨?_, ?_, ?_, ?_, ?_, ?_, ringRun, ?_⟩
    · rw [length_overwriteRow good.distinct]
      exact good.few
    · rw [length_overwriteRow good.distinct]
      exact good.fits
    · rw [map_id_overwriteRow good.distinct]
      exact good.consecutive
    · exact @pairwise_overwriteRow _ Tick.id ring tick Tick.datetime
        (fun left right => left.2 ≤ right.2) good.distinct good.ordered times
    · exact forall_overwriteRow good.distinct got good.stored
    · exact forall_overwriteRow good.distinct meets.ends good.ends
    · exact forall_overwriteRow good.distinct sends.runOf
        fun row member => (inRun row member).mono sends
  · -- Without other rows the ring is the row that the tick replaces.
    push Not at alts
    have single : overwriteRow Tick.id tick ring = [tick] := by
      have nd := good.distinct
      cases ring with
      | nil => cases here
      | cons hd rest =>
        cases rest with
        | nil => rw [overwriteRow, if_pos (alts hd mem_cons_self)]
        | cons snd rest =>
          have same := (alts hd mem_cons_self).trans
            (alts snd (mem_cons_of_mem _ mem_cons_self)).symm
          rw [map_cons, map_cons, nodup_cons, same] at nd
          exact absurd mem_cons_self nd.1
    rw [single]
    exact alone

/-- A tick that follows the last row. -/
theorem GoodTicks.append (here : hasRow Tick.id ring tick = false)
    (gap : isDiscontinuity ring tick = false) :
    GoodTicks capacity next (trimRing capacity (ring ++ [tick])) := by
  have alone := goodTicks_singleton pos sends got meets.ends
  have nextSound := sends.sound sound
  by_cases one : capacity = 1
  · rw [one] at alone ⊢
    rwa [trimRing_append_one]
  have joined (row : Tick) (member : row ∈ ring) : up.RunOf row run := by
    rcases meets.joins with isOne | ⟨-, absurd⟩ | joined
    · exact absurd isOne one
    · rw [gap] at absurd
      cases absurd
    · exact joined row member (hasRow_eq_false.mp here row member)
  have nxt (last : Tick) (fin : ring.getLast? = some last) :
      tick.id = last.id + 1 := by
    have member := mem_of_getLast? fin
    have ne := hasRow_eq_false.mp here last member
    have inR := (good.stored last member).idInRange
    have succ : tick.id = I64.saturated (last.id + 1) := by
      rw [isDiscontinuity, fin, Option.any_some, decide_eq_false_iff_not, not_not] at gap
      exact gap
    unfold I64.InRange at inR
    unfold I64.saturated at succ
    omega
  have ahead (row : Tick) (member : row ∈ ring) : row.id < tick.id := by
    have less : (ring.map Tick.id).IsChain (· < ·) :=
      good.consecutive.imp fun _ _ next => by omega
    rcases eq_nil_or_concat ring with rfl | ⟨front, last, rfl⟩
    · cases member
    rw [concat_eq_append] at *
    have next := nxt last getLast?_concat
    rcases mem_append.mp member with member | member
    · have ord := less.pairwise
      rw [map_append, pairwise_append] at ord
      have := ord.2.2 row.id (mem_map_of_mem member) last.id (by simp)
      omega
    · rw [mem_singleton.mp member]
      omega
  refine ⟨?_, ?_, ?_, ?_, ?_, ?_, run, ?_⟩
  · rw [length_trimRing]
    exact min_le_right _ _
  · rw [length_trimRing, length_append, length_singleton]
    rcases meets.room with absurd | absurd | room | room
    · rw [here] at absurd
      cases absurd
    · rw [gap] at absurd
      cases absurd
    · exact (min_le_left _ _).trans room
    · exact (min_le_right _ _).trans room
  · rw [trimRing, map_drop]
    refine List.IsChain.drop ?_ _
    rw [map_append]
    refine good.consecutive.append (.singleton _) fun last fin hd fst => ?_
    rw [getLast?_map] at fin
    obtain ⟨row, isRow, rfl⟩ := Option.map_eq_some_iff.mp fin
    obtain rfl := Option.some.inj fst
    exact nxt row isRow
  · refine pairwise_trimRing_append good.ordered fun row member => ?_
    exact (nextSound.times ((joined row member).mono sends) sends.runOf).1 (ahead row member)
  · exact forall_trimRing_append got good.stored
  · exact forall_trimRing_append meets.ends good.ends
  · exact forall_trimRing_append sends.runOf fun row member => (joined row member).mono sends

/-- What a tick of the stream leaves, unless the ring mixes id runs or outgrows a block. -/
theorem GoodTicks.pushTick :
    GoodTicks capacity next (pushTick capacity ring tick) ∧ tick ∈ pushTick capacity ring tick := by
  unfold Tqsdk.pushTick
  cases here : hasRow Tick.id ring tick with
  | true =>
    rw [if_pos rfl, trimRing_eq_self (by rw [length_overwriteRow good.distinct]; exact good.few)]
    exact ⟨good.overwrite pos sound sends got meets here,
      (mem_overwriteRow good.distinct).mpr (.inl ⟨rfl, here⟩)⟩
  | false =>
    rw [if_neg (by simp)]
    cases gap : isDiscontinuity ring tick with
    | true =>
      rw [if_pos rfl, trimRing_eq_self pos]
      exact ⟨goodTicks_singleton pos sends got meets.ends, mem_singleton_self tick⟩
    | false =>
      rw [if_neg (by simp)]
      exact ⟨good.append pos sound sends got meets here gap, mem_trimRing_append pos⟩

end PushTick

/-! ## Rings of K-lines -/

/-- The times of K-lines increase with their ids, in whatever order they arrive. -/
def KlineArrives (sent : List StoredKline) (row : StoredKline) : Prop :=
  ∀ earlier ∈ sent, (earlier.id < row.id → earlier.datetime < row.datetime) ∧
    (row.id < earlier.id → row.datetime < earlier.datetime) ∧
      (earlier.id = row.id → earlier.datetime = row.datetime)

/-- What the ring of K-lines is behind the rows that were sent. -/
structure GoodKlines (capacity : Nat) (sent ring : List StoredKline) : Prop where
  few : ring.length ≤ capacity
  fits : ring.length * klineBytes ≤ maxBlockBytes
  ids : ring.Pairwise fun left right => left.id < right.id
  ordered : ring.Pairwise fun left right => left.datetime < right.datetime
  stored : ∀ row ∈ ring, row.Stored
  ends : ∀ row ∈ ring, row.datetime < I64.maximum
  known : ∀ row ∈ ring, ∃ earlier ∈ sent, earlier.id = row.id ∧ earlier.datetime = row.datetime
  largest : ∀ earlier ∈ sent, (∃ row ∈ ring, row.id = earlier.id) ∨
    (ring.length = capacity ∧ ∀ row ∈ ring, earlier.id < row.id)

/-- A K-line meets its ring: a view can have it, and it replaces a row or is newer than all. -/
structure KlineMeets (capacity : Nat) (ring : List StoredKline) (symbol : String)
    (durationNs : Int) (row : StoredKline) : Prop where
  named : symbol ≠ "" ∧ symbol.utf8ByteSize ≤ 4096
  positive : 0 < durationNs
  ends : row.datetime < I64.maximum
  newest : hasRow StoredKline.id ring row = true ∨ ∀ kept ∈ ring, kept.id < row.id
  room : hasRow StoredKline.id ring row = true ∨
    (ring.length + 1) * klineBytes ≤ maxBlockBytes ∨ capacity * klineBytes ≤ maxBlockBytes

/-- What a K-line leaves that replaces a row or is newer than all. -/
theorem GoodKlines.pushKline {sent ring : List StoredKline} {sym : String} {dur : Int}
    {row : StoredKline} (good : GoodKlines capacity sent ring) (pos : 0 < capacity)
    (arrives : KlineArrives sent row) (got : row.Stored)
    (meets : KlineMeets capacity ring sym dur row) :
    GoodKlines capacity (row :: sent) (pushKline capacity ring row) ∧
      row ∈ pushKline capacity ring row := by
  have nd : (ring.map StoredKline.id).Nodup := pairwise_map.mpr (good.ids.imp fun pre => pre.ne)
  unfold Tqsdk.pushKline
  cases here : hasRow StoredKline.id ring row with
  | true =>
    rw [if_pos rfl, trimRing_eq_self (by rw [length_overwriteRow nd]; exact good.few)]
    have new : row ∈ overwriteRow StoredKline.id row ring :=
      (mem_overwriteRow nd).mpr (.inl ⟨rfl, here⟩)
    have times (old : StoredKline) (member : old ∈ ring)
        (same : old.id = row.id) : old.datetime = row.datetime := by
      obtain ⟨prior, isSent, sameId, sameTime⟩ := good.known old member
      rw [← sameTime]
      exact (arrives prior isSent).2.2 (sameId.trans same)
    refine ⟨⟨?_, ?_, ?_, ?_, ?_, ?_, ?_, ?_⟩, new⟩
    · rw [length_overwriteRow nd]
      exact good.few
    · rw [length_overwriteRow nd]
      exact good.fits
    · exact @pairwise_overwriteRow _ StoredKline.id ring row StoredKline.datetime
        (fun left right => left.1 < right.1) nd good.ids times
    · exact @pairwise_overwriteRow _ StoredKline.id ring row StoredKline.datetime
        (fun left right => left.2 < right.2) nd good.ordered times
    · exact forall_overwriteRow nd got good.stored
    · exact forall_overwriteRow nd meets.ends good.ends
    · exact forall_overwriteRow nd ⟨row, mem_cons_self, rfl, rfl⟩ fun other member =>
        (good.known other member).imp fun _ hit => ⟨mem_cons_of_mem _ hit.1, hit.2⟩
    · intro prior member
      rcases mem_cons.mp member with rfl | member
      · exact .inl ⟨prior, new, rfl⟩
      have ids := @map_id_overwriteRow _ _ _ row nd
      rcases good.largest prior member with ⟨kept, keptMember, same⟩ | ⟨full, lt⟩
      · have mem : kept.id ∈ (overwriteRow StoredKline.id row ring).map StoredKline.id := by
          rw [ids]
          exact mem_map_of_mem keptMember
        obtain ⟨hit, foundMember, again⟩ := mem_map.mp mem
        exact .inl ⟨hit, foundMember, again.trans same⟩
      · refine .inr ⟨by rw [length_overwriteRow nd]; exact full, fun other member => ?_⟩
        rcases (mem_overwriteRow nd).mp member with ⟨rfl, has⟩ | ⟨member, -⟩
        · obtain ⟨old, member, same⟩ := hasRow_eq_true.mp has
          rw [← same]
          exact lt old member
        · exact lt other member
  | false =>
    rw [if_neg (by simp)]
    have ahead : ∀ kept ∈ ring, kept.id < row.id := by
      rcases meets.newest with absurd | ahead
      · rw [here] at absurd
        cases absurd
      · exact ahead
    have new : row ∈ trimRing capacity (ring ++ [row]) := mem_trimRing_append pos
    have mem : ∀ other ∈ trimRing capacity (ring ++ [row]), other ∈ ring ∨ other = row :=
      fun other member => (mem_append.mp ((trimRing_sublist _ _).subset member)).imp_right
        mem_singleton.mp
    refine ⟨⟨?_, ?_, ?_, ?_, ?_, ?_, ?_, ?_⟩, new⟩
    · rw [length_trimRing]
      exact min_le_right _ _
    · rw [length_trimRing, length_append, length_singleton]
      rcases meets.room with absurd | room | room
      · rw [here] at absurd
        cases absurd
      · exact (Nat.mul_le_mul_right _ (min_le_left _ _)).trans room
      · exact (Nat.mul_le_mul_right _ (min_le_right _ _)).trans room
    · exact pairwise_trimRing_append good.ids ahead
    · refine pairwise_trimRing_append good.ordered fun kept member => ?_
      obtain ⟨prior, isSent, sameId, sameTime⟩ := good.known kept member
      rw [← sameTime]
      exact (arrives prior isSent).1 (sameId ▸ ahead kept member)
    · exact forall_trimRing_append got good.stored
    · exact forall_trimRing_append meets.ends good.ends
    · exact forall_trimRing_append ⟨row, mem_cons_self, rfl, rfl⟩ fun other member =>
        (good.known other member).imp fun _ hit => ⟨mem_cons_of_mem _ hit.1, hit.2⟩
    · intro prior member
      rcases mem_cons.mp member with rfl | member
      · exact .inl ⟨prior, new, rfl⟩
      rcases Nat.lt_or_ge ring.length capacity with open_ | full
      · -- A ring with room drops nothing.
        rw [trimRing_eq_self (by rw [length_append]; exact open_)]
        rcases good.largest prior member with ⟨kept, keptMember, same⟩ | ⟨full, -⟩
        · exact .inl ⟨kept, mem_append_left _ keptMember, same⟩
        · omega
      cases ring with
      | nil => exact absurd pos (by simpa using full)
      | cons hd rest =>
        have full : (hd :: rest).length = capacity := le_antisymm good.few full
        have trim : trimRing capacity (hd :: rest ++ [row]) = rest ++ [row] := by
          rw [trimRing, length_append, full, length_singleton, Nat.add_sub_cancel_left]
          rfl
        rw [trim]
        have len : (rest ++ [row]).length = capacity := by
          rw [length_append, length_singleton, ← full, length_cons]
        have firstLess := (pairwise_cons.mp good.ids).1
        have firstAhead := ahead hd mem_cons_self
        rcases good.largest prior member with ⟨kept, keptMember, same⟩ | ⟨-, lt⟩
        · rcases mem_cons.mp keptMember with rfl | keptMember
          · refine .inr ⟨len, fun other member => ?_⟩
            rw [← same]
            rcases mem_append.mp member with member | member
            · exact firstLess other member
            · rwa [mem_singleton.mp member]
          · exact .inl ⟨kept, mem_append_left _ keptMember, same⟩
        · refine .inr ⟨len, fun other member => ?_⟩
          rcases mem_append.mp member with member | member
          · exact lt other (mem_cons_of_mem _ member)
          · rw [mem_singleton.mp member]
            exact (lt hd mem_cons_self).trans firstAhead

end Tqsdk
