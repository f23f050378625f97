import Tqsdk.Relay.KeySteps

/-!
# Bars that cover ticks and quotes

A synthesizer that is fed with rows whose times and ids do not decrease drops none of them: its
bars cover the rows of their windows, and a window is completed by the first row after it.
-/

namespace Tqsdk

open List Option

/-- The row lies in the window of the bar. -/
def InWindow (durationNs : Int) (bar : RelayKlineRow) (row : RelayTickRow) : Prop :=
  bar.datetime ≤ row.datetime ∧ row.datetime < bar.datetime + durationNs

instance (durationNs : Int) (bar : RelayKlineRow) (row : RelayTickRow) :
    Decidable (InWindow durationNs bar row) :=
  inferInstanceAs (Decidable (_ ∧ _))

/-- The bar spans the prices of its window, and closes with the last one. -/
structure Covers (durationNs : Int) (rows : List RelayTickRow) (bar : RelayKlineRow) : Prop where
  aligned : durationNs ∣ bar.datetime
  prices : ∀ row ∈ rows, InWindow durationNs bar row → row.lastPrice ≠ .nan →
    bar.low ≤ row.lastPrice ∧ row.lastPrice ≤ bar.high
  close : ∃ earlier last later, rows = earlier ++ last :: later ∧ InWindow durationNs bar last ∧
    (∀ row ∈ later, ¬InWindow durationNs bar row) ∧ bar.close = last.lastPrice

/-- Completed bars as they should be. -/
structure Complete (durationNs : Int) (rows : List RelayTickRow) (bars : List RelayKlineRow) :
    Prop where
  covers : ∀ bar ∈ bars, Covers durationNs rows bar
  increasing : bars.Pairwise fun earlier later => earlier.datetime < later.datetime
  numbered : bars.map (·.id) = (List.range bars.length).map Int.ofNat
  ended : ∀ bar ∈ bars, ∃ later ∈ rows, bar.datetime + durationNs ≤ later.datetime
  prompt : ∀ row ∈ rows, ∀ later ∈ rows,
    windowStart row.datetime durationNs + durationNs ≤ later.datetime →
      ∃ bar ∈ bars, InWindow durationNs bar row

section Windows

variable {durationNs : Int}

theorem dvd_windowStart (dt durationNs : Int) :
    durationNs ∣ windowStart dt durationNs := Dvd.intro_left _ rfl

theorem windowStart_le (pos : 0 < durationNs) (dt : Int) :
    windowStart dt durationNs ≤ dt ∧ dt < windowStart dt durationNs + durationNs := by
  have split := Int.mul_ediv_add_emod dt durationNs
  have low := Int.emod_nonneg dt pos.ne'
  have high := Int.emod_lt_of_pos dt pos
  rw [windowStart, Int.mul_comm]
  omega

theorem windowStart_mono (pos : 0 < durationNs) {pre post : Int}
    (ord : pre ≤ post) : windowStart pre durationNs ≤ windowStart post durationNs :=
  Int.mul_le_mul_of_nonneg_right (Int.ediv_le_ediv pos ord) pos.le

theorem add_le_of_aligned {hd snd : Int} (alignedFirst : durationNs ∣ hd)
    (alignedSecond : durationNs ∣ snd) (pre : hd < snd) (pos : 0 < durationNs) :
    hd + durationNs ≤ snd := by
  obtain ⟨left, rfl⟩ := alignedFirst
  obtain ⟨right, rfl⟩ := alignedSecond
  have less : left < right := Int.lt_of_mul_lt_mul_left pre pos.le
  have next := Int.mul_le_mul_of_nonneg_left (show left + 1 ≤ right from less) pos.le
  rw [Int.mul_add, Int.mul_one] at next
  exact next

theorem inWindow_iff (pos : 0 < durationNs) {bar : RelayKlineRow}
    (algn : durationNs ∣ bar.datetime) {row : RelayTickRow} :
    InWindow durationNs bar row ↔ windowStart row.datetime durationNs = bar.datetime := by
  obtain ⟨low, high⟩ := windowStart_le pos row.datetime
  constructor
  · rintro ⟨post, pre⟩
    rcases lt_trichotomy (windowStart row.datetime durationNs) bar.datetime with less | same | more
    · have sep := add_le_of_aligned (dvd_windowStart _ _) algn less pos
      omega
    · exact same
    · have sep := add_le_of_aligned algn (dvd_windowStart _ _) more pos
      omega
  · intro same
    rw [InWindow, ← same]
    exact ⟨low, high⟩

end Windows

/-! ## One synthesizer -/

/-- The state of a synthesizer that has dropped none of the rows. -/
structure Accounts (durationNs : Int) (rows : List RelayTickRow) (synthesis : KlineSynthesis)
    (bars : List RelayKlineRow) : Prop where
  duration : synthesis.durationNs = durationNs
  lastTickId : synthesis.lastTickId = rows.getLast?.map (·.id)
  fresh : synthesis.current = none → rows = [] ∧ bars = []
  current : ∀ bar, synthesis.current = some bar → Covers durationNs rows bar.row ∧
    (∀ row ∈ rows, windowStart row.datetime durationNs ≤ bar.row.datetime) ∧
    ∀ completed ∈ bars, completed.datetime < bar.row.datetime
  covers : ∀ bar ∈ bars, Covers durationNs rows bar
  increasing : bars.Pairwise fun earlier later => earlier.datetime < later.datetime
  found : ∀ row ∈ rows, (∃ bar ∈ bars, windowStart row.datetime durationNs = bar.datetime) ∨
    ∃ bar, synthesis.current = some bar ∧ windowStart row.datetime durationNs = bar.row.datetime

variable {rows : List RelayTickRow} {row : RelayTickRow}

section

variable {durationNs : Int}

theorem Covers.snoc {bar : RelayKlineRow} (cov : Covers durationNs rows bar)
    (outs : ¬InWindow durationNs bar row) : Covers durationNs (rows ++ [row]) bar := by
  obtain ⟨pre, last, post, rfl, inn, none, close⟩ := cov.close
  refine ⟨cov.aligned, fun alt mem held => ?_, pre, last, post ++ [row], by simp,
    inn, fun alt mem => ?_, close⟩
  · rcases mem_append.mp mem with old | new
    · exact cov.prices alt old held
    · rw [mem_singleton.mp new] at held
      exact absurd held outs
  · rcases mem_append.mp mem with old | new
    · exact none alt old
    · rw [mem_singleton.mp new]
      exact outs

theorem covers_newBar (pos : 0 < durationNs) {rows : List RelayTickRow} {row : RelayTickRow}
    (id : Int) (pre : ∀ alt ∈ rows, windowStart alt.datetime durationNs <
      windowStart row.datetime durationNs) :
    Covers durationNs (rows ++ [row])
      (MutableKline.newBar id (windowStart row.datetime durationNs) row).row := by
  have algn := dvd_windowStart row.datetime durationNs
  refine ⟨algn, fun alt mem held num => ?_, rows, row, [], rfl, ?_, nofun, rfl⟩
  · rcases mem_append.mp mem with old | new
    · have same := (inWindow_iff pos algn).mp held
      exact absurd same (pre alt old).ne
    · obtain rfl := mem_singleton.mp new
      exact ⟨F64.le_self num, F64.le_self num⟩
  · exact (inWindow_iff pos algn).mpr rfl

theorem Covers.mergeTick {cur : MutableKline} (cov : Covers durationNs rows cur.row)
    (inn : InWindow durationNs cur.row row) :
    Covers durationNs (rows ++ [row]) (cur.mergeTick row).row := by
  refine ⟨cov.aligned, fun alt mem held num => ?_, rows, row, [], rfl, inn, nofun, rfl⟩
  rcases mem_append.mp mem with old | new
  · obtain ⟨low, high⟩ := cov.prices alt old held num
    exact ⟨F64.le_trans (F64.min_le_left (F64.ne_nan_of_le low).1) low,
      F64.le_trans high (F64.le_max_left (F64.ne_nan_of_le high).2)⟩
  · obtain rfl := mem_singleton.mp new
    exact ⟨F64.min_le_right num, F64.le_max_right num⟩

theorem Covers.finalize {cur : MutableKline} (cov : Covers durationNs rows cur.row) :
    Covers durationNs rows cur.finalize :=
  ⟨cov.aligned, cov.prices, cov.close⟩

theorem Accounts.pushTick (pos : 0 < durationNs) {synth : KlineSynthesis}
    {bars : List RelayKlineRow} (accs : Accounts durationNs rows synth bars)
    (ids : ∀ alt ∈ rows, alt.id ≤ row.id) (times : ∀ alt ∈ rows, alt.datetime ≤ row.datetime) :
    Accounts durationNs (rows ++ [row]) (synth.pushTick row).1
      (bars ++ (synth.pushTick row).2) := by
  have los : ∀ alt ∈ rows, windowStart alt.datetime durationNs ≤
      windowStart row.datetime durationNs := fun alt mem =>
    windowStart_mono pos (times alt mem)
  have current_le : ∀ bar, synth.current = some bar →
      bar.row.datetime ≤ windowStart row.datetime durationNs := by
    intro bar here
    obtain ⟨prior, last, later, same, inn, -⟩ := (accs.current bar here).1.close
    have lo := (inWindow_iff pos (accs.current bar here).1.aligned).mp inn
    rw [← lo]
    exact los last (by rw [same]; simp)
  have cnt : synth.ignores row = false := by
    rw [KlineSynthesis.ignores, Bool.or_eq_false_iff, Option.any_eq_false, Option.any_eq_false,
      accs.lastTickId, accs.duration]
    refine ⟨fun lastId hit => ?_, fun bar here => ?_⟩
    · obtain ⟨last, mem, rfl⟩ := map_eq_some_iff.mp hit
      have := ids last (mem_of_getLast? mem)
      simpa using this
    · simpa using current_le bar here
  have lastTickId : some row.id = (rows ++ [row]).getLast?.map (·.id) := by simp
  unfold KlineSynthesis.pushTick
  dsimp only
  rw [cnt, if_neg Bool.false_ne_true, accs.duration]
  cases here : synth.current with
  | none =>
    obtain ⟨rfl, rfl⟩ := accs.fresh here
    dsimp only
    have made : Covers durationNs [row] (MutableKline.newBar synth.nextId
        (windowStart row.datetime durationNs) row).row :=
      covers_newBar pos synth.nextId (forall_mem_nil _)
    refine ⟨rfl, lastTickId, fun none => absurd none (some_ne_none _), fun bar same => ?_,
      forall_mem_nil _, .nil, fun alt mem => .inr ⟨_, rfl, ?_⟩⟩
    · obtain rfl := some.inj same
      refine ⟨made, fun alt mem => ?_, forall_mem_nil _⟩
      rw [mem_singleton.mp mem]
      exact le_refl _
    · rw [mem_singleton.mp mem]
      rfl
  | some cur =>
    obtain ⟨cov, newest, post⟩ := accs.current cur here
    dsimp only
    split
    · rename_i same
      have inn := (inWindow_iff pos cov.aligned).mpr same.symm
      rw [append_nil]
      refine ⟨rfl, lastTickId, fun none => absurd none (some_ne_none _),
        fun bar merged => ?_, fun bar mem => ?_, accs.increasing, fun alt mem => ?_⟩
      · obtain rfl := some.inj merged
        refine ⟨cov.mergeTick inn, fun alt mem => ?_, post⟩
        rcases mem_append.mp mem with old | new
        · exact newest alt old
        · rw [mem_singleton.mp new]
          exact same.ge
      · refine (accs.covers bar mem).snoc fun held => ?_
        have lo := (inWindow_iff pos (accs.covers bar mem).aligned).mp held
        have less := post bar mem
        omega
      · rcases mem_append.mp mem with old | new
        · rcases accs.found alt old with done | ⟨bar, hit, lo⟩
          · exact .inl done
          · obtain rfl := some.inj (here.symm.trans hit)
            exact .inr ⟨_, rfl, lo⟩
        · rw [mem_singleton.mp new]
          exact .inr ⟨_, rfl, same.symm⟩
    · rename_i ne
      have later : cur.row.datetime < windowStart row.datetime durationNs :=
        lt_of_le_of_ne (current_le cur here) ne
      have out : ∀ bar : RelayKlineRow, durationNs ∣ bar.datetime →
          bar.datetime ≤ cur.row.datetime → ¬InWindow durationNs bar row := by
        intro bar algn pre held
        have lo := (inWindow_iff pos algn).mp held
        omega
      have pre : ∀ bar ∈ bars ++ [cur.finalize], bar.datetime ≤ cur.row.datetime := by
        intro bar mem
        rcases mem_append.mp mem with old | new
        · exact (post bar old).le
        · rw [mem_singleton.mp new]
          exact le_refl _
      refine ⟨rfl, lastTickId, fun none => absurd none (some_ne_none _),
        fun bar made => ?_, fun bar mem => ?_, ?_, fun alt mem => ?_⟩
      · obtain rfl := some.inj made
        refine ⟨covers_newBar pos synth.nextId fun alt old =>
          lt_of_le_of_lt (newest alt old) later, fun alt mem => ?_, fun bar mem =>
          lt_of_le_of_lt (pre bar mem) later⟩
        rcases mem_append.mp mem with old | new
        · exact los alt old
        · rw [mem_singleton.mp new]
          exact le_refl _
      · have kept : Covers durationNs rows bar := by
          rcases mem_append.mp mem with old | new
          · exact accs.covers bar old
          · rw [mem_singleton.mp new]
            exact cov.finalize
        exact kept.snoc (out bar kept.aligned (pre bar mem))
      · refine pairwise_append.mpr ⟨accs.increasing, pairwise_singleton _ _,
          fun bar old done new => ?_⟩
        rw [mem_singleton.mp new]
        exact post bar old
      · rcases mem_append.mp mem with old | new
        · rcases accs.found alt old with ⟨bar, seen, lo⟩ | ⟨bar, hit, lo⟩
          · exact .inl ⟨bar, mem_append_left _ seen, lo⟩
          · obtain rfl := some.inj (here.symm.trans hit)
            exact .inl ⟨_, mem_append_right _ (mem_singleton_self _), lo⟩
        · rw [mem_singleton.mp new]
          exact .inr ⟨_, rfl, rfl⟩

end

section

variable {durationNs : Int} (pos : 0 < durationNs)
  (ids : rows.Pairwise fun earlier later => earlier.id ≤ later.id)
  (times : rows.Pairwise fun earlier later => earlier.datetime ≤ later.datetime)

include pos ids times

theorem accounts_synthesized :
    Accounts durationNs rows (synthesized durationNs rows) (completedBars durationNs rows) := by
  induction rows using List.reverseRecOn with
  | nil =>
    rw [synthesized, completedBars, KlineSynthesis.pushTicks]
    exact ⟨rfl, rfl, fun _ => ⟨rfl, rfl⟩, fun bar same => absurd same (some_ne_none bar).symm,
      forall_mem_nil _, .nil, forall_mem_nil _⟩
  | append_singleton rows row ih =>
    rw [pairwise_append] at ids times
    rw [synthesized_snoc, completedBars_snoc]
    exact (ih ids.1 times.1).pushTick pos (fun alt mem => ids.2.2 alt mem row (mem_singleton_self
      row)) fun alt mem => times.2.2 alt mem row (mem_singleton_self row)

/-- Rows whose times and ids do not decrease are all covered, and their windows completed by the
first row after them. -/
theorem complete_completedBars :
    Complete durationNs rows (completedBars durationNs rows) := by
  have accs := accounts_synthesized pos ids times
  refine ⟨accs.covers, accs.increasing, (numbered_completedBars durationNs rows).completed,
    fun bar mem => ?_, fun row mem later seen post => ?_⟩
  · cases here : (synthesized durationNs rows).current with
    | none =>
      rw [(accs.fresh here).2] at mem
      cases mem
    | some cur =>
      obtain ⟨cov, -, pre⟩ := accs.current cur here
      obtain ⟨prior, last, rest, same, inn, -⟩ := cov.close
      have sep := add_le_of_aligned (accs.covers bar mem).aligned cov.aligned (pre bar mem) pos
      exact ⟨last, by rw [same]; simp, sep.trans inn.1⟩
  · rcases accs.found row mem with ⟨bar, done, lo⟩ | ⟨cur, here, lo⟩
    · exact ⟨bar, done, (inWindow_iff pos (accs.covers bar done).aligned).mpr lo⟩
    · have new := (accs.current cur here).2.1 later seen
      have bnds := windowStart_le pos later.datetime
      omega

end

end Tqsdk
