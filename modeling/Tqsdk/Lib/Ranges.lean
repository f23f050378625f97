import Mathlib.Data.List.Pairwise
import Mathlib.Data.List.Sort
import Mathlib.Order.MinMax
import Mathlib.Data.Prod.Lex
import Mathlib.Tactic.SplitIfs

/-!
# Half-open ranges

Lists of ranges `[start, stop)` over a linear order, as the set of points they cover. A list in
normal form has nonempty ranges in increasing order that do not even touch; sorting and
coalescing brings a list into normal form, and normal forms with the same points are equal.
-/

namespace Ranges

open List

variable {α : Type} [LinearOrder α]

def Covers (ranges : List (α × α)) (point : α) : Prop :=
  ∃ range ∈ ranges, range.1 ≤ point ∧ point < range.2

def Normal (ranges : List (α × α)) : Prop :=
  (∀ range ∈ ranges, range.1 < range.2) ∧ ranges.Pairwise fun left right => left.2 < right.1

section Covers

variable {ranges alts : List (α × α)} {range : α × α} {point : α}

@[simp] theorem covers_nil : ¬ Covers ([] : List (α × α)) point := by
  rintro ⟨_, mem, _⟩
  cases mem

@[simp] theorem covers_cons :
    Covers (range :: ranges) point ↔ (range.1 ≤ point ∧ point < range.2) ∨ Covers ranges point := by
  simp [Covers]

@[simp] theorem covers_append :
    Covers (ranges ++ alts) point ↔ Covers ranges point ∨ Covers alts point := by
  simp only [Covers, mem_append, or_and_right, exists_or]

theorem covers_flatMap {β : Type} {its : List β} {part : β → List (α × α)} :
    Covers (its.flatMap part) point ↔ ∃ item ∈ its, Covers (part item) point := by
  simp only [Covers, mem_flatMap]
  constructor
  · rintro ⟨range, ⟨item, mem, inPart⟩, inn⟩
    exact ⟨item, mem, range, inPart, inn⟩
  · rintro ⟨item, mem, range, inPart, inn⟩
    exact ⟨range, ⟨item, mem, inPart⟩, inn⟩

theorem Covers.of_subset (inn : ∀ range ∈ ranges, range ∈ alts) (cov : Covers ranges point) :
    Covers alts point := by
  obtain ⟨range, mem, bnds⟩ := cov
  exact ⟨range, inn range mem, bnds⟩

theorem covers_perm (perm : ranges.Perm alts) : Covers ranges point ↔ Covers alts point :=
  ⟨Covers.of_subset fun _ => perm.mem_iff.mp, Covers.of_subset fun _ => perm.mem_iff.mpr⟩

end Covers

/-! ## Normal forms -/

theorem Normal.tail {range : α × α} {ranges : List (α × α)} (nrm : Normal (range :: ranges)) :
    Normal ranges :=
  ⟨fun alt mem => nrm.1 alt (mem_cons_of_mem _ mem), nrm.2.of_cons⟩

/-- Different ranges of a normal form do not even touch. -/
theorem Normal.separate {ranges : List (α × α)} (nrm : Normal ranges) {range alt : α × α}
    (mem : range ∈ ranges) (member' : alt ∈ ranges) (ne : range ≠ alt) :
    range.2 < alt.1 ∨ alt.2 < range.1 := by
  let Apart (left right : α × α) : Prop := left.2 < right.1 ∨ right.2 < left.1
  have : Std.Symm Apart := ⟨fun _ _ sep => sep.symm⟩
  have sep : ranges.Pairwise Apart := nrm.2.imp Or.inl
  exact sep.forall mem member' ne

/-- Of a normal form that covers every point of a range one range encloses it. -/
theorem Normal.exists_enclosing {ranges : List (α × α)} (nrm : Normal ranges) {range : α × α}
    (ne : range.1 < range.2)
    (cov : ∀ point, range.1 ≤ point → point < range.2 → Covers ranges point) :
    ∃ outer ∈ ranges, outer.1 ≤ range.1 ∧ range.2 ≤ outer.2 := by
  obtain ⟨outer, mem, lo, stop⟩ := cov range.1 le_rfl ne
  refine ⟨outer, mem, lo, ?_⟩
  by_contra short
  obtain ⟨next, nextMember, nextStart, nextStop⟩ := cov outer.2 stop.le (not_le.mp short)
  rcases eq_or_ne outer next with rfl | differ
  · exact lt_irrefl _ nextStop
  rcases nrm.separate mem nextMember differ with pre | behind
  · exact lt_irrefl _ (pre.trans_le nextStart)
  · exact lt_irrefl _ (((behind.trans_le lo).trans stop).trans nextStop)

/-- A range of a normal form ends before every point that later ranges cover. -/
theorem Normal.lt_of_covers {range : α × α} {ranges : List (α × α)} {point : α}
    (nrm : Normal (range :: ranges)) (cov : Covers ranges point) : range.2 < point := by
  obtain ⟨alt, mem, post, -⟩ := cov
  exact lt_of_lt_of_le (rel_of_pairwise_cons nrm.2 mem) post

variable {current : α × α} {lefts rs : List (α × α)}

/-- Two normal forms with the same points start with the same range. -/
theorem Normal.head_eq {left right : α × α} (lNrm : Normal (left :: lefts))
    (rNrm : Normal (right :: rs))
    (same : ∀ point, Covers (left :: lefts) point ↔ Covers (right :: rs) point) :
    left = right := by
  have leftInside := lNrm.1 left mem_cons_self
  have rightInside := rNrm.1 right mem_cons_self
  have start_le : ∀ {range alt : α × α} {ranges alts : List (α × α)},
      Normal (range :: ranges) → range.1 < range.2 → alt.1 < alt.2 →
      (∀ point, Covers (alt :: alts) point → Covers (range :: ranges) point) →
      range.1 ≤ alt.1 := by
    intro range alt ranges alts nrm mem otherInside imp
    rcases covers_cons.mp (imp alt.1 (covers_cons.mpr (.inl ⟨le_rfl, otherInside⟩)))
      with ⟨le, -⟩ | later
    · exact le
    · exact (mem.trans (nrm.lt_of_covers later)).le
  have los : left.1 = right.1 :=
    le_antisymm (start_le lNrm leftInside rightInside fun point => (same point).mpr)
      (start_le rNrm rightInside leftInside fun point => (same point).mp)
  -- the end of the shorter one is a point that the longer one covers and the shorter does not
  have stop_le : ∀ {range alt : α × α} {ranges alts : List (α × α)},
      Normal (range :: ranges) → range.1 = alt.1 → range.1 < range.2 →
      (∀ point, Covers (alt :: alts) point → Covers (range :: ranges) point) →
      alt.2 ≤ range.2 := by
    intro range alt ranges alts nrm lo mem imp
    by_contra longer
    have cov := imp range.2 (covers_cons.mpr (.inl ⟨lo ▸ mem.le, not_le.mp longer⟩))
    rcases covers_cons.mp cov with ⟨-, lt⟩ | later
    · exact lt_irrefl _ lt
    · exact lt_irrefl _ (nrm.lt_of_covers later)
  exact Prod.ext los
    (le_antisymm (stop_le rNrm los.symm rightInside fun point => (same point).mp)
      (stop_le lNrm los leftInside fun point => (same point).mpr))

theorem Normal.tail_covers {range : α × α} (lNrm : Normal (range :: lefts))
    (rNrm : Normal (range :: rs))
    (same : ∀ point, Covers (range :: lefts) point ↔ Covers (range :: rs) point) (point : α) :
    Covers lefts point ↔ Covers rs point := by
  constructor
  · intro cov
    have post := lNrm.lt_of_covers cov
    rcases covers_cons.mp ((same point).mp (covers_cons.mpr (.inr cov))) with ⟨-, lt⟩ | later
    · exact absurd lt post.le.not_gt
    · exact later
  · intro cov
    have post := rNrm.lt_of_covers cov
    rcases covers_cons.mp ((same point).mpr (covers_cons.mpr (.inr cov))) with ⟨-, lt⟩ | later
    · exact absurd lt post.le.not_gt
    · exact later

/-- A normal form is determined by the points it covers. -/
theorem Normal.ext (lNrm : Normal lefts) (rNrm : Normal rs)
    (same : ∀ point, Covers lefts point ↔ Covers rs point) :
    lefts = rs := by
  induction lefts generalizing rs with
  | nil =>
    cases rs with
    | nil => rfl
    | cons right rs =>
      have mem := rNrm.1 right mem_cons_self
      exact absurd ((same right.1).mpr (covers_cons.mpr (.inl ⟨le_rfl, mem⟩))) covers_nil
  | cons left lefts ih =>
    cases rs with
    | nil =>
      have mem := lNrm.1 left mem_cons_self
      exact absurd ((same left.1).mp (covers_cons.mpr (.inl ⟨le_rfl, mem⟩))) covers_nil
    | cons right rs =>
      obtain rfl := lNrm.head_eq rNrm same
      rw [ih lNrm.tail rNrm.tail (lNrm.tail_covers rNrm same)]

/-! ## Coalescing -/

/-- The range that is being built takes up every range that starts inside or at its end. -/
def absorb (current : α × α) : List (α × α) → List (α × α)
  | [] => [current]
  | range :: rest =>
    if range.1 ≤ current.2 then absorb (current.1, max current.2 range.2) rest
    else current :: absorb range rest

def coalesce : List (α × α) → List (α × α)
  | [] => []
  | range :: rest => absorb range rest

theorem sorted_merged {range : α × α} {ranges : List (α × α)} {stop : α}
    (srt : (current :: range :: ranges).Pairwise fun left right => left.1 ≤ right.1) :
    ((current.1, stop) :: ranges).Pairwise fun left right => left.1 ≤ right.1 :=
  pairwise_cons.mpr ⟨fun _ mem =>
    rel_of_pairwise_cons srt (mem_cons_of_mem _ mem), srt.of_cons.of_cons⟩

theorem covers_absorb {ranges : List (α × α)} {point : α}
    (srt : (current :: ranges).Pairwise fun left right => left.1 ≤ right.1) :
    Covers (absorb current ranges) point ↔ Covers (current :: ranges) point := by
  induction ranges generalizing current with
  | nil => rfl
  | cons range ranges ih =>
    have hd : current.1 ≤ range.1 := rel_of_pairwise_cons srt mem_cons_self
    unfold absorb
    split
    · rename_i touches
      rw [ih (sorted_merged srt), covers_cons, covers_cons, covers_cons, ← or_assoc]
      refine or_congr_left ⟨fun mem => ?_, fun mem => ?_⟩
      · rcases lt_or_ge point current.2 with lt | above
        · exact .inl ⟨mem.1, lt⟩
        · exact .inr ⟨touches.trans above, (lt_max_iff.mp mem.2).resolve_left above.not_gt⟩
      · rcases mem with ⟨lo, stop⟩ | ⟨lo, stop⟩
        · exact ⟨lo, lt_max_of_lt_left stop⟩
        · exact ⟨hd.trans lo, lt_max_of_lt_right stop⟩
    · rw [covers_cons, covers_cons, ih srt.of_cons]

section

variable {ranges : List (α × α)}
  (srt : (current :: ranges).Pairwise fun left right => left.1 ≤ right.1)

include srt

theorem le_of_mem_absorb {range : α × α} (member : range ∈ absorb current ranges) :
    current.1 ≤ range.1 := by
  induction ranges generalizing current with
  | nil => rw [mem_singleton.mp member]
  | cons hd ranges ih =>
    have lo : current.1 ≤ hd.1 := rel_of_pairwise_cons srt mem_cons_self
    unfold absorb at member
    split at member
    · have lt := ih (sorted_merged srt) member
      exact lt
    · rcases mem_cons.mp member with rfl | member
      · exact le_rfl
      · exact lo.trans (ih srt.of_cons member)

theorem normal_absorb (ne : ∀ range ∈ current :: ranges, range.1 < range.2) :
    Normal (absorb current ranges) := by
  induction ranges generalizing current with
  | nil => exact ⟨ne, pairwise_singleton _ _⟩
  | cons range ranges ih =>
    have mem := ne current mem_cons_self
    unfold absorb
    split
    · refine ih (sorted_merged srt) fun alt member => ?_
      rcases mem_cons.mp member with rfl | member
      · exact lt_max_of_lt_left mem
      · exact ne alt (mem_cons_of_mem _ (mem_cons_of_mem _ member))
    · rename_i sep
      have nrm := ih srt.of_cons fun alt member => ne alt (mem_cons_of_mem _ member)
      refine ⟨fun alt member => ?_, pairwise_cons.mpr ⟨fun alt member => ?_, nrm.2⟩⟩
      · rcases mem_cons.mp member with rfl | member
        · exact mem
        · exact nrm.1 alt member
      · exact lt_of_lt_of_le (not_le.mp sep) (le_of_mem_absorb srt.of_cons member)

end

/-! ## Sorting -/

/-- The order of pairs by start and then by end. -/
def before (left right : α × α) : Prop :=
  left.1 < right.1 ∨ left.1 = right.1 ∧ left.2 ≤ right.2

instance : DecidableRel (before (α := α)) := fun _ _ => inferInstanceAs (Decidable (_ ∨ _))

instance : Std.Total (before (α := α)) where
  total left right := by
    rcases lt_trichotomy left.1 right.1 with less | same | greater
    · exact .inl (.inl less)
    · rcases le_total left.2 right.2 with le | ge
      · exact .inl (.inr ⟨same, le⟩)
      · exact .inr (.inr ⟨same.symm, ge⟩)
    · exact .inr (.inl greater)

instance : IsTrans (α × α) before where
  trans first second third left right := by
    rcases left with less | ⟨same, le⟩
    · rcases right with less' | ⟨same', -⟩
      · exact .inl (less.trans less')
      · exact .inl (same' ▸ less)
    · rcases right with less' | ⟨same', le'⟩
      · exact .inl (same ▸ less')
      · exact .inr ⟨same.trans same', le.trans le'⟩

def sort (ranges : List (α × α)) : List (α × α) := ranges.insertionSort before

theorem mem_sort {ranges : List (α × α)} {range : α × α} : range ∈ sort ranges ↔ range ∈ ranges :=
  (perm_insertionSort before ranges).mem_iff

theorem covers_sort {ranges : List (α × α)} {point : α} :
    Covers (sort ranges) point ↔ Covers ranges point :=
  covers_perm (perm_insertionSort before ranges)

theorem sorted_sort (ranges : List (α × α)) :
    (sort ranges).Pairwise fun left right => left.1 ≤ right.1 :=
  (pairwise_insertionSort before ranges).imp fun precedes =>
    precedes.elim le_of_lt fun same => same.1.le

theorem covers_coalesce_sort {ranges : List (α × α)} {point : α} :
    Covers (coalesce (sort ranges)) point ↔ Covers ranges point := by
  refine Iff.trans ?_ covers_sort
  have srt := sorted_sort ranges
  cases equal : sort ranges with
  | nil => rfl
  | cons range rest =>
    rw [equal] at srt
    exact covers_absorb srt

theorem normal_coalesce_sort {ranges : List (α × α)}
    (nonempty : ∀ range ∈ ranges, range.1 < range.2) : Normal (coalesce (sort ranges)) := by
  have srt := sorted_sort ranges
  have nonempty' : ∀ range ∈ sort ranges, range.1 < range.2 :=
    fun range mem => nonempty range (mem_sort.mp mem)
  cases equal : sort ranges with
  | nil => exact ⟨by simp [coalesce], List.Pairwise.nil⟩
  | cons range rest =>
    rw [equal] at srt nonempty'
    exact normal_absorb srt nonempty'

/-! ## Cutting out a range -/

def cut (hole range : α × α) : List (α × α) :=
  if range.2 ≤ hole.1 ∨ hole.2 ≤ range.1 then [range]
  else (if range.1 < hole.1 then [(range.1, hole.1)] else []) ++
    (if hole.2 < range.2 then [(hole.2, range.2)] else [])

theorem covers_cut {hole range : α × α} {point : α} :
    Covers (cut hole range) point ↔
      (range.1 ≤ point ∧ point < range.2) ∧ ¬ (hole.1 ≤ point ∧ point < hole.2) := by
  unfold cut
  split_ifs with sep left right right <;>
    simp only [covers_cons, covers_append, covers_nil, or_false, false_or] <;> grind

theorem nonempty_cut {hole range alt : α × α} (ne : range.1 < range.2)
    (mem : alt ∈ cut hole range) : alt.1 < alt.2 := by
  unfold cut at mem
  split_ifs at mem with sep left right right <;> grind

/-- The holes are cut out one after the other. -/
def cutAll (holes ranges : List (α × α)) : List (α × α) :=
  holes.foldl (fun remaining hole => remaining.flatMap (cut hole)) ranges

theorem covers_cutAll {holes ranges : List (α × α)} {point : α} :
    Covers (cutAll holes ranges) point ↔ Covers ranges point ∧ ¬ Covers holes point := by
  induction holes generalizing ranges with
  | nil => simp [cutAll]
  | cons hole holes ih =>
    have step : Covers (ranges.flatMap (cut hole)) point ↔
        Covers ranges point ∧ ¬ (hole.1 ≤ point ∧ point < hole.2) := by
      rw [covers_flatMap]
      constructor
      · rintro ⟨range, mem, cov⟩
        have inn := covers_cut.mp cov
        exact ⟨⟨range, mem, inn.1⟩, inn.2⟩
      · rintro ⟨⟨range, mem, inn⟩, out⟩
        exact ⟨range, mem, covers_cut.mpr ⟨inn, out⟩⟩
    unfold cutAll at ih ⊢
    rw [foldl_cons, ih, step, covers_cons, not_or, and_assoc]

theorem nonempty_cutAll {holes ranges : List (α × α)} (ne : ∀ range ∈ ranges, range.1 < range.2) :
    ∀ range ∈ cutAll holes ranges, range.1 < range.2 := by
  induction holes generalizing ranges with
  | nil => exact ne
  | cons hole holes ih =>
    refine ih fun range mem => ?_
    obtain ⟨src, inRanges, mem⟩ := mem_flatMap.mp mem
    exact nonempty_cut (ne src inRanges) mem

/-! ## Gaps -/

/-- What sorted ranges leave of `[cursor, stop)`. -/
def gaps (cursor stop : α) : List (α × α) → List (α × α)
  | [] => if cursor < stop then [(cursor, stop)] else []
  | range :: rest =>
    if range.2 ≤ cursor ∨ stop ≤ range.1 then gaps cursor stop rest
    else
      (if cursor < range.1 then [(cursor, min range.1 stop)] else []) ++
        (if stop ≤ max cursor range.2 then [] else gaps (max cursor range.2) stop rest)

theorem covers_gaps {cur stop point : α} {ranges : List (α × α)}
    (srt : ranges.Pairwise fun left right => left.1 ≤ right.1) :
    Covers (gaps cur stop ranges) point ↔ (cur ≤ point ∧ point < stop) ∧ ¬ Covers ranges point := by
  induction ranges generalizing cur with
  | nil =>
    unfold gaps
    split
    · simp
    · rename_i emp
      simp only [covers_nil, not_false_eq_true, and_true, false_iff, not_and, not_lt]
      exact fun lo => (not_lt.mp emp).trans lo
  | cons range ranges ih =>
    unfold gaps
    split
    · rename_i out
      rw [ih srt.of_cons, covers_cons, not_or, ← and_assoc]
      refine and_congr_left fun _ => ?_
      grind
    · rename_i inn
      obtain ⟨ovr, lt⟩ := not_or.mp inn
      -- the ranges that follow start after this one, so they leave its part before alone
      have post : Covers ranges point → range.1 ≤ point := by
        rintro ⟨alt, mem, lo, -⟩
        exact (rel_of_pairwise_cons srt mem).trans lo
      rw [covers_append, covers_cons]
      have hd : Covers (if cur < range.1 then [(cur, min range.1 stop)] else []) point ↔
          cur ≤ point ∧ point < range.1 := by
        split <;> simp <;> grind
      have snd : Covers (if stop ≤ max cur range.2 then []
            else gaps (max cur range.2) stop ranges) point ↔
          (max cur range.2 ≤ point ∧ point < stop) ∧ ¬ Covers ranges point := by
        split
        · rename_i done
          simp only [covers_nil, false_iff, not_and]
          exact fun win => absurd win.2 (done.trans win.1).not_gt
        · exact ih srt.of_cons
      rw [hd, snd]
      grind

theorem Normal.sorted {ranges : List (α × α)} (nrm : Normal ranges) :
    ranges.Pairwise fun left right => left.1 ≤ right.1 :=
  nrm.2.imp_of_mem fun mem _ pre => ((nrm.1 _ mem).trans pre).le

theorem exists_enclosing (points : List Int) :
    ∃ range : Int × Int, ∀ point ∈ points, range.1 ≤ point ∧ point < range.2 := by
  induction points with
  | nil => exact ⟨(0, 0), fun _ member => by cases member⟩
  | cons point points ih =>
    obtain ⟨range, win⟩ := ih
    refine ⟨(min range.1 point, max range.2 (point + 1)), fun alt member => ?_⟩
    rcases mem_cons.mp member with rfl | member
    · exact ⟨min_le_right _ _, lt_max_of_lt_right (Int.lt_succ _)⟩
    · have bnds := win alt member
      exact ⟨(min_le_left _ _).trans bnds.1, lt_max_of_lt_left bnds.2⟩

end Ranges
