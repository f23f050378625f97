import Tqsdk.Data.TradingDay
import Tqsdk.Lib.Ranges
import Tqsdk.Runtime.OrderLifecycle

/-!
# Trading timelines

`trading_timeline.rs`: the rules decided for a set of trading days are compiled into the ranges
of time that are known and the intervals in which trading is open, and a newly compiled set of
days is merged into the published timeline.

Known ranges and open intervals are kept in normal form, so a timeline is determined by the
points they cover; merging cuts the days of the new set out of both and adds the new ones, which
leaves the points of the days that stay.
-/

namespace Tqsdk

open List

/-! ## Rules and decisions -/

structure TradingTimelineRuleWindow where
  startOffsetNs : Int
  endOffsetNs : Int
  deriving DecidableEq

structure TradingTimelineRule where
  ruleId : String
  windows : List TradingTimelineRuleWindow
  deriving DecidableEq

inductive TradingTimelineRuleDecision
  | unique (ruleId : String)
  | ambiguous (candidateRuleIds : List String)
  | unconfirmed (ruleId : String)
  | noMatch
  deriving DecidableEq

structure TradingTimelineDecisionRecord where
  tradingDayStartNs : Int
  tradingDayEndNs : Int
  decision : TradingTimelineRuleDecision
  evidenceHash : Option String
  deriving DecidableEq

def required (name value : String) : Except DataError String :=
  let value := String.ofList (OrderLifecycle.trim value.toList)
  if value.isEmpty then .error (.validation (name ++ " must not be empty")) else .ok value

def component (name value : String) : Except DataError String := do
  let value ← required name value
  if value.toList.any fun c => !(c.isAlphanum || c = '_' || c = '-') then
    .error (.validation (name ++ " contains an unsafe path component"))
  else .ok value

namespace TradingTimelineRuleWindow

def validate (window : TradingTimelineRuleWindow) : Except DataError Unit :=
  if window.endOffsetNs ≤ window.startOffsetNs ∨ window.startOffsetNs < 0 then
    .error (.validation "trading timeline rule window must be increasing")
  else if window.startOffsetNs.tmod nanosPerMinute ≠ 0 ∨
      window.endOffsetNs.tmod nanosPerMinute ≠ 0 then
    .error (.validation "trading timeline rule window must be whole minutes")
  else .ok ()

def before (left right : TradingTimelineRuleWindow) : Prop :=
  Ranges.before (left.startOffsetNs, left.endOffsetNs) (right.startOffsetNs, right.endOffsetNs)

instance : DecidableRel before := fun _ _ => inferInstanceAs (Decidable (Ranges.before _ _))

end TradingTimelineRuleWindow

/-- The loop over the sorted windows of a rule. -/
def checkWindows : Option Int → List TradingTimelineRuleWindow → Except DataError Unit
  | _, [] => .ok ()
  | previousEnd, window :: rest => do
      window.validate
      if previousEnd.any fun previous => decide (window.startOffsetNs < previous) then
        .error (.validation "trading timeline rule windows overlap")
      else checkWindows (some window.endOffsetNs) rest

def TradingTimelineRule.normalize (rule : TradingTimelineRule) :
    Except DataError TradingTimelineRule := do
  let ruleId ← required "rule_id" rule.ruleId
  let windows := rule.windows.insertionSort TradingTimelineRuleWindow.before
  checkWindows none windows
  return ⟨ruleId, windows⟩

/-- The map `by_id` of a compilation. -/
def indexRules : List TradingTimelineRule → List (String × TradingTimelineRule) →
    Except DataError (List (String × TradingTimelineRule))
  | [], byId => .ok byId
  | rule :: rest, byId => do
      let normalized ← rule.normalize
      if (OrdMap.get? normalized.ruleId byId).isSome then
        .error (.validation "trading timeline rule ids must be unique")
      else indexRules rest (OrdMap.insert normalized.ruleId normalized byId)

/-! ## Snapshots -/

structure TradingTimelineIdentity where
  exchange : String
  product : String
  evidenceSymbol : String
  ruleCatalogHash : String
  evidenceIdentity : String
  deriving DecidableEq

/-- `TradingTimelineIdentity::new` on the fields of an identity. -/
def TradingTimelineIdentity.normalize (identity : TradingTimelineIdentity) :
    Except DataError TradingTimelineIdentity := do
  let exchange ← component "exchange" identity.exchange
  let product ← component "product" identity.product
  let evidenceSymbol ← required "evidence_symbol" identity.evidenceSymbol
  let ruleCatalogHash ← required "rule_catalog_hash" identity.ruleCatalogHash
  let evidenceIdentity ← required "evidence_identity" identity.evidenceIdentity
  return ⟨exchange, product, evidenceSymbol, ruleCatalogHash, evidenceIdentity⟩

structure TradingTimelineSnapshot where
  formatVersion : Nat
  timelineHash : String
  identity : TradingTimelineIdentity
  knownRanges : List (Int × Int)
  openIntervals : List (Int × Int)
  decisions : List TradingTimelineDecisionRecord
  deriving DecidableEq

def timelineFormatVersion : Nat := 1

/-- `snapshot_hash` and the hash of `decision_evidence_identity`: SHA-256 over JSON. -/
structure TimelineDigest where
  snapshot : TradingTimelineSnapshot → String
  evidence : List (Int × Int × Option String) → String

def normalizeRanges (ranges : List (Int × Int)) (name : String) :
    Except DataError (List (Int × Int)) :=
  let normalized := Ranges.sort ranges
  if normalized.all fun range => decide (range.1 < range.2) then .ok (Ranges.coalesce normalized)
  else .error (.validation (name ++ " must be increasing"))

/-- `partition_point` finds the first range that does not end before `startNs`. -/
def rangeContains (ranges : List (Int × Int)) (startNs endNs : Int) : Bool :=
  match ranges.dropWhile fun range => decide (range.2 < startNs) with
  | [] => false
  | range :: _ => decide (range.1 ≤ startNs ∧ endNs ≤ range.2)

namespace TradingTimelineDecisionRecord

def range (record : TradingTimelineDecisionRecord) : Int × Int :=
  (record.tradingDayStartNs, record.tradingDayEndNs)

def before (left right : TradingTimelineDecisionRecord) : Prop :=
  Ranges.before left.range right.range

instance : DecidableRel before := fun _ _ => inferInstanceAs (Decidable (Ranges.before _ _))

def startsBefore (left right : TradingTimelineDecisionRecord) : Prop :=
  left.tradingDayStartNs ≤ right.tradingDayStartNs

instance : DecidableRel startsBefore := fun _ _ => inferInstanceAs (Decidable (_ ≤ _))

def isUnique (record : TradingTimelineDecisionRecord) : Bool :=
  match record.decision with
  | .unique _ => true
  | _ => false

end TradingTimelineDecisionRecord

def decisionEvidenceIdentity (digest : TimelineDigest)
    (decisions : List TradingTimelineDecisionRecord) : String :=
  digest.evidence (decisions.map fun record =>
    (record.tradingDayStartNs, record.tradingDayEndNs, record.evidenceHash))

/-- The two checks of `normalize` for a decision. -/
def checkDecision (knownRanges : List (Int × Int)) (record : TradingTimelineDecisionRecord) :
    Except DataError Unit :=
  if record.tradingDayEndNs ≤ record.tradingDayStartNs then
    .error (.validation "trading timeline decision range must be increasing")
  else if record.isUnique &&
      !rangeContains knownRanges record.tradingDayStartNs record.tradingDayEndNs then
    .error (.validation "trading timeline decision is outside known coverage")
  else .ok ()

def checkInterval (knownRanges : List (Int × Int)) (interval : Int × Int) :
    Except DataError Unit :=
  if rangeContains knownRanges interval.1 interval.2 then .ok ()
  else .error (.validation "trading interval is outside known timeline coverage")

namespace TradingTimelineSnapshot

def normalize (snapshot : TradingTimelineSnapshot) : Except DataError TradingTimelineSnapshot := do
  if snapshot.formatVersion ≠ timelineFormatVersion then
    .error (.validation "unsupported trading timeline format version")
  else
    let identity ← snapshot.identity.normalize
    let knownRanges ← normalizeRanges snapshot.knownRanges "timeline known range"
    let openIntervals ← normalizeRanges snapshot.openIntervals "trading timeline interval"
    let decisions := snapshot.decisions.insertionSort TradingTimelineDecisionRecord.before
    let _ ← decisions.mapM (checkDecision knownRanges)
    let _ ← openIntervals.mapM (checkInterval knownRanges)
    return { snapshot with
      identity := identity
      knownRanges := knownRanges
      openIntervals := openIntervals
      decisions := decisions }

/-- `TradingTimelineSnapshot::new`. -/
def make (digest : TimelineDigest) (identity : TradingTimelineIdentity)
    (knownRanges openIntervals : List (Int × Int)) :
    Except DataError TradingTimelineSnapshot := do
  let snapshot : TradingTimelineSnapshot :=
    ⟨timelineFormatVersion, "", identity, knownRanges, openIntervals, []⟩
  let snapshot ← snapshot.normalize
  return { snapshot with timelineHash := digest.snapshot snapshot }

def withDecisions (digest : TimelineDigest) (snapshot : TradingTimelineSnapshot)
    (decisions : List TradingTimelineDecisionRecord) :
    Except DataError TradingTimelineSnapshot := do
  let snapshot ← TradingTimelineSnapshot.normalize
    { snapshot with decisions := decisions, timelineHash := "" }
  return { snapshot with timelineHash := digest.snapshot snapshot }

end TradingTimelineSnapshot

/-! ## Compiling and merging -/

/-- `TradingTimelineInterval::new`. -/
def openInterval (record : TradingTimelineDecisionRecord) (window : TradingTimelineRuleWindow) :
    Except DataError (Int × Int) := do
  match I64.checked (record.tradingDayStartNs + window.startOffsetNs),
    I64.checked (record.tradingDayStartNs + window.endOffsetNs) with
  | some startNs, some endNs =>
    if record.tradingDayEndNs < endNs then
      .error (.validation "trading timeline rule window exceeds trading day")
    else if endNs ≤ startNs then
      .error (.validation "trading timeline interval must be increasing")
    else .ok (startNs, endNs)
  | _, _ => .error (.validation "trading timeline window overflow")

/-- The turn of the loop of `compile_trading_timeline` for one decision: the known ranges and the
open intervals it adds. -/
def recordRanges (byId : List (String × TradingTimelineRule))
    (record : TradingTimelineDecisionRecord) :
    Except DataError (List (Int × Int) × List (Int × Int)) :=
  if record.tradingDayEndNs ≤ record.tradingDayStartNs then
    .error (.validation "trading timeline decision range must be increasing")
  else
    match record.decision with
    | .unique ruleId =>
      match OrdMap.get? ruleId byId with
      | none => .error (.validation "unique timeline decision references unknown rule")
      | some rule => do
          let openIntervals ← rule.windows.mapM (openInterval record)
          return ([record.range], openIntervals)
    | _ => .ok ([], [])

def compileTradingTimeline (digest : TimelineDigest) (identity : TradingTimelineIdentity)
    (rules : List TradingTimelineRule) (decisions : List TradingTimelineDecisionRecord) :
    Except DataError TradingTimelineSnapshot := do
  let byId ← indexRules rules []
  let parts ← decisions.mapM (recordRanges byId)
  let snapshot ← TradingTimelineSnapshot.make digest identity
    (parts.flatMap Prod.fst) (parts.flatMap Prod.snd)
  snapshot.withDecisions digest decisions

def overlaps (range : Int × Int) (record : TradingTimelineDecisionRecord) : Bool :=
  decide (range.1 < record.tradingDayEndNs ∧ record.tradingDayStartNs < range.2)

def mergeTimeline (digest : TimelineDigest) (previous candidate : TradingTimelineSnapshot) :
    Except DataError TradingTimelineSnapshot :=
  let replaced := candidate.decisions.map TradingTimelineDecisionRecord.range
  let kept := previous.decisions.filter fun record =>
    !replaced.any fun range => overlaps range record
  if kept.isEmpty then .ok candidate
  else if previous.identity.ruleCatalogHash ≠ candidate.identity.ruleCatalogHash ∨
      previous.identity.evidenceSymbol ≠ candidate.identity.evidenceSymbol ∨
      kept.any (fun record => record.evidenceHash.isNone) then
    .error (.validation "catalog changed: rebuild all previously known days before activation")
  else do
    let known := Ranges.cutAll replaced previous.knownRanges ++ candidate.knownRanges
    let open_ := Ranges.cutAll replaced previous.openIntervals ++ candidate.openIntervals
    let decisions := (kept ++ candidate.decisions).insertionSort
      TradingTimelineDecisionRecord.startsBefore
    let identity := { candidate.identity with
      evidenceIdentity := decisionEvidenceIdentity digest decisions }
    let snapshot ← TradingTimelineSnapshot.make digest identity known open_
    snapshot.withDecisions digest decisions

/-! ## Identities are normal once normalized -/

variable {byId : List (String × TradingTimelineRule)} {record : TradingTimelineDecisionRecord}
  {others : List TradingTimelineDecisionRecord}
  {part : TradingTimelineDecisionRecord → List (Int × Int)} {name : String}
  {snapshot : TradingTimelineSnapshot}

theorem required_idem {val res : String} (ok : required name val = .ok res) :
    required name res = .ok res := by
  unfold required at ok ⊢
  dsimp only at ok ⊢
  split at ok
  · cases ok
  · rename_i ne
    obtain rfl := Except.ok.inj ok
    rw [String.toList_ofList, OrderLifecycle.trim_trim, if_neg ne]

theorem component_idem {val res : String} (ok : component name val = .ok res) :
    component name res = .ok res := by
  unfold component at ok ⊢
  obtain ⟨trim, isRequired, ok⟩ := Result.of_bind ok
  split at ok
  · cases ok
  · rename_i safe
    obtain rfl := Except.ok.inj ok
    rw [required_idem isRequired]
    exact if_neg safe

namespace TradingTimelineIdentity

variable {nrm : TradingTimelineIdentity}

section

variable {identity : TradingTimelineIdentity}

/-- The parts of an identity are normalized one by one. -/
theorem normalize_eq_ok :
    identity.normalize = .ok nrm ↔
      component "exchange" identity.exchange = .ok nrm.exchange ∧
      component "product" identity.product = .ok nrm.product ∧
      required "evidence_symbol" identity.evidenceSymbol = .ok nrm.evidenceSymbol ∧
      required "rule_catalog_hash" identity.ruleCatalogHash = .ok nrm.ruleCatalogHash ∧
      required "evidence_identity" identity.evidenceIdentity = .ok nrm.evidenceIdentity := by
  unfold normalize
  constructor
  · intro ok
    obtain ⟨_, exch, ok⟩ := Result.of_bind ok
    obtain ⟨_, product, ok⟩ := Result.of_bind ok
    obtain ⟨_, sym, ok⟩ := Result.of_bind ok
    obtain ⟨_, hash, ok⟩ := Result.of_bind ok
    obtain ⟨_, evi, ok⟩ := Result.of_bind ok
    obtain rfl := Except.ok.inj ok
    exact ⟨exch, product, sym, hash, evi⟩
  · rintro ⟨exch, product, sym, hash, evi⟩
    rw [exch, product, sym, hash, evi]
    rfl

theorem normalize_idem (ok : identity.normalize = .ok nrm) :
    nrm.normalize = .ok nrm := by
  obtain ⟨exch, product, sym, hash, evi⟩ := normalize_eq_ok.mp ok
  exact normalize_eq_ok.mpr ⟨component_idem exch, component_idem product,
    required_idem sym, required_idem hash, required_idem evi⟩

/-- Only the new evidence counts when the rest of an identity is normal already. -/
theorem normalize_withEvidence (ok : identity.normalize = .ok nrm) (evi : String) :
    { nrm with evidenceIdentity := evi : TradingTimelineIdentity }.normalize =
      { identity with evidenceIdentity := evi : TradingTimelineIdentity }.normalize := by
  obtain ⟨exch, product, sym, hash, -⟩ := normalize_eq_ok.mp ok
  unfold normalize
  simp only [component_idem exch, component_idem product, required_idem sym,
    required_idem hash, exch, product, sym, hash]

end

end TradingTimelineIdentity

/-! ## What a compilation puts together -/

theorem normalizeRanges_eq_ok {rngs nrm : List (Int × Int)} :
    normalizeRanges rngs name = .ok nrm ↔
      (∀ rng ∈ rngs, rng.1 < rng.2) ∧ nrm = Ranges.coalesce (Ranges.sort rngs) := by
  unfold normalizeRanges
  dsimp only
  split
  · rename_i all
    simp only [all_eq_true, decide_eq_true_eq, Ranges.mem_sort] at all
    constructor
    · intro ok
      exact ⟨fun rng mem => all rng mem, (Except.ok.inj ok).symm⟩
    · rintro ⟨-, rfl⟩
      rfl
  · rename_i notAll
    simp only [all_eq_true, decide_eq_true_eq, Ranges.mem_sort] at notAll
    exact ⟨fun ok => (by cases ok), fun all => absurd (fun a mem => all.1 a mem) notAll⟩

/-- Ranges with the same points have the same normal form. -/
theorem normalizeRanges_congr {rngs others : List (Int × Int)} (name : String)
    (ne : ∀ rng ∈ rngs, rng.1 < rng.2) (othersNonempty : ∀ rng ∈ others, rng.1 < rng.2)
    (same : ∀ p, Ranges.Covers rngs p ↔ Ranges.Covers others p) :
    normalizeRanges rngs name = normalizeRanges others name := by
  have equal : Ranges.coalesce (Ranges.sort rngs) = Ranges.coalesce (Ranges.sort others) := by
    refine (Ranges.normal_coalesce_sort ne).ext
      (Ranges.normal_coalesce_sort othersNonempty) fun p => ?_
    rw [Ranges.covers_coalesce_sort, Ranges.covers_coalesce_sort, same]
  rw [normalizeRanges_eq_ok.mpr ⟨ne, rfl⟩, normalizeRanges_eq_ok.mpr ⟨othersNonempty, rfl⟩, equal]

namespace TradingTimelineSnapshot

theorem normalize_eq_ok {snapshot nrm : TradingTimelineSnapshot}
    (ok : snapshot.normalize = .ok nrm) :
    snapshot.identity.normalize = .ok nrm.identity ∧
      (∀ rng ∈ snapshot.knownRanges, rng.1 < rng.2) ∧
      nrm.knownRanges = Ranges.coalesce (Ranges.sort snapshot.knownRanges) ∧
      (∀ rng ∈ snapshot.openIntervals, rng.1 < rng.2) ∧
      nrm.openIntervals = Ranges.coalesce (Ranges.sort snapshot.openIntervals) ∧
      nrm.decisions = snapshot.decisions.insertionSort TradingTimelineDecisionRecord.before := by
  unfold normalize at ok
  split at ok
  · cases ok
  · obtain ⟨identity, isIdentity, ok⟩ := Result.of_bind ok
    obtain ⟨seen, isKnown, ok⟩ := Result.of_bind ok
    obtain ⟨open_, isOpen, ok⟩ := Result.of_bind ok
    obtain ⟨_, -, ok⟩ := Result.of_bind ok
    obtain ⟨_, -, ok⟩ := Result.of_bind ok
    obtain rfl := Except.ok.inj ok
    obtain ⟨knownNe, rfl⟩ := normalizeRanges_eq_ok.mp isKnown
    obtain ⟨openNonempty, rfl⟩ := normalizeRanges_eq_ok.mp isOpen
    exact ⟨isIdentity, knownNe, rfl, openNonempty, rfl, rfl⟩

/-- A snapshot depends on its ranges only by their points, and on its identity only by the
normal one. -/
theorem make_congr {digest : TimelineDigest} {identity identity' : TradingTimelineIdentity}
    {known known' open_ open' : List (Int × Int)}
    (sameIdentity : identity.normalize = identity'.normalize)
    (sameKnown : ∀ name, normalizeRanges known name = normalizeRanges known' name)
    (sameOpen : ∀ name, normalizeRanges open_ name = normalizeRanges open' name) :
    make digest identity known open_ = make digest identity' known' open' := by
  unfold make normalize
  simp only [sameIdentity, sameKnown, sameOpen]

/-- What is in a snapshot made from ranges and then given its decisions. -/
theorem make_withDecisions_eq_ok {digest : TimelineDigest} {identity : TradingTimelineIdentity}
    {seen open_ : List (Int × Int)} {decs : List TradingTimelineDecisionRecord}
    {snapshot : TradingTimelineSnapshot}
    (ok : (make digest identity seen open_ >>= (·.withDecisions digest decs)) = .ok snapshot) :
    identity.normalize = .ok snapshot.identity ∧
      (∀ rng ∈ snapshot.knownRanges, rng.1 < rng.2) ∧
      (∀ p, Ranges.Covers snapshot.knownRanges p ↔ Ranges.Covers seen p) ∧
      (∀ rng ∈ snapshot.openIntervals, rng.1 < rng.2) ∧
      (∀ p, Ranges.Covers snapshot.openIntervals p ↔ Ranges.Covers open_ p) ∧
      snapshot.decisions = decs.insertionSort TradingTimelineDecisionRecord.before := by
  obtain ⟨made, isMade, ok⟩ := Result.of_bind ok
  obtain ⟨hd, fst, same⟩ := Result.of_bind isMade
  obtain rfl := Except.ok.inj same
  obtain ⟨snd, isSecond, same⟩ := Result.of_bind ok
  obtain rfl := Except.ok.inj same
  obtain ⟨isIdentity, knownNe, knownEq, openNonempty, openEq, -⟩ := normalize_eq_ok fst
  obtain ⟨isIdentity', _, knownEq', _, openEq', decisionsEq⟩ := normalize_eq_ok isSecond
  dsimp only at isIdentity isIdentity' knownEq knownEq' openEq openEq' decisionsEq
  rw [TradingTimelineIdentity.normalize_idem isIdentity] at isIdentity'
  have knownNormal := Ranges.normal_coalesce_sort knownNe
  have openNormal := Ranges.normal_coalesce_sort openNonempty
  rw [← knownEq] at knownNormal
  rw [← openEq] at openNormal
  refine ⟨?_, ?_, fun p => ?_, ?_, fun p => ?_, decisionsEq⟩
  · rw [isIdentity, Except.ok.inj isIdentity']
  · rw [knownEq']
    exact (Ranges.normal_coalesce_sort knownNormal.1).1
  · rw [knownEq', Ranges.covers_coalesce_sort, knownEq, Ranges.covers_coalesce_sort]
  · rw [openEq']
    exact (Ranges.normal_coalesce_sort openNormal.1).1
  · rw [openEq', Ranges.covers_coalesce_sort, openEq, Ranges.covers_coalesce_sort]

end TradingTimelineSnapshot

/-! ## The parts of single days -/

/-- The ranges that a decision adds; none for a decision that cannot be compiled. -/
def rangesOf (byId : List (String × TradingTimelineRule))
    (record : TradingTimelineDecisionRecord) : List (Int × Int) × List (Int × Int) :=
  match recordRanges byId record with
  | .ok ranges => ranges
  | .error _ => ([], [])

theorem recordRanges_eq_rangesOf {rngs : List (Int × Int) × List (Int × Int)}
    (ok : recordRanges byId record = .ok rngs) :
    recordRanges byId record = .ok (rangesOf byId record) := by
  unfold rangesOf
  rw [ok]

theorem openInterval_inside {wnd : TradingTimelineRuleWindow} {ivl : Int × Int}
    (post : 0 ≤ wnd.startOffsetNs) (ok : openInterval record wnd = .ok ivl) :
    record.tradingDayStartNs ≤ ivl.1 ∧ ivl.1 < ivl.2 ∧ ivl.2 ≤ record.tradingDayEndNs := by
  unfold openInterval at ok
  cases lo : I64.checked (record.tradingDayStartNs + wnd.startOffsetNs) with
  | none => simp [lo] at ok
  | some startNs =>
    cases stop : I64.checked (record.tradingDayStartNs + wnd.endOffsetNs) with
    | none => simp [lo, stop] at ok
    | some hi =>
      rw [lo, stop] at ok
      obtain ⟨-, rfl⟩ := I64.checked_eq_some.mp lo
      dsimp only at ok
      split_ifs at ok
      obtain rfl := Except.ok.inj ok
      dsimp only
      omega

/-- The windows of the rules of an index begin after the start of the day. -/
def WindowsAfterStart (byId : List (String × TradingTimelineRule)) : Prop :=
  ∀ ruleId rule, OrdMap.get? ruleId byId = some rule →
    ∀ window ∈ rule.windows, 0 ≤ window.startOffsetNs

theorem checkWindows_after {previousEnd : Option Int} {wnds : List TradingTimelineRuleWindow}
    (ok : checkWindows previousEnd wnds = .ok ()) :
    ∀ wnd ∈ wnds, 0 ≤ wnd.startOffsetNs := by
  induction wnds generalizing previousEnd with
  | nil => intro wnd member; cases member
  | cons hd rest ih =>
    obtain ⟨_, fine, ok⟩ := Result.of_bind ok
    split at ok
    · cases ok
    · intro wnd member
      rcases mem_cons.mp member with rfl | member
      · unfold TradingTimelineRuleWindow.validate at fine
        split_ifs at fine with incr
        omega
      · exact ih ok wnd member

theorem windowsAfterStart_indexRules {rules : List TradingTimelineRule}
    {byId' : List (String × TradingTimelineRule)} (pre : WindowsAfterStart byId)
    (ok : indexRules rules byId = .ok byId') : WindowsAfterStart byId' := by
  induction rules generalizing byId with
  | nil =>
    obtain rfl := Except.ok.inj ok
    exact pre
  | cons rule rules ih =>
    obtain ⟨nrm, isNormal, ok⟩ := Result.of_bind ok
    split at ok
    · cases ok
    · refine ih ?_ ok
      intro ruleId hit isFound wnd mem
      rw [OrdMap.get?_insert] at isFound
      split_ifs at isFound
      · obtain rfl := Option.some.inj isFound
        obtain ⟨_, -, isNormal⟩ := Result.of_bind isNormal
        obtain ⟨_, fine, same⟩ := Result.of_bind isNormal
        obtain rfl := Except.ok.inj same
        exact checkWindows_after fine wnd mem
      · exact pre ruleId hit isFound wnd mem

/-- The ranges of a decision are nonempty and lie inside its day. -/
theorem recordRanges_inside {rngs : List (Int × Int) × List (Int × Int)}
    (post : WindowsAfterStart byId) (ok : recordRanges byId record = .ok rngs) :
    record.range.1 < record.range.2 ∧ ∀ rng, rng ∈ rngs.1 ∨ rng ∈ rngs.2 →
      record.range.1 ≤ rng.1 ∧ rng.1 < rng.2 ∧ rng.2 ≤ record.range.2 := by
  unfold recordRanges at ok
  split at ok
  · cases ok
  · rename_i incr
    have incr : record.range.1 < record.range.2 := not_le.mp incr
    refine ⟨incr, ?_⟩
    split at ok
    · split at ok
      · cases ok
      · rename_i rule hit
        obtain ⟨ivls, opn, same⟩ := Result.of_bind ok
        obtain rfl := Except.ok.inj same
        rintro rng (member | member)
        · obtain rfl := mem_singleton.mp member
          exact ⟨le_rfl, incr, le_rfl⟩
        · obtain ⟨wnd, inRule, isInterval⟩ := Result.of_mem_mapM opn member
          exact openInterval_inside (post _ _ hit wnd inRule) isInterval
    · obtain rfl := Except.ok.inj ok
      rintro rng (member | member) <;> cases member

/-! ## Replacing days -/

namespace TradingTimelineDecisionRecord

def Apart (left right : TradingTimelineDecisionRecord) : Prop :=
  left.tradingDayEndNs ≤ right.tradingDayStartNs ∨ right.tradingDayEndNs ≤ left.tradingDayStartNs

instance : DecidableRel Apart := fun _ _ => inferInstanceAs (Decidable (_ ∨ _))

instance : Std.Symm Apart := ⟨fun _ _ apart => Or.symm apart⟩

theorem Apart.not_both {left right : TradingTimelineDecisionRecord} {p : Int}
    (sep : left.Apart right) (inLeft : left.range.1 ≤ p ∧ p < left.range.2)
    (inRight : right.range.1 ≤ p ∧ p < right.range.2) : False := by
  unfold Apart at sep
  simp only [range] at inLeft inRight
  omega

theorem overlaps_range {left right : TradingTimelineDecisionRecord} :
    overlaps right.range left = true ↔ ¬ left.Apart right := by
  unfold overlaps Apart range
  simp only [decide_eq_true_eq]
  omega

end TradingTimelineDecisionRecord

/-- The days of one list that do not overlap a day of another. -/
def withoutDays (days others : List TradingTimelineDecisionRecord) :
    List TradingTimelineDecisionRecord :=
  days.filter fun record =>
    !(others.map TradingTimelineDecisionRecord.range).any fun range => overlaps range record

section

variable {days : List TradingTimelineDecisionRecord}

theorem mem_withoutDays :
    record ∈ withoutDays days others ↔ record ∈ days ∧ ∀ alt ∈ others, record.Apart alt := by
  unfold withoutDays
  rw [mem_filter]
  refine and_congr_right fun _ => ?_
  simp only [any_map, Bool.not_eq_true', any_eq_false, Function.comp_apply,
    TradingTimelineDecisionRecord.overlaps_range, not_not]

/-- Cutting the other days out leaves the parts of the days that stay. -/
theorem covers_replaced
    (sameOrApart : ∀ record ∈ days, ∀ alt ∈ others, record.range = alt.range ∨ record.Apart alt)
    (inn : ∀ record ∈ days, ∀ p, Ranges.Covers (part record) p →
      record.range.1 ≤ p ∧ p < record.range.2) (p : Int) :
    (Ranges.Covers (days.flatMap part) p ∧
        ¬ Ranges.Covers (others.map TradingTimelineDecisionRecord.range) p) ↔
      Ranges.Covers ((withoutDays days others).flatMap part) p := by
  rw [Ranges.covers_flatMap, Ranges.covers_flatMap]
  constructor
  · rintro ⟨⟨record, mem, cov⟩, out⟩
    refine ⟨record, mem_withoutDays.mpr ⟨mem, fun alt inOthers => ?_⟩, cov⟩
    rcases sameOrApart record mem alt inOthers with same | apart
    · refine absurd ⟨alt.range, mem_map_of_mem inOthers, ?_⟩ out
      rw [← same]
      exact inn record mem p cov
    · exact apart
  · rintro ⟨record, mem, cov⟩
    obtain ⟨inDays, apart⟩ := mem_withoutDays.mp mem
    refine ⟨⟨record, inDays, cov⟩, ?_⟩
    rintro ⟨rng, inRanges, inR⟩
    obtain ⟨alt, inOthers, rfl⟩ := mem_map.mp inRanges
    exact (apart alt inOthers).not_both (inn record inDays p cov) inR

/-- Lists of days that are pairwise apart have one order by their starts. -/
theorem sort_eq_of_perm (perm : days.Perm others)
    (ne : ∀ record ∈ days, record.range.1 < record.range.2)
    (sep : days.Pairwise TradingTimelineDecisionRecord.Apart) :
    days.insertionSort TradingTimelineDecisionRecord.startsBefore =
      others.insertionSort TradingTimelineDecisionRecord.startsBefore := by
  have : Std.Total TradingTimelineDecisionRecord.startsBefore :=
    ⟨fun left right => le_total left.tradingDayStartNs right.tradingDayStartNs⟩
  have : IsTrans _ TradingTimelineDecisionRecord.startsBefore :=
    ⟨fun _ _ _ left right => le_trans left right⟩
  have srt := pairwise_insertionSort TradingTimelineDecisionRecord.startsBefore
  have permuted := perm_insertionSort TradingTimelineDecisionRecord.startsBefore
  refine List.Perm.eq_of_pairwise ?_ (srt days) (srt others)
    (((permuted days).trans perm).trans (permuted others).symm)
  intro left right inDays inOthers le ge
  have inLeft : left ∈ days := (permuted days).mem_iff.mp inDays
  have inRight : right ∈ days := perm.mem_iff.mpr ((permuted others).mem_iff.mp inOthers)
  by_contra different
  have isApart := sep.forall inLeft inRight different
  have leftNonempty := ne left inLeft
  have rightNonempty := ne right inRight
  unfold TradingTimelineDecisionRecord.Apart at isApart
  unfold TradingTimelineDecisionRecord.startsBefore at le ge
  simp only [TradingTimelineDecisionRecord.range] at leftNonempty rightNonempty
  omega

end

theorem withoutDays_perm {days days' others' : List TradingTimelineDecisionRecord}
    (perm : days.Perm days') (othersPerm : others.Perm others') :
    (withoutDays days others).Perm (withoutDays days' others') := by
  have same : withoutDays days' others' = withoutDays days' others := by
    refine filter_congr fun record _ => ?_
    rw [(othersPerm.symm.map _).any_eq]
  rw [same]
  exact perm.filter _

/-! ## Merging is compiling at once -/

theorem recordRanges_congr {byId byId' : List (String × TradingTimelineRule)}
    {record : TradingTimelineDecisionRecord} (agr : ∀ ruleId, record.decision = .unique ruleId →
      OrdMap.get? ruleId byId = OrdMap.get? ruleId byId') :
    recordRanges byId record = recordRanges byId' record := by
  unfold recordRanges
  split
  · rfl
  · split
    · rename_i ruleId decision
      rw [agr ruleId decision]
    · rfl

/-- The parts of a compiled set of days. -/
structure CompiledFrom (identity : TradingTimelineIdentity)
    (byId : List (String × TradingTimelineRule)) (days : List TradingTimelineDecisionRecord)
    (snapshot : TradingTimelineSnapshot) : Prop where
  identity : identity.normalize = .ok snapshot.identity
  known : ∀ range ∈ snapshot.knownRanges, range.1 < range.2
  knownPoints : ∀ point, Ranges.Covers snapshot.knownRanges point ↔
    Ranges.Covers (days.flatMap fun record => (rangesOf byId record).1) point
  open_ : ∀ range ∈ snapshot.openIntervals, range.1 < range.2
  openPoints : ∀ point, Ranges.Covers snapshot.openIntervals point ↔
    Ranges.Covers (days.flatMap fun record => (rangesOf byId record).2) point
  decisions : snapshot.decisions.Perm days
  recorded : ∀ record ∈ days, recordRanges byId record = .ok (rangesOf byId record)
  inside : ∀ record ∈ days, record.range.1 < record.range.2 ∧
    ∀ range, range ∈ (rangesOf byId record).1 ∨ range ∈ (rangesOf byId record).2 →
      record.range.1 ≤ range.1 ∧ range.1 < range.2 ∧ range.2 ≤ record.range.2

theorem compiledFrom {digest : TimelineDigest} {identity : TradingTimelineIdentity}
    {rules : List TradingTimelineRule} {days : List TradingTimelineDecisionRecord}
    (ok : compileTradingTimeline digest identity rules days = .ok snapshot) :
    ∃ byId, indexRules rules [] = .ok byId ∧ CompiledFrom identity byId days snapshot := by
  obtain ⟨byId, ixd, ok⟩ := Result.of_bind ok
  obtain ⟨ps, trav, ok⟩ := Result.of_bind ok
  have post : WindowsAfterStart byId :=
    windowsAfterStart_indexRules (fun _ _ hit => by cases hit) ixd
  have note : ∀ record ∈ days, recordRanges byId record = .ok (rangesOf byId record) := by
    intro record mem
    obtain ⟨_, -, hit⟩ := Result.mem_of_mapM trav mem
    exact recordRanges_eq_rangesOf hit
  rw [Result.mapM_eq_map note] at trav
  obtain rfl := Except.ok.inj trav
  obtain ⟨isIdentity, seen, knownPoints, open_, openPoints, decs⟩ :=
    TradingTimelineSnapshot.make_withDecisions_eq_ok ok
  rw [flatMap_map] at knownPoints openPoints
  refine ⟨byId, ixd, isIdentity, seen, knownPoints, open_, openPoints, ?_, note, ?_⟩
  · rw [decs]
    exact perm_insertionSort _ _
  · exact fun record mem => recordRanges_inside post (note record mem)

/-- The days of one set without those of another, together with the other set, in order. -/
def joinDays (days others : List TradingTimelineDecisionRecord) :
    List TradingTimelineDecisionRecord :=
  (withoutDays days others ++ others).insertionSort TradingTimelineDecisionRecord.startsBefore

/-- The rules that some days were compiled with are those of the catalog. -/
def RulesAgree (catalog rules : List TradingTimelineRule)
    (days : List TradingTimelineDecisionRecord) : Prop :=
  ∃ all byId, indexRules catalog [] = .ok all ∧ indexRules rules [] = .ok byId ∧
    ∀ record ∈ days, ∀ ruleId, record.decision = .unique ruleId →
      OrdMap.get? ruleId all = OrdMap.get? ruleId byId

theorem CompiledFrom.of_agree {identity : TradingTimelineIdentity}
    {byId all : List (String × TradingTimelineRule)} {days : List TradingTimelineDecisionRecord}
    {snapshot : TradingTimelineSnapshot} (compiled : CompiledFrom identity byId days snapshot)
    (agr : ∀ record ∈ days, ∀ ruleId, record.decision = .unique ruleId →
      OrdMap.get? ruleId all = OrdMap.get? ruleId byId) :
    CompiledFrom identity all days snapshot := by
  have same : ∀ record ∈ days, rangesOf all record = rangesOf byId record := by
    intro record mem
    unfold rangesOf
    rw [recordRanges_congr (agr record mem)]
  have hd : (days.flatMap fun record => (rangesOf all record).1) =
      days.flatMap fun record => (rangesOf byId record).1 :=
    flatMap_congr fun record mem => by rw [same record mem]
  have snd : (days.flatMap fun record => (rangesOf all record).2) =
      days.flatMap fun record => (rangesOf byId record).2 :=
    flatMap_congr fun record mem => by rw [same record mem]
  refine { compiled with
    knownPoints := fun p => by rw [hd]; exact compiled.knownPoints p
    openPoints := fun p => by rw [snd]; exact compiled.openPoints p
    recorded := fun record mem => ?_
    inside := fun record mem => by rw [same record mem]; exact compiled.inside record mem }
  rw [recordRanges_congr (agr record mem), same record mem]
  exact compiled.recorded record mem

theorem CompiledFrom.pointInside {identity : TradingTimelineIdentity}
    {byId : List (String × TradingTimelineRule)} {days : List TradingTimelineDecisionRecord}
    {snapshot : TradingTimelineSnapshot} (compiled : CompiledFrom identity byId days snapshot)
    {part : TradingTimelineDecisionRecord → List (Int × Int)}
    (isPart : ∀ record, ∀ rng ∈ part record,
      rng ∈ (rangesOf byId record).1 ∨ rng ∈ (rangesOf byId record).2) :
    ∀ record ∈ days, ∀ p, Ranges.Covers (part record) p →
      record.range.1 ≤ p ∧ p < record.range.2 := by
  rintro record mem p ⟨rng, inPart, lo, stop⟩
  obtain ⟨-, inn⟩ := compiled.inside record mem
  obtain ⟨post, -, pre⟩ := inn rng (isPart record rng inPart)
  exact ⟨post.trans lo, stop.trans_le pre⟩

/-- Cutting the new days out of what the old ones cover and adding the new ones gives the points
of all days compiled at once. -/
theorem covers_merged {days swap : List TradingTimelineDecisionRecord} {old new : List (Int × Int)}
    (sameOrApart : ∀ record ∈ days, ∀ alt ∈ others, record.range = alt.range ∨ record.Apart alt)
    (mem : ∀ record ∈ days, ∀ p, Ranges.Covers (part record) p →
      record.range.1 ≤ p ∧ p < record.range.2)
    (oldPoints : ∀ p, Ranges.Covers old p ↔ Ranges.Covers (days.flatMap part) p)
    (newPoints : ∀ p, Ranges.Covers new p ↔ Ranges.Covers (others.flatMap part) p)
    (perm : swap.Perm others) (p : Int) :
    Ranges.Covers (Ranges.cutAll (swap.map TradingTimelineDecisionRecord.range) old ++ new)
        p ↔
      Ranges.Covers ((joinDays days others).flatMap part) p := by
  rw [Ranges.covers_append, Ranges.covers_cutAll, oldPoints, newPoints,
    Ranges.covers_perm (perm.map TradingTimelineDecisionRecord.range),
    covers_replaced sameOrApart mem, ← Ranges.covers_append, ← flatMap_append]
  exact Ranges.covers_perm ((perm_insertionSort _ _).symm.flatMap_right _)

theorem nonempty_merged {holes old new : List (Int × Int)}
    (oldNonempty : ∀ rng ∈ old, rng.1 < rng.2) (newNonempty : ∀ rng ∈ new, rng.1 < rng.2) :
    ∀ rng ∈ Ranges.cutAll holes old ++ new, rng.1 < rng.2 := by
  intro rng member
  rcases mem_append.mp member with member | member
  · exact Ranges.nonempty_cutAll oldNonempty rng member
  · exact newNonempty rng member

theorem nonempty_flatMap {days : List TradingTimelineDecisionRecord}
    (ne : ∀ record ∈ days, ∀ rng ∈ part record, rng.1 < rng.2) :
    ∀ rng ∈ days.flatMap part, rng.1 < rng.2 := by
  intro rng mem
  obtain ⟨record, inDays, inPart⟩ := mem_flatMap.mp mem
  exact ne record inDays rng inPart

section Merge

variable {digest : TimelineDigest} {identity identity' : TradingTimelineIdentity}
  {catalog rules rules' : List TradingTimelineRule}
  {days days' : List TradingTimelineDecisionRecord}
  {previous candidate : TradingTimelineSnapshot}

theorem withoutDays_apart (apart : days.Pairwise TradingTimelineDecisionRecord.Apart)
    (apart' : days'.Pairwise TradingTimelineDecisionRecord.Apart) :
    (withoutDays days days' ++ days').Pairwise TradingTimelineDecisionRecord.Apart := by
  refine pairwise_append.mpr ⟨apart.filter _, apart', ?_⟩
  exact fun record mem alt inOthers => (mem_withoutDays.mp mem).2 alt inOthers

variable {byId : List (String × TradingTimelineRule)}

theorem compile_of_recorded (ixd : indexRules catalog [] = .ok byId)
    (note : ∀ record ∈ days, recordRanges byId record = .ok (rangesOf byId record)) :
    compileTradingTimeline digest identity catalog days =
      (TradingTimelineSnapshot.make digest identity
          (days.flatMap fun record => (rangesOf byId record).1)
          (days.flatMap fun record => (rangesOf byId record).2) >>=
        (·.withDecisions digest days)) := by
  unfold compileTradingTimeline
  rw [ixd, Result.ok_bind, Result.mapM_eq_map note, Result.ok_bind, flatMap_map, flatMap_map]

/-- The merge of a candidate with days that stay, once its checks have passed. -/
theorem mergeTimeline_of_kept (stays : withoutDays previous.decisions candidate.decisions ≠ [])
    (sameCatalog : previous.identity.ruleCatalogHash = candidate.identity.ruleCatalogHash)
    (sameSym : previous.identity.evidenceSymbol = candidate.identity.evidenceSymbol)
    (evi : ∀ record ∈ withoutDays previous.decisions candidate.decisions,
      record.evidenceHash ≠ none) (decs : (withoutDays previous.decisions candidate.decisions ++
      candidate.decisions).insertionSort TradingTimelineDecisionRecord.startsBefore = days) :
    mergeTimeline digest previous candidate =
      (TradingTimelineSnapshot.make digest
          { candidate.identity with
            evidenceIdentity := decisionEvidenceIdentity digest days }
          (Ranges.cutAll (candidate.decisions.map TradingTimelineDecisionRecord.range)
            previous.knownRanges ++ candidate.knownRanges)
          (Ranges.cutAll (candidate.decisions.map TradingTimelineDecisionRecord.range)
            previous.openIntervals ++ candidate.openIntervals) >>=
        (·.withDecisions digest days)) := by
  have notEmpty : (withoutDays previous.decisions candidate.decisions).isEmpty = false :=
    isEmpty_eq_false_iff.mpr stays
  have proven : (withoutDays previous.decisions candidate.decisions).any
      (fun record => record.evidenceHash.isNone) = false :=
    any_eq_false.mpr fun record mem isNone => evi record mem (Option.isNone_iff_eq_none.mp isNone)
  unfold withoutDays at notEmpty proven decs
  unfold mergeTimeline
  simp only [notEmpty, proven, decs, sameCatalog, sameSym, Bool.false_eq_true, ne_eq,
    not_true_eq_false, or_self, if_false]

/-- The checks of a merge pass for days of the same catalog and symbol. -/
theorem CompiledFrom.same_required {byId' : List (String × TradingTimelineRule)}
    (old : CompiledFrom identity byId days previous)
    (new : CompiledFrom identity' byId' days' candidate)
    (sameCatalog : identity.ruleCatalogHash = identity'.ruleCatalogHash)
    (sameSym : identity.evidenceSymbol = identity'.evidenceSymbol) :
    previous.identity.ruleCatalogHash = candidate.identity.ruleCatalogHash ∧
      previous.identity.evidenceSymbol = candidate.identity.evidenceSymbol := by
  obtain ⟨-, -, sym, hash, -⟩ := TradingTimelineIdentity.normalize_eq_ok.mp old.identity
  obtain ⟨-, -, symbol', hash', -⟩ := TradingTimelineIdentity.normalize_eq_ok.mp new.identity
  rw [sameSym, symbol'] at sym
  rw [sameCatalog, hash'] at hash
  exact ⟨(Except.ok.inj hash).symm, (Except.ok.inj sym).symm⟩

theorem mem_joinDays {record : TradingTimelineDecisionRecord} :
    record ∈ joinDays days days' ↔ record ∈ withoutDays days days' ∨ record ∈ days' := by
  rw [joinDays, (perm_insertionSort _ _).mem_iff, mem_append]

/-- Every joined day is compiled as it was in its own set. -/
theorem CompiledFrom.joined (old : CompiledFrom identity byId days previous)
    (new : CompiledFrom identity' byId days' candidate) :
    ∀ record ∈ joinDays days days',
      recordRanges byId record = .ok (rangesOf byId record) ∧
        record.range.1 < record.range.2 ∧
        ∀ rng, rng ∈ (rangesOf byId record).1 ∨ rng ∈ (rangesOf byId record).2 → rng.1 < rng.2 := by
  intro record member
  rcases mem_joinDays.mp member with member | member
  · have inDays := (mem_withoutDays.mp member).1
    obtain ⟨incr, mem⟩ := old.inside record inDays
    exact ⟨old.recorded record inDays, incr, fun rng part => (mem rng part).2.1⟩
  · obtain ⟨incr, mem⟩ := new.inside record member
    exact ⟨new.recorded record member, incr, fun rng part => (mem rng part).2.1⟩

theorem mergeTimeline_eq
    (compiled : compileTradingTimeline digest identity rules days = .ok previous)
    (compiled' : compileTradingTimeline digest identity' rules' days' = .ok candidate)
    (sameCatalog : identity.ruleCatalogHash = identity'.ruleCatalogHash)
    (sameSym : identity.evidenceSymbol = identity'.evidenceSymbol)
    (agree : RulesAgree catalog rules days) (agree' : RulesAgree catalog rules' days')
    (apart : days.Pairwise TradingTimelineDecisionRecord.Apart)
    (apart' : days'.Pairwise TradingTimelineDecisionRecord.Apart)
    (sameOrApart : ∀ record ∈ days, ∀ alt ∈ days', record.range = alt.range ∨ record.Apart alt)
    (evi : ∀ record ∈ days, record.evidenceHash ≠ none)
    (stays : ∃ record ∈ days, ∀ alt ∈ days', record.range ≠ alt.range) :
    mergeTimeline digest previous candidate =
      compileTradingTimeline digest
        { identity' with
          evidenceIdentity := decisionEvidenceIdentity digest (joinDays days days') }
        catalog (joinDays days days') := by
  obtain ⟨_, indexed, parts⟩ := compiledFrom compiled
  obtain ⟨_, indexed', parts'⟩ := compiledFrom compiled'
  obtain ⟨all, byId, isAll, isIndex, lookup⟩ := agree
  obtain ⟨_, byId', isAll', isIndex', lookup'⟩ := agree'
  obtain rfl := Except.ok.inj (indexed.symm.trans isIndex)
  obtain rfl := Except.ok.inj (indexed'.symm.trans isIndex')
  obtain rfl := Except.ok.inj (isAll.symm.trans isAll')
  have old := parts.of_agree lookup
  have new := parts'.of_agree lookup'
  have join := old.joined new
  have keptPerm : (withoutDays previous.decisions candidate.decisions).Perm
      (withoutDays days days') := withoutDays_perm old.decisions new.decisions
  obtain ⟨record, mem, ne⟩ := stays
  have kept : record ∈ withoutDays days days' := mem_withoutDays.mpr ⟨mem, fun alt inOthers =>
    (sameOrApart record mem alt inOthers).resolve_left (ne alt inOthers)⟩
  have decs : (withoutDays previous.decisions candidate.decisions ++
      candidate.decisions).insertionSort TradingTimelineDecisionRecord.startsBefore =
        joinDays days days' := by
    refine (sort_eq_of_perm (keptPerm.append new.decisions).symm ?_
      (withoutDays_apart apart apart')).symm
    exact fun record mem => (join record (mem_joinDays.mpr (mem_append.mp mem))).2.1
  obtain ⟨catalogHash, sym⟩ := old.same_required new sameCatalog sameSym
  rw [mergeTimeline_of_kept (ne_nil_of_mem (keptPerm.mem_iff.mpr kept)) catalogHash sym
      (fun record mem => evi record (mem_withoutDays.mp (keptPerm.mem_iff.mp mem)).1)
      decs,
    compile_of_recorded isAll fun record mem => (join record mem).1]
  have seen := fun name => normalizeRanges_congr name
    (nonempty_merged old.known new.known)
    (nonempty_flatMap fun record mem rng inPart => (join record mem).2.2 rng (.inl inPart))
    (covers_merged sameOrApart (old.pointInside fun _ _ inPart => .inl inPart) old.knownPoints
      new.knownPoints new.decisions)
  have open_ := fun name => normalizeRanges_congr name
    (nonempty_merged old.open_ new.open_)
    (nonempty_flatMap fun record mem rng inPart => (join record mem).2.2 rng (.inr inPart))
    (covers_merged sameOrApart (old.pointInside fun _ _ inPart => .inr inPart) old.openPoints
      new.openPoints new.decisions)
  rw [TradingTimelineSnapshot.make_congr
    (TradingTimelineIdentity.normalize_withEvidence new.identity _) seen open_]

theorem ranges_ne_of_apart {record alt : TradingTimelineDecisionRecord}
    (sep : record.Apart alt) (incr : record.range.1 < record.range.2) :
    record.range ≠ alt.range := by
  intro same
  exact sep.not_both ⟨le_rfl, incr⟩ (same ▸ ⟨le_rfl, incr⟩)

/-- Merging a compiled set of days into another is compiling, with the rules of the catalog, the
days of the old set that are not in the new one together with the new ones; and sets without a
common day may be merged in either order. -/
theorem mergeTimeline_eq_compile
    (compiled : compileTradingTimeline digest identity rules days = .ok previous)
    (compiled' : compileTradingTimeline digest identity' rules' days' = .ok candidate)
    (sameCatalog : identity.ruleCatalogHash = identity'.ruleCatalogHash)
    (sameSymbol : identity.evidenceSymbol = identity'.evidenceSymbol)
    (agree : RulesAgree catalog rules days) (agree' : RulesAgree catalog rules' days')
    (apart : days.Pairwise TradingTimelineDecisionRecord.Apart)
    (apart' : days'.Pairwise TradingTimelineDecisionRecord.Apart)
    (sameOrApart : ∀ record ∈ days, ∀ other ∈ days',
      record.range = other.range ∨ record.Apart other)
    (evidence : ∀ record ∈ days, record.evidenceHash ≠ none)
    (stays : ∃ record ∈ days, ∀ other ∈ days', record.range ≠ other.range) :
    mergeTimeline digest previous candidate =
        compileTradingTimeline digest
          { identity' with
            evidenceIdentity := decisionEvidenceIdentity digest (joinDays days days') }
          catalog (joinDays days days') ∧
      (identity.exchange = identity'.exchange → identity.product = identity'.product →
        (∀ record ∈ days, ∀ other ∈ days', record.Apart other) → days' ≠ [] →
        (∀ record ∈ days', record.evidenceHash ≠ none) →
        mergeTimeline digest candidate previous = mergeTimeline digest previous candidate) := by
  have merged := mergeTimeline_eq compiled compiled' sameCatalog sameSymbol agree agree' apart
    apart' sameOrApart evidence stays
  refine ⟨merged, fun sameExchange sameProduct allApart ne evidence' => ?_⟩
  obtain ⟨_, _, old⟩ := compiledFrom compiled
  obtain ⟨_, _, new⟩ := compiledFrom compiled'
  have allApart' : ∀ record ∈ days', ∀ other ∈ days, record.Apart other :=
    fun record member other inDays => symm (allApart other inDays record member)
  obtain ⟨hd, inDays'⟩ := exists_mem_of_ne_nil days' ne
  have swapped := mergeTimeline_eq compiled' compiled sameCatalog.symm sameSymbol.symm agree' agree
    apart' apart (fun record member other inDays => .inr (allApart' record member other inDays))
    evidence' ⟨hd, inDays', fun other inDays =>
      ranges_ne_of_apart (allApart' hd inDays' other inDays) (new.inside hd inDays').1⟩
  -- nothing is left out on either side, so the joined days are the same list
  have keepsAll : withoutDays days days' = days :=
    filter_eq_self.mpr fun record member =>
      (mem_filter.mp (mem_withoutDays.mpr ⟨member, allApart record member⟩)).2
  have keepsAll' : withoutDays days' days = days' :=
    filter_eq_self.mpr fun record member =>
      (mem_filter.mp (mem_withoutDays.mpr ⟨member, allApart' record member⟩)).2
  have sameDays : joinDays days' days = joinDays days days' := by
    unfold joinDays
    rw [keepsAll, keepsAll']
    refine sort_eq_of_perm perm_append_comm ?_ ?_
    · intro record member
      rcases mem_append.mp member with member | member
      · exact (new.inside record member).1
      · exact (old.inside record member).1
    · exact pairwise_append.mpr ⟨apart', apart, allApart'⟩
  rw [merged, swapped, sameDays, sameExchange, sameProduct, sameCatalog, sameSymbol]

end Merge

/-! ## Two sets of days that share one -/

def sampleDigest : TimelineDigest where
  snapshot snapshot := "sha256:" ++ toString snapshot.decisions.length
  evidence parts := "sha256:" ++ toString parts.length

def sampleIdentity : TradingTimelineIdentity :=
  ⟨"SHFE", "rb", "KQ.i@SHFE.rb", "sha256:catalog", "sha256:evidence"⟩

def sampleRules : List TradingTimelineRule :=
  [⟨"day", [⟨0, nanosPerMinute⟩]⟩, ⟨"night", [⟨0, nanosPerDay⟩]⟩]

def sampleDay (day : Int) (ruleId : String) : TradingTimelineDecisionRecord :=
  ⟨day * nanosPerDay, (day + 1) * nanosPerDay, .unique ruleId, some "sha256:rows"⟩

/-- The middle day is replaced; the days are joined by it. -/
theorem mergeTimeline_eq_compile_sharedDay :
    ∃ previous candidate,
      compileTradingTimeline sampleDigest sampleIdentity sampleRules
        [sampleDay 0 "night", sampleDay 1 "night"] = .ok previous ∧
      compileTradingTimeline sampleDigest sampleIdentity sampleRules
        [sampleDay 1 "day", sampleDay 2 "day"] = .ok candidate ∧
      mergeTimeline sampleDigest previous candidate =
        compileTradingTimeline sampleDigest
          { sampleIdentity with evidenceIdentity := "sha256:3" } sampleRules
          [sampleDay 0 "night", sampleDay 1 "day", sampleDay 2 "day"] := by
  have agr : ∀ days, RulesAgree sampleRules sampleRules days :=
    fun days => ⟨_, _, rfl, rfl, fun _ _ _ _ => rfl⟩
  refine ⟨_, _, rfl, rfl, ?_⟩
  exact (mergeTimeline_eq_compile
    (show compileTradingTimeline sampleDigest sampleIdentity sampleRules
      [sampleDay 0 "night", sampleDay 1 "night"] = .ok _ from rfl)
    (show compileTradingTimeline sampleDigest sampleIdentity sampleRules
      [sampleDay 1 "day", sampleDay 2 "day"] = .ok _ from rfl)
    rfl rfl (agr _) (agr _) (by decide +kernel) (by decide +kernel) (by decide +kernel)
    (by decide +kernel) (by decide +kernel)).1

end Tqsdk
