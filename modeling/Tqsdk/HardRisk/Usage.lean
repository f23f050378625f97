import Mathlib.Data.List.Infix
import Mathlib.Tactic.Ring
import Tqsdk.HardRisk.SubmitOnce

/-!
# Daily limits across policies

What an order is reserved for is decided by the policy under which it is prepared, and the
limits of a later policy are checked against what has been reserved.  So the recorded usage of
a rule is, after every run, the sum over the orders whose policy configured the rule.  A limit
holds for all orders of the trading day when all of them were prepared under such policies.
-/

namespace Tqsdk

open List Option

/-! ## What a policy reserves -/

namespace HardRiskRule

/-- Whether an order counts towards the rule. -/
def counts : HardRiskRule → HardRiskOrderRequest → Bool
  | .orderAttempt, _ => true
  | .openVolume, request => request.offset.isOpen

/-- What an order counts towards the rule. -/
def spent : HardRiskRule → HardRiskOrderRequest → Int
  | .orderAttempt, _ => 1
  | .openVolume, request => if request.offset.isOpen then request.volume else 0

end HardRiskRule

namespace HardRiskPolicy

def limit (policy : HardRiskPolicy) : HardRiskRule → Option Int
  | .orderAttempt => policy.maxOrderAttempts
  | .openVolume => policy.maxOpenVolume

/-- The policy reserves what the order counts, for each rule that it configures. -/
theorem mem_ruleRequests {policy : HardRiskPolicy} {request : HardRiskOrderRequest}
    {rule : HardRiskRule} {lim : Int} (conf : policy.limit rule = some lim)
    (cts : rule.counts request = true) :
    ⟨rule, rule.spent request, lim⟩ ∈ policy.ruleRequests request := by
  unfold ruleRequests
  cases rule with
  | orderAttempt =>
    have conf : policy.maxOrderAttempts = some lim := conf
    rw [conf]
    exact mem_append_left _ (mem_singleton_self _)
  | openVolume =>
    have conf : policy.maxOpenVolume = some lim := conf
    have opens : request.offset.isOpen = true := cts
    rw [conf, if_pos opens, HardRiskRule.spent, if_pos opens]
    exact mem_append_right _ (mem_singleton_self _)

/-- What the policy reserves of a rule for an order. -/
def amount (policy : HardRiskPolicy) (rule : HardRiskRule) (request : HardRiskOrderRequest) : Int :=
  (((policy.ruleRequests request).filter (·.ruleId = rule)).map (·.amount)).sum

theorem amount_eq_spent {policy : HardRiskPolicy} {rule : HardRiskRule}
    {request : HardRiskOrderRequest}
    (cov : rule.counts request = true → (policy.limit rule).isSome = true) :
    policy.amount rule request = rule.spent request := by
  unfold amount ruleRequests
  cases rule with
  | orderAttempt =>
    obtain ⟨lim, conf⟩ := isSome_iff_exists.mp (cov rfl)
    have conf : policy.maxOrderAttempts = some lim := conf
    rw [conf]
    cases request.offset.isOpen <;> cases policy.maxOpenVolume <;> simp [HardRiskRule.spent]
  | openVolume =>
    cases opens : request.offset.isOpen with
    | false => cases policy.maxOrderAttempts <;> simp [HardRiskRule.spent, opens]
    | true =>
      obtain ⟨lim, conf⟩ := isSome_iff_exists.mp (cov opens)
      have conf : policy.maxOpenVolume = some lim := conf
      rw [conf]
      cases policy.maxOrderAttempts <;> simp [HardRiskRule.spent, opens]

end HardRiskPolicy

/-! ## The usage of the database -/

namespace HardRiskDatabase

variable (db : HardRiskDatabase)

/-- The admitted orders, oldest first, with the policies they were prepared under. -/
def admissions : List (HardRiskOrderRequest × HardRiskPolicyRevision) :=
  db.orders.map fun entry => (entry.2.request, entry.2.policyRevision)

/-- What was reserved of a rule for an admitted order. -/
def reserved (rule : HardRiskRule) (admission : HardRiskOrderRequest × HardRiskPolicyRevision) :
    Int :=
  (db.readPolicyVersion admission.1.scope.policyScope admission.2).elim 0 fun row =>
    row.policy.amount rule admission.1

/-- Neither orders nor usage are added, and no version of a policy changes. -/
structure SpendsNothing (db db' : HardRiskDatabase) : Prop where
  admissions : db'.admissions = db.admissions
  usage : db'.dailyUsage = db.dailyUsage
  versions : ∀ scope revision row, db.readPolicyVersion scope revision = some row →
    db'.readPolicyVersion scope revision = some row

theorem SpendsNothing.refl : db.SpendsNothing db :=
  ⟨rfl, rfl, fun _ _ _ got => got⟩

theorem SpendsNothing.trans {db db' db'' : HardRiskDatabase} (hd : db.SpendsNothing db')
    (snd : db'.SpendsNothing db'') : db.SpendsNothing db'' :=
  ⟨snd.admissions.trans hd.admissions, snd.usage.trans hd.usage,
    fun sc rev row got => snd.versions sc rev row (hd.versions sc rev row got)⟩

theorem readActivePolicy_version {db : HardRiskDatabase} {sc : HardRiskPolicyScope}
    {policy : HardRiskPolicyRecord} (act : db.readActivePolicy sc = some policy) :
    ∃ row, db.readPolicyVersion sc policy.revision = some row ∧ row.policy = policy.policy := by
  unfold readActivePolicy at act
  split at act
  · cases act
  · obtain ⟨row, got, rfl⟩ := map_eq_some_iff.mp act
    exact ⟨row, got, rfl⟩

theorem Moved.spendsNothing {db db' : HardRiskDatabase} {key : HardRiskOrderKey}
    {pre post : HardRiskOrderRecord} (move : db.Moved db' key pre post) :
    db.SpendsNothing db' := by
  obtain ⟨chg, -, kept, ords⟩ := move.orders
  refine ⟨?_, move.usage.1, ?_⟩
  · rw [HardRiskDatabase.admissions, HardRiskDatabase.admissions, ords]
    refine Table.map_modify key (fun _ row => ?_) db.orders
    dsimp only
    rw [(kept row).1, (kept row).2.2]
  · intro sc rev row got
    rw [readPolicyVersion, move.policies.1]
    exact got

theorem Swept.spendsNothing {db db' : HardRiskDatabase} (swept : Swept db db') :
    db.SpendsNothing db' := by
  induction swept with
  | refl => exact .refl _
  | tail _ last ih =>
    obtain ⟨key, pre, why, now, became⟩ := last
    exact ih.trans became.moved.spendsNothing

end HardRiskDatabase

namespace HardRiskAuthority

open HardRiskDatabase

section

variable (db : HardRiskDatabase) (request : HardRiskOrderRequest)

include db request

theorem readUsage_reserve (now : Int) (resv : RuleReservation) (sc : HardRiskScope)
    (rule : HardRiskRule) :
    (reserve request now db resv).readUsage sc rule = db.readUsage sc rule +
      if sc = request.scope ∧ resv.ruleId = rule then resv.amount else 0 := by
  rw [readUsage, readUsage, reserve, Table.get?_upsert]
  by_cases here : sc = request.scope ∧ resv.ruleId = rule
  · obtain ⟨rfl, rfl⟩ := here
    rw [if_pos rfl, if_pos ⟨rfl, rfl⟩]
    cases Table.get? (request.scope, resv.ruleId) db.dailyUsage with
    | none => simp
    | some row => rfl
  · rw [if_neg here, if_neg, Int.add_zero]
    rintro ⟨⟩
    exact here ⟨rfl, rfl⟩

theorem readUsage_foldl_reserve (now : Int) (rules : List RuleReservation) (sc : HardRiskScope)
    (rule : HardRiskRule) :
    (rules.foldl (reserve request now) db).readUsage sc rule = db.readUsage sc rule +
      if sc = request.scope then ((rules.filter (·.ruleId = rule)).map (·.amount)).sum
      else 0 := by
  induction rules generalizing db with
  | nil => simp
  | cons resv rules ih =>
    rw [foldl_cons, ih, readUsage_reserve]
    by_cases here : sc = request.scope
    · by_cases same : resv.ruleId = rule
      · simp [here, same, Int.add_assoc]
      · simp [here, same]
    · simp [here]

variable (fingerprint : String)

variable (policy : HardRiskPolicyRecord)

theorem readUsage_insertPrepared (now : Int) (sc : HardRiskScope) (rule : HardRiskRule) :
    (insertPrepared db request fingerprint policy now).readUsage sc rule = db.readUsage sc rule +
      if sc = request.scope then policy.policy.amount rule request else 0 :=
  readUsage_foldl_reserve _ request now (policy.policy.ruleRequests request) sc rule

theorem admissions_insertPrepared (now : Int) :
    (insertPrepared db request fingerprint policy now).admissions =
      db.admissions ++ [(request, policy.revision)] := by
  rw [admissions, (insertPrepared_frame _ request fingerprint policy now).1, Table.insert, map_append]
  rfl

theorem readPolicyVersion_insertPrepared (now : Int) (sc : HardRiskPolicyScope)
    (rev : HardRiskPolicyRevision) :
    (insertPrepared db request fingerprint policy now).readPolicyVersion sc rev =
      db.readPolicyVersion sc rev := by
  unfold insertPrepared
  obtain ⟨usage, ress, post⟩ := foldl_reserve_frame { db with
    orders := Table.insert request.key (preparedOrder request fingerprint policy now) db.orders }
    request now (policy.policy.ruleRequests request)
  dsimp only
  rw [post]
  rfl

end

/-- A limit that was checked leaves room for the reservation. -/
theorem checkLimits_ok {db : HardRiskDatabase} {sc : HardRiskScope} {rules : List RuleReservation}
    (wtn : checkLimits db sc rules = .ok ()) {resv : RuleReservation} (mem : resv ∈ rules) :
    db.readUsage sc resv.ruleId + resv.amount ≤ resv.limit := by
  induction rules with
  | nil => cases mem
  | cons hd rules ih =>
    rw [checkLimits] at wtn
    split at wtn
    · cases wtn
    · split at wtn
      · cases wtn
      · rename_i room
        rcases mem_cons.mp mem with rfl | later
        · exact Int.not_lt.mp room
        · exact ih wtn later

/-! ## Every run -/

/-- The order that an answer reports as newly prepared. -/
def preparedRequest : Except HardRiskError HardRiskAnswer → Option HardRiskOrderRequest
  | .ok (.prepare (.prepared record)) => some record.request
  | _ => none

/-- The usage of a rule is what the policies of the day's orders have reserved. -/
structure Accounted (answers : List (Except HardRiskError HardRiskAnswer))
    (db : HardRiskDatabase) : Prop where
  requests : db.admissions.map Prod.fst = answers.filterMap preparedRequest
  versions : ∀ admission ∈ db.admissions,
    (db.readPolicyVersion admission.1.scope.policyScope admission.2).isSome = true
  usage : ∀ scope rule, db.readUsage scope rule =
    ((db.admissions.filter (·.1.scope = scope)).map (db.reserved rule)).sum

theorem empty_accounted : Accounted [] .empty :=
  ⟨rfl, fun _ mem => absurd mem not_mem_nil, fun _ _ => rfl⟩

section Step

variable {answers : List (Except HardRiskError HardRiskAnswer)}
  {answer : Except HardRiskError HardRiskAnswer} {db db' : HardRiskDatabase}
  (pre : Accounted answers db)

include pre

theorem Accounted.spendsNothing (frm : db.SpendsNothing db')
    (alt : preparedRequest answer = none) : Accounted (answers ++ [answer]) db' := by
  have same : ∀ adm ∈ db.admissions, ∀ rule,
      db'.reserved rule adm = db.reserved rule adm := by
    intro adm mem rule
    obtain ⟨row, got⟩ := isSome_iff_exists.mp (pre.versions adm mem)
    rw [reserved, reserved, got, frm.versions _ _ _ got]
  refine ⟨?_, ?_, ?_⟩
  · rw [frm.admissions, pre.requests, filterMap_append]
    simp [alt]
  · rw [frm.admissions]
    intro adm mem
    obtain ⟨row, got⟩ := isSome_iff_exists.mp (pre.versions adm mem)
    rw [frm.versions _ _ _ got]
    rfl
  · intro sc rule
    have usage : db'.readUsage sc rule = db.readUsage sc rule := by
      rw [readUsage, readUsage, frm.usage]
    rw [usage, pre.usage, frm.admissions]
    refine congrArg List.sum (map_congr_left fun adm mem => ?_)
    exact (same adm (mem_of_mem_filter mem) rule).symm

theorem Accounted.prepared {request : HardRiskOrderRequest} {fingerprint : String}
    {policy : HardRiskPolicyRecord} {now : Int}
    (act : db.readActivePolicy request.scope.policyScope = some policy)
    (repd : preparedRequest answer = some request) :
    Accounted (answers ++ [answer])
      (insertPrepared { db with maxObservedAtMs := now } request fingerprint policy
        now) := by
  obtain ⟨row, got, same⟩ := readActivePolicy_version act
  have versions (sc : HardRiskPolicyScope) (revision : HardRiskPolicyRevision) :
      (insertPrepared { db with maxObservedAtMs := now } request fingerprint policy
        now).readPolicyVersion sc revision = db.readPolicyVersion sc revision :=
    readPolicyVersion_insertPrepared _ request fingerprint policy now sc revision
  have plus : (insertPrepared { db with maxObservedAtMs := now } request fingerprint
      policy now).admissions = db.admissions ++ [(request, policy.revision)] :=
    admissions_insertPrepared _ request fingerprint policy now
  refine ⟨?_, ?_, ?_⟩
  · rw [plus, map_append, pre.requests, filterMap_append]
    simp [repd]
  · rw [plus]
    intro adm mem
    rw [versions]
    rcases mem_append.mp mem with old | new
    · exact pre.versions adm old
    · obtain rfl := mem_singleton.mp new
      rw [got]
      rfl
  · intro sc rule
    have kept : (insertPrepared { db with maxObservedAtMs := now } request fingerprint
        policy now).reserved rule = db.reserved rule := by
      funext adm
      rw [reserved, reserved, versions]
    have new : db.reserved rule (request, policy.revision) = policy.policy.amount rule request := by
      rw [reserved, got, elim_some, same]
    have usage : db.readUsage sc rule = _ := pre.usage sc rule
    rw [readUsage_insertPrepared, plus, kept, filter_append, map_append, sum_append]
    change db.readUsage sc rule + _ = _
    rw [usage]
    congr 1
    by_cases here : sc = request.scope
    · simp [here, new]
    · simp [here, Ne.symm here]

end Step

/-- What a call can do to the usage: it spends nothing, or it prepares an order under the
active policy. -/
inductive Spends (db : HardRiskDatabase) (call : HardRiskCall) : Committed HardRiskAnswer → Prop
  | nothing {answer : Except HardRiskError HardRiskAnswer} {db' : HardRiskDatabase}
      (frame : db.SpendsNothing db') (other : preparedRequest answer = none) :
      Spends db call (answer, db')
  | prepared {request : HardRiskOrderRequest} {policy : HardRiskPolicyRecord}
      (asked : call = .prepare request) (fingerprint : String) (now : Int)
      (active : db.readActivePolicy request.scope.policyScope = some policy)
      (within : checkLimits db request.scope (policy.policy.ruleRequests request) = .ok ()) :
      Spends db call (.ok (.prepare (.prepared (preparedOrder request fingerprint policy now))),
        insertPrepared { db with maxObservedAtMs := now } request fingerprint policy now)

theorem Spends.accounted {answers : List (Except HardRiskError HardRiskAnswer)}
    {db : HardRiskDatabase} {call : HardRiskCall} {out : Committed HardRiskAnswer}
    (pre : Accounted answers db) (spends : Spends db call out) :
    Accounted (answers ++ [out.1]) out.2 := by
  cases spends with
  | nothing frm alt => exact pre.spendsNothing frm alt
  | prepared asked fingerprint now act win => exact pre.prepared act rfl

section Calls

variable {db : HardRiskDatabase} {call : HardRiskCall} {key : HardRiskOrderKey}

theorem SubmissionResult.spends {out : Committed HardRiskSubmissionOutcome}
    (res : SubmissionResult db key out) : Spends db call (out.answer .submission) := by
  cases res with
  | failed err raw => exact .nothing (.refl db) rfl
  | kept rcd => exact .nothing (.refl db) rfl
  | expired rcd now => exact .nothing now.moved.spendsNothing rfl
  | granted pmt move prep same => exact .nothing move.spendsNothing rfl

theorem PrepareResult.spends {request : HardRiskOrderRequest}
    {out : Committed HardRiskPrepareOutcome} (res : PrepareResult db request out) :
    Spends db (.prepare request) (out.answer .prepare) := by
  cases res with
  | failed err raw => exact .nothing (.refl db) rfl
  | kept rcd => exact .nothing (.refl db) rfl
  | prepared fingerprint now pos free act win => exact .prepared rfl fingerprint now act win

theorem InstallResult.spends {out : Committed HardRiskPolicyRecord}
    (res : InstallResult db out) : Spends db call (out.answer .policy) := by
  cases res with
  | failed err raw => exact .nothing (.refl db) rfl
  | installed rcd ords evs usage versions =>
    exact .nothing ⟨by rw [admissions, admissions, ords], usage.1, versions⟩ rfl

theorem IndeterminateResult.spends {out : Committed HardRiskOrderRecord}
    (res : IndeterminateResult db key out) : Spends db call (out.answer .order) := by
  cases res with
  | failed err raw => exact .nothing (.refl db) rfl
  | kept rcd seen => exact .nothing (.refl db) rfl
  | became rcd became => exact .nothing became.moved.spendsNothing rfl

theorem TerminalResult.spends {out : Committed HardRiskOrderRecord}
    (res : TerminalResult db key out) : Spends db call (out.answer .order) := by
  cases res with
  | failed err raw => exact .nothing (.refl db) rfl
  | kept rcd => exact .nothing (.refl db) rfl
  | moved rcd moved => exact .nothing moved.spendsNothing rfl

theorem RecoveryResult.spends {out : Committed (List HardRiskOrderRecord)}
    (res : RecoveryResult db out) : Spends db call (out.answer .recovered) := by
  cases res with
  | failed err raw => exact .nothing (.refl db) rfl
  | recovered recs now swept =>
    have clock : db.SpendsNothing { db with maxObservedAtMs := now } :=
      ⟨rfl, rfl, fun _ _ _ got => got⟩
    exact .nothing (clock.trans swept.spendsNothing) rfl

theorem recordSubmitted_spends (keyed : db.Keyed) (env : HardRiskEnv) (clock : Except String Int)
    (pmt : HardRiskSubmissionPermit) (rcpt : HardRiskRuntimeReceipt) :
    Spends db call ((recordSubmitted env db clock pmt rcpt).answer .order) := by
  unfold recordSubmitted
  cases pmt.refusal rcpt with
  | none =>
    have res := recordReceipt_result keyed clock pmt rcpt
    dsimp only
    generalize recordReceipt db clock pmt rcpt = out at res ⊢
    cases res with
    | failed err raw => exact .nothing (.refl db) rfl
    | kept rcd => exact .nothing (.refl db) rfl
    | expired became => exact .nothing became.moved.spendsNothing rfl
    | submitted rcd move => exact .nothing move.spendsNothing rfl
  | some ref =>
    have res := recordIndeterminate_result keyed clock pmt (ref.reason env)
    dsimp only
    generalize recordIndeterminate db clock pmt (ref.reason env) = out at res ⊢
    cases res with
    | failed err raw => exact .nothing (.refl db) rfl
    | kept rcd seen => exact .nothing (.refl db) rfl
    | became rcd became => exact .nothing became.moved.spendsNothing rfl

theorem perform_spends (keyed : db.Keyed) (env : HardRiskEnv) (invoc : HardRiskInvocation) :
    Spends db invoc.call (perform env db invoc) := by
  unfold perform
  split
  · exact .nothing (.refl db) rfl
  · cases invoc.call with
    | installPolicy sc policy expn => exact (installPolicy_result _ env sc policy expn).spends
    | prepare request => exact (prepare_result _ env request).spends
    | beginSubmission lease idt ownerId =>
      exact (beginSubmission_result keyed _ lease idt ownerId).spends
    | recordSubmitted pmt rcpt => exact recordSubmitted_spends keyed env _ pmt rcpt
    | recordIndeterminate pmt why => exact (recordIndeterminate_result keyed _ pmt why).spends
    | observeTerminal idt obs => exact (observeTerminal_result _ idt obs).spends
    | reconcileTerminal snap idt obs => exact (reconcileTerminal_result _ snap idt obs).spends
    | recoverExpiredSubmissions readiness =>
      exact (recoverExpiredSubmissions_result keyed _ readiness).spends

end Calls

theorem run_accounted (env : HardRiskEnv) (invs : List HardRiskInvocation) :
    Accounted (run env invs).1 (run env invs).2 := by
  induction invs using List.reverseRecOn with
  | nil => exact empty_accounted
  | append_singleton invs next ih =>
    rw [run_concat]
    exact (perform_spends (run_sendsOnce env invs).keyed env next).accounted ih

/-! ## The limits -/

/-- Of a rule that the active policy checks for the request, the policy of every order of the
day that counts towards it has configured it, too. -/
def rulesKept (db : HardRiskDatabase) (request : HardRiskOrderRequest) : Bool :=
  match db.readActivePolicy request.scope.policyScope with
  | none => true
  | some policy =>
    (policy.policy.ruleRequests request).all fun reservation =>
      db.orders.all fun entry =>
        entry.2.request.scope != request.scope ||
        !reservation.ruleId.counts entry.2.request ||
        (db.readPolicyVersion request.scope.policyScope entry.2.policyRevision).any fun row =>
          (row.policy.limit reservation.ruleId).isSome

/-- The limits of the policy, over the orders prepared so far for the scope of the request. -/
structure WithinLimits (policy : HardRiskPolicy) (request : HardRiskOrderRequest)
    (prepared : List HardRiskOrderRequest) : Prop where
  attempts : ∀ limit, policy.maxOrderAttempts = some limit →
    ((prepared.filter (·.scope = request.scope)).length : Int) ≤ limit
  volume : ∀ limit, policy.maxOpenVolume = some limit → request.offset.isOpen = true →
    ((prepared.filter fun order => order.scope = request.scope ∧ order.offset.isOpen).map
      (·.volume)).sum ≤ limit

/-- What a list of orders has spent of a rule in a scope. -/
def totalSpent (rule : HardRiskRule) (scope : HardRiskScope)
    (prepared : List HardRiskOrderRequest) : Int :=
  ((prepared.filter (·.scope = scope)).map rule.spent).sum

theorem totalSpent_attempts (sc : HardRiskScope) (prep : List HardRiskOrderRequest) :
    totalSpent .orderAttempt sc prep = (prep.filter (·.scope = sc)).length := by
  unfold totalSpent
  induction prep.filter (·.scope = sc) with
  | nil => rfl
  | cons ord ords ih =>
    rw [map_cons, sum_cons, ih, HardRiskRule.spent, length_cons]
    push_cast
    ring

theorem totalSpent_volume (sc : HardRiskScope) (prep : List HardRiskOrderRequest) :
    totalSpent .openVolume sc prep =
      ((prep.filter fun ord => ord.scope = sc ∧ ord.offset.isOpen).map
        (·.volume)).sum := by
  unfold totalSpent
  induction prep with
  | nil => rfl
  | cons ord ords ih =>
    by_cases here : ord.scope = sc <;> cases opens : ord.offset.isOpen <;>
      simp_all [HardRiskRule.spent]

section

variable {answers : List (Except HardRiskError HardRiskAnswer)} {db : HardRiskDatabase}
  (accounted : Accounted answers db)

include accounted

/-- The recorded usage of a rule is all that was spent of it, when no policy of the day left it
out. -/
theorem Accounted.usage_eq_totalSpent {sc : HardRiskScope} {rule : HardRiskRule}
    (cov : ∀ adm ∈ db.admissions, adm.1.scope = sc →
      rule.counts adm.1 = true →
      (db.readPolicyVersion sc.policyScope adm.2).any
        (fun row => (row.policy.limit rule).isSome) = true) :
    db.readUsage sc rule = totalSpent rule sc (answers.filterMap preparedRequest) := by
  rw [accounted.usage, ← accounted.requests, totalSpent, List.filter_map, List.map_map]
  refine congrArg List.sum (map_congr_left fun adm mem => ?_)
  obtain ⟨got, here⟩ := mem_filter.mp mem
  have here : adm.1.scope = sc := of_decide_eq_true here
  obtain ⟨row, version⟩ := isSome_iff_exists.mp (accounted.versions adm got)
  rw [reserved, version, elim_some]
  refine HardRiskPolicy.amount_eq_spent fun cts => ?_
  have conf := cov adm got here cts
  rw [← here, version] at conf
  exact conf

/-- The check of `prepare` bounds everything that was spent. -/
theorem Accounted.within {request : HardRiskOrderRequest} {policy : HardRiskPolicyRecord}
    (act : db.readActivePolicy request.scope.policyScope = some policy)
    (wtn : checkLimits db request.scope (policy.policy.ruleRequests request) = .ok ())
    (kept : rulesKept db request = true) {rule : HardRiskRule} {lim : Int}
    (conf : policy.policy.limit rule = some lim) (cts : rule.counts request = true) :
    totalSpent rule request.scope (answers.filterMap preparedRequest ++ [request]) ≤ lim := by
  have chk := HardRiskPolicy.mem_ruleRequests conf cts
  have room := checkLimits_ok wtn chk
  have usage : db.readUsage request.scope rule = _ :=
    accounted.usage_eq_totalSpent fun adm mem here cnt => by
      rw [rulesKept, act] at kept
      have all := all_eq_true.mp (all_eq_true.mp kept _ chk)
      obtain ⟨ent, got, rfl⟩ := mem_map.mp mem
      have one := all ent got
      dsimp only at here cnt
      simpa [here, cnt] using one
  have sum : totalSpent rule request.scope (answers.filterMap preparedRequest ++ [request]) =
      totalSpent rule request.scope (answers.filterMap preparedRequest) + rule.spent request := by
    simp [totalSpent]
  rw [sum, ← usage]
  exact room

end

/-- The steps of a run, each with the calls before it. -/
def steps (invocations : List HardRiskInvocation) :
    List (List HardRiskInvocation × HardRiskInvocation) :=
  invocations.inits.zip invocations

/-- The condition on a step: at a `prepare`, the rules have been kept so far. -/
def rulesKeptAt (env : HardRiskEnv) (step : List HardRiskInvocation × HardRiskInvocation) :
    Bool :=
  match step.2.call with
  | .prepare request => rulesKept (run env step.1).2 request
  | _ => true

/-- In every run in which the policies of a trading day keep the rules that are checked later,
every `prepare` that returns `Prepared` has left the day's orders within the limits of the
policy that is active then. -/
theorem run_within_limits (env : HardRiskEnv) (invocations : List HardRiskInvocation)
    (kept : ∀ step ∈ steps invocations, rulesKeptAt env step = true) :
    ∀ step ∈ steps invocations, ∀ request record policy, step.2.call = .prepare request →
      (perform env (run env step.1).2 step.2).1 = .ok (.prepare (.prepared record)) →
      (run env step.1).2.readActivePolicy request.scope.policyScope = some policy →
      WithinLimits policy.policy request
        ((run env (step.1 ++ [step.2])).1.filterMap preparedRequest) := by
  intro step mem request record policy asked ans active
  have cond := kept step mem
  rw [rulesKeptAt, asked] at cond
  have accounted := run_accounted env step.1
  have spends := perform_spends (run_sendsOnce env step.1).keyed env step.2
  rw [run_concat, filterMap_append]
  generalize perform env (run env step.1).2 step.2 = out at ans spends ⊢
  cases spends with
  | nothing frm alt =>
    dsimp only at ans
    rw [ans] at alt
    cases alt
  | @prepared request' policy' asked' fingerprint now active' win =>
    obtain rfl : request = request' := by
      rw [asked] at asked'
      cases asked'
      rfl
    obtain rfl : policy = policy' := some.inj (active.symm.trans active')
    have bnd (rule : HardRiskRule) (lim : Int)
        (conf : policy.policy.limit rule = some lim)
        (counts : rule.counts request = true) :=
      accounted.within active win cond conf counts
    constructor
    · intro lim conf
      have tries := bnd .orderAttempt lim conf rfl
      rw [totalSpent_attempts] at tries
      exact tries
    · intro lim conf opens
      have vol := bnd .openVolume lim conf opens
      rw [totalSpent_volume] at vol
      exact vol

/-- A second policy with the limit of the first and one attempt a day. -/
def attemptPolicy : HardRiskPolicy := ⟨"limits", "v2", some 1, some 10, .countPreparedAttempt⟩

/-- The policy drops the attempts between the two orders. -/
def relaxedRun : List HardRiskInvocation :=
  [⟨.installPolicy ⟨"live", "acc"⟩ attemptPolicy .absent, .ok 1, none⟩,
    ⟨.prepare (sampleRequest "c2"), .ok 2, none⟩,
    ⟨.installPolicy ⟨"live", "acc"⟩ volumePolicy (.current (attemptPolicy.revision sampleEnv)),
      .ok 3, none⟩]

theorem run_within_limits_relaxedRun :
    WithinLimits volumePolicy (sampleRequest "c1") [sampleRequest "c2", sampleRequest "c1"] := by
  have kept : ∀ step ∈ steps (relaxedRun ++ [⟨.prepare (sampleRequest "c1"), .ok 4, none⟩]),
      rulesKeptAt sampleEnv step = true := by
    decide +kernel
  have answers : ((run sampleEnv (relaxedRun ++
      [⟨.prepare (sampleRequest "c1"), .ok 4, none⟩])).1.filterMap preparedRequest) =
        [sampleRequest "c2", sampleRequest "c1"] := by
    decide +kernel
  have act : ((run sampleEnv relaxedRun).2.readActivePolicy ⟨"live", "acc"⟩) =
      some ⟨⟨"live", "acc"⟩, volumePolicy, volumePolicy.revision sampleEnv, 3⟩ := by
    decide +kernel
  rw [← answers]
  exact run_within_limits sampleEnv _ kept (relaxedRun, _) (by simp [steps, relaxedRun])
    (sampleRequest "c1") _ _ rfl rfl act

/-- The policy adds a limit of one attempt after the first order. -/
def tightenedRun : List HardRiskInvocation :=
  [⟨.installPolicy ⟨"live", "acc"⟩ volumePolicy .absent, .ok 1, none⟩,
    ⟨.prepare (sampleRequest "c1"), .ok 2, none⟩,
    ⟨.installPolicy ⟨"live", "acc"⟩ attemptPolicy (.current (volumePolicy.revision sampleEnv)),
      .ok 3, none⟩]

/-- The first order was not counted as an attempt, so the second one is admitted. -/
theorem attempts_uncounted :
    ((run sampleEnv tightenedRun).2.readActivePolicy ⟨"live", "acc"⟩).map (·.policy) =
        some attemptPolicy ∧
      (run sampleEnv (tightenedRun ++
          [⟨.prepare (sampleRequest "c2"), .ok 4, none⟩])).1.filterMap preparedRequest =
        [sampleRequest "c1", sampleRequest "c2"] ∧
      ¬WithinLimits attemptPolicy (sampleRequest "c2")
        [sampleRequest "c1", sampleRequest "c2"] := by
  refine ⟨by decide +kernel, by decide +kernel, fun win => ?_⟩
  have tries := win.attempts 1 rfl
  revert tries
  decide

end HardRiskAuthority

end Tqsdk
