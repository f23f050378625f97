import Tqsdk.HardRisk.SubmitOnce

/-!
# Ambiguous sends

A submission whose callback fails, or whose receipt is refused, leaves its order indeterminate
exactly when the texts that the reason is made of are short enough for it to be stored.
-/

namespace Tqsdk

open List

inductive HardRiskSubmitOutcome
  | submitted (record : HardRiskOrderRecord)
  | indeterminate (record : HardRiskOrderRecord) (reason : String)

namespace HardRiskAuthority

/-- `submit_once`: the callback answers with a receipt or with the text of its error. -/
def submitOnce (env : HardRiskEnv) (db : HardRiskDatabase) (clock : Except String Int)
    (permit : HardRiskSubmissionPermit)
    (submit : HardRiskOrderRequest → Except String HardRiskRuntimeReceipt) :
    Committed HardRiskSubmitOutcome :=
  match submit permit.request with
  | .ok receipt =>
    let (answer, db) := recordSubmitted env db clock permit receipt
    (answer.map .submitted, db)
  | .error error =>
    let reason := "submission adapter returned error: " ++ error
    let (answer, db) := recordIndeterminate db clock permit reason
    (answer.map (.indeterminate · reason), db)

end HardRiskAuthority

namespace HardRiskSubmissionPermit

variable (permit : HardRiskSubmissionPermit)

/-- The callback failed, or its receipt is invalid or names another client order. -/
def Ambiguous : Except String HardRiskRuntimeReceipt → Prop
  | .error _ => True
  | .ok receipt =>
    receipt.defect ≠ none ∨ receipt.clientOrderId ≠ permit.request.clientOrderId

/-- The texts that go into the reason leave it within 4096 bytes. -/
def TextsFit (env : HardRiskEnv) : Except String HardRiskRuntimeReceipt → Prop
  | .error error => error.utf8ByteSize ≤ 4061
  | .ok receipt =>
    receipt.defect ≠ none ∨
      (env.debugString receipt.clientOrderId).utf8ByteSize +
        permit.identity.key.namespace_.utf8ByteSize +
        permit.identity.key.accountId.utf8ByteSize +
        permit.identity.key.clientOrderId.utf8ByteSize ≤ 3997

end HardRiskSubmissionPermit

/-! ## Reasons -/

theorem OrderLifecycle.trim_ne_nil {text : List Char} {c : Char} (mem : c ∈ text)
    (vis : isWhitespace c = false) : trim text ≠ [] := by
  intro emp
  have blank := dropWhile_eq_nil_iff.mp (reverse_eq_nil_iff.mp emp)
  have kept : c ∈ text.dropWhile isWhitespace := by
    rcases mem_append.mp (takeWhile_append_dropWhile.symm ▸ mem :
      c ∈ text.takeWhile isWhitespace ++ text.dropWhile isWhitespace) with drop | kept
    · rw [mem_takeWhile_imp drop] at vis
      cases vis
    · exact kept
  rw [blank c (mem_reverse.mpr kept)] at vis
  cases vis

/-- A text that is not blank is refused for its length only. -/
theorem textDefect_eq_none_iff {text : String} {c : Char} (mem : c ∈ text.toList)
    (vis : OrderLifecycle.isWhitespace c = false) :
    textDefect text = none ↔ text.utf8ByteSize ≤ 4096 := by
  have shown : (OrderLifecycle.trim text.toList).isEmpty = false :=
    isEmpty_eq_false_iff.mpr (OrderLifecycle.trim_ne_nil mem vis)
  unfold textDefect
  rw [shown, if_neg Bool.false_ne_true]
  split
  · rename_i long
    exact iff_of_false (fun none => by cases none) (Nat.not_le.mpr long)
  · rename_i few
    exact iff_of_true rfl (Nat.not_lt.mp few)

theorem HardRiskRuntimeReceipt.mem_defect {rcpt : HardRiskRuntimeReceipt}
    {fld why : String} (defect : rcpt.defect = some (fld, why)) :
    fld ∈ ["receipt_client_order_id", "runtime_run_id", "command_id"] ∧
      why ∈ ["must be non-empty", "must not exceed 4096 bytes"] := by
  obtain ⟨text, mem, hit⟩ := exists_of_findSome?_eq_some defect
  obtain ⟨hit, no, same⟩ := Option.map_eq_some_iff.mp hit
  obtain ⟨rfl, rfl⟩ := Prod.mk.inj same
  constructor
  · exact mem_map_of_mem (f := Prod.fst) mem
  · unfold textDefect at no
    split at no
    · rw [← Option.some.inj no]
      exact mem_cons_self
    split at no
    · rw [← Option.some.inj no]
      exact mem_cons_of_mem _ mem_cons_self
    · cases no

/-- The reason for an invalid receipt is made of fixed texts. -/
theorem ReceiptRefusal.invalid_fits (env : HardRiskEnv) {rcpt : HardRiskRuntimeReceipt}
    {fld why : String} (defect : rcpt.defect = some (fld, why)) :
    textDefect ((ReceiptRefusal.invalid fld why).reason env) = none := by
  obtain ⟨fieldKnown, reasonKnown⟩ := HardRiskRuntimeReceipt.mem_defect defect
  have every : ∀ fld ∈ ["receipt_client_order_id", "runtime_run_id", "command_id"],
      ∀ why ∈ ["must be non-empty", "must not exceed 4096 bytes"],
        textDefect ("invalid local dispatch receipt: " ++ "invalid hard-risk " ++ fld ++
          ": " ++ why) = none := by
    decide +kernel
  exact every fld fieldKnown why reasonKnown

theorem ReceiptRefusal.mismatch_fits_iff (env : HardRiskEnv) (key : HardRiskOrderKey)
    (rid : String) :
    textDefect ((ReceiptRefusal.mismatch key rid).reason env) = none ↔
      (env.debugString rid).utf8ByteSize + key.namespace_.utf8ByteSize +
        key.accountId.utf8ByteSize + key.clientOrderId.utf8ByteSize ≤ 3997 := by
  have seen : 'h' ∈ "hard-risk receipt client id ".toList := by decide +kernel
  have vis : 'h' ∈
      ((ReceiptRefusal.mismatch key rid).reason env).toList := by
    unfold ReceiptRefusal.reason
    rw [String.toList_append, String.toList_append, String.toList_append]
    exact mem_append_left _ (mem_append_left _ (mem_append_left _ seen))
  have fixed : "hard-risk receipt client id ".utf8ByteSize = 28 ∧
      " does not match admitted order: ".utf8ByteSize = 32 ∧ "namespace=".utf8ByteSize = 10 ∧
      " account_id=".utf8ByteSize = 12 ∧ " client_order_id=".utf8ByteSize = 17 := by
    decide +kernel
  rw [textDefect_eq_none_iff vis (by decide)]
  unfold ReceiptRefusal.reason HardRiskOrderKey.display
  simp only [String.utf8ByteSize_append, fixed]
  omega

theorem adapterError_fits_iff (error : String) :
    textDefect ("submission adapter returned error: " ++ error) = none ↔
      error.utf8ByteSize ≤ 4061 := by
  have seen : 's' ∈ "submission adapter returned error: ".toList := by decide +kernel
  have vis : 's' ∈ ("submission adapter returned error: " ++ error).toList := by
    rw [String.toList_append]
    exact mem_append_left _ seen
  have fixed : "submission adapter returned error: ".utf8ByteSize = 35 := by decide +kernel
  rw [textDefect_eq_none_iff vis (by decide), String.utf8ByteSize_append, fixed]
  omega

/-! ## The transition -/

namespace HardRiskAuthority

open HardRiskDatabase

theorem recordIndeterminate_unfit {why : String} (unfit : textDefect why ≠ none)
    (db : HardRiskDatabase) (clock : Except String Int) (permit : HardRiskSubmissionPermit) :
    (recordIndeterminate db clock permit why).2 = db := by
  obtain ⟨defect, hit⟩ := Option.ne_none_iff_exists'.mp unfit
  unfold recordIndeterminate
  rw [transact_bind, validateText, hit]

section Held

variable {db : HardRiskDatabase} (keyed : db.Keyed) {permit : HardRiskSubmissionPermit} {now : Int}
  (advances : db.maxObservedAtMs ≤ now) {old : HardRiskOrderRecord}
  (stored : db.readOrder permit.identity.key = some old) (holds : permit.Holds old)

include keyed advances stored holds

theorem recordIndeterminate_state (why : String) :
    (recordIndeterminate db (.ok now) permit why).2.orderState permit.identity.key =
        some .indeterminate ↔ textDefect why = none := by
  by_cases fits : textDefect why = none
  · obtain ⟨rcd, note⟩ := recordIndeterminate_held keyed fits advances stored holds
    have became := markIndeterminate_became keyed stored holds.submitting why now
    rw [note, became.moved.orderState, if_pos rfl]
    exact iff_of_true rfl fits
  · rw [recordIndeterminate_unfit fits, orderState, stored, Option.map_some, holds.submitting]
    exact iff_of_false (fun same => by cases same) fits

theorem submitOnce_state (env : HardRiskEnv)
    {submit : HardRiskOrderRequest → Except String HardRiskRuntimeReceipt}
    {ans : Except String HardRiskRuntimeReceipt} (told : submit permit.request = ans)
    (ambiguous : permit.Ambiguous ans) :
    (submitOnce env db (.ok now) permit submit).2.orderState permit.identity.key =
        some .indeterminate ↔ permit.TextsFit env ans := by
  have st := recordIndeterminate_state keyed advances stored holds
  unfold submitOnce
  rw [told]
  cases ans with
  | error error => exact (st _).trans (adapterError_fits_iff error)
  | ok rcpt =>
    have note : ∀ ref, permit.refusal rcpt = some ref →
        (recordSubmitted env db (.ok now) permit rcpt).2 =
          (recordIndeterminate db (.ok now) permit (ref.reason env)).2 := by
      intro ref no
      rw [recordSubmitted, no]
      dsimp only
      split <;> rename_i run <;> rw [run]
    dsimp only
    cases bad : rcpt.defect with
    | some defect =>
      have no : permit.refusal rcpt = some (.invalid defect.1 defect.2) := by
        rw [HardRiskSubmissionPermit.refusal, bad]
      rw [note _ no, st]
      exact iff_of_true (ReceiptRefusal.invalid_fits env bad) (.inl fun none => by cases bad.symm.trans none)
    | none =>
      have alt := ambiguous.resolve_left (not_not.mpr bad)
      have no : permit.refusal rcpt =
          some (.mismatch permit.identity.key rcpt.clientOrderId) := by
        rw [HardRiskSubmissionPermit.refusal, bad]
        exact if_pos alt
      rw [note _ no, st, ReceiptRefusal.mismatch_fits_iff]
      exact (or_iff_right (not_not.mpr bad)).symm

end Held

/-! ## Every send -/

/-- After any calls: a failed send, or one whose receipt is refused, leaves an order that its
process still holds indeterminate exactly when the texts of the reason are short enough. -/
theorem submitOnce_recorded_iff (env : HardRiskEnv) (invocations : List HardRiskInvocation)
    (permit : HardRiskSubmissionPermit)
    (submit : HardRiskOrderRequest → Except String HardRiskRuntimeReceipt)
    (ambiguous : permit.Ambiguous (submit permit.request)) (now : Int)
    (advances : (run env invocations).2.maxObservedAtMs ≤ now) (old : HardRiskOrderRecord)
    (stored : (run env invocations).2.readOrder permit.identity.key = some old)
    (holds : permit.Holds old) :
    (submitOnce env (run env invocations).2 (.ok now) permit submit).2.orderState
        permit.identity.key = some .indeterminate ↔
      permit.TextsFit env (submit permit.request) := by
  exact submitOnce_state (run_sendsOnce env invocations).keyed advances stored holds env rfl
    ambiguous

theorem submitOnce_recorded_shortError :
    samplePermit.TextsFit sampleEnv (.error "connection reset") ∧
      (submitOnce sampleEnv (run sampleEnv submittingRun).2 (.ok 4) samplePermit
        fun _ => .error "connection reset").2.orderState sampleKey = some .indeterminate := by
  have few : "connection reset".utf8ByteSize ≤ 4061 := by decide +kernel
  have stored : ∃ old, (run sampleEnv submittingRun).2.readOrder sampleKey = some old ∧
      old.identity = samplePermit.identity ∧ old.state = .submitting ∧
      old.leaseOwner = some samplePermit.ownerId ∧
      old.leaseGeneration = samplePermit.leaseGeneration :=
    ⟨((run sampleEnv submittingRun).2.readOrder sampleKey).get (by decide +kernel),
      by decide +kernel⟩
  obtain ⟨old, row, idt, subm, own, gen⟩ := stored
  exact ⟨few, (submitOnce_recorded_iff sampleEnv submittingRun samplePermit
    (fun _ => .error "connection reset") trivial 4 (by decide +kernel) old row
    ⟨idt, subm, own, gen⟩).mpr few⟩

theorem utf8ByteSize_replicate (n : Nat) :
    (String.ofList (List.replicate n 'x')).utf8ByteSize = n := by
  induction n with
  | zero => rfl
  | succ n ih =>
    have split : List.replicate (n + 1) 'x' = ['x'] ++ List.replicate n 'x' := rfl
    have one : (String.ofList ['x']).utf8ByteSize = 1 := by decide +kernel
    rw [split, String.ofList_append, String.utf8ByteSize_append, ih, one]
    omega

/-- The error of the callback takes 4062 bytes. -/
theorem longError_notRecorded :
    ((run sampleEnv submittingRun).1.filterMap grantedKey = [sampleKey] ∧
        (run sampleEnv submittingRun).2.orderState sampleKey = some .submitting) ∧
      (submitOnce sampleEnv (run sampleEnv submittingRun).2 (.ok 4) samplePermit
        fun _ => .error (String.ofList (List.replicate 4062 'x'))).2.orderState sampleKey =
          some .submitting := by
  have submitting : (run sampleEnv submittingRun).1.filterMap grantedKey = [sampleKey] ∧
      (run sampleEnv submittingRun).2.orderState sampleKey = some .submitting := by
    decide +kernel
  have unfit : textDefect ("submission adapter returned error: " ++
      String.ofList (List.replicate 4062 'x')) ≠ none := by
    rw [Ne, adapterError_fits_iff, utf8ByteSize_replicate]
    decide
  have fail (db : HardRiskDatabase) (error : String) :
      (submitOnce sampleEnv db (.ok 4) samplePermit fun _ => .error error).2 =
        (recordIndeterminate db (.ok 4) samplePermit
          ("submission adapter returned error: " ++ error)).2 := rfl
  rw [fail, recordIndeterminate_unfit unfit]
  exact ⟨submitting, submitting.2⟩

end HardRiskAuthority

end Tqsdk
