import Tqsdk.HardRisk.Usage
import Tqsdk.Lib.Prefixed

/-!
# What an admission is identified by

The fingerprints hash length-prefixed fields.  The bytes that are hashed determine the request
and the policy, and a client order that was admitted before is answered from its stored request.
-/

namespace Tqsdk

open List Result

/-! ## The hashed bytes -/

namespace HashField

def textBytes (value : String) : List Nat := value.toByteArray.data.toList.map UInt8.toNat

def bytes : HashField → List Nat
  | .text value => textBytes value
  | .i64 value => Bytes.bigEndian 8 (Bytes.ofInt value)
  | .u64 value => Bytes.bigEndian 8 value

end HashField

/-- `hash_field`: the length, at most `u64::MAX`, and the bytes. -/
def hashField (value : List Nat) : List Nat :=
  Bytes.bigEndian 8 (min value.length (2 ^ 64 - 1)) ++ value

def hashInput (fields : List HashField) : List Nat :=
  fields.flatMap fun field => hashField field.bytes

def limitFields (name : String) : Option Int → List HashField
  | some value => [.text (name ++ ":some"), .i64 value]
  | none => [.text (name ++ ":none")]

/-- The fields of `policy_fingerprint`. -/
def policyFields (policy : HardRiskPolicy) : List HashField :=
  [.text "tqsdk-hard-risk-policy-v1", .text policy.policyId, .text policy.policyVersion,
    .text policy.reservationPolicy.asSql] ++
    limitFields "max_order_attempts" policy.maxOrderAttempts ++
    limitFields "max_open_volume" policy.maxOpenVolume

def configuredField (name : String) (value : Option Int) : HashField :=
  .text (name ++ if value.isSome then ":some" else ":none")

def priceFields : Option Nat → List HashField
  | some bits => [.text "limit_price_bits:some", .u64 bits]
  | none => [.text "limit_price_bits:none"]

/-- The fields of `request_fingerprint`. -/
def requestFields (request : HardRiskOrderRequest) (policy : HardRiskPolicy) : List HashField :=
  [.text request.scope.namespace_, .text request.scope.accountId,
    .text request.scope.tradingDay, .text request.clientOrderId, .text request.symbol,
    .text request.direction.asSql, .text request.offset.asSql, .i64 request.volume,
    .text policy.policyId, .text policy.policyVersion, .text policy.reservationPolicy.asSql,
    .i64 (policy.maxOrderAttempts.getD 0), .i64 (policy.maxOpenVolume.getD 0),
    configuredField "max_order_attempts" policy.maxOrderAttempts,
    configuredField "max_open_volume" policy.maxOpenVolume] ++ priceFields request.limitPriceBits

theorem policyFingerprint_eq (env : HardRiskEnv) (pol : HardRiskPolicy) :
    policyFingerprint env pol = env.digest (policyFields pol) := rfl

theorem requestFingerprint_eq (env : HardRiskEnv) (req : HardRiskOrderRequest)
    (pol : HardRiskPolicy) :
    requestFingerprint env req pol = env.digest (requestFields req pol) := by
  unfold requestFingerprint requestFields priceFields
  cases req.limitPriceBits <;> rfl

/-! ## The fields from the bytes -/

namespace HashField

/-- The value is one of its type, and a text is no longer than validation lets through. -/
def Fits : HashField → Prop
  | .text value => value.utf8ByteSize ≤ 4096
  | .i64 value => I64.InRange value
  | .u64 value => value < 2 ^ 64

instance : (field : HashField) → Decidable field.Fits
  | .text _ => Nat.decLe _ _
  | .i64 value => inferInstanceAs (Decidable (I64.InRange value))
  | .u64 _ => Nat.decLt _ _

theorem Fits.length {fld : HashField} (fits : fld.Fits) : fld.bytes.length ≤ 4096 := by
  cases fld with
  | text val =>
    have len : (textBytes val).length = val.utf8ByteSize := length_map _
    exact len.trans_le fits
  | i64 val | u64 val => exact (Bytes.length_bigEndian _ _).trans_le (by decide)

theorem textBytes_injective : Function.Injective textBytes := by
  intro value value' same
  have bs := map_injective_iff.mpr (fun _ _ => UInt8.toNat_inj.mp) same
  exact String.toByteArray_inj.mp (ByteArray.ext (Array.toList_inj.mp bs))

theorem i64_inj {value value' : Int} (fits : I64.InRange value) (fits' : I64.InRange value')
    (same : (i64 value).bytes = (i64 value').bytes) : value = value' := by
  have words := Bytes.bigEndian_injOn (Bytes.ofInt_lt value) (Bytes.ofInt_lt value') same
  rw [← Bytes.toInt_ofInt fits, words, Bytes.toInt_ofInt fits']

end HashField

/-- The hashed bytes determine the bytes of every field. -/
theorem hashInput_injOn {fields fields' : List HashField} (fits : ∀ fld ∈ fields, fld.Fits)
    (fits' : ∀ fld ∈ fields', fld.Fits) (same : hashInput fields = hashInput fields') :
    fields.map HashField.bytes = fields'.map HashField.bytes := by
  have few : ∀ fields : List HashField, (∀ fld ∈ fields, fld.Fits) →
      ∀ val ∈ fields.map HashField.bytes, val.length < 256 ^ 8 := by
    intro fields fits val mem
    obtain ⟨fld, got, rfl⟩ := mem_map.mp mem
    exact (fits fld got).length.trans_lt (by decide)
  have prefixes : ∀ fields : List HashField, (∀ fld ∈ fields, fld.Fits) →
      hashInput fields = (fields.map HashField.bytes).flatMap Bytes.prefixed := by
    intro fields fits
    rw [hashInput, flatMap_map]
    refine flatMap_congr fun fld mem => ?_
    have len := (fits fld mem).length
    rw [hashField, Nat.min_eq_left (by omega)]
    rfl
  rw [prefixes fields fits, prefixes fields' fits'] at same
  exact Bytes.flatMap_prefixed_injOn (few fields fits) (few fields' fits') same

/-! ## The values from the fields -/

/-- What `validate` accepts, with limits that are `i64`. -/
structure HardRiskPolicy.Accepted (policy : HardRiskPolicy) : Prop where
  valid : policy.validate = .ok ()
  maxOrderAttempts : ∀ limit ∈ policy.maxOrderAttempts, I64.InRange limit
  maxOpenVolume : ∀ limit ∈ policy.maxOpenVolume, I64.InRange limit

/-- What `validate` accepts, with a volume that is an `i64` and price bits that are a `u64`. -/
structure HardRiskOrderRequest.Accepted (request : HardRiskOrderRequest) : Prop where
  valid : request.validate = .ok ()
  volume : I64.InRange request.volume
  limitPriceBits : ∀ bits ∈ request.limitPriceBits, bits < 2 ^ 64

namespace HashField

theorem fits_of_validateText {fld val : String} (fine : validateText fld val = .ok ()) :
    (text val).Fits := by
  unfold validateText textDefect at fine
  split at fine
  · cases fine
  · rename_i hit
    split at hit
    · cases hit
    · split at hit
      · cases hit
      · rename_i few
        exact Nat.not_lt.mp few

theorem fits_append {name suffix : String} (few : name.utf8ByteSize ≤ 100)
    (five : suffix.utf8ByteSize = 5) : (text (name ++ suffix)).Fits := by
  rw [Fits, String.utf8ByteSize_append]
  omega

theorem limitFields_fit {name : String} {val : Option Int} (few : name.utf8ByteSize ≤ 100)
    (inR : ∀ lim ∈ val, I64.InRange lim) :
    ∀ fld ∈ limitFields name val, fld.Fits := by
  cases val with
  | none => exact forall_mem_singleton.mpr (fits_append few (by decide +kernel))
  | some lim =>
    exact forall_mem_cons.mpr ⟨fits_append few (by decide +kernel),
      forall_mem_singleton.mpr (inR lim rfl)⟩

theorem configuredField_fits {name : String} {val : Option Int}
    (few : name.utf8ByteSize ≤ 100) : (configuredField name val).Fits := by
  refine fits_append few ?_
  split <;> decide +kernel

theorem policyFields_fit {pol : HardRiskPolicy} (acc : pol.Accepted) :
    ∀ fld ∈ policyFields pol, fld.Fits := by
  obtain ⟨_, policyId, rest⟩ := of_bind acc.valid
  obtain ⟨_, polVer, -⟩ := of_bind rest
  have tries : ∀ fld ∈ limitFields "max_order_attempts" pol.maxOrderAttempts, fld.Fits :=
    limitFields_fit (by decide +kernel) acc.maxOrderAttempts
  have vol : ∀ fld ∈ limitFields "max_open_volume" pol.maxOpenVolume, fld.Fits :=
    limitFields_fit (by decide +kernel) acc.maxOpenVolume
  have mode : (text pol.reservationPolicy.asSql).Fits := by
    cases pol.reservationPolicy
    decide +kernel
  have title : (text "tqsdk-hard-risk-policy-v1").Fits := by decide +kernel
  simp only [policyFields, forall_mem_append, forall_mem_cons]
  exact ⟨⟨⟨title, fits_of_validateText policyId, fits_of_validateText polVer, mode,
    fun _ mem => absurd mem not_mem_nil⟩, tries⟩, vol⟩

theorem requestFields_fit {req : HardRiskOrderRequest} {pol : HardRiskPolicy}
    (acc : req.Accepted) (polOk : pol.Accepted) :
    ∀ fld ∈ requestFields req pol, fld.Fits := by
  obtain ⟨_, sc, rest⟩ := of_bind acc.valid
  obtain ⟨_, clientOrderId, rest⟩ := of_bind rest
  obtain ⟨_, sym, -⟩ := of_bind rest
  obtain ⟨_, namespace_, rest⟩ := of_bind sc
  obtain ⟨_, acct, day⟩ := of_bind rest
  obtain ⟨_, policyId, rest⟩ := of_bind polOk.valid
  obtain ⟨_, polVer, -⟩ := of_bind rest
  have fixed : ∀ val ∈ ["Buy", "Sell", "Open", "Close", "CloseToday", "CloseYesterday",
      "CountPreparedAttempt", "limit_price_bits:some", "limit_price_bits:none"],
      (text val).Fits := by
    decide +kernel
  have dir : (text req.direction.asSql).Fits := by
    cases req.direction <;> exact fixed _ (by decide)
  have off : (text req.offset.asSql).Fits := by
    cases req.offset <;> exact fixed _ (by decide)
  have mode : (text pol.reservationPolicy.asSql).Fits := by
    cases pol.reservationPolicy
    exact fixed _ (by decide)
  have lim {val : Option Int} (inRange : ∀ lim ∈ val, I64.InRange lim) :
      (i64 (val.getD 0)).Fits := by
    cases val with
    | none => exact ⟨by decide, by decide⟩
    | some lim => exact inRange lim rfl
  have tries : (configuredField "max_order_attempts" pol.maxOrderAttempts).Fits :=
    configuredField_fits (by decide +kernel)
  have vol : (configuredField "max_open_volume" pol.maxOpenVolume).Fits :=
    configuredField_fits (by decide +kernel)
  have px : ∀ fld ∈ priceFields req.limitPriceBits, fld.Fits := by
    have bits := acc.limitPriceBits
    cases hit : req.limitPriceBits with
    | none => exact forall_mem_singleton.mpr (fixed _ (by decide))
    | some val =>
      exact forall_mem_cons.mpr ⟨fixed _ (by decide),
        forall_mem_singleton.mpr (bits val hit)⟩
  simp only [requestFields, forall_mem_append, forall_mem_cons]
  exact ⟨⟨fits_of_validateText namespace_, fits_of_validateText acct, fits_of_validateText day,
    fits_of_validateText clientOrderId, fits_of_validateText sym, dir, off, acc.volume,
    fits_of_validateText policyId, fits_of_validateText polVer, mode, lim polOk.maxOrderAttempts,
    lim polOk.maxOpenVolume, tries, vol, fun _ mem => absurd mem not_mem_nil⟩, px⟩

theorem suffix_inj {name suffix suffix' : String}
    (same : (text (name ++ suffix)).bytes = (text (name ++ suffix')).bytes) : suffix = suffix' := by
  have texts := congrArg String.toList (textBytes_injective same)
  rw [String.toList_append, String.toList_append] at texts
  exact String.toList_inj.mp (append_cancel_left texts)

theorem limitFields_inj {name : String} {value value' : Option Int}
    (inRange : ∀ lim ∈ value, I64.InRange lim) (inRange' : ∀ lim ∈ value', I64.InRange lim)
    {rest rest' : List (List Nat)} (same : (limitFields name value).map bytes ++ rest =
      (limitFields name value').map bytes ++ rest') : value = value' ∧ rest = rest' := by
  cases value <;> cases value' <;> obtain ⟨head, tail⟩ := List.cons.inj same
  · exact ⟨rfl, tail⟩
  · exact absurd (suffix_inj head) (by decide)
  · exact absurd (suffix_inj head) (by decide)
  · obtain ⟨words, tail⟩ := List.cons.inj tail
    exact ⟨congrArg some (i64_inj (inRange _ rfl) (inRange' _ rfl) words), tail⟩

theorem configured_inj {name : String} {value value' : Option Int}
    (flag : (configuredField name value).bytes = (configuredField name value').bytes)
    (same : value.getD 0 = value'.getD 0) : value = value' := by
  have suffixes := suffix_inj flag
  cases value <;> cases value'
  · rfl
  · exact absurd suffixes (by simp)
  · exact absurd suffixes (by simp)
  · exact congrArg some same

end HashField

open HashField

theorem policyFields_injOn {pol policy' : HardRiskPolicy} (accepted : pol.Accepted)
    (accepted' : policy'.Accepted)
    (same : hashInput (policyFields pol) = hashInput (policyFields policy')) :
    pol = policy' := by
  have flds := hashInput_injOn (policyFields_fit accepted) (policyFields_fit accepted') same
  simp only [policyFields, map_append] at flds
  rw [append_assoc, append_assoc] at flds
  obtain ⟨fixed, lims⟩ := append_inj flds rfl
  simp only [map_cons, List.cons.injEq] at fixed
  obtain ⟨-, policyId, polVer, -⟩ := fixed
  obtain ⟨tries, vol⟩ := limitFields_inj accepted.maxOrderAttempts accepted'.maxOrderAttempts lims
  have vol := (limitFields_inj accepted.maxOpenVolume accepted'.maxOpenVolume
    (congrArg (· ++ []) vol)).1
  obtain ⟨id, version, _, _, ⟨⟩⟩ := pol
  obtain ⟨id', version', _, _, ⟨⟩⟩ := policy'
  rw [HardRiskPolicy.mk.injEq]
  exact ⟨textBytes_injective policyId, textBytes_injective polVer, tries, vol, rfl⟩

theorem requestFields_injOn {req request' : HardRiskOrderRequest} {pol policy' : HardRiskPolicy}
    (accepted : req.Accepted) (accepted' : request'.Accepted) (policyAccepted : pol.Accepted)
    (policyAccepted' : policy'.Accepted)
    (same : hashInput (requestFields req pol) = hashInput (requestFields request' policy'))
    : req = request' ∧ pol = policy' := by
  have flds := hashInput_injOn (requestFields_fit accepted policyAccepted)
    (requestFields_fit accepted' policyAccepted') same
  simp only [requestFields, map_append] at flds
  obtain ⟨fixed, px⟩ := append_inj flds rfl
  simp only [map_cons, List.cons.injEq] at fixed
  obtain ⟨namespace_, acct, day, clientOrderId, sym, dir, off, vol,
    policyId, policyVersion, -, tries, openVolume, attemptsFlag, volumeFlag, -⟩ := fixed
  have lim {value : Option Int} (inRange : ∀ lim ∈ value, I64.InRange lim) :
      I64.InRange (value.getD 0) := by
    cases value with
    | none => exact ⟨by decide, by decide⟩
    | some lim => exact inRange lim rfl
  have tries := configured_inj attemptsFlag
    (i64_inj (lim policyAccepted.maxOrderAttempts) (lim policyAccepted'.maxOrderAttempts) tries)
  have openVolume := configured_inj volumeFlag
    (i64_inj (lim policyAccepted.maxOpenVolume) (lim policyAccepted'.maxOpenVolume) openVolume)
  have dir : req.direction = request'.direction := by
    have texts := textBytes_injective dir
    cases left : req.direction <;> cases right : request'.direction <;>
      rw [left, right] at texts <;> first | rfl | exact absurd texts (by decide)
  have off : req.offset = request'.offset := by
    have texts := textBytes_injective off
    cases left : req.offset <;> cases right : request'.offset <;>
      rw [left, right] at texts <;> first | rfl | exact absurd texts (by decide)
  have vol := i64_inj accepted.volume accepted'.volume vol
  have px : req.limitPriceBits = request'.limitPriceBits := by
    have bits := accepted.limitPriceBits
    have bits' := accepted'.limitPriceBits
    cases left : req.limitPriceBits <;> cases right : request'.limitPriceBits <;>
      rw [left, right] at px
    · cases congrArg List.length px
    · cases congrArg List.length px
    · rw [left] at bits
      rw [right] at bits'
      obtain ⟨-, words⟩ := List.cons.inj px
      exact congrArg some (Bytes.bigEndian_injOn (bits _ rfl) (bits' _ rfl) (List.cons.inj words).1)
  obtain ⟨id, version, _, _, ⟨⟩⟩ := pol
  obtain ⟨id', version', _, _, ⟨⟩⟩ := policy'
  obtain ⟨⟨_, _, _⟩, _, _, _, _, _, _⟩ := req
  obtain ⟨⟨_, _, _⟩, _, _, _, _, _, _⟩ := request'
  simp only [HardRiskOrderRequest.mk.injEq, HardRiskScope.mk.injEq, HardRiskPolicy.mk.injEq]
  exact ⟨⟨⟨textBytes_injective namespace_, textBytes_injective acct, textBytes_injective day⟩,
    textBytes_injective clientOrderId, textBytes_injective sym, dir, off, vol, px⟩,
    textBytes_injective policyId, textBytes_injective policyVersion, tries, openVolume, trivial⟩

/-! ## Preparing again -/

namespace HardRiskAuthority

open HardRiskDatabase

/-- The row of an order that was prepared in the run keeps its request. -/
theorem run_keeps_request (env : HardRiskEnv) (invs : List HardRiskInvocation)
    {rec : HardRiskOrderRecord} (prep : .ok (.prepare (.prepared rec)) ∈ (run env invs).1) :
    ∃ got, (run env invs).2.readOrder rec.request.key = some got ∧ got.request = rec.request := by
  have keyed := (run_sendsOnce env invs).keyed
  have mem : rec.request ∈ (run env invs).2.admissions.map Prod.fst := by
    rw [(run_accounted env invs).requests]
    exact mem_filterMap.mpr ⟨_, prep, rfl⟩
  rw [admissions, map_map] at mem
  obtain ⟨⟨key, got⟩, row, req⟩ := mem_map.mp mem
  have req : got.request = rec.request := req
  have own : got.request.key = key := (keyed.own _ row).1
  refine ⟨got, ?_, req⟩
  rw [← req, own]
  exact Table.get?_of_mem keyed.distinct row

theorem prepare_stored (env : HardRiskEnv) {db : HardRiskDatabase} {now : Int}
    {req : HardRiskOrderRequest} (fine : req.validate = .ok ())
    {got : HardRiskOrderRecord} (row : db.readOrder req.key = some got) :
    prepare env db (.ok now) req =
      if got.request = req then (.ok (.existing got), db)
      else (.error (.identityConflict req.key), db) := by
  unfold prepare
  rw [transact_bind, fine]
  dsimp only
  rw [transact_bind, unixEpochMillis]
  dsimp only
  rw [row]
  dsimp only
  by_cases same : got.request = req
  · rw [if_neg (not_not.mpr same), if_pos same]
    rfl
  · rw [if_pos same, if_neg same]
    rfl

/-- The hashed bytes of two accepted requests under accepted policies agree exactly when the
requests and the policies do, and so do the fingerprints under a digest without collisions.  An
order that was prepared in any run is answered from its row when it is prepared again; another
request under its key is a conflict; and neither changes anything. -/
theorem admission_identity (env : HardRiskEnv) (invocations : List HardRiskInvocation) :
    (∀ request request' : HardRiskOrderRequest, ∀ policy policy' : HardRiskPolicy,
      request.Accepted → request'.Accepted → policy.Accepted → policy'.Accepted →
        (hashInput (requestFields request policy) = hashInput (requestFields request' policy') ↔
          request = request' ∧ policy = policy') ∧
        (hashInput (policyFields policy) = hashInput (policyFields policy') ↔
          policy = policy') ∧
        ∀ sha : List Nat → String, sha.Injective →
          (∀ fields, env.digest fields = sha (hashInput fields)) →
          ((requestFingerprint env request policy = requestFingerprint env request' policy' ↔
            request = request' ∧ policy = policy') ∧
          (policyFingerprint env policy = policyFingerprint env policy' ↔
            policy = policy'))) ∧
      ∀ record, .ok (.prepare (.prepared record)) ∈ (run env invocations).1 →
        ∀ request : HardRiskOrderRequest, ∀ now, request.validate = .ok () →
          request.key = record.request.key →
          ∃ stored, stored.request = record.request ∧
            prepare env (run env invocations).2 (.ok now) request =
              if request = record.request then
                (.ok (.existing stored), (run env invocations).2)
              else (.error (.identityConflict request.key), (run env invocations).2) := by
  constructor
  · intro request request' policy policy' accepted accepted' policyAccepted policyAccepted'
    have reqs : hashInput (requestFields request policy) =
        hashInput (requestFields request' policy') ↔ request = request' ∧ policy = policy' := by
      refine ⟨requestFields_injOn accepted accepted' policyAccepted policyAccepted', ?_⟩
      rintro ⟨rfl, rfl⟩
      rfl
    have policies : hashInput (policyFields policy) = hashInput (policyFields policy') ↔
        policy = policy' :=
      ⟨policyFields_injOn policyAccepted policyAccepted', fun same => by rw [same]⟩
    refine ⟨reqs, policies, fun sha collisionFree digests => ⟨?_, ?_⟩⟩
    · rw [requestFingerprint_eq, requestFingerprint_eq, digests, digests, collisionFree.eq_iff,
        reqs]
    · rw [policyFingerprint_eq, policyFingerprint_eq, digests, digests, collisionFree.eq_iff,
        policies]
  · intro record prepared request now fine key
    obtain ⟨stored, row, same⟩ := run_keeps_request env invocations prepared
    refine ⟨stored, same, ?_⟩
    rw [prepare_stored env fine (key ▸ row), same]
    exact if_congr eq_comm rfl rfl

end HardRiskAuthority

end Tqsdk
