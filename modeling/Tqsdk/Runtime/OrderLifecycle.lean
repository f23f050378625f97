import Mathlib.Data.List.DropRight
import Tqsdk.State.Store

/-!
# Order lifecycles

`order_lifecycle.rs`, and the pass of `runtime/handle.rs` that writes the inferred
lifecycle into every mutation of a trade order before a batch is applied.
-/

namespace Tqsdk

open OrdMap

inductive OrderLifecycle
  | unknown | submitting | sent | accepted | partiallyFilled | filled | rejected | cancelling
  | cancelled | failed
  deriving DecidableEq

namespace OrderLifecycle

def asStr : OrderLifecycle → String
  | .unknown => "unknown"
  | .submitting => "submitting"
  | .sent => "sent"
  | .accepted => "accepted"
  | .partiallyFilled => "partially_filled"
  | .filled => "filled"
  | .rejected => "rejected"
  | .cancelling => "cancelling"
  | .cancelled => "cancelled"
  | .failed => "failed"

/-- `FromStr`, which also reads the spelling `canceled`. -/
def fromStr : String → Option OrderLifecycle
  | "unknown" => some .unknown
  | "submitting" => some .submitting
  | "sent" => some .sent
  | "accepted" => some .accepted
  | "partially_filled" => some .partiallyFilled
  | "filled" => some .filled
  | "rejected" => some .rejected
  | "cancelling" => some .cancelling
  | "cancelled" => some .cancelled
  | "canceled" => some .cancelled
  | "failed" => some .failed
  | _ => none

def isTerminal : OrderLifecycle → Bool
  | .filled | .rejected | .cancelled | .failed => true
  | _ => false

def canTransitionTo (current next : OrderLifecycle) : Bool :=
  current == next ||
    match current with
    | .unknown => true
    | .submitting =>
      [.sent, .accepted, .partiallyFilled, .filled, .rejected, .cancelling, .cancelled,
        .failed].contains next
    | .sent =>
      [.accepted, .partiallyFilled, .filled, .rejected, .cancelling, .cancelled,
        .failed].contains next
    | .accepted =>
      [.partiallyFilled, .filled, .rejected, .cancelling, .cancelled, .failed].contains next
    | .partiallyFilled => [.filled, .rejected, .cancelling, .cancelled, .failed].contains next
    | .cancelling => [.filled, .rejected, .cancelled, .failed].contains next
    | .filled | .rejected | .cancelled | .failed => false

/-! ## Inference from the fields of an order -/

/-- The Unicode `White_Space` characters, which `str::trim` removes. -/
def isWhitespace (c : Char) : Bool :=
  let n := c.toNat
  (9 ≤ n && n ≤ 13) || n == 32 || n == 133 || n == 160 || n == 5760 ||
    (8192 ≤ n && n ≤ 8202) || n == 8232 || n == 8233 || n == 8239 || n == 8287 || n == 12288

def trim (text : List Char) : List Char :=
  ((text.dropWhile isWhitespace).reverse.dropWhile isWhitespace).reverse

theorem trim_trim (text : List Char) :
    trim (trim text) = trim text := by
  have eq : ∀ text, trim text = List.rdropWhile isWhitespace
      (text.dropWhile isWhitespace) := fun _ => rfl
  rw [eq (trim text)]
  have kept : (trim text).dropWhile isWhitespace =
      trim text := by
    rw [eq text]
    -- what is left of the body begins with the character the body begins with
    have hd := List.head?_dropWhile_not isWhitespace text
    generalize text.dropWhile isWhitespace = body at hd ⊢
    have initial := List.rdropWhile_prefix isWhitespace body
    generalize body.rdropWhile isWhitespace = rest at initial ⊢
    cases rest with
    | nil => rfl
    | cons c rest =>
      obtain ⟨tail, rfl⟩ := initial
      rw [List.dropWhile_cons_of_neg]
      simpa using hd
  rw [kept, eq text, List.rdropWhile_idempotent]

/-- `str::contains` with a string needle. -/
def contains (text : List Char) (needle : String) : Bool :=
  text.tails.any needle.toList.isPrefixOf

def normalizeStatus (status : String) : List Char :=
  (trim status.toList).map fun c => if c = '-' then '_' else c.toUpper

def messageSuggestsRejection (message : String) : Bool :=
  ["reject", "error", "invalid", "insufficient", "not enough"].any
    (contains (message.toList.map Char.toLower))

def volumeAwareState : Option Int → Option Int → Option OrderLifecycle
  | some original, some left =>
    if left = 0 ∧ 0 < original then some .filled
    else if 0 < original ∧ left < original then some .partiallyFilled
    else none
  | _, _ => none

def finishedState (volumeOrign volumeLeft : Option Int) (lastMsg : Option String) :
    OrderLifecycle :=
  if lastMsg.any messageSuggestsRejection then .rejected
  else
    match volumeOrign, volumeLeft with
    | some original, some left => if 0 < original ∧ 0 < left then .cancelled else .filled
    | _, _ => .filled

def fillAwareOpenState (volumeOrign volumeLeft : Option Int) : OrderLifecycle :=
  (volumeAwareState volumeOrign volumeLeft).getD .accepted

def infer (status : Option String) (isDead isError : Option Bool)
    (volumeOrign volumeLeft : Option Int) (lastMsg : Option String) : Option OrderLifecycle :=
  if isError = some true then some .rejected
  else
    match status.map normalizeStatus with
    | some status =>
      if contains status "REJECT" then some .rejected
      else if contains status "FAIL" || contains status "ERROR" then some .failed
      else if contains status "CANCELLING" || contains status "CANCELING" then
        some .cancelling
      else if contains status "CANCEL" then some .cancelled
      else if contains status "SUBMIT" then some .submitting
      else if contains status "SENT" then some .sent
      else if contains status "PART" then some .partiallyFilled
      else if contains status "FILL" || contains status "ALLTRADED" then some .filled
      else if isDead = some true then some (finishedState volumeOrign volumeLeft lastMsg)
      else if contains status "ACCEPT" || status == "ALIVE".toList then
        some (fillAwareOpenState volumeOrign volumeLeft)
      else if contains status "FINISH" then
        some (finishedState volumeOrign volumeLeft lastMsg)
      else some .unknown
    | none =>
      if isDead = some true then some (finishedState volumeOrign volumeLeft lastMsg)
      else volumeAwareState volumeOrign volumeLeft

def inferFromOrderObject (order : Fields) : Option OrderLifecycle :=
  infer ((get? "status" order).bind Value.asStr)
    ((get? "is_dead" order).bind Value.asBool)
    ((get? "is_error" order).bind Value.asBool)
    ((get? "volume_orign" order).bind Value.asI64)
    ((get? "volume_left" order).bind Value.asI64)
    ((get? "last_msg" order).bind Value.asStr)

/-- The lifecycle an order stores under its name, if that parses. -/
def stored (order : Fields) : Option OrderLifecycle :=
  ((get? "lifecycle" order).bind Value.asStr).bind fromStr

def inferFromOrderValue (order : Value) : Option OrderLifecycle :=
  order.asObject.bind fun order => (stored order).or (inferFromOrderObject order)

def inferFromOrderValueIgnoringLifecycle (order : Value) : Option OrderLifecycle :=
  order.asObject.bind inferFromOrderObject

end OrderLifecycle

/-! ## Normalizing the mutations of a batch -/

def tradeOrderKey (mutation : NormalizedMutation) : Option (AccountId × OrderId) :=
  if mutation.source != .tradeReply then none
  else
    match mutation.object with
    | some (.order accountId orderId) => some (accountId, orderId)
    | _ => none

def isTradeOrderMutation (mutation : NormalizedMutation) : Bool :=
  (tradeOrderKey mutation).isSome

def applyOrderField (map : Fields) (field : FieldMutation) : Fields :=
  if field.value.isNull then OrdMap.erase field.field map
  else OrdMap.insert field.field field.value map

def applyOrderFieldsToValue (order : Value) (fields : List FieldMutation) : Value :=
  .object (fields.foldl applyOrderField order.entries)

/-- `find(…)` and assignment: the first lifecycle field gets the value. -/
def setLifecycleField (value : Value) : List FieldMutation → Option (List FieldMutation)
  | [] => none
  | field :: rest =>
    if field.field == "lifecycle" then some ({ field with value := value } :: rest)
    else (setLifecycleField value rest).map (field :: ·)

def upsertOrderLifecycleField (fields : List FieldMutation) (lifecycle : OrderLifecycle) :
    List FieldMutation :=
  let value : Value := .string lifecycle.asStr
  sortFieldMutations ((setLifecycleField value fields).getD (fields ++ [⟨"lifecycle", value⟩]))

def lifecycleTransitionError (accountId : AccountId) (orderId : OrderId)
    (current next : OrderLifecycle) : ContractError :=
  .validation ("invalid order lifecycle transition for order " ++ accountId ++ "/" ++ orderId ++
    ": " ++ current.asStr ++ " -> " ++ next.asStr)

/-- The turn of `normalize_order_lifecycle_mutations` for one mutation.  The order it reads
is that of the store before the batch. -/
def normalizeOrderLifecycleMutation (trade : Value) (mutation : NormalizedMutation) :
    Except ContractError NormalizedMutation :=
  match tradeOrderKey mutation with
  | none => .ok mutation
  | some (accountId, orderId) =>
    let currentOrder := trade.getAtPath (mutation.path.drop 1)
    let currentLifecycle := currentOrder.bind OrderLifecycle.inferFromOrderValue
    let nextOrder :=
      applyOrderFieldsToValue (currentOrder.getD (.object [])) mutation.fields
    match OrderLifecycle.inferFromOrderValueIgnoringLifecycle nextOrder with
    | none => .ok mutation
    | some next =>
      match currentLifecycle with
      | some current =>
        if current.canTransitionTo next then
          .ok { mutation with fields := upsertOrderLifecycleField mutation.fields next }
        else .error (lifecycleTransitionError accountId orderId current next)
      | none =>
        .ok { mutation with fields := upsertOrderLifecycleField mutation.fields next }

def normalizeEach (trade : Value) :
    List NormalizedMutation → Except ContractError (List NormalizedMutation)
  | [] => .ok []
  | mutation :: rest => do
      let mutation ← normalizeOrderLifecycleMutation trade mutation
      let rest ← normalizeEach trade rest
      return mutation :: rest

def normalizeOrderLifecycleMutations (store : StateStore)
    (mutations : List NormalizedMutation) : Except ContractError (List NormalizedMutation) :=
  if mutations.any isTradeOrderMutation then normalizeEach (store.partitions .trade) mutations
  else .ok mutations

end Tqsdk
