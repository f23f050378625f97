import Tqsdk.Runtime.OrderWrites

/-!
# Stored lifecycles of orders

The normalization writes into every mutation of an order the lifecycle that the order will
have.  It reads the order as it was before the batch, so what it writes is right as long as
no earlier mutation of the batch has changed that order: under `LifecycleSafe` every stored
order carries the lifecycle its fields determine, and stored lifecycles only move forward.
A batch with two mutations of one order can break both.
-/

namespace Tqsdk

open List

open Value

/-! ## Normalized mutations -/

/-- The order a mutation would leave, read as the normalization reads it. -/
def nextOrder (trade : Value) (mutation : NormalizedMutation) : Fields :=
  mutation.fields.foldl applyOrderField (membersOf (trade.getAtPath (mutation.path.drop 1)))

theorem applyOrderFieldsToValue_current (cur : Option Value) (flds : List FieldMutation) :
    applyOrderFieldsToValue (cur.getD (.object [])) flds =
      .object (flds.foldl applyOrderField (membersOf cur)) := by
  cases cur <;> rfl

theorem inferFromOrderValue_of_stored {ord : Option Value} {cur : OrderLifecycle}
    (got : OrderLifecycle.stored (membersOf ord) = some cur) :
    ord.bind OrderLifecycle.inferFromOrderValue = some cur := by
  cases ord with
  | none => cases got
  | some val =>
    cases val with
    | object mems =>
      have seen : OrderLifecycle.stored mems = some cur := got
      simp [OrderLifecycle.inferFromOrderValue, seen]
    | null | bool | number | string | array => cases got

/-- What a successful normalization did: it left the mutation alone, or the mutation is one of
an order that determines a lifecycle, and that lifecycle was written into it. -/
theorem normalizeOrderLifecycleMutation_cases {trade : Value}
    {mutation normalized : NormalizedMutation}
    (done : normalizeOrderLifecycleMutation trade mutation = .ok normalized) :
    (normalized = mutation ∧ (tradeOrderKey mutation ≠ none →
        OrderLifecycle.inferFromOrderObject (nextOrder trade mutation) = none)) ∨
      ∃ next, OrderLifecycle.inferFromOrderObject (nextOrder trade mutation) = some next ∧
        normalized = { mutation with fields := upsertOrderLifecycleField mutation.fields next } ∧
        ∀ cur,
          OrderLifecycle.stored (membersOf (trade.getAtPath (mutation.path.drop 1))) =
              some cur →
            cur.canTransitionTo next = true := by
  unfold normalizeOrderLifecycleMutation at done
  cases key : tradeOrderKey mutation with
  | none =>
    rw [key] at done
    cases done
    exact .inl ⟨rfl, fun ord => absurd rfl ord⟩
  | some ids =>
    rw [key] at done
    dsimp only at done
    rw [applyOrderFieldsToValue_current] at done
    have inf : OrderLifecycle.inferFromOrderValueIgnoringLifecycle
        (.object (mutation.fields.foldl applyOrderField
          (membersOf (trade.getAtPath (mutation.path.drop 1))))) =
        OrderLifecycle.inferFromOrderObject (nextOrder trade mutation) := rfl
    rw [inf] at done
    cases determined : OrderLifecycle.inferFromOrderObject (nextOrder trade mutation) with
    | none =>
      rw [determined] at done
      cases done
      exact .inl ⟨rfl, fun _ => rfl⟩
    | some next =>
      rw [determined] at done
      refine .inr ⟨next, rfl, ?_⟩
      cases cur : (trade.getAtPath (mutation.path.drop 1)).bind
          OrderLifecycle.inferFromOrderValue with
      | none =>
        rw [cur] at done
        cases done
        refine ⟨rfl, ?_⟩
        intro old got
        rw [inferFromOrderValue_of_stored got] at cur
        cases cur
      | some seen =>
        rw [cur] at done
        dsimp only at done
        split at done
        · rename_i may
          cases done
          refine ⟨rfl, ?_⟩
          intro old got
          rw [inferFromOrderValue_of_stored got] at cur
          cases cur
          exact may
        · cases done

/-! ## Batches -/

/-- The later mutation writes an order that the earlier one has written or removed, so that
it was normalized against an order that is no longer there. -/
def staleAfter (earlier later : NormalizedMutation) : Bool :=
  match later.path with
  | ["trade", accountId, "orders", orderId] =>
    earlier.path == later.path || overwrites earlier (orderPath accountId orderId)
  | _ => false

/-- The mutation brings a lifecycle of its own to an order that stores one, and nothing else
determines the lifecycle. -/
def carriesLifecycle (trade : Value) (mutation : NormalizedMutation) : Bool :=
  isTradeOrderMutation mutation && mutation.fields.any (·.field == "lifecycle") &&
    (OrderLifecycle.inferFromOrderObject (nextOrder trade mutation)).isNone &&
    (OrderLifecycle.stored (membersOf (trade.getAtPath (mutation.path.drop 1)))).isSome

/-- A batch whose orders are all normalized against what the batch finds. -/
structure LifecycleSafe (trade : Value) (mutations : List NormalizedMutation) : Prop where
  fresh : mutations.Pairwise fun earlier later => staleAfter earlier later = false
  plain : ∀ mutation ∈ mutations, hidesLifecycle mutation = false
  uncarried : ∀ mutation ∈ mutations, carriesLifecycle trade mutation = false

theorem LifecycleSafe.tail {trade : Value} {mutation : NormalizedMutation}
    {mutations : List NormalizedMutation} (safe : LifecycleSafe trade (mutation :: mutations)) :
    LifecycleSafe trade mutations :=
  ⟨(pairwise_cons.mp safe.fresh).2,
    fun post mem => safe.plain post (mem_cons_of_mem _ mem),
    fun post mem => safe.uncarried post (mem_cons_of_mem _ mem)⟩

/-- Whatever writes below `trade` is a trade reply of the known shape. -/
def TradeOnly (mutation : NormalizedMutation) : Prop :=
  mutation.path.head? = some "trade" → mutation.source = .tradeReply ∧ TradeShaped mutation

theorem applyTurn_trade (ps : Partitions) (idx : Nat) (mutation : NormalizedMutation) :
    (applyTurn ps idx mutation).1 .trade =
      if mutation.path.head? = some "trade" then tradeAfter (ps .trade) mutation
      else ps .trade := by
  rw [applyTurn_partitions]
  split
  · rename_i lt
    obtain ⟨rel, all⟩ := head?_eq_some_iff.mp lt
    have split : partitionPath mutation = (.trade, rel) := by
      unfold partitionPath
      rw [all]
      rfl
    unfold turnApplied tradeAfter
    rw [split, all]
    exact Function.update_self _ _ _
  · rename_i away
    apply Function.update_of_ne
    intro trade
    apply away
    have split : partitionPathSegments mutation.path = (.trade, (partitionPath mutation).2) :=
      Prod.ext trade.symm rfl
    rw [partitionPathSegments_known split (by decide)]
    rfl

/-- The order is still there, and its lifecycle has only moved forward. -/
structure OrderKept (before after : Option Value) : Prop where
  present : ∀ members, before = some (.object members) →
    ∃ members', after = some (.object members')
  advances : OrderLifecycle.Advances (membersOf before) (membersOf after)

theorem OrderKept.refl (ord : Option Value) : OrderKept ord ord :=
  ⟨fun mems got => ⟨mems, got⟩, (OrderLifecycle.SameView.refl _).advances⟩

theorem OrderKept.trans {hd snd third : Option Value} (left : OrderKept hd snd)
    (right : OrderKept snd third) : OrderKept hd third := by
  refine ⟨fun members stored => ?_, left.advances.trans right.advances⟩
  obtain ⟨members', stored'⟩ := left.present members stored
  exact right.present members' stored'

section Batch

variable {accountId : AccountId} {orderId : OrderId} {mutation normalized : NormalizedMutation}

/-- A mutation of an order, in either of its guises. -/
theorem tradeOrderKey_of_path (only : TradeOnly mutation)
    (here : mutation.path = orderPath accountId orderId) :
    tradeOrderKey mutation = some (accountId, orderId) := by
  obtain ⟨src, form⟩ := only (by rw [here]; rfl)
  have obj := (form.keyed accountId orderId).mpr here
  simp [tradeOrderKey, src, obj]

theorem object_of_tradeOrderKey (key : tradeOrderKey mutation = some (accountId, orderId)) :
    mutation.object = some (.order accountId orderId) := by
  unfold tradeOrderKey at key
  split at key
  · cases key
  · split at key
    · rename_i obj
      cases key
      exact obj
    · cases key

theorem overwrites_order (here : mutation.path = orderPath accountId orderId)
    {acc : AccountId} {ord : OrderId} :
    overwrites mutation (orderPath acc ord) = false := by
  unfold overwrites
  rw [here]
  simp [orderPath]

variable {trade : Value} (only : TradeOnly mutation)

include only

/-- Normalizing changes nothing but the fields, and these only for an order. -/
theorem normalized_shape (done : normalizeOrderLifecycleMutation trade mutation = .ok normalized) :
    normalized.path = mutation.path ∧ TradeOnly normalized ∧
      (mutation.path.head? = some "trade" → ∀ accountId orderId,
        overwrites normalized (orderPath accountId orderId) =
          overwrites mutation (orderPath accountId orderId)) := by
  by_cases ordered : tradeOrderKey mutation = none
  · have same : normalized = mutation := by
      rw [normalizeOrderLifecycleMutation, ordered] at done
      exact (Except.ok.inj done).symm
    rw [same]
    exact ⟨rfl, only, fun _ _ _ => rfl⟩
  · rcases normalizeOrderLifecycleMutation_cases done with ⟨rfl, -⟩ | ⟨next, -, rfl, -⟩
    · exact ⟨rfl, only, fun _ _ _ => rfl⟩
    · refine ⟨rfl, ?_, ?_⟩
      · intro lt
        obtain ⟨src, form⟩ := only lt
        obtain ⟨nd, car, alts, -⟩ := upsertOrderLifecycleField_spec form.distinct next
        refine ⟨src, form.keyed, form.removes, ?_, nd⟩
        intro fld mem
        by_cases nm : fld.field = "lifecycle"
        · -- only one field has that name
          have same : fld = ⟨"lifecycle", .string next.asStr⟩ := inj_on_of_nodup_map nd mem car nm
          rw [same]
          rfl
        · exact form.scalar fld (alts fld mem nm)
      · intro lt accountId orderId
        obtain ⟨⟨acct, ord⟩, key⟩ := Option.ne_none_iff_exists'.mp ordered
        have here := ((only lt).2.keyed acct ord).mp (object_of_tradeOrderKey key)
        have free (other : NormalizedMutation) (same : other.path = mutation.path) :
            overwrites other (orderPath accountId orderId) = false :=
          overwrites_order (same.trans here)
        rw [free mutation rfl]
        exact free _ rfl

section

-- The order looks as it did in `trade`, which the mutation was normalized against.
variable (here : mutation.path = orderPath accountId orderId) {cur : Value}
  (same : OrderLifecycle.SameView (membersOf (orderIn trade accountId orderId))
    (membersOf (orderIn cur accountId orderId)))

include here same

/-- The write of the mutation itself, before its lifecycle, is the order the normalization looked
at. -/
theorem applyFieldsFrom_nextOrder :
    OrderLifecycle.SameView (applyFieldsFrom mutation.object 0
        (membersOf (orderIn cur accountId orderId)) mutation.fields).1
      (nextOrder trade mutation) := by
  obtain ⟨-, form⟩ := only (by rw [here]; rfl)
  intro name seen
  apply get?_applyFieldsFrom_eq_foldl form.removes form.distinct
  rw [here]
  exact (same name seen).symm

/-- Nothing determines the lifecycle of the written order: the stored one stays in place. -/
theorem order_undetermined (uncarried : carriesLifecycle trade mutation = false)
    (undetermined : OrderLifecycle.inferFromOrderObject (nextOrder trade mutation) = none) :
    let put := (applyFieldsFrom mutation.object 0
      (membersOf (orderIn cur accountId orderId)) mutation.fields).1
    OrderLifecycle.Matches put ∧
      OrderLifecycle.Advances (membersOf (orderIn cur accountId orderId)) put := by
  intro put
  obtain ⟨-, form⟩ := only (by rw [here]; rfl)
  have next := applyFieldsFrom_nextOrder only here same
  constructor
  · intro life inf
    rw [next.infer, undetermined] at inf
    cases inf
  · intro got seen
    have unnamed : "lifecycle" ∉ mutation.fields.map (·.field) := by
      intro nm
      obtain ⟨fld, mem, isLifecycle⟩ := mem_map.mp nm
      have carries : carriesLifecycle trade mutation = true := by
        unfold carriesLifecycle isTradeOrderMutation
        rw [tradeOrderKey_of_path only here, undetermined, here]
        change (true && _ && true && (OrderLifecycle.stored
          (membersOf (orderIn trade accountId orderId))).isSome) = true
        rw [same.stored, seen, any_eq_true.mpr ⟨fld, mem, by simp [isLifecycle]⟩]
        rfl
      rw [carries] at uncarried
      cases uncarried
    refine ⟨got, ?_, OrderLifecycle.canTransitionTo_refl got⟩
    rw [← seen]
    unfold OrderLifecycle.stored
    rw [(get?_applyFieldsFrom form.removes form.distinct 0 _).2 "lifecycle" unnamed]

/-- The written order determines a lifecycle, which is written along. -/
theorem order_determined {next : OrderLifecycle}
    (determined : OrderLifecycle.inferFromOrderObject (nextOrder trade mutation) = some next)
    (may : ∀ old, OrderLifecycle.stored (membersOf (orderIn trade accountId orderId)) =
      some old → old.canTransitionTo next = true) :
    let put := (applyFieldsFrom mutation.object 0
      (membersOf (orderIn cur accountId orderId))
      (upsertOrderLifecycleField mutation.fields next)).1
    OrderLifecycle.Matches put ∧
      OrderLifecycle.Advances (membersOf (orderIn cur accountId orderId)) put := by
  intro put
  obtain ⟨-, form⟩ := only (by rw [here]; rfl)
  obtain ⟨car, alts⟩ := get?_upserted form.removes form.distinct next
    (membersOf (orderIn cur accountId orderId))
  constructor
  · intro life inf
    have infers : OrderLifecycle.inferFromOrderObject put = some next := by
      rw [← determined]
      apply OrderLifecycle.inferFromOrderObject_congr
      intro name seen
      have ne : name ≠ "lifecycle" := by
        rintro rfl
        revert seen
        decide
      exact (alts name ne).trans (applyFieldsFrom_nextOrder only here same name (.inr seen))
    cases infers.symm.trans inf
    exact car
  · intro got known
    refine ⟨next, ?_, may got (same.stored.trans known)⟩
    unfold OrderLifecycle.stored
    rw [car]
    exact OrderLifecycle.fromStr_asStr next

/-- The turn of an order that no earlier mutation has changed. -/
theorem orderIn_written (done : normalizeOrderLifecycleMutation trade mutation = .ok normalized)
    (uncarried : carriesLifecycle trade mutation = false) :
    OrderLifecycle.Matches
        (membersOf (orderIn (tradeAfter cur normalized) accountId orderId)) ∧
      OrderKept (orderIn cur accountId orderId)
        (orderIn (tradeAfter cur normalized) accountId orderId) := by
  have rel : normalized.path = "trade" :: [accountId, "orders", orderId] := by
    rw [(normalized_shape only done).1, here]
    rfl
  rw [orderIn_here rel rfl cur]
  rcases normalizeOrderLifecycleMutation_cases done with ⟨rfl, undetermined⟩ |
    ⟨next, determined, rfl, allowed⟩
  · have unset := undetermined (by rw [tradeOrderKey_of_path only here]; exact nofun)
    obtain ⟨hit, adv⟩ := order_undetermined only here same uncarried unset
    exact ⟨hit, fun _ _ => ⟨_, rfl⟩, adv⟩
  · rw [here] at allowed
    obtain ⟨hit, adv⟩ := order_determined only here same determined allowed
    exact ⟨hit, fun _ _ => ⟨_, rfl⟩, adv⟩

end

end Batch

/-- The mutations of a batch, each normalized against the same orders. -/
abbrev Normalizes (trade : Value) : List NormalizedMutation → List NormalizedMutation → Prop :=
  List.Forall₂ fun mutation normalized =>
    normalizeOrderLifecycleMutation trade mutation = .ok normalized

section Runs

variable {trade : Value} {accountId : AccountId} {orderId : OrderId}
  {mutations normalized : List NormalizedMutation}

/-- An order as the trade partition of the store holds it. -/
def Partitions.order (partitions : Partitions) (accountId : AccountId) (orderId : OrderId) :
    Option Value :=
  partitions.get (orderPath accountId orderId)

/-- A turn that neither writes the order nor was preceded by one that did: what follows from
`orderIn_turn` for the partitions. -/
theorem order_turn {mutation normalized : NormalizedMutation} (only : TradeOnly mutation)
    (plain : hidesLifecycle mutation = false)
    (done : normalizeOrderLifecycleMutation trade mutation = .ok normalized)
    (accountId : AccountId) (orderId : OrderId) (ps : Partitions) (idx : Nat) :
    let pre := ps.order accountId orderId
    let post := (applyTurn ps idx normalized).1.order accountId orderId
    (mutation.path = orderPath accountId orderId ∧
        post = orderIn (tradeAfter (ps .trade) normalized) accountId orderId) ∨
      (overwrites mutation (orderPath accountId orderId) = true ∧ membersOf post = []) ∨
      OrderLifecycle.SameView (membersOf pre) (membersOf post) ∧
        ∀ members, pre = some (.object members) → ∃ members', post = some (.object members') := by
  intro pre post
  obtain ⟨path, only', sameOverwrites⟩ := normalized_shape only done
  have turn : post = orderIn (if normalized.path.head? = some "trade" then
      tradeAfter (ps .trade) normalized else ps .trade) accountId orderId := by
    rw [← applyTurn_trade ps idx normalized]
    rfl
  by_cases lt : normalized.path.head? = some "trade"
  · rw [if_pos lt] at turn
    obtain ⟨rel, all⟩ := head?_eq_some_iff.mp lt
    have plain' : hidesLifecycle normalized = false := by
      rw [← plain]
      unfold hidesLifecycle
      rw [path]
    rw [turn]
    rcases orderIn_turn all (only' lt).2 plain' accountId orderId (ps .trade) with
      here | ⟨overwritten, gone⟩ | kept
    · exact .inl ⟨path ▸ here, rfl⟩
    · rw [sameOverwrites (path ▸ lt)] at overwritten
      exact .inr (.inl ⟨overwritten, gone⟩)
    · exact .inr (.inr kept)
  · rw [if_neg lt] at turn
    rw [turn]
    exact .inr (.inr ⟨.refl _, fun members got => ⟨members, got⟩⟩)

/-- Mutations none of which writes the order itself. -/
theorem order_settled (normalizes : Normalizes trade mutations normalized)
    (only : ∀ mutation ∈ mutations, TradeOnly mutation)
    (raw : ∀ mutation ∈ mutations, hidesLifecycle mutation = false)
    (elsewhere : ∀ mutation ∈ mutations, mutation.path ≠ orderPath accountId orderId)
    (ps : Partitions) (matched : OrderLifecycle.Matches (membersOf (ps.order accountId orderId))) :
    let after := (runTurns ps normalized).order accountId orderId
    OrderLifecycle.Matches (membersOf after) ∧
      ((∀ mutation ∈ mutations, overwrites mutation (orderPath accountId orderId) = false) →
        OrderKept (ps.order accountId orderId) after) := by
  induction normalizes generalizing ps with
  | nil => exact ⟨matched, fun _ => .refl _⟩
  | cons done _ ih =>
    rename_i mutation normalized mutations normalizeds _
    have post := ih (fun _ mem => only _ (mem_cons_of_mem _ mem))
      (fun _ mem => raw _ (mem_cons_of_mem _ mem))
      (fun _ mem => elsewhere _ (mem_cons_of_mem _ mem))
      (applyTurn ps 0 normalized).1
    rcases order_turn (only _ mem_cons_self) (raw _ mem_cons_self) done accountId
        orderId ps 0 with
      ⟨here, -⟩ | ⟨overwritten, gone⟩ | ⟨same, present⟩
    · exact absurd here (elsewhere _ mem_cons_self)
    · rw [gone] at post
      refine ⟨(post OrderLifecycle.matches_nil).1, ?_⟩
      intro kept
      rw [kept _ mem_cons_self] at overwritten
      cases overwritten
    · obtain ⟨matched', kept'⟩ := post (same.matches_ matched)
      refine ⟨matched', ?_⟩
      intro kept
      exact OrderKept.trans ⟨present, same.advances⟩
        (kept' fun _ mem => kept _ (mem_cons_of_mem _ mem))

theorem staleAfter_order {pre post : NormalizedMutation}
    (here : post.path = orderPath accountId orderId) (new : staleAfter pre post = false) :
    pre.path ≠ orderPath accountId orderId ∧
      overwrites pre (orderPath accountId orderId) = false := by
  unfold staleAfter at new
  rw [here] at new
  simpa [orderPath] using new

/-- A whole batch, as long as the order looks as it did when the batch was normalized. -/
theorem order_batch (normalizes : Normalizes trade mutations normalized)
    (only : ∀ mutation ∈ mutations, TradeOnly mutation) (safe : LifecycleSafe trade mutations)
    (matched : OrderLifecycle.Matches (membersOf (orderIn trade accountId orderId)))
    (ps : Partitions) (same : OrderLifecycle.SameView (membersOf (orderIn trade accountId orderId))
      (membersOf (ps.order accountId orderId))) :
    let after := (runTurns ps normalized).order accountId orderId
    OrderLifecycle.Matches (membersOf after) ∧
      ((∀ mutation ∈ mutations, overwrites mutation (orderPath accountId orderId) = false) →
        OrderKept (ps.order accountId orderId) after) := by
  induction normalizes generalizing ps with
  | nil => exact ⟨same.matches_ matched, fun _ => .refl _⟩
  | cons done rest ih =>
    rename_i mutation normalized mutations normalizeds
    have onlyLater := fun post mem => only post (mem_cons_of_mem mutation mem)
    have new := (pairwise_cons.mp safe.fresh).1
    rcases order_turn (only _ mem_cons_self) (safe.plain _ mem_cons_self) done accountId
        orderId ps 0 with
      ⟨here, written⟩ | ⟨overwritten, gone⟩ | ⟨unchanged, present⟩
    · obtain ⟨matched', kept'⟩ := orderIn_written (only _ mem_cons_self) here same done
        (safe.uncarried _ mem_cons_self)
      rw [← written] at matched' kept'
      -- once the order was written, nothing of the batch writes it again
      obtain ⟨matchedLater, keptLater⟩ := order_settled rest onlyLater safe.tail.plain
        (fun post mem here' => (staleAfter_order here' (new post mem)).1 here) _ matched'
      refine ⟨matchedLater, ?_⟩
      intro kept
      exact kept'.trans (keptLater fun _ mem => kept _ (mem_cons_of_mem _ mem))
    · have away : ∀ post ∈ mutations, post.path ≠ orderPath accountId orderId := by
        intro post mem here
        rw [(staleAfter_order here (new post mem)).2] at overwritten
        cases overwritten
      obtain ⟨matchedLater, -⟩ := order_settled rest onlyLater safe.tail.plain away
        (applyTurn ps 0 normalized).1 (by rw [gone]; exact OrderLifecycle.matches_nil)
      refine ⟨matchedLater, ?_⟩
      intro kept
      rw [kept _ mem_cons_self] at overwritten
      cases overwritten
    · obtain ⟨matchedLater, keptLater⟩ :=
        ih onlyLater safe.tail (applyTurn ps 0 normalized).1 (same.trans unchanged)
      refine ⟨matchedLater, ?_⟩
      intro kept
      exact OrderKept.trans ⟨present, unchanged.advances⟩
        (keptLater fun _ mem => kept _ (mem_cons_of_mem _ mem))

end Runs

/-! ## Calls -/

/-- The two ways to ingest. -/
inductive IngestCall
  | ingest (input : RuntimeInput) (causedBy : List CommandId) (scope : CommitScope)
  | ingestBatch (inputs : List RuntimeInput) (causedBy : List CommandId) (scope : CommitScope)

namespace IngestCall

def run (adapters : AdapterRegistry) (store : StateStore) :
    IngestCall → Except ContractError (StateStore × Option CommitResult)
  | .ingest input causedBy scope => RuntimeHandle.ingest adapters store input causedBy scope
  | .ingestBatch inputs causedBy scope =>
    RuntimeHandle.ingestBatch adapters store inputs causedBy scope

/-- The mutations the call decodes. -/
def decoded (adapters : AdapterRegistry) : IngestCall → Decoded
  | .ingest input _ _ => adapters.decodeInputOwned input
  | .ingestBatch inputs _ _ => RuntimeHandle.decodeBatch adapters inputs

def inputs : IngestCall → List RuntimeInput
  | .ingest input _ _ => [input]
  | .ingestBatch inputs _ _ => inputs

def domains : IngestCall → List ProtocolDomain
  | .ingest input _ _ => inputDomains input
  | .ingestBatch inputs _ _ => batchInputDomains inputs

end IngestCall

theorem mem_batchInputDomains {ins : List RuntimeInput} {dom : ProtocolDomain} :
    dom ∈ batchInputDomains ins ↔ ∃ inp ∈ ins, dom ∈ inputDomains inp := by
  have add (known new : List ProtocolDomain) :
      dom ∈ new.foldl (fun doms dom =>
          if dom ∈ doms then doms else doms ++ [dom]) known ↔
        dom ∈ known ∨ dom ∈ new := by
    induction new generalizing known with
    | nil => simp
    | cons hd new ih =>
      rw [foldl_cons, ih]
      split <;> grind
  have run (known : List ProtocolDomain) : dom ∈ ins.foldl
      (fun doms inp => (inputDomains inp).foldl (fun doms dom =>
        if dom ∈ doms then doms else doms ++ [dom]) doms) known ↔
        dom ∈ known ∨ ∃ inp ∈ ins, dom ∈ inputDomains inp := by
    induction ins generalizing known with
    | nil => simp
    | cons inp ins ih =>
      rw [foldl_cons, ih, add]
      simp [or_assoc]
  simpa [batchInputDomains] using run []

theorem AdapterRegistry.decodeInputOwned_trade (adapters : AdapterRegistry)
    {inp : RuntimeInput} (wf : inp.Wf) :
    Decoded.All (TradeDecoded (inputDomains inp)) (adapters.decodeInputOwned inp) := by
  rw [decodeInputOwned_eq]
  exact decodeAll_trade .fastPath wf _

theorem RuntimeHandle.decodeBatch_trade (adapters : AdapterRegistry) {doms : List ProtocolDomain}
    {ins : List RuntimeInput} (wf : ∀ inp ∈ ins, inp.Wf)
    (cov : ∀ inp ∈ ins, ∀ dom ∈ inputDomains inp, dom ∈ doms) :
    Decoded.All (TradeDecoded doms) (decodeBatch adapters ins) := by
  induction ins with
  | nil => exact .nil
  | cons inp ins ih =>
    refine .append ?_ (ih (fun post mem => wf post (mem_cons_of_mem _ mem))
      fun post mem => cov post (mem_cons_of_mem _ mem))
    intro mutations dec mutation mem src
    obtain ⟨dom, form⟩ := adapters.decodeInputOwned_trade (wf inp mem_cons_self)
      mutations dec mutation mem src
    exact ⟨cov inp mem_cons_self _ dom, form⟩

namespace IngestCall

theorem decoded_trade (adapters : AdapterRegistry) {call : IngestCall}
    (wf : ∀ inp ∈ call.inputs, inp.Wf) :
    Decoded.All (TradeDecoded call.domains) (call.decoded adapters) := by
  cases call with
  | ingest inp cause sc => exact adapters.decodeInputOwned_trade (wf inp mem_cons_self)
  | ingestBatch ins cause sc =>
    apply RuntimeHandle.decodeBatch_trade adapters wf
    intro inp mem dom got
    exact mem_batchInputDomains.mpr ⟨inp, mem, got⟩

/-- A successful call: it decodes, normalizes, validates and applies. -/
theorem run_ok {adapters : AdapterRegistry} {store post : StateStore} {com : Option CommitResult}
    {call : IngestCall} (ok_ : call.run adapters store = .ok (post, com)) :
    ∃ mutations normalized, call.decoded adapters = .ok mutations ∧
      RuntimeHandle.normalizeMutations store call.domains mutations = .ok normalized ∧
      validateMutationDomains normalized = .ok () ∧
      post.partitions = runTurns store.partitions normalized := by
  have app (decoded : Decoded) (domains : List ProtocolDomain) (cause : List CommandId)
      (sc : CommitScope)
      (ok_ : (do
        let mutations ← decoded
        RuntimeHandle.applyUnderCommitGate store mutations domains cause sc) = .ok (post, com)) :
      ∃ mutations normalized, decoded = .ok mutations ∧
        RuntimeHandle.normalizeMutations store domains mutations = .ok normalized ∧
        validateMutationDomains normalized = .ok () ∧
        post.partitions = runTurns store.partitions normalized := by
    cases decoded with
    | error error => cases ok_
    | ok mutations =>
      change RuntimeHandle.applyUnderCommitGate store mutations domains cause sc = _ at ok_
      unfold RuntimeHandle.applyUnderCommitGate at ok_
      cases nrm : RuntimeHandle.normalizeMutations store domains mutations with
      | error error =>
        rw [nrm] at ok_
        cases ok_
      | ok normalized =>
        rw [nrm] at ok_
        change (validateMutationDomains normalized >>= fun _ => _) = _ at ok_
        cases acc : validateMutationDomains normalized with
        | error error =>
          rw [acc] at ok_
          cases ok_
        | ok _ =>
          rw [acc] at ok_
          have out := Except.ok.inj ok_
          refine ⟨mutations, normalized, rfl, nrm, acc, ?_⟩
          rw [← applyLoop_partitions 0, ← CommitEngine.apply_partitions store normalized domains
            cause sc, out]
  cases call with
  | ingest inp cause sc => exact app _ _ _ _ ok_
  | ingestBatch ins cause sc => exact app _ _ _ _ ok_

end IngestCall

variable {store : StateStore} {adapters : AdapterRegistry}

/-- Only a call with a trade domain is normalized, and only such a call has orders. -/
theorem normalizes_of_ok {doms : List ProtocolDomain}
    {mutations normalized : List NormalizedMutation}
    (dec : ∀ mutation ∈ mutations, TradeDecoded doms mutation)
    (done : RuntimeHandle.normalizeMutations store doms mutations = .ok normalized) :
    Normalizes (store.partitions .trade) mutations normalized := by
  have each : ∀ mutations normalized, normalizeEach (store.partitions .trade) mutations =
      .ok normalized → Normalizes (store.partitions .trade) mutations normalized := by
    intro mutations
    induction mutations with
    | nil =>
      rintro _ ⟨⟩
      exact .nil
    | cons mutation mutations ih =>
      intro normalized done
      rw [normalizeEach] at done
      cases hd : normalizeOrderLifecycleMutation (store.partitions .trade) mutation with
      | error error =>
        rw [hd] at done
        cases done
      | ok here =>
        rw [hd] at done
        change (normalizeEach (store.partitions .trade) mutations >>= fun _ => _) = _ at done
        cases post : normalizeEach (store.partitions .trade) mutations with
        | error error =>
          rw [post] at done
          cases done
        | ok rest =>
          rw [post] at done
          cases done
          exact .cons hd (ih rest post)
  have unordered (noOrder : ∀ mutation ∈ mutations, tradeOrderKey mutation = none) :
      Normalizes (store.partitions .trade) mutations mutations := by
    apply forall₂_same.mpr
    intro mutation mem
    rw [normalizeOrderLifecycleMutation, noOrder mutation mem]
  unfold RuntimeHandle.normalizeMutations at done
  split at done
  · rename_i mkt
    cases done
    apply unordered
    intro mutation mem
    -- a call that only has the market domain decodes no trade reply
    have alt : mutation.source ≠ .tradeReply := by
      intro src
      have dom := (dec mutation mem src).1
      rw [beq_iff_eq.mp mkt] at dom
      revert dom
      decide
    simp [tradeOrderKey, alt]
  · unfold normalizeOrderLifecycleMutations at done
    split at done
    · exact each mutations normalized done
    · rename_i noOrder
      cases done
      apply unordered
      intro mutation mem
      simp only [any_eq_true, not_exists, not_and, isTradeOrderMutation,
        Option.isSome_iff_ne_none, ne_eq, not_not] at noOrder
      exact noOrder mutation mem

/-- What was accepted below `trade` has a trade source. -/
theorem Normalizes.tradeSource {trade : Value} {mutations normalized : List NormalizedMutation}
    (normalizes : Normalizes trade mutations normalized)
    (acc : validateMutationDomains normalized = .ok ()) {mutation : NormalizedMutation}
    (mem : mutation ∈ mutations) (less : mutation.path.head? = some "trade") :
    mutation.source = .tradeReply := by
  obtain ⟨nrm, got, path, src⟩ : ∃ nrm ∈ normalized,
      nrm.path = mutation.path ∧ nrm.source = mutation.source := by
    clear acc
    induction normalizes with
    | nil => cases mem
    | cons done _ ih =>
      rcases mem_cons.mp mem with rfl | later
      · refine ⟨_, mem_cons_self, ?_⟩
        rcases normalizeOrderLifecycleMutation_cases done with ⟨rfl, -⟩ | ⟨next, -, rfl, -⟩
        · exact ⟨rfl, rfl⟩
        · exact ⟨rfl, rfl⟩
      · obtain ⟨nrm, got, same⟩ := ih later
        exact ⟨nrm, mem_cons_of_mem _ got, same⟩
  obtain ⟨root, rest, all, may⟩ := validateMutationDomains_ok_iff.mp acc nrm got
  rw [← path, all, head?_cons, Option.some.injEq] at less
  subst less
  rw [← src]
  cases kind : nrm.source <;> first | rfl | (rw [kind] at may; revert may; decide)

/-! ## Runs -/

/-- A successful call that satisfies the condition, as a step of the store. -/
inductive SafeCall (adapters : AdapterRegistry) (call : IngestCall) :
    StateStore → StateStore → Prop
  | intro {store after : StateStore} {commit : Option CommitResult} :
      (∀ input ∈ call.inputs, input.Wf) →
      (∀ mutations, call.decoded adapters = .ok mutations →
        LifecycleSafe (store.partitions .trade) mutations) →
      call.run adapters store = .ok (after, commit) → SafeCall adapters call store after

/-- No mutation of the call deletes the order, or replaces it from above. -/
def IngestCall.Keeps (adapters : AdapterRegistry) (accountId : AccountId) (orderId : OrderId)
    (call : IngestCall) : Prop :=
  ∀ mutations, call.decoded adapters = .ok mutations → ∀ mutation ∈ mutations,
    overwrites mutation (orderPath accountId orderId) = false

theorem SafeCall.order {call : IngestCall} {post : StateStore}
    (step : SafeCall adapters call store post) {accountId : AccountId} {orderId : OrderId}
    (matched : OrderLifecycle.Matches (membersOf (store.partitions.order accountId orderId))) :
    OrderLifecycle.Matches (membersOf (post.partitions.order accountId orderId)) ∧
      (call.Keeps adapters accountId orderId →
        OrderKept (store.partitions.order accountId orderId)
          (post.partitions.order accountId orderId)) := by
  obtain ⟨wf, safe, ok_⟩ := step
  obtain ⟨mutations, normalized, dec, done, acc, ps⟩ := IngestCall.run_ok ok_
  have trade := IngestCall.decoded_trade adapters wf mutations dec
  have normalizes := normalizes_of_ok trade done
  have only : ∀ mutation ∈ mutations, TradeOnly mutation := by
    intro mutation mem lt
    have src := normalizes.tradeSource acc mem lt
    exact ⟨src, (trade mutation mem src).2 lt⟩
  rw [ps]
  obtain ⟨matched', kept⟩ := order_batch normalizes only (safe mutations dec) matched
    store.partitions (.refl _)
  exact ⟨matched', fun hold => kept (hold mutations dec)⟩

/-- A run of calls that satisfy the condition. -/
abbrev SafeRun (adapters : AdapterRegistry) : StateStore → StateStore → Prop :=
  Relation.ReflTransGen fun store after => ∃ call, SafeCall adapters call store after

/-- A run of such calls during which the order is not deleted. -/
abbrev SafeRunKeeping (adapters : AdapterRegistry) (accountId : AccountId) (orderId : OrderId) :
    StateStore → StateStore → Prop :=
  Relation.ReflTransGen fun store after => ∃ call, SafeCall adapters call store after ∧
    call.Keeps adapters accountId orderId

theorem SafeRun.matches_ {rev : Revision} (run : SafeRun adapters (.new rev) store)
    (accountId : AccountId) (orderId : OrderId) :
    OrderLifecycle.Matches (membersOf (store.partitions.order accountId orderId)) := by
  induction run with
  | refl => exact OrderLifecycle.matches_nil
  | tail _ step ih =>
    obtain ⟨call, step⟩ := step
    exact (step.order ih).1

theorem SafeRunKeeping.order {accountId : AccountId} {orderId : OrderId} {post : StateStore}
    (run : SafeRunKeeping adapters accountId orderId store post)
    (matched : OrderLifecycle.Matches (membersOf (store.partitions.order accountId orderId))) :
    OrderLifecycle.Matches (membersOf (post.partitions.order accountId orderId)) ∧
      OrderKept (store.partitions.order accountId orderId)
        (post.partitions.order accountId orderId) := by
  induction run with
  | refl => exact ⟨matched, .refl _⟩
  | tail _ step ih =>
    obtain ⟨call, step, hold⟩ := step
    obtain ⟨matched', kept⟩ := step.order ih.1
    exact ⟨matched', ih.2.trans (kept hold)⟩

/-- Every order stores the lifecycle its fields determine, and as long as it is not deleted
its lifecycle only moves forward; a terminal one stays. -/
theorem SafeRun.orders_consistent {adapters : AdapterRegistry} {revision : Revision}
    {store : StateStore} (run : SafeRun adapters (.new revision) store)
    (accountId : AccountId) (orderId : OrderId) (members : Fields)
    (stored : store.partitions.order accountId orderId = some (.object members)) :
    (∀ lifecycle, OrderLifecycle.inferFromOrderObject members = some lifecycle →
      OrdMap.get? "lifecycle" members = some (.string lifecycle.asStr)) ∧
    ∀ later, SafeRunKeeping adapters accountId orderId store later → ∀ current,
      OrderLifecycle.stored members = some current →
        ∃ members' next, later.partitions.order accountId orderId = some (.object members') ∧
          OrderLifecycle.stored members' = some next ∧ current.canTransitionTo next = true ∧
          (current.isTerminal = true → next = current) := by
  have hit := run.matches_ accountId orderId
  have here : membersOf (store.partitions.order accountId orderId) = members := by
    rw [stored]
    rfl
  refine ⟨here ▸ hit, ?_⟩
  intro later keeping current known
  obtain ⟨-, kept⟩ := keeping.order hit
  obtain ⟨members', stored'⟩ := kept.present members stored
  obtain ⟨next, known', mvs⟩ := kept.advances current (here.symm ▸ known)
  rw [stored'] at known'
  exact ⟨members', next, stored', known', mvs,
    fun term => OrderLifecycle.canTransitionTo_terminal term mvs⟩

/-! An order is placed, and then finished: by one item, or by one item for each of the two
fields that changed. -/

instance (trade : Value) (mutations : List NormalizedMutation) :
    Decidable (LifecycleSafe trade mutations) :=
  decidable_of_iff
    ((mutations.Pairwise fun earlier later => staleAfter earlier later = false) ∧
      (∀ mutation ∈ mutations, hidesLifecycle mutation = false) ∧
      ∀ mutation ∈ mutations, carriesLifecycle trade mutation = false)
    ⟨fun ⟨fresh, plain, uncarried⟩ => ⟨fresh, plain, uncarried⟩,
      fun safe => ⟨safe.fresh, safe.plain, safe.uncarried⟩⟩

/-- The store after a call, if it succeeds. -/
def IngestCall.after (adapters : AdapterRegistry) (store : StateStore) (call : IngestCall) :
    StateStore :=
  match call.run adapters store with
  | .ok out => out.1
  | .error _ => store

def orderItem (fields : Fields) : Value :=
  .object [("trade", .object [("acc", .object [("orders", .object [("o", .object fields)])])])]

def orderCall (items : List Fields) : IngestCall :=
  .ingest (.io ⟨"td", [.trade], .json (.object
    [("aid", .string "rtn_data"), ("data", .array (items.map orderItem))])⟩) [] .realtimeUpdate

def placeOrder : IngestCall :=
  orderCall [[("status", .string "ALIVE"), ("volume_left", .ofI64 10),
    ("volume_orign", .ofI64 10)]]

def finishOrder : IngestCall :=
  orderCall [[("status", .string "FINISHED"), ("volume_left", .ofI64 0)]]

def finishOrderInTwo : IngestCall :=
  orderCall [[("volume_left", .ofI64 0)], [("status", .string "FINISHED")]]

def placedStore : StateStore := placeOrder.after AdapterRegistry.defaultAdapters (.new 0)

def finishedStore : StateStore :=
  finishOrder.after AdapterRegistry.defaultAdapters placedStore

theorem SafeCall.after {call : IngestCall} {mutations : List NormalizedMutation}
    (wf : ∀ inp ∈ call.inputs, inp.Wf) (dec : call.decoded adapters = .ok mutations)
    (safe : LifecycleSafe (store.partitions .trade) mutations)
    (succeeds : (call.run adapters store).toOption.isSome = true) :
    SafeCall adapters call store (call.after adapters store) := by
  unfold IngestCall.after
  cases run : call.run adapters store with
  | error error =>
    rw [run] at succeeds
    cases succeeds
  | ok out =>
    refine .intro wf ?_ run
    intro hit again
    rw [dec] at again
    cases again
    exact safe

def orderMutation (fields : List FieldMutation) : NormalizedMutation :=
  ⟨orderPath "acc" "o", some (.order "acc" "o"), fields, .tradeReply⟩

theorem placeOrder_safe :
    SafeCall AdapterRegistry.defaultAdapters placeOrder (.new 0) placedStore :=
  .after (forall_mem_singleton.mpr (show Value.Wf _ by decide))
    (show placeOrder.decoded AdapterRegistry.defaultAdapters = .ok [orderMutation
      [⟨"status", .string "ALIVE"⟩, ⟨"volume_left", .ofI64 10⟩, ⟨"volume_orign", .ofI64 10⟩]]
      by decide) (by decide) (by decide)

theorem finishOrder_safe :
    SafeCall AdapterRegistry.defaultAdapters finishOrder placedStore finishedStore :=
  .after (forall_mem_singleton.mpr (show Value.Wf _ by decide))
    (show finishOrder.decoded AdapterRegistry.defaultAdapters = .ok [orderMutation
      [⟨"status", .string "FINISHED"⟩, ⟨"volume_left", .ofI64 0⟩]] by decide)
    (by decide) (by decide)

theorem finishOrder_keeps : finishOrder.Keeps AdapterRegistry.defaultAdapters "acc" "o" := by
  intro mutations dec
  have seen : finishOrder.decoded AdapterRegistry.defaultAdapters = .ok [orderMutation
      [⟨"status", .string "FINISHED"⟩, ⟨"volume_left", .ofI64 0⟩]] := by decide
  rw [seen] at dec
  cases dec
  decide

theorem SafeRun.orders_consistent_finishOrder :
    OrderLifecycle.inferFromOrderObject
        (membersOf (finishedStore.partitions.order "acc" "o")) = some .filled ∧
      OrdMap.get? "lifecycle" (membersOf (finishedStore.partitions.order "acc" "o")) =
        some (.string "filled") ∧
      ∃ members next, finishedStore.partitions.order "acc" "o" = some (.object members) ∧
        OrderLifecycle.stored members = some next ∧
        OrderLifecycle.accepted.canTransitionTo next = true := by
  have put : SafeRun AdapterRegistry.defaultAdapters (.new 0) placedStore :=
    .single ⟨_, placeOrder_safe⟩
  have done : SafeRun AdapterRegistry.defaultAdapters (.new 0) finishedStore :=
    put.tail ⟨_, finishOrder_safe⟩
  refine ⟨by decide, ?_, ?_⟩
  · exact (done.orders_consistent "acc" "o" _ (by decide)).1 .filled (by decide)
  · obtain ⟨members, next, stored, seen, mvs, -⟩ :=
      (put.orders_consistent "acc" "o"
        [("lifecycle", .string "accepted"), ("status", .string "ALIVE"),
          ("volume_left", .ofI64 10), ("volume_orign", .ofI64 10)] (by decide)).2 _
        (.single ⟨_, finishOrder_safe, finishOrder_keeps⟩) .accepted (by decide)
    exact ⟨members, next, stored, seen, mvs⟩

/-- The two items are normalized against the placed order each: the fill is stored as a
cancellation. -/
theorem orders_inconsistent_in_two :
    placedStore.partitions.order "acc" "o" = some (.object
        [("lifecycle", .string "accepted"), ("status", .string "ALIVE"),
          ("volume_left", .ofI64 10), ("volume_orign", .ofI64 10)]) ∧
      (finishOrderInTwo.run AdapterRegistry.defaultAdapters placedStore).map
          (fun out => out.1.partitions.order "acc" "o") = .ok (some (.object
        [("lifecycle", .string "cancelled"), ("status", .string "FINISHED"),
          ("volume_left", .ofI64 0), ("volume_orign", .ofI64 10)])) ∧
      OrderLifecycle.inferFromOrderObject
        [("lifecycle", .string "cancelled"), ("status", .string "FINISHED"),
          ("volume_left", .ofI64 0), ("volume_orign", .ofI64 10)] = some .filled := by
  refine ⟨by decide, by decide, by decide⟩

end Tqsdk
