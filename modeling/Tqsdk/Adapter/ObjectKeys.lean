import Tqsdk.Adapter.TradeMutations

/-!
# Object keys and paths

Whatever the adapters decode, a mutation at the path of a quote, or four segments below
`trade`, carries the object key of that path.  Normalization keeps both.
-/

namespace Tqsdk

open List

/-- The paths whose object key is the same for every mutation. -/
def KeyedPath (path : List PathSegment) : Prop :=
  (∃ symbol, path = ["quotes", symbol]) ∨
    ∃ accountId kind id, path = ["trade", accountId, kind, id]

def KeyedByPath (mutation : NormalizedMutation) : Prop :=
  KeyedPath mutation.path → mutation.object = inferObjectKeyFromSegments mutation.path

variable {path base : List PathSegment}

theorem not_keyedPath_of_head {root : PathSegment} (head : path.head? = some root)
    (qs : root ≠ "quotes") (td : root ≠ "trade") :
    ¬KeyedPath path := by
  rintro (⟨sym, rfl⟩ | ⟨acct, kind, id, rfl⟩)
  · exact qs (Option.some.inj head).symm
  · exact td (Option.some.inj head).symm

theorem not_keyedPath_of_length (two : path.length ≠ 2) (four : path.length ≠ 4) :
    ¬KeyedPath path := by
  rintro (⟨sym, rfl⟩ | ⟨acct, kind, id, rfl⟩)
  · exact two rfl
  · exact four rfl

theorem scalarLeaf_keyedByPath (src : MutationSource) {fld : String}
    (leaf : emitsScalarLeaf path fld = true) (val : Value) :
    KeyedByPath (scalarLeaf src path fld val) := by
  intro key
  unfold emitsScalarLeaf at leaf
  split at leaf
  · exact absurd key (not_keyedPath_of_length (by simp [scalarLeaf]) (by simp [scalarLeaf]))
  · exact absurd key (not_keyedPath_of_length (by simp [scalarLeaf]) (by simp [scalarLeaf]))
  · cases leaf

theorem flattenFields_keyedByPath (src : MutationSource) (path : List PathSegment)
    (isEmpty : Bool) (flds : List FieldMutation) :
    ∀ mu ∈ flattenFields src path isEmpty flds, KeyedByPath mu := by
  intro mu mem
  simp only [flattenFields] at mem
  split at mem
  · rw [mem_singleton.mp mem]
    exact fun _ => rfl
  · split at mem
    · rw [mem_singleton.mp mem]
      exact fun _ => rfl
    · split at mem
      · obtain ⟨fld, -, rfl⟩ := mem_map.mp mem
        exact fun key => absurd key (not_keyedPath_of_length (by simp) (by simp))
      · cases mem

mutual

theorem flattenChildren_keyedByPath (src : MutationSource) (path : List PathSegment) :
    ∀ pat : List (String × Value), ∀ m ∈ flattenChildren src path pat,
      KeyedByPath m
  | [] => by
      intro m mem
      rw [flattenChildren] at mem
      cases mem
  | (key, value) :: rest => by
      intro m mem
      rw [flattenChildren, mem_append] at mem
      rcases mem with here | later
      · exact flattenMember_keyedByPath src path key value m here
      · exact flattenChildren_keyedByPath src path rest m later

theorem flattenMember_keyedByPath (src : MutationSource) (path : List PathSegment)
    (key : String) : ∀ val : Value, ∀ m ∈ flattenMember src path key val,
      KeyedByPath m
  | .object patch => by
      intro m mem
      rw [flattenMember, mem_append] at mem
      rcases mem with here | later
      · exact flattenFields_keyedByPath src _ _ _ m here
      · exact flattenChildren_keyedByPath src (path ++ [key]) patch m later
  | .null | .bool _ | .number _ | .string _ | .array _ => by
      intro m mem
      unfold flattenMember at mem
      split at mem
      · rename_i leaf
        rw [mem_singleton.mp mem]
        exact scalarLeaf_keyedByPath src leaf _
      · cases mem

end

theorem decodeJsonValue_keyedByPath (val : Value) (src : MutationSource) (alt : ¬KeyedPath base) :
    ∀ mu ∈ decodeJsonValue val src base, KeyedByPath mu := by
  intro mu mem
  unfold decodeJsonValue at mem
  split at mem
  · rcases mem_append.mp mem with own | below
    · exact flattenFields_keyedByPath src base _ _ mu own
    · exact flattenChildren_keyedByPath src base _ mu below
  · split at mem
    · cases mem
    · rw [mem_singleton.mp mem]
      exact fun key => absurd key alt

theorem decodeItem_keyedByPath (qs : QuoteItems) (src : MutationSource)
    (alt : ¬KeyedPath base) (item : Value) :
    ∀ mu ∈ decodeItem qs src base item, KeyedByPath mu := by
  intro mu mem
  cases qs with
  | flattened => exact decodeJsonValue_keyedByPath item src alt mu mem
  | fastPath =>
    simp only [decodeItem] at mem
    cases fast : decodeMarketQuoteRtnDataItem item src base with
    | none =>
      rw [fast] at mem
      exact decodeJsonValue_keyedByPath item src alt mu mem
    | some dec =>
      rw [fast] at mem
      obtain ⟨mems, -, decoded_⟩ := Option.bind_eq_some_iff.mp fast
      unfold decodeQuoteObjectFastPath at decoded_
      split at decoded_
      · cases decoded_
      · cases decoded_
        obtain ⟨ent, -, rfl⟩ := mem_map.mp mem
        exact fun _ => rfl

theorem ProtocolAdapter.Base.not_keyedPath {adp : ProtocolAdapter}
    {base : List PathSegment} (put : adp.Base base) : ¬KeyedPath base := by
  cases adp with
  | market | trade =>
    rw [show base = [] from put]
    exact not_keyedPath_of_length (by decide) (by decide)
  | system | replay | query | schema => exact not_keyedPath_of_head put (by decide) (by decide)

theorem ProtocolAdapter.decode_keyedByPath (qs : QuoteItems) (adp : ProtocolAdapter)
    (inp : RuntimeInput) : Decoded.All KeyedByPath (adp.decode qs inp) :=
  adp.decode_all inp
    (fun _ item put => decodeItem_keyedByPath qs _ put.not_keyedPath item)
    (fun _ val put => decodeJsonValue_keyedByPath val _ put.not_keyedPath)
    fun _ _ put _ key => absurd key put.not_keyedPath

theorem AdapterRegistry.decodeInputOwned_keyedByPath (adps : AdapterRegistry)
    (inp : RuntimeInput) : Decoded.All KeyedByPath (adps.decodeInputOwned inp) := by
  rw [decodeInputOwned_eq]
  unfold decodeInput
  induction adps.filter fun adp => adp.acceptsInput inp with
  | nil => exact .nil
  | cons adp adps ih => exact .append (adp.decode_keyedByPath .fastPath inp) ih

/-! ## Normalization -/

theorem normalizeOrderLifecycleMutation_keeps {td : Value} {m norm : NormalizedMutation}
    (done : normalizeOrderLifecycleMutation td m = .ok norm) :
    norm.path = m.path ∧ norm.object = m.object := by
  unfold normalizeOrderLifecycleMutation at done
  split at done
  · cases done
    exact ⟨rfl, rfl⟩
  · dsimp only at done
    split at done
    · cases done
      exact ⟨rfl, rfl⟩
    · split at done
      · split at done
        · cases done
          exact ⟨rfl, rfl⟩
        · cases done
      · cases done
        exact ⟨rfl, rfl⟩

theorem normalizeEach_keyedByPath {td : Value} {muts norm : List NormalizedMutation}
    (key : ∀ mu ∈ muts, KeyedByPath mu) (done : normalizeEach td muts = .ok norm) :
    ∀ mu ∈ norm, KeyedByPath mu := by
  induction muts generalizing norm with
  | nil =>
    cases done
    exact nofun
  | cons hd rest ih =>
    rw [normalizeEach] at done
    cases here : normalizeOrderLifecycleMutation td hd with
    | error error =>
      rw [here] at done
      cases done
    | ok head =>
      cases post : normalizeEach td rest with
      | error error =>
        rw [here, post] at done
        cases done
      | ok tail =>
        rw [here, post] at done
        cases done
        obtain ⟨path, obj⟩ := normalizeOrderLifecycleMutation_keeps here
        intro mu mem
        rcases mem_cons.mp mem with rfl | below
        · rw [KeyedByPath, path, obj]
          exact key hd mem_cons_self
        · exact ih (fun mu mem => key mu (mem_cons_of_mem _ mem)) post mu below

namespace RuntimeHandle

theorem normalizeMutations_keyedByPath {sto : StateStore} {doms : List ProtocolDomain}
    {muts norm : List NormalizedMutation} (key : ∀ mu ∈ muts, KeyedByPath mu)
    (done : normalizeMutations sto doms muts = .ok norm) :
    ∀ mu ∈ norm, KeyedByPath mu := by
  unfold normalizeMutations at done
  split at done
  · cases done
    exact key
  · unfold normalizeOrderLifecycleMutations at done
    split at done
    · exact normalizeEach_keyedByPath key done
    · cases done
      exact key

/-- A successful `ingest` applies its normalized mutations, which are keyed by their paths. -/
theorem ingest_ok {adps : AdapterRegistry} {sto : StateStore} {inp : RuntimeInput}
    {cause : List CommandId} {sc : CommitScope} {out : StateStore × Option CommitResult}
    (fed : ingest adps sto inp cause sc = .ok out) :
    ∃ muts, (adps.decodeInputOwned inp >>= normalizeMutations sto (inputDomains inp)) = .ok muts ∧
      (∀ m ∈ muts, KeyedByPath m) ∧
      out = CommitEngine.apply sto muts (inputDomains inp) cause sc := by
  unfold ingest ingestWith at fed
  cases dec : adps.decodeInputOwned inp with
  | error error =>
    rw [dec] at fed
    cases fed
  | ok muts =>
    rw [dec] at fed
    change applyUnderCommitGate sto muts (inputDomains inp) cause sc = _ at fed
    unfold applyUnderCommitGate at fed
    cases nrm : normalizeMutations sto (inputDomains inp) muts with
    | error error =>
      rw [nrm] at fed
      cases fed
    | ok norm =>
      cases acc : validateMutationDomains norm with
      | error error =>
        rw [nrm] at fed
        change (validateMutationDomains norm >>= fun _ => _) = _ at fed
        rw [acc] at fed
        cases fed
      | ok _ =>
        rw [nrm] at fed
        change (validateMutationDomains norm >>= fun _ => _) = _ at fed
        rw [acc] at fed
        exact ⟨norm, nrm, normalizeMutations_keyedByPath (adps.decodeInputOwned_keyedByPath inp muts dec)
          nrm, (Except.ok.inj fed).symm⟩

end RuntimeHandle

end Tqsdk
