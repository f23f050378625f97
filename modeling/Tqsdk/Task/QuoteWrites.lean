import Tqsdk.Task.ReplayMutations

/-!
# What a batch leaves of a quote

A replay step writes quotes only at their own paths and never removes a field.  Of such a batch
the object of one symbol sees the writes at its own path, in order, and each of its fields ends
with the last value written, or with the value it had.
-/

namespace Tqsdk

open List OrdMap

open Value

/-- The mutation writes fields of one quote, or nothing in the quotes. -/
def NormalizedMutation.WritesQuote (mutation : NormalizedMutation) : Prop :=
  (partitionPath mutation).1 ≠ .quotes ∨
    ∃ symbol, mutation.path = ["quotes", symbol] ∧ mutation.object = some (.quote symbol) ∧
      ∀ field ∈ mutation.fields, field.value.isNull = false

/-- The members of a quote object, none of an absent one. -/
def quoteMembers (quote : Option Value) : Fields := (quote.map Value.entries).getD []

/-- A quote after a write of some of its fields. -/
def quoteAfterFields (symbol : Symbol) (quote : Option Value) (fields : List FieldMutation) :
    Value :=
  .object (applyFieldsFrom (some (.quote symbol)) 0 (quoteMembers quote) fields).1

/-- A quote after the writes at its path. -/
def quoteAfter (symbol : Symbol) (quote : Option Value) (mutations : List NormalizedMutation) :
    Option Value :=
  mutations.foldl (fun quote mutation =>
    if mutation.path = ["quotes", symbol] then
      some (quoteAfterFields symbol quote mutation.fields)
    else quote) quote

/-- The value the last of the writes of a field leaves. -/
def lastWrite (name : String) (fields : List FieldMutation) : Option Value :=
  fields.foldl (fun last field => if field.field = name then some field.value else last) none

/-- The fields a batch writes at the path of a quote, in order. -/
def quoteWrites (symbol : Symbol) (mutations : List NormalizedMutation) : List FieldMutation :=
  mutations.flatMap fun mutation =>
    if mutation.path = ["quotes", symbol] then mutation.fields else []

def Partitions.quote (partitions : Partitions) (symbol : Symbol) : Option Value :=
  (partitions .quotes).getAtPath [symbol]

variable {symbol : Symbol} {mutations : List NormalizedMutation} {quote : Option Value}

theorem quotePath_injective {alt : Symbol}
    (same : (["quotes", symbol] : StatePath) = ["quotes", alt]) : symbol = alt := by
  injection same with _ rest
  injection rest

/-! ## One write -/

theorem lastWrite_append (name : String) (left right : List FieldMutation) :
    lastWrite name (left ++ right) = (lastWrite name right).or (lastWrite name left) := by
  have run : ∀ (flds : List FieldMutation) (lo : Option Value),
      flds.foldl (fun last fld => if fld.field = name then some fld.value else last)
        lo = (lastWrite name flds).or lo := by
    intro flds
    induction flds with
    | nil => intro lo; rfl
    | cons fld flds ih =>
      intro lo
      have hd : lastWrite name (fld :: flds) =
          (lastWrite name flds).or (if fld.field = name then some fld.value else none) :=
        ih _
      rw [foldl_cons, ih, hd]
      split
      · cases lastWrite name flds <;> rfl
      · rw [Option.or_none]
  rw [lastWrite, foldl_append, run]
  rfl

theorem lastWrite_cons (name : String) (fld : FieldMutation) (flds : List FieldMutation) :
    lastWrite name (fld :: flds) =
      (lastWrite name flds).or (if fld.field = name then some fld.value else none) :=
  lastWrite_append name [fld] flds

theorem get?_applyFieldsFrom_lastWrite {obj : Option ObjectKey}
    (removes : ∀ fld, preservesNullField obj fld = false) {flds : List FieldMutation}
    (put : ∀ fld ∈ flds, fld.value.isNull = false) (idx : Nat) (map : Fields) (name : String) :
    get? name (applyFieldsFrom obj idx map flds).1 = (lastWrite name flds).or (get? name map) := by
  induction flds generalizing idx map with
  | nil => rfl
  | cons fld flds ih =>
    rw [forall_mem_cons] at put
    have turn : (applyFieldsFrom obj idx map (fld :: flds)).1 =
        (applyFieldsFrom obj (idx + 1)
          (((applyField obj map fld).map Prod.fst).getD map) flds).1 := by
      rw [applyFieldsFrom]
      cases applyField obj map fld <;> rfl
    rw [turn, ih put.2, get?_applyField removes, lastWrite_cons, fieldAfter, put.1]
    by_cases here : name = fld.field
    · subst here
      cases lastWrite fld.field flds <;> simp
    · rw [if_neg here, if_neg (Ne.symm here), Option.or_none]

/-- Only the session's reconnect state keeps a null field. -/
theorem preservesNullField_quote (symbol : Symbol) (fld : String) :
    preservesNullField (some (.quote symbol)) fld = false := rfl

theorem applyTurn_quote {ps : Partitions} {m : NormalizedMutation}
    (ws : m.WritesQuote) (idx : Nat) (symbol : Symbol) :
    (applyTurn ps idx m).1.quote symbol =
      if m.path = ["quotes", symbol] then
        some (quoteAfterFields symbol (ps.quote symbol) m.fields)
      else ps.quote symbol := by
  rw [applyTurn_partitions]
  unfold Partitions.quote
  rcases ws with away | ⟨put, path, obj, -⟩
  · have alt : m.path ≠ ["quotes", symbol] := by
      intro path
      unfold partitionPath at away
      rw [path] at away
      exact away rfl
    rw [if_neg alt, Function.update_of_ne (Ne.symm away)]
  · have split : partitionPath m = (.quotes, [put]) := by
      rw [partitionPath, path]
      rfl
    have app : (turnApplied ps m).node =
        (applyMutationAtPath (some (.quote put)) m.fields false (ps .quotes) [put]).node := by
      unfold turnApplied
      rw [split, obj]
      rfl
    rw [split, Function.update_self, app]
    by_cases here : put = symbol
    · subst here
      have child : (ensureChildObject (ps .quotes) put).child.entries =
          quoteMembers ((ps .quotes).getAtPath [put]) := by
        rw [quoteMembers, getAtPath_cons, get_eq_entries]
        unfold ensureChildObject
        cases get? put (ps .quotes).entries with
        | none => rfl
        | some quote =>
          cases quote <;> rfl
      rw [if_pos path, quoteAfterFields, ← child]
      exact getAtPath_object_insert _ _ _ []
    · have sep : (["quotes", put] : StatePath) ≠ ["quotes", symbol] :=
        fun same => here (quotePath_injective same)
      rw [path, if_neg sep]
      exact (applyMutationAtPath_cons_get _ _ _ _ _ []).2.2.2 symbol (Ne.symm here) []

/-! ## A batch -/

theorem runTurns_quote (ws : ∀ m ∈ mutations, m.WritesQuote) (ps : Partitions) (symbol : Symbol) :
    (runTurns ps mutations).quote symbol = quoteAfter symbol (ps.quote symbol) mutations := by
  induction mutations generalizing ps with
  | nil => rfl
  | cons m mutations ih =>
    rw [forall_mem_cons] at ws
    unfold runTurns at ih ⊢
    rw [foldl_cons, ih ws.2, applyTurn_quote ws.1]
    rfl

theorem quoteAfter_append (symbol : Symbol) (quote : Option Value)
    (left right : List NormalizedMutation) :
    quoteAfter symbol quote (left ++ right) =
      quoteAfter symbol (quoteAfter symbol quote left) right :=
  foldl_append

/-- A batch without a write at the quote's path leaves it. -/
theorem quoteAfter_of_apart (sep : ∀ m ∈ mutations, m.path ≠ ["quotes", symbol])
    (quote : Option Value) : quoteAfter symbol quote mutations = quote := by
  induction mutations with
  | nil => rfl
  | cons m mutations ih =>
    rw [forall_mem_cons] at sep
    unfold quoteAfter at ih ⊢
    rw [foldl_cons, if_neg sep.1]
    exact ih sep.2

theorem get?_quoteAfterFields {flds : List FieldMutation}
    (put : ∀ fld ∈ flds, fld.value.isNull = false) (symbol : Symbol)
    (quote : Option Value) (name : String) :
    get? name (quoteMembers (some (quoteAfterFields symbol quote flds))) =
      (lastWrite name flds).or (get? name (quoteMembers quote)) :=
  get?_applyFieldsFrom_lastWrite (preservesNullField_quote symbol) put 0 _ name

theorem get?_quoteAfter (put : ∀ fld ∈ quoteWrites symbol mutations, fld.value.isNull = false)
    (quote : Option Value) (name : String) :
    get? name (quoteMembers (quoteAfter symbol quote mutations)) =
      (lastWrite name (quoteWrites symbol mutations)).or
        (get? name (quoteMembers quote)) := by
  induction mutations generalizing quote with
  | nil => rfl
  | cons m mutations ih =>
    unfold quoteWrites at put ih ⊢
    rw [flatMap_cons, forall_mem_append] at put
    unfold quoteAfter at ih ⊢
    rw [foldl_cons, ih put.2, flatMap_cons, lastWrite_append]
    by_cases here : m.path = ["quotes", symbol]
    · rw [if_pos here] at put ⊢
      rw [if_pos here, get?_quoteAfterFields put.1, Option.or_assoc]
    · rw [if_neg here, if_neg here]
      cases lastWrite name _ <;> rfl

/-! ## Quotes as maps -/

/-- Absent, or an object that is a map. -/
def IsQuote (quote : Option Value) : Prop :=
  ∀ value, quote = some value → ∃ members, value = .object members ∧ OrdMap.Sorted members

theorem IsQuote.sorted_members (isQuote : IsQuote quote) :
    OrdMap.Sorted (quoteMembers quote) := by
  cases quote with
  | none => exact sorted_nil
  | some val =>
    obtain ⟨mems, rfl, srt⟩ := isQuote val rfl
    exact srt

theorem IsQuote.afterFields (isQuote : IsQuote quote) (symbol : Symbol)
    (flds : List FieldMutation) : IsQuote (some (quoteAfterFields symbol quote flds)) := by
  rintro val ⟨⟩
  exact ⟨_, rfl, (applyFieldsFrom_edited _ 0 .refl flds).sorted isQuote.sorted_members⟩

theorem IsQuote.after (isQuote : IsQuote quote) (symbol : Symbol)
    (mutations : List NormalizedMutation) : IsQuote (quoteAfter symbol quote mutations) := by
  induction mutations generalizing quote with
  | nil => exact isQuote
  | cons m mutations ih =>
    unfold quoteAfter at ih ⊢
    rw [foldl_cons]
    split
    · exact ih (isQuote.afterFields symbol m.fields)
    · exact ih isQuote

/-- Two quotes with the same fields are the same, unless only one of them is there. -/
theorem IsQuote.ext {left right : Option Value} (isLeft : IsQuote left) (isRight : IsQuote right)
    (here : left.isSome = right.isSome)
    (same : ∀ name, get? name (quoteMembers left) = get? name (quoteMembers right))
    : left = right := by
  cases left with
  | none =>
    cases right with
    | none => rfl
    | some val => cases here
  | some val =>
    cases right with
    | none => cases here
    | some alt =>
      obtain ⟨mems, rfl, sorted⟩ := isLeft val rfl
      obtain ⟨alts, rfl, sorted'⟩ := isRight alt rfl
      rw [sorted.ext sorted' same]

end Tqsdk
