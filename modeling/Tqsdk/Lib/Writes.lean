import Mathlib.Data.List.Basic

/-!
# Messages that write registers

A register machine whose messages each overwrite at most one register.  What a register holds
after a queue of messages is the last write to it, or what it held before: so two queues with
the same last writes leave the same machine, and a queue may be cut anywhere.
-/

namespace Tqsdk.Writes

open List Option

variable {κ α μ σ : Type} [DecidableEq κ]

/-- The value a message writes to one register. -/
def writeAt (writes : μ → Option (κ × α)) (key : κ) (message : μ) : Option α :=
  match writes message with
  | some (written, value) => if written = key then some value else none
  | none => none

def lastWrite (writes : μ → Option (κ × α)) (key : κ) : List μ → Option α
  | [] => none
  | message :: rest => (lastWrite writes key rest).or (writeAt writes key message)

variable {writes : μ → Option (κ × α)} {key : κ}

@[simp] theorem lastWrite_nil : lastWrite writes key [] = none := rfl

theorem lastWrite_cons (message : μ) (rest : List μ) :
    lastWrite writes key (message :: rest) =
      (lastWrite writes key rest).or (writeAt writes key message) := rfl

theorem lastWrite_append (pre post : List μ) :
    lastWrite writes key (pre ++ post) =
      (lastWrite writes key post).or (lastWrite writes key pre) := by
  induction pre with
  | nil => simp
  | cons message pre ih => rw [cons_append, lastWrite_cons, ih, lastWrite_cons, Option.or_assoc]

variable {message : μ}

theorem writeAt_of_writes {value : α} (put : writes message = some (key, value)) :
    writeAt writes key message = some value := by
  simp [writeAt, put]

theorem writeAt_of_none (silent : writes message = none) :
    writeAt writes key message = none := by
  simp [writeAt, silent]

theorem lastWrite_of_silent {queue : List μ} (silent : ∀ message ∈ queue, writes message = none) :
    lastWrite writes key queue = none := by
  induction queue with
  | nil => rfl
  | cons message queue ih =>
    rw [lastWrite_cons, ih fun m mem => silent m (mem_cons_of_mem _ mem),
      writeAt_of_none (silent message mem_cons_self), or_none]

/-- A register with a last write is named by some message of the queue. -/
theorem exists_of_lastWrite {queue : List μ} {value : α}
    (last : lastWrite writes key queue = some value) :
    ∃ message ∈ queue, writes message = some (key, value) := by
  induction queue with
  | nil => cases last
  | cons message queue ih =>
    rw [lastWrite_cons, or_eq_some_iff] at last
    rcases last with post | ⟨-, here⟩
    · obtain ⟨m, mem, put⟩ := ih post
      exact ⟨m, mem_cons_of_mem _ mem, put⟩
    · refine ⟨message, mem_cons_self, ?_⟩
      unfold writeAt at here
      split at here
      · rename_i put value' eq
        split at here
        · rename_i same
          cases here
          rw [eq, same]
        · cases here
      · cases here

/-! ### Queues made of one block of messages per item -/

section Blocks

variable {ι : Type} {blk : ι → List μ} {name : ι → κ} {value : ι → α}

section

variable
  (each : ∀ item, lastWrite writes key (blk item) =
    if name item = key then some (value item) else none)
  {its : List ι}

include each

theorem lastWrite_blocks_eq_none (abst : ∀ item ∈ its, name item ≠ key) :
    lastWrite writes key (its.flatMap blk) = none := by
  induction its with
  | nil => rfl
  | cons item its ih =>
    rw [flatMap_cons, lastWrite_append, ih fun alt mem => abst alt (mem_cons_of_mem _ mem), none_or,
      each, if_neg (abst item mem_cons_self)]

theorem lastWrite_blocks_eq_some {put : α} (here : ∃ item ∈ its, name item = key)
    (agr : ∀ item ∈ its, name item = key → value item = put) :
    lastWrite writes key (its.flatMap blk) = some put := by
  induction its with
  | nil =>
    obtain ⟨item, member, -⟩ := here
    cases member
  | cons item its ih =>
    rw [flatMap_cons, lastWrite_append]
    by_cases post : ∃ alt ∈ its, name alt = key
    · rw [ih post fun alt member => agr alt (mem_cons_of_mem _ member)]
      rfl
    · have gone : ∀ alt ∈ its, name alt ≠ key := fun alt member nm => post ⟨alt, member, nm⟩
      have silent := lastWrite_blocks_eq_none each gone
      obtain ⟨alt, member, nm⟩ := here
      rcases mem_cons.mp member with rfl | member
      · rw [silent, none_or, each, if_pos nm, agr alt mem_cons_self nm]
      · exact absurd ⟨alt, member, nm⟩ post

end

end Blocks

/-! ## Machines -/

section Machine

variable (read : σ → κ → α) (receive : σ → μ → σ)

/-- `receive` overwrites exactly the register the message names. -/
def Overwrites (writes : μ → Option (κ × α)) : Prop :=
  ∀ state message key,
    read (receive state message) key = (writeAt writes key message).getD (read state key)

variable {read receive}

theorem Overwrites.foldl (overwrites : Overwrites read receive writes) (queue : List μ)
    (st : σ) (key : κ) :
    read (queue.foldl receive st) key = (lastWrite writes key queue).getD (read st key) := by
  induction queue generalizing st with
  | nil => rfl
  | cons message queue ih =>
    rw [foldl_cons, ih, overwrites, lastWrite_cons]
    cases lastWrite writes key queue <;> rfl

end Machine

/-! ## Queues that bring a machine to a goal -/

/-- Received from `held`, the queue leaves every register at its `goal`. -/
def Delivers (writes : μ → Option (κ × α)) (held goal : κ → α) (queue : List μ) : Prop :=
  ∀ key, (lastWrite writes key queue).getD (held key) = goal key

/-- The queue writes no register to anything but its `goal`. -/
def Agrees (writes : μ → Option (κ × α)) (goal : κ → α) (queue : List μ) : Prop :=
  ∀ key value, lastWrite writes key queue = some value → value = goal key

/-- The messages move the goal: they write every register whose goal changes, and every
register they write ends at the new one. -/
def Moves (writes : μ → Option (κ × α)) (before after : κ → α) (messages : List μ) : Prop :=
  ∀ key, (lastWrite writes key messages = none ∧ after key = before key) ∨
    lastWrite writes key messages = some (after key)

variable {held goal before after : κ → α} {queue dropped messages : List μ}

theorem Agrees.nil : Agrees writes goal [] := fun _ _ last => by cases last

theorem Moves.of_silent (silent : ∀ message ∈ messages, writes message = none) :
    Moves writes goal goal messages :=
  fun _ => .inl ⟨lastWrite_of_silent silent, rfl⟩

theorem Delivers.append (delivers : Delivers writes held before queue)
    (mvs : Moves writes before after messages) :
    Delivers writes held after (queue ++ messages) := by
  intro key
  rw [lastWrite_append]
  rcases mvs key with ⟨silent, same⟩ | written
  · rw [silent, none_or, same]
    exact delivers key
  · rw [written]
    rfl

theorem Agrees.append (agr : Agrees writes before queue)
    (mvs : Moves writes before after messages) :
    Agrees writes after (queue ++ messages) := by
  intro key value last
  rw [lastWrite_append] at last
  rcases mvs key with ⟨silent, same⟩ | written
  · rw [silent, none_or] at last
    rw [same]
    exact agr key value last
  · rw [written] at last
    cases last
    rfl

/-- Receiving the first message of the queue leaves the rest to deliver. -/
theorem Delivers.receive {read : σ → κ → α} {receive : σ → μ → σ} {st : σ}
    (overwrites : Overwrites read receive writes)
    (delivers : Delivers writes (read st) goal (message :: queue)) :
    Delivers writes (read (receive st message)) goal queue := by
  intro key
  rw [overwrites, ← delivers key, lastWrite_cons]
  cases lastWrite writes key queue <;> rfl

/-- A queue may lose messages whose writes are made again later, or are made already. -/
theorem Delivers.drop (delivers : Delivers writes held goal (dropped ++ queue))
    (harmless : ∀ key value, lastWrite writes key dropped = some value →
      lastWrite writes key queue ≠ none ∨ held key = value) :
    Delivers writes held goal queue := by
  intro key
  rw [← delivers key, lastWrite_append]
  cases post : lastWrite writes key queue with
  | some value => rfl
  | none =>
    rw [none_or]
    cases lost : lastWrite writes key dropped with
    | none => rfl
    | some value =>
      rcases harmless key value lost with rewritten | already
      · exact absurd post rewritten
      · exact already

theorem Delivers.of_silent (delivers : Delivers writes held goal queue)
    (silent : ∀ message ∈ queue, writes message = none) : held = goal := by
  funext key
  rw [← delivers key, lastWrite_of_silent silent]
  rfl

end Tqsdk.Writes
