import Mathlib.Data.List.Induction
import Tqsdk.Lib.OrdMap

/-!
# Keys that are dropped some time after they were last active

A map remembers every key that an observation found active.  An observation that no longer finds
it gives it a deadline, one that finds it again takes the deadline away, and a sweep drops the
keys whose deadline has passed.  `tells_after` says which keys are left by the history alone.
-/

namespace Tqsdk.Deadlines

open List OrdMap

inductive Event (κ : Type)
  | observed (active : List κ) (now : Nat)
  | swept (now : Nat)

variable {κ : Type}

section Map

variable [LinearOrder κ]

/-- One observation: the active keys have no deadline, the others get one if they have none. -/
def observe (active : List κ) (expiresAt : Nat) (deadlines : List (κ × Option Nat)) :
    List (κ × Option Nat) :=
  (active.foldl (fun deadlines key => OrdMap.insert key none deadlines) deadlines).map fun entry =>
    (entry.1, if entry.1 ∉ active ∧ entry.2 = none then some expiresAt else entry.2)

def expire (now : Nat) (deadlines : List (κ × Option Nat)) : List (κ × Option Nat) :=
  deadlines.filter fun entry => entry.2.all fun deadline => decide (now < deadline)

def apply (grace : Nat) (deadlines : List (κ × Option Nat)) : Event κ → List (κ × Option Nat)
  | .observed active now => observe active (now + grace) deadlines
  | .swept now => expire now deadlines

def after (grace : Nat) (events : List (Event κ)) : List (κ × Option Nat) :=
  events.foldl (apply grace) []

/-! ## One event -/

variable {deadlines : List (κ × Option Nat)} {active : List κ} {key : κ}

theorem get?_foldl_insert : get? key
    (active.foldl (fun deadlines key => OrdMap.insert key none deadlines) deadlines) =
      if key ∈ active then some none else get? key deadlines := by
  induction active generalizing deadlines with
  | nil => simp
  | cons hd active ih =>
    rw [foldl_cons, ih, get?_insert]
    by_cases post : key ∈ active
    · simp [post]
    · by_cases here : key = hd
      · simp [here]
      · simp [here, post]

theorem get?_mapEntries {chg : κ → Option Nat → Option Nat} :
    get? key (deadlines.map fun ent => (ent.1, chg ent.1 ent.2)) =
      (get? key deadlines).map (chg key) := by
  induction deadlines with
  | nil => rfl
  | cons ent deadlines ih =>
    obtain ⟨key', due⟩ := ent
    rw [map_cons, get?_cons, get?_cons]
    by_cases same : key = key'
    · rw [if_pos same, if_pos same, same]
      rfl
    · rw [if_neg same, if_neg same, ih]

theorem get?_observe (expiresAt : Nat) : get? key (observe active expiresAt deadlines) =
    if key ∈ active then some none
    else (get? key deadlines).map fun due => some (due.getD expiresAt) := by
  rw [observe, @get?_mapEntries _ _ _ _ fun key due =>
    if key ∉ active ∧ due = none then some expiresAt else due, get?_foldl_insert]
  by_cases here : key ∈ active
  · simp [here]
  · rw [if_neg here, if_neg here]
    refine congrArg (fun chg => (get? key deadlines).map chg) (funext fun due => ?_)
    cases due <;> simp [here]

theorem sorted_observe (srt : OrdMap.Sorted deadlines) (expiresAt : Nat) :
    OrdMap.Sorted (observe active expiresAt deadlines) := by
  have ins : OrdMap.Sorted
      (active.foldl (fun deadlines key => OrdMap.insert key none deadlines) deadlines) := by
    induction active generalizing deadlines with
    | nil => exact srt
    | cons hd active ih => exact ih (srt.insert hd none)
  exact pairwise_map.mpr ins

theorem get?_expire (srt : OrdMap.Sorted deadlines) (now : Nat) :
    get? key (expire now deadlines) = (get? key deadlines).filter fun due =>
      due.all fun due => decide (now < due) :=
  @OrdMap.Sorted.get?_filter _ _ _ deadlines srt
    (fun due => due.all fun due => decide (now < due)) key

theorem sorted_after (grace : Nat) (events : List (Event κ)) :
    OrdMap.Sorted (after grace events) := by
  unfold after
  induction events using List.reverseRecOn with
  | nil => exact sorted_nil
  | append_singleton events ev ih =>
    rw [foldl_append]
    cases ev with
    | observed active now => exact sorted_observe ih _
    | swept now => exact ih.filter _

end Map

/-! ## Histories -/

variable {active : List κ} {key : κ}

/-- The event is an observation that finds the key. -/
def Finds (key : κ) : Event κ → Prop
  | .observed active _ => key ∈ active
  | .swept _ => False

/-- The last observation found the key. -/
def Active (key : κ) (events : List (Event κ)) : Prop :=
  ∃ before active now sweeps, events = before ++ .observed active now :: sweeps ∧ key ∈ active ∧
    ∀ event ∈ sweeps, ∃ time, event = .swept time

/-- The key was found, then missed by an observation at `ended` and never found again; no sweep
since then came as late as `grace` after it. -/
def Lingers (grace : Nat) (key : κ) (events : List (Event κ)) (ended : Nat) : Prop :=
  ∃ before active rest, events = before ++ .observed active ended :: rest ∧ key ∉ active ∧
    Active key before ∧ (∀ event ∈ rest, ¬Finds key event) ∧
    ∀ time, .swept time ∈ rest → time < ended + grace

theorem concat_eq_append_cons {events pre rest : List (Event κ)} {last ev : Event κ}
    (same : events ++ [last] = pre ++ ev :: rest) :
    (rest = [] ∧ events = pre ∧ last = ev) ∨
      ∃ mid, rest = mid ++ [last] ∧ events = pre ++ ev :: mid := by
  rcases eq_nil_or_concat rest with rfl | ⟨mid, fin, rfl⟩
  · obtain ⟨left, right⟩ := append_inj' same rfl
    exact .inl ⟨rfl, left, singleton_inj.mp right⟩
  · rw [concat_eq_append, ← cons_append, ← append_assoc] at same
    obtain ⟨left, right⟩ := append_inj' same rfl
    rw [singleton_inj] at right
    exact .inr ⟨mid, by rw [concat_eq_append, right], left⟩

variable {now : Nat}

theorem active_observed {events : List (Event κ)} :
    Active key (events ++ [.observed active now]) ↔ key ∈ active := by
  constructor
  · rintro ⟨pre, hit, time, sweeps, same, mem, silent⟩
    rcases concat_eq_append_cons same with ⟨-, -, last⟩ | ⟨mid, rfl, -⟩
    · cases last
      exact mem
    · obtain ⟨_, swept⟩ := silent _ (mem_append_right _ (mem_singleton_self _))
      cases swept
  · exact fun mem => ⟨events, active, now, [], rfl, mem, nofun⟩

theorem active_swept {events : List (Event κ)} :
    Active key (events ++ [.swept now]) ↔ Active key events := by
  constructor
  · rintro ⟨pre, hit, time, sweeps, same, mem, silent⟩
    rcases concat_eq_append_cons same with ⟨-, -, last⟩ | ⟨mid, rfl, rfl⟩
    · cases last
    · exact ⟨pre, hit, time, mid, rfl, mem, fun ev inn => silent ev (mem_append_left _ inn)⟩
  · rintro ⟨pre, hit, time, sweeps, rfl, mem, silent⟩
    refine ⟨pre, hit, time, sweeps ++ [.swept now], by simp, mem, fun ev inn => ?_⟩
    rcases mem_append.mp inn with old | new
    · exact silent ev old
    · exact ⟨now, mem_singleton.mp new⟩

theorem lingers_observed {grace ovr : Nat} {events : List (Event κ)} :
    Lingers grace key (events ++ [.observed active now]) ovr ↔
      key ∉ active ∧ ((ovr = now ∧ Active key events) ∨ Lingers grace key events ovr) := by
  constructor
  · rintro ⟨pre, missed, rest, same, abst, hit, never, early⟩
    rcases concat_eq_append_cons same with ⟨rfl, rfl, last⟩ | ⟨mid, rfl, rfl⟩
    · cases last
      exact ⟨abst, .inl ⟨rfl, hit⟩⟩
    · refine ⟨never _ (mem_append_right _ (mem_singleton_self _)),
        .inr ⟨pre, missed, mid, rfl, abst, hit, fun ev mem =>
          never ev (mem_append_left _ mem), fun time mem =>
          early time (mem_append_left _ mem)⟩⟩
  · rintro ⟨abst, ⟨rfl, hit⟩ | ⟨pre, missed, rest, rfl, gone, hit, never, early⟩⟩
    · exact ⟨events, active, [], rfl, abst, hit, nofun, nofun⟩
    · refine ⟨pre, missed, rest ++ [.observed active now], by simp, gone, hit,
        fun ev mem => ?_, fun time mem => ?_⟩
      · rcases mem_append.mp mem with old | new
        · exact never ev old
        · rw [mem_singleton.mp new]
          exact abst
      · rcases mem_append.mp mem with old | new
        · exact early time old
        · cases mem_singleton.mp new

theorem lingers_swept {grace ovr : Nat} {events : List (Event κ)} :
    Lingers grace key (events ++ [.swept now]) ovr ↔
      Lingers grace key events ovr ∧ now < ovr + grace := by
  constructor
  · rintro ⟨pre, missed, rest, same, gone, hit, never, early⟩
    rcases concat_eq_append_cons same with ⟨rfl, rfl, last⟩ | ⟨mid, rfl, rfl⟩
    · cases last
    · exact ⟨⟨pre, missed, mid, rfl, gone, hit, fun ev mem =>
          never ev (mem_append_left _ mem), fun time mem =>
          early time (mem_append_left _ mem)⟩,
        early now (mem_append_right _ (mem_singleton_self _))⟩
  · rintro ⟨⟨pre, missed, rest, rfl, gone, hit, never, early⟩, soon⟩
    refine ⟨pre, missed, rest ++ [.swept now], by simp, gone, hit, fun ev mem => ?_,
      fun time mem => ?_⟩
    · rcases mem_append.mp mem with old | new
      · exact never ev old
      · rw [mem_singleton.mp new]
        exact id
    · rcases mem_append.mp mem with old | new
      · exact early time old
      · cases mem_singleton.mp new
        exact soon

theorem not_active_nil : ¬Active key ([] : List (Event κ)) := by
  rintro ⟨pre, hit, time, sweeps, same, -⟩
  cases pre <;> cases same

theorem not_lingers_nil {grace ovr : Nat} : ¬Lingers grace key ([] : List (Event κ)) ovr := by
  rintro ⟨pre, missed, rest, same, -⟩
  cases pre <;> cases same

/-- What is held under a key says where the key stands. -/
structure Tells (grace : Nat) (key : κ) (events : List (Event κ)) (held : Option (Option Nat)) :
    Prop where
  active : held = some none ↔ Active key events
  lingers : ∀ deadline, held = some (some deadline) ↔
    ∃ ended, deadline = ended + grace ∧ Lingers grace key events ended

section Tells

variable {grace : Nat} {events : List (Event κ)}

theorem Tells.gone (tells : Tells grace key events none) :
    ¬Active key events ∧ ∀ ovr, ¬Lingers grace key events ovr := by
  refine ⟨fun hit => ?_, fun ovr stays => ?_⟩
  · cases tells.active.mpr hit
  · cases (tells.lingers (ovr + grace)).mpr ⟨ovr, rfl, stays⟩

theorem Tells.ended {due : Nat} (tells : Tells grace key events (some (some due))) :
    ∃ ovr, due = ovr + grace ∧ Lingers grace key events ovr ∧
      ∀ alt, Lingers grace key events alt → alt = ovr := by
  obtain ⟨ovr, same, stays⟩ := (tells.lingers due).mp rfl
  refine ⟨ovr, same, stays, fun alt stays => ?_⟩
  have held := (tells.lingers (alt + grace)).mpr ⟨alt, rfl, stays⟩
  injection held with held
  injection held with held
  omega

theorem Tells.observed [DecidableEq κ] {held : Option (Option Nat)}
    (tells : Tells grace key events held) (active : List κ) (now : Nat) :
    Tells grace key (events ++ [.observed active now])
      (if key ∈ active then some none
        else held.map fun due => some (due.getD (now + grace))) := by
  constructor
  · rw [active_observed]
    split
    · rename_i here
      exact ⟨fun _ => here, fun _ => rfl⟩
    · rename_i missed
      refine ⟨fun same => ?_, fun hit => absurd hit missed⟩
      obtain ⟨_, -, same⟩ := Option.map_eq_some_iff.mp same
      cases same
  · intro due
    simp only [lingers_observed]
    split
    · rename_i here
      refine ⟨nofun, ?_⟩
      rintro ⟨fin, -, missed, -⟩
      exact absurd here missed
    · rename_i missed
      cases held with
      | none =>
        refine ⟨nofun, ?_⟩
        rintro ⟨fin, -, -, ⟨-, hit⟩ | lingers⟩
        · exact absurd hit tells.gone.1
        · exact absurd lingers (tells.gone.2 fin)
      | some got =>
        cases got with
        | none =>
          constructor
          · intro same
            cases same
            exact ⟨now, rfl, missed, .inl ⟨rfl, tells.active.mp rfl⟩⟩
          · rintro ⟨fin, rfl, -, ⟨rfl, -⟩ | lingers⟩
            · rfl
            · cases (tells.lingers (fin + grace)).mpr ⟨fin, rfl, lingers⟩
        | some old =>
          constructor
          · intro same
            obtain ⟨fin, same, lingers⟩ := (tells.lingers due).mp same
            exact ⟨fin, same, missed, .inr lingers⟩
          · rintro ⟨fin, rfl, -, ⟨-, hit⟩ | lingers⟩
            · cases tells.active.mpr hit
            · exact (tells.lingers (fin + grace)).mpr ⟨fin, rfl, lingers⟩

theorem Tells.swept {held : Option (Option Nat)} (tells : Tells grace key events held) (now : Nat) :
    Tells grace key (events ++ [.swept now])
      (held.filter fun due => due.all fun due => decide (now < due)) := by
  suffices (held.filter (fun due =>
        due.all fun due => decide (now < due)) = some none ↔ Active key events) ∧
      ∀ due, held.filter (fun due =>
        due.all fun due => decide (now < due)) = some (some due) ↔
          ∃ fin, due = fin + grace ∧ Lingers grace key events fin ∧ now < fin + grace by
    exact ⟨this.1.trans active_swept.symm, fun due => by
      simp only [lingers_swept]
      exact this.2 due⟩
  cases held with
  | none =>
    refine ⟨⟨nofun, fun hit => absurd hit tells.gone.1⟩, fun due => ⟨nofun, ?_⟩⟩
    rintro ⟨fin, -, stays, -⟩
    exact absurd stays (tells.gone.2 fin)
  | some got =>
    cases got with
    | none =>
      refine ⟨⟨fun _ => tells.active.mp rfl, fun _ => rfl⟩, fun due => ⟨nofun, ?_⟩⟩
      rintro ⟨fin, -, stays, -⟩
      cases (tells.lingers (fin + grace)).mpr ⟨fin, rfl, stays⟩
    | some old =>
      obtain ⟨fin, rfl, stays, only⟩ := tells.ended
      by_cases soon : now < fin + grace
      · have kept : (some (some (fin + grace))).filter (fun due =>
            due.all fun due => decide (now < due)) =
              some (some (fin + grace)) := by simp [Option.filter, soon]
        rw [kept]
        refine ⟨tells.active, fun due => (tells.lingers due).trans ?_⟩
        constructor
        · rintro ⟨alt, rfl, stays⟩
          exact ⟨alt, rfl, stays, only alt stays ▸ soon⟩
        · rintro ⟨alt, rfl, stays, -⟩
          exact ⟨alt, rfl, stays⟩
      · have drop : (some (some (fin + grace))).filter (fun due =>
            due.all fun due => decide (now < due)) = none := by
          simp [Option.filter, soon]
        rw [drop]
        refine ⟨⟨nofun, fun hit => ?_⟩, fun due => ⟨nofun, ?_⟩⟩
        · cases tells.active.mpr hit
        · rintro ⟨alt, -, stays, post⟩
          exact absurd (only alt stays ▸ post) soon

end Tells

section Map

variable [LinearOrder κ]

/-- The map holds the keys that are active without a deadline, and those that linger with one. -/
theorem tells_after (grace : Nat) (key : κ) (events : List (Event κ)) :
    Tells grace key events (get? key (after grace events)) := by
  induction events using List.reverseRecOn with
  | nil =>
    refine ⟨⟨nofun, fun hit => absurd hit not_active_nil⟩, fun due => ⟨nofun, ?_⟩⟩
    rintro ⟨fin, -, stays⟩
    exact absurd stays not_lingers_nil
  | append_singleton events ev ih =>
    have app : after grace (events ++ [ev]) = apply grace (after grace events) ev := by simp [after]
    rw [app]
    cases ev with
    | observed active now =>
      rw [apply, get?_observe]
      exact ih.observed active now
    | swept now =>
      rw [apply, get?_expire (sorted_after grace events)]
      exact ih.swept now

section

variable {grace : Nat} {events : List (Event κ)}

theorem isSome_after_iff :
    (get? key (after grace events)).isSome = true ↔
      Active key events ∨ ∃ ovr, Lingers grace key events ovr := by
  have tells := tells_after grace key events
  constructor
  · intro held
    obtain ⟨due, held⟩ := Option.isSome_iff_exists.mp held
    cases due with
    | none => exact .inl (tells.active.mp held)
    | some due =>
      obtain ⟨ovr, -, stays⟩ := (tells.lingers due).mp held
      exact .inr ⟨ovr, stays⟩
  · rintro (hit | ⟨ovr, stays⟩)
    · rw [tells.active.mpr hit]
      rfl
    · rw [(tells.lingers (ovr + grace)).mpr ⟨ovr, rfl, stays⟩]
      rfl

theorem mem_after_iff :
    key ∈ (after grace events).map Prod.fst ↔
      Active key events ∨ ∃ ovr, Lingers grace key events ovr := by
  rw [← isSome_after_iff, mem_map]
  constructor
  · rintro ⟨ent, mem, rfl⟩
    exact Option.isSome_iff_ne_none.mpr (get?_ne_none_of_mem mem)
  · intro held
    obtain ⟨due, held⟩ := Option.isSome_iff_exists.mp held
    exact ⟨_, mem_of_get? held, rfl⟩

theorem expire_keeps_active (hit : Active key events) (now : Nat) :
    get? key (expire now (after grace events)) = some none := by
  rw [get?_expire (sorted_after grace events), (tells_after grace key events).active.mpr hit]
  rfl

end

end Map

end Tqsdk.Deadlines
