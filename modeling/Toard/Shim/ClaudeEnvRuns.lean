/-
**What the user set stays, and is all that is left (`claude_env.rs`).**

A variable changes hands when its value is the one that is wanted: the run records it as its own. Apart
from that, runs, edits and a last `off` leave the user's variables where they are.

* **`users_kept`**: both, over every run.
-/

import Mathlib.Data.List.Nodup
import Toard.Shim.ClaudeEnv

namespace Toard.Shim.ClaudeEnv

open Toard.Json
open Toard.Library (Reachable ReachableBy run)

/-! ### Texts -/

theorem parseRoot_ok {text : String} {root : Value} (parsed : parseRoot text = .ok root) :
    ∃ entries, root = .object entries ∧ Printable root := by
  rw [parseRoot] at parsed
  split at parsed
  case isTrue =>
    cases parsed
    exact ⟨[], rfl, printable_object.mpr nofun⟩
  case isFalse =>
    split at parsed
    case h_1 => cases parsed
    case h_2 entries read =>
      cases parsed
      exact ⟨entries, rfl, printable_of_parse read⟩
    case h_3 => cases parsed

theorem parseRoot_toPretty {entries : List (String × Value)} (printable : Printable (.object entries)) :
    parseRoot (toPretty (.object entries)) = .ok (.object entries) := by
  have brace : ∃ tail, (toPretty (.object entries)).toList = '\x7b' :: tail := by
    rw [toPretty, String.toList_ofList]
    cases entries with
    | nil => exact ⟨_, rfl⟩
    | cons entry rest => exact ⟨_, rfl⟩
  obtain ⟨tail, text⟩ := brace
  have solid : ¬ (toPretty (.object entries)).toList.all isWhiteSpace = true := by
    rw [text, List.all_cons]
    exact Bool.false_ne_true
  rw [parseRoot, if_neg solid, parse_toPretty printable]

theorem written_getD (root : Value) (text : String) : (written root text).getD text = toPretty root := by
  rw [written]
  split
  case isTrue => rfl
  case isFalse same => exact (not_not.mp same).symm

/-- A pair as a member of `env`. -/
def entryOf (pair : String × String) : String × Value := (pair.1, .string pair.2)

theorem stateFromJson_stateToJson (state : List (String × String)) :
    stateFromJson (stateToJson state) = state := by
  have strings : Printable (.object (state.map entryOf)) := printable_object.mpr fun entry among => by
    obtain ⟨pair, -, rfl⟩ := List.mem_map.mp among
    trivial
  have printable : Printable (.object [("keys", .object (state.map entryOf))]) :=
    printable_object.mpr fun entry among => by
      rw [List.mem_singleton.mp among]
      exact strings
  have read : parse (stateToJson state) = some (.object [("keys", .object (state.map entryOf))]) :=
    parse_toPretty printable
  rw [stateFromJson, read]
  dsimp only
  rw [Value.get_cons, if_pos rfl]
  dsimp only
  rw [List.filterMap_map]
  exact List.filterMap_some

theorem envEntries_of_parseRoot {text : String} {root : List (String × Value)}
    (parsed : parseRoot text = .ok (.object root)) {entries : List (String × Value)}
    (found : (Value.object root).get "env" = some (.object entries)) : envEntries text = entries := by
  rw [envEntries, parsed]
  dsimp only
  rw [found]

/-! ### One key -/

def remembered (prevState : List (String × String)) (key : String) : Option String :=
  (prevState.find? fun ours => ours.1 == key).map Prod.snd

theorem mem_of_remembered {prevState : List (String × String)} {key old : String}
    (is : remembered prevState key = some old) : (key, old) ∈ prevState := by
  obtain ⟨pair, first, rfl⟩ := Option.map_eq_some_iff.mp is
  have same : pair.1 = key := by simpa using List.find?_some first
  rw [← same]
  exact List.mem_of_find?_eq_some first

theorem manage_spec (prevState : List (String × String)) (entries : List (String × Value))
    (state : List (String × String)) (warnings : List String) (key want : String) :
    (∃ after, manage prevState { env := .object entries, state, warnings } (key, want)
        = { env := .object (setEntry key (.string want) entries), state := state ++ [(key, want)],
            warnings := after } ∧
      ∀ cur, (Value.object entries).get key = some cur →
        cur = .string want ∨ ∃ old, remembered prevState key = some old ∧ cur = .string old) ∨
    (∃ after, manage prevState { env := .object entries, state, warnings } (key, want)
        = { env := .object entries, state, warnings := after } ∧
      ∃ cur, (Value.object entries).get key = some cur ∧ cur ≠ .string want ∧
        ∀ old, remembered prevState key = some old → cur ≠ .string old) := by
  rw [manage]
  dsimp only
  split
  case h_1 missing =>
    exact .inl ⟨warnings, rfl, fun cur found => nomatch missing.symm.trans found⟩
  case h_2 cur found =>
    split
    case isTrue same =>
      refine .inl ⟨warnings, ?_, fun other also => .inl ?_⟩
      · rw [setEntry_same (same ▸ found)]
      · rw [← Option.some.inj (found.symm.trans also), same]
    case isFalse different =>
      split
      case isTrue ours =>
        refine .inl ⟨_, by rw [Value.set], fun other also => .inr ⟨cur, ours.symm, ?_⟩⟩
        exact (Option.some.inj (found.symm.trans also)).symm
      case isFalse foreign =>
        refine .inr ⟨_, rfl, _, found, fun same => different (Value.string.inj same), ?_⟩
        intro old is same
        exact foreign (by rw [Value.string.inj same]; exact is.symm)
  case h_3 cur text found =>
    exact .inr ⟨_, rfl, cur, found, text want, fun old _ => text old⟩

theorem release_spec (entries : List (String × Value)) (warnings : List String) (key ours : String) :
    ((Value.object entries).get key = some (.string ours) ∧
      release (.object entries, warnings) (key, ours) = (.object (eraseEntry key entries), warnings)) ∨
    ((Value.object entries).get key ≠ some (.string ours) ∧
      ∃ after, release (.object entries, warnings) (key, ours) = (.object entries, after)) := by
  rw [release]
  dsimp only
  split
  case h_1 cur found =>
    split
    case isTrue same => exact .inl ⟨by rw [found, same], rfl⟩
    case isFalse different =>
      refine .inr ⟨fun same => different ?_, _, rfl⟩
      exact Value.string.inj (Option.some.inj (found.symm.trans same))
  case h_2 cur text found =>
    exact .inr ⟨fun same => text ours (Option.some.inj (found.symm.trans same)), _, rfl⟩
  case h_3 missing => exact .inr ⟨fun same => (nomatch missing.symm.trans same), _, rfl⟩

/-! ### Plans -/

theorem setEntry_setEntry (key : String) (first second : Value) (entries : List (String × Value)) :
    setEntry key second (setEntry key first entries) = setEntry key second entries := by
  induction entries with
  | nil => simp only [setEntry, if_true]
  | cons entry rest ih =>
    rw [setEntry, setEntry]
    by_cases same : entry.1 = key
    · rw [if_pos same, if_pos same, setEntry, if_pos same]
    · rw [if_neg same, if_neg same, setEntry, if_neg same, ih]

/-- What `plan_on` does to the members of `env`. -/
def managed (prevState : List (String × String)) (wanted : List (String × String))
    (entries : List (String × Value)) : Progress :=
  wanted.foldl (manage prevState) { env := .object entries, state := [], warnings := [] }

theorem planOn_ok {text endpoint token : String} {host : Option String} {root : List (String × Value)}
    (parsed : parseRoot text = .ok (.object root)) {entries : List (String × Value)}
    (found : (Value.object root).get "env" = some (.object entries) ∨
      (Value.object root).get "env" = none ∧ entries = []) (prevState : List (String × String)) :
    planOn text prevState endpoint token host = .ok {
      settings := written (.object (setEntry "env"
        (managed prevState (managedKeys endpoint token host) entries).env root)) text
      state := (managed prevState (managedKeys endpoint token host) entries).state
      warnings := (managed prevState (managedKeys endpoint token host) entries).warnings } := by
  rw [planOn, parsed]
  obtain found | ⟨missing, rfl⟩ := found
  · simp only [Except.bind, bind, found, Option.isNone_some, Bool.false_eq_true, if_false]
    rfl
  · have made : (Value.object (setEntry "env" (.object []) root)).get "env" = some (.object []) := by
      rw [get_setEntry, if_pos rfl]
    simp only [Except.bind, bind, missing, Option.isNone_none, if_true, Value.set, made]
    rw [setEntry_setEntry]
    rfl

theorem planOn_spec {text endpoint token : String} {host : Option String}
    {prevState : List (String × String)} {plan : PlanResult}
    (planned : planOn text prevState endpoint token host = .ok plan) :
    ∃ root entries, parseRoot text = .ok (.object root) ∧
      ((Value.object root).get "env" = some (.object entries) ∨
        (Value.object root).get "env" = none ∧ entries = []) := by
  cases parsed : parseRoot text with
  | error refusal =>
    rw [planOn, parsed] at planned
    cases planned
  | ok parsedRoot =>
    obtain ⟨root, rfl, -⟩ := parseRoot_ok parsed
    cases found : (Value.object root).get "env" with
    | none => exact ⟨root, [], rfl, .inr ⟨found, rfl⟩⟩
    | some env =>
      rw [planOn, parsed] at planned
      simp only [Except.bind, bind, found, Option.isNone_some, Bool.false_eq_true, if_false]
        at planned
      split at planned
      case h_1 entries same => exact ⟨root, entries, rfl, .inl (found.trans same)⟩
      case h_2 => cases planned

/-- What `plan_off` leaves of a document. -/
def withoutOurs (prevState : List (String × String)) (root : List (String × Value)) : Value :=
  match (Value.object root).get "env" with
  | none => .object root
  | some env =>
    let root := setEntry "env" (prevState.foldl release (env, [])).1 root
    if (prevState.foldl release (env, [])).1.isEmptyObject then .object (eraseEntry "env" root)
    else .object root

theorem planOff_ok {text : String} {root : List (String × Value)}
    (parsed : parseRoot text = .ok (.object root)) (prevState : List (String × String)) :
    ∃ warnings, planOff text prevState = .ok {
      settings := written (withoutOurs prevState root) text, state := [], warnings } := by
  rw [planOff, parsed, withoutOurs]
  cases found : (Value.object root).get "env" with
  | none =>
    simp only [Except.bind, bind, found]
    exact ⟨_, rfl⟩
  | some env =>
    simp only [Except.bind, bind, found, Value.set, Value.remove]
    refine ⟨(prevState.foldl release (env, [])).2, ?_⟩
    split
    case isTrue => rfl
    case isFalse => rfl

/-! ### The user's variables -/

def Apart (pairs : List (String × String)) (users : List (String × Value)) : Prop :=
  ∀ pair ∈ pairs, entryOf pair ∉ users

theorem Apart.remembered {prevState : List (String × String)} {users : List (String × Value)}
    (apart : Apart prevState users) {key old : String} (is : remembered prevState key = some old) :
    (key, Value.string old) ∉ users :=
  apart (key, old) (mem_of_remembered is)

theorem foldl_manage {prevState : List (String × String)}
    (holds : List (String × Value) → List (String × String) → Prop) (wanted : List (String × String))
    (taken : ∀ key want entries state, (key, want) ∈ wanted → holds entries state →
      (∀ cur, (Value.object entries).get key = some cur →
        cur = .string want ∨ ∃ old, remembered prevState key = some old ∧ cur = .string old) →
      holds (setEntry key (.string want) entries) (state ++ [(key, want)]))
    {entries : List (String × Value)} {state : List (String × String)} (warnings : List String)
    (before : holds entries state) :
    ∃ entriesAfter stateAfter warningsAfter,
      wanted.foldl (manage prevState) { env := .object entries, state, warnings }
        = { env := .object entriesAfter, state := stateAfter, warnings := warningsAfter } ∧
      holds entriesAfter stateAfter := by
  induction wanted generalizing entries state warnings with
  | nil => exact ⟨entries, state, warnings, rfl, before⟩
  | cons pair rest ih =>
    obtain ⟨key, want⟩ := pair
    have still := fun key want entries state among =>
      taken key want entries state (List.mem_cons_of_mem _ among)
    rw [List.foldl_cons]
    obtain ⟨after, step, takes⟩ | ⟨after, step, -⟩ :=
      manage_spec prevState entries state warnings key want
    · rw [step]
      exact ih still after (taken key want entries state List.mem_cons_self before takes)
    · rw [step]
      exact ih still after before

theorem users_managed {prevState wanted : List (String × String)} {users : List (String × Value)}
    (apart : Apart prevState users) (other : Apart wanted users) {entries : List (String × Value)}
    (kept : users.Sublist entries) (printable : Printable (.object entries)) :
    ∃ entriesAfter, (managed prevState wanted entries).env = .object entriesAfter ∧
      Printable (.object entriesAfter) ∧ users.Sublist entriesAfter ∧
      Apart (managed prevState wanted entries).state users := by
  obtain ⟨entriesAfter, stateAfter, warningsAfter, done, printableAfter, keptAfter, apartAfter⟩ :=
    @foldl_manage prevState
      (fun entries state => Printable (.object entries) ∧ users.Sublist entries ∧ Apart state users)
      wanted
      (fun key want entries state among ⟨printable, kept, before⟩ takes => by
        have own : (key, Value.string want) ∉ users := other (key, want) among
        refine ⟨printable_setEntry printable trivial, sublist_setEntry _ kept fun old found => ?_,
          fun pair among => ?_⟩
        · obtain rfl | ⟨ours, is, rfl⟩ := takes old found
          · exact own
          · exact apart.remembered is
        · obtain old | new := List.mem_append.mp among
          · exact before pair old
          · rw [List.mem_singleton.mp new]
            exact own)
      entries [] [] ⟨printable, kept, fun _ among => absurd among List.not_mem_nil⟩
  rw [managed, done]
  exact ⟨entriesAfter, rfl, printableAfter, keptAfter, apartAfter⟩

theorem users_released {prevState : List (String × String)} {users : List (String × Value)}
    (apart : Apart prevState users) {entries : List (String × Value)} (warnings : List String)
    (kept : users.Sublist entries) (printable : Printable (.object entries)) :
    ∃ entriesAfter warningsAfter, prevState.foldl release (.object entries, warnings)
      = (.object entriesAfter, warningsAfter) ∧ Printable (.object entriesAfter) ∧
      users.Sublist entriesAfter := by
  induction prevState generalizing entries warnings with
  | nil => exact ⟨entries, warnings, rfl, printable, kept⟩
  | cons pair rest ih =>
    obtain ⟨key, ours⟩ := pair
    have own : (key, Value.string ours) ∉ users := apart (key, ours) List.mem_cons_self
    have others : Apart rest users := fun pair among => apart pair (List.mem_cons_of_mem _ among)
    rw [List.foldl_cons]
    obtain ⟨found, step⟩ | ⟨-, after, step⟩ := release_spec entries warnings key ours
    · rw [step]
      refine ih others warnings (sublist_eraseKey kept fun old also => ?_)
        (printable_eraseEntry printable key)
      rw [← Option.some.inj (found.symm.trans also)]
      exact own
    · rw [step]
      exact ih others after kept printable

theorem foldl_release_other {env : Value} (other : ∀ key, env.get key = none)
    (prevState : List (String × String)) (warnings : List String) :
    prevState.foldl release (env, warnings) = (env, warnings) := by
  induction prevState with
  | nil => rfl
  | cons pair rest ih =>
    have step : release (env, warnings) pair = (env, warnings) := by
      rw [release]
      dsimp only
      rw [other pair.1]
    rw [List.foldl_cons, step, ih]

/-! ### Any event -/

/-- The user's variables are in the file, and none of them is recorded. -/
structure Kept (home : Home) : Prop where
  kept : home.users.Sublist (envEntries home.settings)
  apart : Apart (stateFromJson home.state) home.users

/-- The user sets no variable to the value that is wanted, nor to the one that is recorded. -/
def Distinct (home : Home) : Event → Prop
  | .on credentials => Apart credentials.wanted home.users
  | .off => True
  | .edit edited => Apart (stateFromJson home.state) edited.users

theorem envEntries_setEntry {root entries : List (String × Value)}
    (printable : Printable (.object root)) (also : Printable (.object entries)) :
    envEntries (toPretty (.object (setEntry "env" (.object entries) root))) = entries :=
  envEntries_of_parseRoot (parseRoot_toPretty (printable_setEntry printable also))
    (by rw [get_setEntry, if_pos rfl])

theorem printable_env {root entries : List (String × Value)} (printable : Printable (.object root))
    (found : (Value.object root).get "env" = some (.object entries)) : Printable (.object entries) :=
  printable_object.mp printable _ (Value.mem_of_get found)

theorem kept_on {home : Home} {credentials : Credentials} {plan : PlanResult} (before : Kept home)
    (other : Apart credentials.wanted home.users)
    (planned : planOn home.settings (stateFromJson home.state) credentials.endpoint credentials.token
      credentials.host = .ok plan) :
    Kept { home with
      settings := plan.settings.getD home.settings
      state := stateToJson plan.state } := by
  obtain ⟨root, entries, parsed, found⟩ := planOn_spec planned
  have printable : Printable (.object root) := by
    obtain ⟨_, same, printable⟩ := parseRoot_ok parsed
    exact printable
  have inside : home.users.Sublist entries ∧ Printable (.object entries) := by
    have kept := before.kept
    obtain found | ⟨missing, rfl⟩ := found
    · rw [envEntries_of_parseRoot parsed found] at kept
      exact ⟨kept, printable_env printable found⟩
    · rw [envEntries, parsed] at kept
      dsimp only at kept
      rw [missing] at kept
      exact ⟨kept, printable_object.mpr nofun⟩
  rw [planOn_ok parsed found] at planned
  cases planned
  obtain ⟨entriesAfter, env, printableAfter, kept, apart⟩ :=
    users_managed before.apart other inside.1 inside.2
  rw [written_getD]
  refine ⟨?_, ?_⟩
  · dsimp only
    rw [Credentials.wanted] at env
    rw [env, envEntries_setEntry printable printableAfter]
    exact kept
  · dsimp only
    rw [stateFromJson_stateToJson]
    exact apart

theorem stateFromJson_empty : stateFromJson "" = [] := by decide

theorem kept_off {home : Home} {plan : PlanResult} (before : Kept home)
    (planned : planOff home.settings (stateFromJson home.state) = .ok plan) :
    Kept { home with settings := plan.settings.getD home.settings, state := "" } := by
  refine ⟨?_, fun pair among => ?_⟩
  · cases parsed : parseRoot home.settings with
    | error refusal =>
      rw [planOff, parsed] at planned
      cases planned
    | ok parsedRoot =>
      obtain ⟨root, rfl, printable⟩ := parseRoot_ok parsed
      obtain ⟨warnings, is⟩ := planOff_ok parsed (stateFromJson home.state)
      cases is.symm.trans planned
      dsimp only
      rw [written_getD, withoutOurs]
      have kept := before.kept
      rw [envEntries, parsed] at kept
      dsimp only at kept
      cases found : (Value.object root).get "env" with
      | none =>
        rw [found] at kept
        rw [List.sublist_nil.mp kept]
        exact List.nil_sublist _
      | some env =>
        cases env with
        | object entries =>
          rw [found] at kept
          obtain ⟨entriesAfter, warningsAfter, done, printableAfter, keptAfter⟩ :=
            users_released before.apart [] kept (printable_env printable found)
          dsimp only
          rw [done]
          dsimp only
          split
          case isTrue empty =>
            have none_ : entriesAfter = [] := List.isEmpty_iff.mp empty
            rw [none_] at keptAfter
            rw [List.sublist_nil.mp keptAfter]
            exact List.nil_sublist _
          case isFalse =>
            rw [envEntries_setEntry printable printableAfter]
            exact keptAfter
        | _ =>
          rw [found] at kept
          rw [List.sublist_nil.mp kept]
          exact List.nil_sublist _
  · rw [stateFromJson_empty] at among
    exact absurd among List.not_mem_nil

/-- **An event keeps the user's variables**, if the user sets none to a wanted or recorded value. -/
theorem kept_next {home after : Home} {event : Event} (before : Kept home)
    (distinct : Distinct home event) (moved : next home event = some after) : Kept after := by
  cases event with
  | on credentials =>
    rw [next] at moved
    split at moved
    case h_1 plan planned =>
      cases moved
      exact kept_on before distinct planned
    case h_2 =>
      cases moved
      exact before
  | off =>
    rw [next] at moved
    split at moved
    case h_1 plan planned =>
      cases moved
      exact kept_off before planned
    case h_2 =>
      cases moved
      exact before
  | edit edited =>
    cases moved
    exact ⟨edited.among, distinct⟩

/-! ### Behind the user's own -/

def keysOf (entries : List (String × Value)) : List String := entries.map Prod.fst

theorem get_append_left {key : String} {own rest : List (String × Value)} (mine : key ∈ keysOf own) :
    ∃ item, (key, item) ∈ own ∧ (Value.object (own ++ rest)).get key = some item := by
  induction own with
  | nil => exact absurd mine List.not_mem_nil
  | cons first own ih =>
    rw [List.cons_append, Value.get_cons]
    by_cases same : first.1 = key
    · exact ⟨first.2, by rw [← same]; exact List.mem_cons_self, if_pos same⟩
    · obtain ⟨item, among, found⟩ := ih ((List.mem_cons.mp mine).resolve_left (Ne.symm same))
      exact ⟨item, List.mem_cons_of_mem _ among, (if_neg same).trans found⟩

theorem get_append_right {key : String} {own rest : List (String × Value)} (other : key ∉ keysOf own) :
    (Value.object (own ++ rest)).get key = (Value.object rest).get key := by
  induction own with
  | nil => rfl
  | cons first own ih =>
    rw [keysOf, List.map_cons, List.mem_cons, not_or] at other
    rw [List.cons_append, Value.get_cons, if_neg (Ne.symm other.1), ih other.2]

theorem get_of_mem {entries : List (String × Value)} (once : (keysOf entries).Nodup)
    {entry : String × Value} (among : entry ∈ entries) :
    (Value.object entries).get entry.1 = some entry.2 := by
  induction entries with
  | nil => exact absurd among List.not_mem_nil
  | cons first rest ih =>
    obtain ⟨fresh, unique⟩ := List.nodup_cons.mp once
    rw [Value.get_cons]
    obtain rfl | later := List.mem_cons.mp among
    · rw [if_pos rfl]
    · rw [if_neg fun same => fresh (by rw [same]; exact List.mem_map_of_mem later), ih unique later]

theorem mem_setEntry {key : String} {item : Value} {entries : List (String × Value)}
    (once : (keysOf entries).Nodup) {entry : String × Value}
    (among : entry ∈ setEntry key item entries) :
    entry ∈ entries ∧ entry.1 ≠ key ∨ entry = (key, item) := by
  induction entries with
  | nil => exact .inr (List.mem_singleton.mp among)
  | cons first rest ih =>
    obtain ⟨fresh, unique⟩ := List.nodup_cons.mp once
    rw [setEntry] at among
    split at among
    case isTrue same =>
      obtain new | old := List.mem_cons.mp among
      · rw [same] at new
        exact .inr new
      · refine .inl ⟨List.mem_cons_of_mem _ old, fun equal => fresh ?_⟩
        rw [same, ← equal]
        exact List.mem_map_of_mem old
    case isFalse other =>
      obtain rfl | later := List.mem_cons.mp among
      · exact .inl ⟨List.mem_cons_self, other⟩
      · exact (ih unique later).imp_left fun old => ⟨List.mem_cons_of_mem _ old.1, old.2⟩

theorem keysOf_setEntry (key : String) (item : Value) (entries : List (String × Value)) :
    keysOf (setEntry key item entries)
      = if key ∈ keysOf entries then keysOf entries else keysOf entries ++ [key] := by
  induction entries with
  | nil => rfl
  | cons first rest ih =>
    rw [setEntry]
    by_cases same : first.1 = key
    · rw [if_pos same, if_pos (by rw [← same]; exact List.mem_cons_self)]
      rfl
    · have cons : ∀ tail, keysOf (first :: tail) = first.1 :: keysOf tail := fun tail => rfl
      rw [if_neg same, cons, cons, ih]
      by_cases later : key ∈ keysOf rest
      · rw [if_pos later, if_pos (List.mem_cons_of_mem _ later)]
      · rw [if_neg later, if_neg fun among => (List.mem_cons.mp among).elim (Ne.symm same) later]
        rfl

theorem nodup_setEntry {key : String} {item : Value} {entries : List (String × Value)}
    (once : (keysOf entries).Nodup) : (keysOf (setEntry key item entries)).Nodup := by
  rw [keysOf_setEntry]
  split
  case isTrue => exact once
  case isFalse fresh =>
    refine List.nodup_append.mpr ⟨once, List.pairwise_singleton _ _, fun old among new last same => ?_⟩
    rw [same, List.mem_singleton.mp last] at among
    exact fresh among

theorem not_mem_keys_eraseEntry {key : String} {entries : List (String × Value)}
    (once : (keysOf entries).Nodup) : key ∉ keysOf (eraseEntry key entries) := by
  induction entries with
  | nil => exact List.not_mem_nil
  | cons first rest ih =>
    obtain ⟨fresh, unique⟩ := List.nodup_cons.mp once
    rw [eraseEntry]
    split
    case isTrue same => exact same ▸ fresh
    case isFalse other =>
      exact fun among => (List.mem_cons.mp among).elim (Ne.symm other) (ih unique)

/-- Variables behind the user's own: each key once, and none that the user has. -/
structure Behind (own news : List (String × Value)) : Prop where
  once : (keysOf news).Nodup
  foreign : ∀ entry ∈ news, entry.1 ∉ keysOf own

theorem Behind.setEntry {own news : List (String × Value)} (behind : Behind own news) {key : String}
    (item : Value) (other : key ∉ keysOf own) : Behind own (setEntry key item news) := by
  refine ⟨nodup_setEntry behind.once, fun entry among => ?_⟩
  obtain ⟨old, -⟩ | rfl := mem_setEntry behind.once among
  · exact behind.foreign entry old
  · exact other

theorem Behind.eraseEntry {own news : List (String × Value)} (behind : Behind own news)
    (key : String) : Behind own (eraseEntry key news) :=
  ⟨behind.once.sublist ((eraseEntry_sublist key news).map _),
    fun entry among => behind.foreign entry ((eraseEntry_sublist key news).subset among)⟩

def managedNames : List String := (managedKeys "" "" none).map Prod.fst

theorem names_managedKeys (endpoint token : String) (host : Option String) :
    (managedKeys endpoint token host).map Prod.fst = managedNames := rfl

theorem nodup_managedNames : managedNames.Nodup := by decide

/-- While a plan goes through its keys: a variable behind the user's own is recorded already, or it is
still to come and is as it was recorded. -/
structure Managing (own : List (String × Value)) (prevState rest : List (String × String))
    (news : List (String × Value)) (state : List (String × String)) : Prop where
  behind : Behind own news
  named : ∀ entry ∈ news, entry.1 ∈ managedNames
  known : ∀ entry ∈ news, (∃ value, entry = entryOf value ∧ value ∈ state) ∨
    entry.1 ∈ rest.map Prod.fst ∧ ∃ old, remembered prevState entry.1 = some old ∧ entry.2 = .string old
  apart : ∀ pair ∈ state, pair.1 ∉ keysOf own ∧ pair.1 ∉ rest.map Prod.fst
  once : (state.map Prod.fst).Nodup

/-- **A plan of `on` touches only what is behind the user's own.** -/
theorem managing_foldl {own : List (String × Value)} {prevState wanted : List (String × String)}
    (apart : Apart prevState own) (other : Apart wanted own) (distinct : (wanted.map Prod.fst).Nodup)
    (names : ∀ key ∈ wanted.map Prod.fst, key ∈ managedNames)
    {news : List (String × Value)} {state : List (String × String)} (warnings : List String)
    (before : Managing own prevState wanted news state) :
    ∃ newsAfter stateAfter warningsAfter,
      wanted.foldl (manage prevState) { env := .object (own ++ news), state, warnings }
        = { env := .object (own ++ newsAfter), state := stateAfter, warnings := warningsAfter } ∧
      Managing own prevState [] newsAfter stateAfter := by
  induction wanted generalizing news state warnings with
  | nil => exact ⟨news, state, warnings, rfl, before⟩
  | cons pair rest ih =>
    obtain ⟨key, want⟩ := pair
    obtain ⟨fresh, unique⟩ := List.nodup_cons.mp distinct
    have others : Apart rest own := fun pair among => other pair (List.mem_cons_of_mem _ among)
    have named := fun other among => names other (List.mem_cons_of_mem key among)
    have spec := manage_spec prevState (own ++ news) state warnings key want
    rw [List.foldl_cons]
    by_cases mine : key ∈ keysOf own
    · -- The user has the key, with a value that is neither wanted nor recorded.
      obtain ⟨item, among, found⟩ := @get_append_left _ _ news mine
      obtain ⟨after, -, takes⟩ | ⟨after, step, -⟩ := spec
      · obtain rfl | ⟨old, is, rfl⟩ := takes item found
        · exact absurd among (other (key, want) List.mem_cons_self)
        · exact absurd among (apart.remembered is)
      · rw [step]
        refine ih others unique named after ⟨before.behind, before.named, fun entry inside => ?_,
          fun pair inside => ?_, before.once⟩
        · refine (before.known entry inside).imp_right fun ⟨later, ours⟩ => ⟨?_, ours⟩
          refine (List.mem_cons.mp later).resolve_left fun same => ?_
          exact before.behind.foreign entry inside (by rw [same]; exact mine)
        · obtain ⟨away, todo⟩ := before.apart pair inside
          exact ⟨away, fun later => todo (List.mem_cons_of_mem _ later)⟩
    · -- The key is missing, or behind the user's own with the recorded value.
      have found := @get_append_right _ _ news mine
      obtain ⟨after, step, -⟩ | ⟨-, -, cur, is, -, unlike⟩ := spec
      · rw [step, setEntry_append mine]
        refine ih others unique named after ⟨before.behind.setEntry _ mine, fun entry inside => ?_,
          fun entry inside => ?_, fun pair inside => ?_, ?_⟩
        · obtain ⟨old, -⟩ | rfl := mem_setEntry before.behind.once inside
          · exact before.named entry old
          · exact names key List.mem_cons_self
        · obtain ⟨old, elsewhere⟩ | rfl := mem_setEntry before.behind.once inside
          · obtain ⟨value, same, among⟩ | ⟨later, ours⟩ := before.known entry old
            · exact .inl ⟨value, same, List.mem_append_left _ among⟩
            · exact .inr ⟨(List.mem_cons.mp later).resolve_left elsewhere, ours⟩
          · exact .inl ⟨(key, want), rfl, List.mem_append_right _ (List.mem_singleton_self _)⟩
        · obtain old | new := List.mem_append.mp inside
          · obtain ⟨away, todo⟩ := before.apart pair old
            exact ⟨away, fun later => todo (List.mem_cons_of_mem _ later)⟩
          · rw [List.mem_singleton.mp new]
            exact ⟨mine, fresh⟩
        · rw [List.map_append]
          refine List.nodup_append.mpr ⟨before.once, List.pairwise_singleton _ _,
            fun old among new last same => ?_⟩
          obtain ⟨pair, inside, rfl⟩ := List.mem_map.mp among
          refine (before.apart pair inside).2 ?_
          rw [same, List.mem_singleton.mp last]
          exact List.mem_cons_self
      · have among := Value.mem_of_get (found.symm.trans is)
        obtain ⟨value, same, inside⟩ | ⟨-, old, ours, text⟩ := before.known (key, cur) among
        · have equal : key = value.1 := congrArg Prod.fst same
          refine absurd ?_ (before.apart value inside).2
          rw [← equal]
          exact List.mem_cons_self
        · exact absurd text (unlike old ours)

theorem remembered_of_mem {state : List (String × String)} (once : (state.map Prod.fst).Nodup)
    {pair : String × String} (among : pair ∈ state) : remembered state pair.1 = some pair.2 := by
  rw [remembered]
  cases first : state.find? fun ours => ours.1 == pair.1 with
  | none =>
    have missed := List.find?_eq_none.mp first pair among
    simp at missed
  | some ours =>
    have same : ours.1 = pair.1 := by simpa using List.find?_some first
    have one := List.inj_on_of_nodup_map once (List.mem_of_find?_eq_some first) among same
    rw [one]
    rfl

structure Restorable (own : List (String × Value)) (record : List (String × String))
    (news : List (String × Value)) : Prop where
  behind : Behind own news
  recorded : ∀ entry ∈ news, ∃ old, remembered record entry.1 = some old ∧ entry.2 = .string old
  named : ∀ entry ∈ news, entry.1 ∈ managedNames
  apart : Apart record own

theorem restorable_managed {own news : List (String × Value)} {record : List (String × String)}
    (before : Restorable own record news) {credentials : Credentials}
    (other : Apart credentials.wanted own) :
    ∃ newsAfter, (managed record credentials.wanted (own ++ news)).env = .object (own ++ newsAfter) ∧
      Restorable own (managed record credentials.wanted (own ++ news)).state newsAfter := by
  have names : credentials.wanted.map Prod.fst = managedNames := names_managedKeys _ _ _
  obtain ⟨newsAfter, stateAfter, warningsAfter, done, after⟩ :=
    managing_foldl before.apart other (names ▸ nodup_managedNames) (fun key => names ▸ id) []
      { behind := before.behind
        named := before.named
        known := fun entry among =>
          .inr ⟨names ▸ before.named entry among, before.recorded entry among⟩
        apart := fun pair among => absurd among List.not_mem_nil
        once := List.nodup_nil }
  rw [managed, done]
  refine ⟨newsAfter, rfl, after.behind, fun entry among => ?_, after.named, fun pair among inside => ?_⟩
  · obtain ⟨value, rfl, inside⟩ | ⟨later, -⟩ := after.known entry among
    · exact ⟨value.2, remembered_of_mem after.once inside, rfl⟩
    · exact absurd later List.not_mem_nil
  · exact (after.apart pair among).1 (List.mem_map_of_mem inside)

/-- **A plan of `off` removes all that is behind the user's own.** -/
theorem restorable_released {own : List (String × Value)} (rest : List (String × String))
    (apart : Apart rest own) {news : List (String × Value)} (behind : Behind own news)
    (recorded : ∀ entry ∈ news, ∃ pair ∈ rest, entry = entryOf pair) (warnings : List String) :
    (rest.foldl release (.object (own ++ news), warnings)).1 = .object own := by
  induction rest generalizing news warnings with
  | nil =>
    have none_ : news = [] := List.eq_nil_iff_forall_not_mem.mpr fun entry among => by
      obtain ⟨pair, inside, -⟩ := recorded entry among
      exact List.not_mem_nil inside
    rw [none_, List.append_nil]
    rfl
  | cons pair rest ih =>
    obtain ⟨key, ours⟩ := pair
    have others : Apart rest own := fun pair among => apart pair (List.mem_cons_of_mem _ among)
    rw [List.foldl_cons]
    obtain ⟨found, step⟩ | ⟨unlike, after, step⟩ := release_spec (own ++ news) warnings key ours
    · have mine : key ∉ keysOf own := fun mine => by
        obtain ⟨item, among, is⟩ := @get_append_left _ _ news mine
        refine apart (key, ours) List.mem_cons_self ?_
        rwa [Option.some.inj (is.symm.trans found)] at among
      rw [step, eraseEntry_append mine]
      refine ih others (behind.eraseEntry key) (fun entry among => ?_) warnings
      have old := (eraseEntry_sublist key news).subset among
      obtain ⟨pair, inside, same⟩ := recorded entry old
      refine ⟨pair, (List.mem_cons.mp inside).resolve_left fun equal => ?_, same⟩
      refine not_mem_keys_eraseEntry behind.once (?_ : key ∈ keysOf (eraseEntry key news))
      have first : entry.1 = key := by rw [same, equal]; rfl
      rw [← first] at among ⊢
      exact List.mem_map_of_mem among
    · rw [step]
      refine ih others behind (fun entry among => ?_) after
      obtain ⟨pair, inside, same⟩ := recorded entry among
      refine ⟨pair, (List.mem_cons.mp inside).resolve_left fun equal => unlike ?_, same⟩
      have is : entry = (key, .string ours) := by rw [same, equal]; rfl
      have found := get_of_mem behind.once among
      rw [is] at among found
      rw [get_append_right (behind.foreign _ among), found]

/-! ### Runs without an edit -/

/-- What `off` leaves of a document whose `env` was the user's own, or missing. -/
def finalRoot (own root : List (String × Value)) : List (String × Value) :=
  if own = [] then eraseEntry "env" (setEntry "env" (.object []) root)
  else setEntry "env" (.object own) root

/-- The user's own members, in a document that has an object for `env` or none. -/
def Owns (own root : List (String × Value)) : Prop :=
  (Value.object root).get "env" = some (.object own) ∨
    (Value.object root).get "env" = none ∧ own = []

structure Before (own root : List (String × Value)) (home : Home) : Prop where
  users : home.users = own
  restorable : ∃ news, Restorable own (stateFromJson home.state) news ∧
    (parseRoot home.settings = .ok (.object root) ∧ news = [] ∨
      parseRoot home.settings = .ok (.object (setEntry "env" (.object (own ++ news)) root)))

theorem printable_empty : Printable (.object []) :=
  printable_object.mpr fun _ among => absurd among List.not_mem_nil

theorem Owns.printable {own root : List (String × Value)} (owns : Owns own root)
    (printable : Printable (.object root)) : Printable (.object own) := by
  obtain found | ⟨-, rfl⟩ := owns
  · exact printable_env printable found
  · exact printable_object.mpr nofun

theorem Restorable.printable {own news : List (String × Value)} {record : List (String × String)}
    (restorable : Restorable own record news) (printable : Printable (.object own)) :
    Printable (.object (own ++ news)) := by
  rw [printable_object] at printable ⊢
  intro entry among
  obtain mine | behind := List.mem_append.mp among
  · exact printable entry mine
  · obtain ⟨old, -, text⟩ := restorable.recorded entry behind
    rw [text]
    trivial

theorem Before.current {own root : List (String × Value)} {home : Home} (owns : Owns own root)
    (before : Before own root home) : ∃ news current,
      Restorable own (stateFromJson home.state) news ∧
      parseRoot home.settings = .ok (.object current) ∧ Owns (own ++ news) current ∧
      ∀ env, setEntry "env" env current = setEntry "env" env root := by
  obtain ⟨news, restorable, shape⟩ := before.restorable
  obtain ⟨parsed, rfl⟩ | parsed := shape
  · refine ⟨[], root, restorable, parsed, ?_, fun env => rfl⟩
    rwa [List.append_nil]
  · exact ⟨news, _, restorable, parsed, .inl (by rw [get_setEntry, if_pos rfl]),
      fun env => setEntry_setEntry ..⟩

theorem before_on {own root : List (String × Value)} (owns : Owns own root)
    (printable : Printable (.object root)) {home after : Home} (before : Before own root home)
    {credentials : Credentials} (other : Apart credentials.wanted own)
    (moved : next home (.on credentials) = some after) : Before own root after := by
  obtain ⟨news, current, restorable, parsed, found, again⟩ := before.current owns
  obtain ⟨newsAfter, env, restorableAfter⟩ := restorable_managed restorable other
  rw [Credentials.wanted] at env restorableAfter
  rw [next, planOn_ok parsed found] at moved
  dsimp only at moved
  cases moved
  refine ⟨before.users, newsAfter, ?_, .inr ?_⟩
  · dsimp only
    rwa [stateFromJson_stateToJson]
  · dsimp only
    rw [written_getD, env, again]
    exact parseRoot_toPretty
      (printable_setEntry printable (restorableAfter.printable (owns.printable printable)))

theorem env_missing {root : List (String × Value)} (missing : (Value.object root).get "env" = none) :
    "env" ∉ keysOf root := fun among => by
  obtain ⟨item, -, found⟩ := @get_append_left _ _ [] among
  rw [List.append_nil, missing] at found
  cases found

theorem eraseEntry_setEntry {root : List (String × Value)} (env : Value)
    (missing : (Value.object root).get "env" = none) :
    eraseEntry "env" (setEntry "env" env root) = root := by
  rw [setEntry_missing (env_missing missing), eraseEntry_append (env_missing missing), eraseEntry,
    if_pos rfl, List.append_nil]

theorem withoutOurs_eq {own news root current : List (String × Value)}
    {record : List (String × String)} (restorable : Restorable own record news)
    (found : Owns (own ++ news) current)
    (again : ∀ env, setEntry "env" env current = setEntry "env" env root) :
    withoutOurs record current = .object (finalRoot own root) := by
  have recorded : ∀ entry ∈ news, ∃ pair ∈ record, entry = entryOf pair := fun entry among => by
    obtain ⟨old, is, text⟩ := restorable.recorded entry among
    exact ⟨(entry.1, old), mem_of_remembered is, by rw [entryOf, ← text]⟩
  rw [withoutOurs]
  obtain found | ⟨missing, empty⟩ := found
  · have released := restorable_released record restorable.apart restorable.behind recorded []
    rw [found]
    dsimp only
    rw [released, again, finalRoot]
    cases own with
    | nil => rfl
    | cons first rest => rfl
  · obtain ⟨rfl, -⟩ := List.append_eq_nil_iff.mp empty
    rw [missing, finalRoot, if_pos rfl, ← again, eraseEntry_setEntry _ missing]

theorem parse_off {own root : List (String × Value)} (owns : Owns own root)
    (printable : Printable (.object root)) {home after : Home} (before : Before own root home)
    (moved : next home .off = some after) :
    parseRoot after.settings = .ok (.object (finalRoot own root)) := by
  obtain ⟨news, current, restorable, parsed, found, again⟩ := before.current owns
  obtain ⟨warnings, planned⟩ := planOff_ok parsed (stateFromJson home.state)
  rw [next, planned] at moved
  dsimp only at moved
  cases moved
  dsimp only
  rw [written_getD, withoutOurs_eq restorable found again]
  refine parseRoot_toPretty ?_
  have object : Printable (.object (setEntry "env" (.object own) root)) :=
    printable_setEntry printable (owns.printable printable)
  rw [finalRoot]
  split
  case isTrue => exact printable_eraseEntry (printable_setEntry printable printable_empty) _
  case isFalse => exact object

theorem length_eraseEntry {key : String} {entries : List (String × Value)}
    (among : key ∈ keysOf entries) : (eraseEntry key entries).length + 1 = entries.length := by
  induction entries with
  | nil => exact absurd among List.not_mem_nil
  | cons first rest ih =>
    rw [eraseEntry]
    split
    case isTrue => rfl
    case isFalse other =>
      rw [List.length_cons, List.length_cons, ih ((List.mem_cons.mp among).resolve_left (Ne.symm other))]

/-- **The document is the first one again, unless its `env` was empty.** -/
theorem finalRoot_eq_iff {own root : List (String × Value)} (owns : Owns own root) :
    finalRoot own root = root ↔ (Value.object root).get "env" ≠ some (.object []) := by
  rw [finalRoot]
  obtain found | ⟨missing, rfl⟩ := owns
  · by_cases empty : own = []
    · rw [if_pos empty, found, empty]
      rw [empty] at found
      refine ⟨fun same => ?_, fun other => absurd rfl other⟩
      rw [setEntry_same found] at same
      have shorter := length_eraseEntry (Value.key_of_get found)
      rw [same] at shorter
      exact absurd shorter (Nat.succ_ne_self _)
    · rw [if_neg empty, setEntry_same found, found]
      exact ⟨fun _ same => empty (Value.object.inj (Option.some.inj same)), fun _ => rfl⟩
  · rw [if_pos rfl, eraseEntry_setEntry _ missing, missing]
    exact ⟨fun _ => nofun, fun _ => rfl⟩

theorem run_on (holds : Home → Prop) {ons : List Credentials}
    (kept : ∀ credentials ∈ ons, ∀ home after, holds home →
      next home (.on credentials) = some after → holds after)
    {home after : Home} (before : holds home)
    (ends : run next home (ons.map Event.on ++ [.off]) = some after) :
    ∃ last, holds last ∧ next last .off = some after := by
  induction ons generalizing home with
  | nil =>
    rw [List.map_nil, List.nil_append, Toard.Library.run_cons, Option.bind_eq_some_iff] at ends
    obtain ⟨middle, moved, rest⟩ := ends
    cases rest
    exact ⟨home, before, moved⟩
  | cons credentials ons ih =>
    rw [List.map_cons, List.cons_append, Toard.Library.run_cons, Option.bind_eq_some_iff] at ends
    obtain ⟨middle, moved, rest⟩ := ends
    exact ih (fun other among => kept other (List.mem_cons_of_mem _ among))
      (kept credentials List.mem_cons_self home middle before moved) rest

theorem parse_other {root : List (String × Value)} {env : Value} (printable : Printable (.object root))
    (found : (Value.object root).get "env" = some env) (other : ∀ entries, env ≠ .object entries)
    {ons : List Credentials} {home after : Home} (parsed : parseRoot home.settings = .ok (.object root))
    (ends : run next home (ons.map Event.on ++ [.off]) = some after) :
    parseRoot after.settings = .ok (.object root) := by
  obtain ⟨last, still, moved⟩ := run_on
    (fun home => parseRoot home.settings = .ok (.object root))
    (fun credentials _ home after still moved => by
      rw [next] at moved
      split at moved
      case h_1 plan planned =>
        obtain ⟨root', entries, parsed', found'⟩ := planOn_spec planned
        cases still.symm.trans parsed'
        obtain found' | ⟨missing, -⟩ := found'
        · exact absurd (Option.some.inj (found.symm.trans found')) (other entries)
        · exact nomatch missing.symm.trans found
      case h_2 =>
        cases moved
        exact still) parsed ends
  obtain ⟨warnings, planned⟩ := planOff_ok still (stateFromJson last.state)
  have free : ∀ key, env.get key = none := fun key => by
    cases env with
    | object entries => exact absurd rfl (other entries)
    | _ => rfl
  have solid : env.isEmptyObject = false := by
    cases env with
    | object entries => exact absurd rfl (other entries)
    | _ => rfl
  have same : withoutOurs (stateFromJson last.state) root = .object root := by
    rw [withoutOurs, found]
    dsimp only
    rw [foldl_release_other free, solid, setEntry_same found, if_neg Bool.false_ne_true]
  rw [next, planned] at moved
  dsimp only at moved
  cases moved
  dsimp only
  rw [written_getD, same]
  exact parseRoot_toPretty printable

/-! ### Every run -/

theorem kept_start {edited : Edit} {state : String}
    (apart : Apart (stateFromJson state) edited.users) : Kept (start edited state) where
  kept := edited.among
  apart := apart

/-- **What the user set is kept, and is all that is left.** Let the user set no variable to the value
that a run wants, nor to the one that is recorded. Then in every state reached by runs of `on` and `off`
and edits, what the user set last is in the file. And without an edit, runs of `on` and a last `off`
leave the document that was there before them, unless its `env` was an empty object. -/
theorem users_kept (edited : Edit) (state : String)
    (apart : Apart (stateFromJson state) edited.users) :
    (∀ home, ReachableBy next Distinct (start edited state) home →
      home.users.Sublist (envEntries home.settings)) ∧
    ∀ root, parseRoot edited.settings = .ok (.object root) →
      edited.users = envEntries edited.settings →
      ∀ ons : List Credentials, (∀ credentials ∈ ons, Apart credentials.wanted edited.users) →
      ∀ home, run next (start edited state) (ons.map Event.on ++ [.off]) = some home →
        (parseRoot home.settings = .ok (.object root) ↔
          (Value.object root).get "env" ≠ some (.object [])) := by
  refine ⟨fun home reached => ?_, fun root parsed all ons others home ends => ?_⟩
  · have kept : Kept home := reached.invariant Kept (kept_start apart)
      fun before event after holds distinct moved => kept_next holds distinct moved
    exact kept.kept
  · have printable : Printable (.object root) := by
      obtain ⟨_, same, printable⟩ := parseRoot_ok parsed
      exact printable
    by_cases object : ∃ own, Owns own root
    · obtain ⟨own, owns⟩ := object
      have own_ : edited.users = own := by
        rw [all]
        obtain found | ⟨missing, rfl⟩ := owns
        · exact envEntries_of_parseRoot parsed found
        · rw [envEntries, parsed]
          dsimp only
          rw [missing]
      have first : Before own root (start edited state) :=
        { users := own_
          restorable := ⟨[],
            { behind := ⟨List.nodup_nil, fun _ among => absurd among List.not_mem_nil⟩
              recorded := fun _ among => absurd among List.not_mem_nil
              named := fun _ among => absurd among List.not_mem_nil
              apart := own_ ▸ apart }, .inl ⟨parsed, rfl⟩⟩ }
      obtain ⟨last, before, moved⟩ := run_on (Before own root)
        (fun credentials among home after before moved =>
          before_on owns printable before (own_ ▸ others credentials among) moved) first ends
      rw [parse_off owns printable before moved, ← finalRoot_eq_iff owns]
      exact ⟨fun same => Value.object.inj (Except.ok.inj same), fun same => by rw [same]⟩
    · cases found : (Value.object root).get "env" with
      | none => exact absurd ⟨[], .inr ⟨found, rfl⟩⟩ object
      | some env =>
        have other : ∀ entries, env ≠ .object entries := fun entries same =>
          object ⟨entries, .inl (same ▸ found)⟩
        refine ⟨fun _ same => other [] (Option.some.inj same), fun _ => ?_⟩
        exact parse_other printable found other parsed ends

def oneVariable (key text : String) : List (String × Value) := [("env", .object [(key, .string text)])]

theorem parseRoot_oneVariable (key text : String) :
    parseRoot (toPretty (.object (oneVariable key text))) = .ok (.object (oneVariable key text)) := by
  refine parseRoot_toPretty (printable_object.mpr fun entry among => ?_)
  rw [List.mem_singleton.mp among]
  refine printable_object.mpr fun entry among => ?_
  rw [List.mem_singleton.mp among]
  trivial

theorem envEntries_oneVariable (key text : String) :
    envEntries (toPretty (.object (oneVariable key text))) = [(key, .string text)] :=
  envEntries_of_parseRoot (parseRoot_oneVariable key text) (by
    rw [oneVariable, Value.get_cons, if_pos rfl])

def usersOwn (key text : String) : Edit where
  settings := toPretty (.object (oneVariable key text))
  users := [(key, .string text)]
  among := by rw [envEntries_oneVariable]

def fixture : Credentials := { endpoint := "https://fixture.example/api", token := "tk", host := none }

theorem apart_of_not_managed {key : String} (other : key ∉ managedNames) (text : String)
    (credentials : Credentials) : Apart credentials.wanted (usersOwn key text).users := by
  intro pair among inside
  have same : pair.1 = key := congrArg Prod.fst (List.mem_singleton.mp inside)
  refine other ?_
  rw [← names_managedKeys credentials.endpoint credentials.token credentials.host, ← same]
  exact List.mem_map_of_mem among

theorem exists_next (home : Home) (event : Event) : ∃ after, next home event = some after := by
  cases event with
  | on credentials =>
    rw [next]
    split
    · exact ⟨_, rfl⟩
    · exact ⟨_, rfl⟩
  | off =>
    rw [next]
    split
    · exact ⟨_, rfl⟩
    · exact ⟨_, rfl⟩
  | edit edited => exact ⟨_, rfl⟩

theorem users_kept_myVar :
    (∀ home, ReachableBy next Distinct (start (usersOwn "MY_VAR" "x") "") home →
      home.users.Sublist (envEntries home.settings)) ∧
    ∃ home, run next (start (usersOwn "MY_VAR" "x") "") [.on fixture, .off] = some home ∧
      parseRoot home.settings = .ok (.object (oneVariable "MY_VAR" "x")) := by
  have apart : Apart (stateFromJson "") (usersOwn "MY_VAR" "x").users := by
    rw [stateFromJson_empty]
    exact fun _ among => absurd among List.not_mem_nil
  obtain ⟨kept, restored⟩ := users_kept (usersOwn "MY_VAR" "x") "" apart
  obtain ⟨middle, first⟩ := exists_next (start (usersOwn "MY_VAR" "x") "") (.on fixture)
  obtain ⟨home, second⟩ := exists_next middle .off
  have ends : run next (start (usersOwn "MY_VAR" "x") "") [.on fixture, .off] = some home := by
    rw [Toard.Library.run_cons, first, Option.bind_some, Toard.Library.run_cons, second]
    rfl
  refine ⟨kept, home, ends, (restored _ (parseRoot_oneVariable "MY_VAR" "x")
    (envEntries_oneVariable "MY_VAR" "x").symm [fixture] (fun credentials _ =>
      apart_of_not_managed (by decide) "x" credentials) home ends).mpr ?_⟩
  rw [oneVariable, Value.get_cons, if_pos rfl]
  exact fun same => nomatch Value.object.inj (Option.some.inj same)

/-- The value that the user set is the one that is wanted: `on` records it, and `off` removes it. -/
theorem managed_fixture : ∃ entries warnings,
    managed [] fixture.wanted [("OTEL_LOGS_EXPORTER", .string "otlp")]
      = { env := .object entries, state := fixture.wanted, warnings } ∧
    Printable (.object entries) ∧
    (fixture.wanted.foldl release (.object entries, [])).1 = .object [] := by
  refine ⟨_, _, rfl, ?_, rfl⟩
  iterate 6 refine printable_setEntry ?_ trivial
  refine printable_object.mpr fun entry among => ?_
  rw [List.mem_singleton.mp among]
  trivial

/-- The home of `fixture` after `on`. -/
def recordedHome (entries : List (String × Value)) : Home where
  settings := toPretty (.object [("env", .object entries)])
  state := stateToJson fixture.wanted
  users := [("OTEL_LOGS_EXPORTER", .string "otlp")]

theorem next_on_fixture {entries : List (String × Value)} {warnings : List String}
    (done : managed [] fixture.wanted [("OTEL_LOGS_EXPORTER", .string "otlp")]
      = { env := .object entries, state := fixture.wanted, warnings }) :
    next (start (usersOwn "OTEL_LOGS_EXPORTER" "otlp") "") (.on fixture)
      = some (recordedHome entries) := by
  have parsed := parseRoot_oneVariable "OTEL_LOGS_EXPORTER" "otlp"
  have found : Owns [("OTEL_LOGS_EXPORTER", .string "otlp")]
      (oneVariable "OTEL_LOGS_EXPORTER" "otlp") :=
    .inl (by rw [oneVariable, Value.get_cons, if_pos rfl])
  have current : setEntry "env" (.object entries) (oneVariable "OTEL_LOGS_EXPORTER" "otlp")
      = [("env", .object entries)] := by
    rw [oneVariable, setEntry, if_pos rfl]
  have planned := @planOn_ok _ fixture.endpoint fixture.token fixture.host _ parsed _ found []
  rw [← Credentials.wanted, done, current] at planned
  rw [next, start, stateFromJson_empty, usersOwn]
  dsimp only
  rw [planned]
  dsimp only
  rw [written_getD, recordedHome]

theorem users_off_fixture {entries : List (String × Value)} (printable : Printable (.object entries))
    (removed : (fixture.wanted.foldl release (.object entries, [])).1 = .object []) :
    ∃ after, next (recordedHome entries) .off = some after ∧
      after.users = [("OTEL_LOGS_EXPORTER", .string "otlp")] ∧ envEntries after.settings = [] := by
  have parsed : parseRoot (toPretty (.object [("env", .object entries)]))
      = .ok (.object [("env", .object entries)]) :=
    parseRoot_toPretty (printable_object.mpr fun entry among => by
      rw [List.mem_singleton.mp among]
      exact printable)
  have left : withoutOurs fixture.wanted [("env", .object entries)] = .object [] := by
    rw [withoutOurs, Value.get_cons, if_pos rfl]
    dsimp only
    rw [removed, setEntry, if_pos rfl, eraseEntry, if_pos rfl]
    rfl
  obtain ⟨notes, planned⟩ := planOff_ok parsed fixture.wanted
  rw [left] at planned
  rw [next, recordedHome]
  dsimp only
  rw [stateFromJson_stateToJson, planned]
  refine ⟨_, rfl, rfl, ?_⟩
  dsimp only
  rw [written_getD, envEntries, parseRoot_toPretty printable_empty]
  dsimp only
  rw [Value.get_nil]

theorem not_users_kept : ¬ ∀ (edited : Edit) (home : Home), Reachable next (start edited "") home →
    home.users.Sublist (envEntries home.settings) := by
  intro always
  obtain ⟨entries, warnings, done, printable, removed⟩ := managed_fixture
  obtain ⟨after, off, users, empty⟩ := users_off_fixture printable removed
  have first : Reachable next (start (usersOwn "OTEL_LOGS_EXPORTER" "otlp") "")
      (recordedHome entries) := .step (.on fixture) .start trivial (next_on_fixture done)
  have reached : Reachable next (start (usersOwn "OTEL_LOGS_EXPORTER" "otlp") "") after :=
    .step .off first trivial off
  have kept := always _ after reached
  rw [users, empty] at kept
  cases kept

end Toard.Shim.ClaudeEnv
