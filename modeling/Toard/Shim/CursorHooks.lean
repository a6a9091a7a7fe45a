/-
**The hook in Cursor's settings (`cursor_hook.rs`).**

`hooks.json` is the user's file. The shim adds one entry to `hooks.stop`, and knows an entry as its own
by a text inside the command. The file is read and printed by `serde_json`, which keeps an object as a
map by its keys.

* **`user_content_kept`**: every merge leaves the user's content, if no entry of the user's names the
  capture command and `stop` is not empty.
-/

import Mathlib.Data.List.Infix
import Toard.Shim.ClaudeEnvRuns

namespace Toard.Shim.CursorHooks

open Toard.Json (Value setEntry eraseEntry get_setEntry)
open Toard.Shim.ClaudeEnv (keysOf)

def CAPTURE_COMMAND : String := "cursor-hook capture-toard-v1"

/-! ### `serde_json` -/

/-- A value as `serde_json` holds it: the members of an object are in the order of their keys. -/
inductive Held (plain : String → Prop) : Value → Prop
  | null : Held plain .null
  | bool (flag : Bool) : Held plain (.bool flag)
  | number {token : String} (printed : plain token) : Held plain (.number token)
  | string (text : String) : Held plain (.string text)
  | array {items : List Value} (each : ∀ item ∈ items, Held plain item) : Held plain (.array items)
  | object {members : List (String × Value)} (sorted : (keysOf members).Pairwise (· < ·))
      (each : ∀ member ∈ members, Held plain member.2) : Held plain (.object members)

/-- What the merges use of `serde_json`. -/
structure SerdeJson where
  plain : String → Prop
  fromStr : String → Option Value
  toStringPretty : Value → String
  plain_one : plain "1"
  held : ∀ {text value}, fromStr text = some value → Held plain value
  visible : ∀ {members}, Held plain (.object members) →
    (toStringPretty (.object members) ++ "\n").toList.all isWhiteSpace = false
  reads : ∀ {value}, Held plain value → fromStr (toStringPretty value ++ "\n") = some value
  prints : ∀ {value}, Held plain value → Json.parse (toStringPretty value ++ "\n") = some value

/-- `BTreeMap::insert` under a new key -/
def insertMember (key : String) (item : Value) : List (String × Value) → List (String × Value)
  | [] => [(key, item)]
  | member :: rest =>
    if key < member.1 then (key, item) :: member :: rest
    else member :: insertMember key item rest

/-- `entry(key).or_insert(item)` -/
def orInsert (key : String) (item : Value) (members : List (String × Value)) :
    List (String × Value) :=
  if key ∈ keysOf members then members else insertMember key item members

/-! ### The merges -/

inductive Refusal
  | unquotable
  | unparsable
  | rootNotObject
  | hooksNotObject
  | stopNotArray
deriving DecidableEq

def apostrophe : Char := Char.ofNat 39

def quoteCommand (raw : String) (windows : Bool) : Except Refusal String :=
  if raw.toList.any (fun c => c = '\n' ∨ c = '\r' ∨ c = Char.ofNat 0) || windows && raw.toList.contains '"' then
    .error .unquotable
  else
    let quoted := if windows then ['"'] ++ raw.toList ++ ['"']
      else [apostrophe] ++ raw.toList.flatMap (fun c =>
        if c = apostrophe then [apostrophe, '"', apostrophe, '"', apostrophe] else [c]) ++ [apostrophe]
    .ok (String.ofList (quoted ++ ' ' :: CAPTURE_COMMAND.toList))

def isManagedEntry (value : Value) : Bool :=
  ((value.get "command").bind Value.asStr).any fun command =>
    CAPTURE_COMMAND.toList <:+: command.toList

def entryOf (command : String) : Value := .object [("command", .string command)]

/-- `stop.retain` -/
def retained (stop : List Value) : List Value := stop.filter fun entry => !isManagedEntry entry

/-- The members of the document that `merge_install` leaves. -/
def withEntry (command : String) (root : List (String × Value)) :
    Except Refusal (List (String × Value)) :=
  let object := orInsert "hooks" (.object []) (orInsert "version" (.number "1") root)
  match (Value.object object).get "hooks" with
  | some (.object hooks) =>
    let hooks := orInsert "stop" (.array []) hooks
    match (Value.object hooks).get "stop" with
    | some (.array stop) =>
      let stop := retained stop ++ [entryOf command]
      .ok (setEntry "hooks" (.object (setEntry "stop" (.array stop) hooks)) object)
    | _ => .error .stopNotArray
  | _ => .error .hooksNotObject

/-- The members that `merge_uninstall` leaves, and whether it took an entry out. -/
def withoutEntry (root : List (String × Value)) : List (String × Value) × Bool :=
  match (Value.object root).get "hooks" with
  | some (.object hooks) =>
    match (Value.object hooks).get "stop" with
    | some (.array stop) =>
      let changed := (retained stop).length ≠ stop.length
      let hooks := if changed ∧ (retained stop).isEmpty then eraseEntry "stop" hooks
        else setEntry "stop" (.array (retained stop)) hooks
      (setEntry "hooks" (.object hooks) root, changed)
    | _ => (root, false)
  | _ => (root, false)

inductive Merge
  | install (path : String) (windows : Bool)
  | uninstall

namespace SerdeJson

variable (serde : SerdeJson)

def parseHooks (text : String) : Except Refusal (List (String × Value)) :=
  if text.toList.all isWhiteSpace then .ok [("hooks", .object []), ("version", .number "1")]
  else
    match serde.fromStr text with
    | none => .error .unparsable
    | some (.object members) => .ok members
    | some _ => .error .rootNotObject

def rendered (root : List (String × Value)) : String := serde.toStringPretty (.object root) ++ "\n"

def mergeInstall (text command : String) : Except Refusal String := do
  let root ← serde.parseHooks text
  let merged ← withEntry command root
  .ok (serde.rendered merged)

def mergeUninstall (text : String) : Except Refusal (String × Bool) := do
  let root ← serde.parseHooks text
  .ok (serde.rendered (withoutEntry root).1, (withoutEntry root).2)

def apply (text : String) : Merge → Except Refusal String
  | .install path windows => (quoteCommand path windows).bind (serde.mergeInstall text)
  | .uninstall => (serde.mergeUninstall text).map Prod.fst

def run (text : String) (merges : List Merge) : String :=
  merges.foldl (fun text merge => (serde.apply text merge).toOption.getD text) text

/-- The members of a text, which stand there as `serde_json` keeps them. -/
def IsDocument (text : String) (members : List (String × Value)) : Prop :=
  serde.parseHooks text = .ok members ∧
    (text.toList.all isWhiteSpace = true ∨ Json.parse text = some (.object members))

end SerdeJson

/-! ### The user's content -/

def IsToards (entry : Value) : Prop :=
  ∃ path windows command, quoteCommand path windows = .ok command ∧ entry = entryOf command

open Classical in
noncomputable def ownEntries (items : List Value) : List Value :=
  items.filter fun entry => ¬ IsToards entry

open Classical in
/-- The members of `hooks` but a `stop` in which every entry is the shim's. -/
noncomputable def ownMembers (hooks : List (String × Value)) : List (String × Value) :=
  hooks.filter fun member => ¬ (member.1 = "stop" ∧
    ∃ items, member.2 = .array items ∧ items ≠ [] ∧ ownEntries items = [])

/-- The same key; under `key` the value is `kept`, and elsewhere the same. -/
def Member (key : String) (kept : Value → Value → Prop) (before after : String × Value) : Prop :=
  before.1 = after.1 ∧ if before.1 = key then kept before.2 after.2 else before.2 = after.2

def KeptStop (before after : Value) : Prop :=
  match before with
  | .array items => ∃ now, after = .array now ∧ ownEntries items = ownEntries now
  | other => after = other

def KeptHooks (before after : Value) : Prop :=
  match before with
  | .object hooks => ∃ now, after = .object now ∧
    List.SublistForall₂ (Member "stop" KeptStop) (ownMembers hooks) now
  | other => after = other

def Kept (document now : List (String × Value)) : Prop :=
  List.SublistForall₂ (Member "hooks" KeptHooks) document now

/-- The entries under `stop`. -/
def stopOf (root : List (String × Value)) : Option (List Value) :=
  match (Value.object root).get "hooks" with
  | some (.object hooks) =>
    match (Value.object hooks).get "stop" with
    | some (.array stop) => some stop
    | _ => none
  | _ => none

def Apart (root : List (String × Value)) : Prop :=
  ∀ hooks, ("hooks", Value.object hooks) ∈ root → ∀ stop, ("stop", Value.array stop) ∈ hooks →
    ∀ entry ∈ stop, isManagedEntry entry = true → IsToards entry

/-! ### Members -/

theorem mem_insertMember {key : String} {item : Value} {members : List (String × Value)}
    {entry : String × Value} :
    entry ∈ insertMember key item members ↔ entry = (key, item) ∨ entry ∈ members := by
  induction members with
  | nil => exact List.mem_cons
  | cons first rest ih =>
    rw [insertMember]
    split
    case isTrue => exact List.mem_cons
    case isFalse => rw [List.mem_cons, ih, List.mem_cons, or_left_comm]

theorem sublist_orInsert (key : String) (item : Value) (members : List (String × Value)) :
    members.Sublist (orInsert key item members) := by
  rw [orInsert]
  split
  case isTrue => exact List.Sublist.refl _
  case isFalse =>
    induction members with
    | nil => exact List.nil_sublist _
    | cons first rest ih =>
      rw [insertMember]
      split
      case isTrue => exact List.sublist_cons_self ..
      case isFalse => exact (ih fun among => by simp_all [keysOf]).cons_cons first

theorem mem_orInsert {key : String} {item : Value} {members : List (String × Value)}
    {entry : String × Value} (among : entry ∈ orInsert key item members) :
    entry = (key, item) ∨ entry ∈ members := by
  rw [orInsert] at among
  split at among
  case isTrue => exact .inr among
  case isFalse => exact mem_insertMember.mp among

theorem key_orInsert (key : String) (item : Value) (members : List (String × Value)) :
    key ∈ keysOf (orInsert key item members) := by
  rw [orInsert]
  split
  case isTrue among => exact among
  case isFalse => exact List.mem_map_of_mem (mem_insertMember.mpr (.inl rfl))

theorem orInsert_of_mem {key : String} {members : List (String × Value)} (among : key ∈ keysOf members)
    (item : Value) : orInsert key item members = members := if_pos among

theorem keysOf_set {key : String} {members : List (String × Value)} (among : key ∈ keysOf members)
    (item : Value) : keysOf (setEntry key item members) = keysOf members :=
  (ClaudeEnv.keysOf_setEntry key item members).trans (if_pos among)

section Held

variable {plain : String → Prop} {key : String} {item : Value} {members : List (String × Value)}

theorem held_object : Held plain (.object members) ↔
    (keysOf members).Pairwise (· < ·) ∧ ∀ member ∈ members, Held plain member.2 :=
  ⟨fun held => by cases held with | object sorted each => exact ⟨sorted, each⟩,
    fun held => .object held.1 held.2⟩

theorem held_retained {stop : List Value} (held : Held plain (.array stop)) :
    ∀ entry ∈ retained stop, Held plain entry := by
  cases held with
  | array each => exact fun entry among => each entry (List.mem_of_mem_filter among)

theorem held_get (held : Held plain (.object members))
    (found : (Value.object members).get key = some item) : Held plain item :=
  (held_object.mp held).2 _ (Value.mem_of_get found)

theorem held_orInsert (held : Held plain (.object members)) (also : Held plain item) :
    Held plain (.object (orInsert key item members)) := by
  obtain ⟨sorted, each⟩ := held_object.mp held
  rw [orInsert]
  split
  case isTrue => exact held
  case isFalse fresh =>
    refine .object ?_ fun member among => (mem_insertMember.mp among).elim (fun new => new ▸ also)
      (each member)
    clear held each
    induction members with
    | nil => exact List.pairwise_singleton ..
    | cons first rest ih =>
      rw [keysOf, List.map_cons, List.mem_cons, not_or] at fresh
      obtain ⟨below, later⟩ := List.pairwise_cons.mp sorted
      rw [insertMember]
      split
      case isTrue less =>
        refine List.pairwise_cons.mpr ⟨fun other among => ?_, sorted⟩
        obtain rfl | behind := List.mem_cons.mp among
        · exact less
        · exact less.trans (below other behind)
      case isFalse notLess =>
        refine List.pairwise_cons.mpr ⟨fun other among => ?_, ih later fresh.2⟩
        obtain ⟨entry, isEntry, rfl⟩ := List.mem_map.mp among
        obtain rfl | behind := mem_insertMember.mp isEntry
        · exact lt_of_le_of_ne (not_lt.mp notLess) (Ne.symm fresh.1)
        · exact below _ (List.mem_map_of_mem behind)

theorem held_setEntry (held : Held plain (.object members)) (among : key ∈ keysOf members)
    (also : Held plain item) : Held plain (.object (setEntry key item members)) := by
  obtain ⟨sorted, each⟩ := held_object.mp held
  refine .object ((keysOf_set among item).symm ▸ sorted) fun member isMember => ?_
  obtain old | rfl := Json.setEntry_mem isMember
  · exact each member old
  · exact also

theorem held_eraseEntry (held : Held plain (.object members)) (key : String) :
    Held plain (.object (eraseEntry key members)) := by
  obtain ⟨sorted, each⟩ := held_object.mp held
  have sub := Json.eraseEntry_sublist key members
  exact .object (sorted.sublist (sub.map Prod.fst)) fun member among => each member (sub.subset among)

theorem nodup_of_held (held : Held plain (.object members)) : (keysOf members).Nodup :=
  (held_object.mp held).1.imp fun less => ne_of_lt less

end Held

/-! ### What is kept -/

section Kept

variable {R : String × Value → String × Value → Prop} {own now : List (String × Value)}

theorem kept_sublist {later : List (String × Value)} (kept : List.SublistForall₂ R own now)
    (sub : now.Sublist later) : List.SublistForall₂ R own later := by
  obtain ⟨part, related, among⟩ := List.sublistForall₂_iff.mp kept
  exact List.sublistForall₂_iff.mpr ⟨part, related, among.trans sub⟩

theorem kept_setEntry {key : String} {old item : Value} (kept : List.SublistForall₂ R own now)
    (found : (Value.object now).get key = some old)
    (changed : ∀ before ∈ own, R before (key, old) → R before (key, item)) :
    List.SublistForall₂ R own (setEntry key item now) := by
  induction kept with
  | nil => exact .nil
  | @cons before first own now related rest ih =>
    rw [Value.get_cons] at found
    rw [setEntry]
    split at found
    case isTrue same =>
      cases found
      rw [if_pos same]
      refine .cons ?_ rest
      rw [same]
      exact changed before List.mem_cons_self (same ▸ related)
    case isFalse other =>
      rw [if_neg other]
      exact .cons related (ih found fun member among => changed member (List.mem_cons_of_mem _ among))
  | @cons_right first own now rest ih =>
    rw [Value.get_cons] at found
    rw [setEntry]
    split at found
    case isTrue same =>
      rw [if_pos same]
      exact .cons_right rest
    case isFalse other =>
      rw [if_neg other]
      exact .cons_right (ih found changed)

theorem kept_eraseEntry {key : String} (kept : List.SublistForall₂ R own now)
    (away : ∀ before ∈ own, ∀ after, R before after → after.1 ≠ key) :
    List.SublistForall₂ R own (eraseEntry key now) := by
  induction kept with
  | nil => exact .nil
  | @cons before first own now related rest ih =>
    rw [eraseEntry, if_neg (away before List.mem_cons_self first related)]
    exact .cons related (ih fun member among => away member (List.mem_cons_of_mem _ among))
  | @cons_right first own now rest ih =>
    rw [eraseEntry]
    split
    case isTrue => exact rest
    case isFalse => exact .cons_right (ih away)

theorem exists_of_kept (kept : List.SublistForall₂ R own now) {before : String × Value}
    (among : before ∈ own) : ∃ after ∈ now, R before after := by
  induction kept with
  | nil => exact absurd among List.not_mem_nil
  | cons related rest ih =>
    obtain rfl | later := List.mem_cons.mp among
    · exact ⟨_, List.mem_cons_self, related⟩
    · exact (ih later).imp fun _ found => ⟨List.mem_cons_of_mem _ found.1, found.2⟩
  | cons_right rest ih =>
    exact (ih among).imp fun _ found => ⟨List.mem_cons_of_mem _ found.1, found.2⟩

end Kept

theorem Member.change {key : String} {kept : Value → Value → Prop} {before : String × Value}
    {old item : Value} (related : Member key kept before (key, old))
    (changed : kept before.2 old → kept before.2 item) : Member key kept before (key, item) := by
  obtain ⟨same, isKept⟩ := related
  rw [if_pos same] at isKept
  exact ⟨same, (if_pos (c := before.1 = key) same).mpr (changed isKept)⟩

/-! ### One merge -/

theorem isManagedEntry_of_isToards {entry : Value} (toards : IsToards entry) :
    isManagedEntry entry = true := by
  obtain ⟨path, windows, command, quoted, rfl⟩ := toards
  rw [quoteCommand] at quoted
  split at quoted
  case isTrue => cases quoted
  case isFalse =>
    cases quoted
    refine decide_eq_true ?_
    rw [String.toList_ofList, List.append_cons]
    exact (List.suffix_append ..).isInfix

theorem ownEntries_append (stop more : List Value) :
    ownEntries (stop ++ more) = ownEntries stop ++ ownEntries more := List.filter_append ..

theorem ownEntries_entryOf {path command : String} {windows : Bool}
    (quoted : quoteCommand path windows = .ok command) : ownEntries [entryOf command] = [] := by
  simp only [ownEntries, List.filter_eq_nil_iff, decide_eq_true_eq, not_not]
  exact fun entry among => ⟨path, windows, command, quoted, List.mem_singleton.mp among⟩

theorem ownEntries_retained {stop : List Value}
    (apart : ∀ entry ∈ stop, isManagedEntry entry = true → IsToards entry) :
    ownEntries (retained stop) = ownEntries stop := by
  rw [ownEntries, retained, List.filter_filter, ownEntries]
  refine List.filter_congr fun entry among => ?_
  cases managed : isManagedEntry entry with
  | false => exact Bool.and_true _
  | true => simp [apart entry among managed]

theorem not_managed_retained {stop : List Value} {entry : Value} (among : entry ∈ retained stop) :
    isManagedEntry entry = false :=
  Bool.not_eq_true' _ ▸ (List.mem_filter.mp among).2

theorem retained_retained (stop : List Value) : retained (retained stop) = retained stop :=
  List.filter_eq_self.mpr fun entry among => by rw [not_managed_retained among]; rfl

/-- What a merge that goes through `stop` finds and leaves. -/
theorem withEntry_ok {command : String} {root merged : List (String × Value)}
    (done : withEntry command root = .ok merged) : ∃ object hooks stop,
      object = orInsert "hooks" (.object []) (orInsert "version" (.number "1") root) ∧
      (Value.object object).get "hooks" = some (.object hooks) ∧
      (Value.object (orInsert "stop" (.array []) hooks)).get "stop" = some (.array stop) ∧
      merged = setEntry "hooks" (.object (setEntry "stop"
        (.array (retained stop ++ [entryOf command])) (orInsert "stop" (.array []) hooks))) object := by
  rw [withEntry] at done
  split at done
  case h_1 hooks isHooks =>
    dsimp only at done
    split at done
    case h_1 stop isStop =>
      cases done
      exact ⟨_, hooks, stop, rfl, isHooks, isStop, rfl⟩
    case h_2 => cases done
  case h_2 => cases done

/-- **An install that is repeated changes nothing.** -/
theorem withEntry_again {path command : String} {windows : Bool} {root merged : List (String × Value)}
    (quoted : quoteCommand path windows = .ok command) (done : withEntry command root = .ok merged) :
    withEntry command merged = .ok merged := by
  obtain ⟨object, hooks, stop, isObject, isHooks, isStop, rfl⟩ := withEntry_ok done
  have managed : isManagedEntry (entryOf command) = true :=
    isManagedEntry_of_isToards ⟨path, windows, command, quoted, rfl⟩
  have again : retained (retained stop ++ [entryOf command]) = retained stop := by
    rw [retained, List.filter_append, ← retained, retained_retained, List.filter_singleton, managed]
    exact List.append_nil _
  have stopKey := key_orInsert "stop" (.array []) hooks
  have hooksKey : "hooks" ∈ keysOf object := Value.key_of_get isHooks
  have version : "version" ∈ keysOf object := by
    rw [isObject]
    exact ((sublist_orInsert ..).map Prod.fst).subset (key_orInsert ..)
  rw [withEntry, @orInsert_of_mem "version" _ (by rwa [keysOf_set hooksKey]),
    orInsert_of_mem (by rwa [keysOf_set hooksKey]), get_setEntry, if_pos rfl]
  dsimp only
  rw [orInsert_of_mem (by rwa [keysOf_set stopKey]), get_setEntry, if_pos rfl]
  dsimp only
  rw [again, ClaudeEnv.setEntry_setEntry, ClaudeEnv.setEntry_setEntry]

theorem stopOf_eq_some {root : List (String × Value)} {stop : List Value} : stopOf root = some stop ↔
    ∃ hooks, (Value.object root).get "hooks" = some (.object hooks) ∧
      (Value.object hooks).get "stop" = some (.array stop) := by
  constructor
  · intro found
    rw [stopOf] at found
    split at found
    case h_1 hooks isHooks =>
      split at found
      case h_1 isStop => cases found; exact ⟨hooks, isHooks, isStop⟩
      case h_2 => cases found
    case h_2 => cases found
  · rintro ⟨hooks, isHooks, isStop⟩
    rw [stopOf, isHooks]
    dsimp only
    rw [isStop]

theorem stopOf_setEntry {object hooks : List (String × Value)} {stop : List Value} :
    stopOf (setEntry "hooks" (.object (setEntry "stop" (.array stop) hooks)) object) = some stop :=
  stopOf_eq_some.mpr ⟨_, (get_setEntry ..).trans (if_pos rfl), (get_setEntry ..).trans (if_pos rfl)⟩

theorem withoutEntry_cases (root : List (String × Value)) :
    (stopOf root = none ∧ withoutEntry root = (root, false)) ∨
    ∃ hooks stop, (Value.object root).get "hooks" = some (.object hooks) ∧
      (Value.object hooks).get "stop" = some (.array stop) ∧
      (retained stop = [] ∧ stop ≠ [] ∧
          (withoutEntry root).1 = setEntry "hooks" (.object (eraseEntry "stop" hooks)) root ∨
        (withoutEntry root).1
          = setEntry "hooks" (.object (setEntry "stop" (.array (retained stop)) hooks)) root) := by
  cases isStop : stopOf root with
  | none =>
    refine .inl ⟨rfl, ?_⟩
    rw [withoutEntry]
    split
    case h_1 hooks isHooks =>
      split
      case h_1 stop found => rw [stopOf_eq_some.mpr ⟨hooks, isHooks, found⟩] at isStop; cases isStop
      case h_2 => rfl
    case h_2 => rfl
  | some stop =>
    obtain ⟨hooks, isHooks, found⟩ := stopOf_eq_some.mp isStop
    refine .inr ⟨hooks, stop, isHooks, found, ?_⟩
    rw [withoutEntry, isHooks]
    dsimp only
    rw [found]
    dsimp only
    split
    case isTrue removed =>
      refine .inl ⟨List.isEmpty_iff.mp removed.2, fun empty => ?_, rfl⟩
      simp [empty, retained] at removed
    case isFalse => exact .inr rfl

theorem withoutEntry_of_retained {root : List (String × Value)}
    (none : ∀ stop ∈ stopOf root, retained stop = stop) : (withoutEntry root).1 = root := by
  rcases withoutEntry_cases root with ⟨-, same⟩ | ⟨hooks, stop, isHooks, isStop, removed | left⟩
  · rw [same]
  · have same := none stop (stopOf_eq_some.mpr ⟨hooks, isHooks, isStop⟩)
    exact absurd (same.symm.trans removed.1) removed.2.1
  · rw [left, none stop (stopOf_eq_some.mpr ⟨hooks, isHooks, isStop⟩), Json.setEntry_same isStop,
      Json.setEntry_same isHooks]

theorem retained_withoutEntry {plain : String → Prop} {root : List (String × Value)}
    (held : Held plain (.object root)) :
    ∀ stop ∈ stopOf (withoutEntry root).1, retained stop = stop := by
  intro stop isStop
  rcases withoutEntry_cases root with ⟨none, same⟩ | ⟨hooks, old, isHooks, found, removed | left⟩
  · rw [same, none] at isStop
    cases isStop
  · rw [removed.2.2] at isStop
    obtain ⟨now, isNow, found⟩ := stopOf_eq_some.mp isStop
    rw [get_setEntry, if_pos rfl] at isNow
    cases isNow
    exact absurd (Value.key_of_get found)
      (ClaudeEnv.not_mem_keys_eraseEntry (nodup_of_held (held_get held isHooks)))
  · rw [left, stopOf_setEntry] at isStop
    cases isStop
    exact retained_retained old

/-! ### The user's content -/

theorem KeptHooks.change {before : Value} {hooks later : List (String × Value)}
    (kept : KeptHooks before (.object hooks))
    (step : ∀ own, before = .object own →
      List.SublistForall₂ (Member "stop" KeptStop) (ownMembers own) hooks →
      List.SublistForall₂ (Member "stop" KeptStop) (ownMembers own) later) :
    KeptHooks before (.object later) := by
  cases before with
  | object own =>
    obtain ⟨now, same, related⟩ := kept
    cases same
    exact ⟨later, rfl, step own rfl related⟩
  | _ => cases kept

theorem KeptStop.change {before : Value} {stop later : List Value}
    (kept : KeptStop before (.array stop)) (same : ownEntries stop = ownEntries later) :
    KeptStop before (.array later) := by
  cases before with
  | array items =>
    obtain ⟨now, isNow, own⟩ := kept
    cases isNow
    exact ⟨later, rfl, own.trans same⟩
  | _ => cases kept

theorem Member.refl {key : String} {kept : Value → Value → Prop} (same : ∀ value, kept value value)
    (member : String × Value) : Member key kept member member := by
  refine ⟨rfl, ?_⟩
  split
  · exact same member.2
  · rfl

theorem KeptStop.refl (value : Value) : KeptStop value value := by
  cases value with
  | array items => exact ⟨items, rfl, rfl⟩
  | _ => rfl

theorem KeptHooks.refl (value : Value) : KeptHooks value value := by
  cases value with
  | object hooks =>
    exact ⟨hooks, rfl, List.sublistForall₂_iff.mpr ⟨ownMembers hooks,
      List.forall₂_same.mpr fun member _ => Member.refl KeptStop.refl member, List.filter_sublist⟩⟩
  | _ => rfl

theorem kept_refl (document : List (String × Value)) : Kept document document :=
  List.sublistForall₂_iff.mpr ⟨document,
    List.forall₂_same.mpr fun member _ => Member.refl KeptHooks.refl member, List.Sublist.refl _⟩

/-- A `stop` in which the merge keeps the user's entries. -/
theorem kept_stop {document root hooks : List (String × Value)} {stop later : List Value}
    (kept : Kept document root) (isHooks : (Value.object root).get "hooks" = some (.object hooks))
    {more : List (String × Value)} (sub : hooks.Sublist more)
    (isStop : (Value.object more).get "stop" = some (.array stop))
    (same : ownEntries stop = ownEntries later) :
    Kept document (setEntry "hooks" (.object (setEntry "stop" (.array later) more)) root) :=
  kept_setEntry kept isHooks fun _ _ related => related.change fun hooksKept =>
    hooksKept.change fun _ _ members => kept_setEntry (kept_sublist members sub) isStop
      fun _ _ stopRelated => stopRelated.change fun stopKept => stopKept.change same

theorem kept_withEntry {document root merged : List (String × Value)} {path command : String}
    {windows : Bool} (quoted : quoteCommand path windows = .ok command) (kept : Kept document root)
    (apart : Apart root) (done : withEntry command root = .ok merged) :
    Kept document merged ∧ Apart merged := by
  obtain ⟨object, hooks, stop, rfl, isHooks, isStop, rfl⟩ := withEntry_ok done
  have base := (sublist_orInsert "version" (.number "1") root).trans (sublist_orInsert "hooks" (.object []) _)
  have apartBase : Apart (orInsert "hooks" (.object []) (orInsert "version" (.number "1") root)) := by
    intro hooks among stop isStop
    obtain new | old := mem_orInsert among
    · cases new
      exact absurd isStop List.not_mem_nil
    · obtain new | old := mem_orInsert old
      · exact absurd (show "hooks" = "version" from congrArg Prod.fst new) (by decide)
      · exact apart hooks old stop isStop
  have apartStop : ∀ entry ∈ stop, isManagedEntry entry = true → IsToards entry := by
    obtain new | old := mem_orInsert (Value.mem_of_get isStop)
    · cases new
      exact fun entry among => absurd among List.not_mem_nil
    · exact apartBase hooks (Value.mem_of_get isHooks) stop old
  have same : ownEntries stop = ownEntries (retained stop ++ [entryOf command]) := by
    rw [ownEntries_append, ownEntries_entryOf quoted, ownEntries_retained apartStop, List.append_nil]
  refine ⟨kept_stop (kept_sublist kept base) isHooks (sublist_orInsert ..) isStop same, ?_⟩
  intro later among items isItems entry isEntry managed
  obtain old | new := Json.setEntry_mem among
  · exact apartBase later old items isItems entry isEntry managed
  · cases new
    obtain old | new := Json.setEntry_mem isItems
    · obtain new | old := mem_orInsert old
      · cases new
        exact absurd isEntry List.not_mem_nil
      · exact apartBase hooks (Value.mem_of_get isHooks) items old entry isEntry managed
    · cases new
      obtain kept | last := List.mem_append.mp isEntry
      · rw [not_managed_retained kept] at managed
        cases managed
      · exact ⟨path, windows, command, quoted, List.mem_singleton.mp last⟩

/-- The entries of the user's do not let `stop` go. -/
theorem not_mem_stop {plain : String → Prop} {document hooks now : List (String × Value)}
    {stop : List Value} (held : Held plain (.object document)) (full : stopOf document ≠ some [])
    (isHooks : ("hooks", Value.object hooks) ∈ document) (nowHeld : Held plain (.object now))
    (kept : List.SublistForall₂ (Member "stop" KeptStop) (ownMembers hooks) now)
    (isStop : (Value.object now).get "stop" = some (.array stop)) (none : ownEntries stop = [])
    {before : String × Value} (among : before ∈ ownMembers hooks) : before.1 ≠ "stop" := by
  obtain ⟨key, item⟩ := before
  rintro rfl
  obtain ⟨after, isAfter, sameKey, related⟩ := exists_of_kept kept among
  have found := ClaudeEnv.get_of_mem (nodup_of_held nowHeld) isAfter
  rw [← sameKey, isStop] at found
  rw [if_pos rfl, ← Option.some.inj found] at related
  simp only [ownMembers, List.mem_filter, decide_eq_true_eq] at among
  obtain ⟨inHooks, users⟩ := among
  cases item with
  | array items =>
    obtain ⟨now, isNow, own⟩ := related
    cases isNow
    have empty : items = [] := by
      by_contra nonempty
      exact users ⟨trivial, items, rfl, nonempty, own.trans none⟩
    have hooksHeld := (held_object.mp held).2 _ isHooks
    refine full (stopOf_eq_some.mpr ⟨hooks, ClaudeEnv.get_of_mem (nodup_of_held held) isHooks, ?_⟩)
    exact ClaudeEnv.get_of_mem (nodup_of_held hooksHeld) (empty ▸ inHooks)
  | _ => cases related

theorem kept_withoutEntry {plain : String → Prop} {document root : List (String × Value)}
    (held : Held plain (.object document)) (full : stopOf document ≠ some [])
    (rootHeld : Held plain (.object root)) (kept : Kept document root) (apart : Apart root) :
    Kept document (withoutEntry root).1 ∧ Apart (withoutEntry root).1 := by
  rcases withoutEntry_cases root with ⟨-, same⟩ | ⟨hooks, stop, isHooks, isStop, change⟩
  · rw [same]
    exact ⟨kept, apart⟩
  · have among := Value.mem_of_get isHooks
    have same := ownEntries_retained (apart hooks among stop (Value.mem_of_get isStop))
    rcases change with ⟨none, -, removed⟩ | left
    · rw [removed]
      have noOwn : ownEntries stop = [] := by rw [← same, none]; rfl
      refine ⟨kept_setEntry kept isHooks fun before isOwn related => related.change fun hooksKept =>
        hooksKept.change fun own isObject members => ?_, fun later isLater => ?_⟩
      · refine kept_eraseEntry members fun member isMember after memberRelated => ?_
        rw [← memberRelated.1]
        have own : ("hooks", Value.object own) ∈ document := by
          rw [← isObject, ← show before.1 = "hooks" from related.1]
          exact isOwn
        exact not_mem_stop held full own (held_get rootHeld isHooks) members isStop noOwn isMember
      · obtain old | new := Json.setEntry_mem isLater
        · exact apart later old
        · cases new
          exact fun items isItems => apart hooks among items ((Json.eraseEntry_sublist ..).subset isItems)
    · rw [left]
      refine ⟨kept_stop kept isHooks (List.Sublist.refl _) isStop same.symm, fun later isLater => ?_⟩
      obtain old | new := Json.setEntry_mem isLater
      · exact apart later old
      · cases new
        intro items isItems
        obtain old | new := Json.setEntry_mem isItems
        · exact apart hooks among items old
        · cases new
          exact fun entry isEntry => apart hooks among stop (Value.mem_of_get isStop) entry
            (List.mem_of_mem_filter isEntry)

def next (root : List (String × Value)) : Merge → Except Refusal (List (String × Value))
  | .install path windows => (quoteCommand path windows).bind fun command => withEntry command root
  | .uninstall => .ok (withoutEntry root).1

theorem next_install {path : String} {windows : Bool} {root merged : List (String × Value)}
    (done : next root (.install path windows) = .ok merged) :
    ∃ command, quoteCommand path windows = .ok command ∧ withEntry command root = .ok merged := by
  rw [next] at done
  cases quoted : quoteCommand path windows with
  | error refusal => rw [quoted] at done; cases done
  | ok command => rw [quoted] at done; exact ⟨command, rfl, done⟩

theorem kept_next {plain : String → Prop} {document root merged : List (String × Value)}
    (held : Held plain (.object document)) (full : stopOf document ≠ some [])
    (rootHeld : Held plain (.object root)) (kept : Kept document root) (apart : Apart root)
    {merge : Merge} (done : next root merge = .ok merged) : Kept document merged ∧ Apart merged := by
  cases merge with
  | install path windows =>
    obtain ⟨command, quoted, isMerged⟩ := next_install done
    exact kept_withEntry quoted kept apart isMerged
  | uninstall =>
    cases done
    exact kept_withoutEntry held full rootHeld kept apart

theorem held_next {plain : String → Prop} (one : plain "1") {root merged : List (String × Value)}
    (held : Held plain (.object root)) {merge : Merge} (done : next root merge = .ok merged) :
    Held plain (.object merged) := by
  have nothing : Held plain (.object []) := .object .nil fun _ among => absurd among List.not_mem_nil
  cases merge with
  | install path windows =>
    obtain ⟨command, -, isMerged⟩ := next_install done
    obtain ⟨object, hooks, stop, rfl, isHooks, isStop, rfl⟩ := withEntry_ok isMerged
    have base : Held plain (.object (orInsert "hooks" (.object []) (orInsert "version" (.number "1")
        root))) := held_orInsert (held_orInsert held (.number one)) nothing
    have hooksHeld : Held plain (.object (orInsert "stop" (.array []) hooks)) :=
      held_orInsert (held_get base isHooks) (.array fun _ among => absurd among List.not_mem_nil)
    have entry : Held plain (entryOf command) := by
      refine .object (List.pairwise_singleton ..) fun member among => ?_
      rw [List.mem_singleton.mp among]
      exact .string command
    refine held_setEntry base (Value.key_of_get isHooks)
      (held_setEntry hooksHeld (key_orInsert ..) (.array fun item among => ?_))
    obtain old | new := List.mem_append.mp among
    · exact held_retained (held_get hooksHeld isStop) item old
    · exact List.mem_singleton.mp new ▸ entry
  | uninstall =>
    cases done
    rcases withoutEntry_cases root with ⟨-, same⟩ | ⟨hooks, stop, isHooks, isStop, change⟩
    · rw [same]
      exact held
    · have hooksHeld := held_get held isHooks
      rcases change with ⟨-, -, removed⟩ | left
      · rw [removed]
        exact held_setEntry held (Value.key_of_get isHooks) (held_eraseEntry hooksHeld _)
      · rw [left]
        exact held_setEntry held (Value.key_of_get isHooks) (held_setEntry hooksHeld
          (Value.key_of_get isStop) (.array (held_retained (held_get hooksHeld isStop))))

def Merge.entries : Merge → Nat
  | .install _ _ => 1
  | .uninstall => 0

/-- **One entry after an install and none after an uninstall**, and again the same changes nothing. -/
theorem next_settled {plain : String → Prop} {root merged : List (String × Value)}
    (held : Held plain (.object root)) {merge : Merge} (done : next root merge = .ok merged) :
    ((stopOf merged).getD []).countP isManagedEntry = merge.entries ∧ next merged merge = .ok merged := by
  have noEntry : ∀ {stop}, retained stop = stop → stop.countP isManagedEntry = 0 := fun same =>
    List.countP_eq_zero.mpr fun entry among => by simp [not_managed_retained (same.symm ▸ among)]
  cases merge with
  | install path windows =>
    obtain ⟨command, quoted, isMerged⟩ := next_install done
    refine ⟨?_, by rw [next, quoted]; exact withEntry_again quoted isMerged⟩
    obtain ⟨object, hooks, stop, -, -, -, rfl⟩ := withEntry_ok isMerged
    have managed := isManagedEntry_of_isToards ⟨path, windows, command, quoted, rfl⟩
    rw [stopOf_setEntry, Option.getD_some, List.countP_append, noEntry (retained_retained stop),
      List.countP_singleton, if_pos managed]
    rfl
  | uninstall =>
    cases done
    have settled := retained_withoutEntry held
    refine ⟨?_, congrArg Except.ok (withoutEntry_of_retained settled)⟩
    cases isStop : stopOf (withoutEntry root).1 with
    | none => rfl
    | some stop => exact noEntry (settled stop isStop)

/-! ### Texts -/

namespace SerdeJson

variable (serde : SerdeJson)

theorem parseHooks_ok {text : String} {root : List (String × Value)}
    (parsed : serde.parseHooks text = .ok root) : Held serde.plain (.object root) := by
  rw [parseHooks] at parsed
  split at parsed
  case isTrue =>
    cases parsed
    refine held_object.mpr ⟨by decide, ?_⟩
    simp only [List.forall_mem_cons]
    exact ⟨.object .nil fun _ among => absurd among List.not_mem_nil, .number serde.plain_one,
      List.forall_mem_nil _⟩
  case isFalse =>
    split at parsed
    case h_1 => cases parsed
    case h_2 members read => cases parsed; exact serde.held read
    case h_3 => cases parsed

theorem isDocument_rendered {root : List (String × Value)} (held : Held serde.plain (.object root)) :
    serde.IsDocument (serde.rendered root) root := by
  refine ⟨?_, .inr (serde.prints held)⟩
  rw [parseHooks, rendered, serde.visible held, if_neg Bool.false_ne_true, serde.reads held]

theorem apply_eq {text : String} {root : List (String × Value)}
    (parsed : serde.parseHooks text = .ok root) (merge : Merge) :
    serde.apply text merge = (next root merge).map serde.rendered := by
  cases merge with
  | install path windows =>
    rw [apply, next]
    cases quoteCommand path windows with
    | error => rfl
    | ok command =>
      change serde.mergeInstall text command = (withEntry command root).map serde.rendered
      rw [mergeInstall, parsed]
      change (withEntry command root >>= fun merged => .ok (serde.rendered merged)) = _
      cases withEntry command root <;> rfl
  | uninstall =>
    rw [apply, mergeUninstall, parsed]
    rfl

/-- **Merges keep the user's content.** In any order of installs and uninstalls, each with any path, the
file is a document that has every member and entry of the user's, in order. -/
theorem user_content_kept {text : String} {document : List (String × Value)}
    (isDocument : serde.IsDocument text document) (apart : Apart document)
    (full : stopOf document ≠ some []) (merges : List Merge) :
    ∃ now, serde.IsDocument (serde.run text merges) now ∧ Kept document now ∧
      ∀ merge after, serde.apply (serde.run text merges) merge = .ok after →
        ∃ root, serde.IsDocument after root ∧
          ((stopOf root).getD []).countP isManagedEntry = merge.entries ∧
          serde.apply after merge = .ok after := by
  have held := serde.parseHooks_ok isDocument.1
  have run : ∃ now, serde.IsDocument (serde.run text merges) now ∧ Kept document now ∧ Apart now := by
    induction merges using List.reverseRecOn with
    | nil => exact ⟨document, isDocument, kept_refl document, apart⟩
    | append_singleton merges merge ih =>
      obtain ⟨now, isNow, kept, nowApart⟩ := ih
      rw [SerdeJson.run, List.foldl_concat, ← SerdeJson.run, serde.apply_eq isNow.1]
      have nowHeld := serde.parseHooks_ok isNow.1
      cases done : next now merge with
      | error => exact ⟨now, isNow, kept, nowApart⟩
      | ok merged =>
        exact ⟨merged, serde.isDocument_rendered (held_next serde.plain_one nowHeld done),
          kept_next held full nowHeld kept nowApart done⟩
  obtain ⟨now, isNow, kept, -⟩ := run
  refine ⟨now, isNow, kept, fun merge after applied => ?_⟩
  rw [serde.apply_eq isNow.1] at applied
  cases done : next now merge with
  | error => rw [done] at applied; cases applied
  | ok merged =>
    rw [done] at applied
    cases applied
    have nowHeld := serde.parseHooks_ok isNow.1
    have isMerged := serde.isDocument_rendered (held_next serde.plain_one nowHeld done)
    obtain ⟨counted, again⟩ := next_settled nowHeld done
    exact ⟨merged, isMerged, counted, by rw [serde.apply_eq isMerged.1, again]; rfl⟩

end SerdeJson

/-! ### One stop hook -/

theorem printable_of_held {value : Value} (held : Held (· = "1") value) : Json.Printable value := by
  induction held with
  | number printed =>
    rw [printed]
    exact Json.numberToken_toString 1
  | array each ih => exact Json.printableItems_iff.mpr ih
  | object sorted each ih => exact Json.printable_object.mpr ih
  | _ => trivial

theorem pretty_append (value : Value) :
    String.ofList (Json.writeValue 0 value) ++ "\n" = Json.toPretty value :=
  (String.ofList_append ..).symm

open Classical in
/-- The shim's own printer, and its parser where it reads what `serde_json` holds. -/
noncomputable def plainJson : SerdeJson where
  plain := (· = "1")
  fromStr text := (Json.parse text).filter fun value => Held (· = "1") value
  toStringPretty value := String.ofList (Json.writeValue 0 value)
  plain_one := rfl
  held read := of_decide_eq_true (Option.filter_eq_some_iff.mp read).2
  visible := by
    intro members held
    rw [pretty_append, Json.toPretty, String.toList_ofList]
    cases members <;> rfl
  reads := by
    intro value held
    rw [pretty_append, Json.parse_toPretty (printable_of_held held)]
    exact Option.filter_eq_some_iff.mpr ⟨rfl, decide_eq_true held⟩
  prints held := by rw [pretty_append, Json.parse_toPretty (printable_of_held held)]

def stopDocument (command : String) : List (String × Value) :=
  [("hooks", .object [("stop", .array [entryOf command])]), ("version", .number "1")]

theorem held_stopDocument (command : String) : Held (· = "1") (.object (stopDocument command)) := by
  have one : ∀ {key value}, Held (· = "1") value → Held (· = "1") (.object [(key, value)]) := by
    refine fun held => .object (List.pairwise_singleton ..) fun member among => ?_
    rw [List.mem_singleton.mp among]
    exact held
  refine held_object.mpr ⟨show ["hooks", "version"].Pairwise (· < ·) by decide, ?_⟩
  simp only [stopDocument, List.forall_mem_cons]
  refine ⟨one (.array fun entry among => ?_), .number rfl, List.forall_mem_nil _⟩
  rw [List.mem_singleton.mp among]
  exact one (.string command)

theorem stopOf_stopDocument (command : String) :
    stopOf (stopDocument command) = some [entryOf command] := rfl

theorem isManagedEntry_entryOf {command : String} :
    isManagedEntry (entryOf command) = true ↔ CAPTURE_COMMAND.toList <:+: command.toList := by
  have isText : ((entryOf command).get "command").bind Value.asStr = some command := rfl
  rw [isManagedEntry, isText, Option.any_some, decide_eq_true_iff]

theorem apart_stopDocument {command : String} (other : ¬ CAPTURE_COMMAND.toList <:+: command.toList) :
    Apart (stopDocument command) := by
  intro hooks isHooks stop isStop entry among managed
  have found := ClaudeEnv.get_of_mem (nodup_of_held (held_stopDocument command)) isHooks
  have isEntries := stopOf_eq_some.mpr ⟨hooks, found, ClaudeEnv.get_of_mem (nodup_of_held
    (held_get (held_stopDocument command) found)) isStop⟩
  rw [stopOf_stopDocument] at isEntries
  obtain rfl := Option.some.inj isEntries
  rw [List.mem_singleton.mp among] at managed
  exact absurd (isManagedEntry_entryOf.mp managed) other

theorem user_content_kept_other : ∃ now, plainJson.IsDocument (plainJson.run
      (plainJson.rendered (stopDocument "other Stop")) [.install "/x/toard-shim" false, .uninstall]) now ∧
    Kept (stopDocument "other Stop") now ∧ ∀ merge after, plainJson.apply (plainJson.run
        (plainJson.rendered (stopDocument "other Stop")) [.install "/x/toard-shim" false, .uninstall])
        merge = .ok after →
      ∃ root, plainJson.IsDocument after root ∧
        ((stopOf root).getD []).countP isManagedEntry = merge.entries ∧
        plainJson.apply after merge = .ok after := by
  have other : ¬ CAPTURE_COMMAND.toList <:+: "other Stop".toList := fun infixed =>
    absurd infixed.length_le (by decide)
  refine plainJson.user_content_kept (plainJson.isDocument_rendered (held_stopDocument _))
    (apart_stopDocument other) ?_ _
  rw [stopOf_stopDocument]
  exact fun same => List.cons_ne_nil _ _ (Option.some.inj same)

theorem not_isToards_exec : ¬ IsToards (entryOf "exec toard-shim cursor-hook capture-toard-v1") := by
  rintro ⟨path, windows, command, quoted, same⟩
  obtain rfl : "exec toard-shim cursor-hook capture-toard-v1" = command := by
    simpa only [entryOf, Value.object.injEq, List.cons.injEq, Prod.mk.injEq, Value.string.injEq,
      true_and, and_true] using same
  rw [quoteCommand] at quoted
  split at quoted
  case isTrue => cases quoted
  case isFalse =>
    have chars := congrArg (fun text => text.toList.head?) (Except.ok.inj quoted)
    rw [String.toList_ofList] at chars
    cases windows with
    | false => exact absurd (show some apostrophe = some 'e' from chars) (by decide)
    | true => exact absurd (show some '"' = some 'e' from chars) (by decide)

theorem withoutEntry_stopDocument {command : String} (managed : retained [entryOf command] = []) :
    (withoutEntry (stopDocument command)).1 = [("hooks", .object []), ("version", .number "1")] := by
  have isHooks : (Value.object (stopDocument command)).get "hooks"
      = some (.object [("stop", .array [entryOf command])]) := rfl
  have isStop : (Value.object [("stop", Value.array [entryOf command])]).get "stop"
      = some (.array [entryOf command]) := rfl
  rw [withoutEntry, isHooks]
  dsimp only
  rw [isStop]
  dsimp only
  rw [managed]
  rfl

/-- The user's stop hook that wraps the capture command is gone. -/
theorem wrapping_hook_lost : ¬ ∀ text document, plainJson.IsDocument text document → ∀ merges,
    ∃ now, plainJson.IsDocument (plainJson.run text merges) now ∧ Kept document now := by
  intro claim
  have held := held_stopDocument "exec toard-shim cursor-hook capture-toard-v1"
  have isDocument := plainJson.isDocument_rendered held
  obtain ⟨now, isNow, kept⟩ := claim _ _ isDocument [.uninstall]
  have managed := isManagedEntry_entryOf.mpr
    ⟨"exec toard-shim ".toList, [], show _ = "exec toard-shim cursor-hook capture-toard-v1".toList by decide⟩
  have left := withoutEntry_stopDocument (by rw [retained, List.filter_singleton, managed]; rfl)
  have merged := plainJson.isDocument_rendered (@held_next (· = "1") rfl _ _ held .uninstall rfl)
  rw [SerdeJson.run, List.foldl_cons, List.foldl_nil, plainJson.apply_eq isDocument.1] at isNow
  obtain rfl := Except.ok.inj (isNow.1.symm.trans merged.1)
  rw [left] at kept
  -- the one member of `hooks` has nothing that it is kept by
  obtain ⟨after, among, same, hooksKept⟩ := exists_of_kept kept List.mem_cons_self
  rw [if_pos rfl] at hooksKept
  have isObject : after.2 = .object [] := by
    obtain rfl | rfl := by simpa only [List.mem_cons, List.not_mem_nil, or_false] using among
    · rfl
    · exact absurd same (by decide)
  obtain ⟨members, isMembers, membersKept⟩ := hooksKept
  obtain rfl := Value.object.inj (isObject.symm.trans isMembers)
  have user : entryOf "exec toard-shim cursor-hook capture-toard-v1"
      ∈ ownEntries [entryOf "exec toard-shim cursor-hook capture-toard-v1"] := by
    simp only [ownEntries, List.mem_filter, decide_eq_true_eq]
    exact ⟨List.mem_cons_self, not_isToards_exec⟩
  have own : ("stop", Value.array [entryOf "exec toard-shim cursor-hook capture-toard-v1"])
      ∈ ownMembers [("stop", .array [entryOf "exec toard-shim cursor-hook capture-toard-v1"])] := by
    simp only [ownMembers, List.mem_filter, decide_eq_true_eq]
    refine ⟨List.mem_cons_self, ?_⟩
    rintro ⟨-, items, isItems, -, none⟩
    cases isItems
    rw [none] at user
    exact List.not_mem_nil user
  obtain ⟨_, none, -⟩ := exists_of_kept membersKept own
  exact List.not_mem_nil none

end Toard.Shim.CursorHooks
