/-
**Edits of a document.**

A key is set in place, or added at the end, and the first entry of a key is removed; what is written
stays printable.
-/

import Toard.Json.RoundTrip

namespace Toard.Json

/-- The first entry of a key gets another value, or the key is added at the end. -/
def setEntry (key : String) (item : Value) : List (String × Value) → List (String × Value)
  | [] => [(key, item)]
  | entry :: rest =>
    if entry.1 = key then (entry.1, item) :: rest else entry :: setEntry key item rest

def eraseEntry (key : String) : List (String × Value) → List (String × Value)
  | [] => []
  | entry :: rest => if entry.1 = key then rest else entry :: eraseEntry key rest

namespace Value

/-- `set` -/
def set (self : Value) (key : String) (item : Value) : Value :=
  match self with
  | .object entries => .object (setEntry key item entries)
  | other => other

/-- `remove` -/
def remove (key : String) : Value → Value
  | .object entries => .object (eraseEntry key entries)
  | other => other

/-- `is_empty_object` -/
def isEmptyObject : Value → Bool
  | .object entries => entries.isEmpty
  | _ => false

theorem get_nil (key : String) : (Value.object []).get key = none := rfl

theorem get_cons (key : String) (first : String × Value) (rest : List (String × Value)) :
    (Value.object (first :: rest)).get key
      = if first.1 = key then some first.2 else (Value.object rest).get key := by
  rw [get, get, List.find?_cons]
  by_cases same : first.1 = key
  · rw [if_pos same, beq_iff_eq.mpr same]
    rfl
  · rw [if_neg same, beq_eq_false_iff_ne.mpr same]

theorem mem_of_get {key : String} {item : Value} {entries : List (String × Value)}
    (found : (Value.object entries).get key = some item) : (key, item) ∈ entries := by
  induction entries with
  | nil => cases found
  | cons first rest ih =>
    rw [get_cons] at found
    split at found
    case isTrue same =>
      cases found
      rw [← same]
      exact List.mem_cons_self
    case isFalse => exact List.mem_cons_of_mem _ (ih found)

theorem key_of_get {key : String} {item : Value} {entries : List (String × Value)}
    (found : (Value.object entries).get key = some item) : key ∈ entries.map Prod.fst :=
  List.mem_map_of_mem (mem_of_get found)

end Value

theorem setEntry_mem {key : String} {item : Value} {entries : List (String × Value)}
    {entry : String × Value} (among : entry ∈ setEntry key item entries) :
    entry ∈ entries ∨ entry = (key, item) := by
  induction entries with
  | nil => exact .inr (List.mem_singleton.mp among)
  | cons first rest ih =>
    rw [setEntry] at among
    split at among
    case isTrue same =>
      rw [same] at among
      obtain new | old := List.mem_cons.mp among
      · exact .inr new
      · exact .inl (List.mem_cons_of_mem _ old)
    case isFalse =>
      obtain old | later := List.mem_cons.mp among
      · exact .inl (old ▸ List.mem_cons_self)
      · exact (ih later).imp_left (List.mem_cons_of_mem _)

theorem setEntry_missing {key : String} {item : Value} {entries : List (String × Value)}
    (missing : key ∉ entries.map Prod.fst) : setEntry key item entries = entries ++ [(key, item)] := by
  induction entries with
  | nil => rfl
  | cons first rest ih =>
    rw [List.map_cons, List.mem_cons, not_or] at missing
    rw [setEntry, if_neg (Ne.symm missing.1), ih missing.2, List.cons_append]

theorem setEntry_append {key : String} {item : Value} {entries rest : List (String × Value)}
    (missing : key ∉ entries.map Prod.fst) :
    setEntry key item (entries ++ rest) = entries ++ setEntry key item rest := by
  induction entries with
  | nil => rfl
  | cons first entries ih =>
    rw [List.map_cons, List.mem_cons, not_or] at missing
    rw [List.cons_append, setEntry, if_neg (Ne.symm missing.1), ih missing.2, List.cons_append]

theorem setEntry_same {key : String} {item : Value} {entries : List (String × Value)}
    (found : (Value.object entries).get key = some item) : setEntry key item entries = entries := by
  induction entries with
  | nil => cases found
  | cons first rest ih =>
    rw [Value.get_cons] at found
    rw [setEntry]
    split at found
    case isTrue same =>
      cases found
      rw [if_pos same]
    case isFalse other => rw [if_neg other, ih found]

theorem get_setEntry (key other : String) (item : Value) (entries : List (String × Value)) :
    (Value.object (setEntry key item entries)).get other
      = if other = key then some item else (Value.object entries).get other := by
  induction entries with
  | nil =>
    rw [setEntry, Value.get_cons]
    by_cases same : other = key
    · rw [if_pos same, if_pos same.symm]
    · rw [if_neg same, if_neg (Ne.symm same)]
  | cons first rest ih =>
    rw [setEntry]
    by_cases same : first.1 = key
    · rw [if_pos same, Value.get_cons, Value.get_cons, same]
      by_cases equal : other = key
      · rw [if_pos equal, if_pos equal.symm]
      · rw [if_neg equal, if_neg (Ne.symm equal), if_neg (Ne.symm equal)]
    · rw [if_neg same, Value.get_cons, Value.get_cons, ih]
      by_cases found : first.1 = other
      · rw [if_pos found, if_pos found, if_neg (found ▸ same)]
      · rw [if_neg found, if_neg found]

theorem sublist_setEntry {kept entries : List (String × Value)} {key : String} (item : Value)
    (among : kept.Sublist entries)
    (free : ∀ old, (Value.object entries).get key = some old → (key, old) ∉ kept) :
    kept.Sublist (setEntry key item entries) := by
  induction among with
  | slnil => exact List.nil_sublist _
  | @cons kept rest first among ih =>
    rw [setEntry]
    split
    case isTrue => exact among.cons _
    case isFalse other =>
      refine (ih fun old found => free old ?_).cons _
      rwa [Value.get_cons, if_neg other]
  | @cons_cons kept rest first among ih =>
    rw [setEntry]
    split
    case isTrue same =>
      have away := free first.2 (by rw [Value.get_cons, if_pos same])
      rw [← same] at away
      exact absurd List.mem_cons_self away
    case isFalse other =>
      refine (ih fun old found inside => free old ?_ (List.mem_cons_of_mem _ inside)).cons_cons _
      rwa [Value.get_cons, if_neg other]

theorem sublist_eraseKey {kept entries : List (String × Value)} {key : String}
    (among : kept.Sublist entries)
    (free : ∀ old, (Value.object entries).get key = some old → (key, old) ∉ kept) :
    kept.Sublist (eraseEntry key entries) := by
  induction among with
  | slnil => exact List.nil_sublist _
  | @cons kept rest first among ih =>
    by_cases same : first.1 = key
    · rw [eraseEntry, if_pos same]
      exact among
    · rw [eraseEntry, if_neg same]
      refine (ih fun old found => free old ?_).cons _
      rwa [Value.get_cons, if_neg same]
  | @cons_cons kept rest first among ih =>
    by_cases same : first.1 = key
    · have away := free first.2 (by rw [Value.get_cons, if_pos same])
      rw [← same] at away
      exact absurd List.mem_cons_self away
    · rw [eraseEntry, if_neg same]
      refine (ih fun old found inside => free old ?_ (List.mem_cons_of_mem _ inside)).cons_cons _
      rwa [Value.get_cons, if_neg same]

theorem printable_object {entries : List (String × Value)} :
    Printable (.object entries) ↔ ∀ entry ∈ entries, Printable entry.2 := by
  rw [Printable, printableEntries_iff]

theorem printable_setEntry {key : String} {item : Value} {entries : List (String × Value)}
    (printable : Printable (.object entries)) (also : Printable item) :
    Printable (.object (setEntry key item entries)) := by
  rw [printable_object] at printable ⊢
  intro entry among
  obtain old | rfl := setEntry_mem among
  · exact printable entry old
  · exact also

theorem eraseEntry_sublist (key : String) (entries : List (String × Value)) :
    (eraseEntry key entries).Sublist entries := by
  induction entries with
  | nil => exact List.nil_sublist _
  | cons first rest ih =>
    rw [eraseEntry]
    split
    case isTrue => exact List.sublist_cons_self first rest
    case isFalse => exact ih.cons_cons first

theorem eraseEntry_append {key : String} {entries rest : List (String × Value)}
    (missing : key ∉ entries.map Prod.fst) :
    eraseEntry key (entries ++ rest) = entries ++ eraseEntry key rest := by
  induction entries with
  | nil => rfl
  | cons first entries ih =>
    rw [List.map_cons, List.mem_cons, not_or] at missing
    rw [List.cons_append, eraseEntry, if_neg (Ne.symm missing.1), ih missing.2, List.cons_append]

theorem printable_eraseEntry {entries : List (String × Value)}
    (printable : Printable (.object entries)) (key : String) :
    Printable (.object (eraseEntry key entries)) := by
  rw [printable_object] at printable ⊢
  exact fun entry among => printable entry ((eraseEntry_sublist key entries).subset among)

end Toard.Json
