/-
**What an adapter reads from a log, and the event made of it (`collect/mod.rs`).**

Every adapter turns the lines of its logs into `RawUsage`, whatever tool wrote them; `toUsageEvent`
makes the event that the queue stores and the server gets. The key of an event is a digest of what
identifies it in the log.
-/

import Toard.Library.Canonical
import Toard.Shim.Iso
import Toard.Shim.UsageQueue

namespace Toard.Shim

structure LocalProject where
  id : String
  label : String
  kind : String
deriving DecidableEq

structure RawUsage where
  project : Option LocalProject
  tsMs : Int
  sessionId : Option String
  model : Option String
  messageId : Option String
  inputTokens : Nat
  outputTokens : Nat
  cacheReadTokens : Nat
  cacheCreationTokens : Nat
  cacheCreation1hTokens : Nat
deriving DecidableEq

/-- `dedup_key`: by the id of the message, or without one by the session and the time. -/
def dedupKey (sha256Hex : String → String) (adapter : String) (r : RawUsage) : String :=
  let model := r.model.getD ""
  match r.messageId with
  | some id => sha256Hex (adapter ++ ":" ++ id ++ ":" ++ model ++ ":" ++ toString r.inputTokens ++
      ":" ++ toString r.outputTokens ++ ":" ++ toString r.cacheReadTokens ++ ":" ++
      toString r.cacheCreationTokens)
  | none => sha256Hex (adapter ++ ":" ++ r.sessionId.getD "" ++ ":" ++ toString r.tsMs ++ ":" ++
      model ++ ":" ++ toString r.inputTokens ++ ":" ++ toString r.outputTokens)

theorem exists_dedupKey (sha256Hex : String → String) (adapter : String) (r : RawUsage) :
    ∃ text, dedupKey sha256Hex adapter r = sha256Hex text := by
  unfold dedupKey
  cases r.messageId <;> exact ⟨_, rfl⟩

structure SameBill (left right : RawUsage) : Prop where
  model : left.model.getD "" = right.model.getD ""
  input : left.inputTokens = right.inputTokens
  output : left.outputTokens = right.outputTokens
  cacheRead : left.cacheReadTokens = right.cacheReadTokens
  cacheCreation : left.cacheCreationTokens = right.cacheCreationTokens

theorem dedupKey_congr (sha256Hex : String → String) (adapter : String) {left right : RawUsage}
    {id : String} (isLeft : left.messageId = some id) (isRight : right.messageId = some id)
    (same : SameBill left right) :
    dedupKey sha256Hex adapter left = dedupKey sha256Hex adapter right := by
  simp only [dedupKey, isLeft, isRight, same.model, same.input, same.output, same.cacheRead,
    same.cacheCreation]

def timed (tsMs : Int) (usage : RawUsage) : RawUsage := { usage with tsMs := tsMs }

theorem dedupKey_timed (sha256Hex : String → String) (adapter : String) (tsMs tsMs' : Int)
    {left right : RawUsage} {id : String} (isLeft : left.messageId = some id)
    (isRight : right.messageId = some id) (same : SameBill left right) :
    dedupKey sha256Hex adapter (timed tsMs left) = dedupKey sha256Hex adapter (timed tsMs' right) := by
  have isLeft' : (timed tsMs left).messageId = some id := isLeft
  have isRight' : (timed tsMs' right).messageId = some id := isRight
  refine dedupKey_congr sha256Hex adapter isLeft' isRight' ?_
  exact ⟨same.model, same.input, same.output, same.cacheRead, same.cacheCreation⟩

theorem colon_notMem_toString (n : Nat) : ':' ∉ (toString n).toList := by
  rw [Nat.toString_eq_repr, Nat.toList_repr]
  intro among
  exact absurd (Nat.isDigit_of_mem_toDigits (by decide) (by decide) among) (by decide)

theorem toList_toString_inj {m n : Nat} (same : (toString m).toList = (toString n).toList) :
    m = n := by
  rw [Nat.toString_eq_repr, Nat.toString_eq_repr, Nat.toList_repr, Nat.toList_repr] at same
  rw [← @Nat.ofDigitChars_ten_toDigits m, same, Nat.ofDigitChars_ten_toDigits]

theorem toList_toString_negSucc (n : Nat) :
    (toString (Int.negSucc n)).toList = '-' :: (toString (n + 1)).toList := by
  show ("-" ++ toString (n + 1)).toList = _
  rw [String.toList_append]
  rfl

theorem colon_notMem_toString_int (n : Int) : ':' ∉ (toString n).toList := by
  cases n with
  | ofNat n => exact colon_notMem_toString n
  | negSucc n =>
    rw [toList_toString_negSucc]
    intro among
    rcases List.mem_cons.mp among with minus | digit
    · exact absurd minus (by decide)
    · exact colon_notMem_toString (n + 1) digit

theorem minus_notMem_toString (n : Nat) : '-' ∉ (toString n).toList := by
  rw [Nat.toString_eq_repr, Nat.toList_repr]
  intro among
  exact absurd (Nat.isDigit_of_mem_toDigits (by decide) (by decide) among) (by decide)

theorem toList_toString_int_inj {m n : Int} (same : (toString m).toList = (toString n).toList) :
    m = n := by
  cases m with
  | ofNat m =>
    cases n with
    | ofNat n => exact congrArg Int.ofNat (toList_toString_inj same)
    | negSucc n =>
      rw [toList_toString_negSucc] at same
      exact absurd (same ▸ List.mem_cons_self) (minus_notMem_toString m)
  | negSucc m =>
    rw [toList_toString_negSucc] at same
    cases n with
    | ofNat n => exact absurd (same ▸ List.mem_cons_self) (minus_notMem_toString n)
    | negSucc n =>
      rw [toList_toString_negSucc] at same
      have digits := toList_toString_inj (List.cons.inj same).2
      rw [Nat.succ_inj.mp digits]

theorem append_number_inj {left left' : List Char} {m n : Nat}
    (same : left ++ [':'] ++ (toString m).toList = left' ++ [':'] ++ (toString n).toList) :
    left = left' ∧ m = n := by
  rw [List.append_assoc, List.append_assoc, List.singleton_append, List.singleton_append] at same
  obtain ⟨before, digits⟩ := Library.append_separator_inj_right (colon_notMem_toString m)
    (colon_notMem_toString n) same
  exact ⟨before, toList_toString_inj digits⟩

/-- **What a key tells of a message with an id**: the counts, and the model if the id is known. -/
theorem sameBill_of_dedupKey {sha256Hex : String → String} (free : Function.Injective sha256Hex)
    {adapter : String} {left right : RawUsage} {id id' : String} (isLeft : left.messageId = some id)
    (isRight : right.messageId = some id')
    (same : dedupKey sha256Hex adapter left = dedupKey sha256Hex adapter right) :
    left.inputTokens = right.inputTokens ∧ left.outputTokens = right.outputTokens ∧
      left.cacheReadTokens = right.cacheReadTokens ∧
      left.cacheCreationTokens = right.cacheCreationTokens ∧
      (id = id' → left.model.getD "" = right.model.getD "") := by
  simp only [dedupKey, isLeft, isRight] at same
  have texts := congrArg String.toList (free same)
  have colon : ":".toList = [':'] := rfl
  simp only [String.toList_append, colon] at texts
  obtain ⟨texts, cacheCreation⟩ := append_number_inj texts
  obtain ⟨texts, cacheRead⟩ := append_number_inj texts
  obtain ⟨texts, output⟩ := append_number_inj texts
  obtain ⟨texts, input⟩ := append_number_inj texts
  refine ⟨input, output, cacheRead, cacheCreation, ?_⟩
  rintro rfl
  exact String.toList_inj.mp (List.append_cancel_left texts)

def toUsageEvent (sha256Hex : String → String) (adapter : String) (r : RawUsage)
    (host : Option String) : UsageEvent where
  dedupKey := dedupKey sha256Hex adapter r
  providerKey := adapter
  userId := none
  sessionId := r.sessionId
  model := r.model
  ts := epochMsToIso r.tsMs
  inputTokens := r.inputTokens
  outputTokens := r.outputTokens
  cacheReadTokens := r.cacheReadTokens
  cacheCreationTokens := r.cacheCreationTokens
  cacheCreation1hTokens := r.cacheCreation1hTokens
  costUsd := .zero
  logAdapter := some adapter
  host := host

def toQueueInput (sha256Hex : String → String) (adapter : String) (r : RawUsage)
    (host : Option String) : QueueInput where
  event := toUsageEvent sha256Hex adapter r host
  projectId := r.project.map LocalProject.id

end Toard.Shim
