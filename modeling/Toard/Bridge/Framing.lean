/-
**The frame of a request to the local bridge (`local_bridge.rs`).**

A request is read in chunks, as the network cuts the stream: first up to the blank line, then as many
bytes as the head declares. What is behind them is in the buffer or not, as the chunks are cut.

* **`framing_iff`**: the result is the same for every cut if and only if nothing is behind the request.
-/

import Toard.Bridge.LocalBridge
import Toard.Shim.CodexConfig
import Toard.Shim.PromptRecord
import Toard.Shim.Transcript

namespace Toard.Bridge

open Toard.Shim (isWhiteSpace)
open Toard.Shim.Claude (splitOnce)
open Toard.Shim.Codex (strLines)

def MAX_REQUEST_BYTES : Nat := 32 * 1024

def CHUNK_BYTES : Nat := 2048

/-! ### The head -/

/-- `str::parse::<usize>` -/
def parseUsize (text : List Char) : Option Nat :=
  let digits := if text.head? = some '+' then text.tail else text
  if digits ≠ [] ∧ digits.all Char.isDigit then
    some (Nat.ofDigitChars 10 digits 0) |>.filter (· < 2 ^ 64)
  else none

def insertHeader (headers : List (String × String)) (line : List Char) :
    Option (List (String × String)) := do
  let (name, value) ← splitOnce [':'] line
  let name := String.ofList ((Shim.trim name).map Char.toLower)
  if (headers.lookup name).isSome then none
  else some (headers ++ [(name, String.ofList (Shim.trim value))])

def contentLength (headers : List (String × String)) : Option Nat :=
  match headers.lookup "content-length" with
  | none => some 0
  | some value => parseUsize value.toList

structure Head where
  method : String
  path : String
  headers : List (String × String)
  length : Nat
  declared : contentLength headers = some length

def parseHead (bytes : List UInt8) : Option Head := do
  let text ← String.fromUTF8? ⟨bytes.toArray⟩
  match strLines (text.toList.rdropWhile isWhiteSpace) with
  | [] => none
  | requestLine :: lines =>
    match (requestLine.splitOnP isWhiteSpace).filter (· ≠ []) with
    | method :: path :: version :: _ =>
      if version = "HTTP/1.1".toList ∨ version = "HTTP/1.0".toList then
        let headers ← lines.foldlM insertHeader []
        if (headers.lookup "transfer-encoding").isSome then none
        else
          match declared : contentLength headers with
          | none => none
          | some length => some ⟨String.ofList method, String.ofList path, headers, length, declared⟩
      else none
    | _ => none

/-! ### Reading -/

def BLANK_LINE : List UInt8 := [13, 10, 13, 10]

def headEnd : List UInt8 → Option Nat
  | [] => none
  | byte :: rest =>
    if BLANK_LINE.isPrefixOf (byte :: rest) then some 4 else (headEnd rest).map (· + 1)

/-- The first loop: what was read, the end of the head in it, and the chunks to come. -/
def readHead (bytes : List UInt8) : List (List UInt8) → Option (List UInt8 × Nat × List (List UInt8))
  | [] => none
  | chunk :: rest =>
    if MAX_REQUEST_BYTES < (bytes ++ chunk).length then none
    else
      match headEnd (bytes ++ chunk) with
      | some split => some (bytes ++ chunk, split, rest)
      | none => readHead (bytes ++ chunk) rest

def readBody (total : Nat) (bytes : List UInt8) : List (List UInt8) → Option (List UInt8)
  | [] => if bytes.length < total then none else some bytes
  | chunk :: rest => if bytes.length < total then readBody total (bytes ++ chunk) rest else some bytes

def finish (split : Nat) (head : Head) (bytes : List UInt8) : Option Request :=
  if bytes.length ≠ split + head.length then none
  else some ⟨head.method, head.path, head.headers, bytes.drop split⟩

/-- `read_request`; a read past the chunks ends or fails, and the request is refused. -/
def readRequest (chunks : List (List UInt8)) : Option Request := do
  let (bytes, split, rest) ← readHead [] chunks
  let head ← parseHead (bytes.take split)
  if MAX_REQUEST_BYTES < split + head.length then none
  else
    let bytes ← readBody (split + head.length) bytes rest
    finish split head bytes

def IsCut (stream : List UInt8) (chunks : List (List UInt8)) : Prop :=
  chunks.flatten = stream ∧ ∀ chunk ∈ chunks, chunk ≠ [] ∧ chunk.length ≤ CHUNK_BYTES

def NothingBehind (stream : List UInt8) : Prop :=
  ∀ split head, headEnd stream = some split → parseHead (stream.take split) = some head →
    split + head.length ≤ MAX_REQUEST_BYTES → stream.length ≤ split + head.length

/-! ### The end of the head -/

theorem four_le_headEnd {bytes : List UInt8} {split : Nat} (found : headEnd bytes = some split) :
    4 ≤ split ∧ split ≤ bytes.length := by
  induction bytes generalizing split with
  | nil => cases found
  | cons byte rest ih =>
    rw [headEnd] at found
    split at found
    case isTrue starts =>
      cases found
      exact ⟨le_rfl, (List.isPrefixOf_iff_prefix.mp starts).length_le⟩
    case isFalse =>
      obtain ⟨later, isLater, rfl⟩ := Option.map_eq_some_iff.mp found
      obtain ⟨low, high⟩ := ih isLater
      exact ⟨by omega, by rw [List.length_cons]; omega⟩

theorem isPrefixOf_append {bytes : List UInt8} (long : 4 ≤ bytes.length) (more : List UInt8) :
    BLANK_LINE.isPrefixOf (bytes ++ more) = BLANK_LINE.isPrefixOf bytes := by
  rw [Bool.eq_iff_iff, List.isPrefixOf_iff_prefix, List.isPrefixOf_iff_prefix]
  exact ⟨fun starts => List.prefix_of_prefix_length_le starts (List.prefix_append ..) long,
    fun starts => starts.trans (List.prefix_append ..)⟩

theorem headEnd_append {bytes : List UInt8} {split : Nat} (found : headEnd bytes = some split)
    (more : List UInt8) : headEnd (bytes ++ more) = some split := by
  induction bytes generalizing split with
  | nil => cases found
  | cons byte rest ih =>
    have long := (four_le_headEnd found).1.trans (four_le_headEnd found).2
    rw [headEnd] at found
    rw [List.cons_append, headEnd, ← List.cons_append, isPrefixOf_append long]
    split at found
    case isTrue starts => rw [if_pos starts]; exact found
    case isFalse other =>
      obtain ⟨later, isLater, rfl⟩ := Option.map_eq_some_iff.mp found
      rw [if_neg other, ih isLater]
      rfl

theorem headEnd_of_append {bytes more : List UInt8} {split : Nat}
    (found : headEnd (bytes ++ more) = some split) (enough : split ≤ bytes.length) :
    headEnd bytes = some split := by
  induction bytes generalizing split with
  | nil => exact absurd ((four_le_headEnd found).1.trans enough) (by decide)
  | cons byte rest ih =>
    have long := (four_le_headEnd found).1.trans enough
    rw [List.cons_append, headEnd, ← List.cons_append, isPrefixOf_append long] at found
    rw [headEnd]
    split at found
    case isTrue starts => rw [if_pos starts]; exact found
    case isFalse other =>
      obtain ⟨later, isLater, rfl⟩ := Option.map_eq_some_iff.mp found
      rw [if_neg other, ih isLater (Nat.le_of_succ_le_succ enough)]
      rfl

/-! ### The two loops -/

section Loops

variable {stream bytes : List UInt8} {chunks : List (List UInt8)} {split : Nat}

theorem readHead_spec {read : List UInt8} {rest : List (List UInt8)}
    (isStream : bytes ++ chunks.flatten = stream) (done : readHead bytes chunks = some (read, split, rest)) :
    headEnd stream = some split ∧ read.take split = stream.take split := by
  induction chunks generalizing bytes with
  | nil => cases done
  | cons chunk later ih =>
    rw [List.flatten_cons, ← List.append_assoc] at isStream
    rw [readHead] at done
    split at done
    case isTrue => cases done
    case isFalse =>
      split at done
      case h_1 place found =>
        cases done
        rw [← isStream, List.take_append_of_le_length (four_le_headEnd found).2]
        exact ⟨headEnd_append found _, rfl⟩
      case h_2 => exact ih isStream done

theorem readBody_stop {total : Nat} (enough : total ≤ bytes.length) (chunks : List (List UInt8)) :
    readBody total bytes chunks = some bytes := by
  cases chunks <;> exact if_neg (not_lt.mpr enough)

theorem readBody_append {total : Nat} {front : List (List UInt8)} (back : List (List UInt8))
    (fits : (bytes ++ front.flatten).length ≤ total) :
    readBody total bytes (front ++ back) = readBody total (bytes ++ front.flatten) back := by
  induction front generalizing bytes with
  | nil => rw [List.flatten_nil, List.append_nil, List.nil_append]
  | cons chunk later ih =>
    rw [List.flatten_cons, ← List.append_assoc] at fits ⊢
    rw [List.cons_append, readBody]
    split
    case isTrue => exact ih fits
    case isFalse enough =>
      have none : bytes ++ chunk ++ later.flatten = bytes := by
        have size := fits.trans (not_lt.mp enough)
        rw [List.append_assoc, List.length_append] at size
        rw [List.append_assoc, List.length_eq_zero_iff.mp (by omega : (chunk ++ later.flatten).length = 0),
          List.append_nil]
      rw [none, readBody_stop (not_lt.mp enough)]

/-- **A stream with a head**: reading stops at the first chunk that has the declared bytes. -/
theorem readRequest_eq {head : Head} (isStream : chunks.flatten = stream)
    (found : headEnd stream = some split) (isHead : parseHead (stream.take split) = some head)
    (fits : split + head.length ≤ MAX_REQUEST_BYTES) :
    readRequest chunks = (readBody (split + head.length) [] chunks).bind (finish split head) := by
  have loops : ∀ bytes, bytes ++ chunks.flatten = stream → bytes.length < split →
      ((readHead bytes chunks).bind fun (bytes, split, rest) => (parseHead (bytes.take split)).bind
        fun head => if MAX_REQUEST_BYTES < split + head.length then none
          else (readBody (split + head.length) bytes rest).bind (finish split head))
      = (readBody (split + head.length) bytes chunks).bind (finish split head) := by
    clear isStream
    induction chunks with
    | nil =>
      intro bytes _ short
      rw [readBody, if_pos (by omega)]
      rfl
    | cons chunk later ih =>
      intro bytes isStream short
      rw [List.flatten_cons, ← List.append_assoc] at isStream
      have goesOn : readBody (split + head.length) bytes (chunk :: later)
          = readBody (split + head.length) (bytes ++ chunk) later := by
        rw [readBody, if_pos (by omega)]
      rw [goesOn, readHead]
      by_cases long : MAX_REQUEST_BYTES < (bytes ++ chunk).length
      · have size : split + head.length < (bytes ++ chunk).length := by omega
        rw [if_pos long, readBody_stop size.le, Option.bind_some, finish, if_pos (by omega)]
        rfl
      · rw [if_neg long]
        cases isPlace : headEnd (bytes ++ chunk) with
        | some place =>
          obtain rfl := Option.some.inj (found.symm.trans (isStream ▸ headEnd_append isPlace _))
          have sameHead : (bytes ++ chunk).take split = stream.take split := by
            rw [← isStream, List.take_append_of_le_length (four_le_headEnd isPlace).2]
          rw [Option.bind_some]
          dsimp only
          rw [sameHead, isHead, Option.bind_some, if_neg (by omega)]
        | none =>
          refine ih _ isStream (not_le.mp fun enough => ?_)
          rw [← isStream] at found
          rw [headEnd_of_append found enough] at isPlace
          cases isPlace
  exact loops [] isStream (by have := (four_le_headEnd found).1; rw [List.length_nil]; omega)

theorem of_readRequest {request : Request} (isStream : chunks.flatten = stream)
    (accepted : readRequest chunks = some request) :
    contentLength request.headers = some request.body.length ∧
      ∃ split head, headEnd stream = some split ∧ parseHead (stream.take split) = some head ∧
        split + head.length ≤ MAX_REQUEST_BYTES := by
  obtain ⟨⟨bytes, split, rest⟩, isRead, accepted⟩ := Option.bind_eq_some_iff.mp accepted
  obtain ⟨head, isHead, accepted⟩ := Option.bind_eq_some_iff.mp accepted
  obtain ⟨found, same⟩ := readHead_spec isStream isRead
  by_cases long : MAX_REQUEST_BYTES < split + head.length
  · rw [if_pos long] at accepted
    cases accepted
  · rw [if_neg long] at accepted
    obtain ⟨read, -, finished⟩ := Option.bind_eq_some_iff.mp accepted
    rw [finish] at finished
    by_cases exact : read.length ≠ split + head.length
    · rw [if_pos exact] at finished
      cases finished
    · rw [if_neg exact] at finished
      cases finished
      have size : (read.drop split).length = head.length := by
        rw [List.length_drop]
        omega
      exact ⟨size ▸ head.declared, split, head, found, same ▸ isHead, not_lt.mp long⟩

end Loops

/-! ### Cuts -/

theorem flatten_bytes (bytes : List UInt8) : (bytes.map fun byte => [byte]).flatten = bytes := by
  induction bytes with
  | nil => rfl
  | cons byte rest ih => rw [List.map_cons, List.flatten_cons, ih, List.singleton_append]

theorem isCut_map (stream : List UInt8) : IsCut stream (stream.map fun byte => [byte]) := by
  refine ⟨flatten_bytes stream, fun chunk among => ?_⟩
  obtain ⟨byte, -, rfl⟩ := List.mem_map.mp among
  exact ⟨List.cons_ne_nil _ _, show 1 ≤ CHUNK_BYTES by decide⟩

def pairedCut (stream : List UInt8) (place : Nat) : List (List UInt8) :=
  ((stream.take place).map fun byte => [byte]) ++ (stream.drop place).take 2 ::
    ((stream.drop place).drop 2).map fun byte => [byte]

theorem isCut_pairedCut {stream : List UInt8} {place : Nat} (inside : place < stream.length) :
    IsCut stream (pairedCut stream place) := by
  constructor
  · rw [pairedCut, List.flatten_append, flatten_bytes, List.flatten_cons, flatten_bytes,
      List.take_append_drop, List.take_append_drop]
  · intro chunk among
    rcases List.mem_append.mp among with front | back
    · exact (isCut_map (stream.take place)).2 chunk front
    · rcases List.mem_cons.mp back with rfl | later
      · have size : ((stream.drop place).take 2).length = min 2 (stream.length - place) := by
          rw [List.length_take, List.length_drop]
        refine ⟨fun empty => ?_, ?_⟩
        · rw [empty, List.length_nil] at size
          omega
        · rw [size]
          exact (Nat.min_le_left ..).trans (by decide)
      · exact (isCut_map ((stream.drop place).drop 2)).2 chunk later

/-- **The frame of a request does not depend on the chunks** that it is read in, exactly if no byte is
behind it; the body has the declared length in any case. -/
theorem framing_iff (stream : List UInt8) :
    ((∀ chunks chunks', IsCut stream chunks → IsCut stream chunks' →
        readRequest chunks = readRequest chunks') ∧
      ∀ chunks request, IsCut stream chunks → readRequest chunks = some request →
        contentLength request.headers = some request.body.length) ↔ NothingBehind stream := by
  constructor
  · rintro ⟨same, -⟩ split head found isHead fits
    by_contra behind
    have total := (four_le_headEnd found).1
    have single : readRequest (stream.map fun byte => [byte])
        = finish split head (stream.take (split + head.length)) := by
      have parts : (stream.map fun byte => [byte])
          = ((stream.take (split + head.length)).map fun byte => [byte]) ++
            (stream.drop (split + head.length)).map fun byte => [byte] := by
        rw [← List.map_append, List.take_append_drop]
      rw [readRequest_eq (isCut_map stream).1 found isHead fits, parts,
        readBody_append _ (by rw [List.nil_append, flatten_bytes]; exact List.length_take_le ..),
        List.nil_append, flatten_bytes, readBody_stop (by rw [List.length_take]; omega), Option.bind_some]
    have cut := @isCut_pairedCut stream (split + head.length - 1) (by omega)
    have paired : readRequest (pairedCut stream (split + head.length - 1)) = none := by
      have front : (stream.take (split + head.length - 1)).length = split + head.length - 1 := by
        rw [List.length_take]
        omega
      have more : (stream.take (split + head.length - 1) ++
          (stream.drop (split + head.length - 1)).take 2).length = split + head.length + 1 := by
        rw [List.length_append, front, List.length_take, List.length_drop]
        omega
      rw [readRequest_eq cut.1 found isHead fits, pairedCut,
        readBody_append _ (by rw [List.nil_append, flatten_bytes, front]; omega), List.nil_append,
        flatten_bytes, readBody, if_pos (by rw [front]; omega), readBody_stop (by rw [more]; omega),
        Option.bind_some, finish, if_pos (by rw [more]; omega)]
    have result := same _ _ (isCut_map stream) cut
    rw [single, paired, finish, if_neg (by rw [List.length_take]; omega)] at result
    cases result
  · intro nothing
    refine ⟨fun chunks chunks' cut cut' => ?_, fun chunks request cut accepted =>
      (of_readRequest cut.1 accepted).1⟩
    by_cases good : ∃ split head, headEnd stream = some split ∧
        parseHead (stream.take split) = some head ∧ split + head.length ≤ MAX_REQUEST_BYTES
    · obtain ⟨split, head, found, isHead, fits⟩ := good
      have whole : ∀ chunks, IsCut stream chunks →
          readBody (split + head.length) [] chunks = readBody (split + head.length) stream [] := by
        intro chunks cut
        have all := @readBody_append [] (split + head.length) chunks []
          (by rw [cut.1]; exact nothing split head found isHead fits)
        rwa [List.append_nil, cut.1] at all
      rw [readRequest_eq cut.1 found isHead fits, readRequest_eq cut'.1 found isHead fits,
        whole chunks cut, whole chunks' cut']
    · have refused : ∀ chunks, IsCut stream chunks → readRequest chunks = none := fun chunks cut =>
        Option.eq_none_iff_forall_ne_some.mpr fun request accepted =>
          good (of_readRequest cut.1 accepted).2
      rw [refused chunks cut, refused chunks' cut']

def plainHead : List UInt8 := Shim.PromptRecord.utf8Bytes "GET / HTTP/1.1\r\n\r\n"

def plainRequest : Head where
  method := "GET"
  path := "/"
  headers := []
  length := 0
  declared := rfl

theorem parseHead_plainHead : parseHead plainHead = some plainRequest := by
  rw [parseHead, plainHead, Shim.PromptRecord.fromUTF8?_utf8Bytes]
  rfl

/-- A request with one byte behind it is taken, if that byte comes later. -/
theorem frame_depends_on_cut : ¬ ∀ stream chunks chunks', IsCut stream chunks → IsCut stream chunks' →
    readRequest chunks = readRequest chunks' := by
  intro claim
  have found : headEnd (plainHead ++ [88]) = some 18 := by decide
  have front : (plainHead ++ [88]).take 18 = plainHead := by decide
  have isHead : parseHead ((plainHead ++ [88]).take 18) = some plainRequest := by
    rw [front]
    exact parseHead_plainHead
  have cut : IsCut (plainHead ++ [88]) [plainHead ++ [88]] := by
    constructor <;> decide
  have later : IsCut (plainHead ++ [88]) [plainHead, [88]] := by
    constructor <;> decide
  have same := claim _ _ _ cut later
  rw [readRequest_eq cut.1 found isHead (by decide), readRequest_eq later.1 found isHead (by decide)] at same
  have whole : readBody (18 + plainRequest.length) [] [plainHead ++ [88]] = some (plainHead ++ [88]) := by
    decide
  have parted : readBody (18 + plainRequest.length) [] [plainHead, [88]] = some plainHead := by decide
  rw [whole, parted] at same
  exact absurd same (by decide)

end Toard.Bridge
