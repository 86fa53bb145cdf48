import Mathlib.Data.List.Basic

/-! Streams of messages, each behind its length. How a length is written is a
parameter: a header of fixed width that can be read back below a bound. -/
namespace Framing

structure LengthPrefix (α : Type*) where
  width : Nat
  bound : Nat
  write : Nat → List α
  read : List α → Nat
  width_pos : 0 < width
  length_write : ∀ n, (write n).length = width
  read_write : ∀ n, n < bound → read (write n) = n
  read_lt : ∀ bytes, bytes.length = width → read bytes < bound
  write_read : ∀ bytes, bytes.length = width → write (read bytes) = bytes

variable {α : Type*} (header : LengthPrefix α)

def frame (message : List α) : List α := header.write message.length ++ message

/-- The first message of a stream and the rest, once both its length and all
of it are there. -/
def next (stream : List α) : Option (List α × List α) :=
  if stream.length < header.width then none
  else
    let length := header.read (stream.take header.width)
    let body := stream.drop header.width
    if body.length < length then none else some (body.take length, body.drop length)

/-- Read at most `fuel` messages. -/
def parseFuel : Nat → List α → List (List α) × List α
  | 0, stream => ([], stream)
  | fuel + 1, stream =>
      match next header stream with
      | none => ([], stream)
      | some (message, rest) =>
          let (messages, left) := parseFuel fuel rest
          (message :: messages, left)

/-- Read message after message; what is left is no whole message. -/
def parse (stream : List α) : List (List α) × List α := parseFuel header stream.length stream

variable {header}

theorem next_frame {message : List α} (rest : List α) (hFits : message.length < header.bound) :
    next header (frame header message ++ rest) = some (message, rest) := by
  have hWidth := header.length_write message.length
  have hTake : (frame header message ++ rest).take header.width = header.write message.length := by
    rw [frame, List.append_assoc, List.take_append_of_le_length (by omega), ← hWidth,
      List.take_length]
  have hDrop : (frame header message ++ rest).drop header.width = message ++ rest := by
    rw [frame, List.append_assoc, ← hWidth, List.drop_left]
  have hLong : ¬ (frame header message ++ rest).length < header.width := by
    simp only [frame, List.length_append]
    omega
  rw [next, if_neg hLong]
  simp only [hTake, hDrop, header.read_write _ hFits]
  rw [if_neg (by simp), List.take_left, List.drop_left]

/-- What is read off a stream is a frame in front of the rest. -/
theorem stream_of_next {stream message rest : List α}
    (hNext : next header stream = some (message, rest)) :
    stream = frame header message ++ rest ∧ message.length < header.bound := by
  unfold next at hNext
  split at hNext
  case isTrue => simp at hNext
  case isFalse hLong =>
      dsimp only at hNext
      split at hNext
      case isTrue => simp at hNext
      case isFalse hWhole =>
          obtain ⟨rfl, rfl⟩ := Prod.mk.inj (Option.some.inj hNext)
          have hWidth : (stream.take header.width).length = header.width := by
            rw [List.length_take]
            omega
          have hLength : ((stream.drop header.width).take
              (header.read (stream.take header.width))).length =
              header.read (stream.take header.width) := by
            rw [List.length_take]
            omega
          refine ⟨?_, ?_⟩
          · rw [frame, hLength, header.write_read _ hWidth, List.append_assoc, List.take_append_drop,
              List.take_append_drop]
          · rw [hLength]
            exact header.read_lt _ hWidth

theorem parseFuel_frames {messages : List (List α)} {rest : List α}
    (hFits : ∀ message ∈ messages, message.length < header.bound)
    (hRest : next header rest = none) {fuel : Nat} (hFuel : messages.length ≤ fuel) :
    parseFuel header fuel (messages.flatMap (frame header) ++ rest) = (messages, rest) := by
  induction messages generalizing fuel with
  | nil =>
      rw [List.flatMap_nil, List.nil_append]
      cases fuel with
      | zero => rfl
      | succ fuel => simp only [parseFuel, hRest]
  | cons message more ih =>
      cases fuel with
      | zero => simp at hFuel
      | succ fuel =>
          have hMore := ih (fun m hMem => hFits m (List.mem_cons_of_mem _ hMem))
            (Nat.le_of_succ_le_succ hFuel)
          rw [List.flatMap_cons, List.append_assoc]
          simp only [parseFuel, next_frame _ (hFits message List.mem_cons_self), hMore]

theorem length_le_frames (messages : List (List α)) :
    messages.length ≤ (messages.flatMap (frame header)).length := by
  induction messages with
  | nil => exact Nat.le_refl _
  | cons message more ih =>
      have hWidth := header.length_write message.length
      have hPos := header.width_pos
      rw [List.flatMap_cons, List.length_append, List.length_cons]
      have hFrame : (frame header message).length = header.width + message.length := by
        rw [frame, List.length_append, hWidth]
      omega

/-- Framed messages are read back one by one, up to an incomplete one. -/
theorem parse_frames {messages : List (List α)} {rest : List α}
    (hFits : ∀ message ∈ messages, message.length < header.bound)
    (hRest : next header rest = none) :
    parse header (messages.flatMap (frame header) ++ rest) = (messages, rest) := by
  apply parseFuel_frames hFits hRest
  have hLength := @length_le_frames α header messages
  rw [List.length_append]
  omega

theorem next_nil : next header [] = none := by
  rw [next, if_pos (by simpa using header.width_pos)]

end Framing
