import Mathlib.Data.List.Forall2

/-!
# The draft service's framing

A message travels as the size of its JSON text, four bytes big endian, and the
text. The stream of a connection is the bytes still to come; how the socket
fragments it is arbitrary.
-/

namespace VllmAscend

open List

structure PearlTransportError where
  message : String
deriving DecidableEq

/-- The JSON text of a value and back; none where Python raises. -/
structure JsonCodec (α : Type) where
  dumps : α → Option (List UInt8)
  loads : List UInt8 → Option α
  isDict : α → Bool

def maxMessageBytes : Nat := 16 * 1024 * 1024

def overLimit : PearlTransportError := ⟨"PEARL message exceeds the 16777216-byte transport limit."⟩

/-- `struct.pack("!I", n)` and its `unpack`. -/
def packSize (n : Nat) : List UInt8 := [n / 0x1000000, n / 0x10000, n / 0x100, n].map UInt8.ofNat

def unpackSize (header : List UInt8) : Nat := header.foldl (fun n b => n * 256 + b.toNat) 0

/-- `recv` returns one up to `remaining` of the bytes to come; `cut` says how many, or that it raises. -/
def receiveExact (cut : Nat → Option Nat) (chunks : List UInt8) (remaining : Nat) (bytes : List UInt8) :
    Except PearlTransportError (List UInt8 × List UInt8) :=
  if remaining = 0 then .ok (chunks, bytes)
  else match cut bytes.length with
    | none => .error ⟨"PEARL message receive failed."⟩
    | some k =>
      let chunk := bytes.take (max 1 (min remaining k))
      if chunk = [] then .error ⟨"PEARL peer closed the connection mid-message."⟩
      else receiveExact cut (chunks ++ chunk) (remaining - chunk.length) (bytes.drop chunk.length)
termination_by remaining
decreasing_by exact Nat.sub_lt (Nat.pos_of_ne_zero ‹_›) (length_pos_iff.2 ‹_›)

section
variable {α : Type} (c : JsonCodec α)

def sendMessage (message : α) : Except PearlTransportError (List UInt8) :=
  match c.dumps message with
  | none => .error ⟨"PEARL messages must be JSON serializable."⟩
  | some encoded =>
    if maxMessageBytes < encoded.length then .error overLimit else .ok (packSize encoded.length ++ encoded)

def receiveMessage (cut : Nat → Option Nat) (bytes : List UInt8) : Except PearlTransportError (α × List UInt8) := do
  let (header, bytes) ← receiveExact cut [] 4 bytes
  if maxMessageBytes < unpackSize header then throw overLimit
  let (encoded, bytes) ← receiveExact cut [] (unpackSize header) bytes
  match c.loads encoded with
  | none => throw ⟨"PEARL received malformed JSON."⟩
  | some message =>
    if c.isDict message then return (message, bytes) else throw ⟨"PEARL messages must be JSON objects."⟩

def receiveMessages (cut : Nat → Option Nat) : Nat → List UInt8 → Except PearlTransportError (List α × List UInt8)
  | 0, bytes => return ([], bytes)
  | n + 1, bytes => do
    let (message, bytes) ← receiveMessage c cut bytes
    let (messages, bytes) ← receiveMessages cut n bytes
    return (message :: messages, bytes)

/-- The stream ends inside the frame it is at, or the frame is announced as over the limit. -/
def BadFrame (bytes : List UInt8) : Prop :=
  bytes.length < 4 ∨ maxMessageBytes < unpackSize (bytes.take 4) ∨ bytes.length < 4 + unpackSize (bytes.take 4)

-- the loop's invariant: what was read and what is to come make up the stream
theorem receiveExact_spec (cut : Nat → Option Nat) (chunks : List UInt8) (n : Nat) (bytes : List UInt8) :
    (n ≤ bytes.length ∧ receiveExact cut chunks n bytes = .ok (chunks ++ bytes.take n, bytes.drop n)) ∨
      (((∃ k, cut k = none) ∨ bytes.length < n) ∧ ∃ e, receiveExact cut chunks n bytes = .error e) := by
  fun_induction receiveExact cut chunks n bytes with
  | case1 => simp
  | case2 chunks n bytes hn hc => exact .inr ⟨.inl ⟨_, hc⟩, _, rfl⟩
  | case3 chunks n bytes hn k hc chunk he =>
    have : bytes = [] := (take_eq_nil_iff.1 he).resolve_left (by omega)
    exact .inr ⟨.inr (by simp [this]; omega), _, rfl⟩
  | case4 chunks n bytes hn k hc chunk he ih =>
    have hl : chunk.length = min (max 1 (min n k)) bytes.length := length_take
    have hb : bytes.take chunk.length = chunk := by rw [hl, ← take_take, take_length]
    have hp := length_pos_iff.2 he
    have hm : chunk.length + (n - chunk.length) = n := by omega
    rw [length_drop, drop_drop, hm, append_assoc] at ih
    have ht := take_add (l := bytes) (i := chunk.length) (j := n - chunk.length)
    rw [hm, hb] at ht
    rw [ht]
    exact ih.imp (And.imp_left (by omega)) (And.imp_left (Or.imp_right (by omega)))

theorem receiveExact_total (cut : Nat → Nat) (data rest : List UInt8) :
    receiveExact (some ∘ cut) [] data.length (data ++ rest) = .ok (data, rest) := by
  rcases receiveExact_spec (some ∘ cut) [] data.length (data ++ rest) with ⟨-, h⟩ | ⟨⟨k, hk⟩ | hl, -⟩
  · simpa using h
  · cases hk
  · rw [length_append] at hl; omega

theorem unpackSize_packSize (h : n ≤ maxMessageBytes) : unpackSize (packSize n) = n := by
  simp only [maxMessageBytes] at h
  simp [packSize, unpackSize]
  omega

theorem receiveMessage_frame (hd : c.isDict m)
    (hj : ∀ encoded, c.dumps m = some encoded → c.loads encoded = some m) (hs : sendMessage c m = .ok frame)
    (cut : Nat → Nat) (rest : List UInt8) : receiveMessage c (some ∘ cut) (frame ++ rest) = .ok (m, rest) := by
  unfold sendMessage at hs
  split at hs
  · cases hs
  rename_i encoded he
  split at hs
  · cases hs
  cases hs
  have hu : unpackSize (packSize encoded.length) = encoded.length := unpackSize_packSize (by omega)
  have hh := receiveExact_total cut (packSize encoded.length) (encoded ++ rest)
  rw [show (packSize encoded.length).length = 4 from rfl] at hh
  simp [receiveMessage, *, receiveExact_total, bind, Except.bind, pure, Except.pure]

theorem receiveMessage_error (cut : Nat → Option Nat) (h : BadFrame bytes) :
    ∃ e, receiveMessage c cut bytes = .error e := by
  unfold receiveMessage
  rcases receiveExact_spec cut [] 4 bytes with ⟨hl, ho⟩ | ⟨-, e, he⟩
  · simp only [ho, nil_append, bind, Except.bind]
    split
    · exact ⟨_, rfl⟩
    rcases receiveExact_spec cut [] (unpackSize (bytes.take 4)) (bytes.drop 4) with ⟨hb, -⟩ | ⟨-, e, he⟩
    · rw [length_drop] at hb
      unfold BadFrame at h
      omega
    · exact ⟨e, by rw [he]⟩
  · exact ⟨e, by rw [he]; rfl⟩

theorem framing_sound (hj : ∀ m encoded, c.dumps m = some encoded → c.loads encoded = some m) :
    (∀ (cut : Nat → Nat) (messages : List α) (frames : List (List UInt8)) (rest : List UInt8),
      (∀ m ∈ messages, c.isDict m) → Forall₂ (fun m frame => sendMessage c m = .ok frame) messages frames →
      receiveMessages c (some ∘ cut) messages.length (frames.flatten ++ rest) = .ok (messages, rest)) ∧
    ∀ cut bytes, BadFrame bytes → ∃ e, receiveMessage c cut bytes = .error e := by
  refine ⟨fun cut messages frames rest hd hs => ?_, fun cut bytes => receiveMessage_error c cut⟩
  induction hs with
  | nil => rfl
  | cons hs _ ih =>
    rw [forall_mem_cons] at hd
    simp [receiveMessages, receiveMessage_frame c hd.1 (hj _) hs, ih hd.2, bind, Except.bind, pure, Except.pure]

end

/-- Two messages in pieces of one byte, and a header that announces a message over the limit. -/
theorem framing_sound_bytes :
    let codec : JsonCodec (List UInt8) := ⟨some, some, fun _ => true⟩
    receiveMessages codec (some ∘ fun _ => 1) 2 [0, 0, 0, 1, 7, 0, 0, 0, 0] = .ok ([[7], []], []) ∧
      BadFrame [255, 0, 0, 0, 7] ∧ ∃ e, receiveMessage codec (some ∘ fun _ => 1) [255, 0, 0, 0, 7] = .error e :=
  have h := framing_sound ⟨some, some, fun _ => true⟩ fun _ _ h => h.symm
  have hbad : BadFrame [255, 0, 0, 0, 7] := .inr (.inl (by decide))
  ⟨h.1 (fun _ => 1) [[7], []] [[0, 0, 0, 1, 7], [0, 0, 0, 0]] [] (fun _ _ => rfl) (.cons rfl (.cons rfl .nil)), hbad,
    h.2 _ _ hbad⟩

end VllmAscend
