import Mathlib.Data.BitVec
import Slopdex.Library.Effects

/-!
# The framing of messages in a virtual stream

The writer puts the length in front of a message and cuts the frame into records. The decoder takes
the messages apart again; a record may end inside of a length and may hold several messages.
-/

namespace Slopdex.Relay

open List Library.Effects

abbrev Bytes := List UInt8

def maxNoiseJsonrpcMessageLen : ℕ := 64 * 1024 * 1024

def noiseRecordPlaintextLen : ℕ := 60 * 1024

def toBeBytes (n : ℕ) : Bytes := [n / 2 ^ 24, n / 2 ^ 16, n / 2 ^ 8, n].map UInt8.ofNat

def fromBeBytes (a b c d : UInt8) : ℕ :=
  ((a.toNat * 2 ^ 8 + b.toNat) * 2 ^ 8 + c.toNat) * 2 ^ 8 + d.toNat

def frameMessage (message : Bytes) : Except String Bytes :=
  if message.length = 0 ∨ maxNoiseJsonrpcMessageLen < message.length then
    .error "Noise relay JSON-RPC message exceeds maximum length"
  else .ok (toBeBytes message.length ++ message)

def chunks (framed : Bytes) : List Bytes :=
  if framed = [] then []
  else framed.take noiseRecordPlaintextLen :: chunks (framed.drop noiseRecordPlaintextLen)
termination_by framed.length
decreasing_by
  have := length_pos_iff.mpr ‹_›
  simp [noiseRecordPlaintextLen]
  omega

/-- The records of the writer, which ends at the first message without a frame -/
def records : List Bytes → List Bytes
  | [] => []
  | message :: rest =>
    match frameMessage message with
    | .error _ => []
    | .ok framed => chunks framed ++ records rest

/-- The records that get a number -/
def numberedRecords (messages : List Bytes) : List Bytes := (records messages).take (2 ^ 32 - 1)

/-- What comes after the first messages -/
def prepend (messages : List Bytes) :
    Except String (List Bytes × Bytes) → Except String (List Bytes × Bytes) :=
  Except.map fun (rest, buffered) ↦ (messages ++ rest, buffered)

/-- The loop of the decoder: the complete messages and what remains in the buffer -/
def decodeLoop : Bytes → Except String (List Bytes × Bytes)
  | a :: b :: c :: d :: rest =>
    if fromBeBytes a b c d = 0 ∨ maxNoiseJsonrpcMessageLen < fromBeBytes a b c d then
      .error "Noise relay JSON-RPC message has invalid length"
    else if rest.length < fromBeBytes a b c d then .ok ([], a :: b :: c :: d :: rest)
    else prepend [rest.take (fromBeBytes a b c d)] (decodeLoop (rest.drop (fromBeBytes a b c d)))
  | buffered => .ok ([], buffered)
termination_by buffered => buffered.length
decreasing_by
  simp only [length_drop, length_cons]
  omega

structure MessageDecoder where
  buffered : Bytes

def MessageDecoder.push (decoder : MessageDecoder) (plaintextRecord : Bytes) :
    Except String (List Bytes × MessageDecoder) :=
  if noiseRecordPlaintextLen < plaintextRecord.length then
    .error "Noise relay plaintext record exceeds maximum length"
  else do
    let (messages, buffered) ← decodeLoop (decoder.buffered ++ plaintextRecord)
    if 4 + maxNoiseJsonrpcMessageLen < buffered.length then
      .error "Noise relay JSON-RPC reassembly buffer exceeds maximum length"
    else .ok (messages, ⟨buffered⟩)

def MessageDecoder.pushAll (decoder : MessageDecoder) :
    List Bytes → Except String (List Bytes × MessageDecoder)
  | [] => .ok ([], decoder)
  | plaintextRecord :: rest => do
    let (messages, decoder) ← decoder.push plaintextRecord
    let (more, decoder) ← decoder.pushAll rest
    .ok (messages ++ more, decoder)

theorem fromBeBytes_ofNat {n : ℕ} (h : n < 2 ^ 32) :
    fromBeBytes (.ofNat (n / 2 ^ 24)) (.ofNat (n / 2 ^ 16)) (.ofNat (n / 2 ^ 8)) (.ofNat n) = n := by
  simp only [fromBeBytes, UInt8.toNat_ofNat']
  omega

variable {buffered more left message framed : Bytes} {messages : List Bytes}
  {out : Except String (List Bytes × Bytes)}

@[simp] theorem prepend_nil : prepend [] out = out := by cases out <;> rfl

@[simp] theorem prepend_prepend (first : List Bytes) :
    prepend first (prepend messages out) = prepend (first ++ messages) out := by
  cases out <;> simp [prepend, Except.map]

theorem prepend_eq_ok {first : List Bytes} (h : prepend first out = .ok (messages, left)) :
    ∃ rest, out = .ok (rest, left) ∧ messages = first ++ rest := by
  cases out with
  | error => cases h
  | ok out =>
    cases h
    exact ⟨out.1, rfl, rfl⟩

/-- What is received later does not change what was decoded, or that the decoder failed. -/
theorem decodeLoop_append (buffered more : Bytes) :
    decodeLoop (buffered ++ more) =
      decodeLoop buffered >>= fun out ↦ prepend out.1 (decodeLoop (out.2 ++ more)) := by
  fun_induction decodeLoop buffered with
  | case1 a b c d rest hlen =>
    rw [cons_append, cons_append, cons_append, cons_append, decodeLoop, if_pos hlen]
    rfl
  | case2 | case4 => exact prepend_nil.symm
  | case3 a b c d rest hlen hlong ih =>
    have hle := not_lt.mp hlong
    rw [cons_append, cons_append, cons_append, cons_append, decodeLoop, if_neg hlen,
      if_neg (by rw [length_append]; omega), drop_append_of_le_length hle,
      take_append_of_le_length hle, ih]
    cases decodeLoop (rest.drop (fromBeBytes a b c d)) with
    | error => rfl
    | ok out => exact prepend_prepend _

theorem decodeLoop_append_of_ok (h : decodeLoop buffered = .ok (messages, left)) :
    decodeLoop (buffered ++ more) = prepend messages (decodeLoop (left ++ more)) := by
  rw [decodeLoop_append, h]
  rfl

theorem decodeLoop_left (h : decodeLoop buffered = .ok (messages, left)) :
    decodeLoop left = .ok ([], left) := by
  have happend : decodeLoop (buffered ++ []) = _ := decodeLoop_append_of_ok h
  rw [append_nil, append_nil, h] at happend
  obtain ⟨rest, hleft, hrest⟩ := prepend_eq_ok happend.symm
  obtain rfl : rest = [] := by simpa using hrest
  exact hleft

theorem decodeLoop_frameMessage (h : frameMessage message = .ok framed) (more : Bytes) :
    decodeLoop (framed ++ more) = prepend [message] (decodeLoop more) := by
  unfold frameMessage at h
  split at h
  · cases h
  · next hlen =>
    cases h
    have hsmall : message.length < 2 ^ 32 := by
      simp only [maxNoiseJsonrpcMessageLen] at hlen
      omega
    simp only [toBeBytes, map_cons, map_nil, cons_append, nil_append, decodeLoop]
    rw [fromBeBytes_ofNat hsmall, if_neg hlen, if_neg (by simp), take_left, drop_left]

/-- What remains is shorter than a frame, so that the check behind the loop never fails. -/
theorem length_le_of_decodeLoop (h : decodeLoop left = .ok ([], left)) :
    left.length ≤ 4 + maxNoiseJsonrpcMessageLen := by
  match left with
  | [] | [_] | [_, _] | [_, _, _] => simp [maxNoiseJsonrpcMessageLen]
  | a :: b :: c :: d :: rest =>
    rw [decodeLoop] at h
    split_ifs at h with hlen hshort
    · simp only [length_cons]
      omega
    · obtain ⟨_, -, hnil⟩ := prepend_eq_ok h
      cases hnil

theorem decodeLoop_of_push {decoder : MessageDecoder} {plaintext : Bytes}
    {out : List Bytes × MessageDecoder} (h : decoder.push plaintext = .ok out) :
    decodeLoop (decoder.buffered ++ plaintext) = .ok (out.1, out.2.buffered) := by
  unfold MessageDecoder.push at h
  split at h
  · cases h
  · obtain ⟨_, hloop, h⟩ := bind_eq_ok_iff.mp h
    dsimp only at h
    split at h <;> cases h
    exact hloop

theorem push_eq_ok {decoder : MessageDecoder} {plaintext : Bytes}
    (hrec : plaintext.length ≤ noiseRecordPlaintextLen)
    (h : decodeLoop (decoder.buffered ++ plaintext) = .ok (messages, left)) :
    decoder.push plaintext = .ok (messages, ⟨left⟩) := by
  rw [MessageDecoder.push, if_neg hrec.not_gt, h]
  exact if_neg (length_le_of_decodeLoop (decodeLoop_left h)).not_gt

theorem pushAll_eq_ok {decoder : MessageDecoder} {records : List Bytes}
    (hrec : ∀ r ∈ records, r.length ≤ noiseRecordPlaintextLen)
    (hwait : decodeLoop decoder.buffered = .ok ([], decoder.buffered))
    (h : decodeLoop (decoder.buffered ++ records.flatten) = .ok (messages, left)) :
    decoder.pushAll records = .ok (messages, ⟨left⟩) := by
  induction records generalizing decoder messages with
  | nil =>
    rw [flatten_nil, append_nil, hwait] at h
    cases h
    rfl
  | cons plaintext records ih =>
    rw [flatten_cons, ← append_assoc, decodeLoop_append] at h
    obtain ⟨first, hfirst, h⟩ := bind_eq_ok_iff.mp h
    obtain ⟨rest, hrest, rfl⟩ := prepend_eq_ok h
    have hnext : MessageDecoder.pushAll ⟨first.2⟩ records = .ok (rest, ⟨left⟩) :=
      ih (fun r hr ↦ hrec r (mem_cons_of_mem _ hr)) (decodeLoop_left hfirst) hrest
    rw [MessageDecoder.pushAll, push_eq_ok (hrec _ mem_cons_self) hfirst]
    simp only [bind, Except.bind, hnext]

theorem flatten_chunks (framed : Bytes) : (chunks framed).flatten = framed := by
  fun_induction chunks framed with
  | case1 => rfl
  | case2 framed hne ih => rw [flatten_cons, ih, take_append_drop]

/-- What was written are the first messages, and all of them if all have a frame. -/
theorem exists_decodeLoop_records (messages : List Bytes) :
    ∃ sent, sent <+: messages ∧ decodeLoop (records messages).flatten = .ok (sent, []) ∧
      ((∀ m ∈ messages, (frameMessage m).isOk) → sent = messages) := by
  induction messages with
  | nil => exact ⟨[], nil_prefix, by rw [records, flatten_nil, decodeLoop.eq_def], fun _ ↦ rfl⟩
  | cons message messages ih =>
    obtain ⟨sent, hpre, hdecode, hall⟩ := ih
    cases hframe : frameMessage message with
    | error =>
      refine ⟨[], nil_prefix, ?_, fun hvalid ↦ ?_⟩
      · rw [records, hframe, flatten_nil, decodeLoop.eq_def]
      · have := hvalid message mem_cons_self
        rw [hframe] at this
        cases this
    | ok framed =>
      refine ⟨message :: sent, (prefix_cons_inj _).mpr hpre, ?_, fun hvalid ↦ ?_⟩
      · rw [records, hframe]
        dsimp only
        rw [flatten_append, flatten_chunks, decodeLoop_frameMessage hframe, hdecode]
        rfl
      · rw [hall fun m hm ↦ hvalid m (mem_cons_of_mem _ hm)]

/-- Whatever is decoded from the first records is the beginning of the messages. -/
theorem prefix_of_decodeLoop {decoded : List Bytes} {n : ℕ}
    (h : decodeLoop ((records messages).take n).flatten = .ok (decoded, left)) :
    decoded <+: messages := by
  obtain ⟨sent, hpre, hall, -⟩ := exists_decodeLoop_records messages
  rw [← take_append_drop n (records messages), flatten_append, decodeLoop_append_of_ok h] at hall
  obtain ⟨rest, -, rfl⟩ := prepend_eq_ok hall
  exact (prefix_append decoded rest).trans hpre

/-- The messages come back however what was written for them is cut into records. -/
theorem pushAll_records (messages cut : List Bytes) (hframe : ∀ m ∈ messages, (frameMessage m).isOk)
    (hcut : cut.flatten = (records messages).flatten)
    (hle : ∀ r ∈ cut, r.length ≤ noiseRecordPlaintextLen) :
    MessageDecoder.pushAll ⟨[]⟩ cut = .ok (messages, ⟨[]⟩) := by
  obtain ⟨_, -, hdecode, hall⟩ := exists_decodeLoop_records messages
  refine pushAll_eq_ok hle (by rw [decodeLoop.eq_def]) ?_
  rw [nil_append, hcut, hdecode, hall hframe]

theorem pushAll_records_cutInLength :
    MessageDecoder.pushAll ⟨[]⟩ [[0, 0, 0], [2, 1, 2, 0, 0], [0, 1, 3]] =
      .ok ([[1, 2], [3]], ⟨[]⟩) :=
  pushAll_records _ _ (by decide)
    (by simp [records, frameMessage, maxNoiseJsonrpcMessageLen, flatten_chunks, toBeBytes])
    (by simp [noiseRecordPlaintextLen])

end Slopdex.Relay
