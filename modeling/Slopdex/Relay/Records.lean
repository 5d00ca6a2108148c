import Slopdex.Library.KeyedMap
import Slopdex.Relay.Framing

/-!
# The records of a virtual stream

Each record is encrypted with the next nonce and numbered. The relay may drop, repeat, reorder and
invent records; the receiver puts them in order, decrypts them and takes the messages apart. Of the
cipher it is assumed that what is decrypted with a nonce was encrypted with it.
-/

namespace Slopdex.Relay

open List Library.KeyedMap Library.Effects

def maxReorderDistance : ℕ := 64

def maxPendingBytes : ℕ := 1024 * 1024

structure OrderedCiphertextFrames where
  nextSeq : ℕ
  pending : Map ℕ Bytes
  pendingBytes : ℕ

namespace OrderedCiphertextFrames

/-- `payload` has the next number; the loop goes on with what follows it without a gap. -/
def release (frames : OrderedCiphertextFrames) (payload : Bytes) :
    Except String (List Bytes × OrderedCiphertextFrames) :=
  if frames.nextSeq = 2 ^ 32 - 1 then .error "Noise relay sequence number exhausted"
  else match _h : frames.pending.lookup (frames.nextSeq + 1) with
    | none => .ok ([payload], { frames with nextSeq := frames.nextSeq + 1 })
    | some following => do
      let (ready, frames) ← release ⟨frames.nextSeq + 1, frames.pending.erase (frames.nextSeq + 1),
        frames.pendingBytes - following.length⟩ following
      .ok (payload :: ready, frames)
termination_by size frames.pending
decreasing_by
  obtain ⟨before, after, hsplit, herase⟩ := exists_entries_of_lookup _h
  simp [size, hsplit, herase]

def push (frames : OrderedCiphertextFrames) (seq : ℕ) (payload : Bytes) :
    Except String (List Bytes × OrderedCiphertextFrames) :=
  if seq < frames.nextSeq ∨ seq ∈ frames.pending then .ok ([], frames)
  else if frames.nextSeq < seq then
    if maxReorderDistance < seq - frames.nextSeq then
      .error "Noise relay ciphertext exceeds reorder window"
    else if maxPendingBytes < frames.pendingBytes + payload.length then
      .error "Noise relay pending ciphertext buffer is full"
    else .ok ([], { frames with
      pending := frames.pending.insert seq payload
      pendingBytes := frames.pendingBytes + payload.length })
  else frames.release payload

def pushAll (frames : OrderedCiphertextFrames) :
    List (ℕ × Bytes) → Except String (List Bytes × OrderedCiphertextFrames)
  | [] => .ok ([], frames)
  | (seq, payload) :: rest => do
    let (ready, frames) ← frames.push seq payload
    let (more, frames) ← frames.pushAll rest
    .ok (ready ++ more, frames)

def pendingLength (pending : Map ℕ Bytes) : ℕ := (pending.entries.map (·.2.length)).sum

/-- What was released and what waits are the first records of their numbers. -/
structure Ordered (records : List (ℕ × Bytes)) (released : List Bytes)
    (frames : OrderedCiphertextFrames) : Prop where
  length : released.length = frames.nextSeq
  front : ∀ i < frames.nextSeq, released[i]? = records.lookup i
  waiting : ∀ seq, frames.pending.lookup seq =
    if frames.nextSeq < seq then records.lookup seq else none
  window : ∀ seq ∈ frames.pending, seq ≤ frames.nextSeq + maxReorderDistance
  bytes : frames.pendingBytes = pendingLength frames.pending
  room : frames.pendingBytes ≤ maxPendingBytes

variable {records relayed : List (ℕ × Bytes)} {released ready : List Bytes} {payload : Bytes}
  {seq : ℕ} {frames frames' : OrderedCiphertextFrames}

namespace Ordered

theorem advance {pending : Map ℕ Bytes} {bytes : ℕ} (h : Ordered records released frames)
    (hpayload : records.lookup frames.nextSeq = some payload)
    (hpending : ∀ seq, pending.lookup seq =
      if seq = frames.nextSeq + 1 then none else frames.pending.lookup seq)
    (hbytes : bytes = pendingLength pending) (hle : bytes ≤ frames.pendingBytes) :
    Ordered records (released ++ [payload]) ⟨frames.nextSeq + 1, pending, bytes⟩ := by
  refine ⟨by simp [h.length], fun i hi ↦ ?_, fun seq ↦ ?_, fun seq hseq ↦ ?_, hbytes,
    hle.trans h.room⟩
  · rcases Nat.lt_succ_iff_lt_or_eq.mp hi with hlt | rfl
    · rw [getElem?_append_left (h.length ▸ hlt), h.front i hlt]
    · rw [← h.length, getElem?_concat_length, h.length, hpayload]
  · rw [hpending, h.waiting]
    split_ifs <;> first | rfl | (dsimp only at *; omega)
  · rw [← AList.lookup_isSome, hpending] at hseq
    split at hseq
    · cases hseq
    · exact (h.window seq (AList.lookup_isSome.mp hseq)).trans (by simp)

theorem release (h : Ordered records released frames)
    (hpayload : records.lookup frames.nextSeq = some payload)
    (hout : frames.release payload = .ok (ready, frames')) :
    Ordered records (released ++ ready) frames' ∧ records.lookup frames'.nextSeq = none := by
  fun_induction frames.release payload generalizing released ready frames' with
  | case1 => cases hout
  | case2 frames payload hmax hnone =>
    cases hout
    refine ⟨h.advance hpayload (fun seq ↦ ?_) h.bytes le_rfl, ?_⟩
    · split
      · next heq => rw [heq, hnone]
      · rfl
    · simpa [hnone] using (h.waiting (frames.nextSeq + 1)).symm
  | case3 frames payload hmax following hsome ih =>
    obtain ⟨out, hrest, hout⟩ := bind_eq_ok_iff.mp hout
    cases hout
    obtain ⟨before, after, hsplit, herase⟩ := exists_entries_of_lookup hsome
    have hnext := h.advance hpayload
      (fun seq ↦ by rw [lookup_erase_eq_update, Function.update_apply]) (by
      rw [h.bytes]
      simp only [pendingLength, hsplit, herase, map_append, map_cons, sum_append, sum_cons]
      omega) (Nat.sub_le frames.pendingBytes following.length)
    have hfollowing : records.lookup (frames.nextSeq + 1) = some following := by
      simpa [hsome] using (h.waiting (frames.nextSeq + 1)).symm
    simpa using ih hnext hfollowing hrest

/-- The order only depends on the first record of each number. -/
theorem congr (h : Ordered records released frames)
    (hsame : ∀ k, k ≠ frames.nextSeq → relayed.lookup k = records.lookup k) :
    Ordered relayed released frames :=
  { h with
    front := fun i hi ↦ by rw [h.front i hi, hsame i hi.ne]
    waiting := fun seq ↦ by
      rw [h.waiting seq]
      split
      · next hlt => rw [hsame seq hlt.ne']
      · rfl }

theorem isSome_of_known (h : Ordered records released frames)
    (hknown : seq < frames.nextSeq ∨ seq ∈ frames.pending) : (records.lookup seq).isSome := by
  rcases hknown with hlt | hmem
  · rw [← h.front seq hlt]
    simp [h.length, hlt]
  · rw [← AList.lookup_isSome, h.waiting] at hmem
    split at hmem
    · exact hmem
    · cases hmem

theorem push (h : Ordered records released frames) (hnext : records.lookup frames.nextSeq = none)
    (hout : frames.push seq payload = .ok (ready, frames')) :
    Ordered (records ++ [(seq, payload)]) (released ++ ready) frames' ∧
      (records ++ [(seq, payload)]).lookup frames'.nextSeq = none := by
  have hlook (k : ℕ) : (records ++ [(seq, payload)]).lookup k =
      (records.lookup k).or (if k = seq then some payload else none) := by
    rw [lookup_append]
    by_cases hk : k = seq <;> simp [hk, lookup_cons, beq_eq_false_iff_ne.mpr]
  unfold OrderedCiphertextFrames.push at hout
  split_ifs at hout with hdup hgt hfar hfull
  · cases hout
    have hsame (k : ℕ) : (records ++ [(seq, payload)]).lookup k = records.lookup k := by
      rw [hlook]
      split
      · next hk => rw [hk, Option.or_of_isSome (h.isSome_of_known hdup)]
      · exact Option.or_none
    rw [append_nil]
    exact ⟨h.congr fun k _ ↦ hsame k, (hsame _).trans hnext⟩
  · cases hout
    have hnew : seq ∉ frames.pending := fun hmem ↦ hdup (.inr hmem)
    have hnone : records.lookup seq = none := by
      simpa [AList.lookup_eq_none.mpr hnew, hgt] using (h.waiting seq).symm
    rw [append_nil]
    refine ⟨⟨h.length, fun i hi ↦ ?_, fun k ↦ ?_, fun k hk ↦ ?_, ?_, not_lt.mp hfull⟩, ?_⟩
    · rw [hlook, if_neg (hi.trans hgt).ne, Option.or_none]
      exact h.front i hi
    · by_cases hk : k = seq
      · subst hk
        simp [hlook, hnone, hgt]
      · simpa [hk, hlook, AList.lookup_insert_ne hk] using h.waiting k
    · rcases (AList.mem_insert _).mp hk with rfl | hmem
      · dsimp only
        omega
      · exact h.window k hmem
    · simp [pendingLength, AList.insert, kinsert, kerase_of_notMem_keys hnew, h.bytes, Nat.add_comm]
    · simp [hlook, hnext, hgt.ne]
  · obtain rfl : seq = frames.nextSeq := by omega
    refine (h.congr fun k hk ↦ ?_).release ?_ hout
    · rw [hlook, if_neg hk, Option.or_none]
    · simp [hlook, hnext]

theorem pushAll (h : Ordered records released frames)
    (hnext : records.lookup frames.nextSeq = none)
    (hout : frames.pushAll relayed = .ok (ready, frames')) :
    Ordered (records ++ relayed) (released ++ ready) frames' ∧
      (records ++ relayed).lookup frames'.nextSeq = none := by
  induction relayed generalizing records released frames ready with
  | nil =>
    cases hout
    rw [append_nil, append_nil]
    exact ⟨h, hnext⟩
  | cons record relayed ih =>
    obtain ⟨out, hpush, hout⟩ := bind_eq_ok_iff.mp hout
    obtain ⟨rest, hrest, hout⟩ := bind_eq_ok_iff.mp hout
    cases hout
    obtain ⟨h, hnext⟩ := h.push hnext hpush
    simpa using ih h hnext hrest

end Ordered

theorem ordered_new : Ordered [] [] ⟨0, ∅, 0⟩ :=
  ⟨rfl, nofun, fun _ ↦ (ite_self _).symm, nofun, rfl, Nat.zero_le _⟩

/-- The first records of the numbers below the first missing one are released in order; those above
it wait within the window. -/
theorem pushAll_releases (relayed : List (ℕ × Bytes)) (released : List Bytes)
    (frames : OrderedCiphertextFrames) (h : pushAll ⟨0, ∅, 0⟩ relayed = .ok (released, frames)) :
    Ordered relayed released frames ∧ relayed.lookup frames.nextSeq = none :=
  ordered_new.pushAll rfl h

theorem pushAll_releases_secondWaits :
    Ordered [(0, [5]), (2, [7]), (2, [8])] [[5]] ⟨1, AList.insert 2 [7] ∅, 1⟩ :=
  (pushAll_releases _ _ _ (by
    rw [pushAll, push, if_neg (by decide), if_neg (by decide), release, if_neg (by decide)]
    rfl)).1

end OrderedCiphertextFrames

/-! ## The receiving end -/

/-- The receiving end, with the messages that were handed to its handler -/
structure NoiseVirtualStream where
  inboundCiphertexts : OrderedCiphertextFrames
  receiveNonce : ℕ
  inboundDecoder : MessageDecoder
  delivered : List Bytes

namespace NoiseVirtualStream

def new : NoiseVirtualStream := ⟨⟨0, ∅, 0⟩, 0, ⟨[]⟩, []⟩

variable (decrypt : ℕ → Bytes → Except String Bytes)
  (handler : List Bytes → Bytes → Except String Unit)

/-- `handler` answers whether the next message can be decoded and finds room in the queue. -/
def trySend (delivered : List Bytes) : List Bytes → List Bytes × Except String Unit
  | [] => (delivered, .ok ())
  | message :: rest =>
    match handler delivered message with
    | .error error => (delivered, .error error)
    | .ok () => trySend (delivered ++ [message]) rest

def receiveCiphertexts (stream : NoiseVirtualStream) :
    List Bytes → NoiseVirtualStream × Except String Unit
  | [] => (stream, .ok ())
  | ciphertext :: rest =>
    match decrypt stream.receiveNonce ciphertext with
    | .error error => (stream, .error ("Noise relay decryption failed: " ++ error))
    | .ok plaintext =>
      match stream.inboundDecoder.push plaintext with
      | .error error => ({ stream with receiveNonce := stream.receiveNonce + 1 }, .error error)
      | .ok (messages, inboundDecoder) =>
        let (delivered, result) := trySend handler stream.delivered messages
        let receiveNonce := stream.receiveNonce + 1
        match result with
        | .error error => ({ stream with receiveNonce, inboundDecoder, delivered }, .error error)
        | .ok () => receiveCiphertexts { stream with receiveNonce, inboundDecoder, delivered } rest

def receiveData (stream : NoiseVirtualStream) (seq : ℕ) (payload : Bytes) :
    NoiseVirtualStream × Except String Unit :=
  match stream.inboundCiphertexts.push seq payload with
  | .error error => (stream, .error error)
  | .ok (ciphertexts, inboundCiphertexts) =>
    receiveCiphertexts decrypt handler { stream with inboundCiphertexts } ciphertexts

/-- The records that the relay hands over, up to the first error, which resets the stream -/
def receiveAll (stream : NoiseVirtualStream) :
    List (ℕ × Bytes) → NoiseVirtualStream × Except String Unit
  | [] => (stream, .ok ())
  | (seq, payload) :: rest =>
    match stream.receiveData decrypt handler seq payload with
    | (stream, .error error) => (stream, .error error)
    | (stream, .ok ()) => receiveAll stream rest

variable {decrypt handler} {sent messages delivered delivered' : List Bytes}
  {stream stream' : NoiseVirtualStream} {result : Except String Unit}

/-- The first records are decrypted, and their messages are delivered. -/
def Deciphered (sent : List Bytes) (stream : NoiseVirtualStream) : Prop :=
  stream.receiveNonce ≤ sent.length ∧ decodeLoop (sent.take stream.receiveNonce).flatten =
    .ok (stream.delivered, stream.inboundDecoder.buffered)

/-- The messages of some of the first records, or a beginning of them, are delivered. -/
def DeliversFrom (sent : List Bytes) (stream : NoiseVirtualStream) : Prop :=
  ∃ n decoded left, decodeLoop (sent.take n).flatten = .ok (decoded, left) ∧
    stream.delivered <+: decoded

theorem Deciphered.deliversFrom (h : Deciphered sent stream) : DeliversFrom sent stream :=
  ⟨_, _, _, h.2, prefix_rfl⟩

theorem Deciphered.push {plaintext : Bytes} {out : List Bytes × MessageDecoder}
    (h : Deciphered sent stream) (hsent : sent[stream.receiveNonce]? = some plaintext)
    (hpush : stream.inboundDecoder.push plaintext = .ok out) :
    decodeLoop (sent.take (stream.receiveNonce + 1)).flatten =
      .ok (stream.delivered ++ out.1, out.2.buffered) := by
  rw [take_add_one, hsent, Option.toList_some, flatten_append, flatten_singleton,
    decodeLoop_append_of_ok h.2, decodeLoop_of_push hpush]
  rfl

theorem trySend_spec (h : trySend handler delivered messages = (delivered', result)) :
    delivered' <+: delivered ++ messages ∧ (result = .ok () → delivered' = delivered ++ messages) := by
  fun_induction trySend handler delivered messages with
  | case1 =>
    cases h
    simp
  | case2 =>
    cases h
    exact ⟨prefix_append _ _, nofun⟩
  | case3 delivered message rest hok ih => simpa using ih h

theorem receiveCiphertexts_spec (hauth : ∀ n c p, decrypt n c = .ok p → sent[n]? = some p)
    {ciphertexts : List Bytes} (h : Deciphered sent stream)
    (hout : receiveCiphertexts decrypt handler stream ciphertexts = (stream', result)) :
    DeliversFrom sent stream' ∧ (result = .ok () → Deciphered sent stream' ∧
      stream'.receiveNonce = stream.receiveNonce + ciphertexts.length ∧
      stream'.inboundCiphertexts = stream.inboundCiphertexts) := by
  induction ciphertexts generalizing stream with
  | nil =>
    cases hout
    exact ⟨h.deliversFrom, fun _ ↦ ⟨h, rfl, rfl⟩⟩
  | cons ciphertext rest ih =>
    rw [receiveCiphertexts] at hout
    cases hplain : decrypt stream.receiveNonce ciphertext with
    | error =>
      rw [hplain] at hout
      cases hout
      exact ⟨h.deliversFrom, nofun⟩
    | ok plaintext =>
      rw [hplain] at hout
      dsimp only at hout
      cases hpush : stream.inboundDecoder.push plaintext with
      | error =>
        rw [hpush] at hout
        cases hout
        exact ⟨h.deliversFrom, nofun⟩
      | ok out =>
        rw [hpush] at hout
        have hsent := hauth _ _ _ hplain
        have hlt := (List.getElem?_eq_some_iff.mp hsent).1
        have hdecoded := h.push hsent hpush
        cases hsend : trySend handler stream.delivered out.1 with
        | mk delivered sendResult =>
          obtain ⟨hpre, hall⟩ := trySend_spec hsend
          dsimp only at hout
          rw [hsend] at hout
          cases sendResult with
          | error =>
            cases hout
            exact ⟨⟨_, _, _, hdecoded, hpre⟩, nofun⟩
          | ok =>
            have hnext : Deciphered sent ⟨stream.inboundCiphertexts, stream.receiveNonce + 1, out.2,
              delivered⟩ := ⟨hlt, by rw [hdecoded, hall rfl]⟩
            obtain ⟨hdelivered, hrest⟩ := ih hnext hout
            refine ⟨hdelivered, fun hok ↦ ?_⟩
            obtain ⟨hdec, hnonce, hsame⟩ := hrest hok
            exact ⟨hdec, by rw [hnonce, length_cons]; dsimp only; omega, hsame⟩

/-- The records `relayed` were handed over without an error. -/
structure Receives (sent : List Bytes) (relayed : List (ℕ × Bytes)) (stream : NoiseVirtualStream) :
    Prop where
  deciphered : Deciphered sent stream
  ordered : ∃ released, OrderedCiphertextFrames.Ordered relayed released stream.inboundCiphertexts
  next : relayed.lookup stream.inboundCiphertexts.nextSeq = none
  nonce : stream.receiveNonce = stream.inboundCiphertexts.nextSeq

theorem receiveAll_spec (hauth : ∀ n c p, decrypt n c = .ok p → sent[n]? = some p)
    {before relayed : List (ℕ × Bytes)} (h : Receives sent before stream)
    (hout : receiveAll decrypt handler stream relayed = (stream', result)) :
    DeliversFrom sent stream' ∧ (result = .ok () → Receives sent (before ++ relayed) stream') := by
  induction relayed generalizing stream before with
  | nil =>
    cases hout
    exact ⟨h.deciphered.deliversFrom, fun _ ↦ by rwa [append_nil]⟩
  | cons record rest ih =>
    obtain ⟨seq, payload⟩ := record
    rw [receiveAll, receiveData] at hout
    cases hpush : stream.inboundCiphertexts.push seq payload with
    | error =>
      rw [hpush] at hout
      cases hout
      exact ⟨h.deciphered.deliversFrom, nofun⟩
    | ok out =>
      rw [hpush] at hout
      dsimp only at hout
      obtain ⟨released, hord⟩ := h.ordered
      obtain ⟨hord', hnext⟩ := hord.push h.next hpush
      cases hrec : receiveCiphertexts decrypt handler
          { stream with inboundCiphertexts := out.2 } out.1 with
      | mk stream₁ result₁ =>
        rw [hrec] at hout
        have hdec : Deciphered sent { stream with inboundCiphertexts := out.2 } := h.deciphered
        obtain ⟨hdelivered, hok⟩ := receiveCiphertexts_spec hauth hdec hrec
        cases result₁ with
        | error =>
          cases hout
          exact ⟨hdelivered, nofun⟩
        | ok =>
          obtain ⟨hdec, hnonce, hsame⟩ := hok rfl
          change stream₁.inboundCiphertexts = out.2 at hsame
          have hlength := hord'.length
          rw [length_append, hord.length] at hlength
          have hnext' : Receives sent (before ++ [(seq, payload)]) stream₁ :=
            ⟨hdec, ⟨_, hsame ▸ hord'⟩, hsame ▸ hnext, by rw [hnonce, hsame, ← hlength, h.nonce]⟩
          simpa using ih hnext' hout

theorem receives_new (sent : List Bytes) : Receives sent [] new := by
  refine ⟨⟨Nat.zero_le _, ?_⟩, ⟨[], OrderedCiphertextFrames.ordered_new⟩, rfl, rfl⟩
  rw [new, take_zero, flatten_nil, decodeLoop.eq_def]

/-- Only a beginning of the messages is delivered, whatever the relay does; all of them are if it
hands over every record at least once and no error resets the stream. -/
theorem receiveAll_delivers (messages : List Bytes) (relayed : List (ℕ × Bytes))
    (hauth : ∀ n c p, decrypt n c = .ok p → (numberedRecords messages)[n]? = some p) :
    (receiveAll decrypt handler new relayed).1.delivered <+: messages ∧
      ((receiveAll decrypt handler new relayed).2 = .ok () →
        (∀ n < (records messages).length, n ∈ relayed.map Prod.fst) →
        (∀ m ∈ messages, (frameMessage m).isOk) →
        (receiveAll decrypt handler new relayed).1.delivered = messages) := by
  obtain ⟨⟨n, decoded, left, hdecoded, hpre⟩, hok⟩ :=
    receiveAll_spec hauth (receives_new _) (Eq.refl (receiveAll decrypt handler new relayed))
  rw [numberedRecords, take_take] at hdecoded
  refine ⟨hpre.trans (prefix_of_decodeLoop hdecoded), fun hresult hrelayed hvalid ↦ ?_⟩
  obtain ⟨⟨hnonce_le, hdec⟩, -, hnext, hnonce⟩ := hok hresult
  have hle : (records messages).length ≤ (receiveAll decrypt handler new relayed).1.receiveNonce := by
    by_contra hlt
    obtain ⟨record, hmem, hseq⟩ := mem_map.mp (hrelayed _ (not_le.mp hlt))
    rw [nil_append, ← hnonce, lookup_eq_none_iff] at hnext
    simpa [hseq] using hnext record hmem
  have hall : numberedRecords messages = records messages :=
    take_of_length_le ((hle.trans hnonce_le).trans (by simp [numberedRecords]))
  obtain ⟨_, -, hwhole, hsent⟩ := exists_decodeLoop_records messages
  rw [hall, take_of_length_le hle, hwhole, hsent hvalid] at hdec
  exact (Prod.mk.inj (Except.ok.inj hdec)).1.symm

/-- The records in the clear, in the other order -/
theorem receiveAll_delivers_twoRecords :
    (receiveAll (fun n c ↦
        if (numberedRecords [[1], [2]])[n]? = some c then .ok c else .error "forged")
      (fun _ _ ↦ .ok ()) new
      ((records [[1], [2]]).zipIdx.map Prod.swap).reverse).1.delivered = [[1], [2]] :=
  (receiveAll_delivers [[1], [2]] _ fun n c p h ↦ by
    split_ifs at h with hc
    cases h
    exact hc).2 (by decide +kernel) (by decide +kernel) (by decide +kernel)

end NoiseVirtualStream

end Slopdex.Relay
