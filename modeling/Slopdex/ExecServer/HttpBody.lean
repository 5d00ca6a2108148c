import Slopdex.Library.Transition
import Slopdex.Protocol.Types

/-!
# The body of a remote HTTP response

The server sends a body as numbered deltas. A handler puts them into a bounded queue, and the
consumer reads it up to the first end of the stream. Failures are recorded in a table or queued as a
delta. Whether the byte budget that all streams share suffices is chosen at each delta.
-/

namespace Slopdex.ExecServer

open Protocol (Text)
open Library.Transition List

structure BodyDelta where
  seq : ℕ
  delta : List UInt8
  done : Bool
  error : Option Text

inductive Queued
  | sent (delta : BodyDelta)
  | failure (message : Text)

namespace Queued

def notification : Queued → BodyDelta
  | sent delta => delta
  | failure message => ⟨1, [], true, some message⟩

def server : Queued → Option BodyDelta
  | sent delta => some delta
  | failure _ => none

def terminal (queued : Queued) : Bool :=
  queued.notification.done || queued.notification.error.isSome

end Queued

/-- `handle_http_body_delta_notification` between its waits; it holds a sender until it is idle. -/
inductive Handler
  | idle
  | loaded (delta : BodyDelta)
  | recording (message : Text)
  | removing

/-- What `recv` returns -/
inductive Answer
  | chunk (delta : List UInt8)
  | eof
  | failed (message : Text)

def Answer.returned (before : List (List UInt8)) : Answer → List (List UInt8)
  | chunk delta => before ++ [delta]
  | _ => before

def Answer.ended (before : Option (Option Text)) : Answer → Option (Option Text)
  | chunk _ => before
  | eof => some none
  | failed message => some (some message)

/-- `recv` between its waits: in `finish_remote_stream` and then in the table of failures, which is
asked if no answer is known. -/
inductive Reading
  | idle
  | finishing (answer : Option Answer)
  | taking

/-- The route, the table and the queue of one request up to the first end, with the deltas that came
for it and those that were accepted. -/
structure BodyStream where
  routed : Bool
  failure : Option Text
  queue : List Queued
  handler : Handler
  /-- `fail_all_http_body_streams` has the write lock and the sender. -/
  failing : Option Text
  nextSeq : ℕ
  pendingEof : Bool
  reading : Reading
  returned : List (List UInt8)
  /-- The first end with its error -/
  ended : Option (Option Text)
  (received taken : List BodyDelta)

def maxHttpBodyDeltaBytes : ℕ := 1024 * 1024

def httpBodyDeltaChannelCapacity : ℕ := 256

inductive BodyAction
  | deliver (delta : BodyDelta)
  | send (granted : Bool)
  | record
  | remove
  | failAll (message : Text)
  | sendFailure
  | recv
  | finish
  | take

namespace BodyStream

def initial : BodyStream :=
  ⟨true, none, [], .idle, none, 1, false, .idle, [], none, [], []⟩

variable (requestId : Text) (s : BodyStream)

def streamText (event : String) (detail : Text) : Text :=
  "http response stream `".toList ++ requestId ++ event.toList ++ detail

def send (delta : BodyDelta) (granted : Bool) : BodyStream :=
  if 0 < delta.delta.length + (delta.error.elim 0 (·.length)) ∧ !granted then
    { s with handler := .recording "queued body deltas exceed 16777216 bytes".toList }
  else if s.queue.length < httpBodyDeltaChannelCapacity then
    { s with
      queue := s.queue ++ [.sent delta]
      handler := if (Queued.sent delta).terminal then .removing else .idle }
  else { s with handler := .recording "body delta channel filled before delivery".toList }

def answer (answer : Answer) : BodyStream :=
  { s with returned := answer.returned s.returned, ended := answer.ended s.ended }

def read (delta : BodyDelta) : BodyStream :=
  if delta.seq ≠ s.nextSeq then
    { s with reading := .finishing (some (.failed (streamText requestId "` received seq "
      (toString delta.seq ++ ", expected " ++ toString s.nextSeq).toList))) }
  else
    match delta.error with
    | some error => { s with
        nextSeq := s.nextSeq + 1
        reading := .finishing (some (.failed (streamText requestId "` failed: " error))) }
    | none =>
      let s := { s with nextSeq := s.nextSeq + 1, taken := s.taken ++ [delta] }
      if !delta.done then s.answer (.chunk delta.delta)
      else if delta.delta.isEmpty then { s with reading := .finishing (some .eof) }
      else { s with pendingEof := true, reading := .finishing (some (.chunk delta.delta)) }

/-- The stream was closed before its end is pending, so that this end has nothing to finish. -/
def recv : Option BodyStream :=
  if s.pendingEof then some ({ s with pendingEof := false }.answer .eof)
  else
    match s.queue, s.routed, s.handler, s.failing with
    | queued :: queue, _, _, _ => some ({ s with queue }.read requestId queued.notification)
    | [], false, .idle, none => some { s with reading := .finishing none }
    | [], _, _, _ => none

def step : BodyAction → Option BodyStream
  | .deliver delta =>
    match s.handler with
    | .idle => some { s with
        received := s.received ++ [delta]
        handler := if s.routed ∧ delta.delta.length ≤ maxHttpBodyDeltaBytes then .loaded delta
          else .idle }
    | _ => none
  | .send granted =>
    match s.handler with
    | .loaded delta => some (s.send delta granted)
    | _ => none
  | .record =>
    match s.handler, s.failing with
    | .recording message, none => some { s with failure := some message, handler := .removing }
    | _, _ => none
  | .remove =>
    match s.handler, s.failing with
    | .removing, none => some { s with routed := false, handler := .idle }
    | _, _ => none
  | .failAll message =>
    match s.routed, s.failing with
    | true, none => some { s with routed := false, failing := some message }
    | _, _ => none
  | .sendFailure => s.failing.map fun message ↦
      if s.queue.length < httpBodyDeltaChannelCapacity then
        { s with queue := s.queue ++ [.failure message], failing := none }
      else { s with failure := some message, failing := none }
  | .recv =>
    match s.reading, s.ended with
    | .idle, none => s.recv requestId
    | _, _ => none
  | .finish =>
    match s.reading, s.failing with
    | .finishing (some known), none => some ({ s with routed := false, reading := .idle }.answer known)
    | .finishing none, none => some { s with routed := false, reading := .taking }
    | _, _ => none
  | .take =>
    match s.reading, s.failing with
    | .taking, none => some ({ s with failure := none, reading := .idle }.answer
        (s.failure.elim .eof fun error ↦ .failed (streamText requestId "` failed: " error)))
    | _, _ => none

end BodyStream

open BodyStream

def bodyStream (requestId : Text) : System BodyStream BodyAction where
  init := .initial
  step := BodyStream.step requestId

/-! ## The chunks and the first end -/

namespace BodyStream

variable {requestId : Text} {s s' : BodyStream} {action : BodyAction}

/-- The chunks with the one that `recv` is about to return -/
def chunks (s : BodyStream) : List (List UInt8) :=
  match s.reading with
  | .finishing (some known) => known.returned s.returned
  | _ => s.returned

def ending (s : BodyStream) : Option (Option Text) :=
  match s.reading with
  | .finishing (some known) => known.ended s.ended
  | _ => s.ended

def Complete (taken : List BodyDelta) (chunks : List (List UInt8)) : Prop :=
  ∃ front final, taken = front ++ [final] ∧ final.done = true ∧ final.error = none ∧
    chunks = front.map (·.delta) ++ if final.delta.isEmpty then [] else [final.delta]

/-- The consumer will meet a failure or the end that the server sent. -/
def Guarded (s : BodyStream) : Prop :=
  s.failing.isSome ∨ s.failure.isSome ∨ ∃ queued ∈ s.queue, queued.terminal

def Handler.delta : Handler → Option BodyDelta
  | .loaded delta => some delta
  | _ => none

structure Intact (s : BodyStream) : Prop where
  order : s.taken ++ s.queue.filterMap Queued.server ++ (Handler.delta s.handler).toList <+
    s.received
  numbers : s.taken.map (·.seq) = range' 1 s.taken.length
  next : s.ending = none → s.nextSeq = s.taken.length + 1
  chunks_eq : s.ending ≠ some none → s.chunks = s.taken.map (·.delta)
  clean : s.ending = some none → Complete s.taken s.chunks
  pending : s.pendingEof = true → s.ending = none ∧ ∃ front final, s.taken = front ++ [final] ∧
    final.done = true ∧ final.error = none ∧ final.delta ≠ []
  covered : s.ending = none → s.pendingEof = false → s.routed = true ∨ s.Guarded
  removing : s.handler = .removing → s.ending = none → s.pendingEof = false → s.Guarded
  closed : s.reading = .finishing none ∨ s.reading = .taking →
    s.failure.isSome ∧ s.pendingEof = false
  finishing : ∀ known, s.reading = .finishing (some known) → s.ending = none → s.pendingEof = true
  reading_open : s.reading ≠ .idle → s.ended = none

theorem Guarded.push {queued : Queued} {handler : Handler} (h : s.Guarded) :
    ({ s with queue := s.queue ++ [queued], handler } : BodyStream).Guarded :=
  h.imp_right (·.imp_right fun ⟨found, hm, ht⟩ ↦
    ⟨found, mem_append_left _ hm, ht⟩)

theorem Intact.send {delta : BodyDelta} {granted : Bool} (h : Intact s)
    (hl : s.handler = .loaded delta) : Intact (s.send delta granted) := by
  have ho := h.order
  rw [hl] at ho
  have hd : s.taken ++ s.queue.filterMap Queued.server ++ [] <+ s.received :=
    (Sublist.append_left (nil_sublist _) _).trans ho
  unfold BodyStream.send
  split_ifs with _ hsp ht
  · exact { h with order := hd, removing := nofun }
  · have hg : ({ s with
        queue := s.queue ++ [.sent delta], handler := .removing } : BodyStream).Guarded :=
      .inr (.inr ⟨_, mem_append_right _ (mem_singleton_self _), ht⟩)
    exact { h with
      order := by simpa [Handler.delta, Queued.server] using ho
      covered := fun _ _ ↦ .inr hg
      removing := fun _ _ _ ↦ hg }
  · exact { h with
      order := by simpa [Handler.delta, Queued.server] using ho
      covered := fun he heo ↦ (h.covered he heo).imp_right Guarded.push
      removing := nofun }
  · exact { h with order := hd, removing := nofun }

theorem Guarded.pop {queued : Queued} {queue : List Queued} (h : s.Guarded)
    (hq : s.queue = queued :: queue) (ht : ¬queued.terminal) :
    s.failing.isSome ∨ s.failure.isSome ∨ ∃ queued ∈ queue, queued.terminal := by
  simpa [Guarded, hq, ht] using h

theorem Intact.unanswered (h : Intact s) (hread : ∀ known, s.reading ≠ .finishing (some known))
    (hended : s.ended = none) : s.ending = none ∧ s.returned = s.taken.map (·.delta) := by
  have he : s.ending = none := by
    unfold ending
    split
    next hk => exact absurd hk (hread _)
    next => exact hended
  have hc := h.chunks_eq (by simp [he])
  unfold chunks at hc
  split at hc
  next hk => exact absurd hk (hread _)
  next => exact ⟨he, hc⟩

theorem Intact.read {queued : Queued} {queue : List Queued} (h : Intact s)
    (hread : s.reading = .idle) (hended : s.ended = none) (heo : s.pendingEof = false)
    (hq : s.queue = queued :: queue) :
    Intact ({ s with queue }.read requestId queued.notification) := by
  have ⟨hen, hc⟩ := h.unanswered (by simp [hread]) hended
  have hnex := h.next hen
  have ho := h.order
  rw [hq] at ho
  have hdr : s.taken ++ queue.filterMap Queued.server ++
      (Handler.delta s.handler).toList <+ s.received :=
    .trans ((((sublist_cons_self _ _).filterMap _).append_left _).append_right _) ho
  have hf (nextSeq : ℕ) (msg : Text) : Intact
      { s with queue, nextSeq, reading := .finishing (some (.failed msg)) } :=
    ⟨hdr, h.numbers, nofun, fun _ ↦ hc, nofun,
      fun htr ↦ absurd (heo.symm.trans htr) nofun, nofun, fun _ ↦ nofun, nofun, nofun,
      fun _ ↦ hended⟩
  have hs : s = { s with reading := .idle, ended := none, pendingEof := false } := by
    cases s
    simp_all
  generalize hd : queued.notification = delta
  unfold BodyStream.read
  by_cases hseq : delta.seq = s.nextSeq
  case neg => exact (if_pos hseq).symm ▸ hf _ _
  rw [if_neg (not_not_intro hseq)]
  cases he : delta.error with
  | some => exact hf _ _
  | none =>
    have hse : queued = .sent delta := by
      cases queued with
      | sent => exact congrArg Queued.sent hd
      | failure => cases hd ▸ he
    have ht : s.taken ++ [delta] ++ queue.filterMap Queued.server ++
        (Handler.delta s.handler).toList <+ s.received := by
      simpa [hse, filterMap, Queued.server] using ho
    have hn : (s.taken ++ [delta]).map (·.seq) = range' 1 (s.taken ++ [delta]).length := by
      simp [h.numbers, range'_concat]
      omega
    have hm : s.returned ++ [delta.delta] = (s.taken ++ [delta]).map (·.delta) := by
      simp [hc]
    rw [hs]
    dsimp only
    split_ifs with hdo hem
    · have hte : ¬queued.terminal := by
        simpa [Queued.terminal, hd, he] using hdo
      exact ⟨ht, hn, fun _ ↦ by simp [answer, hnex], fun _ ↦ hm, nofun, nofun,
        fun _ _ ↦ (h.covered hen heo).imp_right (·.pop hq hte),
        fun hr _ _ ↦ (h.removing hr hen heo).pop hq hte,
        nofun, nofun, nofun⟩
    · have hcm : Complete (s.taken ++ [delta]) s.returned :=
        ⟨s.taken, delta, rfl, by simpa using hdo, he, by simp [hc, hem]⟩
      exact ⟨ht, hn, nofun, fun hne ↦ absurd rfl hne, fun _ ↦ hcm, nofun, nofun,
        fun _ ↦ nofun, nofun, nofun, fun _ ↦ rfl⟩
    · exact ⟨ht, hn, fun _ ↦ by simp [hnex], fun _ ↦ hm, nofun,
        fun _ ↦ ⟨rfl, s.taken, delta, rfl, by simpa using hdo, he, by simpa using hem⟩,
        nofun, nofun, nofun, fun _ _ _ ↦ rfl, fun _ ↦ rfl⟩

theorem Intact.close {routed : Bool} {reading : Reading} (h : Intact s) (he : s.ending = none)
    (hended : s.ended = none) (hc : s.returned = s.taken.map (·.delta))
    (heo : s.pendingEof = false) (hf : s.failure.isSome)
    (hread : reading = .finishing none ∨ reading = .taking) :
    Intact { s with routed, reading } := by
  rcases hread with rfl | rfl <;>
  exact ⟨h.order, h.numbers, fun _ ↦ h.next he, fun _ ↦ hc,
    fun hclean ↦ absurd (hended.symm.trans hclean) nofun,
    fun ht ↦ absurd (heo.symm.trans ht) nofun, fun _ _ ↦ .inr (.inr (.inl hf)),
    fun _ _ _ ↦ .inr (.inl hf), fun _ ↦ ⟨hf, heo⟩, nofun, fun _ ↦ hended⟩

theorem Intact.recv (h : Intact s) (hread : s.reading = .idle) (hended : s.ended = none)
    (hstep : s.recv requestId = some s') : Intact s' := by
  unfold BodyStream.recv at hstep
  have ⟨he, hc⟩ := h.unanswered (by simp [hread]) hended
  split_ifs at hstep with heo
  · cases hstep
    obtain ⟨_, front, final, ht, hdo, her, hd⟩ := h.pending heo
    have hcm : Complete s.taken s.returned :=
      ⟨front, final, ht, hdo, her, by simp [hc, ht, hd]⟩
    have hs : s = { s with reading := .idle } := by
      cases s
      simp_all
    rw [hs]
    exact ⟨h.order, h.numbers, nofun, fun hne ↦ absurd rfl hne, fun _ ↦ hcm, nofun, nofun,
      fun _ ↦ nofun, nofun, nofun, nofun⟩
  · rw [Bool.not_eq_true] at heo
    split at hstep <;> cases hstep
    next hq => exact h.read hread hended heo hq
    next hq hr hh hf =>
      have hfa : s.failure.isSome := by
        simpa [Guarded, hq, hr, hf] using h.covered he heo
      exact h.close he hended hc heo hfa (.inl rfl)

theorem Intact.finish {known : Answer} (h : Intact s)
    (hread : s.reading = .finishing (some known)) :
    Intact ({ s with routed := false, reading := .idle }.answer known) := by
  have he : s.ending = known.ended s.ended := by simp [ending, hread]
  have hc : s.chunks = known.returned s.returned := by simp [chunks, hread]
  obtain ⟨order, numbers, next, chunks_eq, clean, pending, _, _, _, finishing, _⟩ := h
  have heo := finishing known hread
  rw [he] at next chunks_eq clean pending heo
  rw [hc] at chunks_eq clean
  exact ⟨order, numbers, next, chunks_eq, clean, pending,
    fun hn hf ↦ absurd ((heo hn).symm.trans hf) nofun,
    fun _ hn hf ↦ absurd ((heo hn).symm.trans hf) nofun, nofun, nofun, nofun⟩

theorem Intact.step (h : Intact s) (hstep : s.step requestId action = some s') : Intact s' := by
  have ho := h.order
  cases action with dsimp only [BodyStream.step] at hstep
  | sendFailure =>
    obtain ⟨msg, _, rfl⟩ := Option.map_eq_some_iff.mp hstep
    split_ifs
    · have hg : ({ s with
          queue := s.queue ++ [.failure msg], failing := none } : BodyStream).Guarded :=
        .inr (.inr ⟨_, mem_append_right _ (mem_singleton_self _), rfl⟩)
      exact { h with
        order := by simpa [filterMap, Queued.server] using ho
        covered := fun _ _ ↦ .inr hg
        removing := fun _ _ _ ↦ hg }
    · exact { h with
        covered := fun _ _ ↦ .inr (.inr (.inl rfl))
        removing := fun _ _ _ ↦ .inr (.inl rfl)
        closed := fun hread ↦ ⟨rfl, (h.closed hread).2⟩ }
  | recv =>
    split at hstep
    next hread hended => exact h.recv hread hended hstep
    next => cases hstep
  | deliver delta =>
    split at hstep <;> cases hstep
    next hidle =>
      rw [hidle] at ho
      refine { h with order := ?_, removing := ?_ }
      · split_ifs
        · simpa [Handler.delta] using ho.append (Sublist.refl [delta])
        · exact ho.trans (sublist_append_left ..)
      · split_ifs <;> nofun
  | send =>
    split at hstep <;> cases hstep
    next hl => exact h.send hl
  | record =>
    split at hstep <;> cases hstep
    next hre _ =>
      rw [hre] at ho
      exact { h with
        order := ho
        covered := fun _ _ ↦ .inr (.inr (.inl rfl))
        removing := fun _ _ _ ↦ .inr (.inl rfl)
        closed := fun hread ↦ ⟨rfl, (h.closed hread).2⟩ }
  | remove =>
    split at hstep <;> cases hstep
    next hr _ =>
      rw [hr] at ho
      exact { h with
        order := ho
        covered := fun he heo ↦ .inr (h.removing hr he heo)
        removing := nofun }
  | failAll =>
    split at hstep <;> cases hstep
    exact { h with covered := fun _ _ ↦ .inr (.inl rfl), removing := fun _ _ _ ↦ .inl rfl }
  | finish =>
    split at hstep <;> cases hstep
    next hread _ => exact h.finish hread
    next hread _ =>
      have hended := h.reading_open (by simp [hread])
      have ⟨he, hch⟩ := h.unanswered (by simp [hread]) hended
      have hc := h.closed (.inl hread)
      exact h.close he hended hch hc.2 hc.1 (.inr rfl)
  | take =>
    split at hstep <;> cases hstep
    next hread _ =>
      have hc := h.closed (.inr hread)
      have ⟨_, hch⟩ :=
        h.unanswered (by simp [hread]) (h.reading_open (by simp [hread]))
      obtain ⟨error, her⟩ := Option.isSome_iff_exists.mp hc.1
      rw [her]
      exact ⟨ho, h.numbers, nofun, fun _ ↦ hch, nofun,
        fun heo ↦ absurd (hc.2.symm.trans heo) nofun, nofun, fun _ ↦ nofun, nofun, nofun,
        nofun⟩

theorem Intact.returned_front (h : Intact s) : s.returned <+: s.taken.map (·.delta) := by
  have hretained : s.returned <+: s.chunks := by
    unfold chunks
    split
    next known _ => cases known <;> simp [Answer.returned]
    next => exact List.prefix_rfl
  by_cases hclean : s.ending = some none
  · obtain ⟨front, final, ht, _, _, hc⟩ := h.clean hclean
    rw [hc] at hretained
    rw [ht, map_append, map_singleton]
    split_ifs at hretained
    · exact hretained.trans ((prefix_append_right_inj _).mpr nil_prefix)
    · exact hretained
  · exact h.chunks_eq hclean ▸ hretained

end BodyStream

/-- The chunks are the bodies of the first deltas that came, in the order of their numbers, and the
first end is an error unless it follows the last of them. -/
theorem bodyStream_truncation_fails (requestId : Text) (s : BodyStream)
    (hs : (bodyStream requestId).Reachable s) :
    s.taken <+ s.received ∧ s.taken.map (·.seq) = range' 1 s.taken.length ∧
      s.returned <+: s.taken.map (·.delta) ∧
      (s.ended = some none → Complete s.taken s.returned) := by
  have h : Intact s := hs.invariant Intact
    (by constructor <;> simp [bodyStream, initial, ending, chunks, Handler.delta])
    fun _ _ _ hi hstep ↦ hi.step hstep
  have hfront : s.taken <+ s.received :=
    ((sublist_append_left ..).trans (sublist_append_left ..)).trans h.order
  refine ⟨hfront, h.numbers, h.returned_front, fun hended ↦ ?_⟩
  have hidle : s.reading = .idle := by
    by_contra hread
    exact absurd (hended.symm.trans (h.reading_open hread)) nofun
  have hclean : s.ending = some none := by simpa [ending, hidle] using hended
  simpa [chunks, hidle] using h.clean hclean

def oneChunk : List BodyAction :=
  [.deliver ⟨1, [1], true, none⟩, .send true, .remove, .recv, .finish, .recv]

theorem bodyStream_truncation_fails_oneChunk :
    ∃ s : BodyStream, s.returned = [[1]] ∧ Complete s.taken s.returned := by
  obtain ⟨s, hs, hcheck⟩ := System.exists_reachable_of_run (bodyStream []) oneChunk
    (fun s ↦ decide (s.returned = [[1]] ∧ s.ended = some none)) (by decide +kernel)
  obtain ⟨hretained, hended⟩ := of_decide_eq_true hcheck
  exact ⟨s, hretained, (bodyStream_truncation_fails [] s hs).2.2.2 hended⟩

end Slopdex.ExecServer
