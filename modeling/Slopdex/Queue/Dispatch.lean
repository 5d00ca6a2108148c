import Slopdex.Queue.Service

/-!
# What becomes of a queued message

A message leaves the queue because it has started a turn, because the user deletes it or because it
is no user message. A message starts at most one turn, and automatic dispatch starts the first message
of the queue, as long as a call that has submitted a turn waits for the reply and the deletion after
the start goes through; a message that stays behind is started again.
-/

namespace Slopdex.Queue

open Library.Transition Library.Transition.System List

variable {decode : Decoder} {s s' : State} {a : Action} {id : RecordId} {record : Record}

def StageOk (decode : Decoder) (queue : List Record) (started : List RecordId) : Stage → Prop
  | .starting submission => submission.record ∈ queue ∧
      (submission.automatic = true → queue.head? = some submission.record)
  | .consuming id => id ∈ started
  | .discarding id => ∀ record ∈ queue, record.id = id → record.isUserMessage decode = false
  | _ => True

def Leaves (decode : Decoder) (s : State) (record : Record) : Prop :=
  record.id ∈ s.started ∨ s.holder = some (.serving (.delete record.id)) ∨
    record.isUserMessage decode = false

/-- The holder has submitted a turn or has to delete the message that has started it. -/
def Stage.isOwed : Stage → Bool
  | .submitted | .consuming _ => true
  | _ => false

/-- A call that has submitted a turn is not dropped, and the deletion of the message that has started
it goes through. -/
def Consumes (s : State) (a : Action) : Prop :=
  s.holder.any Stage.isOwed = true → a ≠ .storage false ∧ a ≠ .drop

instance (s : State) (a : Action) : Decidable (Consumes s a) :=
  inferInstanceAs (Decidable (_ → _))

inductive Moves (decode : Decoder) (s : State) (a : Action) : State → Prop
  | wait (waiting : List Request) : Moves decode s a { s with waiting }
  | enter (waiting : List Request) (holder : Option Stage)
      (hstage : ∀ stage ∈ holder, StageOk decode s.queue s.started stage ∧ stage.isOwed = false)
      (hfree : Consumes s a → s.holder.any Stage.isOwed = false) :
      Moves decode s a { s with waiting, holder }
  | append (payload : String) (hfree : s.holder.any Stage.isOwed = false) :
      Moves decode s a
        { s with
          queue := s.queue ++ [⟨s.nextId, payload⟩]
          nextId := s.nextId + 1
          holder := none }
  | edit (id : RecordId) (payload : String) (hfree : s.holder.any Stage.isOwed = false) :
      Moves decode s a
        { s with
          queue := s.queue.map fun record ↦
            if record.id = id then { record with payload } else record
          holder := none }
  | erase (id : RecordId) (holder : Option Stage)
      (hreason : ∀ record ∈ s.queue, record.id = id → Leaves decode s record)
      (hstage : ∀ stage ∈ holder, stage = .serving .dispatch)
      (hfree : s.holder.any Stage.isOwed = true → s.holder = some (.consuming id)) :
      Moves decode s a { s.erase id with holder }
  | reorder (ids : List RecordId) (hperm : ids.Perm (s.queue.map (·.id)))
      (hfree : s.holder.any Stage.isOwed = false) :
      Moves decode s a { s with queue := s.reordered ids, holder := none }
  | submit (submission : Submission) (hholder : s.holder = some (.starting submission)) :
      Moves decode s a
        { s with submissions := s.submissions ++ [submission], holder := some .submitted }
  | core (submission : Submission) (rest : List Submission) (answer : CoreAnswer)
      (hsubmissions : s.submissions = submission :: rest) :
      Moves decode s a (s.handle submission rest answer)

theorem Moves.release (hfree : Consumes s a → s.holder.any Stage.isOwed = false) :
    Moves decode s a s.release :=
  .enter s.waiting none (fun _ h ↦ by cases h) hfree

theorem Moves.hold {stage : Stage} (hst : StageOk decode s.queue s.started stage)
    (howed : stage.isOwed = false) (hfree : s.holder.any Stage.isOwed = false) :
    Moves decode s a (s.hold stage) :=
  .enter s.waiting (some stage) (fun _ h ↦ by cases h; exact ⟨hst, howed⟩) fun _ ↦ hfree

theorem moves_of_serve {request : Request} (hn : (s.queue.map (·.id)).Nodup)
    (hholder : s.holder = some (.serving request)) :
    Moves decode s a (s.serve decode request) := by
  have hfree : s.holder.any Stage.isOwed = false := by
    rw [hholder]
    rfl
  have hr : Moves decode s a s.release := .release fun _ ↦ hfree
  cases request with
  | enqueue payload =>
    rw [State.serve]
    split
    · exact .append payload hfree
    · exact hr
  | update =>
    rw [State.serve]
    split
    · exact .hold trivial rfl hfree
    · exact hr
  | delete id =>
    refine .erase id none ?_ (fun _ h ↦ by cases h) fun h ↦ absurd (hfree.symm.trans h) nofun
    rintro _ - rfl
    exact .inr (.inl hholder)
  | reorder ids =>
    rw [State.serve]
    split
    next hperm => exact .reorder ids hperm hfree
    next => exact hr
  | start =>
    rw [State.serve]
    split
    · split
      · exact hr
      next hf =>
        split
        · exact .hold ⟨mem_of_find?_eq_some hf, nofun⟩ rfl hfree
        · exact hr
    · exact hr
  | dispatch =>
    rw [State.serve]
    split
    · exact hr
    next record _ hq =>
      have hh : s.queue.head? = some record := by rw [hq, head?_cons]
      have hm := mem_of_mem_head? hh
      split
      · exact .hold ⟨hm, fun _ ↦ hh⟩ rfl hfree
      next hi =>
        apply Moves.hold _ rfl hfree
        intro _ ho hid
        rw [inj_on_of_nodup_map hn ho hm hid]
        simpa using hi

theorem moves_of_step (hn : (s.queue.map (·.id)).Nodup)
    (hstg : ∀ stage ∈ s.holder, StageOk decode s.queue s.started stage)
    (hstep : s.step decode a = some s') : Moves decode s a s' := by
  cases a with
  | acquire =>
    rw [State.step] at hstep
    split at hstep
    next hno _ =>
      cases hstep
      apply Moves.enter
      · intro _ h
        cases h
        exact ⟨trivial, rfl⟩
      · rw [hno]
        exact fun _ ↦ rfl
    next => cases hstep
  | storage succeeds =>
    rw [State.step] at hstep
    split at hstep
    next => cases hstep
    next stage hholder =>
      obtain ⟨_, hst, rfl⟩ := Option.map_eq_some_iff.mp hstep
      cases succeeds with
      | false => exact .release fun hc ↦ Bool.eq_false_iff.mpr fun h ↦ (hc h).1 rfl
      | true =>
        rw [hholder] at hstg
        have hok := hstg stage rfl
        cases stage with
        | serving =>
          cases hst
          exact moves_of_serve hn hholder
        | updating id payload =>
          cases hst
          exact .edit id payload (by rw [hholder]; rfl)
        | starting | submitted => cases hst
        | consuming id =>
          cases hst
          refine .erase id none ?_ (fun _ h ↦ by cases h) fun _ ↦ hholder
          rintro _ - rfl
          exact .inl hok
        | discarding id =>
          cases hst
          refine .erase id (some (.serving .dispatch)) ?_ (fun _ h ↦ by cases h; rfl) ?_
          · exact fun record hrec hid ↦ .inr (.inr (hok record hrec hid))
          · rw [hholder]
            exact nofun
  | submit =>
    rw [State.step] at hstep
    split at hstep
    next submission hholder =>
      cases hstep
      exact .submit submission hholder
    next => cases hstep
  | core answer =>
    rw [State.step] at hstep
    split at hstep
    next submission rest hsubmissions =>
      cases hstep
      exact .core submission rest answer hsubmissions
    next => cases hstep
  | drop =>
    obtain ⟨-, rfl⟩ := Option.ite_some_none_eq_some.mp hstep
    exact .release fun hc ↦ Bool.eq_false_iff.mpr fun h ↦ (hc h).2 rfl
  | call | dropWaiting =>
    cases hstep
    exact .wait _

structure Tidy (decode : Decoder) (s : State) : Prop where
  nodup : (s.queue.map (·.id)).Nodup
  fresh : ∀ id ∈ s.queue.map (·.id), id < s.nextId
  past : ∀ id ∈ s.started, id < s.nextId
  sent : ∀ submission ∈ s.submissions, submission.record.id < s.nextId
  stage : ∀ stage ∈ s.holder, StageOk decode s.queue s.started stage

theorem ids_reordered {ids : List RecordId} (hperm : ids.Perm (s.queue.map (·.id))) :
    (s.reordered ids).map (·.id) = ids := by
  have hf : ∀ id ∈ ids, ∃ record, s.queue.find? (·.id == id) = some record := by
    intro _ hid
    obtain ⟨record, hrec, rfl⟩ := mem_map.mp (hperm.subset hid)
    exact Option.isSome_iff_exists.mp (find?_isSome.mpr ⟨record, hrec, beq_self_eq_true _⟩)
  unfold State.reordered
  clear hperm
  induction ids with
  | nil => rfl
  | cons id _ ih =>
    obtain ⟨_, hrec⟩ := hf id mem_cons_self
    simp only [filterMap_cons, hrec, map_cons,
      ih fun other ho ↦ hf other (mem_cons_of_mem _ ho)]
    have hid := find?_some hrec
    rw [eq_of_beq hid]

theorem ids_edit (queue : List Record) (id : RecordId) (payload : String) :
    (queue.map fun record ↦ if record.id = id then { record with payload } else record).map
      (·.id) = queue.map (·.id) := by
  rw [map_map]
  apply map_congr_left
  intro _ _
  dsimp only [Function.comp_apply]
  split <;> rfl

theorem ids_erase (s : State) (id : RecordId) :
    (s.erase id).queue.map (·.id) = (s.queue.map (·.id)).filter (· != id) := by
  rw [State.erase, filter_map]
  rfl

theorem StageOk.mono {queue : List Record} {started started' : List RecordId} {stage : Stage}
    (h : StageOk decode queue started stage) (hsub : started ⊆ started') :
    StageOk decode queue started' stage := by
  cases stage with
  | consuming => exact hsub h
  | _ => exact h

/-- The holder after a reply -/
theorem reply_cases (s : State) (submission : Submission) (answer : CoreAnswer) :
    s.reply submission answer = s ∨ s.holder = some .submitted ∧ s.submissions = [] ∧
      (answer = .started ∧ s.reply submission answer = s.hold (.consuming submission.record.id) ∨
        answer ≠ .started ∧ s.reply submission answer = s.release) := by
  unfold State.reply
  split
  next hholder hsubmissions =>
    refine .inr ⟨hholder, hsubmissions, ?_⟩
    split_ifs with hanswer
    · exact .inl ⟨hanswer, rfl⟩
    · exact .inr ⟨hanswer, rfl⟩
  next => exact .inl rfl

theorem queue_handle (s : State) (submission : Submission) (rest : List Submission)
    (answer : CoreAnswer) : (s.handle submission rest answer).queue = s.queue := by
  rw [State.handle]
  rcases reply_cases { s with
    submissions := rest
    started := if answer = .started then s.started ++ [submission.record.id] else s.started }
    submission answer with heq | ⟨-, -, ⟨-, heq⟩ | ⟨-, heq⟩⟩
  · rw [heq]
  · rw [heq, State.hold]
  · rw [heq, State.release]

theorem Tidy.moves (h : Tidy decode s) (hmoves : Moves decode s a s') : Tidy decode s' := by
  cases hmoves with
  | wait => exact ⟨h.nodup, h.fresh, h.past, h.sent, h.stage⟩
  | enter _ _ hst => exact ⟨h.nodup, h.fresh, h.past, h.sent, fun stage hs ↦ (hst stage hs).1⟩
  | append =>
    refine ⟨?_, ?_, fun id hid ↦ Nat.lt_succ_of_lt (h.past id hid),
      fun submission hs ↦ Nat.lt_succ_of_lt (h.sent submission hs), fun _ h ↦ by cases h⟩
    · rw [map_append]
      refine h.nodup.append (nodup_singleton _) ?_
      intro id hid hn
      rw [map_singleton, mem_singleton] at hn
      exact Nat.ne_of_lt (h.fresh id hid) hn
    · intro id hid
      rw [map_append, mem_append, map_singleton, mem_singleton] at hid
      rcases hid with hold | rfl
      · exact Nat.lt_succ_of_lt (h.fresh id hold)
      · exact Nat.lt_succ_self _
  | edit =>
    refine ⟨?_, ?_, h.past, h.sent, fun _ h ↦ by cases h⟩ <;> rw [ids_edit]
    · exact h.nodup
    · exact h.fresh
  | erase _ _ _ hse =>
    refine ⟨?_, ?_, h.past, h.sent, fun stage hst ↦ ?_⟩
    · rw [ids_erase]
      exact h.nodup.filter _
    · rw [ids_erase]
      exact fun other ho ↦ h.fresh other (mem_of_mem_filter ho)
    · rw [hse stage hst]
      trivial
  | reorder _ hperm =>
    refine ⟨?_, ?_, h.past, h.sent, fun _ h ↦ by cases h⟩ <;> rw [ids_reordered hperm]
    · exact hperm.nodup_iff.mpr h.nodup
    · exact fun id hid ↦ h.fresh id (hperm.subset hid)
  | submit submission hholder =>
    have hrec := (h.stage _ hholder).1
    refine ⟨h.nodup, h.fresh, h.past, fun other ho ↦ ?_, fun _ hst ↦ by cases hst; trivial⟩
    rcases mem_append.mp ho with hold | hn
    · exact h.sent other hold
    · rw [mem_singleton.mp hn]
      exact h.fresh _ (mem_map_of_mem hrec)
  | core submission rest answer hsubs =>
    have hsent := h.sent submission (hsubs ▸ mem_cons_self)
    have hrest : ∀ other ∈ rest, other.record.id < s.nextId := fun other ho ↦
      h.sent other (hsubs ▸ mem_cons_of_mem _ ho)
    set t : State := { s with
      submissions := rest
      started := if answer = .started then s.started ++ [submission.record.id] else s.started }
    have hstarted : s.started ⊆ t.started := by
      dsimp only [t]
      split_ifs
      · exact subset_append_left _ _
      · exact Subset.refl _
    have ht : Tidy decode t := by
      refine ⟨h.nodup, h.fresh, fun id hid ↦ ?_, hrest, fun stage hst ↦ ?_⟩
      · dsimp only [t] at hid
        split_ifs at hid
        · rcases mem_append.mp hid with hold | hn
          · exact h.past id hold
          · exact mem_singleton.mp hn ▸ hsent
        · exact h.past id hid
      · exact (h.stage stage hst).mono hstarted
    change Tidy decode (t.reply submission answer)
    rcases reply_cases t submission answer with heq | ⟨-, -, ⟨hanswer, heq⟩ | ⟨-, heq⟩⟩
    · rw [heq]
      exact ht
    · rw [heq]
      refine ⟨ht.nodup, ht.fresh, ht.past, ht.sent, fun stage hst ↦ ?_⟩
      cases hst
      simp [StageOk, State.hold, t, hanswer]
    · rw [heq]
      exact ⟨ht.nodup, ht.fresh, ht.past, ht.sent, fun _ hst ↦ by cases hst⟩

theorem tidy_of_reachable (hs : (service decode).Reachable s) : Tidy decode s := by
  apply hs.invariant (Tidy decode) ⟨nodup_nil, nofun, nofun, nofun, nofun⟩
  intro _ _ _ h hstep
  exact h.moves (moves_of_step h.nodup h.stage hstep)

/-- No message that has started a turn is left in the queue, but for the one being deleted. The only
submission is that of the holder, and its message is in the queue. -/
structure Once (s : State) : Prop where
  nodup : s.started.Nodup
  consumed : ∀ id ∈ s.started, id ∈ s.queue.map (·.id) → s.holder = some (.consuming id)
  own : s.submissions = [] ∨ ∃ submission, s.submissions = [submission] ∧
    s.holder = some .submitted ∧ submission.record ∈ s.queue ∧
      (submission.automatic = true → s.queue.head? = some submission.record)

namespace Once

variable (h : Once s)
include h

theorem gone (hfree : ∀ id, s.holder ≠ some (.consuming id)) (hid : id ∈ s.started) :
    id ∉ s.queue.map (·.id) :=
  fun hm ↦ hfree id (h.consumed id hid hm)

theorem submissions_eq (hfree : s.holder ≠ some .submitted) : s.submissions = [] := by
  rcases h.own with hnil | ⟨_, -, hholder, -⟩
  · exact hnil
  · exact absurd hholder hfree

omit h in
theorem free_iff : s.holder.any Stage.isOwed = false ↔
    s.holder ≠ some .submitted ∧ ∀ id, s.holder ≠ some (.consuming id) := by
  cases s.holder with
  | none => simp
  | some stage => cases stage <;> simp [Stage.isOwed]

theorem moves (htidy : Tidy decode s) (hok : Consumes s a) (hmoves : Moves decode s a s') :
    Once s' := by
  cases hmoves with
  | wait => exact ⟨h.nodup, h.consumed, h.own⟩
  | enter _ _ _ hfree =>
    obtain ⟨hsub, hcon⟩ := free_iff.mp (hfree hok)
    exact ⟨h.nodup, fun id hid hm ↦ absurd hm (h.gone hcon hid), .inl (h.submissions_eq hsub)⟩
  | append _ hfree =>
    obtain ⟨hsub, hcon⟩ := free_iff.mp hfree
    refine ⟨h.nodup, fun id hid hm ↦ ?_, .inl (h.submissions_eq hsub)⟩
    rw [map_append, mem_append, map_singleton, mem_singleton] at hm
    rcases hm with hold | rfl
    · exact absurd hold (h.gone hcon hid)
    · exact absurd (htidy.past _ hid) (Nat.lt_irrefl _)
  | edit id _ hfree =>
    obtain ⟨hsub, hcon⟩ := free_iff.mp hfree
    refine ⟨h.nodup, fun id hid hm ↦ ?_, .inl (h.submissions_eq hsub)⟩
    rw [ids_edit] at hm
    exact absurd hm (h.gone hcon hid)
  | erase id _ _ _ hfree =>
    have hsub : s.holder ≠ some .submitted := by
      intro hholder
      have := hfree (by rw [hholder]; rfl)
      rw [hholder] at this
      cases this
    refine ⟨h.nodup, fun other ho hm ↦ ?_, .inl (h.submissions_eq hsub)⟩
    rw [ids_erase, mem_filter] at hm
    have hh := h.consumed other ho hm.1
    rw [hfree (by rw [hh]; rfl)] at hh
    cases hh
    simp at hm
  | reorder _ hperm hfree =>
    obtain ⟨hsub, hcon⟩ := free_iff.mp hfree
    refine ⟨h.nodup, fun id hid hm ↦ ?_, .inl (h.submissions_eq hsub)⟩
    rw [ids_reordered hperm] at hm
    exact absurd (hperm.subset hm) (h.gone hcon hid)
  | submit submission hholder =>
    obtain ⟨hrec, hhead⟩ := htidy.stage _ hholder
    have hnil := h.submissions_eq (by rw [hholder]; exact nofun)
    refine ⟨h.nodup, fun id hid hm ↦ ?_, .inr ⟨submission, ?_, rfl, hrec, hhead⟩⟩
    · exact absurd hm (h.gone (by rw [hholder]; exact fun _ ↦ nofun) hid)
    · rw [hnil, nil_append]
  | core submission rest answer hsubs =>
    -- the only submission is that of the holder, which gets the reply
    obtain ⟨own, hown, hholder, hrec, -⟩ := h.own.resolve_left (by rw [hsubs]; exact nofun)
    obtain ⟨rfl, rfl⟩ := cons_eq_cons.mp (hsubs.symm.trans hown)
    have hgone {id : RecordId} (hid : id ∈ s.started) : id ∉ s.queue.map (·.id) :=
      h.gone (by rw [hholder]; exact fun _ ↦ nofun) hid
    rw [State.handle, State.reply, hholder]
    by_cases hanswer : answer = .started
    · simp only [hanswer, if_true]
      refine ⟨h.nodup.append (nodup_singleton _) ?_, fun id hid hm ↦ ?_, .inl rfl⟩
      · rw [disjoint_singleton]
        exact fun hold ↦ hgone hold (mem_map_of_mem hrec)
      · rcases mem_append.mp hid with hold | ht
        · exact absurd hm (hgone hold)
        · rw [mem_singleton.mp ht]
          rfl
    · simp only [hanswer, if_false]
      exact ⟨h.nodup, fun id hid hm ↦ absurd hm (hgone hid), .inl rfl⟩

end Once

theorem leaves_of_moves {record : Record} (hrec : record ∈ s.queue)
    (hmoves : Moves decode s a s') (hgone : record.id ∉ s'.queue.map (·.id)) :
    Leaves decode s record := by
  have hid : record.id ∈ s.queue.map (·.id) := mem_map_of_mem hrec
  cases hmoves with
  | append =>
    rw [map_append] at hgone
    exact absurd (mem_append_left _ hid) hgone
  | edit =>
    rw [ids_edit] at hgone
    exact absurd hid hgone
  | erase _ _ hreason =>
    apply hreason record hrec
    by_contra hne
    apply hgone
    rw [ids_erase, mem_filter]
    exact ⟨hid, bne_iff_ne.mpr hne⟩
  | reorder _ hperm =>
    rw [ids_reordered hperm] at hgone
    exact absurd (hperm.symm.subset hid) hgone
  | wait | enter | submit => exact absurd hid hgone
  | core submission rest answer =>
    apply absurd hid
    rwa [queue_handle] at hgone

/-- In every run in which submitted turns are waited for and the deletion after a start goes through,
no message starts two turns, and what the session loop takes next from automatic dispatch is the first
message of the queue. In all runs a message leaves the queue only for one of the three reasons. -/
theorem queued_messages_start_once (decode : Decoder) :
    (∀ s, (service decode).Guarded Consumes s → s.started.Nodup ∧
        ∀ submission ∈ s.submissions.head?, submission.automatic = true →
          s.queue.head? = some submission.record) ∧
      ∀ s a s', (service decode).Reachable s → s.step decode a = some s' →
        ∀ record ∈ s.queue, record.id ∉ s'.queue.map (·.id) → Leaves decode s record := by
  constructor
  · intro s hs
    have honce : Tidy decode s ∧ Once s := by
      apply hs.invariant fun s ↦ Tidy decode s ∧ Once s
      · exact ⟨tidy_of_reachable .init, nodup_nil, nofun, .inl rfl⟩
      · rintro _ _ _ ⟨htidy, h⟩ hok hstep
        have hmoves := moves_of_step htidy.nodup htidy.stage hstep
        exact ⟨htidy.moves hmoves, h.moves htidy hok hmoves⟩
    refine ⟨honce.2.nodup, fun submission hsub hauto ↦ ?_⟩
    rcases honce.2.own with hnil | ⟨own, hown, -, -, hhead⟩
    · simp [hnil] at hsub
    · rw [hown] at hsub
      cases hsub
      exact hhead hauto
  · intro _ _ _ hs hstep _ hrec hgone
    have htidy := tidy_of_reachable hs
    exact leaves_of_moves hrec (moves_of_step htidy.nodup htidy.stage hstep) hgone

def exampleDecoder : Decoder := fun payload ↦
  if payload = "" then none else some (.userInput payload)

def dispatchedBehindBroken : List Action :=
  [.call (.enqueue ""), .acquire 0, .storage true, .call (.enqueue "hello"), .acquire 0,
    .storage true, .call .dispatch, .acquire 0, .storage true, .storage true, .storage true,
    .submit, .core .started, .storage true]

theorem queued_messages_start_once_dispatched :
    ∃ s, (service exampleDecoder).Guarded Consumes s ∧ s.started.Nodup ∧ s.started = [1] ∧
      s.queue = [] := by
  obtain ⟨s, hs, hcheck⟩ := exists_guarded_of_runIf (service exampleDecoder) Consumes
    dispatchedBehindBroken (fun s ↦ decide (s.started = [1] ∧ s.queue = [])) (by decide +kernel)
  exact ⟨s, hs, ((queued_messages_start_once exampleDecoder).1 s hs).1, of_decide_eq_true hcheck⟩

/-- The deletion after the start fails, and the next idle starts the message once more. -/
def startedTwice : List Action :=
  [.call (.enqueue "hello"), .acquire 0, .storage true, .call .dispatch, .acquire 0, .storage true,
    .submit, .core .started, .storage false, .call .dispatch, .acquire 0, .storage true, .submit,
    .core .started]

/-- The call is dropped while its turn is submitted, and the message is deleted before the session
loop takes it. -/
def submittedThenDeleted : List Action :=
  [.call (.enqueue "hello"), .acquire 0, .storage true, .call .dispatch, .acquire 0, .storage true,
    .submit, .drop, .call (.delete 0), .acquire 0, .storage true]

theorem message_starts_two_turns :
    (∃ s, (service exampleDecoder).Reachable s ∧ ¬ s.started.Nodup) ∧
      ∃ s, (service exampleDecoder).Reachable s ∧ s.queue = [] ∧
        s.submissions.any (·.automatic) = true := by
  obtain ⟨s, hs, hcheck⟩ := exists_reachable_of_run (service exampleDecoder) startedTwice
    (fun s ↦ decide (¬ s.started.Nodup)) (by decide +kernel)
  obtain ⟨t, ht, hcheck'⟩ := exists_reachable_of_run (service exampleDecoder) submittedThenDeleted
    (fun s ↦ decide (s.queue = [] ∧ s.submissions.any (·.automatic) = true)) (by decide +kernel)
  exact ⟨⟨s, hs, of_decide_eq_true hcheck⟩, t, ht, of_decide_eq_true hcheck'⟩

end Slopdex.Queue
