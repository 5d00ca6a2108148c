import Slopdex.Readiness.Flag

/-!
# What holds of the readiness flag in every run

One call makes the flag ready, and it alone sends on the channel afterwards. A waiter that was told
that the flag is not ready and has not subscribed to the channel when the flag becomes ready is woken
only if the send reaches the channel, that is, if some other waiter has subscribed.
-/

namespace Slopdex.Readiness

open Library.KeyedMap Library.Transition Option Bool AList World

variable {call old : Call} {next : Check} {other : ℕ} {w w' : World} {id : ℕ}

namespace World

theorem lookup_setCall_self (w : World) (id : ℕ) (call : Call) :
    (w.setCall id call).calls.lookup id = some call := lookup_insert _

theorem lookup_setCall_of_ne (h : other ≠ id) (w : World) (call : Call) :
    (w.setCall id call).calls.lookup other = w.calls.lookup other := lookup_insert_ne h

theorem lookup_setCall_cases {found : Call}
    (h : (w.setCall id call).calls.lookup other = some found) :
    other = id ∧ found = call ∨ other ≠ id ∧ w.calls.lookup other = some found :=
  lookup_insert_cases h

theorem hasReceiver_iff : w.hasReceiver = true ↔
    ∃ id call, w.calls.lookup id = some call ∧ call.receiver.isSome = true := by
  unfold hasReceiver
  rw [List.any_eq_true]
  constructor
  · rintro ⟨⟨id, call⟩, hm, hr⟩
    exact ⟨id, call, mem_lookup_iff.mpr hm, hr⟩
  · rintro ⟨id, call, hlook, hr⟩
    exact ⟨⟨id, call⟩, mem_lookup_iff.mp hlook, hr⟩

theorem send_calls (w : World) : w.send.calls = w.calls := by
  unfold send
  split_ifs <;> rfl

theorem send_ready (w : World) : w.send.ready = w.ready := by
  unfold send
  split_ifs <;> rfl

theorem send_tokens (w : World) : w.send.tokens = w.tokens := by
  unfold send
  split_ifs <;> rfl

end World

/-- No two calls satisfy `p`. -/
def AtMostOne (p : Call → Bool) (w : World) : Prop :=
  ∀ id call id' call', w.calls.lookup id = some call → p call = true →
    w.calls.lookup id' = some call' → p call' = true → id = id'

theorem AtMostOne.setCall {p : Call → Bool} (hw : AtMostOne p w)
    (h : p call = true → ∀ other found, other ≠ id → w.calls.lookup other = some found →
      p found = false) : AtMostOne p (w.setCall id call) := by
  intro other found other' found' hlook hf hl' hf'
  rcases lookup_setCall_cases hlook with ⟨rfl, rfl⟩ | ⟨hne, hold⟩
  · rcases lookup_setCall_cases hl' with ⟨rfl, -⟩ | ⟨hne, hold⟩
    · rfl
    · rw [h hf other' found' hne hold] at hf'
      cases hf'
  · rcases lookup_setCall_cases hl' with ⟨rfl, rfl⟩ | ⟨-, ho'⟩
    · rw [h hf' other found hne hold] at hf
      cases hf
    · exact hw other found other' found' hold hf ho' hf'

structure Coherent (w : World) : Prop where
  tokens : w.ready = true → w.tokens = []
  value : w.value = true → w.ready = true
  /-- The waiters have not been told yet. -/
  announcing : ∀ id call, w.calls.lookup id = some call → call.announces = true →
    w.ready = true ∧ w.value = false
  announcer : AtMostOne Call.announces w
  marked : ∀ id call, w.calls.lookup id = some call → call.marks = true → w.ready = true
  marker : AtMostOne Call.marks w
  seen : ∀ id call seen, w.calls.lookup id = some call → call.receiver = some seen →
    seen ≤ w.version
  parked : ∀ id seen, w.value = true → w.calls.lookup id = some (.waitReady (.changed seen)) →
    seen < w.version

inductive Moves (w : World) (id : ℕ) : World → Prop
  /-- The flag stays, and the call gets to a step that nothing is known of. -/
  | quiet {call : Call} (hold : ∀ old, w.calls.lookup id = some old → old.announces = false)
      (hannounces : call.announces = false) (hmarks : call.marks = false)
      (hawaits : call.awaits = false) (htoken : ∀ token, call ≠ .returned (.subscribed token)) :
      Moves w id (w.setCall id call)
  | subscribed {token nextId : Token} (hready : w.ready = false) :
      Moves w id ({ w with tokens := token :: w.tokens, nextId }.setCall id
        (.returned (.subscribed token)))
  /-- The call makes the flag ready, and is the one to tell the waiters. -/
  | ready {call : Call} (hready : w.ready = false) (hannounces : call.announces = true) :
      Moves w id ({ w with ready := true, tokens := [] }.setCall id call)
  | sent {old call : Call} (hold : w.calls.lookup id = some old) (hannounces : old.announces = true)
      (hcall : call = .returned (.isReady true) ∨ call = .returned .waited ∨
        old = .markSend ∧ call = .returned (.marked true)) :
      Moves w id (w.send.setCall id call)
  | refused (hold : ∀ old, w.calls.lookup id = some old → old.announces = false)
      (hready : w.ready = false) : Moves w id (w.setCall id (.waitReady .subscribe))
  | listen (hold : w.calls.lookup id = some (.waitReady .subscribe)) :
      Moves w id (w.setCall id (.waitReady (.borrow w.version)))
  | park {seen : ℕ} (hold : w.calls.lookup id = some (.waitReady (.borrow seen)))
      (hvalue : w.value = false) : Moves w id (w.setCall id (.waitReady (.changed seen)))
  | wake {seen : ℕ} (hold : w.calls.lookup id = some (.waitReady (.changed seen)))
      (hseen : seen ≠ w.version) : Moves w id (w.setCall id (.waitReady (.borrow w.version)))

/-- A step of `is_ready`: it goes on, it answers, it makes the flag ready or it has told the waiters. -/
theorem check_cases (w : World) (next : Check) :
    (∃ after, after ≠ .send ∧ next ≠ .send ∧ w.check next = (w, .inl after)) ∨
    (∃ answer, (answer = false → w.ready = false) ∧ next ≠ .send ∧
      w.check next = (w, .inr answer)) ∨
    (w.ready = false ∧ w.check next = ({ w with ready := true, tokens := [] }, .inl .send)) ∨
    next = .send ∧ w.check next = (w.send, .inr true) := by
  cases next with
  | load =>
    by_cases hrdy : w.ready = true
    · refine .inr (.inl ⟨true, nofun, nofun, ?_⟩)
      unfold check
      rw [if_pos hrdy]
    · refine .inl ⟨.tryLock, nofun, nofun, ?_⟩
      unfold check
      rw [if_neg hrdy]
  | tryLock =>
    by_cases ht : w.tokens = []
    · by_cases hrdy : w.ready = true
      · refine .inr (.inl ⟨true, nofun, nofun, ?_⟩)
        have hs : { w with ready := true } = w := by rw [← hrdy]
        unfold check
        dsimp only
        rw [if_pos ht, if_pos hrdy, hs]
      · refine .inr (.inr (.inl ⟨eq_false_of_not_eq_true hrdy, ?_⟩))
        unfold check
        dsimp only
        rw [if_pos ht, if_neg hrdy, ht]
    · refine .inl ⟨.reload, nofun, nofun, ?_⟩
      unfold check
      rw [if_neg ht]
  | reload => exact .inr (.inl ⟨w.ready, id, nofun, rfl⟩)
  | send => exact .inr (.inr (.inr ⟨rfl, rfl⟩))

namespace Moves

theorem quiet_of_lookup (hlook : w.calls.lookup id = some old)
    (hold : old.announces = false) (ha : call.announces = false)
    (hmarks : call.marks = false) (hwa : call.awaits = false)
    (htoken : ∀ token, call ≠ .returned (.subscribed token)) : Moves w id (w.setCall id call) := by
  refine .quiet (fun old' hl' ↦ ?_) ha hmarks hwa htoken
  rw [hlook] at hl'
  cases hl'
  exact hold

theorem announces_isReady (h : next ≠ .send) :
    (Call.isReady next).announces = false ∧ (Call.waitReady (.isReady next)).announces = false := by
  cases next <;> first | exact ⟨rfl, rfl⟩ | exact absurd rfl h

theorem isReady (hlook : w.calls.lookup id = some (.isReady next)) :
    Moves w id (continueIsReady id (w.check next)) := by
  rcases check_cases w next with ⟨_, ha, hn, heq⟩ | ⟨_, -, hn, heq⟩ |
    ⟨hrdy, heq⟩ | ⟨rfl, heq⟩
  · rw [heq]
    exact quiet_of_lookup hlook (announces_isReady hn).1 (announces_isReady ha).1 rfl rfl
      nofun
  · rw [heq]
    exact quiet_of_lookup hlook (announces_isReady hn).1 rfl rfl rfl nofun
  · rw [heq]
    exact .ready hrdy rfl
  · exact .sent hlook rfl (.inl rfl)

theorem waitReady (hlook : w.calls.lookup id = some (.waitReady (.isReady next))) :
    Moves w id (continueWaitReady id (w.check next)) := by
  rcases check_cases w next with ⟨_, haf, hn, heq⟩ | ⟨answer, ha, hn, heq⟩ |
    ⟨hrdy, heq⟩ | ⟨rfl, heq⟩
  · rw [heq]
    exact quiet_of_lookup hlook (announces_isReady hn).2 (announces_isReady haf).2 rfl rfl
      nofun
  · rw [heq]
    cases answer with
    | true => exact quiet_of_lookup hlook (announces_isReady hn).2 rfl rfl rfl nofun
    | false =>
      refine .refused (fun old hold ↦ ?_) (ha rfl)
      rw [hlook] at hold
      cases hold
      exact (announces_isReady hn).2
  · rw [heq]
    exact .ready hrdy rfl
  · exact .sent hlook rfl (.inr (.inl rfl))

/-- `tokens` of `Coherent` is needed where a token is found: then the flag is not ready. -/
theorem proceed (hw : Coherent w) (hlook : w.calls.lookup id = some call)
    (h : w.proceed id call = some w') : Moves w id w' := by
  cases call with
  | isReady =>
    cases h
    exact isReady hlook
  | subscribeLock =>
    unfold proceed at h
    dsimp only at h
    split_ifs at h with hrdy
    · cases h
      exact quiet_of_lookup hlook rfl rfl rfl rfl nofun
    · obtain ⟨⟨_, _⟩, -, rfl⟩ := map_eq_some_iff.mp h
      exact .subscribed (eq_false_of_not_eq_true hrdy)
  | subscribeLoad | markLoad =>
    cases h
    split_ifs
    all_goals exact quiet_of_lookup hlook rfl rfl rfl rfl nofun
  | markLock =>
    unfold proceed at h
    dsimp only at h
    split_ifs at h with htoken
    · cases h
      apply Moves.ready _ rfl
      by_contra hrdy
      rw [hw.tokens (by simpa using hrdy)] at htoken
      cases htoken
    · cases h
      exact quiet_of_lookup hlook rfl rfl rfl rfl nofun
  | markSend =>
    cases h
    exact .sent hlook rfl (.inr (.inr ⟨rfl, rfl⟩))
  | waitReady next =>
    cases next with
    | isReady =>
      cases h
      exact waitReady hlook
    | subscribe =>
      cases h
      exact .listen hlook
    | borrow =>
      cases h
      split_ifs with hvalue
      · exact quiet_of_lookup hlook rfl rfl rfl rfl nofun
      · exact .park hlook (eq_false_of_not_eq_true hvalue)
    | changed =>
      unfold proceed at h
      dsimp only at h
      split_ifs at h with hseen
      cases h
      exact .wake hlook hseen
  | returned => cases h

theorem contended (hlook : w.calls.lookup id = some call)
    (h : w.contended id call = some w') : Moves w id w' := by
  unfold World.contended at h
  split at h <;> cases h <;> exact quiet_of_lookup hlook rfl rfl rfl rfl nofun

theorem drop (hlook : w.calls.lookup id = some call)
    (h : w.drop id call = some w') : Moves w id w' := by
  unfold World.drop at h
  split at h <;> cases h <;> exact quiet_of_lookup hlook rfl rfl rfl rfl nofun

end Moves

theorem moves_of_step {act : Action} (hw : Coherent w) (h : flag.step w act = some w') :
    Moves w act.target w' := by
  cases act with
  | call id request =>
    change (if (w.calls.lookup id).isSome then none
      else some (w.setCall id (begin request))) = some w' at h
    split_ifs at h with hn
    cases h
    refine .quiet (fun old hold ↦ ?_) ?_ ?_ ?_ ?_
    · change w.calls.lookup id = some old at hold
      rw [hold] at hn
      exact absurd rfl hn
    · cases request <;> rfl
    · cases request <;> rfl
    · cases request <;> rfl
    · cases request <;> nofun
  | proceed =>
    obtain ⟨_, hlook, hcall⟩ := bind_eq_some_iff.mp h
    exact .proceed hw hlook hcall
  | contended =>
    obtain ⟨_, hlook, hcall⟩ := bind_eq_some_iff.mp h
    exact .contended hlook hcall
  | drop =>
    obtain ⟨_, hlook, hcall⟩ := bind_eq_some_iff.mp h
    exact .drop hlook hcall

namespace Coherent

section

variable (hw : Coherent w)
include hw

theorem setCall (ha : call.announces = false) (hmarks : call.marks = false)
    (hseen : ∀ seen, call.receiver = some seen → seen ≤ w.version)
    (hparked : ∀ seen, w.value = true → call = .waitReady (.changed seen) → seen < w.version) :
    Coherent (w.setCall id call) where
  tokens := hw.tokens
  value := hw.value
  announcing other found hlook hf := by
    rcases lookup_setCall_cases hlook with ⟨-, rfl⟩ | ⟨-, hold⟩
    · rw [ha] at hf
      cases hf
    · exact hw.announcing other found hold hf
  announcer := hw.announcer.setCall fun hcall ↦ absurd hcall (ha ▸ false_ne_true)
  marked other found hlook hf := by
    rcases lookup_setCall_cases hlook with ⟨-, rfl⟩ | ⟨-, hold⟩
    · rw [hmarks] at hf
      cases hf
    · exact hw.marked other found hold hf
  marker := hw.marker.setCall fun hcall ↦ absurd hcall (hmarks ▸ false_ne_true)
  seen other found seen hlook hr := by
    rcases lookup_setCall_cases hlook with ⟨-, rfl⟩ | ⟨-, hold⟩
    · exact hseen seen hr
    · exact hw.seen other found seen hold hr
  parked other seen hvalue hlook := by
    rcases lookup_setCall_cases hlook with ⟨-, heq⟩ | ⟨-, hold⟩
    · exact hparked seen hvalue heq.symm
    · exact hw.parked other seen hvalue hold

theorem value_eq_false (h : w.ready = false) : w.value = false := by
  by_contra hvalue
  rw [hw.value (by simpa using hvalue)] at h
  cases h

theorem announces_eq_false (h : w.ready = false)
    (hlook : w.calls.lookup id = some call) : call.announces = false := by
  by_contra ha
  rw [(hw.announcing id call hlook (by simpa using ha)).1] at h
  cases h

theorem marks_eq_false (h : w.ready = false)
    (hlook : w.calls.lookup id = some call) : call.marks = false := by
  by_contra hmarks
  rw [hw.marked id call hlook (by simpa using hmarks)] at h
  cases h

omit hw in
theorem receiver_eq_none (h : call.announces = true ∨ call.awaits = false) :
    call.receiver = none := by
  cases call with
  | waitReady next =>
    cases next with
    | isReady | subscribe => rfl
    | borrow | changed =>
      rcases h with h | h
      all_goals cases h
  | _ => rfl

theorem ready (hrdy : w.ready = false) (ha : call.announces = true) :
    Coherent ({ w with ready := true, tokens := [] }.setCall id call) where
  tokens _ := rfl
  value _ := rfl
  announcing _ _ _ _ := ⟨rfl, hw.value_eq_false hrdy⟩
  announcer := AtMostOne.setCall hw.announcer fun _ _ _ _ hold ↦ hw.announces_eq_false hrdy hold
  marked _ _ _ _ := rfl
  marker := AtMostOne.setCall hw.marker fun _ _ _ _ hold ↦ hw.marks_eq_false hrdy hold
  seen other found seen hlook hr := by
    rcases lookup_setCall_cases hlook with ⟨-, rfl⟩ | ⟨-, hold⟩
    · rw [receiver_eq_none (.inl ha)] at hr
      cases hr
    · exact hw.seen other found seen hold hr
  parked other seen hvalue hlook := by
    rw [hw.value_eq_false hrdy] at hvalue
    cases hvalue

theorem send (hlook : w.calls.lookup id = some old)
    (hold : old.announces = true) (ha : call.announces = false)
    (hr : call.receiver = none) (hmarks : call.marks = true → old.marks = true) :
    Coherent (w.send.setCall id call) := by
  obtain ⟨hrdy, hvalue⟩ := hw.announcing id old hlook hold
  have hc : ∀ other found, (w.send.setCall id call).calls.lookup other = some found →
      other = id ∧ found = call ∨ other ≠ id ∧ w.calls.lookup other = some found := by
    intro _ _ hf
    have := lookup_setCall_cases hf
    rwa [send_calls] at this
  have hv : w.version ≤ w.send.version := by
    unfold World.send
    split_ifs
    · exact Nat.le_succ _
    · rfl
  constructor
  · intro _
    change w.send.tokens = []
    rw [send_tokens]
    exact hw.tokens hrdy
  · intro _
    change w.send.ready = true
    rw [send_ready]
    exact hrdy
  · intro other found hf ho
    rcases hc other found hf with ⟨-, rfl⟩ | ⟨hne, hf⟩
    · rw [ha] at ho
      cases ho
    · exact absurd (hw.announcer other found id old hf ho hlook hold) hne
  · apply AtMostOne.setCall
    · intro other found other' found' hf ho
      rw [send_calls] at hf ⊢
      exact hw.announcer other found other' found' hf ho
    · intro hcall
      rw [ha] at hcall
      cases hcall
  · intro _ _ _ _
    change w.send.ready = true
    rw [send_ready]
    exact hrdy
  · apply AtMostOne.setCall
    · intro other found other' found' hf ho
      rw [send_calls] at hf ⊢
      exact hw.marker other found other' found' hf ho
    · intro hcall other found hne hf
      rw [send_calls] at hf
      by_contra ho
      exact hne (hw.marker other found id old hf (by simpa using ho) hlook (hmarks hcall))
  · intro other found seen hf hseen
    rcases hc other found hf with ⟨-, rfl⟩ | ⟨-, hf⟩
    · rw [hr] at hseen
      cases hseen
    · exact (hw.seen other found seen hf hseen).trans hv
  · intro other seen hs hf
    rcases hc other _ hf with ⟨-, rfl⟩ | ⟨-, hf⟩
    · cases hr
    · have hle : seen ≤ w.version := hw.seen other _ seen hf rfl
      change w.send.value = true at hs
      unfold World.send at hs ⊢
      split_ifs at hs ⊢
      · exact Nat.lt_succ_of_le hle
      · rw [hvalue] at hs
        cases hs

theorem moves (h : Moves w id w') : Coherent w' := by
  cases h with
  | quiet _ ha hmarks hwa =>
    apply hw.setCall ha hmarks
    · intro _ hseen
      rw [receiver_eq_none (.inr hwa)] at hseen
      cases hseen
    · rintro _ - rfl
      cases hwa
  | @subscribed token nextId hrdy =>
    have hb : Coherent { w with tokens := token :: w.tokens, nextId } :=
      { hw with tokens := fun ht ↦ absurd ht (hrdy ▸ false_ne_true) }
    exact hb.setCall rfl rfl nofun nofun
  | ready hrdy ha => exact hw.ready hrdy ha
  | sent hold ha hcall =>
    rcases hcall with rfl | rfl | ⟨rfl, rfl⟩
    · exact hw.send hold ha rfl rfl nofun
    · exact hw.send hold ha rfl rfl nofun
    · exact hw.send hold ha rfl rfl fun _ ↦ rfl
  | refused => exact hw.setCall rfl rfl nofun nofun
  | listen =>
    apply hw.setCall rfl rfl
    · intro _ hseen
      cases hseen
      rfl
    · nofun
  | park hold hvalue =>
    apply hw.setCall rfl rfl
    · intro _ hseen
      cases hseen
      exact hw.seen id _ _ hold rfl
    · intro _ ht
      rw [hvalue] at ht
      cases ht
  | wake _ hseen =>
    apply hw.setCall rfl rfl
    · intro _ hseen
      cases hseen
      rfl
    · nofun

end

end Coherent

theorem coherent_of_reachable (h : flag.Reachable w) : Coherent w := by
  apply h.invariant Coherent
  · exact ⟨nofun, nofun, nofun, nofun, nofun, nofun, nofun, nofun⟩
  · intro _ _ _ hw hstep
    exact hw.moves (moves_of_step hw hstep)

/-! ## Waking the waiters -/

/-- A send without any receiver comes when no waiter is about to subscribe to the channel. -/
def Audible (w : World) (action : Action) : Prop :=
  (w.calls.lookup action.target).any Call.announces = true → w.hasReceiver = false →
    ∀ entry ∈ w.calls.entries, entry.2 ≠ .waitReady .subscribe

instance (w : World) (action : Action) : Decidable (Audible w action) :=
  inferInstanceAs (Decidable (_ → _ → ∀ entry ∈ w.calls.entries, entry.2 ≠ .waitReady .subscribe))

/-- If the flag is ready and the channel was not told, no waiter relies on the channel. -/
def Heard (w : World) : Prop :=
  w.ready = true → w.value = false →
    (∀ id call, w.calls.lookup id = some call → call.announces = false) →
    ∀ id call, w.calls.lookup id = some call → call.awaits = false

/-- A step of a waiter on the channel, which there is none of. -/
theorem Heard.of_awaits (hw : Heard w) (hlook : w.calls.lookup id = some old)
    (hold : old.announces = false) (hwa : old.awaits = true) : Heard (w.setCall id call) := by
  intro hrdy hvalue hquiet
  have hn : ∀ other found, w.calls.lookup other = some found → found.announces = false := by
    intro other found hf
    by_cases hne : other = id
    · subst hne
      rw [hlook] at hf
      cases hf
      exact hold
    · exact hquiet other found ((lookup_setCall_of_ne hne w call).trans hf)
  have := hw hrdy hvalue hn id old hlook
  rw [hwa] at this
  cases this

theorem Heard.moves {act : Action} (hw : Heard w) (ha : Audible w act)
    (h : Moves w act.target w') : Heard w' := by
  cases h with
  | quiet hold _ _ hwa =>
    intro hrdy hvalue hquiet other found hf
    rcases lookup_setCall_cases hf with ⟨-, rfl⟩ | ⟨-, hf⟩
    · exact hwa
    · refine hw hrdy hvalue (fun other found hf ↦ ?_) other found hf
      by_cases hne : other = act.target
      · subst hne
        exact hold found hf
      · exact hquiet other found ((lookup_setCall_of_ne hne w _).trans hf)
  | subscribed hrdy =>
    intro ht
    rw [hrdy] at ht
    cases ht
  | ready _ han =>
    intro _ _ hquiet
    have := hquiet act.target _ (lookup_setCall_self _ _ _)
    rw [han] at this
    cases this
  | @sent _ _ hold han hcall =>
    intro _ hvalue _ other found hf
    have hr : w.hasReceiver = false := by
      by_contra hr
      unfold send at hvalue
      rw [if_pos (by simpa using hr)] at hvalue
      cases hvalue
    have hsu := ha (by rw [hold]; exact han) hr
    rcases lookup_setCall_cases hf with ⟨-, rfl⟩ | ⟨-, hf⟩
    · rcases hcall with rfl | rfl | ⟨-, rfl⟩ <;> rfl
    · rw [send_calls] at hf
      -- without a receiver, a waiter on the channel is about to subscribe
      by_contra hwa
      have hn : found.receiver = none := by
        by_contra hs
        have := hasReceiver_iff.mpr ⟨other, found, hf, isSome_iff_ne_none.mpr hs⟩
        rw [hr] at this
        cases this
      apply hsu ⟨other, found⟩ (mem_lookup_iff.mp hf)
      unfold Call.awaits at hwa
      split at hwa
      · rfl
      · cases hn
      · cases hn
      · exact absurd rfl hwa
  | refused _ hrdy =>
    intro ht
    change w.ready = true at ht
    rw [hrdy] at ht
    cases ht
  | listen hold | park hold | wake hold => exact hw.of_awaits hold rfl rfl

theorem heard_of_guarded (h : flag.Guarded Audible w) : Heard w := by
  have hb : Coherent w ∧ Heard w := by
    apply h.invariant fun w ↦ Coherent w ∧ Heard w
    · exact ⟨coherent_of_reachable .init, nofun⟩
    · intro _ _ _ hw hok hstep
      have hm := moves_of_step hw.1 hstep
      exact ⟨hw.1.moves hm, hw.2.moves hok hm⟩
  exact hb.2

theorem ready_of_moves (h : Moves w id w') (hrdy : w.ready = true) : w'.ready = true := by
  cases h with
  | ready => rfl
  | sent =>
    change w.send.ready = true
    rw [send_ready]
    exact hrdy
  | quiet | subscribed | refused | listen | park | wake => exact hrdy

theorem returned_subscribed_of_moves {token : Token} (h : Moves w id w') (hrdy : w.ready = true)
    (hretained : w'.calls.lookup other = some (.returned (.subscribed token))) :
    w.calls.lookup other = some (.returned (.subscribed token)) := by
  have ho : ∀ {base : World} {call : Call}, base.calls = w.calls →
      (base.setCall id call).calls.lookup other = some (.returned (.subscribed token)) →
      call ≠ .returned (.subscribed token) →
      w.calls.lookup other = some (.returned (.subscribed token)) := by
    intro _ _ hb hlook hcall
    rcases lookup_setCall_cases hlook with ⟨-, heq⟩ | ⟨-, hold⟩
    · exact absurd heq.symm hcall
    · rw [← hb]
      exact hold
  cases h with
  | quiet _ _ _ _ htoken => exact ho rfl hretained (htoken token)
  | subscribed hf | ready hf =>
    rw [hrdy] at hf
    cases hf
  | sent _ _ hcall =>
    rcases hcall with rfl | rfl | ⟨-, rfl⟩ <;> exact ho (send_calls w) hretained nofun
  | refused | listen | park | wake => exact ho rfl hretained nofun

/-- Once ready the flag stays ready; one call at most returns that it has marked the flag; no token is
given out for a ready flag; and if no call has yet to tell the waiters, a waiter that is parked on
the channel has a change to see, or the flag is not ready. -/
theorem readiness_flag_wakes_waiters (w : World) (hw : flag.Guarded Audible w) :
    (∀ action w', flag.step w action = some w' → w.ready = true → w'.ready = true) ∧
    (∀ id id', w.calls.lookup id = some (.returned (.marked true)) →
      w.calls.lookup id' = some (.returned (.marked true)) → id = id') ∧
    (∀ action w' id token, flag.step w action = some w' → w.ready = true →
      w'.calls.lookup id = some (.returned (.subscribed token)) →
      w.calls.lookup id = some (.returned (.subscribed token))) ∧
    ((∀ id call, w.calls.lookup id = some call → call.announces = false) →
      ∀ id seen, w.calls.lookup id = some (.waitReady (.changed seen)) →
        w.ready = false ∨ seen ≠ w.version) := by
  have hcoherent := coherent_of_reachable hw.reachable
  refine ⟨?_, ?_, ?_, ?_⟩
  · intro _ _ hstep hrdy
    exact ready_of_moves (moves_of_step hcoherent hstep) hrdy
  · intro id id' hmarked hmarked'
    exact hcoherent.marker id _ id' _ hmarked rfl hmarked' rfl
  · intro _ _ _ _ hstep hrdy hretained
    exact returned_subscribed_of_moves (moves_of_step hcoherent hstep) hrdy hretained
  · intro hquiet id seen hparked
    by_cases hrdy : w.ready = true
    · have hvalue : w.value = true := by
        by_contra hvalue
        have := heard_of_guarded hw hrdy (by simpa using hvalue) hquiet id _ hparked
        cases this
      exact .inr (hcoherent.parked id seen hvalue hparked).ne
    · exact .inl (by simpa using hrdy)

def parkedThenMarked : List Action :=
  [.call 0 .subscribe, .proceed 0, .proceed 0, .call 1 .waitReady, .proceed 1, .proceed 1, .proceed 1,
    .proceed 1, .proceed 1, .call 2 (.markReady 1), .proceed 2, .proceed 2, .proceed 2]

theorem readiness_flag_wakes_waiters_parked :
    ∃ w, flag.Guarded Audible w ∧ w.ready = true ∧
      w.calls.lookup 1 = some (.waitReady (.changed 0)) ∧ 0 ≠ w.version := by
  obtain ⟨w, hw, hcheck⟩ := System.exists_guarded_of_runIf flag Audible parkedThenMarked
    (fun w ↦ w.ready && decide (w.calls.lookup 1 = some (.waitReady (.changed 0))) &&
      w.calls.entries.all fun entry ↦ !entry.2.announces) (by decide +kernel)
  simp only [and_eq_true, decide_eq_true_eq, List.all_eq_true, not_eq_true'] at hcheck
  obtain ⟨⟨hrdy, hparked⟩, hquiet⟩ := hcheck
  have hwake := (readiness_flag_wakes_waiters w hw).2.2.2
    (fun id call hlook ↦ hquiet ⟨id, call⟩ (mem_lookup_iff.mp hlook)) 1 0 hparked
  refine ⟨w, hw, hrdy, hparked, hwake.resolve_left ?_⟩
  rw [hrdy]
  exact Bool.noConfusion

def markedBeforeSubscribed : List Action :=
  [.call 0 .subscribe, .proceed 0, .proceed 0, .call 1 .waitReady, .proceed 1, .proceed 1, .proceed 1,
    .call 2 (.markReady 1), .proceed 2, .proceed 2, .proceed 2, .proceed 1, .proceed 1]

/-- The send fails, since there is no receiver yet, and the waiter parks on a channel that nothing is
sent on any more. -/
theorem wakeup_lost :
    ∃ w, flag.Reachable w ∧
      ((∀ id call, w.calls.lookup id = some call → call.announces = false) ∧ w.ready = true ∧
        w.calls.lookup 2 = some (.returned (.marked true)) ∧
        w.calls.lookup 1 = some (.waitReady (.changed w.version))) := by
  obtain ⟨w, hw, hcheck⟩ := System.exists_reachable_of_run flag markedBeforeSubscribed
    (fun w ↦ (w.ready && decide (w.calls.lookup 2 = some (.returned (.marked true)))) &&
      decide (w.calls.lookup 1 = some (.waitReady (.changed w.version))) &&
      w.calls.entries.all fun entry ↦ !entry.2.announces) (by decide +kernel)
  simp only [and_eq_true, decide_eq_true_eq, List.all_eq_true, not_eq_true'] at hcheck
  obtain ⟨⟨⟨hrdy, hmarked⟩, hparked⟩, hquiet⟩ := hcheck
  exact ⟨w, hw, fun id call hlook ↦ hquiet ⟨id, call⟩ (mem_lookup_iff.mp hlook), hrdy,
    hmarked, hparked⟩

end Slopdex.Readiness
