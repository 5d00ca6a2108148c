import Mathlib.Data.List.DropRight
import Slopdex.Library.TurnCut
import Slopdex.Rollout.Items

/-!
# The history of a conversation

The session keeps the items that it sends to the model. Items are recorded at the end, and the newest
user turns can be dropped. Each entry also has the position of the record of the rollout it comes
from, which nothing in the session reads: it says which messages of the rollout are left.
-/

namespace Slopdex.Rollout

open Protocol (Text)
open Library List Nat TurnCut

/-- What the reconstruction calls and does not contain. -/
structure Environment where
  fragments : Fragments
  /-- `truncate_function_output_payload` with the limit of the envelope or the policy of the model -/
  truncateOutput : Option ℕ → Text → Text
  /-- `build_compacted_history` of the user messages that are collected from the items -/
  buildCompactedHistory : List ResponseItemEnvelope → Text → List ResponseItemEnvelope
  parseUuidV7 : Text → Option Text
  applyMergePatch : Text → Text → Text

/-- Texts that begin with `<` are context, and nothing is truncated. -/
def exampleEnvironment : Environment where
  fragments :=
    { contextualUser := fun text ↦ text.head? == some '<'
      rebuiltEachStep := fun _ ↦ false
      interAgent := fun _ ↦ false
      hookPrompt := fun _ ↦ false }
  truncateOutput := fun _ output ↦ output
  buildCompactedHistory := fun items _ ↦ items
  parseUuidV7 := some
  applyMergePatch := fun _ patch ↦ patch

structure HistoryEntry where
  envelope : ResponseItemEnvelope
  /-- The position in the rollout, unless the entry is from a compaction -/
  origin : Option ℕ

def ResponseItem.stampedTurn : ResponseItem → Option Text
  | .message _ _ turnId _ => turnId.filter (· ≠ [])
  | .agentMessage _ _ _ turnId => turnId.filter (· ≠ [])
  | _ => none

/-- `InterAgentCommunication::to_model_input_item` -/
def InterAgentCommunication.toModelInputItem (communication : InterAgentCommunication) :
    ResponseItem :=
  let content := match communication.encryptedContent with
    | some payload =>
      let messageType := if communication.triggerTurn then "NEW_TASK" else "MESSAGE"
      [.inputText ("Message Type: ".toList ++ messageType.toList ++ "\nTask name: ".toList ++
        communication.recipient ++ "\nSender: ".toList ++ communication.author ++
        "\nPayload:\n".toList), .encryptedContent payload]
    | none => [.inputText communication.content]
  .agentMessage communication.author communication.recipient content communication.turnId

def annotatedContent (content : List ContentItem) (kinds : Option (List Text)) :
    List (ContentItem × Text) :=
  content.zip (kinds.getD [] ++ replicate content.length "unknown".toList)

variable (env : Environment)

namespace HistoryEntry

def isBoundary (entry : HistoryEntry) : Bool :=
  isUserTurnBoundary env.fragments entry.envelope.item

def isContext (entry : HistoryEntry) : Bool :=
  isContextUpdate env.fragments entry.envelope.item

def withoutRebuilt (turn : Text) (entry : HistoryEntry) : Option HistoryEntry :=
  match entry.envelope.item with
  | .message role content turnId kinds =>
    if entry.envelope.item.stampedTurn = some turn ∧ role = "developer".toList then
      let left := (annotatedContent content kinds).filter fun annotated ↦
        !annotated.1.isText env.fragments.rebuiltEachStep
      if left.isEmpty then none
      else
        let item := .message role (left.map Prod.fst) turnId (some (left.map Prod.snd))
        some { entry with envelope := { entry.envelope with item := item } }
    else some entry
  | _ => some entry

end HistoryEntry

open HistoryEntry

abbrev History := List HistoryEntry

/-- What is kept of a recorded item: the output of a tool is truncated. -/
def processed (envelope : ResponseItemEnvelope) : ResponseItemEnvelope :=
  match envelope.item with
  | .toolCallOutput callId output =>
    { envelope with
      item := .toolCallOutput callId
        (env.truncateOutput envelope.fallbackTokenLimitOverride output) }
  | _ => envelope

namespace History

/-- `record_items_with_metadata` for the item of the record at a position. -/
def recordItem (index : ℕ) (envelope : ResponseItemEnvelope) (history : History) : History :=
  if isApiMessage envelope.item then history ++ [⟨processed env envelope, some index⟩] else history

def dropLastNUserTurns (numTurns : ℕ) (history : History) : History :=
  match cut (isBoundary env) (isContext env) numTurns history with
  | none => history
  | some (first, cut) =>
    let retained := history.take cut
    if cut = first then
      match history[first]?.bind fun entry ↦ entry.envelope.item.stampedTurn with
      | some turn => retained.filterMap (withoutRebuilt env turn)
      | none => retained
    else retained

def trimmedContext (numTurns : ℕ) (history : History) : List HistoryEntry :=
  match cut (isBoundary env) (isContext env) numTurns history with
  | none => []
  | some (_, cut) => (history.drop cut).takeWhile (isContext env)

def beforeFirstTurn (opener : HistoryEntry) (head : History) : History :=
  match opener.envelope.item.stampedTurn with
  | some turn => head.filterMap (withoutRebuilt env turn)
  | none => head

def messages (history : History) : List (Option ℕ) :=
  (history.filter (isBoundary env)).map origin

end History

variable {env} {entry : HistoryEntry} {history : History} {n : ℕ} {turn : Text}

theorem HistoryEntry.isContext_of_isBoundary (h : entry.isBoundary env = true) :
    entry.isContext env = false :=
  isContextUpdate_of_isUserTurnBoundary h

theorem HistoryEntry.isBoundary_withoutRebuilt {kept : HistoryEntry}
    (h : entry.withoutRebuilt env turn = some kept) :
    kept.isBoundary env = entry.isBoundary env := by
  unfold withoutRebuilt at h
  split at h
  next role _ _ _ hi =>
    by_cases hd : entry.envelope.item.stampedTurn = some turn ∧ role = "developer".toList
    · rw [if_pos hd] at h
      dsimp only at h
      split_ifs at h
      cases h
      unfold isBoundary
      rw [hi, hd.2]
      rfl
    · rw [if_neg hd] at h
      cases h
      rfl
  next =>
    cases h
    rfl

theorem isUserTurnBoundary_processed (envelope : ResponseItemEnvelope) :
    isUserTurnBoundary env.fragments (processed env envelope).item =
      isUserTurnBoundary env.fragments envelope.item := by
  unfold processed
  split
  next hi => rw [hi]; rfl
  next => rfl

namespace History

def RollsBack (env : Environment) (n : ℕ) (history left context : History) : Prop :=
  dropLastNUserTurns env n history = left ∧ trimmedContext env n history = context

section

variable {head tail : History} {opener : HistoryEntry}

theorem rollsBack_of_mem (ho : opener.isBoundary env = true)
    (hc : (opener :: tail).countP (isBoundary env) = n)
    (hh : ∃ entry ∈ head, entry.isBoundary env = true) :
    RollsBack env n (head ++ opener :: tail) (head.rdropWhile (isContext env))
      (head.rtakeWhile (isContext env)) := by
  have hn : 0 < n := by
    rw [← hc, countP_cons_of_pos ho]
    exact succ_pos _
  have he (entry : HistoryEntry) : entry.isBoundary env = true →
      entry.isContext env = false := isContext_of_isBoundary
  obtain ⟨first, k, hcu, hf, ht⟩ :=
    cut_append_of_mem he ho hn hc hh
  have hd : (head ++ opener :: tail).drop k =
      head.rtakeWhile (isContext env) ++ opener :: tail := by
    apply (append_right_inj (head.rdropWhile (isContext env))).mp
    rw [← ht, take_append_drop, ht, ← append_assoc, rdropWhile_append_rtakeWhile]
  constructor
  · unfold dropLastNUserTurns
    rw [hcu]
    dsimp only
    rw [if_neg hf.ne', ht]
  · unfold trimmedContext
    rw [hcu]
    dsimp only
    rw [hd, takeWhile_append_of_pos fun _ ↦ mem_rtakeWhile_imp,
      takeWhile_cons_of_neg (by simp [isContext_of_isBoundary ho]), append_nil]

theorem rollsBack_of_forall (ho : opener.isBoundary env = true) (hn : 0 < n)
    (hc : (opener :: tail).countP (isBoundary env) ≤ n)
    (hh : ∀ entry ∈ head, entry.isBoundary env = false) :
    RollsBack env n (head ++ opener :: tail) (beforeFirstTurn env opener head) [] := by
  constructor
  · unfold dropLastNUserTurns
    rw [cut_append_of_forall ho hn hc hh]
    dsimp only
    rw [if_pos rfl, getElem?_append_right le_rfl, Nat.sub_self, take_left]
    rfl
  · unfold trimmedContext
    rw [cut_append_of_forall ho hn hc hh]
    dsimp only
    rw [drop_left, takeWhile_cons_of_neg (by simp [isContext_of_isBoundary ho])]

theorem rollsBack_self (h : n = 0 ∨ ∀ entry ∈ history, entry.isBoundary env = false) :
    RollsBack env n history history [] := by
  have hc : cut (isBoundary env) (isContext env) n history = none := by
    rcases h with rfl | h
    · exact cut_zero history
    · exact cut_eq_none_of_forall h
  unfold RollsBack dropLastNUserTurns trimmedContext
  rw [hc]
  exact ⟨rfl, rfl⟩

end

variable (env) in
theorem rollsBack_cases (n : ℕ) (history : History) :
    ((n = 0 ∨ ∀ entry ∈ history, entry.isBoundary env = false) ∧
      RollsBack env n history history []) ∨
    (∃ head opener tail, history = head ++ opener :: tail ∧ opener.isBoundary env = true ∧
      (opener :: tail).countP (isBoundary env) = n ∧
      (∃ entry ∈ head, entry.isBoundary env = true) ∧
      RollsBack env n history (head.rdropWhile (isContext env)) (head.rtakeWhile (isContext env))) ∨
    ∃ head opener tail, history = head ++ opener :: tail ∧ opener.isBoundary env = true ∧ 0 < n ∧
      (opener :: tail).countP (isBoundary env) ≤ n ∧
      (∀ entry ∈ head, entry.isBoundary env = false) ∧
      RollsBack env n history (beforeFirstTurn env opener head) [] := by
  by_cases hno : n = 0 ∨ ∀ entry ∈ history, entry.isBoundary env = false
  · exact .inl ⟨hno, rollsBack_self hno⟩
  · push Not at hno
    obtain ⟨hn, entry, hen, hb⟩ := hno
    have hb : entry.isBoundary env = true := by simpa using hb
    have hp : 0 < history.countP (isBoundary env) :=
      countP_pos_iff.mpr ⟨entry, hen, hb⟩
    -- the oldest of the dropped turns, which is the first one if there are not more
    obtain ⟨head, opener, tail, heq, ho, hc⟩ :=
      exists_section (lt_min (Nat.pos_of_ne_zero hn) hp) (min_le_right n _)
    by_cases hh : ∃ entry ∈ head, entry.isBoundary env = true
    · have hlt : (opener :: tail).countP (isBoundary env) < history.countP (isBoundary env) := by
        rw [heq, countP_append]
        exact Nat.lt_add_of_pos_left (countP_pos_iff.mpr hh)
      have he : (opener :: tail).countP (isBoundary env) = n := by omega
      rw [heq]
      exact .inr (.inl ⟨head, opener, tail, rfl, ho, he, hh,
        rollsBack_of_mem ho he hh⟩)
    · have hh : ∀ entry ∈ head, entry.isBoundary env = false := by simpa using hh
      have hle : (opener :: tail).countP (isBoundary env) ≤ n := by omega
      rw [heq]
      exact .inr (.inr ⟨head, opener, tail, rfl, ho, Nat.pos_of_ne_zero hn, hle, hh,
        rollsBack_of_forall ho (Nat.pos_of_ne_zero hn) hle hh⟩)

theorem messages_append (left right : History) :
    messages env (left ++ right) = messages env left ++ messages env right := by
  unfold messages
  rw [filter_append, map_append]

theorem messages_eq_nil_iff :
    messages env history = [] ↔ ∀ entry ∈ history, entry.isBoundary env = false := by
  unfold messages
  rw [map_eq_nil_iff, filter_eq_nil_iff]
  simp only [Bool.not_eq_true]

theorem length_messages : (messages env history).length = history.countP (isBoundary env) := by
  unfold messages
  rw [length_map, countP_eq_length_filter]

theorem messages_rtakeWhile (history : History) :
    messages env (history.rtakeWhile (isContext env)) = [] := by
  rw [messages_eq_nil_iff]
  intro _ he
  by_contra hb
  have := isContext_of_isBoundary (by simpa using hb)
  rw [mem_rtakeWhile_imp he] at this
  cases this

theorem messages_rdropWhile (history : History) :
    messages env (history.rdropWhile (isContext env)) = messages env history := by
  calc messages env (history.rdropWhile (isContext env))
      = messages env (history.rdropWhile (isContext env)) ++
          messages env (history.rtakeWhile (isContext env)) := by
        rw [messages_rtakeWhile, append_nil]
    _ = messages env history := by rw [← messages_append, rdropWhile_append_rtakeWhile]

theorem messages_beforeFirstTurn (h : messages env history = []) (opener : HistoryEntry) :
    messages env (beforeFirstTurn env opener history) = [] := by
  unfold beforeFirstTurn
  split
  · rw [messages_eq_nil_iff] at h ⊢
    intro _ hk
    obtain ⟨entry, he, hs⟩ := mem_filterMap.mp hk
    rw [isBoundary_withoutRebuilt hs]
    exact h entry he
  · exact h

theorem messages_dropLastNUserTurns (n : ℕ) (history : History) :
    messages env (dropLastNUserTurns env n history) = (messages env history).rdrop n := by
  rcases rollsBack_cases env n history with
    ⟨hn, heq, -⟩ | ⟨head, opener, tail, rfl, -, hc, -, heq, -⟩ |
      ⟨head, opener, tail, rfl, -, -, hc, hh, heq, -⟩
  · rw [heq]
    rcases hn with rfl | hn
    · rw [rdrop_zero]
    · rw [messages_eq_nil_iff.mpr hn, rdrop_nil]
  · rw [heq, messages_rdropWhile, messages_append, rdrop, length_append,
      length_messages, length_messages, hc, Nat.add_sub_cancel, ← length_messages,
      take_left]
  · have hni : messages env head = [] := messages_eq_nil_iff.mpr hh
    have hle : (messages env (head ++ opener :: tail)).length ≤ n := by
      rw [messages_append, hni, nil_append, length_messages]
      exact hc
    rw [heq, rdrop, Nat.sub_eq_zero_of_le hle, take_zero, messages_beforeFirstTurn hni]

theorem messages_recordItem (index : ℕ) (envelope : ResponseItemEnvelope) (history : History) :
    messages env (recordItem env index envelope history) =
      if isUserTurnBoundary env.fragments envelope.item then messages env history ++ [some index]
      else messages env history := by
  unfold recordItem
  have he : isBoundary env ⟨processed env envelope, some index⟩ =
      isUserTurnBoundary env.fragments envelope.item := isUserTurnBoundary_processed envelope
  by_cases hb : isUserTurnBoundary env.fragments envelope.item = true
  · rw [if_pos (isApiMessage_of_isUserTurnBoundary hb), if_pos hb, messages_append]
    unfold messages
    rw [filter_cons_of_pos (he.trans hb)]
    rfl
  · rw [if_neg hb]
    split_ifs
    · rw [messages_append]
      unfold messages
      rw [filter_cons_of_neg (by rw [he]; exact hb), filter_nil, map_nil, append_nil]
    · rfl

theorem rollsBack_add {m : ℕ} (hm : m ≠ 0) :
    RollsBack env (n + m) history (dropLastNUserTurns env m (dropLastNUserTurns env n history))
      (trimmedContext env m (dropLastNUserTurns env n history)) := by
  rcases rollsBack_cases env n history with
    ⟨hno, heq, -⟩ | ⟨head, opener, tail, rfl, ho, hcn, hh, heq, -⟩ |
      ⟨head, opener, tail, rfl, ho, hn, hcn, hh, heq, -⟩
  · rw [heq]
    rcases hno with rfl | hno
    · rw [zero_add]
      exact ⟨rfl, rfl⟩
    · obtain ⟨hl, hc⟩ := rollsBack_self (n := m) (.inr hno)
      rw [hl, hc]
      exact rollsBack_self (.inr hno)
  · rw [heq]
    have hw {he' tail' : History} {opener' : HistoryEntry}
        (hs : head.rdropWhile (isContext env) = he' ++ opener' :: tail') :
        head ++ opener :: tail = he' ++
          opener' :: (tail' ++ (head.rtakeWhile (isContext env) ++ opener :: tail)) := by
      rw [← cons_append, ← append_assoc, ← hs, ← append_assoc, rdropWhile_append_rtakeWhile]
    have ht (opener' : HistoryEntry) (tail' : History) :
        (opener' :: (tail' ++ (head.rtakeWhile (isContext env) ++ opener :: tail))).countP
          (isBoundary env) = n + (opener' :: tail').countP (isBoundary env) := by
      have hno : (head.rtakeWhile (isContext env)).countP (isBoundary env) = 0 := by
        rw [← length_messages, messages_rtakeWhile, length_nil]
      rw [← cons_append, countP_append, countP_append, hno, hcn, zero_add, add_comm]
    rcases rollsBack_cases env m (head.rdropWhile (isContext env)) with
      ⟨hno, -⟩ | ⟨he', opener', tail', hs, ho', hc', hh', hl, hc⟩ |
        ⟨he', opener', tail', hs, ho', -, hc', hh', hl, hc⟩
    · rw [← messages_eq_nil_iff, messages_rdropWhile, messages_eq_nil_iff] at hno
      obtain ⟨entry, he, hb⟩ := hh
      rw [hno.resolve_left hm entry he] at hb
      cases hb
    · rw [hl, hc, hw hs]
      exact rollsBack_of_mem ho' (by rw [ht, hc']) hh'
    · rw [hl, hc, hw hs]
      exact rollsBack_of_forall ho' (by omega) (by rw [ht]; omega) hh'
  · obtain ⟨hl, hc⟩ := rollsBack_self (n := m) (.inr (messages_eq_nil_iff.mp
      (messages_beforeFirstTurn (messages_eq_nil_iff.mpr hh) opener)))
    rw [heq, hl, hc]
    exact rollsBack_of_forall ho (by omega) (by omega) hh

end History

structure ContextManager where
  items : History
  referenceContextItem : Option TurnContextItem

namespace ContextManager

open History

/-- A developer message of which only a part is context: the baseline rests on it. -/
def isMixedBundle (entry : HistoryEntry) : Bool :=
  match entry.envelope.item with
  | .message role content _ _ =>
    role == "developer".toList && isContextualDevMessageContent content &&
      hasNonContextualDevMessageContent content
  | _ => false

variable (env) in
def bundleInFront (numTurns : ℕ) (items : History) : Bool :=
  (items.trimmedContext env numTurns).any isMixedBundle

variable (env) in
def dropLastNUserTurns (numTurns : ℕ) (manager : ContextManager) : ContextManager where
  items := manager.items.dropLastNUserTurns env numTurns
  referenceContextItem :=
    if bundleInFront env numTurns manager.items then none else manager.referenceContextItem

/-- Two rollbacks leave the items that one leaves. The baseline is the same unless only the first of
the two sees a mixed bundle: the rollback at once drops it with the turns in front of which it is. -/
theorem dropLastNUserTurns_add (env : Environment) (n m : ℕ) (manager : ContextManager) :
    ((manager.dropLastNUserTurns env n).dropLastNUserTurns env m).items =
        (manager.dropLastNUserTurns env (n + m)).items ∧
      (((manager.dropLastNUserTurns env n).dropLastNUserTurns env m).referenceContextItem =
          (manager.dropLastNUserTurns env (n + m)).referenceContextItem ↔
        (bundleInFront env n manager.items = true →
          bundleInFront env (n + m) manager.items = true ∨ manager.referenceContextItem = none)) := by
  unfold dropLastNUserTurns bundleInFront
  dsimp only
  by_cases hm : m = 0
  · have hself : RollsBack env m (manager.items.dropLastNUserTurns env n) _ _ :=
      rollsBack_self (.inl hm)
    rw [hself.1, hself.2, hm]
    simp +contextual
  · have hadd : RollsBack env (n + m) manager.items _ _ := rollsBack_add hm
    rw [hadd.1, hadd.2]
    refine ⟨rfl, ?_⟩
    cases (manager.items.trimmedContext env n).any isMixedBundle <;>
      cases (trimmedContext env m _).any isMixedBundle <;> simp [eq_comm]

def bundledTurns : ContextManager where
  items := [("user", ["a"]), ("user", ["b"]), ("developer", ["<model_switch>", "x"]), ("user", ["c"])].map
    fun message ↦ ⟨{ item := .message message.1.toList (message.2.map (.inputText ·.toList)) none none },
      none⟩
  referenceContextItem := some ⟨none, [], none, none, []⟩

theorem dropLastNUserTurns_keeps_stale_baseline :
    ((bundledTurns.dropLastNUserTurns exampleEnvironment 1).dropLastNUserTurns exampleEnvironment
        1).referenceContextItem = none ∧
      (bundledTurns.dropLastNUserTurns exampleEnvironment (1 + 1)).referenceContextItem ≠ none := by
  decide +kernel

end ContextManager

end Slopdex.Rollout
