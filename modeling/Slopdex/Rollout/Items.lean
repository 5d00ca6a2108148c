import Slopdex.Library.Lines
import Slopdex.Protocol.Types

/-!
# Records of a rollout

Among the response items of a rollout, the messages that begin a turn are told from context that the
session has put into the conversation; the session and the migration of old rollouts each have a
test for that. Matchers of the session's own fragments and the parsers of embedded JSON are
parameters.
-/

namespace Slopdex.Rollout

open Protocol (Text trimStart)
open Library

inductive ContentItem
  | inputText (text : Text)
  | inputImage (imageUrl : Text)
  | inputAudio (audioUrl : Text)
  | outputText (text : Text)

inductive AgentMessageInputContent
  | inputText (text : Text)
  | encryptedContent (payload : Text)

inductive ResponseItem
  | message (role : Text) (content : List ContentItem) (turnId : Option Text)
      (contentItemKinds : Option (List Text))
  | agentMessage (author recipient : Text) (content : List AgentMessageInputContent)
      (turnId : Option Text)
  /-- The output of a function or of a custom tool -/
  | toolCallOutput (callId output : Text)
  /-- The other kinds that are sent to the model -/
  | apiItem (description : Text)
  /-- The kinds that are not sent to the model -/
  | localItem (description : Text)

structure ResponseItemEnvelope where
  item : ResponseItem
  fallbackTokenLimitOverride : Option ℕ := none

structure InterAgentCommunication where
  (author recipient content : Text)
  encryptedContent : Option Text
  triggerTurn : Bool
  turnId : Option Text

structure CompactedItem where
  message : Text
  replacementHistory : Option (List ResponseItemEnvelope)
  mcpResourceOrigins : Option Text := none
  windowNumber : Option ℕ := none
  firstWindowId : Option Text := none
  previousWindowId : Option Text := none
  windowId : Option Text := none

structure TurnContextItem where
  turnId : Option Text
  model : Text
  compHash : Option Text
  realtimeActive : Option Bool
  settings : Text
  deriving DecidableEq

structure WorldStateItem where
  full : Bool
  state : Text

structure UserMessageEvent where
  message : Text
  images : Option (List Text)
  localImages : List Text
  audio : Option (List Text)
  localAudio : List Text

inductive EventMsg
  | threadRolledBack (numTurns : ℕ)
  | turnStarted (turnId : Text)
  | turnComplete (turnId : Text)
  | turnAborted (turnId : Option Text)
  | userMessage (event : UserMessageEvent)
  | itemCompleted (turnId : Text)
  /-- Any other event, with the turn that `explicit_event_turn_id` reads from it -/
  | other (turnId : Option Text)

inductive RolloutItem
  | sessionMeta (contextWindow : Option Text)
  | responseItem (envelope : ResponseItemEnvelope)
  | interAgentCommunication (communication : InterAgentCommunication)
  | interAgentCommunicationMetadata (triggerTurn : Bool)
  | compacted (item : CompactedItem)
  | turnContext (item : TurnContextItem)
  | tokenUsageRecord (turnId : Text)
  | worldState (item : WorldStateItem)
  | securityRiskScore
  | eventMsg (event : EventMsg)
  | realtimeItem

structure Fragments where
  /-- `is_contextual_user_fragment` of an input text -/
  contextualUser : Text → Bool
  /-- `ModelSwitchInstructions::matches_text` or `PersistentModeState::matches_text` -/
  rebuiltEachStep : Text → Bool
  /-- The text is the JSON of an `InterAgentCommunication`. -/
  interAgent : Text → Bool
  /-- `parse_hook_prompt_fragment(text).is_some()` -/
  hookPrompt : Text → Bool

def eqIgnoreAsciiCase (left right : Text) : Bool := left.map Char.toLower == right.map Char.toLower

def startsWithTag (tags : List String) (text : Text) : Bool :=
  tags.any fun tag ↦ eqIgnoreAsciiCase ((trimStart text).take tag.toList.length) tag.toList

namespace ContentItem

def isText (test : Text → Bool) : ContentItem → Bool
  | inputText text => test text
  | _ => false

end ContentItem

variable (fragments : Fragments)

/-- `InterAgentCommunication::is_message_content` -/
def isInterAgentContent : List ContentItem → Bool
  | [.inputText text] => fragments.interAgent text
  | [.outputText text] => fragments.interAgent text
  | _ => false

def contextualDeveloperTags : List String :=
  ["<permissions instructions>", "Approved command prefix saved:", "<model_switch>",
    "<managed_developer_instructions>", "<persistent_mode>", "<apps_instructions>",
    "<collaboration_mode>", "<multi_agent_role>", "<multi_agent_mode>",
    "<environments_instructions>", "<git_attribution>", "<plugins_instructions>",
    "<realtime_conversation>", "<skills_instructions>", "<tools>", "<personality_spec>",
    "<token_budget>", "<context_window>", "<context_window_guidance>", "<rollout_budget>"]

def isContextualUserMessageContent (content : List ContentItem) : Bool :=
  content.any (ContentItem.isText fragments.contextualUser)

def isContextualDevMessageContent (content : List ContentItem) : Bool :=
  content.any (ContentItem.isText (startsWithTag contextualDeveloperTags))

def hasNonContextualDevMessageContent (content : List ContentItem) : Bool :=
  content.any fun item ↦ !item.isText (startsWithTag contextualDeveloperTags)

def isUserTurnBoundary : ResponseItem → Bool
  | .agentMessage .. => true
  | .message role content _ _ =>
    (role == "user".toList && !isContextualUserMessageContent fragments content) ||
      (role == "assistant".toList && isInterAgentContent fragments content)
  | _ => false

/-- The items that `trim_pre_turn_context_updates` takes away in front of a turn. -/
def isContextUpdate : ResponseItem → Bool
  | .message role content _ _ =>
    (role == "developer".toList && isContextualDevMessageContent content) ||
      (role == "user".toList && isContextualUserMessageContent fragments content)
  | _ => false

def isApiMessage : ResponseItem → Bool
  | .message role .. => role != "system".toList
  | .localItem _ => false
  | _ => true

variable {fragments} {item : ResponseItem}

theorem isApiMessage_of_isUserTurnBoundary (h : isUserTurnBoundary fragments item = true) :
    isApiMessage item = true := by
  cases item with
  | message role =>
    by_cases hr : role = "system".toList
    · subst hr
      simp [isUserTurnBoundary] at h
    · exact bne_iff_ne.mpr hr
  | agentMessage => rfl
  | toolCallOutput | apiItem | localItem => cases h

theorem isContextUpdate_of_isUserTurnBoundary (h : isUserTurnBoundary fragments item = true) :
    isContextUpdate fragments item = false := by
  cases item with
  | message role =>
    unfold isUserTurnBoundary at h
    unfold isContextUpdate
    dsimp only at h ⊢
    by_cases hu : role = "user".toList
    · subst hu
      simpa using h
    · by_cases hd : role = "developer".toList
      · subst hd
        simp at h
      · rw [beq_eq_false_iff_ne.mpr hu, beq_eq_false_iff_ne.mpr hd]
        rfl
  | agentMessage | toolCallOutput | apiItem | localItem => rfl

end Slopdex.Rollout
