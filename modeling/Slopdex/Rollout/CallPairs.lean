import Slopdex.Protocol.Types
import Mathlib.Logic.Function.Iterate

/-!
# Calls and their outputs

Before a prompt is built, the history is normalised: a call without an output gets one, an output
without its call is removed, and media that the model does not read are replaced by a notice. When
the oldest item is removed, its counterpart goes with it. The UUID of a name is a parameter.
-/

namespace Slopdex.Rollout.CallPairs

open Protocol (Text)
open List Option

/-- `InputModality` apart from text -/
inductive Media
  | image
  | audio
  deriving DecidableEq

inductive Content
  | text (text : Text)
  | media (media : Media) (url : Text)
  /-- The result of the generation of an image -/
  | generated (result : Text)

inductive ItemKind
  | functionCall (id : Option Text) (callId : Text)
  | localShellCall (id callId : Option Text)
  | toolSearchCall (id callId : Option Text)
  | customToolCall (id : Option Text) (callId : Text)
  | functionCallOutput (id callId : Option Text)
  | toolSearchOutput (id callId : Option Text) (status execution : Text) (tools : List Text)
  | customToolCallOutput (id : Option Text) (callId : Text)
  | other (description : Text)

structure ResponseItem where
  kind : ItemKind
  content : List Content

abbrev Items := List ResponseItem

inductive Family
  | function
  | toolSearch
  | customTool
  deriving DecidableEq

/-- Calls and outputs of one family with the same id belong together. -/
abbrev Key := Family × Text

namespace ResponseItem

/-- The output of a local shell call is a function output. -/
def call (item : ResponseItem) : Option Key :=
  match item.kind with
  | .functionCall _ callId => some (.function, callId)
  | .localShellCall _ callId => callId.map (.function, ·)
  | .toolSearchCall _ callId => callId.map (.toolSearch, ·)
  | .customToolCall _ callId => some (.customTool, callId)
  | _ => none

def output (item : ResponseItem) : Option Key :=
  match item.kind with
  | .functionCallOutput _ callId => callId.map (.function, ·)
  | .toolSearchOutput _ callId _ _ _ => callId.map (.toolSearch, ·)
  | .customToolCallOutput _ callId => some (.customTool, callId)
  | _ => none

def isServerSearch (item : ResponseItem) : Bool :=
  match item.kind with
  | .toolSearchOutput _ _ _ execution _ => execution == "server".toList
  | _ => false

def hasCall (calls : List Key) (item : ResponseItem) : Bool :=
  item.isServerSearch || item.output.all (· ∈ calls)

variable {item : ResponseItem} {key : Key} {calls : List Key}

theorem call_of_output (h : item.output = some key) : item.call = none := by
  rcases item with ⟨_ | _ | _ | _ | _ | _ | _ | _, _⟩ <;> first | rfl | cases h

theorem output_of_call (h : item.call = some key) : item.output = none :=
  eq_none_iff_forall_ne_some.2 fun _ ho ↦ by simp [call_of_output ho] at h

theorem hasCall_of_call (h : item.call = some key) : item.hasCall calls := by
  simp [hasCall, output_of_call h]

theorem hasCall_of_mem (h : item.output = some key) (hk : key ∈ calls) : item.hasCall calls := by
  simp [hasCall, h, hk]

end ResponseItem

open ResponseItem

def calls (items : Items) : List Key := items.filterMap call

def outputs (items : Items) : List Key := items.filterMap output

variable (newV5 : Text → Text)

/-! ## Normalisation -/

def syntheticOutputId (tag : String) (itemId : Option Text) : Option Text :=
  (itemId.filter (!·.isEmpty)).map fun sourceId ↦
    tag.toList ++ '_' :: newV5 (tag.toList ++ ':' :: sourceId)

def syntheticOutput (item : ResponseItem) : Option ResponseItem :=
  match item.kind with
  | .functionCall id callId | .localShellCall id (some callId) =>
    some ⟨.functionCallOutput (syntheticOutputId newV5 "fco" id) callId, [.text "aborted".toList]⟩
  | .toolSearchCall id (some callId) =>
    some ⟨.toolSearchOutput (syntheticOutputId newV5 "tso" id) callId "completed".toList
      "client".toList [], []⟩
  | .customToolCall id callId =>
    some ⟨.customToolCallOutput (syntheticOutputId newV5 "ctco" id) callId,
      [.text "aborted".toList]⟩
  | _ => none

def missingOutput (items : Items) (item : ResponseItem) : Option ResponseItem :=
  if item.call.any (· ∈ outputs items) then none else syntheticOutput newV5 item

def ensureCallOutputsPresent (items : Items) : Items :=
  (items.zipIdx.filterMap fun entry ↦ (missingOutput newV5 items entry.1).map (entry.2, ·)).foldr
    (fun missing items ↦ items.insertIdx (missing.1 + 1) missing.2) items

def removeOrphanOutputs (items : Items) : Items :=
  items.filter (hasCall (calls items))

/-- The texts of `UnsupportedMedia` -/
def unsupportedMedia : Media → String
  | .image => "image content omitted because you do not support image input"
  | .audio => "audio content omitted because you do not support audio input"

/-- `strip_images_when_unsupported` and `strip_audio_when_unsupported` for one content item. -/
def Content.strip (inputModalities : List Media) : Content → Content
  | text string => text string
  | media kind url =>
    if kind ∈ inputModalities then media kind url else text (unsupportedMedia kind).toList
  | generated result => generated (if .image ∈ inputModalities then result else [])

def ResponseItem.strip (inputModalities : List Media) (item : ResponseItem) : ResponseItem :=
  { item with content := item.content.map (·.strip inputModalities) }

def normalizeHistory (inputModalities : List Media) (items : Items) : Items :=
  (removeOrphanOutputs (ensureCallOutputsPresent newV5 items)).map (·.strip inputModalities)

/-- Each call has an output, and each output that needs a call has one. -/
def Paired (items : Items) : Prop :=
  calls items ⊆ outputs items ∧ ∀ item ∈ items, item.hasCall (calls items)

section Normalized

variable {newV5 : Text → Text} {items : Items} {item new : ResponseItem} {key : Key}

def answered (newV5 : Text → Text) (items : Items) (item : ResponseItem) : Items :=
  item :: (missingOutput newV5 items item).toList

theorem insertIdx_length (front rest : Items) (new : ResponseItem) :
    (front ++ rest).insertIdx front.length new = front ++ new :: rest := by
  induction front with
  | nil => simp
  | cons _ _ ih => simp [ih]

theorem ensureCallOutputsPresent_eq :
    ensureCallOutputsPresent newV5 items = items.flatMap (answered newV5 items) := by
  -- an insertion behind a call leaves the items up to the call, `front`, where they are
  have hi (rest front : Items) :
      ((rest.zipIdx front.length).filterMap fun entry ↦
          (missingOutput newV5 items entry.1).map (entry.2, ·)).foldr
        (fun missing items ↦ items.insertIdx (missing.1 + 1) missing.2) (front ++ rest) =
      front ++ rest.flatMap (answered newV5 items) := by
    induction rest generalizing front with
    | nil => rfl
    | cons item rest ih =>
      have hr := ih (front ++ [item])
      have hb := insertIdx_length (front ++ [item]) (rest.flatMap (answered newV5 items))
      rw [length_append, length_singleton] at hr hb
      cases hn : missingOutput newV5 items item <;> simp_all [answered, zipIdx_cons]
  exact hi items []

theorem map_output_syntheticOutput :
    (syntheticOutput newV5 item).map output = item.call.map some := by
  rcases item with ⟨_ | ⟨_, _ | _⟩ | ⟨_, _ | _⟩ | _ | _ | _ | _ | _, _⟩ <;> rfl

theorem missingOutput_eq_some (h : missingOutput newV5 items item = some new) :
    ∃ key, item.call = some key ∧ key ∉ outputs items ∧ new.output = some key := by
  rw [missingOutput, ite_none_left_eq_some] at h
  have ho := @map_output_syntheticOutput newV5 item
  rw [h.2, map_some, eq_comm, map_eq_some_iff] at ho
  obtain ⟨key, hc, ho⟩ := ho
  exact ⟨key, hc, by simpa [hc] using h.1, ho.symm⟩

theorem exists_missingOutput (hc : item.call = some key) (hk : key ∉ outputs items) :
    ∃ new, missingOutput newV5 items item = some new ∧ new.output = some key := by
  have ho := @map_output_syntheticOutput newV5 item
  rw [hc, map_some, map_eq_some_iff] at ho
  simpa [missingOutput, hc, hk] using ho

theorem calls_ensureCallOutputsPresent :
    calls (ensureCallOutputsPresent newV5 items) = calls items := by
  rw [calls, calls, ensureCallOutputsPresent_eq, filterMap_flatMap, filterMap_eq_flatMap_toList]
  refine flatMap_congr fun item _ ↦ ?_
  cases h : missingOutput newV5 items item with
  | none => cases hc : item.call <;> simp [answered, h, hc]
  | some =>
    obtain ⟨_, hc, -, ho⟩ := missingOutput_eq_some h
    simp [answered, h, hc, call_of_output ho]

theorem removeOrphanOutputs_ensureCallOutputsPresent :
    removeOrphanOutputs (ensureCallOutputsPresent newV5 items) =
      items.flatMap fun item ↦
        if item.hasCall (calls items) then answered newV5 items item else [] := by
  rw [removeOrphanOutputs, calls_ensureCallOutputsPresent, ensureCallOutputsPresent_eq,
    filter_flatMap]
  refine flatMap_congr fun item hi ↦ ?_
  cases h : missingOutput newV5 items item with
  | none => simp [answered, h, filter_cons]
  | some =>
    obtain ⟨key, hc, -, ho⟩ := missingOutput_eq_some h
    have hk : key ∈ calls items := mem_filterMap.2 ⟨item, hi, hc⟩
    simp [answered, h, hasCall_of_call hc, hasCall_of_mem ho hk]

theorem calls_removeOrphanOutputs : calls (removeOrphanOutputs items) = calls items := by
  rw [calls, removeOrphanOutputs, filterMap_filter]
  refine filterMap_congr fun item _ ↦ ?_
  cases hc : item.call <;> simp [hasCall_of_call, hc]

theorem removeOrphanOutputs_paired :
    Paired (removeOrphanOutputs (ensureCallOutputsPresent newV5 items)) := by
  rw [Paired, calls_removeOrphanOutputs, removeOrphanOutputs, calls_ensureCallOutputsPresent,
    ensureCallOutputsPresent_eq]
  refine ⟨fun key hk ↦ ?_, fun item hi ↦ (mem_filter.1 hi).2⟩
  obtain ⟨item, hi, hc⟩ := mem_filterMap.1 hk
  have ha : ∃ new ∈ items.flatMap (answered newV5 items), new.output = some key := by
    by_cases ho : key ∈ outputs items
    · obtain ⟨output, hm, ho⟩ := mem_filterMap.1 ho
      exact ⟨output, mem_flatMap.2 ⟨output, hm, mem_cons_self⟩, ho⟩
    · obtain ⟨new, hn, ho⟩ := @exists_missingOutput newV5 _ _ _ hc ho
      exact ⟨new, mem_flatMap.2 ⟨item, hi, by simp [answered, hn]⟩, ho⟩
  obtain ⟨new, hn, ho⟩ := ha
  exact mem_filterMap.2 ⟨new, mem_filter.2 ⟨hn, hasCall_of_mem ho hk⟩, ho⟩

variable {m : List Media}

theorem strip_strip : (item.strip m).strip m = item.strip m := by
  have hs (content : Content) : (content.strip m).strip m = content.strip m := by
    cases content <;> grind [Content.strip]
  simp [strip, hs]

theorem Paired.map_strip (h : Paired items) : Paired (items.map (·.strip m)) := by
  have hc : calls (items.map (·.strip m)) = calls items := filterMap_map
  have ho : outputs (items.map (·.strip m)) = outputs items := filterMap_map
  rw [Paired, hc, ho]
  exact ⟨h.1, forall_mem_map.2 h.2⟩

theorem normalizeHistory_of_paired (h : Paired items) :
    normalizeHistory newV5 m items = items.map (·.strip m) := by
  have hm (item) (hi : item ∈ items) : missingOutput newV5 items item = none := by
    rw [eq_none_iff_forall_ne_some]
    intro _ hn
    obtain ⟨_, hc, hk, -⟩ := missingOutput_eq_some hn
    exact hk (h.1 (mem_filterMap.2 ⟨item, hi, hc⟩))
  have ha : items.flatMap (answered newV5 items) = items.flatMap fun item ↦ [item] :=
    flatMap_congr fun item hi ↦ by rw [answered, hm item hi, toList_none]
  rw [normalizeHistory, ensureCallOutputsPresent_eq, ha, flatMap_singleton',
    removeOrphanOutputs, filter_eq_self.2 h.2]

/-- Normalisation pairs calls and outputs: it puts each missing output behind its call, removes
outputs that need a call and have none, and changes nothing when it is repeated. -/
theorem normalizeHistory_pairs (newV5 : Text → Text) (inputModalities : List Media)
    (items : Items) :
    let result := normalizeHistory newV5 inputModalities items
    Paired result ∧
      result = (items.flatMap fun item ↦ if item.hasCall (calls items) then
        item :: (missingOutput newV5 items item).toList else []).map (·.strip inputModalities) ∧
      normalizeHistory newV5 inputModalities result = result := by
  intro result
  have hpaired : Paired result := removeOrphanOutputs_paired.map_strip
  refine ⟨hpaired, congrArg _ removeOrphanOutputs_ensureCallOutputsPresent, ?_⟩
  rw [normalizeHistory_of_paired hpaired]
  exact map_map.trans (map_congr_left fun item _ ↦ strip_strip)

end Normalized

/-- The first counterpart of the family is removed. The output of a function takes the call of a
function and only without one that of a shell. -/
def removeCorrespondingFor (items : Items) (item : ResponseItem) : Items :=
  match item.call, item.output with
  | some key, _ => items.eraseP (·.output == some key)
  | none, some (.function, callId) =>
    if items.any (isFunctionCall callId) then items.eraseP (isFunctionCall callId)
    else items.eraseP (·.call == some (.function, callId))
  | none, some key => items.eraseP (·.call == some key)
  | none, none => items
where
  isFunctionCall (callId : Text) : ResponseItem → Bool
    | ⟨.functionCall _ existing, _⟩ => existing == callId
    | _ => false

def removeFirstItem : Items → Items
  | [] => []
  | item :: items => removeCorrespondingFor items item

section Removal

variable {items : Items} {item : ResponseItem} {key : Key}

theorem perm_eraseP {test : ResponseItem → Bool} {f g : ResponseItem → Option Key}
    (ht : ∀ item, test item → f item = some key ∧ g item = none) (ha : items.any test) :
    (items.filterMap f).Perm (key :: (items.eraseP test).filterMap f) ∧
      items.filterMap g = (items.eraseP test).filterMap g := by
  obtain ⟨item, hi, hs⟩ := any_eq_true.1 ha
  obtain ⟨item, _, _, -, hs, rfl, he⟩ := exists_of_eraseP hi hs
  simp [he, ht item hs, perm_middle]

theorem perm_eraseP_output (h : key ∈ outputs items) :
    (outputs items).Perm (key :: outputs (items.eraseP (·.output == some key))) ∧
      calls items = calls (items.eraseP (·.output == some key)) :=
  perm_eraseP (fun _ ht ↦ ⟨eq_of_beq ht, call_of_output (eq_of_beq ht)⟩)
    (by simpa [outputs] using h)

theorem perm_eraseP_call (h : key ∈ calls items) :
    (calls items).Perm (key :: calls (items.eraseP (·.call == some key))) ∧
      outputs items = outputs (items.eraseP (·.call == some key)) :=
  perm_eraseP (fun _ ht ↦ ⟨eq_of_beq ht, output_of_call (eq_of_beq ht)⟩)
    (by simpa [calls] using h)

theorem removeCorrespondingFor_output (ho : item.output = some key) (h : key ∈ calls items) :
    (calls items).Perm (key :: calls (removeCorrespondingFor items item)) ∧
      outputs items = outputs (removeCorrespondingFor items item) := by
  have hc := @perm_eraseP_call items key h
  rw [removeCorrespondingFor, call_of_output ho, ho]
  rcases key with ⟨_ | _ | _, _⟩
  · dsimp only
    split_ifs with hf
    · refine perm_eraseP (fun item ht ↦ ?_) hf
      rcases item with ⟨_ | _, _⟩ <;> simp_all [removeCorrespondingFor.isFunctionCall, call, output]
    · exact hc
  all_goals exact hc

theorem calls_perm_removeFirstItem (h : (calls items).Perm (outputs items)) :
    (calls (removeFirstItem items)).Perm (outputs (removeFirstItem items)) := by
  cases items with
  | nil => exact h
  | cons item =>
    rw [removeFirstItem]
    cases hc : item.call with
    | some =>
      rw [calls, outputs, filterMap_cons_some hc,
        filterMap_cons_none (output_of_call hc)] at h
      obtain ⟨ho, hca⟩ := perm_eraseP_output (h.subset mem_cons_self)
      rw [removeCorrespondingFor, hc]
      exact hca ▸ (h.trans ho).cons_inv
    | none =>
      cases hou : item.output with
      | some =>
        rw [calls, outputs, filterMap_cons_none hc, filterMap_cons_some hou] at h
        obtain ⟨hca, ho⟩ :=
          removeCorrespondingFor_output hou (h.symm.subset mem_cons_self)
        exact ho ▸ (hca.symm.trans h).cons_inv
      | none => simpa [calls, outputs, removeCorrespondingFor, hc, hou] using h

end Removal

/-- Removals keep the history paired while every id is named by as many outputs as calls of its
family. -/
theorem removeFirstItem_paired (items : Items)
    (hbalanced : ∀ key, (calls items).count key = (outputs items).count key) (n : ℕ) :
    calls (removeFirstItem^[n] items) ⊆ outputs (removeFirstItem^[n] items) ∧
      outputs (removeFirstItem^[n] items) ⊆ calls (removeFirstItem^[n] items) := by
  have hperm : (calls (removeFirstItem^[n] items)).Perm (outputs (removeFirstItem^[n] items)) := by
    induction n with
    | zero => exact perm_iff_count.2 hbalanced
    | succ n ih =>
      rw [Function.iterate_succ_apply']
      exact calls_perm_removeFirstItem ih
  exact ⟨hperm.subset, hperm.symm.subset⟩

/-- A function call with `count` outputs of its id. -/
def callWithOutputs (count : ℕ) : Items :=
  ⟨.functionCall none ['x'], []⟩ :: .replicate count ⟨.functionCallOutput none ['x'], []⟩

theorem removeFirstItem_paired_callWithOutputs :
    calls (removeFirstItem^[1] (callWithOutputs 1)) ⊆ outputs (removeFirstItem^[1] (callWithOutputs 1)) ∧
      outputs (removeFirstItem^[1] (callWithOutputs 1)) ⊆
        calls (removeFirstItem^[1] (callWithOutputs 1)) :=
  removeFirstItem_paired _ (fun _ ↦ rfl) 1

theorem removeFirstItem_leaves_orphan :
    (calls (callWithOutputs 2) ⊆ outputs (callWithOutputs 2) ∧
        outputs (callWithOutputs 2) ⊆ calls (callWithOutputs 2)) ∧
      ¬outputs (removeFirstItem (callWithOutputs 2)) ⊆ calls (removeFirstItem (callWithOutputs 2)) := by
  decide

end Slopdex.Rollout.CallPairs
