import Slopdex.Protocol.Types
import Mathlib.Algebra.Order.BigOperators.Group.List
import Mathlib.Algebra.Order.Ring.Nat

/-!
# The transcript for reviews

The review history keeps the newest items of two kinds, messages of the user and all others, within a
number and a size for each kind. How many bytes an item has when it is written is a parameter, with
the lengths of the pieces in which they are written.
-/

namespace Slopdex.Guardian

open Protocol (Text)
open List Option

inductive ContentItem
  | inputText (text : Text)
  | inputImage (imageUrl : Text)
  | inputAudio (audioUrl : Text)
  | outputText (text : Text)
  deriving DecidableEq

def ContentItem.isText : ContentItem → Bool
  | inputText _ | outputText _ => true
  | _ => false

def ContentItem.isImage : ContentItem → Bool
  | inputImage _ => true
  | _ => false

/-- The phase and the metadata of a message are its `rest`. -/
inductive ResponseItem (β : Type)
  | message (id : Option Text) (role : Text) (content : List ContentItem) (rest : β)
  | reasoning (id : Option Text) (content : β)
  | other (id : Option Text) (body : β)
  deriving DecidableEq

namespace ResponseItem

variable {β : Type}

def isUserMessage : ResponseItem β → Bool
  | message _ role _ _ => role == "user".toList
  | _ => false

def id : ResponseItem β → Option Text
  | message id _ _ _ | reasoning id _ | other id _ => id

end ResponseItem

def maxItemsPerKind : ℕ := 128

def maxBytesPerKind : ℕ := 4 * 1024 * 1024

/-- The lengths of the pieces in which `serde_json` writes a value -/
structure Encoding (β : Type) where
  /-- `size_of::<ResponseItem>()` -/
  itemSize : ℕ
  itemSize_le : itemSize ≤ maxBytesPerKind
  item : ResponseItem β → List ℕ
  reasoning : β → List ℕ
  header : Option Text → Text → β → List ℕ
  content : ContentItem → List ℕ

/-- `BoundedSize::write` for every piece -/
def toWriter (size : ℕ) (pieces : List ℕ) : Option ℕ :=
  pieces.foldlM (fun bytes piece ↦
    if maxBytesPerKind - bytes < piece then none else some (bytes + piece)) size

namespace Encoding

variable {β : Type} (encoding : Encoding β)

def measured (item : ResponseItem β) : Option ℕ :=
  (toWriter encoding.itemSize (encoding.item item)).bind fun size ↦
    match item with
    | .reasoning _ content => toWriter size (encoding.reasoning content)
    | _ => some size

/-- The text of a message of the user that is too large with its images -/
def textOnly : ResponseItem β → Option (ResponseItem β)
  | .message id role content rest =>
    if role == "user".toList && content.any (·.isImage) then do
      let size ← toWriter encoding.itemSize (encoding.header id role rest)
      let text := content.filter (·.isText)
      let _ ← text.foldlM (fun size item ↦ toWriter size (encoding.content item)) size
      if text.isEmpty then none else some (.message id role text rest)
    else none
  | _ => none

/-- What is recorded for an item; the text of a message has no images and is not cut again. -/
def retained (item : ResponseItem β) : Option (ResponseItem β × ℕ) :=
  match encoding.measured item with
  | some size => some (item, size)
  | none => (encoding.textOnly item).bind fun text ↦ (encoding.measured text).map (text, ·)

end Encoding

structure Entry (β : Type) where
  item : ResponseItem β
  size : ℕ
  number : ℕ

/-- The history with all items that came to `record`, which the source does not keep -/
structure TranscriptHistory (β : Type) where
  items : List (Entry β)
  generation : ℕ
  recorded : List (ResponseItem β)

inductive HistoryAction (β : Type)
  | record (item : ResponseItem β)
  | reset (items : List (ResponseItem β))
  | truncateBefore (boundary : ResponseItem β)

variable {β : Type}

def kind (user : Bool) (items : List (Entry β)) : List (Entry β) :=
  items.filter (·.item.isUserMessage == user)

def bytesOf (user : Bool) (items : List (Entry β)) : ℕ := ((kind user items).map (·.size)).sum

/-- `retain` goes on as long as the count or the bytes are too large. -/
def evict (user : Bool) (count bytes : ℕ) : List (Entry β) → List (Entry β)
  | [] => []
  | entry :: items =>
    if entry.item.isUserMessage = user ∧ (maxItemsPerKind ≤ count ∨ maxBytesPerKind < bytes) then
      evict user (count - 1) (bytes - entry.size) items
    else entry :: evict user count bytes items

/-- `saturating_add` -/
def nextGeneration (generation : ℕ) : ℕ :=
  if generation < 2 ^ 64 - 1 then generation + 1 else generation

section

variable [DecidableEq β]

def ResponseItem.isBoundary (boundary item : ResponseItem β) : Bool :=
  (item.id.isSome && item.id == boundary.id) || item == boundary

namespace TranscriptHistory

variable (encoding : Encoding β) (history : TranscriptHistory β)

def push (item : ResponseItem β) (size : ℕ) : TranscriptHistory β :=
  let user := item.isUserMessage
  let count := (kind user history.items).length
  let bytes := size + bytesOf user history.items
  let entry := ⟨item, size, history.recorded.length⟩
  if maxItemsPerKind ≤ count ∨ maxBytesPerKind < bytes then
    { history with
      items := evict user count bytes history.items ++ [entry]
      generation := nextGeneration history.generation }
  else { history with items := history.items ++ [entry] }

def record (item : ResponseItem β) : TranscriptHistory β :=
  { (encoding.retained item).elim history fun (item, size) ↦ history.push item size with
    recorded := history.recorded ++ [item] }

def reset (items : List (ResponseItem β)) : TranscriptHistory β :=
  items.foldl (record encoding)
    { history with items := [], generation := nextGeneration history.generation }

def truncateBefore (boundary : ResponseItem β) : TranscriptHistory β :=
  { history with
    items := history.items.take ((history.items.findIdx? (boundary.isBoundary ·.item)).getD 0)
    generation := nextGeneration history.generation }

def apply : HistoryAction β → TranscriptHistory β
  | .record item => history.record encoding item
  | .reset items => history.reset encoding items
  | .truncateBefore boundary => history.truncateBefore boundary

def run (generation : ℕ) (actions : List (HistoryAction β)) : TranscriptHistory β :=
  actions.foldl (apply encoding) ⟨[], generation, []⟩

end TranscriptHistory

end

open TranscriptHistory

theorem kind_cons (user : Bool) (entry : Entry β) (items : List (Entry β)) :
    kind user (entry :: items) =
      if entry.item.isUserMessage = user then entry :: kind user items else kind user items := by
  simp [kind, filter_cons]

theorem evict_sublist (user : Bool) (count bytes : ℕ) (items : List (Entry β)) :
    evict user count bytes items <+ items := by
  fun_induction evict with grind

theorem kind_not_evict (user : Bool) (count bytes : ℕ) (items : List (Entry β)) :
    kind (!user) (evict user count bytes items) = kind (!user) items := by
  fun_induction evict with grind [kind_cons]

theorem evict_eq_self {user : Bool} {count bytes : ℕ} (hc : count < maxItemsPerKind)
    (hb : bytes ≤ maxBytesPerKind) (items : List (Entry β)) :
    evict user count bytes items = items := by
  induction items with
  | nil => rfl
  | cons entry items ih =>
    rw [evict, if_neg fun h ↦ h.2.elim hc.not_ge hb.not_gt, ih]

/-- Entries of the kind go until the rest of the kind leaves room for the new one. -/
theorem evict_bounded (user : Bool) {count bytes size : ℕ} (hsi : size ≤ maxBytesPerKind)
    (items : List (Entry β)) (hc : count = (kind user items).length)
    (hb : bytes = size + bytesOf user items) :
    (kind user (evict user count bytes items)).length < maxItemsPerKind ∧
      size + bytesOf user (evict user count bytes items) ≤ maxBytesPerKind := by
  induction items generalizing count bytes with
  | nil => exact ⟨Nat.zero_lt_succ _, hsi⟩
  | cons entry items ih =>
    unfold bytesOf at ih hb ⊢
    by_cases hu : entry.item.isUserMessage = user
    · by_cases hf : maxItemsPerKind ≤ count ∨ maxBytesPerKind < bytes
      · rw [evict, if_pos ⟨hu, hf⟩]
        rw [kind_cons, if_pos hu] at hc hb
        apply ih
        · rw [hc, length_cons, Nat.add_sub_cancel]
        · rw [hb, map_cons, sum_cons]
          omega
      · obtain ⟨hr, hs⟩ := not_or.mp hf
        rw [evict_eq_self (not_le.mp hr) (not_lt.mp hs)]
        exact ⟨hc ▸ not_le.mp hr, hb ▸ not_lt.mp hs⟩
    · rw [evict, if_neg fun h ↦ hu h.1, kind_cons, if_neg hu]
      rw [kind_cons, if_neg hu] at hc hb
      exact ih hc hb

theorem toWriter_le {size bytes : ℕ} {pieces : List ℕ} (h : toWriter size pieces = some bytes)
    (hs : size ≤ maxBytesPerKind) : bytes ≤ maxBytesPerKind := by
  induction pieces generalizing size with
  | nil => exact (some_inj.mp h) ▸ hs
  | cons piece pieces ih =>
    rw [toWriter, foldlM_cons] at h
    split_ifs at h with hf
    · cases h
    · exact ih h (by omega)

theorem Encoding.retained_le {encoding : Encoding β} {item kept : ResponseItem β} {size : ℕ}
    (h : encoding.retained item = some (kept, size)) : size ≤ maxBytesPerKind := by
  have hm {item size} (h : encoding.measured item = some size) : size ≤ maxBytesPerKind := by
    obtain ⟨bytes, hb, hs⟩ := bind_eq_some_iff.mp h
    have hle := toWriter_le hb encoding.itemSize_le
    split at hs
    · exact toWriter_le hs hle
    · exact (some_inj.mp hs) ▸ hle
  unfold retained at h
  split at h
  next hs =>
    cases h
    exact hm hs
  next =>
    obtain ⟨text, -, ht⟩ := bind_eq_some_iff.mp h
    obtain ⟨_, hs, heq⟩ := map_eq_some_iff.mp ht
    cases heq
    exact hm hs

/-! ## What fits -/

namespace Encoding

variable (encoding : Encoding β)

/-- The bytes that are charged for an item -/
def size (item : ResponseItem β) : ℕ :=
  encoding.itemSize + (encoding.item item).sum +
    match item with
    | .reasoning _ content => (encoding.reasoning content).sum
    | _ => 0

/-- The bytes that are charged for the texts of a message before they are copied -/
def textSize (id : Option Text) (role : Text) (text : List ContentItem) (rest : β) : ℕ :=
  encoding.itemSize + (encoding.header id role rest).sum +
    (text.map fun item ↦ (encoding.content item).sum).sum

/-- What fits into the limit of its kind: the item, or the texts of a message of the user with images -/
def kept (item : ResponseItem β) : Option (ResponseItem β) :=
  if encoding.size item ≤ maxBytesPerKind then some item
  else match item with
    | .message id role content rest =>
      let text := content.filter (·.isText)
      if role = "user".toList ∧ (content.any (·.isImage)) ∧ text ≠ [] ∧
          encoding.textSize id role text rest ≤ maxBytesPerKind ∧
          encoding.size (.message id role text rest) ≤ maxBytesPerKind then
        some (.message id role text rest)
      else none
    | _ => none

end Encoding

theorem toWriter_eq {size : ℕ} (hs : size ≤ maxBytesPerKind) (pieces : List ℕ) :
    toWriter size pieces =
      if size + pieces.sum ≤ maxBytesPerKind then some (size + pieces.sum) else none := by
  induction pieces generalizing size with
  | nil => simp [toWriter, hs]
  | cons piece pieces ih =>
    rw [toWriter, foldlM_cons]
    by_cases hfull : maxBytesPerKind - size < piece
    · rw [if_pos hfull, if_neg (by rw [sum_cons]; omega)]
      rfl
    · rw [if_neg hfull, sum_cons, ← Nat.add_assoc]
      exact ih (by omega)

theorem foldlM_toWriter_eq {size : ℕ} (hs : size ≤ maxBytesPerKind) (pieces : ContentItem → List ℕ)
    (text : List ContentItem) : text.foldlM (fun size item ↦ toWriter size (pieces item)) size =
      if size + (text.map fun item ↦ (pieces item).sum).sum ≤ maxBytesPerKind then
        some (size + (text.map fun item ↦ (pieces item).sum).sum)
      else none := by
  induction text generalizing size with
  | nil => simp [hs]
  | cons item text ih =>
    rw [foldlM_cons, toWriter_eq hs, map_cons, sum_cons, ← Nat.add_assoc]
    by_cases hfits : size + (pieces item).sum ≤ maxBytesPerKind
    · rw [if_pos hfits]
      exact ih hfits
    · rw [if_neg hfits, if_neg (by omega)]
      rfl

theorem Encoding.measured_eq (encoding : Encoding β) (item : ResponseItem β) :
    encoding.measured item =
      if encoding.size item ≤ maxBytesPerKind then some (encoding.size item) else none := by
  rw [measured, toWriter_eq encoding.itemSize_le]
  by_cases hitem : encoding.itemSize + (encoding.item item).sum ≤ maxBytesPerKind
  · rw [if_pos hitem]
    cases item with
    | reasoning id content => exact toWriter_eq hitem _
    | message | other => simp [size, hitem]
  · rw [if_neg hitem, if_neg (by unfold size; omega)]
    rfl

theorem Encoding.textOnly_message (encoding : Encoding β) (id : Option Text) (role : Text)
    (content : List ContentItem) (rest : β) :
    encoding.textOnly (.message id role content rest) =
      if role = "user".toList ∧ (content.any (·.isImage)) ∧ content.filter (·.isText) ≠ [] ∧
          encoding.textSize id role (content.filter (·.isText)) rest ≤ maxBytesPerKind then
        some (.message id role (content.filter (·.isText)) rest)
      else none := by
  simp only [textOnly, Bool.and_eq_true, beq_iff_eq]
  generalize content.filter (·.isText) = text
  by_cases huser : role = "user".toList ∧ content.any (·.isImage)
  · rw [if_pos huser, toWriter_eq encoding.itemSize_le]
    by_cases hheader : encoding.itemSize + (encoding.header id role rest).sum ≤ maxBytesPerKind
    · rw [if_pos hheader, Option.bind_eq_bind, Option.bind_some, foldlM_toWriter_eq hheader,
        ← textSize]
      by_cases htext : encoding.textSize id role text rest ≤ maxBytesPerKind
      · rw [if_pos htext]
        cases text <;> simp_all
      · rw [if_neg htext]
        exact (if_neg fun h ↦ htext h.2.2.2).symm
    · rw [if_neg hheader]
      exact (if_neg fun h ↦ hheader (le_trans (Nat.le_add_right ..) h.2.2.2)).symm
  · rw [if_neg huser, if_neg fun h ↦ huser ⟨h.1, h.2.1⟩]

theorem Encoding.retained_eq (encoding : Encoding β) (item : ResponseItem β) :
    encoding.retained item = (encoding.kept item).map fun kept ↦ (kept, encoding.size kept) := by
  unfold retained kept
  rw [measured_eq]
  by_cases hfits : encoding.size item ≤ maxBytesPerKind
  · simp [hfits]
  · rw [if_neg hfits, if_neg hfits]
    cases item with
    | reasoning | other => rfl
    | message id role content rest =>
      dsimp only
      rw [textOnly_message]
      generalize content.filter (·.isText) = text
      by_cases htext : role = "user".toList ∧ (content.any (·.isImage)) ∧ text ≠ [] ∧
          encoding.textSize id role text rest ≤ maxBytesPerKind
      · obtain ⟨huser, himage, hne, hle⟩ := htext
        rw [if_pos ⟨huser, himage, hne, hle⟩, Option.bind_some, measured_eq]
        by_cases hsize : encoding.size (.message id role text rest) ≤ maxBytesPerKind
        · rw [if_pos hsize, if_pos ⟨huser, himage, hne, hle, hsize⟩]
          rfl
        · rw [if_neg hsize, if_neg fun h ↦ hsize h.2.2.2.2]
          rfl
      · rw [if_neg htext, if_neg fun h ↦ htext ⟨h.1, h.2.1, h.2.2.1, h.2.2.2.1⟩]
        rfl

/-! ## Retained entries -/

structure Bounded (encoding : Encoding β) (history : TranscriptHistory β) : Prop where
  length_le : ∀ user, (kind user history.items).length ≤ maxItemsPerKind
  bytes_le : ∀ user, bytesOf user history.items ≤ maxBytesPerKind
  ordered : history.items.Pairwise (·.number < ·.number)
  origin : ∀ entry ∈ history.items,
    history.recorded[entry.number]?.bind encoding.retained = some (entry.item, entry.size)

variable {encoding : Encoding β} {history : TranscriptHistory β} {item : ResponseItem β} {size : ℕ}

theorem Bounded.sublist (h : Bounded encoding history) {items : List (Entry β)}
    (hitems : items <+ history.items) (generation : ℕ) :
    Bounded encoding { history with items, generation } where
  length_le user := (hitems.filter _).length_le.trans (h.length_le user)
  bytes_le user := ((hitems.filter _).map _).sum_le_sum (by simp) |>.trans (h.bytes_le user)
  ordered := h.ordered.sublist hitems
  origin entry hent := h.origin entry (hitems.subset hent)

/-- A push keeps a part of the entries that leaves room for the new one. -/
theorem exists_kept_push (history : TranscriptHistory β) (item : ResponseItem β)
    (hsi : size ≤ maxBytesPerKind) : ∃ kept,
      (history.push item size).items = kept ++ [⟨item, size, history.recorded.length⟩] ∧
      kept <+ history.items ∧
      kind (!item.isUserMessage) kept = kind (!item.isUserMessage) history.items ∧
      (kind item.isUserMessage kept).length < maxItemsPerKind ∧
      size + bytesOf item.isUserMessage kept ≤ maxBytesPerKind ∧
      (kept = history.items ∧ (history.push item size).generation = history.generation ∨
        (history.push item size).generation = nextGeneration history.generation) := by
  unfold push
  dsimp only
  split_ifs with hf
  · have ⟨hc, hb⟩ := evict_bounded item.isUserMessage hsi history.items rfl rfl
    exact ⟨_, rfl, evict_sublist .., kind_not_evict .., hc, hb, .inr rfl⟩
  · obtain ⟨hr, hs⟩ := not_or.mp hf
    exact ⟨_, rfl, .refl _, rfl, not_le.mp hr, not_lt.mp hs, .inl ⟨rfl, rfl⟩⟩

theorem record_of_retained_eq_none (h : encoding.retained item = none) :
    history.record encoding item = { history with recorded := history.recorded ++ [item] } := by
  simp [record, h]

theorem record_of_retained {kept : ResponseItem β}
    (h : encoding.retained item = some (kept, size)) :
    history.record encoding item =
      { history.push kept size with recorded := history.recorded ++ [item] } := by
  simp [record, h]

theorem Bounded.record (h : Bounded encoding history) (item : ResponseItem β) :
    Bounded encoding (history.record encoding item) := by
  have hlt (entry) (hent : entry ∈ history.items) : entry.number < history.recorded.length := by
    obtain ⟨_, hit, -⟩ := bind_eq_some_iff.mp (h.origin entry hent)
    exact (List.getElem?_eq_some_iff.mp hit).1
  have ho (entry) (hent : entry ∈ history.items) :
      (history.recorded ++ [item])[entry.number]?.bind encoding.retained =
        some (entry.item, entry.size) := by
    rw [getElem?_append_left (hlt entry hent), h.origin entry hent]
  cases hret : encoding.retained item with
  | none => exact record_of_retained_eq_none hret ▸ { h with origin := ho }
  | some kept =>
    obtain ⟨before, hitems, hsub, -, hc, hb, -⟩ :=
      exists_kept_push history kept.1 (encoding.retained_le hret)
    have hbe := h.sublist hsub history.generation
    have hk (user) : kind user (before ++ [⟨kept.1, kept.2, history.recorded.length⟩]) =
        kind user before ++ if kept.1.isUserMessage = user then
          [⟨kept.1, kept.2, history.recorded.length⟩] else [] := by
      rw [kind, filter_append, filter_singleton]
      simp [kind]
    rw [record_of_retained hret]
    refine ⟨fun user ↦ ?_, fun user ↦ ?_, ?_, ?_⟩ <;> dsimp only <;> rw [hitems]
    · rw [hk]
      split_ifs with hu
      · exact hu ▸ (length_append.trans_le hc)
      · simpa using hbe.length_le user
    · rw [bytesOf, hk]
      split_ifs with hu
      · subst hu
        simpa [bytesOf, add_comm] using hb
      · simpa [bytesOf] using hbe.bytes_le user
    · exact pairwise_append.mpr ⟨hbe.ordered, pairwise_singleton .., fun entry hent _ hn ↦
        mem_singleton.mp hn ▸ hlt entry (hsub.subset hent)⟩
    · rw [forall_mem_append, forall_mem_singleton]
      exact ⟨fun entry hent ↦ ho entry (hsub.subset hent), by simpa using hret⟩

theorem Bounded.records (h : Bounded encoding history) (items : List (ResponseItem β)) :
    Bounded encoding (items.foldl (TranscriptHistory.record encoding) history) := by
  induction items generalizing history with
  | nil => exact h
  | cons item items ih => exact ih (h.record item)

theorem le_nextGeneration (generation : ℕ) : generation ≤ nextGeneration generation := by
  unfold nextGeneration
  split_ifs <;> omega

theorem lt_nextGeneration {generation : ℕ} (h : generation < 2 ^ 64 - 1) :
    generation < nextGeneration generation := by
  rw [nextGeneration, if_pos h]
  exact Nat.lt_succ_self _

/-- A recording removes nothing or begins a new generation. -/
theorem record_generation (encoding : Encoding β) (history : TranscriptHistory β)
    (item : ResponseItem β) :
    history.items <+ (history.record encoding item).items ∧
        (history.record encoding item).generation = history.generation ∨
      (history.record encoding item).generation = nextGeneration history.generation := by
  cases hret : encoding.retained item with
  | none => exact record_of_retained_eq_none hret ▸ .inl ⟨.refl _, rfl⟩
  | some kept =>
    rw [record_of_retained hret]
    obtain ⟨kept, hitems, -, -, -, -, ⟨rfl, hgen⟩ | hgen⟩ :=
      exists_kept_push history kept.1 (encoding.retained_le hret)
    · exact .inl ⟨hitems.symm ▸ sublist_append_left .., hgen⟩
    · exact .inr hgen

theorem le_generation_records (encoding : Encoding β) (history : TranscriptHistory β)
    (items : List (ResponseItem β)) : history.generation ≤
      (items.foldl (record encoding) history).generation := by
  induction items generalizing history with
  | nil => exact le_rfl
  | cons item items ih =>
    refine le_trans ?_ (ih _)
    rcases record_generation encoding history item with ⟨-, hs⟩ | hnext
    · exact hs.ge
    · exact hnext ▸ le_nextGeneration _

variable [DecidableEq β]

theorem bounded_run (encoding : Encoding β) (generation : ℕ) (actions : List (HistoryAction β)) :
    Bounded encoding (run encoding generation actions) := by
  induction actions using reverseRecOn with
  | nil => exact ⟨by simp [run, kind], by simp [run, bytesOf, kind], .nil, by simp [run]⟩
  | append_singleton actions action ih =>
    rw [run, foldl_append, foldl_cons, foldl_nil, ← run]
    cases action with
    | record item => exact ih.record item
    | reset items => exact (ih.sublist (nil_sublist _) _).records items
    | truncateBefore boundary => exact ih.sublist (take_sublist ..) _

/-- What a recording does: what is kept of the item is the newest entry, and the other kind stays. -/
structure Records (encoding : Encoding β) (item : ResponseItem β)
    (history next : TranscriptHistory β) : Prop where
  newest : ∀ kept ∈ encoding.kept item,
    ∃ number, next.items.getLast? = some ⟨kept, encoding.size kept, number⟩
  skipped : encoding.kept item = none → next.items = history.items
  other : kind (!item.isUserMessage) next.items = kind (!item.isUserMessage) history.items

omit [DecidableEq β] in
theorem Encoding.isUserMessage_of_kept {kept : ResponseItem β}
    (h : encoding.kept item = some kept) :
    kept.isUserMessage = item.isUserMessage := by
  unfold Encoding.kept at h
  split_ifs at h
  · cases h
    rfl
  · split at h
    · dsimp only at h
      split_ifs at h
      cases h
      rfl
    · cases h

omit [DecidableEq β] in
theorem records_record (history : TranscriptHistory β) (item : ResponseItem β) :
    Records encoding item history (history.record encoding item) := by
  have hretained := encoding.retained_eq item
  cases hkept : encoding.kept item with
  | none =>
    rw [hkept] at hretained
    rw [record_of_retained_eq_none hretained]
    exact ⟨by simp [hkept], fun _ ↦ rfl, rfl⟩
  | some kept =>
    rw [hkept] at hretained
    obtain ⟨before, hitems, -, hother, -⟩ :=
      exists_kept_push history kept (encoding.retained_le hretained)
    rw [record_of_retained hretained]
    refine ⟨?_, by simp [hkept], ?_⟩
    · intro kept' hkept'
      obtain rfl : kept = kept' := by simpa [hkept] using hkept'
      exact ⟨_, by rw [hitems, getLast?_concat]⟩
    · rw [← Encoding.isUserMessage_of_kept hkept, ← hother]
      simp [hitems, kind]

omit [DecidableEq β] in
/-- The entries behind a number stay behind it while items are recorded. -/
theorem le_number_records {n : ℕ} (hn : n ≤ history.recorded.length)
    (h : ∀ entry ∈ history.items, n ≤ entry.number) (items : List (ResponseItem β)) :
    ∀ entry ∈ (items.foldl (record encoding) history).items, n ≤ entry.number := by
  induction items generalizing history with
  | nil => exact h
  | cons item items ih =>
    refine ih ?_ fun entry hent ↦ ?_
    · exact hn.trans (by simp [record])
    · cases hret : encoding.retained item with
      | none =>
        rw [record_of_retained_eq_none hret] at hent
        exact h entry hent
      | some kept =>
        obtain ⟨before, hitems, hsub, -⟩ :=
          exists_kept_push history kept.1 (encoding.retained_le hret)
        rw [record_of_retained hret] at hent
        dsimp only at hent
        rw [hitems] at hent
        rcases mem_append.mp hent with hold | hnew
        · exact h entry (hsub.subset hold)
        · exact mem_singleton.mp hnew ▸ hn

/-- The transcript stays within its limits and in order, a recording keeps the other kind and what
fits of the item, a reset leaves only what it records, and the generation changes with every removal. -/
theorem transcript_bounded (encoding : Encoding β) (generation : ℕ)
    (actions : List (HistoryAction β)) (action : HistoryAction β) :
    let history := run encoding generation actions
    let next := history.apply encoding action
    Bounded encoding history ∧
      (∀ item, action = .record item → Records encoding item history next) ∧
      (∀ items, action = .reset items →
        (∀ entry ∈ next.items, history.recorded.length ≤ entry.number) ∧
          ∀ front item, items = front ++ [item] →
            Records encoding item (run encoding generation (actions ++ [.reset front])) next) ∧
      ∀ entry ∈ history.items, entry ∉ next.items → history.generation < 2 ^ 64 - 1 →
        history.generation < next.generation := by
  dsimp only
  refine ⟨bounded_run .., ?_, ?_, fun entry hent hremoved hgen ↦ ?_⟩
  · rintro item rfl
    exact records_record _ item
  · rintro items rfl
    refine ⟨le_number_records le_rfl (by simp) items, ?_⟩
    rintro front item rfl
    have hnext : (run encoding generation actions).reset encoding (front ++ [item]) =
        (run encoding generation (actions ++ [.reset front])).record encoding item := by
      simp [run, reset, apply]
    rw [apply, hnext]
    exact records_record _ item
  · generalize run encoding generation actions = history at hent hremoved hgen ⊢
    cases action with
    | record item =>
      rcases record_generation encoding history item with ⟨hsub, -⟩ | hnext
      · exact absurd (hsub.subset hent) hremoved
      · exact hnext.symm ▸ lt_nextGeneration hgen
    | reset items =>
      exact (lt_nextGeneration hgen).trans_le (le_generation_records encoding
        { history with items := [], generation := nextGeneration history.generation } items)
    | truncateBefore => exact lt_nextGeneration hgen

/-- Behind a truncation nothing is left that was recorded with the boundary or later, unless the
boundary was evicted and a later entry looks like it. -/
theorem truncateBefore_keeps_older (encoding : Encoding β) (generation : ℕ)
    (actions : List (HistoryAction β)) (boundary : ResponseItem β) (number : ℕ)
    (hboundary : (∃ entry ∈ (run encoding generation actions).items,
        entry.number = number ∧ boundary.isBoundary entry.item) ∨
      ∀ entry ∈ (run encoding generation actions).items, number < entry.number →
        ¬boundary.isBoundary entry.item) :
    ∀ entry ∈ ((run encoding generation actions).truncateBefore boundary).items,
      entry.number < number := by
  have hordered := (bounded_run encoding generation actions).ordered
  generalize run encoding generation actions = history at hordered hboundary ⊢
  intro entry hent
  unfold truncateBefore at hent
  cases hfind : history.items.findIdx? (boundary.isBoundary ·.item) with
  | none => simp [hfind] at hent
  | some index =>
    rw [hfind, getD_some] at hent
    obtain ⟨hidx, hmatch, hfirst⟩ := findIdx?_eq_some_iff_getElem.mp hfind
    obtain ⟨i, hi, rfl⟩ := mem_take_iff_getElem.mp hent
    have hlt := pairwise_iff_getElem.mp hordered i index (by omega) hidx (by omega)
    refine hlt.trans_le ?_
    rcases hboundary with ⟨entry, hent, rfl, hfnd⟩ | hlater
    · obtain ⟨j, hj, rfl⟩ := getElem_of_mem hent
      rcases lt_trichotomy index j with hlt | rfl | hlt
      · exact (pairwise_iff_getElem.mp hordered index j hidx hj hlt).le
      · exact le_rfl
      · exact absurd hfnd (hfirst j hlt)
    · exact not_lt.mp fun hlt ↦ hlater _ (getElem_mem hidx) hlt hmatch

/-- A user says hello first and last, and nothing is said in between that would not fit. -/
def repeatedGreeting : List (HistoryAction Unit) :=
  let message text := .record (.message none "user".toList [.inputText text] ())
  message ['a'] :: .record (.other none ()) :: replicate 127 (message ['b']) ++ [message ['a']]

def unitEncoding : Encoding Unit :=
  ⟨1, by decide, fun _ ↦ [1], fun _ ↦ [1], fun _ _ _ ↦ [1], fun _ ↦ [1]⟩

/-- Images are larger than the limit. -/
def imageEncoding : Encoding Unit :=
  { unitEncoding with
    item := fun
      | .message _ _ content _ => content.map fun item ↦ if item.isImage then 5000000 else 1
      | _ => [1] }

theorem transcript_bounded_image :
    let message content : ResponseItem Unit := .message none "user".toList content ()
    ∃ number, ((run imageEncoding 0 [.record (.other none ())]).apply imageEncoding
      (.reset [message [.inputText ['a'], .inputImage []]])).items.getLast? =
        some ⟨message [.inputText ['a']], 2, number⟩ :=
  ((transcript_bounded imageEncoding 0 [.record (.other none ())] (.reset _)).2.2.1 _ rfl).2 [] _ rfl
    |>.newest _ (by decide)

theorem truncateBefore_keeps_older_greeting :
    let history := run unitEncoding 0 (repeatedGreeting.take 3)
    history.items.length = 3 ∧ ∀ entry ∈ (history.truncateBefore
      (.message none "user".toList [.inputText ['b']] ())).items, entry.number < 2 :=
  ⟨by decide, truncateBefore_keeps_older unitEncoding 0 _ _ 2 (.inl (by decide +kernel))⟩

theorem truncateBefore_keeps_later : ¬∀ (encoding : Encoding Unit) generation actions boundary
    number, (run encoding generation actions).recorded[number]? = some boundary →
      ∀ entry ∈ ((run encoding generation actions).truncateBefore boundary).items,
        entry.number < number := by
  intro hclaim
  have hkept := hclaim unitEncoding 0 repeatedGreeting
    (.message none "user".toList [.inputText ['a']] ()) 0 (by decide +kernel)
  revert hkept
  decide +kernel

end Slopdex.Guardian
