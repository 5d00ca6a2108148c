import Slopdex.Protocol.Types
import Mathlib.Data.List.Destutter
import Mathlib.Data.List.Flatten
import Mathlib.Data.List.Sort

/-!
# The fuzzy matcher

`fuzzy_match` looks for the needle, lower-cased as a text, in the haystack, lower-cased character by
character. The tables of the standard library are parameters.
-/

namespace Slopdex.Strings

open Protocol (Text)
open List

/-- What `str::to_lowercase` reads from the tables of the standard library -/
structure LowerCasing where
  toLower : Char → Text
  (caseIgnorable cased : Char → Bool)

namespace LowerCasing

variable (lc : LowerCasing)

def caseIgnorableThenCased (text : Text) : Bool :=
  (text.dropWhile lc.caseIgnorable).head?.any lc.cased

/-- The text after `before`, which is read backwards; a sigma at the end of a word is special. -/
def lowerFrom (before : Text) : Text → Text
  | [] => []
  | c :: after =>
    (if c = 'Σ' then
      if lc.caseIgnorableThenCased before && !lc.caseIgnorableThenCased after then ['ς'] else ['σ']
    else lc.toLower c) ++ lowerFrom (c :: before) after

/-- `str::to_lowercase` -/
def toLowercase (text : Text) : Text := lc.lowerFrom [] text

/-- The lower-cased haystack, where each character has the position it comes from -/
def lowered (haystack : Text) : List (Char × ℕ) :=
  haystack.zipIdx.flatMap fun c ↦ (lc.toLower c.1).map (·, c.2)

/-- The two loops: the positions in the lower-cased haystack, from `cur` on, and in the haystack -/
def findAll : Text → ℕ → List (Char × ℕ) → Option (List (ℕ × ℕ))
  | [], _, _ => some []
  | _ :: _, _, [] => none
  | nc :: needle, cur, (c, index) :: rest =>
    if c = nc then (findAll needle (cur + 1) rest).map ((cur, index) :: ·)
    else findAll (nc :: needle) (cur + 1) rest

def fuzzyMatch (haystack needle : Text) : Option (List ℕ × Int32) :=
  if needle.isEmpty then some ([], Int32.maxValue) else
    let lowered := lc.lowered haystack
    let loweredNeedle := lc.toLowercase needle
    (findAll loweredNeedle 0 lowered).map fun hits ↦
      let first := (hits.head?.bind fun hit ↦ lowered.findIdx? (·.2 = hit.2)).getD 0
      let last := (hits.getLast?.map (·.1)).getD first
      let window := Int32.ofNat last - Int32.ofNat first + 1 - Int32.ofNat loweredNeedle.length
      let score := max window 0
      ((hits.map (·.2)).mergeSort.destutter (· ≠ ·), if first = 0 then score - 100 else score)

theorem isSome_findAll {needle : Text} {cur : ℕ} {rest : List (Char × ℕ)}
    (h : needle <+ rest.map Prod.fst) : (findAll needle cur rest).isSome := by
  fun_induction findAll needle cur rest with
  | case1 => rfl
  | case2 => simp at h
  | case3 needle cur nc index rest ih => simpa using ih (by simpa using h)
  | case4 nc needle cur c index rest hne ih =>
    cases h with
    | cons _ h => exact ih h
    | cons_cons => exact absurd rfl hne

/-- The needle is read off cells of the haystack at the positions that are found. -/
theorem findAll_sublist {needle : Text} {cur : ℕ} {rest : List (Char × ℕ)} {hits : List (ℕ × ℕ)}
    (h : findAll needle cur rest = some hits) : ∃ cells, cells <+ rest ∧
      cells.map Prod.fst = needle ∧ cells.map Prod.snd = hits.map Prod.snd := by
  fun_induction findAll needle cur rest generalizing hits with
  | case1 => exact ⟨[], by simp_all⟩
  | case2 => simp at h
  | case3 needle cur nc index rest ih =>
    obtain ⟨others, ho, rfl⟩ := Option.map_eq_some_iff.mp h
    obtain ⟨cells, hc, hn, hidx⟩ := ih ho
    exact ⟨(nc, index) :: cells, hc.cons_cons _, by simp [hn], by simp [hidx]⟩
  | case4 nc needle cur c index rest hne ih =>
    obtain ⟨cells, hc, hs⟩ := ih h
    exact ⟨cells, hc.cons _, hs⟩

/-- The lower-cased characters at some of the positions -/
theorem map_filter_lowered (haystack : List (Char × ℕ)) (p : ℕ → Bool) :
    ((haystack.flatMap fun c ↦ (lc.toLower c.1).map (·, c.2)).filter (p ·.2)).map Prod.fst =
      (haystack.filter (p ·.2)).flatMap (lc.toLower ·.1) := by
  induction haystack with
  | nil => rfl
  | cons c haystack ih => cases h : p c.2 <;> simp_all [Function.comp_def, filter_map]

/-- The capital sigma between `before`, read backwards, and `after` is at the end of a word. -/
def EndsWord (before after : Text) : Prop :=
  lc.caseIgnorableThenCased before ∧ ¬lc.caseIgnorableThenCased after

variable {lc} in
theorem length_lowerFrom (hsigma : lc.toLower 'Σ' = ['σ']) (before text : Text) :
    (lc.lowerFrom before text).length = (text.flatMap lc.toLower).length := by
  induction text generalizing before with
  | nil => rfl
  | cons c after ih =>
    rw [lowerFrom, length_append, ih, flatMap_cons, length_append]
    split_ifs with hc
    · rw [hc, hsigma]
      rfl
    · rw [hc, hsigma]
    · rfl

variable {lc} in
/-- A text is lower-cased character by character unless a capital sigma ends a word. -/
theorem lowerFrom_eq_flatMap_iff (hsigma : lc.toLower 'Σ' = ['σ']) (before text : Text) :
    lc.lowerFrom before text = text.flatMap lc.toLower ↔
      ∀ front after, text = front ++ 'Σ' :: after → ¬lc.EndsWord (front.reverse ++ before) after := by
  induction text generalizing before with
  | nil => simp [lowerFrom]
  | cons c text ih =>
    have hsplit : (∀ front after, c :: text = front ++ 'Σ' :: after →
        ¬lc.EndsWord (front.reverse ++ before) after) ↔
        (c = 'Σ' → ¬lc.EndsWord before text) ∧ ∀ front after, text = front ++ 'Σ' :: after →
          ¬lc.EndsWord (front.reverse ++ c :: before) after := by
      constructor
      · refine fun h ↦ ⟨fun hc ↦ h [] text (by rw [hc]; rfl), fun front after htext ↦ ?_⟩
        simpa using h (c :: front) after (by rw [htext]; rfl)
      · rintro ⟨hhead, htail⟩ (_ | ⟨d, front⟩) after htext
        · obtain ⟨hc, rfl⟩ := cons_eq_cons.mp htext
          exact hhead hc
        · obtain ⟨rfl, hrest⟩ := cons_eq_cons.mp htext
          simpa using htail front after hrest
    rw [hsplit, ← ih, lowerFrom, flatMap_cons]
    by_cases hc : c = 'Σ'
    · by_cases hend : lc.EndsWord before text
      · have hends := hend
        obtain ⟨hbefore, hafter⟩ := hends
        simp [hc, hsigma, hbefore, hafter, hend]
      · have hstays : ¬(lc.caseIgnorableThenCased before && !lc.caseIgnorableThenCased text) := by
          simpa [EndsWord] using hend
        simp [hc, hsigma, hstays, hend]
    · simp [hc]

theorem isSome_fuzzyMatch_iff (haystack needle : Text) : (lc.fuzzyMatch haystack needle).isSome ↔
    lc.toLowercase needle <+ haystack.flatMap lc.toLower := by
  have hchars : (lc.lowered haystack).map Prod.fst = haystack.flatMap lc.toLower := by
    have hall := lc.map_filter_lowered haystack.zipIdx fun _ ↦ true
    rw [filter_true, filter_true] at hall
    rw [lowered, hall, ← flatMap_map, zipIdx_map_fst]
  rw [fuzzyMatch]
  split_ifs with hnil
  · simp [isEmpty_iff.mp hnil, toLowercase, lowerFrom]
  · rw [Option.isSome_map, ← hchars]
    refine ⟨fun h ↦ ?_, isSome_findAll⟩
    obtain ⟨hits, hhits⟩ := Option.isSome_iff_exists.mp h
    obtain ⟨cells, hcells, hneedle, -⟩ := findAll_sublist hhits
    exact hneedle ▸ hcells.map Prod.fst

theorem positions_spec {haystack needle : Text} {hits : List (ℕ × ℕ)}
    (h : findAll needle 0 (lc.lowered haystack) = some hits) :
    let positions := (hits.map (·.2)).mergeSort.destutter (· ≠ ·)
    positions.Pairwise (· < ·) ∧ (∀ i ∈ positions, i < haystack.length) ∧
      needle <+ (haystack.zipIdx.filter (·.2 ∈ positions)).flatMap (lc.toLower ·.1) := by
  intro positions
  have hs : (hits.map (·.2)).mergeSort.Pairwise (· ≤ ·) := pairwise_mergeSort' _ _
  have hd : positions = (hits.map (·.2)).mergeSort.dedup := hs.destutter_eq_dedup
  obtain ⟨cells, hcel, hn, hidx⟩ := findAll_sublist h
  have hmem : ∀ i, i ∈ positions ↔ i ∈ cells.map Prod.snd := by simp [hd, hidx]
  refine ⟨?_, fun i hi ↦ ?_, ?_⟩
  · rw [hd]
    exact ((hs.sublist (dedup_sublist _)).and (nodup_dedup _)).imp fun h ↦ h.1.lt_of_ne h.2
  · obtain ⟨cell, hce, rfl⟩ := mem_map.mp ((hmem i).mp hi)
    obtain ⟨c, hc, hl⟩ := mem_flatMap.mp (hcel.subset hce)
    obtain ⟨_, -, rfl⟩ := mem_map.mp hl
    exact snd_lt_of_mem_zipIdx hc
  · have hse : cells.filter (·.2 ∈ positions) = cells :=
      filter_eq_self.mpr fun cell hce ↦ by simpa [hmem] using ⟨cell.1, hce⟩
    have hf := lc.map_filter_lowered haystack.zipIdx (· ∈ positions)
    rw [← hf, ← hn, ← hse]
    exact (hcel.filter _).map _

/-- A needle is found in all texts that contain it if and only if none of its capital sigmas ends a
word, and what is found is right for every needle. -/
theorem fuzzyMatch_spec (hsigma : lc.toLower 'Σ' = ['σ']) (needle : Text) :
    ((∀ haystack, needle <+ haystack → (lc.fuzzyMatch haystack needle).isSome) ↔
      ∀ before after, needle = before ++ 'Σ' :: after → ¬lc.EndsWord before.reverse after) ∧
    ∀ haystack positions score, lc.fuzzyMatch haystack needle = some (positions, score) →
      positions.Pairwise (· < ·) ∧ (∀ i ∈ positions, i < haystack.length) ∧
        lc.toLowercase needle <+
          (haystack.zipIdx.filter (·.2 ∈ positions)).flatMap (lc.toLower ·.1) := by
  constructor
  · have hiff := lowerFrom_eq_flatMap_iff hsigma [] needle
    simp only [append_nil] at hiff
    rw [← hiff]
    constructor
    · -- the needle itself is a haystack, and its lower-cased form has the same length both ways
      intro h
      exact ((lc.isSome_fuzzyMatch_iff needle needle).mp (h needle (.refl _))).eq_of_length
        (length_lowerFrom hsigma [] needle)
    · intro hlower haystack hsub
      rw [isSome_fuzzyMatch_iff, toLowercase, hlower]
      exact hsub.flatMap lc.toLower
  · intro haystack positions score h
    rw [fuzzyMatch] at h
    split_ifs at h with hnil
    · cases h
      simp [isEmpty_iff.mp hnil, toLowercase, lowerFrom]
    · obtain ⟨hits, hhits, hresult⟩ := Option.map_eq_some_iff.mp h
      cases hresult
      exact lc.positions_spec hhits

end LowerCasing

/-- The two capital letters that the next example needs -/
def greek : LowerCasing where
  toLower c := if c = 'Α' then ['α'] else if c = 'Σ' then ['σ'] else [c]
  caseIgnorable _ := false
  cased c := c = 'Α' || c = 'Σ'

theorem fuzzyMatch_initial_sigma : (greek.fuzzyMatch "ΣΣΑ".toList "ΣΑ".toList).isSome := by
  refine (greek.fuzzyMatch_spec rfl "ΣΑ".toList).1.mpr (fun before after h ↦ ?_) _ (by decide)
  match before with
  | [] => exact fun hends ↦ absurd hends.1 (by decide)
  | [_] => simp at h
  | _ :: _ :: _ => simp at h

theorem fuzzyMatch_final_sigma : greek.fuzzyMatch "ΑΣ".toList "ΑΣ".toList = none := by decide

end Slopdex.Strings
