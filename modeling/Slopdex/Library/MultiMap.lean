import Slopdex.Library.KeyedMap

/-!
# Maps from a key to the list of its values

Every key carries its values in the order in which they were inserted. Inserting all values of a
second map leaves, under each key, the values of the first one followed by those of the second,
whatever the order in which the keys are visited.
-/

namespace Slopdex.Library

open List

universe u v

abbrev MultiMap (κ : Type u) (ν : Type v) := KeyedMap.Map κ (List ν)

namespace MultiMap

variable {κ : Type u} {ν : Type v} [DecidableEq κ] (m : MultiMap κ ν)

def getVec (k : κ) : List ν := (m.lookup k).getD []

def insert (k : κ) (v : ν) : MultiMap κ ν := AList.insert k (getVec m k ++ [v]) m

def insertAll (k : κ) (values : List ν) : MultiMap κ ν :=
  values.foldl (fun acc v ↦ insert acc k v) m

/-- The values of the other map go behind those of `m`. -/
def extend (m other : MultiMap κ ν) : MultiMap κ ν :=
  other.entries.foldl (fun acc entry ↦ insertAll acc entry.1 entry.2) m

@[simp] theorem getVec_empty (k : κ) : getVec (∅ : MultiMap κ ν) k = [] := rfl

theorem getVec_insert (k : κ) (v : ν) (j : κ) :
    getVec (insert m k v) j = if j = k then getVec m j ++ [v] else getVec m j := by
  unfold getVec insert
  split
  next hj =>
    subst hj
    rw [AList.lookup_insert]
    rfl
  next hj => rw [AList.lookup_insert_ne hj]

theorem getVec_insertAll (k : κ) (values : List ν) (j : κ) :
    getVec (insertAll m k values) j = if j = k then getVec m j ++ values else getVec m j := by
  induction values generalizing m with
  | nil => simp [insertAll]
  | cons v rest ih =>
    have hs : insertAll m k (v :: rest) = insertAll (insert m k v) k rest := rfl
    rw [hs, ih, getVec_insert]
    split <;> simp

theorem getVec_extend_of_notMem (entries : List (Sigma fun _ : κ ↦ List ν)) (m : MultiMap κ ν)
    {k : κ} (hk : k ∉ entries.keys) :
    getVec (entries.foldl (fun acc entry ↦ insertAll acc entry.1 entry.2) m) k = getVec m k := by
  induction entries generalizing m with
  | nil => rfl
  | cons _ _ ih =>
    rw [keys_cons, mem_cons, not_or] at hk
    rw [foldl_cons, ih _ hk.2, getVec_insertAll, if_neg hk.1]

theorem getVec_extend (m other : MultiMap κ ν) (k : κ) :
    getVec (extend m other) k = getVec m k ++ getVec other k := by
  have he : ∀ (entries : List (Sigma fun _ : κ ↦ List ν)) (acc : MultiMap κ ν),
      entries.NodupKeys →
        getVec (entries.foldl (fun acc entry ↦ insertAll acc entry.1 entry.2) acc) k =
          getVec acc k ++ (dlookup k entries).getD [] := by
    intro entries
    induction entries with
    | nil => intro acc _; simp
    | cons entry rest ih =>
      intro _ hn
      obtain ⟨key, _⟩ := entry
      rw [nodupKeys_cons] at hn
      rw [foldl_cons]
      by_cases hk : k = key
      · subst hk
        -- no later entry has this key
        rw [getVec_extend_of_notMem rest _ hn.1, getVec_insertAll, if_pos rfl,
          dlookup_cons_eq, Option.getD_some]
      · rw [ih _ hn.2, getVec_insertAll, if_neg hk, dlookup_cons_ne _ _ hk]
  exact he other.entries m other.nodupKeys

end MultiMap

end Slopdex.Library
