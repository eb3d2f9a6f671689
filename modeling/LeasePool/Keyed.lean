/-!
Keyed values: lists of pairs in strictly increasing order of their keys, so that each key stands
once and two lists with the same bindings are equal. `Keyed.insert` keeps the order.
-/

namespace LeasePool

universe u

variable {α : Type u}

/-- The keys of a list of pairs increase strictly. -/
def Keyed (entries : List (String × α)) : Prop :=
  entries.Pairwise fun first later => first.1 < later.1

namespace Keyed

/-- Bind `key` to `value` at its place in the order; an earlier binding of the key is replaced. -/
def insert (key : String) (value : α) : List (String × α) → List (String × α)
  | [] => [(key, value)]
  | (k, v) :: rest =>
      if key < k then (key, value) :: (k, v) :: rest
      else if key = k then (key, value) :: rest
      else (k, v) :: insert key value rest

def find? (key : String) : List (String × α) → Option α
  | [] => none
  | (k, v) :: rest => if k = key then some v else find? key rest

/-- The bindings made by inserting pairs from first to last, so that the last one of a key wins. -/
def ofPairs (pairs : List (String × α)) : List (String × α) :=
  pairs.foldl (fun entries pair => insert pair.1 pair.2 entries) []

theorem mem_insert_imp {key : String} {value : α} {entries : List (String × α)}
    {pair : String × α} (h : pair ∈ insert key value entries) :
    pair = (key, value) ∨ pair ∈ entries := by
  induction entries with
  | nil => simpa [insert] using h
  | cons head rest ih =>
      unfold insert at h
      split at h
      · simpa using h
      · split at h
        · rcases List.mem_cons.1 h with h | h
          · exact .inl h
          · exact .inr (List.mem_cons_of_mem _ h)
        · rcases List.mem_cons.1 h with h | h
          · exact .inr (by simp [h])
          · exact (ih h).imp id (List.mem_cons_of_mem _)

theorem insert_keyed {entries : List (String × α)} (h : Keyed entries) (key : String) (value : α) :
    Keyed (insert key value entries) := by
  induction entries with
  | nil => simp [insert, Keyed]
  | cons head rest ih =>
      obtain ⟨hhead, hrest⟩ := List.pairwise_cons.1 h
      unfold insert
      split
      · next hlt =>
        refine List.pairwise_cons.2 ⟨fun pair hpair => ?_, h⟩
        rcases List.mem_cons.1 hpair with rfl | hpair
        · exact hlt
        · exact String.lt_trans hlt (hhead pair hpair)
      · next hnot =>
        split
        · next heq =>
          subst heq
          exact List.pairwise_cons.2 ⟨hhead, hrest⟩
        · next hne =>
          refine List.pairwise_cons.2 ⟨fun pair hpair => ?_, ih hrest⟩
          rcases mem_insert_imp hpair with rfl | hpair
          · exact Decidable.byContradiction fun hle =>
              hne (String.le_antisymm (String.not_lt.1 hle) (String.not_lt.1 hnot))
          · exact hhead pair hpair

theorem foldl_insert_keyed (pairs : List (String × α)) {entries : List (String × α)}
    (h : Keyed entries) :
    Keyed (pairs.foldl (fun kept pair => insert pair.1 pair.2 kept) entries) := by
  induction pairs generalizing entries with
  | nil => exact h
  | cons pair rest ih => exact ih (insert_keyed h pair.1 pair.2)

theorem ofPairs_keyed (pairs : List (String × α)) : Keyed (ofPairs pairs) :=
  foldl_insert_keyed pairs List.Pairwise.nil

/-- A pair whose key comes after all others goes to the end. -/
theorem insert_of_forall_lt {key : String} {value : α} {entries : List (String × α)}
    (h : ∀ entry ∈ entries, entry.1 < key) :
    insert key value entries = entries ++ [(key, value)] := by
  induction entries with
  | nil => rfl
  | cons entry rest ih =>
      obtain ⟨hentry, hrest⟩ := List.forall_mem_cons.1 h
      have hnot : ¬key < entry.1 := String.lt_asymm hentry
      have hne : key ≠ entry.1 := by
        rintro rfl
        exact String.lt_irrefl _ hentry
      rw [insert, if_neg hnot, if_neg hne, ih hrest, List.cons_append]

theorem foldl_insert_append {entries pairs : List (String × α)} (h : Keyed (entries ++ pairs)) :
    pairs.foldl (fun kept pair => insert pair.1 pair.2 kept) entries = entries ++ pairs := by
  induction pairs generalizing entries with
  | nil => rw [List.foldl_nil, List.append_nil]
  | cons pair rest ih =>
      have hlast : ∀ entry ∈ entries, entry.1 < pair.1 := fun entry hentry =>
        (List.pairwise_append.1 h).2.2 entry hentry pair List.mem_cons_self
      have hsplit : entries ++ pair :: rest = entries ++ [pair] ++ rest := by simp
      rw [List.foldl_cons, insert_of_forall_lt hlast, hsplit]
      rw [hsplit] at h
      exact ih h

/-- Pairs in strictly increasing order of their keys are their own bindings. -/
theorem ofPairs_eq_self {pairs : List (String × α)} (h : Keyed pairs) : ofPairs pairs = pairs :=
  foldl_insert_append h

end Keyed
end LeasePool
