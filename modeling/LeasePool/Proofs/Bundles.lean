import LeasePool.Proofs.RoundTrip
import LeasePool.Proofs.Spellings
import Mathlib.Data.List.Induction

/-!
Bundles of parameters. A bundle is determined by the values of its keys, and the last value that a
key is given is the one it has. So it does not matter how the bundle came about: two lists of pairs
make the same bundle if they agree on the last value of every key, and every JSON text that writes
the pairs makes it too.
-/

namespace LeasePool

namespace Keyed

universe u

variable {α : Type u} {entries others : List (String × α)} {key : String} {value : α}

theorem find?_insert (asked key : String) (value : α) (entries : List (String × α)) :
    find? asked (insert key value entries) =
      if key = asked then some value else find? asked entries := by
  induction entries with
  | nil => rfl
  | cons entry rest ih =>
      obtain ⟨first, other⟩ := entry
      rw [insert]
      split
      · rfl
      · split
        · next heq =>
          subst heq
          by_cases hasked : key = asked <;> simp [find?, hasked]
        · next hne =>
          rw [find?, ih, find?]
          by_cases hfirst : first = asked
          · subst hfirst
            rw [if_pos rfl, if_pos rfl, if_neg hne]
          · rw [if_neg hfirst, if_neg hfirst]

theorem find?_eq_none_iff : find? key entries = none ↔ key ∉ entries.map Prod.fst := by
  induction entries with
  | nil => simp [find?]
  | cons entry rest ih =>
      rw [find?, List.map_cons, List.mem_cons, not_or]
      by_cases hentry : entry.1 = key
      · simp [hentry]
      · rw [if_neg hentry, ih]
        simp [Ne.symm hentry]

/-- No key before the first one is bound. -/
theorem find?_of_lt {entry : String × α} {rest : List (String × α)}
    (h : Keyed (entry :: rest)) (hlt : key < entry.1) : find? key (entry :: rest) = none := by
  refine find?_eq_none_iff.2 fun hmem => ?_
  obtain ⟨found, hfound, rfl⟩ := List.mem_map.1 hmem
  rcases List.mem_cons.1 hfound with rfl | hrest
  · exact String.lt_irrefl _ hlt
  · exact String.lt_irrefl _ (String.lt_trans hlt ((List.pairwise_cons.1 h).1 found hrest))

/-- The first key is bound once. -/
theorem find?_rest {entry : String × α} {rest : List (String × α)} (h : Keyed (entry :: rest)) :
    find? entry.1 rest = none := by
  refine find?_eq_none_iff.2 fun hmem => ?_
  obtain ⟨found, hfound, heq⟩ := List.mem_map.1 hmem
  have hlt := (List.pairwise_cons.1 h).1 found hfound
  rw [heq] at hlt
  exact String.lt_irrefl _ hlt

theorem mem_iff_find? (h : Keyed entries) :
    (key, value) ∈ entries ↔ find? key entries = some value := by
  induction entries with
  | nil => simp [find?]
  | cons entry rest ih =>
      rw [List.mem_cons, ih (List.pairwise_cons.1 h).2, find?]
      by_cases hkey : entry.1 = key
      · subst hkey
        simp [find?_rest h, Prod.ext_iff, eq_comm]
      · rw [if_neg hkey]
        simp [Prod.ext_iff, Ne.symm hkey]

theorem lt_or_gt_of_ne {first second : String} (hne : first ≠ second) :
    first < second ∨ second < first := by
  by_contra hnot
  rw [not_or] at hnot
  exact hne (String.le_antisymm (String.not_lt.1 hnot.2) (String.not_lt.1 hnot.1))

/-- Lists that bind every key to the same value are equal. -/
theorem ext (h : Keyed entries) (hothers : Keyed others)
    (hsame : ∀ key, find? key entries = find? key others) : entries = others := by
  induction entries generalizing others with
  | nil =>
      cases others with
      | nil => rfl
      | cons other later =>
          have hfirst := hsame other.1
          simp [find?] at hfirst
  | cons entry rest ih =>
      cases others with
      | nil =>
          have hfirst := hsame entry.1
          simp [find?] at hfirst
      | cons other later =>
          have hentry : find? entry.1 (entry :: rest) = some entry.2 := if_pos rfl
          have hother : find? other.1 (other :: later) = some other.2 := if_pos rfl
          have hkey : entry.1 = other.1 := by
            by_contra hne
            rcases lt_or_gt_of_ne hne with hlt | hlt
            · rw [hsame, find?_of_lt hothers hlt] at hentry
              cases hentry
            · rw [← hsame, find?_of_lt h hlt] at hother
              cases hother
          have hvalue : entry.2 = other.2 := by
            rw [hsame, hkey, hother] at hentry
            exact (Option.some_inj.1 hentry).symm
          have hrest : rest = later := by
            refine ih (List.pairwise_cons.1 h).2 (List.pairwise_cons.1 hothers).2 fun key => ?_
            by_cases hfirst : entry.1 = key
            · rw [← hfirst, find?_rest h, hkey, find?_rest hothers]
            · have hlater := hsame key
              rwa [find?, find?, if_neg hfirst, if_neg (hkey ▸ hfirst)] at hlater
          rw [Prod.ext hkey hvalue, hrest]

end Keyed

namespace Params

variable {pairs others : List (String × String)} {key value : String} {params : Params}

def lastValue? (key : String) (pairs : List (String × String)) : Option String :=
  (pairs.reverse.find? fun pair => pair.1 == key).map (·.2)

theorem lastValue?_concat (key : String) (pairs : List (String × String))
    (pair : String × String) : lastValue? key (pairs ++ [pair]) =
      if pair.1 = key then some pair.2 else lastValue? key pairs := by
  rw [lastValue?, List.reverse_append, List.reverse_singleton, List.singleton_append,
    List.find?_cons]
  cases hkey : pair.1 == key with
  | true => rw [if_pos (beq_iff_eq.1 hkey), Option.map_some]
  | false => rw [if_neg (beq_eq_false_iff_ne.1 hkey), lastValue?]

theorem get?_insert (asked : String) :
    (params.insert key value).get? asked = if key = asked then some value else params.get? asked :=
  Keyed.find?_insert asked key value params.entries

theorem ofList_concat (pairs : List (String × String)) (pair : String × String) :
    ofList (pairs ++ [pair]) = (ofList pairs).insert pair.1 pair.2 := by
  rw [ofList, List.foldl_append]
  rfl

/-- The last write of a key wins. -/
theorem get?_ofList (pairs : List (String × String)) (key : String) :
    (ofList pairs).get? key = lastValue? key pairs := by
  induction pairs using List.reverseRecOn with
  | nil => rfl
  | append_singleton pairs pair ih =>
      rw [ofList_concat, get?_insert, lastValue?_concat, ih]

theorem eq_iff_get? {first second : Params} :
    first = second ↔ ∀ key, first.get? key = second.get? key := by
  constructor
  · rintro rfl key
    rfl
  · exact fun hsame => eq_of_entries (Keyed.ext first.keyed second.keyed hsame)

/-- If no key stands twice, each pair is the last one of its key. -/
theorem lastValue?_eq_some_iff (hnodup : (pairs.map Prod.fst).Nodup) :
    lastValue? key pairs = some value ↔ (key, value) ∈ pairs := by
  induction pairs using List.reverseRecOn with
  | nil => simp [lastValue?]
  | append_singleton pairs pair ih =>
      rw [List.map_append, List.map_singleton, ← List.concat_eq_append, List.nodup_concat] at hnodup
      rw [lastValue?_concat, List.mem_append, List.mem_singleton]
      by_cases hkey : pair.1 = key
      · subst hkey
        have hnot : (pair.1, value) ∉ pairs := fun hmem => hnodup.1 (List.mem_map.2 ⟨_, hmem, rfl⟩)
        simp [hnot, Prod.ext_iff, eq_comm]
      · rw [if_neg hkey, ih hnodup.2]
        simp [Prod.ext_iff, Ne.symm hkey]

def codePoints (s : String) : List Nat := s.toList.map Char.toNat

theorem codePoints_lt_iff {first second : String} :
    codePoints first < codePoints second ↔ first < second := by
  rw [String.lt_iff, codePoints, codePoints]
  generalize first.toList = cs, second.toList = ds
  induction cs generalizing ds with
  | nil => cases ds <;> simp
  | cons c cs ih =>
      cases ds with
      | nil => simp
      | cons d ds =>
          rw [List.map_cons, List.map_cons, List.cons_lt_cons_iff, List.cons_lt_cons_iff, ih,
            Char.toNat_inj]
          rfl

/-- The keys of a bundle stand in the order of their code points. -/
theorem pairwise_codePoints (params : Params) :
    (params.toList.map fun entry => codePoints entry.1).Pairwise (· < ·) :=
  List.pairwise_map.2 (params.keyed.imp codePoints_lt_iff.2)

theorem mem_toList_iff : (key, value) ∈ params.toList ↔ params.get? key = some value :=
  Keyed.mem_iff_find? params.keyed

/-- Pairs with different keys may come in any order. -/
theorem lastValue?_perm (hperm : pairs.Perm others) (hnodup : (pairs.map Prod.fst).Nodup)
    (key : String) : lastValue? key pairs = lastValue? key others := by
  ext value
  rw [lastValue?_eq_some_iff hnodup, lastValue?_eq_some_iff ((hperm.map _).nodup_iff.1 hnodup),
    hperm.mem_iff]

theorem ofList_eq_iff :
    ofList pairs = ofList others ↔ ∀ key, lastValue? key pairs = lastValue? key others := by
  rw [eq_iff_get?]
  simp only [get?_ofList]

end Params

/-- Parameters that are set on a configuration are those of its bundle. -/
theorem Config.foldl_withParam (config : Config) (pairs : List (String × String)) :
    pairs.foldl (fun config pair => config.withParam pair.1 pair.2) config =
      { config with params :=
          pairs.foldl (fun params pair => params.insert pair.1 pair.2) config.params } := by
  induction pairs generalizing config with
  | nil => rfl
  | cons pair rest ih => exact ih _

/-- Every text of an object of strings is read as the bundle of its members. -/
theorem Json.WritesObject.paramsOfTree? {pairs : List (String × String)} {text : List Char}
    (h : WritesObject pairs text) :
    (Tree.parse? text).bind Config.paramsOfTree? = some (Params.ofList pairs) := by
  rw [h.parse?, Option.bind_some, Config.paramsOfTree?, textObject, Tree.toPairs?_texts,
    Option.map_some]

namespace Params

/-- A bundle holds the last value of each key that the pairs give, in the order of the keys' code
points. Pairs with the same last values make the same bundle, in whatever order they set different
keys, and so do a configuration on which they are set and every JSON text that writes them. -/
theorem ofList_canonical (pairs : List (String × String)) :
    (∀ key, (ofList pairs).get? key = lastValue? key pairs) ∧
      (∀ key value, (key, value) ∈ (ofList pairs).toList ↔
        lastValue? key pairs = some value) ∧
      ((ofList pairs).toList.map fun entry => codePoints entry.1).Pairwise (· < ·) ∧
      (∀ others, ofList pairs = ofList others ↔
        ∀ key, lastValue? key pairs = lastValue? key others) ∧
      (∀ others, pairs.Perm others → (pairs.map Prod.fst).Nodup →
        ofList pairs = ofList others) ∧
      (∀ config : Config, pairs.foldl (fun config pair => config.withParam pair.1 pair.2)
        { config with params := empty } = { config with params := ofList pairs }) ∧
      Json.WritesObject pairs (Json.textObject pairs).print ∧
      ∀ text, Json.WritesObject pairs text →
        (Json.Tree.parse? text).bind Config.paramsOfTree? = some (ofList pairs) := by
  refine ⟨get?_ofList pairs, fun key value => ?_, pairwise_codePoints _,
    fun others => ofList_eq_iff,
    fun others hperm hnodup => ofList_eq_iff.2 (lastValue?_perm hperm hnodup), fun config => ?_,
    Json.writesObject_print pairs, fun text h => h.paramsOfTree?⟩
  · rw [mem_toList_iff, get?_ofList]
  · exact Config.foldl_withParam _ pairs

/-- A key is set twice, and two keys are set in another order. -/
theorem ofList_canonical_twice :
    (Json.Tree.parse? "\x7b\"b\":\"1\",\"a\":\"\\n\",\"b\":\"2\"\x7d".toList).bind
        Config.paramsOfTree? = some (ofList [("b", "1"), ("a", "\n"), ("b", "2")]) ∧
      ofList [("b", "2"), ("a", "\n")] = ofList [("a", "\n"), ("b", "2")] := by
  obtain ⟨-, -, -, -, -, -, hprint, hread⟩ := ofList_canonical [("b", "1"), ("a", "\n"), ("b", "2")]
  obtain ⟨-, -, -, -, hswap, -⟩ := ofList_canonical [("b", "2"), ("a", "\n")]
  exact ⟨hread _ hprint, hswap _ (.swap _ _ _) (by decide)⟩

end Params
end LeasePool
