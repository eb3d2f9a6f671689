import LeasePool.Config
import LeasePool.Proofs.JsonTrees
import LeasePool.Stats
import LeasePool.Statement

/-!
Round trips. What is written as JSON text is read back as it was: configurations with any numbers
and any parameters, statistics, and results of statements whose rows are values that a reader keeps
exactly.
-/

namespace LeasePool

open Json

namespace Params

theorem eq_of_entries {first second : Params} (h : first.entries = second.entries) :
    first = second := by
  cases first
  cases second
  cases h
  rfl

theorem entries_foldl_insert (pairs : List (String × String)) (params : Params) :
    (pairs.foldl (fun params pair => params.insert pair.1 pair.2) params).entries =
      pairs.foldl (fun kept pair => Keyed.insert pair.1 pair.2 kept) params.entries := by
  induction pairs generalizing params with
  | nil => rfl
  | cons pair rest ih => exact ih _

/-- A bundle is made of its own parameters. -/
theorem ofList_entries (params : Params) : ofList params.entries = params := by
  apply eq_of_entries
  rw [ofList, entries_foldl_insert]
  exact Keyed.ofPairs_eq_self params.keyed

end Params

namespace Config

theorem paramsOfTree?_paramsJson (params : Params) :
    paramsOfTree? (paramsJson params).tree = some params := by
  rw [paramsOfTree?, paramsJson, Tree.toPairs?_texts, Option.map_some, Params.ofList_entries]

theorem toOption?_limitJson (limit : Option UInt64) :
    (limitJson limit).tree.toOption? Tree.toUInt64? = some limit := by
  cases limit with
  | none => rfl
  | some ms => exact congrArg (Option.map some) (Tree.toUInt64?_nat ms)

theorem whole_limitJson (limit : Option UInt64) : Whole (limitJson limit) := by
  cases limit with
  | none => exact .null
  | some ms => exact .int _

theorem whole_toJson (config : Config) : Whole config.toJson := by
  apply Whole.object
  have hparams : Whole (paramsJson config.params) := by
    apply Whole.object
    intro member hmem
    obtain ⟨pair, -, rfl⟩ := List.mem_map.1 hmem
    exact .text _
  simp only [List.forall_mem_cons]
  exact ⟨.int _, .int _, whole_limitJson _, whole_limitJson _, .bool _, hparams,
    List.forall_mem_nil _⟩

theorem ofTree?_toJson (config : Config) : ofTree? config.toJson.tree = some config := by
  have hfields : config.toJson.tree.fields? fieldNames =
      some [some (Json.nat config.maxSize.toNat).tree,
        some (Json.nat config.acquireTimeout.toNat).tree, some (limitJson config.idleTimeout).tree,
        some (limitJson config.maxLifetime).tree, some (Json.bool config.testOnCheckout).tree,
        some (paramsJson config.params).tree] :=
    Tree.fields?_tree (by simp)
  rw [ofTree?, hfields]
  simp only [Option.bind_eq_bind, Option.bind_some, Tree.optional?, Tree.toUInt64?_nat,
    toOption?_limitJson, paramsOfTree?_paramsJson]
  rfl

theorem ofJson?_toJson (config : Config) : ofJson? config.toJson.print = some config := by
  rw [ofJson?, config.whole_toJson.parse?_print, Option.bind_some, ofTree?_toJson]

end Config

namespace Stats

theorem mapM_toUInt64? (numbers : List UInt64) :
    (numbers.map fun n => some (Json.nat n.toNat).tree).mapM
      (Tree.required? Tree.toUInt64?) = some numbers := by
  rw [List.mapM_map]
  induction numbers with
  | nil => rfl
  | cons n rest ih =>
      rw [List.mapM_cons, ih]
      simp [Tree.required?, Tree.toUInt64?_nat]

theorem ofJson?_toJson (stats : Stats) : ofJson? stats.toJson.print = some stats := by
  have hwhole : Whole stats.toJson := by
    apply Whole.object
    intro member hmem
    obtain ⟨field, -, rfl⟩ := List.mem_map.1 hmem
    exact .int _
  have hfields : stats.toJson.tree.fields? fieldNames =
      some ((stats.fields.map Prod.snd).map fun n => some (Json.nat n.toNat).tree) :=
    Tree.fields?_tree (by simp [fields])
  rw [ofJson?, hwhole.parse?_print, Option.bind_some, ofTree?, hfields, Option.bind_eq_bind,
    Option.bind_some, mapM_toUInt64?]
  rfl

end Stats

namespace StatementResult

theorem ofJson?_toJson (result : StatementResult)
    (hrows : ∀ row ∈ result.rows, Plain (depthLimit - 2) row) :
    ofJson? result.toJson.print = some result := by
  have hwhole : Whole result.toJson := by
    apply Whole.object
    simp only [List.forall_mem_cons]
    exact ⟨.int _, .array fun row hmem => (hrows row hmem).whole, List.forall_mem_nil _⟩
  have hfields : result.toJson.tree.fields? ["affected_rows", "rows"] =
      some [some (Json.nat result.affectedRows.toNat).tree, some (Json.array result.rows).tree] :=
    Tree.fields?_tree (by simp)
  have hread : (Json.array result.rows).tree.toArray? (depthLimit - 2) = some result.rows :=
    Tree.toItems?_itemTrees fun row hmem => (hrows row hmem).toJson?_tree
  rw [ofJson?, hwhole.parse?_print, Option.bind_some, ofTree?, hfields]
  simp only [Option.bind_eq_bind, Option.bind_some, Tree.required?, Tree.toUInt64?_nat, hread]

end StatementResult

/-- What is written is read back: every configuration, all statistics, and every result of a
statement whose rows nest at most 125 deep and have no numbers but integers of 64 bits. -/
theorem json_round_trip :
    (∀ config : Config, Config.ofJson? config.toJson.print = some config) ∧
      (∀ stats : Stats, Stats.ofJson? stats.toJson.print = some stats) ∧
      ∀ result : StatementResult, (∀ row ∈ result.rows, row.Plain 125) →
        StatementResult.ofJson? result.toJson.print = some result :=
  ⟨Config.ofJson?_toJson, Stats.ofJson?_toJson, StatementResult.ofJson?_toJson⟩

/-- A row with an array in an object, a negative number, and a line break in a text. -/
theorem json_round_trip_of_row :
    StatementResult.ofJson? (StatementResult.ofRows
        [.object [("id", .int (-1)), ("tags", .array [.text "a\n", .null])]]).toJson.print =
      some (StatementResult.ofRows
        [.object [("id", .int (-1)), ("tags", .array [.text "a\n", .null])]]) := by
  apply json_round_trip.2.2
  simp only [StatementResult.ofRows, List.forall_mem_singleton]
  apply Plain.object
  · exact List.pairwise_pair.2 (by decide)
  · simp only [List.forall_mem_cons]
    refine ⟨.int (by simp [Is64]), .array ?_, List.forall_mem_nil _⟩
    simp only [List.forall_mem_cons]
    exact ⟨.text _, .null, List.forall_mem_nil _⟩

end LeasePool
