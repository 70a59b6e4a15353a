import Kroker.Core.Text
import Kroker.Library.DepthFirst
import Kroker.Library.Table

/-!
# The tasks of a plan

`DevTask` of `stages/plan/models.py`, as far as the scheduler reads it, and `validate_task_graph` of
`stages/plan/validation.py`.

Both the validator and the scheduler file the tasks under their ids, in a dictionary where of two
tasks with one id the later wins, at the place of the first.  `tasksById` is that dictionary, so the
two traverse one graph (`dependenciesOf`), also where ids repeat.  What the validator does not look
at is whether they do.

`validateTaskGraph` has the interpreter's limit on nested calls as an argument: `none` is the
`RecursionError` of a path that is longer.
-/

namespace Kroker.Build

structure DevTask where
  id : String
  dependsOn : List String := []
  overlaps : List String := []
  deriving DecidableEq

/-- `{t.id: t for t in tasks}`. -/
def tasksById (tasks : List DevTask) : Table DevTask.id := tasks.foldl Table.put ∅

/-- `by_id[tid].depends_on`. -/
def dependenciesOf (tasks : List DevTask) (tid : String) : List String :=
  match (tasksById tasks).find? tid with
  | some t => t.dependsOn
  | none => []

/-- The first loop: the first task with a dependency that is no task. -/
def unknownDependencies (ids : List String) : List DevTask → Option String
  | [] => none
  | t :: ts =>
    match t.dependsOn.filter (· ∉ ids) with
    | [] => unknownDependencies ids ts
    | unknown => some ("task " ++ quoted t.id ++ " depends on unknown task id(s) [" ++
        joinWith ", " (unknown.map quoted) ++ "]")

def validateTaskGraph (depth : ℕ) (tasks : List DevTask) : Option (Option String) :=
  match unknownDependencies (tasks.map (·.id)) tasks with
  | some problem => some (some problem)
  | none =>
    match DepthFirst.search (dependenciesOf tasks) depth (tasks.map (·.id)) ∅ with
    | none => none
    | some (_, none) => some none
    | some (_, some cycle) => some (some ("dependency cycle: " ++ joinWith " -> " cycle))

/-! ## The dictionary -/

theorem find?_foldl_put (tasks : List DevTask) (byId : Table DevTask.id) (tid : String) :
    (tasks.foldl Table.put byId).find? tid =
      (tasks.reverse.find? (·.id = tid)).or (byId.find? tid) := by
  induction tasks generalizing byId with
  | nil => rfl
  | cons t ts ih =>
    rw [List.foldl_cons, ih, Table.find?_put, List.reverse_cons, List.find?_append, Option.or_assoc]
    by_cases h : t.id = tid <;> simp [h]

variable {tasks : List DevTask}

theorem mem_of_mem_tasksById {t : DevTask} (h : t ∈ (tasksById tasks).rows) : t ∈ tasks := by
  have hfind := Table.find?_key h
  rw [tasksById, find?_foldl_put, Table.find?_empty, Option.or_none] at hfind
  exact List.mem_reverse.mp (List.mem_of_find?_eq_some hfind)

theorem exists_mem_tasksById {t : DevTask} (h : t ∈ tasks) :
    ∃ row ∈ (tasksById tasks).rows, row.id = t.id := by
  have hsome : (tasks.reverse.find? (·.id = t.id)).isSome := by
    rw [List.find?_isSome]
    exact ⟨t, List.mem_reverse.mpr h, by simp⟩
  obtain ⟨row, hrow⟩ := Option.isSome_iff_exists.mp hsome
  have hfind : (tasksById tasks).find? t.id = some row := by
    rw [tasksById, find?_foldl_put, hrow, Option.some_or]
  exact ⟨row, Table.find?_eq_some_iff.mp hfind⟩

theorem rows_tasksById (hnodup : (tasks.map (·.id)).Nodup) :
    (tasksById tasks).rows = tasks := by
  suffices h : ∀ (ts : List DevTask) (byId : Table DevTask.id),
      ((byId.rows ++ ts).map (·.id)).Nodup → (ts.foldl Table.put byId).rows = byId.rows ++ ts from
    h tasks ∅ hnodup
  intro ts
  induction ts with
  | nil => exact fun byId _ => (List.append_nil _).symm
  | cons t ts ih =>
    intro byId hnodup
    have hnew : byId.find? t.id = none := by
      refine Table.find?_eq_none_iff.mpr fun a ha heq => ?_
      rw [List.map_append, List.nodup_append] at hnodup
      exact hnodup.2.2 a.id (List.mem_map_of_mem ha) t.id (by simp) heq
    have hrows := Table.rows_put_of_none hnew
    rw [List.foldl_cons, ih (byId.put t), hrows, List.append_assoc, List.singleton_append]
    rw [hrows, List.append_assoc, List.singleton_append]
    exact hnodup

theorem dependenciesOf_of_mem {t : DevTask} (h : t ∈ (tasksById tasks).rows) :
    dependenciesOf tasks t.id = t.dependsOn := by
  rw [dependenciesOf, Table.find?_key h]

/-! ## What the validator guarantees -/

/-- **A plan that can be scheduled**: every dependency is a task, and every chain of dependencies is
finite. -/
structure SoundPlan (tasks : List DevTask) : Prop where
  known : ∀ t ∈ tasks, ∀ d ∈ t.dependsOn, d ∈ tasks.map (·.id)
  acc : ∀ t ∈ tasks, Acc (fun d tid => d ∈ dependenciesOf tasks tid) t.id

theorem known_of_unknownDependencies {ids : List String} (h : unknownDependencies ids tasks = none) :
    ∀ t ∈ tasks, ∀ d ∈ t.dependsOn, d ∈ ids := by
  induction tasks with
  | nil => exact nofun
  | cons t ts ih =>
    rw [unknownDependencies] at h
    split at h
    · rename_i hknown
      intro u hu d hd
      rcases List.mem_cons.mp hu with rfl | hu
      · have hnone := List.filter_eq_nil_iff.mp hknown d hd
        rwa [decide_eq_true_eq, not_not] at hnone
      · exact ih h u hu d hd
    · exact nomatch h

theorem exists_of_unknownDependencies {ids : List String} {problem : String}
    (h : unknownDependencies ids tasks = some problem) :
    ∃ t ∈ tasks, ∃ d ∈ t.dependsOn, d ∉ ids := by
  induction tasks with
  | nil => cases h
  | cons t ts ih =>
    rw [unknownDependencies] at h
    split at h
    · obtain ⟨u, hu, hd⟩ := ih h
      exact ⟨u, List.mem_cons_of_mem t hu, hd⟩
    · rename_i hunknown
      obtain ⟨d, hd⟩ := List.exists_mem_of_ne_nil _ hunknown
      obtain ⟨hd, hnot⟩ := List.mem_filter.mp hd
      exact ⟨t, List.mem_cons_self, d, hd, of_decide_eq_true hnot⟩

/-- **What `validate_task_graph` accepts can be scheduled.** -/
theorem soundPlan_of_validate {depth : ℕ} (h : validateTaskGraph depth tasks = some none) :
    SoundPlan tasks := by
  unfold validateTaskGraph at h
  split at h
  · exact nomatch h
  · rename_i hknown
    split at h
    · exact nomatch h
    · rename_i colours hsearch
      exact ⟨known_of_unknownDependencies hknown, fun t ht =>
        (DepthFirst.answer_of_search hsearch).2 rfl t.id (List.mem_map_of_mem ht)⟩
    · exact nomatch h

theorem exists_task_of_mem {tid d : String} (h : d ∈ dependenciesOf tasks tid) :
    ∃ t ∈ tasks, t.id = tid ∧ d ∈ t.dependsOn := by
  unfold dependenciesOf at h
  split at h
  · rename_i t ht
    obtain ⟨hmem, hid⟩ := Table.find?_eq_some_iff.mp ht
    exact ⟨t, mem_of_mem_tasksById hmem, hid, h⟩
  · exact nomatch h

/-- **What `validate_task_graph` answers**, where the machine allows one call for each task: nothing
exactly for a plan that can be scheduled, else the name of a task with a dependency that is none, or
a chain of dependencies that ends where it begins. -/
theorem validateTaskGraph_exact {depth : ℕ} (hdepth : tasks.length ≤ depth) :
    (validateTaskGraph depth tasks = some none ↔ SoundPlan tasks) ∧
      (validateTaskGraph depth tasks = some none ∨
        (∃ t ∈ tasks, ∃ d ∈ t.dependsOn, d ∉ tasks.map (·.id)) ∧
            validateTaskGraph depth tasks =
              (unknownDependencies (tasks.map (·.id)) tasks).map some ∨
          ∃ cycle, DepthFirst.Cycle (dependenciesOf tasks) cycle ∧
            validateTaskGraph depth tasks =
              some (some ("dependency cycle: " ++ joinWith " -> " cycle))) := by
  unfold validateTaskGraph
  cases hunknown : unknownDependencies (tasks.map (·.id)) tasks with
  | some problem =>
    obtain ⟨t, ht, d, hd, hnot⟩ := exists_of_unknownDependencies hunknown
    exact ⟨⟨nofun, fun hsound => absurd (hsound.known t ht d hd) hnot⟩,
      .inr (.inl ⟨⟨t, ht, d, hd, hnot⟩, rfl⟩)⟩
  | none =>
    have hsuccs : ∀ n, ∀ m ∈ dependenciesOf tasks n, m ∈ (tasks.map (·.id)).toFinset := by
      intro n m hm
      obtain ⟨t, ht, -, hd⟩ := exists_task_of_mem hm
      exact List.mem_toFinset.mpr (known_of_unknownDependencies hunknown t ht m hd)
    have hwhites : DepthFirst.whites (tasks.map (·.id)).toFinset ∅ ≤ depth := by
      refine (Finset.card_filter_le _ _).trans ((List.toFinset_card_le _).trans ?_)
      rwa [List.length_map]
    obtain ⟨⟨colours, answer⟩, hsearch⟩ :=
      DepthFirst.exists_search hsuccs (fun n hn => List.mem_toFinset.mpr hn) hwhites
    obtain ⟨hcycle, hacc⟩ := DepthFirst.answer_of_search hsearch
    rw [hsearch]
    cases answer with
    | none =>
      refine ⟨⟨fun _ => ⟨known_of_unknownDependencies hunknown, fun t ht => ?_⟩, fun _ => rfl⟩,
        .inl rfl⟩
      exact hacc rfl t.id (List.mem_map_of_mem ht)
    | some cycle =>
      have hcycle := hcycle cycle rfl
      refine ⟨⟨nofun, fun hsound => ?_⟩, .inr (.inr ⟨cycle, hcycle, rfl⟩)⟩
      obtain ⟨hchain, n, inner, rfl⟩ := hcycle
      have hnext : ∃ d, d ∈ dependenciesOf tasks n := by
        cases inner with
        | nil => exact ⟨n, (List.isChain_cons_cons.mp hchain).1⟩
        | cons m inner => exact ⟨m, (List.isChain_cons_cons.mp hchain).1⟩
      obtain ⟨d, hd⟩ := hnext
      obtain ⟨t, ht, rfl, -⟩ := exists_task_of_mem hd
      exact absurd (hsound.acc t ht) (DepthFirst.Cycle.not_acc ⟨hchain, t.id, inner, rfl⟩)

/-- A plan whose third task depends on itself, and whose first two wait for it. -/
theorem validateTaskGraph_exact_sample :
    ¬SoundPlan [⟨"a", ["b"], []⟩, ⟨"b", ["c"], []⟩, ⟨"c", ["c"], []⟩] := fun hsound =>
  nomatch ((@validateTaskGraph_exact _ 3 (le_refl 3)).1.mpr hsound).symm.trans
    (show validateTaskGraph 3 [⟨"a", ["b"], []⟩, ⟨"b", ["c"], []⟩, ⟨"c", ["c"], []⟩] =
      some (some "dependency cycle: c -> c") by decide +kernel)

end Kroker.Build
