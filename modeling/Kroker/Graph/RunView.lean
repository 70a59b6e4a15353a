import Kroker.Graph.RouterSafety
import Kroker.Library.Except
import Kroker.Library.Tally

/-!
# Marks of the stages of a run

`stage_marks` and `close_marks` of `graph/run_view.py`.  The mark of a stage is the worst of the
marks of its nodes; a run that is closed has no live node, and what was live has failed.  The
workflow projects its view while the run is open, and the dashboard adjusts that projection when it
finds the run closed.

`closing_commutes` says that the adjusted projection is the projection of the closed run: closing
takes the marks of nodes up, keeps their order and keeps apart what is skipped, so that it does not
matter whether the worst is taken before or after.
-/

namespace Kroker

namespace RunView

open GraphRouter

/-! ## 1.  Nodes -/

inductive NodeRunStatus where
  | idle
  | running
  | blocked
  | done
  | failed
  | stale
  | skipped
  | cancelled

inductive DotState where
  | pending
  | active
  | blocked
  | done
  | failed
  | skipped
  deriving DecidableEq

/-- `activationId` is `none` for what was opened outside any activation. -/
structure PendingFact where
  key : String
  activationId : Option String

structure GraphRunView where
  state : RouterState
  pending : List PendingFact := []
  escalatedBy : Option String := none

/-- `latest_activation` of a node with this state. -/
def latestActivation (nodeId : String) (ns : NodeState) : Option String :=
  if 0 < ns.round then some (gateKey nodeId ns.round) else none

def statusOf (nodeId : String) (ns : NodeState) (view : GraphRunView) (topology : Topology)
    (executionClosed : Bool) : NodeRunStatus :=
  let aid := latestActivation nodeId ns
  match ns.status with
  | .dead => .skipped
  | .pending => if 0 < ns.round then .stale else .idle
  | .running =>
    if aid.isSome ∧ aid = view.escalatedBy then .failed
    else if view.state.outcome ≠ .running ∨ executionClosed = true then .cancelled
    else if view.pending.any fun p => p.activationId = aid then .blocked
    else .running
  | .done =>
    let port := ns.takenPort.getD ""
    if port = "fail" ∨ (topology.terminalsOf nodeId)[port]? = some .failed then .failed
    else .done

/-- `node_status`; a node of which the view has no state is a `KeyError`. -/
def nodeStatus (nodeId : String) (view : GraphRunView) (topology : Topology)
    (executionClosed : Bool) : Except String NodeRunStatus :=
  match view.state.nodes[nodeId]? with
  | none => .error nodeId
  | some ns => .ok (statusOf nodeId ns view topology executionClosed)

def dot : NodeRunStatus → DotState
  | .idle => .pending
  | .stale => .pending
  | .running => .active
  | .blocked => .blocked
  | .done => .done
  | .failed => .failed
  | .cancelled => .failed
  | .skipped => .skipped

/-! ## 2.  Stages -/

/-- `_RANK`; what is skipped is left out before marks are compared. -/
def rank : DotState → ℕ
  | .pending => 0
  | .done => 1
  | .active => 2
  | .blocked => 3
  | .failed => 4
  | .skipped => 0

/-- `max(dots, key=_RANK.__getitem__)`, the first of the largest. -/
def maxDot : DotState → List DotState → DotState
  | best, [] => best
  | best, d :: dots => maxDot (if rank best < rank d then d else best) dots

/-- The mark of a stage, from those of its nodes. -/
def mark (dots : List DotState) : DotState :=
  match dots.filter (· ≠ .skipped) with
  | [] => .skipped
  | d :: dots => maxDot d dots

abbrev StageRegistry := Dict (Option String)

def resolveStage (nodeType : String) (registry : StageRegistry) : String :=
  (registry[nodeType]?.join).getD "unknown"

def nodeDots (view : GraphRunView) (topology : Topology) (graph : PipelineGraph)
    (registry : StageRegistry) (executionClosed : Bool) :
    Except String (List (String × DotState)) :=
  graph.nodes.mapM fun n => do
    let status ← nodeStatus n.id view topology executionClosed
    return (resolveStage n.type registry, dot status)

def marksOf (dots : List (String × DotState)) : Dict DotState :=
  Dict.ofItems ((group Prod.fst dots).map fun stage => (stage.1, mark (stage.2.map Prod.snd)))

def stageMarks (view : GraphRunView) (topology : Topology) (graph : PipelineGraph)
    (registry : StageRegistry) (executionClosed : Bool) : Except String (Dict DotState) := do
  let dots ← nodeDots view topology graph registry executionClosed
  return marksOf dots

/-- A mark of an open run, when the run is closed. -/
def closeDot (d : DotState) : DotState := if d ∈ [DotState.active, .blocked] then .failed else d

def closeMarks (marks : Dict DotState) : Dict DotState := marks.map fun _ v => closeDot v

/-! ## 3.  Closing keeps the order of marks -/

theorem closeDot_max (b d : DotState) :
    (if rank (closeDot b) < rank (closeDot d) then closeDot d else closeDot b) =
      closeDot (if rank b < rank d then d else b) := by
  cases b <;> cases d <;> rfl

theorem closeDot_ne_skipped (d : DotState) : closeDot d ≠ .skipped ↔ d ≠ .skipped := by
  cases d <;> decide

theorem maxDot_closeDot (best : DotState) (dots : List DotState) :
    maxDot (closeDot best) (dots.map closeDot) = closeDot (maxDot best dots) := by
  induction dots generalizing best with
  | nil => rfl
  | cons d dots ih => rw [List.map_cons, maxDot, closeDot_max, ih, maxDot]

/-- **The worst of the closed marks is the worst mark, closed.** -/
theorem mark_closeDot (dots : List DotState) : mark (dots.map closeDot) = closeDot (mark dots) := by
  have hfilter : (dots.map closeDot).filter (· ≠ .skipped) =
      (dots.filter (· ≠ .skipped)).map closeDot := by
    rw [List.filter_map]
    refine congrArg (List.map closeDot) (List.filter_congr fun d _ => ?_)
    exact decide_eq_decide.mpr (closeDot_ne_skipped d)
  rw [mark, hfilter, mark]
  cases dots.filter (· ≠ .skipped) with
  | nil => rfl
  | cons d dots => exact maxDot_closeDot d dots

/-! ## 4.  Closing commutes with projecting -/

theorem get?_ofItems_members {β : Type} {ms : List (String × β)} (h : (ms.map Prod.fst).Nodup)
    (k : String) : (Dict.ofItems ms)[k]? = Members.get? ms k := by
  refine Option.ext fun v => ?_
  rw [Dict.get?_ofItems_of_nodup h]
  constructor
  · exact Members.get?_eq_some_of_mem h
  · exact Members.mem_of_get?_eq_some

theorem get?_marksOf (dots : List (String × DotState)) (k : String) : (marksOf dots)[k]? =
    if k ∈ dots.map Prod.fst then
      some (mark ((dots.filter fun d => d.1 = k).map Prod.snd)) else none := by
  have hkeys : (((group Prod.fst dots).map fun stage =>
      (stage.1, mark (stage.2.map Prod.snd))).map Prod.fst).Nodup := by
    rw [List.map_map]
    exact nodup_gather dots
  rw [marksOf, get?_ofItems_members hkeys,
    Members.get?_map (group Prod.fst dots) (fun rows => mark (rows.map Prod.snd)), get?_group]
  split_ifs <;> rfl

theorem marksOf_closeDot (dots : List (String × DotState)) :
    marksOf (dots.map fun d => (d.1, closeDot d.2)) = closeMarks (marksOf dots) := by
  refine Dict.ext fun k => ?_
  rw [closeMarks, Std.ExtTreeMap.getElem?_map, get?_marksOf, get?_marksOf, List.map_map,
    List.filter_map, List.map_map]
  have hkeys : (Prod.fst ∘ fun d : String × DotState => (d.1, closeDot d.2)) = Prod.fst := rfl
  have hdots : (Prod.snd ∘ fun d : String × DotState => (d.1, closeDot d.2)) =
      closeDot ∘ Prod.snd := rfl
  rw [hkeys, hdots, ← List.map_map, mark_closeDot]
  split_ifs <;> rfl

/-- **The status of a node of the closed run** has the mark of its status in the open run,
closed. -/
theorem dot_statusOf (nodeId : String) (ns : NodeState) (view : GraphRunView)
    (topology : Topology) : dot (statusOf nodeId ns view topology true) =
      closeDot (dot (statusOf nodeId ns view topology false)) := by
  unfold statusOf
  cases ns.status with
  | pending => dsimp only; split_ifs <;> rfl
  | dead => rfl
  | done => dsimp only; split_ifs <;> rfl
  | running =>
    dsimp only
    by_cases hescalated : (latestActivation nodeId ns).isSome = true ∧
        latestActivation nodeId ns = view.escalatedBy
    · rw [if_pos hescalated, if_pos hescalated]
      rfl
    · rw [if_neg hescalated, if_neg hescalated, if_pos (Or.inr rfl)]
      split_ifs <;> rfl

section Closing

variable {proposer_model_error : String → String → Option String} {graph : PipelineGraph}
  {registry : Registry} {roles : Dict RoleConfig} {t : Topology}

theorem mem_nodeIds_of_mem (hval : validate proposer_model_error graph registry roles =
      { problems := [], topology := some t }) {n : GraphNode} (hn : n ∈ graph.nodes) :
    n.id ∈ t.nodeIds := by
  obtain ⟨-, rfl⟩ := built_of_validate (by rw [hval])
  show n.id ∈ (firstNodes graph).keys
  rw [Std.ExtTreeMap.mem_keys, Std.ExtTreeMap.mem_iff_isSome_getElem?, get?_firstNodes,
    List.find?_isSome]
  exact ⟨n, hn, by simp⟩

theorem nodeDots_eq (hval : validate proposer_model_error graph registry roles =
      { problems := [], topology := some t }) {view : GraphRunView}
    (hview : ReachableState t view.state) (stages : StageRegistry) (executionClosed : Bool) :
    nodeDots view t graph stages executionClosed = .ok (graph.nodes.map fun n =>
      (resolveStage n.type stages,
        dot (statusOf n.id (view.state.node n.id) view t executionClosed))) := by
  have hinv := inv_of_reachableState (legal_of_report hval) hview
  refine mapM_eq_ok_map fun n hn => ?_
  obtain ⟨ns, hns⟩ := (Dict.mem_iff_get? _ _).mp
    ((hinv.consistent.keys n.id).mpr (mem_nodeIds_of_mem hval hn))
  rw [nodeStatus, RouterState.node, Dict.getD_eq, hns]
  rfl

/-- **Closing a run commutes with projecting it.** -/
theorem closing_commutes (hval : validate proposer_model_error graph registry roles =
      { problems := [], topology := some t }) (view : GraphRunView)
    (hview : ReachableState t view.state) (stages : StageRegistry) :
    ∃ marks, stageMarks view t graph stages false = .ok marks ∧
      stageMarks view t graph stages true = .ok (closeMarks marks) := by
  refine ⟨_, by rw [stageMarks, nodeDots_eq hval hview]; rfl, ?_⟩
  rw [stageMarks, nodeDots_eq hval hview, ← marksOf_closeDot, List.map_map]
  simp only [dot_statusOf]
  rfl

end Closing

def sampleStages : StageRegistry :=
  Dict.ofItems [("plan", some "plan"), ("work", some "code"), ("join", none)]

/-- The left worker runs again and waits for a decision. -/
def blockedView : GraphRunView where
  state := sampleStep.state
  pending := [⟨"task_gate#1", some "left#2"⟩]

theorem closing_commutes_sample : ∃ marks,
    stageMarks blockedView sampleTopology sampleGraph sampleStages false = .ok marks ∧
      stageMarks blockedView sampleTopology sampleGraph sampleStages true = .ok (closeMarks marks) ∧
      marks["code"]? = some .blocked := by
  obtain ⟨marks, hopen, hclosed⟩ := closing_commutes validate_sampleGraph blockedView
    ⟨sampleStep, reachable_sampleStep, rfl⟩ sampleStages
  have hcode : (stageMarks blockedView sampleTopology sampleGraph sampleStages
      false).toOption.bind (fun marks => marks["code"]?) = some .blocked := by decide +kernel
  rw [hopen] at hcode
  exact ⟨marks, hopen, hclosed, hcode⟩

end RunView

end Kroker
