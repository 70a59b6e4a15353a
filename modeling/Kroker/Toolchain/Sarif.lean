import Kroker.Library.Except
import Mathlib.Data.Rat.Init

/-!
# Reading a SARIF document

`toolchain/sarif.py`: a document offered as the output of a scanner becomes a `SecurityReport`.  The
document is any JSON value, and each level of it may be of another shape than the one expected.

## 1.  The code

`str` of a value that is not a text is a parameter: it makes the rule, the detail and the path of a
finding, and no verdict depends on these.  A dictionary is the list of its members, of which the
first with a key is the one it has.  A lookup with a list or a dictionary for a key raises, since
neither can be hashed.

## 2.  What is read of the entries

The results of all runs are read in one row (`findingsAndSkipped_eq`): an entry that is a dictionary
becomes a finding, another is counted, and a level that cannot be hashed raises.

## 3.  When the report is right

`Honest` is what a report has to be.  `honest_iff` says when it is: a well-formed document must not
have a level that is a list or a dictionary, nor entries of which some are dictionaries and some are
not.
-/

namespace Kroker.Sarif

/-! ## 1.  The code -/

/-- What `json.loads` returns. -/
inductive Json where
  | null
  | bool (b : Bool)
  | num (q : ℚ)
  | str (s : String)
  | arr (items : List Json)
  | obj (members : List (String × Json))

def get? (key : String) (members : List (String × Json)) : Option Json :=
  (members.find? (·.1 = key)).map (·.2)

/-- Whether `or` takes the value. -/
def truthy : Json → Bool
  | .null => false
  | .bool b => b
  | .num q => q ≠ 0
  | .str s => s ≠ ""
  | .arr items => !items.isEmpty
  | .obj members => !members.isEmpty

inductive CollectionState where
  | measured
  | notCollected
  | unknown
  deriving DecidableEq

inductive SecuritySeverity where
  | critical
  | high
  | medium
  | low
  deriving DecidableEq

structure SecurityFinding where
  severity : SecuritySeverity
  rule : String
  detail : String
  path : String := ""
  line : String := ""
  deriving DecidableEq

structure SecurityReport where
  critical : ℕ
  findings : List SecurityFinding := []
  state : CollectionState
  reason : String := ""
  deriving DecidableEq

/-- What the code may raise. -/
inductive Raised where
  | typeError (message : String)
  deriving DecidableEq

def levelToSeverity (level : String) : Option SecuritySeverity :=
  if level = "error" then some .critical
  else if level = "warning" then some .high
  else if level = "note" then some .medium
  else if level = "none" then some .low
  else none

/-- `_LEVEL_TO_SEVERITY.get(level, "high")`. -/
def severityOf : Json → Except Raised SecuritySeverity
  | .arr _ => .error (.typeError "unhashable type: 'list'")
  | .obj _ => .error (.typeError "unhashable type: 'dict'")
  | .str level => .ok ((levelToSeverity level).getD .high)
  | _ => .ok .high

/-- `str(value)`; `repr` is for a value that is not a text. -/
def textOf (repr : Json → String) : Json → String
  | .str s => s
  | value => repr value

/-- `str(value or fallback)`. -/
def textOr (repr : Json → String) (value : Option Json) (fallback : String) : String :=
  match value with
  | none => fallback
  | some value => if truthy value then textOf repr value else fallback

def firstLocationPath (repr : Json → String) (res : List (String × Json)) : String :=
  match get? "locations" res with
  | some (.arr (.obj loc :: _)) =>
    match get? "physicalLocation" loc with
    | some (.obj phys) =>
      match get? "artifactLocation" phys with
      | some (.obj art) => textOr repr (get? "uri" art) ""
      | _ => ""
    | _ => ""
  | _ => ""

/-- `message.get("text", "") if isinstance(message, dict) else ""`, as a text. -/
def detailOf (repr : Json → String) (res : List (String × Json)) : String :=
  match get? "message" res with
  | some (.obj message) => textOr repr (get? "text" message) ""
  | _ => ""

def findingOf (repr : Json → String) (severity : SecuritySeverity) (res : List (String × Json)) :
    SecurityFinding where
  severity := severity
  rule := textOr repr (get? "ruleId" res) "sarif"
  detail := detailOf repr res
  path := firstLocationPath repr res

/-- The findings so far, and how many entries were skipped. -/
abbrev Read := List SecurityFinding × ℕ

/-- The body of the loop over the results of a run. -/
def readResult (repr : Json → String) (read : Read) : Json → Except Raised Read
  | .obj res => do
    let severity ← severityOf ((get? "level" res).getD (.str "warning"))
    .ok (read.1 ++ [findingOf repr severity res], read.2)
  | _ => .ok (read.1, read.2 + 1)

def resultsOf? : Json → Option (List Json)
  | .obj run =>
    match get? "results" run with
    | some (.arr results) => some results
    | _ => none
  | _ => none

def readRun (repr : Json → String) (read : Read) (run : Json) : Except Raised Read :=
  match resultsOf? run with
  | some results => results.foldlM (readResult repr) read
  | none => .ok read

def runsOf? : Json → Option (List Json)
  | .obj doc =>
    match get? "runs" doc with
    | some (.arr runs) => some runs
    | _ => none
  | _ => none

def findingsAndSkipped (repr : Json → String) (doc : Json) : Except Raised Read :=
  match runsOf? doc with
  | some runs => runs.foldlM (readRun repr) ([], 0)
  | none => .ok ([], 0)

def isWellFormed (doc : Json) : Bool :=
  match runsOf? doc with
  | some runs => !runs.isEmpty && runs.all fun run => (resultsOf? run).isSome
  | none => false

def reportFromSarif (repr : Json → String) (doc : Json) : Except Raised SecurityReport :=
  if isWellFormed doc = false then
    .ok
      { critical := 0
        state := .notCollected
        reason := "SARIF document malformed or partial" }
  else do
    let (findings, skipped) ← findingsAndSkipped repr doc
    if findings = [] ∧ skipped ≠ 0 then
      .ok
        { critical := 0
          state := .notCollected
          reason := "SARIF results array had " ++ toString skipped ++
            " entry/ies, none parseable" }
    else
      .ok
        { critical := findings.countP (·.severity = .critical)
          findings := findings
          state := .measured }

/-! ## 2.  What is read of the entries -/

def entries (doc : Json) : List Json :=
  ((runsOf? doc).getD []).flatMap fun run => (resultsOf? run).getD []

def isDict : Json → Bool
  | .obj _ => true
  | _ => false

/-- The level of an entry, where it has one. -/
def levelOf? : Json → Option Json
  | .obj res => get? "level" res
  | _ => none

/-- A list or a dictionary for a level. -/
def Unhashable (entry : Json) : Prop :=
  match levelOf? entry with
  | some (.arr _) => True
  | some (.obj _) => True
  | _ => False

instance (entry : Json) : Decidable (Unhashable entry) := by
  unfold Unhashable
  split <;> infer_instance

/-- What an entry of a level counts as: the four known levels, and any other as high. -/
def severityOfLevel : Option Json → SecuritySeverity
  | some (.str "error") => .critical
  | some (.str "warning") => .high
  | some (.str "note") => .medium
  | some (.str "none") => .low
  | _ => .high

/-- The finding of an entry that is a dictionary. -/
def finding? (repr : Json → String) : Json → Option SecurityFinding
  | .obj res => some (findingOf repr (severityOfLevel (get? "level" res)) res)
  | _ => none

section Reading

variable (repr : Json → String)

theorem severityOf_str (level : String) :
    severityOf (.str level) = .ok (severityOfLevel (some (.str level))) := by
  rw [severityOf, levelToSeverity]
  by_cases herror : level = "error"
  · subst herror
    rfl
  · by_cases hwarning : level = "warning"
    · subst hwarning
      rfl
    · by_cases hnote : level = "note"
      · subst hnote
        rfl
      · by_cases hnone : level = "none"
        · subst hnone
          rfl
        · rw [if_neg herror, if_neg hwarning, if_neg hnote, if_neg hnone, severityOfLevel]
          · rfl
          · exact fun h => herror (Json.str.inj (Option.some.inj h))
          · exact fun h => hwarning (Json.str.inj (Option.some.inj h))
          · exact fun h => hnote (Json.str.inj (Option.some.inj h))
          · exact fun h => hnone (Json.str.inj (Option.some.inj h))

/-- **An entry whose level can be hashed** becomes a finding, or is counted. -/
theorem readResult_eq_ok {entry : Json} (h : ¬Unhashable entry) (read : Read) :
    readResult repr read entry =
      .ok (read.1 ++ (finding? repr entry).toList, read.2 + if isDict entry then 0 else 1) := by
  cases entry with
  | obj res =>
    have hseverity : severityOf ((get? "level" res).getD (.str "warning")) =
        .ok (severityOfLevel (get? "level" res)) := by
      rw [Unhashable, levelOf?] at h
      cases hlevel : get? "level" res with
      | none => rfl
      | some level =>
        rw [hlevel] at h
        cases level with
        | str level => exact severityOf_str level
        | null => rfl
        | bool b => rfl
        | num q => rfl
        | arr items => exact absurd trivial h
        | obj members => exact absurd trivial h
    rw [readResult, hseverity]
    rfl
  | null => simp [readResult, finding?, isDict]
  | bool b => simp [readResult, finding?, isDict]
  | num q => simp [readResult, finding?, isDict]
  | str s => simp [readResult, finding?, isDict]
  | arr items => simp [readResult, finding?, isDict]

theorem readResult_eq_error {entry : Json} (h : Unhashable entry) (read : Read) :
    ∃ raised, readResult repr read entry = .error raised := by
  cases entry with
  | obj res =>
    rw [Unhashable, levelOf?] at h
    cases hlevel : get? "level" res with
    | none => rw [hlevel] at h; exact absurd h not_false
    | some level =>
      rw [hlevel] at h
      rw [readResult, hlevel, Option.getD_some]
      cases level with
      | arr items => exact ⟨_, rfl⟩
      | obj members => exact ⟨_, rfl⟩
      | null => exact absurd h not_false
      | bool b => exact absurd h not_false
      | num q => exact absurd h not_false
      | str s => exact absurd h not_false
  | null => exact absurd h not_false
  | bool b => exact absurd h not_false
  | num q => exact absurd h not_false
  | str s => exact absurd h not_false
  | arr items => exact absurd h not_false

theorem foldlM_readResult {l : List Json} (h : ∀ entry ∈ l, ¬Unhashable entry) (read : Read) :
    l.foldlM (readResult repr) read =
      .ok (read.1 ++ l.filterMap (finding? repr), read.2 + l.countP fun entry => !isDict entry) := by
  induction l generalizing read with
  | nil => simp [pure, Except.pure]
  | cons entry l ih =>
    rw [List.forall_mem_cons] at h
    rw [List.foldlM_cons, readResult_eq_ok repr h.1]
    refine (ih h.2 _).trans ?_
    have hcount : (if isDict entry then 0 else 1) + l.countP (fun entry => !isDict entry) =
        (entry :: l).countP fun entry => !isDict entry := by
      rw [List.countP_cons]
      cases isDict entry <;> simp [Nat.add_comm]
    have hfindings : (finding? repr entry).toList ++ l.filterMap (finding? repr) =
        (entry :: l).filterMap (finding? repr) := by
      rw [List.filterMap_cons]
      cases finding? repr entry <;> rfl
    rw [← hcount, ← hfindings, List.append_assoc, Nat.add_assoc]

theorem foldlM_readResult_error {l : List Json} (h : ∃ entry ∈ l, Unhashable entry) (read : Read) :
    ∃ raised, l.foldlM (readResult repr) read = .error raised := by
  induction l generalizing read with
  | nil =>
    obtain ⟨entry, hentry, -⟩ := h
    exact nomatch hentry
  | cons entry l ih =>
    rw [List.foldlM_cons]
    by_cases hentry : Unhashable entry
    · obtain ⟨raised, hraised⟩ := readResult_eq_error repr hentry read
      exact ⟨raised, by rw [hraised]; rfl⟩
    · rw [readResult_eq_ok repr hentry]
      rw [List.exists_mem_cons_iff, or_iff_right hentry] at h
      exact ih h _

/-- **The results of all runs are read in one row.** -/
theorem findingsAndSkipped_eq (doc : Json) :
    findingsAndSkipped repr doc = (entries doc).foldlM (readResult repr) ([], 0) := by
  have hruns : ∀ (runs : List Json) (read : Read), runs.foldlM (readRun repr) read =
      (runs.flatMap fun run => (resultsOf? run).getD []).foldlM (readResult repr) read := by
    intro runs
    induction runs with
    | nil => exact fun _ => rfl
    | cons run runs ih =>
      intro read
      rw [List.foldlM_cons, List.flatMap_cons, List.foldlM_append]
      have hrun : readRun repr read run =
          ((resultsOf? run).getD []).foldlM (readResult repr) read := by
        rw [readRun]
        cases resultsOf? run <;> rfl
      rw [hrun]
      exact congrArg _ (funext fun read' => ih read')
  rw [findingsAndSkipped, entries]
  cases runsOf? doc with
  | none => rfl
  | some runs => exact hruns runs ([], 0)

end Reading

/-! ## 3.  When the report is right -/

/-- The level of the entry is `error`. -/
def HasErrorLevel (entry : Json) : Bool :=
  match levelOf? entry with
  | some (.str level) => level = "error"
  | _ => false

/-- A document with a list of runs that is not empty, a list of results in each, and a dictionary
for each result. -/
def Readable (doc : Json) : Prop :=
  isWellFormed doc = true ∧ ∀ entry ∈ entries doc, isDict entry = true

/-- What a report has to be: a scan that could be read is measured, with one finding for each entry
in order and the entries of level `error` counted; anything else was not collected. -/
def Honest (repr : Json → String) (doc : Json) (result : Except Raised SecurityReport) : Prop :=
  ∃ report, result = .ok report ∧
    (Readable doc → report.state = .measured ∧
      report.findings.map some = (entries doc).map (finding? repr) ∧
      report.critical = (entries doc).countP HasErrorLevel) ∧
    (¬Readable doc → report.state = .notCollected)

section Honest

variable {repr : Json → String} {doc : Json}

theorem finding?_isSome (repr : Json → String) (entry : Json) :
    (finding? repr entry).isSome = isDict entry := by
  cases entry <;> rfl

theorem critical_finding? (entry : Json) :
    ((finding? repr entry).map fun finding => decide (finding.severity = .critical)).getD false =
      HasErrorLevel entry := by
  cases entry with
  | obj res =>
    have hseverity : ∀ level, decide (severityOfLevel level = .critical) =
        match level with
        | some (.str level) => decide (level = "error")
        | _ => false := by
      intro level
      unfold severityOfLevel
      split
      · rfl
      · rfl
      · rfl
      · rfl
      · rename_i herror _ _ _
        cases level with
        | none => rfl
        | some level =>
          cases level with
          | str level => exact (decide_eq_false fun h => herror (by rw [h])).symm
          | null => rfl
          | bool b => rfl
          | num q => rfl
          | arr items => rfl
          | obj members => rfl
    exact hseverity (get? "level" res)
  | null => rfl
  | bool b => rfl
  | num q => rfl
  | str s => rfl
  | arr items => rfl

theorem countP_critical (l : List Json) :
    (l.filterMap (finding? repr)).countP (·.severity = .critical) = l.countP HasErrorLevel := by
  rw [List.countP_filterMap]
  exact List.countP_congr fun entry _ => by rw [critical_finding?]

theorem map_some_findings {l : List Json} (h : ∀ entry ∈ l, isDict entry = true) :
    (l.filterMap (finding? repr)).map some = l.map (finding? repr) := by
  induction l with
  | nil => rfl
  | cons entry l ih =>
    rw [List.forall_mem_cons, ← finding?_isSome repr] at h
    obtain ⟨finding, hfinding⟩ := Option.isSome_iff_exists.mp h.1
    rw [List.filterMap_cons_some hfinding, List.map_cons, List.map_cons, hfinding, ih h.2]

theorem findings_eq_nil_iff {l : List Json} :
    l.filterMap (finding? repr) = [] ↔ ∀ entry ∈ l, isDict entry = false := by
  rw [List.filterMap_eq_nil_iff]
  refine forall₂_congr fun entry _ => ?_
  rw [← finding?_isSome repr, Option.isSome_eq_false_iff, Option.isNone_iff_eq_none]

theorem reportFromSarif_eq (hwellFormed : isWellFormed doc = true)
    {findings : List SecurityFinding} {skipped : ℕ}
    (hread : findingsAndSkipped repr doc = .ok (findings, skipped)) :
    reportFromSarif repr doc =
      if findings = [] ∧ skipped ≠ 0 then
        .ok
          { critical := 0
            state := .notCollected
            reason := "SARIF results array had " ++ toString skipped ++
              " entry/ies, none parseable" }
      else
        .ok
          { critical := findings.countP (·.severity = .critical)
            findings := findings
            state := .measured } := by
  rw [reportFromSarif, if_neg (by simp [hwellFormed]), hread]
  rfl

/-- **When a report is right.** -/
theorem honest_iff (repr : Json → String) (doc : Json) :
    Honest repr doc (reportFromSarif repr doc) ↔
      (isWellFormed doc = true →
        (∀ entry ∈ entries doc, ¬Unhashable entry) ∧
          ((∀ entry ∈ entries doc, isDict entry = true) ∨
            ∀ entry ∈ entries doc, isDict entry = false)) := by
  by_cases hwellFormed : isWellFormed doc = true
  swap
  · rw [reportFromSarif, if_pos (by simpa using hwellFormed)]
    exact iff_of_true ⟨_, rfl, fun h => absurd h.1 hwellFormed, fun _ => rfl⟩
      fun h => absurd h hwellFormed
  rw [forall_prop_of_true hwellFormed]
  by_cases hraise : ∃ entry ∈ entries doc, Unhashable entry
  · obtain ⟨raised, hraised⟩ := foldlM_readResult_error repr hraise ([], 0)
    have herror : reportFromSarif repr doc = .error raised := by
      rw [reportFromSarif, if_neg (by simp [hwellFormed]), findingsAndSkipped_eq, hraised]
      rfl
    rw [herror]
    refine iff_of_false (fun ⟨report, h, _⟩ => (nomatch h)) fun h => ?_
    obtain ⟨entry, hentry, hunhashable⟩ := hraise
    exact h.1 entry hentry hunhashable
  · push Not at hraise
    have hread : findingsAndSkipped repr doc = .ok ((entries doc).filterMap (finding? repr),
        (entries doc).countP fun entry => !isDict entry) := by
      rw [findingsAndSkipped_eq, foldlM_readResult repr hraise, List.nil_append, Nat.zero_add]
    have hskipped : ((entries doc).countP fun entry => !isDict entry) = 0 ↔
        ∀ entry ∈ entries doc, isDict entry = true := by
      rw [List.countP_eq_zero]
      simp
    rw [reportFromSarif_eq hwellFormed hread, and_iff_right hraise]
    by_cases hnone : (entries doc).filterMap (finding? repr) = [] ∧
        ((entries doc).countP fun entry => !isDict entry) ≠ 0
    · rw [if_pos hnone]
      have hunread : ¬Readable doc := fun h => hnone.2 (hskipped.mpr h.2)
      exact iff_of_true ⟨_, rfl, fun h => absurd h hunread, fun _ => rfl⟩
        (.inr (findings_eq_nil_iff.mp hnone.1))
    · rw [if_neg hnone]
      by_cases hall : ∀ entry ∈ entries doc, isDict entry = true
      · refine iff_of_true ⟨_, rfl, fun _ => ⟨rfl, map_some_findings hall, countP_critical _⟩, ?_⟩
          (.inl hall)
        exact fun h => absurd ⟨hwellFormed, hall⟩ h
      · refine iff_of_false ?_ ?_
        · rintro ⟨report, hreport, -, hstate⟩
          have hmeasured := hstate fun h => hall h.2
          rw [← Except.ok.inj hreport] at hmeasured
          exact absurd hmeasured nofun
        · rintro (h | h)
          · exact hall h
          · exact hnone ⟨findings_eq_nil_iff.mpr h, fun hzero => hall (hskipped.mp hzero)⟩

end Honest

/-! ### Two documents that are read wrong -/

def sampleDoc (results : List Json) : Json :=
  .obj [("runs", .arr [.obj [("results", .arr results)]])]

def sampleUnhashable : Json := sampleDoc [.obj [("level", .arr [.str "error"])]]

def sampleMixed : Json := sampleDoc [.obj [("level", .str "note")], .str "truncated"]

/-- A level that is a list raises, and an entry that is no dictionary is left out of a report that
is measured. -/
theorem misread :
    ¬Honest (fun _ => "") sampleUnhashable (reportFromSarif (fun _ => "") sampleUnhashable) ∧
      ¬Honest (fun _ => "") sampleMixed (reportFromSarif (fun _ => "") sampleMixed) := by
  constructor
  · rintro ⟨report, hreport, -⟩
    have hraised : reportFromSarif (fun _ => "") sampleUnhashable =
        .error (.typeError "unhashable type: 'list'") := by decide +kernel
    rw [hraised] at hreport
    exact nomatch hreport
  · rintro ⟨report, hreport, -, hstate⟩
    have hunread : ¬Readable sampleMixed := by
      rintro ⟨-, hall⟩
      have hentry : Json.str "truncated" ∈ entries sampleMixed :=
        List.mem_cons_of_mem _ List.mem_cons_self
      exact absurd (hall _ hentry) (by decide)
    have hmeasured : (reportFromSarif (fun _ => "") sampleMixed).map (·.state) =
        .ok .measured := by decide +kernel
    rw [hreport] at hmeasured
    exact absurd ((hstate hunread).symm.trans (Except.ok.inj hmeasured)) (by decide)

end Kroker.Sarif
