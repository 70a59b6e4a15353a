import Kroker.Core.Text
import Kroker.Library.Table
import Mathlib.Algebra.BigOperators.Group.Finset.Basic
import Mathlib.Algebra.Field.Rat

/-!
# Usage bags, usage events and batches

The bookkeeping of model calls, without the host that calls it: the bags of `core/models.py` with
the two ways to fold into them (`merge_usage` and `add_spend`), the usage events of the trace and
their roll-up (`_role_rollup` of `observability/summary.py`), and the batches in which a role's
sub-runs are priced.

Four token counts that are always added together are one `TokenCounts`, and an amount of money is
exact: the rounding of floating-point addition is not modelled.  `MoneyText` is `str` of an amount
together with `float`, which reads it back.

* `usageOf_usageEvent` --- a usage event says what it was emitted for.
-/

namespace Kroker.Usage

/-! ## 1. Tokens and money -/

@[ext] structure TokenCounts where
  input : ℕ := 0
  output : ℕ := 0
  cacheRead : ℕ := 0
  cacheWrite : ℕ := 0
  deriving DecidableEq

namespace TokenCounts

instance : Zero TokenCounts := ⟨{}⟩

instance : Add TokenCounts :=
  ⟨fun a b => ⟨a.input + b.input, a.output + b.output, a.cacheRead + b.cacheRead,
    a.cacheWrite + b.cacheWrite⟩⟩

@[simp] theorem zero_input : (0 : TokenCounts).input = 0 := rfl
@[simp] theorem zero_output : (0 : TokenCounts).output = 0 := rfl
@[simp] theorem zero_cacheRead : (0 : TokenCounts).cacheRead = 0 := rfl
@[simp] theorem zero_cacheWrite : (0 : TokenCounts).cacheWrite = 0 := rfl

@[simp] theorem add_input (a b : TokenCounts) : (a + b).input = a.input + b.input := rfl
@[simp] theorem add_output (a b : TokenCounts) : (a + b).output = a.output + b.output := rfl
@[simp] theorem add_cacheRead (a b : TokenCounts) :
    (a + b).cacheRead = a.cacheRead + b.cacheRead := rfl
@[simp] theorem add_cacheWrite (a b : TokenCounts) :
    (a + b).cacheWrite = a.cacheWrite + b.cacheWrite := rfl

instance : AddCommMonoid TokenCounts where
  add_assoc a b c := by ext <;> simp <;> omega
  zero_add a := by ext <;> simp
  add_zero a := by ext <;> simp
  add_comm a b := by ext <;> simp <;> omega
  nsmul := nsmulRec

/-- `input_tokens or output_tokens`. -/
def used (t : TokenCounts) : Bool := t.input ≠ 0 || t.output ≠ 0

end TokenCounts

/-- `str` of an amount, and `float`. -/
structure MoneyText where
  render : ℚ → String
  parse : String → ℚ
  parse_render : ∀ q, parse (render q) = q

/-! ## 2. Bags -/

/-- One role's accumulated model spend; no dollars until a call is priced. -/
structure RoleUsage where
  role : String
  model : String
  calls : ℕ := 0
  tokens : TokenCounts := 0
  costUsd : Option ℚ := none

/-- The dollars of a bag, `cost_usd or 0.0`. -/
def RoleUsage.dollars (bag : RoleUsage) : ℚ := bag.costUsd.getD 0

/-- `if cost_usd is not None: bag.cost_usd = (bag.cost_usd or 0.0) + cost_usd`. -/
def addCost (bag cost : Option ℚ) : Option ℚ :=
  match cost with
  | none => bag
  | some usd => some (bag.getD 0 + usd)

def mergeUsage (model : String) (tokens : TokenCounts) (cost : Option ℚ) (bag : RoleUsage) :
    RoleUsage :=
  { bag with
    model := if model = "" then bag.model else model
    calls := bag.calls + 1
    tokens := bag.tokens + tokens
    costUsd := addCost bag.costUsd cost }

def addSpend (tokens : TokenCounts) (cost : Option ℚ) (bag : RoleUsage) : RoleUsage :=
  { bag with
    tokens := bag.tokens + tokens
    costUsd := addCost bag.costUsd cost }

theorem getD_addCost (bag cost : Option ℚ) : (addCost bag cost).getD 0 = bag.getD 0 + cost.getD 0 := by
  cases cost with
  | none => exact (add_zero _).symm
  | some usd => rfl

@[simp] theorem mergeUsage_role (model : String) (tokens : TokenCounts) (cost : Option ℚ)
    (bag : RoleUsage) : (mergeUsage model tokens cost bag).role = bag.role := rfl

@[simp] theorem mergeUsage_tokens (model : String) (tokens : TokenCounts) (cost : Option ℚ)
    (bag : RoleUsage) : (mergeUsage model tokens cost bag).tokens = bag.tokens + tokens := rfl

@[simp] theorem mergeUsage_calls (model : String) (tokens : TokenCounts) (cost : Option ℚ)
    (bag : RoleUsage) : (mergeUsage model tokens cost bag).calls = bag.calls + 1 := rfl

@[simp] theorem mergeUsage_dollars (model : String) (tokens : TokenCounts) (cost : Option ℚ)
    (bag : RoleUsage) :
    (mergeUsage model tokens cost bag).dollars = bag.dollars + cost.getD 0 := getD_addCost _ _

@[simp] theorem addSpend_tokens (tokens : TokenCounts) (cost : Option ℚ) (bag : RoleUsage) :
    (addSpend tokens cost bag).tokens = bag.tokens + tokens := rfl

@[simp] theorem addSpend_calls (tokens : TokenCounts) (cost : Option ℚ) (bag : RoleUsage) :
    (addSpend tokens cost bag).calls = bag.calls := rfl

@[simp] theorem addSpend_dollars (tokens : TokenCounts) (cost : Option ℚ) (bag : RoleUsage) :
    (addSpend tokens cost bag).dollars = bag.dollars + cost.getD 0 := getD_addCost _ _

abbrev RoleBags := Table RoleUsage.role

/-- `bags.setdefault(role, RoleUsage(role=role, model=model))`, and `merge_usage` into it. -/
def RoleBags.book (bags : RoleBags) (role model : String) (tokens : TokenCounts)
    (cost : Option ℚ) : RoleBags :=
  bags.upsert { role, model } (mergeUsage model tokens cost) fun _ => rfl

theorem RoleBags.sum_dollars_book (bags : RoleBags) (role model : String) (tokens : TokenCounts)
    (cost : Option ℚ) :
    ((bags.book role model tokens cost).rows.map (·.dollars)).sum =
      (bags.rows.map (·.dollars)).sum + cost.getD 0 :=
  bags.sum_upsert _ _ rfl fun _ => mergeUsage_dollars _ _ _ _

/-! ## 3. Usage events -/

inductive RunEventKind where
  | modelUsage
  | stageStarted
  | stageEnded
  | gateAwaited
  | gateDecided
  | gateNotified
  | clarificationAsked
  | clarificationAnswered
  | fixAttempt
  | toolEscalation
  | memoryRetained
  | runFinished
  deriving DecidableEq

structure RunEvent where
  seq : ℕ
  kind : RunEventKind
  stage : Option String := none
  data : Dict String := ∅

variable (T : MoneyText)

/-- The data that every usage event has. -/
def usageItems (role model : String) (tokens : TokenCounts) : List (String × String) :=
  [("role", role), ("model", model), ("calls", "1"), ("input_tokens", toString tokens.input),
    ("output_tokens", toString tokens.output), ("cache_read_tokens", toString tokens.cacheRead),
    ("cache_write_tokens", toString tokens.cacheWrite)]

/-- The data of the event that `_track_usage` emits. -/
def usageData (role model : String) (tokens : TokenCounts) (cost : Option ℚ) : Dict String :=
  Dict.ofItems (usageItems role model tokens ++
    (cost.map fun usd => ("cost_usd", T.render usd)).toList)

/-- `d.get(key, default)`. -/
def getText (d : Dict String) (key fallback : String) : String := (d[key]?).getD fallback

/-- `int(d.get(key, "0"))`. -/
def getCount (d : Dict String) (key : String) : ℕ := intOf (getText d key "0")

def tokensOf (d : Dict String) : TokenCounts :=
  ⟨getCount d "input_tokens", getCount d "output_tokens", getCount d "cache_read_tokens",
    getCount d "cache_write_tokens"⟩

/-- `_role_rollup`, one event. -/
def rollupEvent (bags : RoleBags) (e : RunEvent) : RoleBags :=
  if e.kind = .modelUsage then
    bags.book (getText e.data "role" "?") (getText e.data "model" "?") (tokensOf e.data)
      ((e.data["cost_usd"]? : Option String).map T.parse)
  else bags

def roleRollup (trace : List RunEvent) : RoleBags := trace.foldl (rollupEvent T) ∅

variable {model : String} {tokens : TokenCounts}

theorem get?_usageData {role : String} {cost : Option ℚ} {key value : String} :
    (usageData T role model tokens cost)[key]? = some value ↔
      (key, value) ∈ usageItems role model tokens ++
        (cost.map fun usd => ("cost_usd", T.render usd)).toList := by
  refine Dict.get?_ofItems_of_nodup ?_ key value
  cases cost <;> simp [usageItems]

theorem getText_usageData {role : String} {cost : Option ℚ} {key value fallback : String}
    (h : (key, value) ∈ usageItems role model tokens) :
    getText (usageData T role model tokens cost) key fallback = value := by
  rw [getText, (get?_usageData T).mpr (List.mem_append_left _ h), Option.getD_some]

theorem getCount_usageData {role : String} {cost : Option ℚ} {key : String} {n : ℕ}
    (h : (key, toString n) ∈ usageItems role model tokens) :
    getCount (usageData T role model tokens cost) key = n := by
  rw [getCount, getText_usageData T h, intOf_toString]

theorem getCost_usageData {role : String} {cost : Option ℚ} :
    ((usageData T role model tokens cost)["cost_usd"]? : Option String).map T.parse = cost := by
  cases cost with
  | some usd =>
    have hget : (usageData T role model tokens (some usd))["cost_usd"]? = some (T.render usd) :=
      (get?_usageData T).mpr (by simp)
    rw [hget, Option.map_some, T.parse_render]
  | none =>
    cases h : ((usageData T role model tokens none)["cost_usd"]? : Option String) with
    | none => rfl
    | some value => exact absurd ((get?_usageData T).mp h) (by simp [usageItems])

/-- **A usage event is rolled up as the call it was emitted for.** -/
theorem rollupEvent_usageData (bags : RoleBags) (seq : ℕ) (stage : Option String)
    (role model : String) (tokens : TokenCounts) (cost : Option ℚ) :
    rollupEvent T bags ⟨seq, .modelUsage, stage, usageData T role model tokens cost⟩ =
      bags.book role model tokens cost := by
  have hrole : getText (usageData T role model tokens cost) "role" "?" = role :=
    getText_usageData T (by simp [usageItems])
  have hmodel : getText (usageData T role model tokens cost) "model" "?" = model :=
    getText_usageData T (by simp [usageItems])
  have htokens : tokensOf (usageData T role model tokens cost) = tokens := by
    rw [tokensOf, getCount_usageData T (n := tokens.input) (by simp [usageItems]),
      getCount_usageData T (n := tokens.output) (by simp [usageItems]),
      getCount_usageData T (n := tokens.cacheRead) (by simp [usageItems]),
      getCount_usageData T (n := tokens.cacheWrite) (by simp [usageItems])]
  rw [rollupEvent, if_pos rfl, hrole, hmodel, htokens, getCost_usageData]

/-! ## 4. Sub-runs -/

structure SubRunUsage where
  model : String
  tokens : TokenCounts

/-- The sub-runs that one model answered. -/
structure Batch where
  model : String
  tokens : TokenCounts := 0

def addReport (sums : Table Batch.model) (r : SubRunUsage) : Table Batch.model :=
  sums.upsert { model := r.model } (fun b => { b with tokens := b.tokens + r.tokens }) fun _ => rfl

/-- `sums` and `order`: the batches, in the order of their first report. -/
def batches (reports : List SubRunUsage) : Table Batch.model := reports.foldl addReport ∅

/-- The dollars of each report: the first of a model carries those of its batch. -/
def shares (batchUsd : String → Option ℚ) : List SubRunUsage → List String → List (Option ℚ)
  | [], _ => []
  | r :: rs, pricedOnce =>
    match batchUsd r.model with
    | none => none :: shares batchUsd rs pricedOnce
    | some usd =>
      if r.model ∈ pricedOnce then some 0 :: shares batchUsd rs pricedOnce
      else some usd :: shares batchUsd rs (r.model :: pricedOnce)

/-- **The batches have the tokens of the reports.** -/
theorem sum_batches (reports : List SubRunUsage) :
    ((batches reports).rows.map (·.tokens)).sum = (reports.map (·.tokens)).sum := by
  suffices h : ∀ sums : Table Batch.model,
      ((reports.foldl addReport sums).rows.map (·.tokens)).sum =
      (sums.rows.map (·.tokens)).sum + (reports.map (·.tokens)).sum from
    (h ∅).trans (zero_add _)
  induction reports with
  | nil => exact fun sums => (add_zero _).symm
  | cons r rs ih =>
    intro sums
    rw [List.foldl_cons, ih, addReport, sums.sum_upsert (d := r.tokens) _ _ rfl fun _ => rfl,
      List.map_cons, List.sum_cons, add_assoc]

theorem model_mem_batches {reports : List SubRunUsage} :
    model ∈ (batches reports).rows.map (·.model) ↔ model ∈ reports.map (·.model) := by
  have hfind : ∀ (t : Table Batch.model) (m : String),
      m ∈ t.rows.map (·.model) ↔ (t.find? m).isSome := by
    intro t m
    rw [List.mem_map, Option.isSome_iff_exists]
    simp only [Table.find?_eq_some_iff]
  rw [hfind]
  suffices h : ∀ sums : Table Batch.model, ((reports.foldl addReport sums).find? model).isSome ↔
      (sums.find? model).isSome ∨ model ∈ reports.map (·.model) by
    exact (h ∅).trans (by simp)
  induction reports with
  | nil => exact fun sums => by simp
  | cons r rs ih =>
    intro sums
    rw [List.foldl_cons, ih, addReport, Table.find?_upsert, List.map_cons, List.mem_cons]
    by_cases h : r.model = model
    · simp [h]
    · simp [h, Ne.symm h]

/-- What is shared out is the price of every model that has not been shared out yet. -/
theorem sum_shares_eq (batchUsd : String → Option ℚ) (reports : List SubRunUsage)
    (pricedOnce : List String) :
    ((shares batchUsd reports pricedOnce).map (·.getD 0)).sum =
      ∑ m ∈ (reports.map (·.model)).toFinset \ pricedOnce.toFinset, (batchUsd m).getD 0 := by
  induction reports generalizing pricedOnce with
  | nil => simp [shares]
  | cons r rs ih =>
    have hinsert : ∀ E : Finset String, ∑ m ∈ insert r.model E, (batchUsd m).getD 0 =
        (batchUsd r.model).getD 0 + ∑ m ∈ E.erase r.model, (batchUsd m).getD 0 := fun E => by
      rw [← Finset.insert_erase (Finset.mem_insert_self r.model E), Finset.erase_insert_eq_erase,
        Finset.sum_insert (Finset.notMem_erase r.model E)]
    rw [shares, List.map_cons, List.toFinset_cons]
    cases husd : batchUsd r.model with
    | none =>
      have hzero : (batchUsd r.model).getD 0 = 0 := by rw [husd]; rfl
      dsimp only
      rw [List.map_cons, List.sum_cons, ih, Option.getD_none, zero_add]
      by_cases hmem : r.model ∈ pricedOnce.toFinset
      · rw [Finset.insert_sdiff_of_mem _ hmem]
      · rw [Finset.insert_sdiff_of_notMem _ hmem, hinsert, hzero, zero_add]
        exact (Finset.sum_erase _ (f := fun m => (batchUsd m).getD 0) hzero).symm
    | some usd =>
      have husd' : (batchUsd r.model).getD 0 = usd := by rw [husd]; rfl
      dsimp only
      by_cases hmem : r.model ∈ pricedOnce
      · have hold : r.model ∈ pricedOnce.toFinset := List.mem_toFinset.mpr hmem
        rw [if_pos hmem, Finset.insert_sdiff_of_mem _ hold, List.map_cons, List.sum_cons, ih]
        exact zero_add _
      · have hnew : r.model ∉ pricedOnce.toFinset := mt List.mem_toFinset.mp hmem
        rw [if_neg hmem, Finset.insert_sdiff_of_notMem _ hnew, hinsert, husd', List.map_cons,
          List.sum_cons, ih, List.toFinset_cons, Finset.sdiff_insert, Option.getD_some]

/-- **The dollars of the batches are shared out once.** -/
theorem sum_shares (batchUsd : String → Option ℚ) (reports : List SubRunUsage) :
    ((shares batchUsd reports []).map (·.getD 0)).sum =
      ((batches reports).rows.map fun b => (batchUsd b.model).getD 0).sum := by
  have hmodels : ((batches reports).rows.map (·.model)).toFinset =
      (reports.map (·.model)).toFinset := by
    ext m
    rw [List.mem_toFinset, List.mem_toFinset, model_mem_batches]
  rw [sum_shares_eq, List.toFinset_nil, Finset.sdiff_empty, ← hmodels,
    List.sum_toFinset _ (batches reports).keys_nodup, List.map_map]
  rfl

end Kroker.Usage
