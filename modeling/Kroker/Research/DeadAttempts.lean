import Kroker.Core.PyValue
import Kroker.Library.JsonTree
import Kroker.Library.Tally

/-!
# The ledger of dead attempts

`budget_store.py` appends one line of JSON for each research attempt that died, and adds the lines
up by model.  A line that is not a usage record is passed over: whatever goes wrong while it is read
is caught.  Two things are not caught: the whole file is decoded before its lines are looked at, and
the bag of a model is made outside of the `try`.

`json.loads` and `int` are parameters, so they may raise on any line they do not like.

* `readLines_eq` --- when the lines are added up, and that they come to the totals by model;
* `readDeadAttempts_eq` --- what is read of the lines that were appended.
-/

namespace Kroker.Research

open JsonText

/-! ## 1.  Attempts -/

/-- The counts of a usage bag. -/
@[ext] structure Counts where
  calls : ℤ := 0
  inputTokens : ℤ := 0
  outputTokens : ℤ := 0
  cacheReadTokens : ℤ := 0
  cacheWriteTokens : ℤ := 0
  deriving DecidableEq

namespace Counts

instance : Zero Counts := ⟨{}⟩

instance : Add Counts :=
  ⟨fun a b => ⟨a.calls + b.calls, a.inputTokens + b.inputTokens, a.outputTokens + b.outputTokens,
    a.cacheReadTokens + b.cacheReadTokens, a.cacheWriteTokens + b.cacheWriteTokens⟩⟩

theorem add_def (a b : Counts) : a + b = ⟨a.calls + b.calls, a.inputTokens + b.inputTokens,
    a.outputTokens + b.outputTokens, a.cacheReadTokens + b.cacheReadTokens,
    a.cacheWriteTokens + b.cacheWriteTokens⟩ := rfl

theorem zero_def : (0 : Counts) = ⟨0, 0, 0, 0, 0⟩ := rfl

instance : AddCommMonoid Counts where
  add_assoc a b c := by ext <;> simp only [add_def] <;> omega
  zero_add a := by ext <;> simp only [add_def, zero_def] <;> omega
  add_zero a := by ext <;> simp only [add_def, zero_def] <;> omega
  add_comm a b := by ext <;> simp only [add_def] <;> omega
  nsmul := nsmulRec

end Counts

/-- What a line says of an attempt. -/
structure DeadAttempt where
  model : PyStr
  counts : Counts

/-- The usage bag of a model, with the role `research` and no dollars. -/
structure DeadUsage where
  model : String
  counts : Counts

/-! ## 2.  Reading -/

/-- `json.loads`, and `int`. -/
structure JsonReader (N : Type) where
  loads : String → Except PyError (PyValue N)
  /-- `int` of a number. -/
  int : N → Except PyError ℤ
  /-- `int` of a text. -/
  intOfText : PyStr → Except PyError ℤ

section Reading

variable {N : Type} (reader : JsonReader N)

/-- `int(v)`. -/
def JsonReader.intOf : PyValue N → Except PyError ℤ
  | .number n => reader.int n
  | .bool b => .ok (if b then 1 else 0)
  | .text s => reader.intOfText s
  | _ => .error .type

/-- `int(data.get(key, default))`. -/
def count (members : List (PyStr × PyValue N)) (key : String) (default : ℤ) : Except PyError ℤ :=
  match Members.get? members (pyStr key) with
  | none => .ok default
  | some v => reader.intOf v

def tryLine (line : String) : Except PyError (Option DeadAttempt) := do
  match ← reader.loads line with
  | .dict members =>
    match Members.get? members (pyStr "model") with
    | none => throw .key
    | some (.text []) => pure none
    | some (.text model) =>
      let calls ← count reader members "calls" 1
      let inputTokens ← count reader members "input_tokens" 0
      let outputTokens ← count reader members "output_tokens" 0
      let cacheReadTokens ← count reader members "cache_read_tokens" 0
      let cacheWriteTokens ← count reader members "cache_write_tokens" 0
      pure (some
        ⟨model, { calls, inputTokens, outputTokens, cacheReadTokens, cacheWriteTokens }⟩)
    | some _ => pure none
  | _ => pure none

def record? (line : String) : Option DeadAttempt :=
  match tryLine reader line with
  | .ok attempt => attempt
  | .error _ => none

def records (text : String) : List DeadAttempt := (fullLines text).filterMap (record? reader)

def addAttempt (totals : List (PyStr × Counts)) (a : DeadAttempt) :
    Except PyError (List (PyStr × Counts)) :=
  match Members.get? totals a.model with
  | none =>
    if encodable a.model then .ok (Members.set totals a.model a.counts) else .error .validation
  | some counts => .ok (Members.set totals a.model (counts + a.counts))

/-- The lines are added up, where these are the bags so far. -/
def readLines (totals : List (PyStr × Counts)) :
    List String → Except PyError (List (PyStr × Counts))
  | [] => .ok totals
  | line :: lines =>
    match record? reader line with
    | none => readLines totals lines
    | some a => do
      let totals ← addAttempt totals a
      readLines totals lines

/-- What stands at the path of the ledger. -/
inductive LedgerFile where
  | missing
  | unreadable
  | bytes (content : ByteArray)

/-- The bags of the models, as they are returned. -/
def bags (totals : List (PyStr × Counts)) : List DeadUsage :=
  totals.map fun t => ⟨decode t.1, t.2⟩

def readDeadAttempts : LedgerFile → Except PyError (List DeadUsage)
  | .missing => .ok []
  | .unreadable => .ok []
  | .bytes content =>
    match decoded content with
    | none => .error .unicode
    | some text => (readLines reader [] (fullLines text)).map bags

end Reading

/-! ## 3.  What the lines come to -/

def totals (attempts : List DeadAttempt) : List (PyStr × Counts) :=
  (firstBy id (attempts.map DeadAttempt.model)).map fun model =>
    (model, ((attempts.filter (·.model = model)).map DeadAttempt.counts).sum)

/-- The bags while they are added up. -/
def gathered (attempts : List DeadAttempt) : List (PyStr × Counts) :=
  gather DeadAttempt.model (fun counts a => counts + a.counts) 0 attempts

theorem foldl_add_counts (attempts : List DeadAttempt) (counts : Counts) :
    attempts.foldl (fun counts a => counts + a.counts) counts =
      counts + (attempts.map DeadAttempt.counts).sum := by
  induction attempts generalizing counts with
  | nil => exact (add_zero counts).symm
  | cons a attempts ih => rw [List.foldl_cons, ih, List.map_cons, List.sum_cons, add_assoc]

theorem gathered_eq_totals (attempts : List DeadAttempt) :
    gathered attempts = totals attempts := by
  rw [gathered, gather_eq, totals]
  refine List.map_congr_left fun model _ => ?_
  rw [foldl_add_counts, zero_add]

theorem gathered_append (attempts : List DeadAttempt) (a : DeadAttempt) :
    gathered (attempts ++ [a]) = Members.set (gathered attempts) a.model
      ((Members.get? (gathered attempts) a.model).getD 0 + a.counts) :=
  gather_append_singleton attempts a

/-- The model of an attempt can be put into a bag. -/
def DeadAttempt.Bagged (a : DeadAttempt) : Prop := encodable a.model = true

instance : DecidablePred DeadAttempt.Bagged := fun _ => inferInstanceAs (Decidable (_ = true))

/-- **One attempt**: its counts are added, unless the bag of its model has to be made and cannot. -/
theorem addAttempt_gathered {attempts : List DeadAttempt} (h : ∀ a ∈ attempts, a.Bagged)
    (a : DeadAttempt) : addAttempt (gathered attempts) a =
      if a.Bagged then .ok (gathered (attempts ++ [a])) else .error .validation := by
  rw [addAttempt, gathered_append]
  cases hget : Members.get? (gathered attempts) a.model with
  | none =>
    dsimp only
    rw [Option.getD_none, zero_add]
    rfl
  | some counts =>
    have hmem : a.model ∈ attempts.map DeadAttempt.model :=
      mem_keys_gather.mp (List.mem_map_of_mem (Members.mem_of_get?_eq_some hget))
    obtain ⟨b, hb, hmodel⟩ := List.mem_map.mp hmem
    have hbagged : a.Bagged := by
      rw [DeadAttempt.Bagged, ← hmodel]
      exact h b hb
    rw [if_pos hbagged, Option.getD_some]

section Reads

variable {N : Type} {reader : JsonReader N}

/-- **The lines**, after these attempts. -/
theorem readLines_gathered {attempts : List DeadAttempt} (h : ∀ a ∈ attempts, a.Bagged)
    (lines : List String) : readLines reader (gathered attempts) lines =
      if ∀ a ∈ lines.filterMap (record? reader), a.Bagged then
        .ok (gathered (attempts ++ lines.filterMap (record? reader)))
      else .error .validation := by
  induction lines generalizing attempts with
  | nil =>
    rw [readLines, List.filterMap_nil, List.append_nil, if_pos nofun]
  | cons line lines ih =>
    rw [readLines]
    cases hrecord : record? reader line with
    | none => rw [List.filterMap_cons_none hrecord, ih h]
    | some a =>
      dsimp only
      rw [List.filterMap_cons_some hrecord, addAttempt_gathered h]
      by_cases ha : a.Bagged
      · have hnext : ∀ b ∈ attempts ++ [a], b.Bagged := by
          intro b hb
          rcases List.mem_append.mp hb with hb | hb
          · exact h b hb
          · rw [List.mem_singleton.mp hb]
            exact ha
        have hiff : (∀ b ∈ a :: lines.filterMap (record? reader), b.Bagged) ↔
            ∀ b ∈ lines.filterMap (record? reader), b.Bagged :=
          ⟨fun hall b hb => hall b (List.mem_cons_of_mem a hb), fun hall =>
            List.forall_mem_cons.mpr ⟨ha, hall⟩⟩
        have hrest := ih hnext
        rw [List.append_assoc, List.singleton_append] at hrest
        rw [if_pos ha, if_congr hiff rfl rfl]
        exact hrest
      · rw [if_neg ha, if_neg fun hall => ha (hall a List.mem_cons_self)]
        rfl

theorem readLines_eq (lines : List String) : readLines reader [] lines =
    if ∀ a ∈ lines.filterMap (record? reader), a.Bagged then
      .ok (totals (lines.filterMap (record? reader)))
    else .error .validation := by
  have hnone : ∀ a ∈ ([] : List DeadAttempt), a.Bagged := nofun
  rw [← gathered_eq_totals]
  exact readLines_gathered hnone lines

variable (reader) in
/-- What is read of a file raises nothing and is, for each model, the sum over the lines that are
usage records. -/
def ReadTotally (content : ByteArray) : Prop :=
  ∃ usages, readDeadAttempts reader (.bytes content) = .ok usages ∧
    ∀ text, decoded content = some text → usages = bags (totals (records reader text))

/-- **A file is read totally** if it is in UTF-8, and no usage record has half of a surrogate pair
in its model. -/
theorem readTotally_iff (content : ByteArray) : ReadTotally reader content ↔
    ∃ text, decoded content = some text ∧ ∀ a ∈ records reader text, a.Bagged := by
  rw [ReadTotally, readDeadAttempts]
  cases hdecoded : decoded content with
  | none => exact iff_of_false (fun ⟨_, h, _⟩ => nomatch h) fun ⟨_, h, _⟩ => nomatch h
  | some text =>
    dsimp only
    rw [readLines_eq]
    split
    · rename_i h
      refine iff_of_true ⟨_, rfl, fun text' htext => ?_⟩ ⟨text, rfl, h⟩
      rw [← Option.some.inj htext]
      rfl
    · rename_i h
      refine iff_of_false (fun ⟨_, h', _⟩ => nomatch h') fun ⟨text', htext, h'⟩ => h ?_
      rw [← Option.some.inj htext] at h'
      exact h'

end Reads

/-! ## 4.  Appended lines -/

/-- `str` of an integer. -/
def intText (z : ℤ) : List Char := (toString z).toList

/-- `usage.calls or 1`. -/
def Counts.recorded (c : Counts) : Counts := { c with calls := if c.calls = 0 then 1 else c.calls }

def payloadMembers (u : DeadUsage) : List (String × List Char) :=
  [("model", ascii.quoted u.model.toList),
    ("input_tokens", intText u.counts.inputTokens),
    ("output_tokens", intText u.counts.outputTokens),
    ("cache_read_tokens", intText u.counts.cacheReadTokens),
    ("cache_write_tokens", intText u.counts.cacheWriteTokens),
    ("calls", intText u.counts.recorded.calls)]

/-- The members of a dictionary, with a comma between them. -/
def joinMembers : List (String × List Char) → List Char
  | [] => []
  | [m] => ascii.quoted m.1.toList ++ ':' :: ' ' :: m.2
  | m :: ms => ascii.quoted m.1.toList ++ ':' :: ' ' :: (m.2 ++ ',' :: ' ' :: joinMembers ms)

/-- `json.dumps` of a dictionary. -/
def dumpsDict (members : List (String × List Char)) : List Char :=
  '\x7b' :: (joinMembers members ++ ['\x7d'])

/-- What is appended for an attempt, without the line feed. -/
def lineOf (u : DeadUsage) : List Char := dumpsDict (payloadMembers u)

/-- `append_dead_attempt`: one line at the end of the file. -/
def appendDeadAttempt : LedgerFile → DeadUsage → LedgerFile
  | .missing, u => .bytes (String.ofList (lineOf u ++ ['\n'])).toByteArray
  | .unreadable, _ => .unreadable
  | .bytes content, u => .bytes (content ++ (String.ofList (lineOf u ++ ['\n'])).toByteArray)

/-- The ledger after these calls, in the order in which they wrote. -/
def ledger (usages : List DeadUsage) : LedgerFile := usages.foldl appendDeadAttempt .missing

def Unbroken (l : List Char) : Prop := ∀ c ∈ l, c ∉ lineBreaks

theorem Unbroken.append {l l' : List Char} (h : Unbroken l) (h' : Unbroken l') :
    Unbroken (l ++ l') := fun c hc =>
  (List.mem_append.mp hc).elim (h c) (h' c)

theorem Unbroken.cons {c : Char} {l : List Char} (hc : c ∉ lineBreaks) (h : Unbroken l) :
    Unbroken (c :: l) := List.forall_mem_cons.mpr ⟨hc, h⟩

theorem unbroken_intText (z : ℤ) : Unbroken (intText z) := by
  intro c hc hbreak
  have hall : ∀ d ∈ lineBreaks, d.isDigit = false ∧ d ≠ '-' := by decide
  exact notMem_toString_int (hall c hbreak).1 (hall c hbreak).2 z hc

theorem unbroken_quoted (s : List Char) : Unbroken (ascii.quoted s) := by
  intro c hc hbreak
  have hall : ∀ d ∈ lineBreaks, d.toNat < 32 ∨ 128 ≤ d.toNat := by decide
  have hprinted := printed_quoted_ascii hc
  rcases hall c hbreak with h | h
  · omega
  · omega

theorem unbroken_joinMembers {members : List (String × List Char)}
    (h : ∀ m ∈ members, Unbroken m.2) : Unbroken (joinMembers members) := by
  have hcolon : ':' ∉ lineBreaks := by decide
  have hspace : ' ' ∉ lineBreaks := by decide
  have hcomma : ',' ∉ lineBreaks := by decide
  induction members with
  | nil => exact nofun
  | cons m ms ih =>
    rw [List.forall_mem_cons] at h
    cases ms with
    | nil => exact (unbroken_quoted _).append (.cons hcolon (.cons hspace h.1))
    | cons m' ms =>
      exact (unbroken_quoted _).append
        (.cons hcolon (.cons hspace (h.1.append (.cons hcomma (.cons hspace (ih h.2))))))

theorem unbroken_lineOf (u : DeadUsage) : Unbroken (lineOf u) := by
  have hvalues : ∀ m ∈ payloadMembers u, Unbroken m.2 := by
    intro m hm
    simp only [payloadMembers, List.mem_cons, List.not_mem_nil, or_false] at hm
    rcases hm with rfl | rfl | rfl | rfl | rfl | rfl
    · exact unbroken_quoted _
    · exact unbroken_intText _
    · exact unbroken_intText _
    · exact unbroken_intText _
    · exact unbroken_intText _
    · exact unbroken_intText _
  exact .cons (by decide) ((unbroken_joinMembers hvalues).append (.cons (by decide) nofun))

theorem strip_lineOf (u : DeadUsage) :
    strip (String.ofList (lineOf u)) = String.ofList (lineOf u) := by
  apply strip_eq_self
  · intro c hc
    rw [String.toList_ofList] at hc
    obtain rfl : '\x7b' = c := Option.some.inj hc
    decide
  · intro c hc
    rw [String.toList_ofList, lineOf, dumpsDict, ← List.cons_append, List.getLast?_concat] at hc
    obtain rfl : '\x7d' = c := Option.some.inj hc
    decide

def linesText (usages : List DeadUsage) : List Char :=
  (usages.map lineOf).flatMap (· ++ ['\n'])

theorem fullLines_linesText (usages : List DeadUsage) :
    fullLines (String.ofList (linesText usages)) =
      usages.map fun u => String.ofList (lineOf u) := by
  have hunbroken : ∀ line ∈ usages.map lineOf, ∀ c ∈ line, c ∉ lineBreaks := by
    intro line hline
    obtain ⟨u, -, rfl⟩ := List.mem_map.mp hline
    exact unbroken_lineOf u
  rw [fullLines, String.toList_ofList, linesText, splitlines_flatMap hunbroken, stripped,
    List.map_map, List.filter_eq_self.mpr]
  · exact List.map_congr_left fun u _ => strip_lineOf u
  · intro s hs
    obtain ⟨u, -, rfl⟩ := List.mem_map.mp hs
    rw [Function.comp_apply, strip_lineOf, decide_eq_true_eq]
    intro hempty
    have hnil := congrArg String.toList hempty
    rw [String.toList_ofList] at hnil
    cases hnil

theorem decoded_linesText (usages : List DeadUsage) :
    decoded (String.ofList (linesText usages)).toByteArray =
      some (String.ofList (linesText usages)) := by
  apply decoded_toByteArray
  rw [String.toList_ofList, linesText]
  intro hmem
  obtain ⟨line, hline, hc⟩ := List.mem_flatMap.mp hmem
  obtain ⟨u, -, rfl⟩ := List.mem_map.mp hline
  rcases List.mem_append.mp hc with hc | hc
  · exact unbroken_lineOf u _ hc (by decide)
  · exact absurd hc (by decide)

theorem foldl_appendDeadAttempt (usages : List DeadUsage) (text : List Char) :
    usages.foldl appendDeadAttempt (.bytes (String.ofList text).toByteArray) =
      .bytes (String.ofList (text ++ linesText usages)).toByteArray := by
  induction usages generalizing text with
  | nil => rw [List.foldl_nil, linesText, List.map_nil, List.flatMap_nil, List.append_nil]
  | cons u usages ih =>
    rw [List.foldl_cons, appendDeadAttempt, ← String.toByteArray_append, ← String.ofList_append, ih,
      List.append_assoc]
    rfl

/-- **The ledger of some calls** is the text of their lines. -/
theorem ledger_cons (u : DeadUsage) (usages : List DeadUsage) :
    ledger (u :: usages) = .bytes (String.ofList (linesText (u :: usages))).toByteArray := by
  rw [ledger, List.foldl_cons, appendDeadAttempt, foldl_appendDeadAttempt]
  rfl

section Written

variable {N : Type} {reader : JsonReader N}

theorem readDeadAttempts_ledger (usages : List DeadUsage) :
    readDeadAttempts reader (ledger usages) =
      (readLines reader [] (usages.map fun u => String.ofList (lineOf u))).map bags := by
  cases usages with
  | nil => rfl
  | cons u usages =>
    rw [ledger_cons, readDeadAttempts, decoded_linesText]
    dsimp only
    rw [fullLines_linesText]

/-- The members of the dictionary that a line is written of. -/
def payloadValue (ofInt : ℤ → N) (u : DeadUsage) : List (PyStr × PyValue N) :=
  [(pyStr "model", .text (pyStr u.model)),
    (pyStr "input_tokens", .number (ofInt u.counts.inputTokens)),
    (pyStr "output_tokens", .number (ofInt u.counts.outputTokens)),
    (pyStr "cache_read_tokens", .number (ofInt u.counts.cacheReadTokens)),
    (pyStr "cache_write_tokens", .number (ofInt u.counts.cacheWriteTokens)),
    (pyStr "calls", .number (ofInt u.counts.recorded.calls))]

variable (reader) in
/-- `json.loads` reads back what `json.dumps` has written for an attempt. -/
def ReadsBack (ofInt : ℤ → N) (u : DeadUsage) : Prop :=
  reader.loads (String.ofList (lineOf u)) = .ok (.dict (payloadValue ofInt u)) ∧
    ∀ z, reader.int (ofInt z) = .ok z

/-- What a call of `append_dead_attempt` adds. -/
def DeadUsage.attempt (u : DeadUsage) : DeadAttempt := ⟨pyStr u.model, u.counts.recorded⟩

theorem nodup_payloadValue (ofInt : ℤ → N) (u : DeadUsage) :
    ((payloadValue ofInt u).map Prod.fst).Nodup := by
  show [pyStr "model", pyStr "input_tokens", pyStr "output_tokens", pyStr "cache_read_tokens",
    pyStr "cache_write_tokens", pyStr "calls"].Nodup
  decide +kernel

theorem get?_payloadValue {ofInt : ℤ → N} {u : DeadUsage} {key : String} {v : PyValue N}
    (h : (pyStr key, v) ∈ payloadValue ofInt u) :
    Members.get? (payloadValue ofInt u) (pyStr key) = some v :=
  Members.get?_eq_some_of_mem (nodup_payloadValue ofInt u) h

theorem count_payloadValue {ofInt : ℤ → N} {u : DeadUsage} (h : ReadsBack reader ofInt u)
    {key : String} {z : ℤ} (hmem : (pyStr key, .number (ofInt z)) ∈ payloadValue ofInt u)
    (default : ℤ) : count reader (payloadValue ofInt u) key default = .ok z := by
  rw [count, get?_payloadValue hmem]
  exact h.2 z

theorem pyStr_eq_nil_iff {s : String} : pyStr s = [] ↔ s = "" := by
  rw [pyStr, List.map_eq_nil_iff, String.toList_eq_nil_iff]

/-- **A line that was appended** is a usage record, unless its model is empty. -/
theorem record?_lineOf {ofInt : ℤ → N} {u : DeadUsage} (h : ReadsBack reader ofInt u) :
    record? reader (String.ofList (lineOf u)) = if u.model = "" then none else some u.attempt := by
  have hmodel : Members.get? (payloadValue ofInt u) (pyStr "model") =
      some (.text (pyStr u.model)) := get?_payloadValue (by simp [payloadValue])
  have htry : tryLine reader (String.ofList (lineOf u)) =
      .ok (if u.model = "" then none else some u.attempt) := by
    rw [tryLine, h.1]
    show (match Members.get? (payloadValue ofInt u) (pyStr "model") with
      | none => _
      | some (.text []) => _
      | some (.text model) => _
      | some _ => _) = _
    rw [hmodel]
    cases hstr : pyStr u.model with
    | nil =>
      rw [if_pos (pyStr_eq_nil_iff.mp hstr)]
      rfl
    | cons c cs =>
      have hne : u.model ≠ "" := fun hnil => by
        rw [pyStr_eq_nil_iff.mpr hnil] at hstr
        cases hstr
      rw [if_neg hne]
      dsimp only
      rw [count_payloadValue h (z := u.counts.recorded.calls) (by simp [payloadValue]),
        count_payloadValue h (z := u.counts.inputTokens) (by simp [payloadValue]),
        count_payloadValue h (z := u.counts.outputTokens) (by simp [payloadValue]),
        count_payloadValue h (z := u.counts.cacheReadTokens) (by simp [payloadValue]),
        count_payloadValue h (z := u.counts.cacheWriteTokens) (by simp [payloadValue]),
        DeadUsage.attempt, hstr]
      rfl
  rw [record?, htry]

def usageTotals (usages : List DeadUsage) : List DeadUsage :=
  (firstBy id (usages.map DeadUsage.model)).map fun model =>
    ⟨model, ((usages.filter (·.model = model)).map fun u => u.counts.recorded).sum⟩

theorem decode_pyStr (s : String) : decode (pyStr s) = s := by
  rw [decode, pyStr, List.map_map]
  refine (congrArg String.ofList ?_).trans String.ofList_toList
  exact (List.map_congr_left fun c _ => Char.ofNat_toNat c).trans (List.map_id _)

theorem pyStr_injective : Function.Injective pyStr :=
  Function.LeftInverse.injective decode_pyStr

theorem bags_totals (usages : List DeadUsage) :
    bags (totals (usages.map DeadUsage.attempt)) = usageTotals usages := by
  have hmodels : (usages.map DeadUsage.attempt).map DeadAttempt.model =
      (usages.map DeadUsage.model).map pyStr := by
    rw [List.map_map, List.map_map]
    rfl
  have hfirst : firstBy id ((usages.map DeadUsage.model).map pyStr) =
      (firstBy id (usages.map DeadUsage.model)).map pyStr := firstFrom_map pyStr_injective [] _
  rw [bags, totals, hmodels, hfirst, List.map_map, List.map_map, usageTotals]
  refine List.map_congr_left fun model _ => ?_
  have hmodel : usages.filter ((fun a => decide (a.model = pyStr model)) ∘ DeadUsage.attempt) =
      usages.filter (·.model = model) :=
    List.filter_congr fun u _ => decide_eq_decide.mpr pyStr_injective.eq_iff
  rw [Function.comp_apply, Function.comp_apply, decode_pyStr, List.filter_map, List.map_map, hmodel]
  rfl

theorem models_usageTotals (usages : List DeadUsage) :
    (usageTotals usages).map DeadUsage.model = firstBy id (usages.map DeadUsage.model) := by
  rw [usageTotals, List.map_map]
  exact List.map_id _

theorem mem_models_usageTotals {usages : List DeadUsage} {model : String} :
    model ∈ (usageTotals usages).map DeadUsage.model ↔ model ∈ usages.map DeadUsage.model := by
  rw [models_usageTotals]
  refine ⟨mem_of_mem_firstBy, fun h => ?_⟩
  have hseen : id model ∉ [] := List.not_mem_nil
  obtain ⟨k, hk, rfl⟩ : ∃ k ∈ firstBy id (usages.map DeadUsage.model), k = model :=
    exists_mem_firstFrom h hseen
  exact hk

theorem readDeadAttempts_eq {ofInt : ℤ → N} {usages : List DeadUsage}
    (h : ∀ u ∈ usages, ReadsBack reader ofInt u) :
    readDeadAttempts reader (ledger usages) =
      .ok (usageTotals (usages.filter fun u => u.model ≠ "")) := by
  have hrecords : (usages.map fun u => String.ofList (lineOf u)).filterMap (record? reader) =
      (usages.filter fun u => u.model ≠ "").map DeadUsage.attempt := by
    rw [List.filterMap_map]
    induction usages with
    | nil => rfl
    | cons u usages ih =>
      rw [List.forall_mem_cons] at h
      rw [List.filterMap_cons, Function.comp_apply, record?_lineOf h.1, ih h.2, List.filter_cons]
      by_cases hu : u.model = ""
      · rw [if_pos hu, if_neg (by simpa using hu)]
      · rw [if_neg hu, if_pos (by simpa using hu)]
        rfl
  have hbagged : ∀ a ∈ (usages.filter fun u => u.model ≠ "").map DeadUsage.attempt, a.Bagged := by
    intro a ha
    obtain ⟨u, -, rfl⟩ := List.mem_map.mp ha
    exact encodable_pyStr u.model
  rw [readDeadAttempts_ledger, readLines_eq, hrecords, if_pos hbagged]
  exact congrArg Except.ok (bags_totals _)

theorem usageTotals_filter_iff {usages : List DeadUsage} :
    usageTotals (usages.filter fun u => u.model ≠ "") = usageTotals usages ↔
      ∀ u ∈ usages, u.model ≠ "" := by
  constructor
  · intro h u hu hempty
    have hmem : "" ∈ (usageTotals usages).map DeadUsage.model :=
      mem_models_usageTotals.mpr (List.mem_map.mpr ⟨u, hu, hempty⟩)
    rw [← h, mem_models_usageTotals] at hmem
    obtain ⟨v, hv, hv'⟩ := List.mem_map.mp hmem
    exact absurd hv' (of_decide_eq_true (List.mem_filter.mp hv).2)
  · intro h
    rw [List.filter_eq_self.mpr fun u hu => decide_eq_true (h u hu)]

end Written

/-! ## 5.  The ledger -/

def sampleUsage : DeadUsage where
  model := "m"
  counts := { inputTokens := 120, outputTokens := 60 }

def halfPair : String := "\x7b\"model\": \"\\ud800\"\x7d"

/-- Two lines are read, on others `json.loads` raises. -/
def sampleLoads (line : String) : Except PyError (PyValue ℤ) :=
  if line = String.ofList (lineOf sampleUsage) then .ok (.dict (payloadValue id sampleUsage))
  else if line = halfPair then .ok (.dict [(pyStr "model", .text [0xd800])])
  else .error .value

def sampleReader : JsonReader ℤ where
  loads := sampleLoads
  int z := .ok z
  intOfText _ := .error .value

theorem readsBack_sampleUsage : ReadsBack sampleReader id sampleUsage := by
  have hloads : sampleLoads (String.ofList (lineOf sampleUsage)) =
      .ok (.dict (payloadValue id sampleUsage)) := by
    rw [sampleLoads, if_pos rfl]
  exact ⟨hloads, fun _ => rfl⟩

end Kroker.Research
