import PlanArchive.Proofs.Archive.Filtering

/-!
# Rendered queries read back

The text that a query is rendered to is read by a scanner that knows two things: a name stands
between quotes, and a dollar sign outside of quotes starts the number of a parameter. What it finds
in the rendering of conditions are their fields and the numbers 1, 2 and so on
(`Query.marks_predicate`), so that text and parameters together give the conditions back
(`Query.restore_predicate`). Field names with a quote in them are the exception; the archive has
none. Filters that are not refused come back in the same way (`Filters.eq_of_conditions`), and a
rendering serves as the key of a cache (`rendering_injective`).
-/

namespace PlanArchive

/-! ## Scanning -/

/-- What is found in a rendered query: the name of a field, or a parameter by its number. -/
inductive Mark where
  | name (field : String)
  | parameter (number : Nat)
deriving DecidableEq

namespace Mark

/-- Where a scanner stands: outside of everything, behind some characters of a name, the last one
first, or behind some digits of a parameter that make a number. -/
inductive Scan where
  | outside
  | inName (read : List Char)
  | inParameter (number : Nat)

/-- Where a scanner stands behind a character that is part of no name and of no parameter. -/
def Scan.start (c : Char) : Scan :=
  if c = '\'' then .inName [] else if c = '$' then .inParameter 0 else .outside

/-- What is found in a text from some point on. -/
def scan : Scan → List Char → List Mark
  | .outside, [] => []
  | .outside, c :: rest => scan (.start c) rest
  | .inName _, [] => []
  | .inName read, c :: rest =>
    if c = '\'' then .name (String.ofList read.reverse) :: scan .outside rest
    else scan (.inName (c :: read)) rest
  | .inParameter number, [] => [.parameter number]
  | .inParameter number, c :: rest =>
    if c.isDigit then scan (.inParameter (Nat.ofDigitChars 10 [c] number)) rest
    else .parameter number :: scan (.start c) rest

/-- What is found in a text. -/
def ofText (text : String) : List Mark := scan .outside text.toList

/-- The number of a parameter. -/
def number? : Mark → Option Nat
  | .name _ => none
  | .parameter number => some number

/-- The conditions that are meant when each name is followed by the parameter with its values. -/
def conditions (params : List QueryValues) : List Mark → List Condition
  | .name field :: .parameter number :: rest =>
    ((params[number - 1]?).map fun values => ⟨field, values⟩).toList ++ conditions params rest
  | _ => []

/-! ### What the scanner passes -/

/-- A text with no quote and no dollar sign holds nothing. -/
theorem scan_outside {text : List Char} (plain : ∀ c ∈ text, c ≠ '\'' ∧ c ≠ '$')
    (tail : List Char) : scan .outside (text ++ tail) = scan .outside tail := by
  induction text with
  | nil => rfl
  | cons c rest inductionHypothesis =>
    obtain ⟨notQuote, notDollar⟩ := plain c List.mem_cons_self
    rw [List.cons_append, scan, Scan.start, if_neg notQuote, if_neg notDollar]
    exact inductionHypothesis fun d member => plain d (List.mem_cons_of_mem _ member)

theorem scan_inName {name : List Char} (unquoted : '\'' ∉ name) (read tail : List Char) :
    scan (.inName read) (name ++ '\'' :: tail)
      = .name (String.ofList (read.reverse ++ name)) :: scan .outside tail := by
  induction name generalizing read with
  | nil => simp [scan]
  | cons c rest inductionHypothesis =>
    obtain ⟨isOther, restUnquoted⟩ := not_or.mp (mt List.mem_cons.mpr unquoted)
    rw [List.cons_append, scan, if_neg (Ne.symm isOther), inductionHypothesis restUnquoted]
    simp

theorem scan_inParameter {digits : List Char} (areDigits : ∀ c ∈ digits, c.isDigit = true)
    (number : Nat) (tail : List Char) :
    scan (.inParameter number) (digits ++ ')' :: tail)
      = .parameter (Nat.ofDigitChars 10 digits number) :: scan .outside tail := by
  induction digits generalizing number with
  | nil => rfl
  | cons c rest inductionHypothesis =>
    rw [List.cons_append, scan, if_pos (areDigits c List.mem_cons_self),
      inductionHypothesis fun d member => areDigits d (List.mem_cons_of_mem _ member)]
    simp [Nat.ofDigitChars_cons]

/-- The part of a rendered condition that names its parameter. -/
theorem scan_choice (number : Nat) (tail : List Char) :
    scan .outside (" = ANY($".toList ++ ((toString number).toList ++ ')' :: tail))
      = .parameter number :: scan .outside tail := by
  have digits : (toString number).toList = Nat.toDigits 10 number := Nat.toList_repr
  have reached (rest : List Char) :
      scan .outside (" = ANY($".toList ++ rest) = scan (.inParameter 0) rest := rfl
  rw [reached, digits,
    scan_inParameter fun _ => Nat.isDigit_of_mem_toDigits (by decide) (by decide),
    Nat.ofDigitChars_ten_toDigits]

end Mark

/-! ## Conditions -/

namespace Condition

/-- The name of the field has no quote in it. -/
def Unquoted (c : Condition) : Prop := '\'' ∉ c.field.toList

instance : DecidablePred Unquoted := fun c => by
  unfold Unquoted
  infer_instance

/-- A rendered condition names its field and then its parameter, whatever text follows. -/
theorem scan_render {c : Condition} (unquoted : c.Unquoted) (number : Nat) (tail : List Char) :
    Mark.scan .outside ((c.render number).toList ++ tail)
      = .name c.field :: .parameter number :: Mark.scan .outside tail := by
  have named (rest : List Char) :
      Mark.scan (.inName []) (c.field.toList ++ '\'' :: rest)
        = .name c.field :: Mark.scan .outside rest := by
    rw [Mark.scan_inName unquoted, List.reverse_nil, List.nil_append, String.ofList_toList]
  have bare (rest : List Char) :
      Mark.scan .outside ("doc->>'".toList ++ rest) = Mark.scan (.inName []) rest := rfl
  have bracketed (rest : List Char) :
      Mark.scan .outside ('(' :: ("doc->>'".toList ++ rest)) = Mark.scan (.inName []) rest := rfl
  have cast (rest : List Char) :
      Mark.scan .outside (")::bigint".toList ++ rest) = Mark.scan .outside rest :=
    Mark.scan_outside (by simp) rest
  obtain ⟨field, values⟩ := c
  cases values with
  | texts values =>
    have rendered : (render ⟨field, .texts values⟩ number).toList ++ tail
        = "doc->>'".toList ++ (field.toList ++ '\'' ::
          (" = ANY($".toList ++ ((toString number).toList ++ ')' :: tail))) := by
      simp [render]
    rw [rendered, bare, named, Mark.scan_choice]
  | ints values =>
    have rendered : (render ⟨field, .ints values⟩ number).toList ++ tail
        = '(' :: ("doc->>'".toList ++ (field.toList ++ '\'' :: (")::bigint".toList ++
          (" = ANY($".toList ++ ((toString number).toList ++ ')' :: tail))))) := by
      simp [render]
    rw [rendered, bracketed, named, cast, Mark.scan_choice]

end Condition

namespace Query

variable {q r : Query}

/-- No field that the query compares has a quote in its name. -/
def Unquoted (q : Query) : Prop := ∀ c ∈ q.conditions, c.Unquoted

instance : DecidablePred Unquoted := fun q => by
  unfold Unquoted
  infer_instance

/-- The numbers of the parameters in a rendered query. -/
def placeholders (predicate : String) : List Nat := (Mark.ofText predicate).filterMap Mark.number?

/-- The conditions that a rendered query and its parameters say. -/
def restore (predicate : String) (params : List QueryValues) : List Condition :=
  Mark.conditions params (Mark.ofText predicate)

/-- What is found in conditions that are rendered with parameters numbered from `first`. -/
def marksFrom (first : Nat) : List Condition → List Mark
  | [] => []
  | c :: rest => .name c.field :: .parameter first :: marksFrom (first + 1) rest

theorem scan_renderFrom {conditions : List Condition} (unquoted : ∀ c ∈ conditions, c.Unquoted)
    (first : Nat) :
    Mark.ofText (" AND ".intercalate (renderFrom first conditions)) =
      marksFrom first conditions := by
  induction conditions generalizing first with
  | nil => rfl
  | cons c rest inductionHypothesis =>
    have head := unquoted c List.mem_cons_self
    have others := inductionHypothesis (fun d member => unquoted d (List.mem_cons_of_mem _ member))
      (first + 1)
    rw [Mark.ofText] at others ⊢
    rw [marksFrom, ← others]
    cases rest with
    | nil =>
      have alone := Condition.scan_render head first []
      rw [List.append_nil] at alone
      simp only [renderFrom, String.intercalate_singleton, alone]
      rfl
    | cons d rest =>
      have joins : ∀ c ∈ " AND ".toList, c ≠ '\'' ∧ c ≠ '$' := by simp
      simp only [renderFrom, String.intercalate_cons_cons, String.toList_append,
        List.append_assoc]
      rw [Condition.scan_render head, Mark.scan_outside joins]

/-- In a rendered query stand the fields of its conditions, each with the number of its place. -/
theorem marks_predicate (unquoted : q.Unquoted) :
    Mark.ofText q.predicate = marksFrom 1 q.conditions := by
  obtain ⟨conditions, orderBy, limit⟩ := q
  cases conditions with
  | nil =>
    have nothing : Mark.scan .outside "TRUE".toList = [] := rfl
    exact nothing
  | cons c rest => exact scan_renderFrom unquoted 1

theorem filterMap_marksFrom (first : Nat) (conditions : List Condition) :
    (marksFrom first conditions).filterMap Mark.number? = List.range' first conditions.length := by
  induction conditions generalizing first with
  | nil => rfl
  | cons c rest inductionHypothesis =>
    have name : Mark.number? (.name c.field) = none := rfl
    have number : Mark.number? (.parameter first) = some first := rfl
    rw [marksFrom, List.filterMap_cons_none name, List.filterMap_cons_some number,
      inductionHypothesis, List.length_cons, List.range'_succ]

/-- The parameters of a rendered query are numbered from one, in the order of the conditions. -/
theorem placeholders_predicate (unquoted : q.Unquoted) :
    placeholders q.predicate = List.range' 1 q.conditions.length := by
  rw [placeholders, marks_predicate unquoted, filterMap_marksFrom]

/-- Conditions whose values come behind others in a list of parameters are found at the numbers
behind those. -/
theorem conditions_marksFrom (before : List QueryValues) (conditions : List Condition) :
    Mark.conditions (before ++ conditions.map Condition.values)
      (marksFrom (before.length + 1) conditions) = conditions := by
  induction conditions generalizing before with
  | nil => rfl
  | cons c rest inductionHypothesis =>
    have others := inductionHypothesis (before ++ [c.values])
    rw [List.length_append, List.length_singleton, List.append_assoc] at others
    have values : (before ++ (c :: rest).map Condition.values)[before.length + 1 - 1]?
        = some c.values := by simp
    simp only [marksFrom, Mark.conditions, values, Option.map_some, Option.toList_some]
    exact congrArg (c :: ·) others

/-- The text and the parameters of a query give its conditions back. -/
theorem restore_predicate (unquoted : q.Unquoted) :
    restore q.predicate q.params = q.conditions := by
  rw [restore, marks_predicate unquoted]
  exact conditions_marksFrom [] q.conditions

/-- Queries that are rendered alike have the same conditions. -/
theorem conditions_eq (unquoted : q.Unquoted) (otherUnquoted : r.Unquoted)
    (sameText : q.predicate = r.predicate) (sameParams : q.params = r.params) :
    q.conditions = r.conditions := by
  rw [← restore_predicate unquoted, sameText, sameParams, restore_predicate otherUnquoted]

end Query

/-! ## Filters -/

namespace Filters

variable {f g : Filters}

/-- The texts that conditions compare a field with. -/
def textsOf (field : String) (conditions : List Condition) : List String :=
  conditions.flatMap fun c =>
    match c.values with
    | .texts values => if c.field = field then values else []
    | .ints _ => []

/-- The integers that conditions compare a field with. -/
def intsOf (field : String) (conditions : List Condition) : List Int64 :=
  conditions.flatMap fun c =>
    match c.values with
    | .texts _ => []
    | .ints values => if c.field = field then values else []

theorem textsOf_id (f : Filters) : textsOf Field.id f.conditions = f.ids.map Uuid.toText := by
  obtain ⟨ids, groups, statuses⟩ := f
  cases ids <;> cases groups <;> cases statuses <;>
    simp [textsOf, conditions, Field.id, Field.groupId]

theorem textsOf_groupId (f : Filters) :
    textsOf Field.groupId f.conditions = f.groups.map Uuid.toText := by
  obtain ⟨ids, groups, statuses⟩ := f
  cases ids <;> cases groups <;> cases statuses <;>
    simp [textsOf, conditions, Field.id, Field.groupId]

theorem intsOf_status (f : Filters) :
    intsOf Field.status f.conditions = f.statuses.map Status.code := by
  obtain ⟨ids, groups, statuses⟩ := f
  cases ids <;> cases groups <;> cases statuses <;> simp [intsOf, conditions]

/-- Filters with the same conditions have the same lists. -/
theorem eq_of_conditions (same : f.conditions = g.conditions) : f = g := by
  have texts : Function.Injective (List.map Uuid.toText) :=
    List.map_injective_iff.mpr fun _ _ => Uuid.toText_injective
  have codes := List.map_injective_iff.mpr Status.code_injective
  have sameIds : f.ids = g.ids :=
    texts (by rw [← textsOf_id, ← textsOf_id, same])
  have sameGroups : f.groups = g.groups :=
    texts (by rw [← textsOf_groupId, ← textsOf_groupId, same])
  have sameStatuses : f.statuses = g.statuses :=
    codes (by rw [← intsOf_status, ← intsOf_status, same])
  cases f
  cases g
  simp_all

theorem query_of_toQuery {q : Query} (valid : f.toQuery = .ok q) : f.query = q := by
  by_cases refused : f.Refused
  · obtain ⟨cause, failed⟩ := toQuery_of_refused refused
    cases failed.symm.trans valid
  · exact Except.ok.inj ((toQuery_of_not_refused refused).symm.trans valid)

/-- The archive compares no field whose name has a quote in it. -/
theorem unquoted_query (f : Filters) : f.query.Unquoted := by
  intro c member
  simp only [query, conditions, List.mem_append, List.mem_ite_nil_left, List.mem_singleton]
    at member
  obtain ((⟨-, rfl⟩ | ⟨-, rfl⟩) | ⟨-, rfl⟩) := member <;> simp only [Condition.Unquoted] <;> decide

end Filters

/-! ## Renderings as keys -/

/-- A rendering says what was rendered. For queries whose fields have no quote in their names: the
numbers of the parameters are one, two and so on, each once; reading the text with the parameters
gives the conditions back, the one in each place with the parameter of that number; so queries with
one text and one list of parameters have the same conditions. Filters that are not refused are
rendered alike only when they are equal. -/
theorem rendering_injective :
    (∀ q : Query, q.Unquoted →
      Query.placeholders q.predicate = List.range' 1 q.conditions.length ∧
      Mark.ofText q.predicate = Query.marksFrom 1 q.conditions ∧
      Query.restore q.predicate q.params = q.conditions) ∧
    (∀ q r : Query, q.Unquoted → r.Unquoted → q.predicate = r.predicate → q.params = r.params →
      q.conditions = r.conditions) ∧
    (∀ (f g : Filters) (q r : Query), f.toQuery = .ok q → g.toQuery = .ok r →
      (q.predicate = r.predicate ∧ q.params = r.params ↔ f = g)) := by
  refine ⟨fun q unquoted => ?_, fun q r => Query.conditions_eq, fun f g q r valid otherValid => ?_⟩
  · exact ⟨Query.placeholders_predicate unquoted, Query.marks_predicate unquoted,
      Query.restore_predicate unquoted⟩
  · cases Filters.query_of_toQuery valid
    cases Filters.query_of_toQuery otherValid
    constructor
    · intro ⟨sameText, sameParams⟩
      exact Filters.eq_of_conditions
        (Query.conditions_eq f.unquoted_query g.unquoted_query sameText sameParams)
    · rintro rfl
      exact ⟨rfl, rfl⟩

/-- Two conditions, one with a dollar sign in its name, and two filters that are told apart by their
parameters alone. -/
theorem rendering_injective_examples :
    let q : Query := ⟨[⟨"cost$1", .texts ["a", "b"]⟩, ⟨"status", .ints [2]⟩], "status", none⟩
    let f : Filters := ⟨[⟨1, by decide⟩], [], []⟩
    let g : Filters := ⟨[⟨2, by decide⟩], [], []⟩
    q.predicate = "doc->>'cost$1' = ANY($1) AND (doc->>'status')::bigint = ANY($2)" ∧
      Query.placeholders q.predicate = [1, 2] ∧
      Query.restore q.predicate q.params = q.conditions ∧
      (∀ r : Query, r.Unquoted → q.predicate = r.predicate → q.params = r.params →
        q.conditions = r.conditions) ∧
      f.query.predicate = g.query.predicate ∧ f.query.params ≠ g.query.params := by
  intro q f g
  have unquoted : q.Unquoted := by decide
  obtain ⟨numbers, _, restored⟩ := rendering_injective.1 q unquoted
  have valid : f.toQuery = .ok f.query := Filters.toQuery_of_not_refused (by decide)
  have otherValid : g.toQuery = .ok g.query := Filters.toQuery_of_not_refused (by decide)
  have apart := rendering_injective.2.2 f g f.query g.query valid otherValid
  refine ⟨by decide, numbers, restored, fun r => rendering_injective.2.1 q r unquoted, rfl, ?_⟩
  intro sameParams
  exact absurd (apart.mp ⟨rfl, sameParams⟩) (by decide)

end PlanArchive
