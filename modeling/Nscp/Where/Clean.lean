import Nscp.Where.Evaluate

/-!
# What evaluation may record

Every operator dispatches on the types of its operands before it reads a value, so
the type error it records, if any, is determined by those types.  For a property `P`
of messages that all plain errors and warnings have, this file shows for each
operator that it records only messages with `P` when its operands do and its own
type error, if it has one, has `P`.
-/

namespace Nscp.Where

open ValueContainer Logged

/-- Plain errors and warnings have the property. -/
structure Quiet (P : Message → Prop) : Prop where
  error : ∀ text, P (.error text)
  warn : ∀ text, P (.warn text)

/-- Reading the value records only messages with `P`. -/
def Clean (P : Message → Prop) (v : View) : Prop :=
  ∀ d : Domain, Safe P (fun _ => True) (v.getValue d.type)

/-- Reading the value, or the values of the items, records only messages with `P`. -/
structure Tame (P : Message → Prop) (v : View) : Prop where
  clean : Clean P v
  items : Safe P (fun items => ∀ w ∈ items, Clean P w) v.getListValue

/-- What a function may read of its argument: the items, or, when there are none, the
argument itself. -/
def Readable (P : Message → Prop) (v : View) : Prop :=
  Safe P (fun items => (∀ w ∈ items, Clean P w) ∧ (items = [] → Clean P v)) v.getListValue

/-- The view can be the argument of a function, and so can its items. -/
def Subject (P : Message → Prop) (v : View) : Prop :=
  Safe P (fun items => (∀ w ∈ items, Tame P w) ∧ (items = [] → Clean P v)) v.getListValue

section

variable {P : Message → Prop}

variable {v : View}

theorem Tame.readable (h : Tame P v) : Readable P v :=
  h.items.mono fun _ hitems => ⟨hitems, fun _ => h.clean⟩

theorem Subject.readable (h : Subject P v) : Readable P v :=
  Safe.mono h fun _ hitems => ⟨fun w hw => (hitems.1 w hw).clean, hitems.2⟩

theorem Tame.of_subject (hclean : Clean P v) (h : Subject P v) : Tame P v :=
  ⟨hclean, Safe.mono h fun _ hitems w hw => (hitems.1 w hw).clean⟩

/-! ## Messages -/

variable {α : Type} {left right : View} {Q : α → Prop} {x : Eval α}

theorem safe_error (hq : Quiet P) (text : String) (hx : Safe P Q x) : Safe P Q (do error text; x) :=
  .of_bind (.of_tell (hq.error text) trivial : Logs P _) fun _ _ => hx

theorem safe_warn (hq : Quiet P) (text : String) (hx : Safe P Q x) : Safe P Q (do warn text; x) :=
  .of_bind (.of_tell (hq.warn text) trivial : Logs P _) fun _ _ => hx

theorem safe_typeError {e : TypeError} (he : P (.typeError e)) (hx : Safe P Q x) :
    Safe P Q (do typeError e; x) :=
  .of_bind (.of_tell he trivial : Logs P _) fun _ _ => hx

theorem safe_pure {a : α} (h : Q a) : Safe P Q (pure a : Eval α) :=
  .of_pure h

theorem safe_ofExcept (x : Except Exception α) :
    Logs P (Logged.ofExcept x : Eval α) :=
  ⟨by simp [Logged.ofExcept], fun _ _ => trivial⟩

theorem safe_getInt (v : ValueContainer) : Logs P v.getInt := by
  unfold getInt
  split
  · exact safe_pure trivial
  · exact .of_raise

theorem safe_getFloat (v : ValueContainer) : Logs P v.getFloat := by
  unfold getFloat
  split
  · exact safe_pure trivial
  · exact .of_raise

theorem safe_getString (host : Host) (v : ValueContainer) :
    Logs P (v.getString host) := by
  unfold getString
  split
  · exact safe_pure trivial
  · exact .of_raise

/-! ## Value nodes -/

section

variable (hq : Quiet P) (host : Host)
include hq host

theorem literalValue_safe (literal : Literal) (isUnsure : Bool) (wanted : ValueType) :
    Logs P (literalValue host literal isUnsure wanted) := by
  unfold literalValue
  split <;> try split
  all_goals first
    | exact safe_pure trivial
    | exact safe_error hq _ (safe_pure trivial)

section

variable (copies : ℕ) (type : ValueType) (literal : Literal) (isUnsure : Bool)

theorem literalView_clean : Clean P (literalView host copies type literal isUnsure) := by
  intro d
  cases copies <;> exact literalValue_safe hq host literal isUnsure d.type

theorem literalView_tame : Tame P (literalView host copies type literal isUnsure) := by
  refine ⟨literalView_clean hq host copies type literal isUnsure, ?_⟩
  cases copies with
  | zero => exact safe_pure (by simp)
  | succ copies =>
    refine safe_pure ?_
    intro w hw
    rw [List.mem_singleton.mp hw]
    exact literalView_clean hq host copies literal.type literal false

theorem literalView_subject : Subject P (literalView host copies type literal isUnsure) := by
  have hclean := literalView_clean hq host copies type literal isUnsure
  cases copies with
  | zero => exact safe_pure ⟨by simp, fun _ => hclean⟩
  | succ copies =>
    refine safe_pure ⟨?_, by simp⟩
    intro w hw
    rw [List.mem_singleton.mp hw]
    exact literalView_tame hq host copies literal.type literal false

end

theorem ofInt_tame (v : ℤ) (isUnsure : Bool) :
    Tame P (.ofInt host v isUnsure) := literalView_tame hq host 2 _ _ _

theorem ofFloat_tame (v : Float) (isUnsure : Bool) :
    Tame P (.ofFloat host v isUnsure) := literalView_tame hq host 2 _ _ _

theorem ofString_tame (v : String) (isUnsure : Bool) :
    Tame P (.ofString host v isUnsure) := literalView_tame hq host 2 _ _ _

theorem createFalse_tame : Tame P (.createFalse host) :=
  ofInt_tame hq host 0 false

theorem createNum_tame (v : ValueContainer) : Tame P (.createNum host v) := by
  unfold View.createNum
  split
  · exact ofInt_tame hq host _ _
  split
  · exact ofFloat_tame hq host _ _
  split
  · exact ofString_tame hq host _ _
  · exact ofInt_tame hq host _ _

theorem createNum_safe {x : Eval ValueContainer} (hx : Logs P x) :
    Safe P (Tame P) (do return View.createNum host (← x)) :=
  .of_bind hx fun v _ => safe_pure (createNum_tame hq host v)

end

/-! ## Operators -/

/-- The type error of a comparison or of `in` for these operand types. -/
def simpleBoolErrors (left right : ValueType) : List TypeError :=
  if left.isInt && right.isInt then []
  else if left.isFloat && right.isFloat then []
  else if left ≠ right ∧ right ≠ .tbd then [.notSame]
  else if left.isInt ∨ left.isFloat ∨ left = .string then []
  else [.missingBool]

def logicErrors (desc : String) (left right : ValueType) : List TypeError :=
  if left.isInt && right.isInt then []
  else if left ≠ right ∧ right ≠ .tbd then [.incompatible desc]
  else [.invalid desc]

def patternErrors (desc : String) (left : ValueType) : List TypeError :=
  if left.isInt ∨ left.isFloat ∨ left = .string then [] else [.missingPattern desc]

def notErrors (type : ValueType) : List TypeError :=
  if type = .bool ∨ type = .int ∨ type = .date then [] else [.missingNot]

def operatorErrors (op : Operator) (desc : String) (left right : ValueType) : List TypeError :=
  match op with
  | .eq | .ne | .gt | .lt | .le | .ge | .in | .nin => simpleBoolErrors left right
  | .like | .notLike | .regexp | .notRegexp => patternErrors desc left
  | .and | .binand | .or | .binor => logicErrors desc left right
  | .inv | .not => [.missingFalse]

def Allowed (P : Message → Prop) (errors : List TypeError) : Prop :=
  ∀ e ∈ errors, P (.typeError e)

theorem simpleBoolEvaluate_safe (hq : Quiet P) (host : Host)
    {evalIn : Domain → View → View → Eval ValueContainer}
    (heval : ∀ d, Logs P (evalIn d left right))
    (hallowed : Allowed P (simpleBoolErrors left.type right.type)) :
    Safe P (Tame P) (simpleBoolEvaluate host evalIn left right) := by
  unfold simpleBoolEvaluate
  unfold simpleBoolErrors at hallowed
  split
  · exact createNum_safe hq host (heval .int)
  rename_i hints
  rw [if_neg hints] at hallowed
  split
  · exact createNum_safe hq host (heval .float)
  rename_i hfloats
  rw [if_neg hfloats] at hallowed
  split
  · rename_i hdiffer
    rw [if_pos hdiffer] at hallowed
    exact safe_typeError (hallowed _ (by simp)) (safe_pure (createFalse_tame hq host))
  rename_i hsame
  rw [if_neg hsame] at hallowed
  split
  · exact createNum_safe hq host (heval .int)
  rename_i hint
  split
  · exact createNum_safe hq host (heval .float)
  rename_i hfloat
  split
  · exact createNum_safe hq host (heval .string)
  rename_i hstring
  rw [if_neg (by rintro (h | h | h) <;> contradiction)] at hallowed
  exact safe_typeError (hallowed _ (by simp)) (safe_pure (createFalse_tame hq host))

section

variable (hleft : Clean P left) (hright : Clean P right)
include hleft hright

theorem evalLogic_safe (stop : Bool) : Logs P (evalLogic stop left right) := by
  refine .of_bind (hleft .int) fun lhs _ => .of_bind (safe_getInt lhs) fun lhsi _ => ?_
  dsimp only
  split
  · exact safe_pure trivial
  refine .of_bind (hright .int) fun rhs _ => .of_bind (safe_getInt rhs) fun rhsi _ => ?_
  split
  all_goals exact safe_pure trivial

variable (hq : Quiet P) (host : Host)
include hq

theorem evalCompare_safe (op : Operator) (d : Domain) :
    Logs P (evalCompare host op d left right) := by
  refine .of_bind (hleft d) fun lhs _ => .of_bind (hright d) fun rhs _ => ?_
  split
  · exact safe_error hq _ (safe_pure trivial)
  split
  all_goals exact safe_pure trivial

theorem logicEvaluate_safe (stop : Bool) (desc : String)
    (hallowed : Allowed P (logicErrors desc left.type right.type)) :
    Safe P (Tame P) (logicEvaluate host stop desc left right) := by
  unfold logicEvaluate
  unfold logicErrors at hallowed
  split
  · exact createNum_safe hq host (evalLogic_safe hleft hright stop)
  rename_i hints
  rw [if_neg hints] at hallowed
  split
  · rename_i hdiffer
    rw [if_pos hdiffer] at hallowed
    exact safe_typeError (hallowed _ (by simp)) (safe_pure (createFalse_tame hq host))
  · rename_i hsame
    rw [if_neg hsame] at hallowed
    exact safe_typeError (hallowed _ (by simp)) (safe_pure (createFalse_tame hq host))

omit hleft hright in
theorem matchToContainer_safe (op : Operator) (subject : String) (pattern : ValueContainer)
    (isUnsure : Bool) :
    Logs P (matchToContainer host op subject pattern isUnsure) := by
  unfold matchToContainer
  split
  · exact safe_error hq _ (safe_pure trivial)
  split
  · exact safe_pure trivial
  · exact safe_error hq _ (safe_pure trivial)

theorem evalPattern_safe (op : Operator) (d : Domain) :
    Logs P (evalPattern host op d left right) := by
  refine .of_bind (hleft d) fun lhs _ => .of_bind (hright .string) fun rhs _ => ?_
  cases d with
  | int => exact .of_bind (safe_getInt lhs) fun _ _ => matchToContainer_safe hq host op _ _ _
  | float => exact .of_bind (safe_getFloat lhs) fun _ _ => matchToContainer_safe hq host op _ _ _
  | string =>
    dsimp only
    split
    · exact safe_error hq _ (safe_pure trivial)
    · exact .of_bind (safe_getString host lhs) fun _ _ =>
        matchToContainer_safe hq host op _ _ _

theorem patternEvaluate_safe (op : Operator) (desc : String)
    (hallowed : Allowed P (patternErrors desc left.type)) :
    Safe P (Tame P) (patternEvaluate host op desc left right) := by
  unfold patternEvaluate
  unfold patternErrors at hallowed
  split
  · exact createNum_safe hq host (evalPattern_safe hleft hright hq host op .int)
  rename_i hint
  split
  · exact createNum_safe hq host (evalPattern_safe hleft hright hq host op .float)
  rename_i hfloat
  split
  · exact createNum_safe hq host (evalPattern_safe hleft hright hq host op .string)
  rename_i hstring
  rw [if_neg (by rintro (h | h | h) <;> contradiction)] at hallowed
  exact safe_typeError (hallowed _ (by simp)) (safe_pure (createFalse_tame hq host))

end

theorem getIntValue_safe (hv : Clean P v) : Logs P v.getIntValue :=
  .of_bind (hv .int) fun _ _ => safe_pure trivial

theorem getFloatValue_safe (hv : Clean P v) : Logs P v.getFloatValue :=
  .of_bind (hv .float) fun _ _ => safe_pure trivial

theorem getStringValue_safe (host : Host) (hv : Clean P v) :
    Logs P (v.getStringValue host) :=
  .of_bind (hv .string) fun _ _ => safe_pure trivial

section

variable (host : Host) (d : Domain) (lhs : ValueContainer)

theorem itemMatches_safe {item : View} (hitem : Clean P item) :
    Logs P (itemMatches host d lhs item) := by
  cases d with
  | int => exact .of_bind (getIntValue_safe hitem) fun _ _ => safe_pure trivial
  | float => exact .of_bind (getFloatValue_safe hitem) fun _ _ => safe_pure trivial
  | string => exact .of_bind (getStringValue_safe host hitem) fun _ _ => safe_pure trivial

theorem anyItem_safe {items : List View} (hitems : ∀ w ∈ items, Clean P w) :
    Logs P (anyItem host d lhs items) := by
  induction items with
  | nil => exact safe_pure trivial
  | cons item items ih =>
    refine .of_bind (itemMatches_safe host d lhs (hitems item (by simp))) fun hit _ => ?_
    cases hit with
    | true => exact safe_pure trivial
    | false => exact ih fun w hw => hitems w (List.mem_cons_of_mem _ hw)

end

theorem evalIn_safe (hq : Quiet P) (host : Host) (found : Bool) (d : Domain)
    (hleft : Clean P left) (hright : Subject P right) :
    Logs P (evalIn host found d left right) := by
  refine .of_bind (hleft d) fun lhs _ => ?_
  split
  · exact safe_error hq _ (safe_pure trivial)
  split
  · exact safe_pure trivial
  refine .of_bind hright fun items hitems => ?_
  exact .of_bind (anyItem_safe host d lhs fun w hw => (hitems.1 w hw).clean)
    fun _ _ => safe_pure trivial

/-- Whether the operator reads its right side as a list. -/
def Operator.readsItems : Operator → Bool
  | .in | .nin => true
  | _ => false

theorem binaryOperator_safe (hq : Quiet P) (host : Host) (op : Operator) (hleft : Clean P left)
    (hvalue : op.readsItems = false → Clean P right)
    (hitems : op.readsItems = true → Subject P right)
    (hallowed : Allowed P
      (operatorErrors op (left.text ++ " " ++ op.text ++ " " ++ right.text) left.type right.type)) :
    Safe P (Tame P) (binaryOperator host op left right) := by
  cases op
  case eq | ne | gt | lt | le | ge =>
    exact simpleBoolEvaluate_safe hq host
      (fun d => evalCompare_safe hleft (hvalue rfl) hq host _ d) hallowed
  case like | notLike | regexp | notRegexp =>
    exact patternEvaluate_safe hleft (hvalue rfl) hq host _ _ hallowed
  case and | binand | or | binor =>
    exact logicEvaluate_safe hleft (hvalue rfl) hq host _ _ hallowed
  case «in» | nin =>
    exact simpleBoolEvaluate_safe hq host
      (fun d => evalIn_safe hq host _ d hleft (hitems rfl)) hallowed
  case inv | not =>
    exact safe_typeError (hallowed _ (by simp [operatorErrors]))
      (safe_pure (createFalse_tame hq host))

/-! ## Conversions and negation -/

theorem convertWithUnit_safe (hq : Quiet P) (host : Host) (now : ℤ) (type : ValueType)
    (unit : String) (hv : Clean P v) : Safe P (Tame P) (convertWithUnit host now type v unit) := by
  unfold convertWithUnit
  split
  · split
    · refine .of_bind (hv .float) fun vc _ => .of_bind (safe_ofExcept _) fun offset _ => ?_
      exact .of_bind (safe_ofExcept _) fun date _ => safe_pure (ofInt_tame hq host _ _)
    · refine .of_bind (hv .int) fun vc _ => .of_bind (safe_ofExcept _) fun offset _ => ?_
      exact .of_bind (safe_ofExcept _) fun date _ => safe_pure (ofInt_tame hq host _ _)
  split
  · refine .of_bind (hv .float) fun vc _ => .of_bind (safe_ofExcept _) fun scaled _ => ?_
    exact .of_bind (safe_ofExcept _) fun bytes _ => safe_pure (ofInt_tame hq host _ _)
  · refine .of_bind (hv .int) fun vc _ => ?_
    exact .of_bind (safe_ofExcept _) fun bytes _ => safe_pure (ofInt_tame hq host _ _)

theorem rethrow_safe {Q : View → Prop} (what : String) {x : Eval View} (hx : Safe P Q x) :
    Safe P Q (rethrow what x) := by
  refine .of_catching hx fun e => ?_
  cases e <;> exact .of_raise

theorem functionConvert_safe (hq : Quiet P) (host : Host) (now : ℤ) (type : ValueType)
    {arguments : List View} (subject : View) (harguments : ∀ w ∈ arguments, Tame P w) :
    Safe P (Tame P) (functionConvert host now type arguments subject) := by
  unfold functionConvert
  split
  · exact safe_error hq _ (safe_pure (ofInt_tame hq host _ _))
  · rename_i v u rest
    have hv := harguments v (by simp)
    have hu := harguments u (by simp)
    split
    · refine .of_bind (getStringValue_safe host hu.clean) fun unit _ => ?_
      exact rethrow_safe _ (convertWithUnit_safe hq host now type unit hv.clean)
    · exact safe_error hq _ (safe_pure (ofInt_tame hq host _ _))
  · rename_i v
    have hv := harguments v (by simp)
    split
    · exact safe_pure hv
    split
    · exact .of_bind (hv.clean .float) fun _ _ => safe_pure (ofInt_tame hq host _ _)
    split
    · exact .of_bind (hv.clean .int) fun _ _ => safe_pure (ofFloat_tame hq host _ _)
    · exact safe_pure hv

theorem operatorNot_safe (hq : Quiet P) (host : Host) (now : ℤ) (type : ValueType)
    {subject : View} (hsubject : notErrors type = [] → Clean P subject)
    (hallowed : Allowed P (notErrors type)) :
    Safe P (Tame P) (operatorNot host now type subject) := by
  unfold operatorNot
  split
  · refine .of_bind (hsubject (by simp [notErrors]) .int) fun v _ => ?_
    split <;> exact safe_pure (ofInt_tame hq host _ _)
  · refine .of_bind (hsubject (by simp [notErrors]) .int) fun v _ => ?_
    split
    · exact safe_pure (ofInt_tame hq host _ _)
    split
    · exact .of_raise
    · exact safe_pure (ofInt_tame hq host _ _)
  · refine .of_bind (hsubject (by simp [notErrors]) .int) fun v _ => ?_
    split
    · exact safe_pure (ofInt_tame hq host _ _)
    refine rethrow_safe _ (.of_bind (safe_ofExcept _) fun twice _ => ?_)
    refine .of_bind (safe_ofExcept _) fun negated _ => ?_
    exact .of_bind (safe_ofExcept _) fun date _ => safe_pure (ofInt_tame hq host _ _)
  · rename_i hbool hint hdate
    have herrors : notErrors type = [.missingNot] := by
      unfold notErrors
      rw [if_neg]
      rintro (h | h | h)
      · exact hbool h
      · exact hint h
      · exact hdate h
    rw [herrors] at hallowed
    exact safe_typeError (hallowed _ (by simp)) (safe_pure (ofInt_tame hq host _ _))

end

end Nscp.Where
