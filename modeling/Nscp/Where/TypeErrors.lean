import Nscp.Where.Clean
import Nscp.Where.Parse

/-!
# The type errors of a tree

`typeErrors` collects, from the types of a bound tree alone, the type errors its nodes
can record.  `parserEvaluate_typeErrors` shows that evaluation records no other one,
whatever the record, the summary and the clock are, and `mem_log_of_leadingErrors` that
every evaluation records those of the node it comes to first.  Registered functions are
arbitrary code; they are assumed to record a type error only by reading their arguments.
-/

namespace Nscp.Where

open Sample List Node Logged

variable {Obj : Type}

inductive Reading where
  | value
  | items
  | arguments
  deriving DecidableEq, Repr

/-- A function that records nothing but plain messages and what reading its argument
records. -/
def Transparent (fn : View → Eval View) : Prop :=
  ∀ P, Quiet P → ∀ v, Readable P v → Safe P (Tame P) (fn v)

/-- The view of an empty argument list. -/
def View.IsNothing (v : View) : Prop :=
  ∃ host type text, v = .mk type text (listValue host []) (pure [])

/-- A transparent function that can also be called without arguments: it does not read a
number from the empty list. -/
def Callable (fn : View → Eval View) : Prop :=
  ∀ P, Quiet P → ∀ v, Readable P v ∨ v.IsNothing → Safe P (Tame P) (fn v)

namespace Node

def binaryErrors (host : Host) (type : ValueType) (op : Operator) (left right : Node Obj) :
    List TypeError :=
  if type.isInt || type.isString then
    operatorErrors op (left.text host ++ " " ++ op.text ++ " " ++ right.text host) left.type
      right.type
  else [.binaryOperator type]

def unaryErrors (op : Operator) (type : ValueType) : List TypeError :=
  match op with
  | .not => notErrors type
  | .inv | .binand | .binor => []
  | _ => [.missingFalse]

def functionErrors (type : ValueType) (name : String) : Binding Obj → List TypeError
  | .unbound => [.missingBinding name]
  | .undefined => [.missingFalse]
  | .neg => notErrors type
  | .convert | .registered _ => []

/-- Negation reads its argument as one value. -/
def functionReading : Binding Obj → Reading
  | .neg => .value
  | _ => .arguments

mutual

def typeErrors (host : Host) : Reading → Node Obj → List TypeError
  | _, value _ _ _ => []
  | .value, list _ items => .numberFromList :: listErrors host items
  | .items, list _ [] => [.numberFromList]
  | _, list _ items => listErrors host items
  | _, binaryOp type op left right =>
    binaryErrors host type op left right ++ typeErrors host .value left ++
      typeErrors host (if op.readsItems then .items else .value) right
  | _, unaryOp _ op subject => unaryErrors op subject.type ++ typeErrors host .value subject
  | _, unaryFun type name subject binding arguments =>
    functionErrors type name binding ++ typeErrors host (functionReading binding) subject ++
      listErrors host arguments
  | _, objectVariable _ _ _ => []
  | _, customFunction _ _ _ subject => typeErrors host .arguments subject
  | _, summaryVariable _ _ _ => []

def listErrors (host : Host) : List (Node Obj) → List TypeError
  | [] => []
  | item :: items => typeErrors host .value item ++ listErrors host items

end

section Functions

variable (T : (View → Eval View) → Prop)

mutual

/-- Every registered function of the tree has the property. -/
def FunctionsSatisfy : Node Obj → Prop
  | list _ items => ListSatisfies items
  | binaryOp _ _ left right => FunctionsSatisfy left ∧ FunctionsSatisfy right
  | unaryOp _ _ subject => FunctionsSatisfy subject
  | unaryFun _ _ subject binding arguments =>
    (∀ fn, binding = .registered fn → ∀ obj, T (fn obj)) ∧
      FunctionsSatisfy subject ∧ ListSatisfies arguments
  | customFunction _ _ fn subject => (∀ obj type, T (fn obj type)) ∧ FunctionsSatisfy subject
  | _ => True

def ListSatisfies : List (Node Obj) → Prop
  | [] => True
  | item :: items => FunctionsSatisfy item ∧ ListSatisfies items

end

end Functions

abbrev FunctionsTransparent (n : Node Obj) : Prop := n.FunctionsSatisfy Transparent

variable {T : (View → Eval View) → Prop}

variable {items : List (Node Obj)} {item n : Node Obj}

theorem ListSatisfies.of_mem (h : ListSatisfies T items) (hitem : item ∈ items) :
    item.FunctionsSatisfy T := by
  induction items with
  | nil => cases hitem
  | cons a items ih =>
    rcases mem_cons.mp hitem with rfl | hitem
    · exact h.1
    · exact ih h.2 hitem

variable {e : TypeError} {host : Host}

theorem listErrors_of_mem (hitem : item ∈ items) (he : e ∈ item.typeErrors host .value) :
    e ∈ listErrors host items := by
  induction items with
  | nil => cases hitem
  | cons a items ih =>
    unfold listErrors
    rcases mem_cons.mp hitem with rfl | hitem
    · exact mem_append_left _ he
    · exact mem_append_right _ (ih hitem)

/-- Reading a node in another way records no more than reading its value. -/
theorem typeErrors_value {reading : Reading} (he : e ∈ n.typeErrors host reading) :
    e ∈ n.typeErrors host .value := by
  cases n with
  | list type items =>
    cases items <;> cases reading <;> simp_all [typeErrors, listErrors]
  | _ => simp_all [typeErrors]

end Node

/-! ## Nodes -/

section

variable {P : Message → Prop} {type : ValueType} {text : String}

theorem composite_clean {evaluate : Eval View} {items : Eval (List View)}
    (h : Safe P (Tame P) evaluate) : Clean P (.composite type text evaluate items) := by
  intro d
  exact .of_bind h fun v hv => hv.clean d

theorem noItems_subject {getValue : ValueType → Eval ValueContainer}
    (h : Clean P (.mk type text getValue (pure []))) :
    Subject P (.mk type text getValue (pure [])) :=
  safe_pure ⟨by simp, fun _ => h⟩

variable {α : Type}

theorem accessed_safe (hq : Quiet P) (name : String) (x : Except String α)
    {f : α → Eval ValueContainer} (hf : ∀ a, Logs P (f a)) :
    Logs P (accessed name x f) := by
  cases x with
  | ok a => exact hf a
  | error what => exact safe_error hq _ (safe_pure trivial)

theorem dualAccessed_safe (hq : Quiet P) (name : String) (x : Except String α)
    (f : α → ValueContainer) : Logs P (dualAccessed name x f) := by
  cases x with
  | ok a => exact safe_pure trivial
  | error what => exact safe_error hq _ (safe_error hq _ (safe_pure trivial))

section

variable (hq : Quiet P) (host : Host)
include hq host

theorem dualServed_safe (type : ValueType) (name : String) (iFn : Option (Obj → Except String ℤ))
    (fFn : Option (Obj → Except String Float)) (sFn : Option (Obj → Except String String))
    (obj : Obj) (wanted : ValueType) :
    Logs P (dualServed host type name iFn fFn sFn obj wanted) := by
  have hmissing : Logs P (do
      error ("No context when evaluating: " ++ name); return ValueContainer.createNil) :=
    safe_error hq _ (safe_pure trivial)
  unfold dualServed
  cases iFn <;> cases fFn <;> cases sFn <;> dsimp only [Option.elim] <;> repeat' split
  all_goals first
    | exact hmissing
    | exact dualAccessed_safe hq name _ _

theorem variableValue_safe (object : Option Obj) (type : ValueType) (name : String)
    (accessor : Accessor Obj) (wanted : ValueType) :
    Logs P (variableValue host object type name accessor wanted) := by
  cases accessor with
  | int fn | float fn =>
    simp only [variableValue, intVariableValue, floatVariableValue]
    split
    · cases object with
      | none => exact safe_warn hq _ (safe_pure trivial)
      | some obj => exact accessed_safe hq name _ fun _ => safe_pure trivial
    · exact safe_error hq _ (safe_pure trivial)
  | string fn =>
    rcases object with _ | obj
    · exact safe_warn hq _ (safe_pure trivial)
    refine accessed_safe hq name _ fun value => ?_
    split
    · exact safe_pure trivial
    split
    · unfold numericView
      split
      · exact safe_pure trivial
      · exact safe_warn hq _ (safe_pure trivial)
    · exact safe_error hq _ (safe_pure trivial)
  | dual fallbackType iFn fFn sFn =>
    cases object with
    | none =>
      refine safe_warn hq _ ?_
      split
      · exact safe_pure trivial
      · exact safe_error hq _ (safe_pure trivial)
    | some obj => exact dualServed_safe hq host type name iFn fFn sFn obj wanted
  | optionalInt numericType noValue fn =>
    rcases object with _ | obj
    · exact safe_warn hq _ (safe_pure trivial)
    refine accessed_safe hq name _ fun v => ?_
    split
    · exact safe_pure trivial
    split
    · exact safe_pure trivial
    split
    · exact safe_pure trivial
    · exact safe_error hq _ (safe_pure trivial)

theorem evaluateAccessor_safe (name : String) {missing : String → Eval Unit} (object : Option Obj)
    (fn : Option (Obj → Except String α)) {f : α → View}
    (hmissing : ∀ text, Logs P (missing text)) (hf : ∀ a, Tame P (f a)) :
    Safe P (Tame P) (evaluateAccessor host name missing object fn f) := by
  unfold evaluateAccessor
  split
  · split
    · exact safe_pure (hf _)
    · exact safe_error hq _ (safe_pure (createFalse_tame hq host))
  · exact .of_bind (hmissing _) fun _ _ => safe_pure (createFalse_tame hq host)

theorem variableEvaluate_safe (object : Option Obj) (type : ValueType) (name : String)
    (accessor : Accessor Obj) :
    Safe P (Tame P) (variableEvaluate host object type name accessor) := by
  have herror : ∀ text, Logs P (error text) :=
    fun text => .of_tell (hq.error text) trivial
  have hwarn : ∀ text, Logs P (warn text) :=
    fun text => .of_tell (hq.warn text) trivial
  cases accessor with
  | int fn =>
    exact evaluateAccessor_safe hq host name object _ herror fun _ => ofInt_tame hq host _ _
  | float fn =>
    exact evaluateAccessor_safe hq host name object _ herror fun _ => ofFloat_tame hq host _ _
  | string fn =>
    exact evaluateAccessor_safe hq host name object _ hwarn fun _ => ofString_tame hq host _ _
  | dual fallbackType iFn fFn sFn =>
    simp only [variableEvaluate]
    split
    · exact evaluateAccessor_safe hq host name object _ herror
        fun _ => ofString_tame hq host _ _
    split
    · split
      all_goals
        exact evaluateAccessor_safe hq host name object _ herror
          fun _ => ofFloat_tame hq host _ _
    · exact evaluateAccessor_safe hq host name object _ herror fun _ => ofInt_tame hq host _ _
  | optionalInt numericType noValue fn =>
    refine evaluateAccessor_safe hq host name object _ hwarn fun v => ?_
    cases v with
    | none => exact ofString_tame hq host _ _
    | some v => exact ofInt_tame hq host _ _

end

theorem summaryValue_safe (hq : Quiet P) (summary : Summary) (name : String)
    (accessor : SummaryAccessor) (wanted : ValueType) :
    Logs P (summaryValue summary name accessor wanted) := by
  unfold summaryValue
  split
  all_goals first
    | exact safe_pure trivial
    | exact safe_error hq _ (safe_pure trivial)

theorem joinItems_safe (host : Host) {items : List View} (hitems : ∀ w ∈ items, Clean P w)
    (front : String) : Logs P (joinItems host front items) := by
  induction items generalizing front with
  | nil => exact safe_pure trivial
  | cons item items ih =>
    refine .of_bind (getStringValue_safe host (hitems item (by simp))) fun text _ => ?_
    exact ih (fun w hw => hitems w (mem_cons_of_mem _ hw)) _

theorem listValue_safe (hq : Quiet P) (host : Host) {items : List View}
    (hitems : ∀ w ∈ items, Clean P w) (hallowed : P (.typeError .numberFromList))
    (wanted : ValueType) : Logs P (listValue host items wanted) := by
  unfold listValue
  split
  · exact safe_typeError hallowed (safe_pure trivial)
  · exact safe_typeError hallowed (safe_pure trivial)
  · exact .of_bind (joinItems_safe host hitems "") fun _ _ => safe_pure trivial
  · exact safe_error hq _ (safe_pure trivial)

variable {subject : View}

theorem unaryEvaluate_safe (hq : Quiet P) (host : Host) (now : ℤ) (op : Operator)
    (hsubject : Clean P subject) (hallowed : Allowed P (unaryErrors op subject.type)) :
    Safe P (Tame P) (unaryEvaluate host now op subject) := by
  cases op
  case not => exact operatorNot_safe hq host now subject.type (fun _ => hsubject) hallowed
  case inv | binand | binor => exact safe_error hq _ (safe_pure (createFalse_tame hq host))
  all_goals
    exact safe_typeError (hallowed _ (by simp [unaryErrors]))
      (safe_pure (createFalse_tame hq host))

variable {binding : Binding Obj} {arguments : List View}

section

variable (hq : Quiet P) (host : Host) (now : ℤ) (object : Option Obj) (type : ValueType)
  (name : String)
  (hfunction : ∀ fn, binding = .registered fn → ∀ obj v, Readable P v ∨ v.IsNothing →
    Safe P (Tame P) (fn obj v))
  (harguments : ∀ w ∈ arguments, Tame P w) (hallowed : Allowed P (functionErrors type name binding))
include hq hfunction harguments hallowed

theorem functionEvaluate_safe (hvalue : binding = .neg → Clean P subject)
    (hitems : Readable P subject ∨ subject.IsNothing) : Safe P (Tame P)
      (functionEvaluate host now object type name binding arguments subject) := by
  cases binding with
  | unbound | undefined =>
    exact safe_typeError (hallowed _ (by simp [functionErrors]))
      (safe_pure (createFalse_tame hq host))
  | convert => exact functionConvert_safe hq host now type subject harguments
  | neg => exact operatorNot_safe hq host now type (fun _ => hvalue rfl) hallowed
  | registered fn =>
    rcases object with _ | obj
    · exact safe_error hq _ (safe_pure (createFalse_tame hq host))
    refine .of_catching (hfunction fn rfl obj subject hitems) fun e => ?_
    exact safe_error hq _ (safe_pure (createFalse_tame hq host))

theorem functionItem_safe {item : View} (hitem : Tame P item) :
    Safe P (Tame P) (functionItem host now object type name binding arguments item) := by
  unfold functionItem
  split
  · exact safe_pure (createFalse_tame hq host)
  · exact functionEvaluate_safe hq host now object type name hfunction harguments hallowed
      (fun _ => hitem.clean) (.inl hitem.readable)

end

theorem customEvaluate_safe (hq : Quiet P) (host : Host) (object : Option Obj) (type : ValueType)
    (name : String) {fn : CustomFunction Obj}
    (hfunction : Safe P (Tame P) (fn object type subject)) :
    Safe P (Tame P) (customEvaluate host object type name fn subject) := by
  refine .of_catching hfunction fun e => ?_
  exact safe_error hq _ (safe_pure (createFalse_tame hq host))

/-! ## Trees -/

variable {es es' errors : List TypeError}

theorem Allowed.left (h : Allowed P (es ++ es')) : Allowed P es :=
  fun e he => h e (mem_append_left _ he)

theorem Allowed.right (h : Allowed P (es ++ es')) : Allowed P es' :=
  fun e he => h e (mem_append_right _ he)

variable {n : Node Obj}

theorem Allowed.of_value {host : Host} {reading : Reading}
    (h : Allowed P (n.typeErrors host .value)) : Allowed P (n.typeErrors host reading) :=
  fun e he => h e (typeErrors_value he)

structure TreeSafe (P : Message → Prop) (ctx : Context Obj) (n : Node Obj) : Prop where
  value : Allowed P (n.typeErrors ctx.host .value) → Clean P (n.view ctx)
  items : Allowed P (n.typeErrors ctx.host .items) → Subject P (n.view ctx)
  root : Allowed P (n.typeErrors ctx.host .value) → Safe P (Tame P) (n.evaluate ctx)

variable {ctx : Context Obj} {items : List (Node Obj)}

theorem TreeSafe.tame (h : TreeSafe P ctx n) (hallowed : Allowed P (n.typeErrors ctx.host .value)) :
    Tame P (n.view ctx) :=
  .of_subject (h.value hallowed) (h.items hallowed.of_value)

/-- What a function is given: nothing, or what it can read. -/
theorem TreeSafe.given (h : TreeSafe P ctx n)
    (hallowed : Allowed P (n.typeErrors ctx.host .arguments)) :
    Subject P (n.view ctx) ∨ (n.view ctx).IsNothing := by
  cases n with
  | list type items =>
    cases items with
    | nil => exact .inr ⟨ctx.host, type, _, rfl⟩
    | cons item items => exact .inl (h.items hallowed)
  | _ => exact .inl (h.items hallowed)

theorem View.IsNothing.items_safe {v : View} (h : v.IsNothing) :
    Safe P (fun items => ∀ w ∈ items, Tame P w) v.getListValue := by
  obtain ⟨host, type, text, rfl⟩ := h
  exact safe_pure (by simp)

theorem viewList_tame (ih : ∀ item ∈ items, TreeSafe P ctx item)
    (hallowed : Allowed P (listErrors ctx.host items)) :
    ∀ w ∈ viewList ctx items, Tame P w := by
  intro w hw
  rw [viewList_eq_map] at hw
  obtain ⟨item, hitem, rfl⟩ := mem_map.mp hw
  exact (ih item hitem).tame fun e he => hallowed e (listErrors_of_mem hitem he)

theorem evaluateList_safe (ih : ∀ item ∈ items, TreeSafe P ctx item)
    (hallowed : Allowed P (listErrors ctx.host items)) :
    Logs P (evaluateList ctx items) := by
  induction items with
  | nil => exact safe_pure trivial
  | cons item items ih' =>
    unfold listErrors at hallowed
    refine .of_bind ((ih item (by simp)).root hallowed.left) fun _ _ => ?_
    exact ih' (fun n hn => ih n (mem_cons_of_mem _ hn)) hallowed.right

theorem list_treeSafe (hq : Quiet P) (ctx : Context Obj) (type : ValueType)
    (ih : ∀ item ∈ items, TreeSafe P ctx item) : TreeSafe P ctx (.list type items) := by
  have hclean : Allowed P (.numberFromList :: listErrors ctx.host items) →
      Clean P (view ctx (.list type items)) := by
    intro hallowed d
    refine listValue_safe hq ctx.host (fun w hw => ?_) (hallowed _ (by simp)) d.type
    exact (viewList_tame ih (fun e he => hallowed e (mem_cons_of_mem _ he)) w hw).clean
  refine ⟨hclean, ?_, ?_⟩
  · intro hallowed
    cases items with
    | nil => exact safe_pure ⟨by simp [viewList], fun _ => hclean hallowed⟩
    | cons item items =>
      refine safe_pure ⟨viewList_tame ih hallowed, ?_⟩
      intro hempty
      cases hempty
  · intro hallowed
    refine .of_bind (evaluateList_safe ih fun e he => hallowed e (mem_cons_of_mem _ he))
      fun _ _ => ?_
    exact safe_pure (createFalse_tame hq ctx.host)

theorem composite_treeSafe {items : Eval (List View)}
    (hview : n.view ctx = .composite type text (n.evaluate ctx) items)
    (hvalue : n.typeErrors ctx.host .value = errors)
    (hreading : n.typeErrors ctx.host .items = errors)
    (hevaluate : Allowed P errors → Safe P (Tame P) (n.evaluate ctx))
    (hitems : Allowed P errors → Safe P (fun items => ∀ w ∈ items, Tame P w) items) :
    TreeSafe P ctx n := by
  subst hvalue
  have hclean : Allowed P (n.typeErrors ctx.host .value) → Clean P (n.view ctx) := by
    intro hallowed
    rw [hview]
    exact composite_clean (hevaluate hallowed)
  refine ⟨hclean, ?_, hevaluate⟩
  intro hallowed
  rw [hreading] at hallowed
  have h := hclean hallowed
  rw [hview] at h ⊢
  exact (hitems hallowed).mono fun _ hw => ⟨hw, fun _ => h⟩

section

variable (hq : Quiet P) (ctx : Context Obj) {subject : Node Obj}
include hq

theorem binaryOp_treeSafe (type : ValueType) (op : Operator) {left right : Node Obj}
    (hleft : TreeSafe P ctx left) (hright : TreeSafe P ctx right) :
    TreeSafe P ctx (.binaryOp type op left right) := by
  refine composite_treeSafe rfl rfl rfl (fun hallowed => ?_) fun _ => safe_pure (by simp)
  unfold typeErrors at hallowed
  have hown := hallowed.left.left
  have hoperand := hallowed.right
  simp only [evaluate, binaryEvaluate]
  simp only [binaryErrors] at hown
  split
  · rename_i htype
    rw [if_pos htype] at hown
    refine binaryOperator_safe hq ctx.host op (hleft.value hallowed.left.right) ?_ ?_ ?_
    · intro hop
      rw [hop] at hoperand
      exact hright.value hoperand
    · intro hop
      rw [hop] at hoperand
      exact hright.items hoperand
    · simpa using hown
  · rename_i htype
    rw [if_neg htype] at hown
    exact safe_typeError (hown _ (by simp)) (safe_pure (createFalse_tame hq ctx.host))

theorem unaryOp_treeSafe (type : ValueType) (op : Operator) (hsubject : TreeSafe P ctx subject) :
    TreeSafe P ctx (.unaryOp type op subject) := by
  refine composite_treeSafe rfl rfl rfl (fun hallowed => ?_) fun _ => safe_pure (by simp)
  unfold typeErrors at hallowed
  refine unaryEvaluate_safe hq ctx.host ctx.now op (hsubject.value hallowed.right) ?_
  simpa using hallowed.left

theorem unaryFun_treeSafe (type : ValueType) (name : String) {arguments : List (Node Obj)}
    (hfunction : ∀ fn, binding = .registered fn → ∀ obj v, Readable P v ∨ v.IsNothing →
      Safe P (Tame P) (fn obj v))
    (hsubject : TreeSafe P ctx subject) (harguments : ∀ n ∈ arguments, TreeSafe P ctx n) :
    TreeSafe P ctx (.unaryFun type name subject binding arguments) := by
  have hitems : Allowed P (subject.typeErrors ctx.host (functionReading binding)) →
      Subject P (subject.view ctx) ∨ (subject.view ctx).IsNothing := by
    intro hallowed
    cases binding with
    | neg => exact .inl (hsubject.items hallowed.of_value)
    | _ => exact hsubject.given hallowed
  refine composite_treeSafe rfl rfl rfl (fun hallowed => ?_) fun hallowed => ?_
  all_goals
    unfold typeErrors at hallowed
    have htame := viewList_tame harguments hallowed.right
  · refine functionEvaluate_safe hq ctx.host ctx.now ctx.object type name hfunction htame
      hallowed.left.left ?_ ((hitems hallowed.left.right).imp_left Subject.readable)
    rintro rfl
    exact hsubject.value hallowed.left.right
  · have hread : Safe P (fun items => ∀ w ∈ items, Tame P w) (subject.view ctx).getListValue := by
      rcases hitems hallowed.left.right with hsubject | hnothing
      · exact Safe.mono hsubject fun _ hw => hw.1
      · exact hnothing.items_safe
    refine .of_bind hread fun items hw => .of_mapList fun item hitem => ?_
    exact functionItem_safe hq ctx.host ctx.now ctx.object type name hfunction htame
      hallowed.left.left (hw item hitem)

variable {T : (View → Eval View) → Prop}
  (hT : ∀ fn, T fn → ∀ v, Readable P v ∨ v.IsNothing → Safe P (Tame P) (fn v))
include hT

/-- By induction over the tree, for all three ways of using a node at once: an operator asks one
of them of each operand. -/
theorem treeSafe (n : Node Obj) (hfunctions : n.FunctionsSatisfy T) : TreeSafe P ctx n := by
  induction n using treeInduction with
  | value type literal isUnsure =>
    refine ⟨fun _ => literalView_clean hq ctx.host 2 type literal isUnsure,
      fun _ => literalView_subject hq ctx.host 2 type literal isUnsure, fun _ => ?_⟩
    exact safe_pure (createFalse_tame hq ctx.host)
  | list type items ih =>
    unfold Node.FunctionsSatisfy at hfunctions
    exact list_treeSafe hq ctx type fun item hitem =>
      ih item hitem (hfunctions.of_mem hitem)
  | binaryOp type op left right ihl ihr =>
    unfold Node.FunctionsSatisfy at hfunctions
    exact binaryOp_treeSafe hq ctx type op (ihl hfunctions.1) (ihr hfunctions.2)
  | unaryOp type op subject ih =>
    unfold Node.FunctionsSatisfy at hfunctions
    exact unaryOp_treeSafe hq ctx type op (ih hfunctions)
  | unaryFun type name subject binding arguments ih iha =>
    unfold Node.FunctionsSatisfy at hfunctions
    exact unaryFun_treeSafe hq ctx type name (fun fn hfn obj => hT _ (hfunctions.1 fn hfn obj))
      (ih hfunctions.2.1) fun n hn => iha n hn (hfunctions.2.2.of_mem hn)
  | objectVariable type name accessor =>
    have hclean : Clean P (view ctx (.objectVariable type name accessor)) :=
      fun d => variableValue_safe hq ctx.host ctx.object type name accessor d.type
    refine ⟨fun _ => hclean, fun _ => noItems_subject hclean, fun _ => ?_⟩
    exact variableEvaluate_safe hq ctx.host ctx.object type name accessor
  | customFunction type name fn subject ih =>
    unfold Node.FunctionsSatisfy at hfunctions
    refine composite_treeSafe rfl rfl rfl (fun hallowed => ?_) fun _ => safe_pure (by simp)
    have hsubject := (ih hfunctions.2).given hallowed
    exact customEvaluate_safe hq ctx.host ctx.object type name
      (hT _ (hfunctions.1 _ _) _ (hsubject.imp_left Subject.readable))
  | summaryVariable type name accessor =>
    have hclean : Clean P (view ctx (.summaryVariable type name accessor : Node Obj)) :=
      fun d => summaryValue_safe hq ctx.summary name accessor d.type
    refine ⟨fun _ => hclean, fun _ => noItems_subject hclean, fun _ => ?_⟩
    cases accessor with
    | int fn => exact safe_pure (ofInt_tame hq ctx.host _ _)
    | string fn => exact safe_pure (ofString_tame hq ctx.host _ _)

end

end

/-! ## Evaluation -/

/-- The message is no type error, or one of these. -/
def Only (E : TypeError → Prop) (m : Message) : Prop := ∀ e, m = .typeError e → E e

variable {E : TypeError → Prop} {T : (View → Eval View) → Prop} {e : TypeError}

theorem Only.quiet : Quiet (Only E) := by
  refine ⟨?_, ?_⟩
  all_goals
    intro text e h
    cases h

theorem parserEvaluate_only (ctx : Context Obj) {root : Node Obj}
    (hT : ∀ fn, T fn → ∀ v, Readable (Only E) v ∨ v.IsNothing →
      Safe (Only E) (Tame (Only E)) (fn v))
    (hfunctions : root.FunctionsSatisfy T) (hE : ∀ e ∈ root.typeErrors ctx.host .value, E e) :
    Logs (Only E) (parserEvaluate ctx root) := by
  refine .of_catching ?_ fun e => safe_error Only.quiet _ (safe_pure trivial)
  have hallowed : Allowed (Only E) (root.typeErrors ctx.host .value) := by
    intro e he e' h
    cases h
    exact hE e he
  exact .of_bind ((treeSafe Only.quiet ctx hT root hfunctions).root hallowed) fun v hv =>
    hv.clean .int

/-- Every type error of an evaluation is in the list, or it comes from a function that was
called without arguments. -/
theorem parserEvaluate_typeErrors (ctx : Context Obj) (root : Node Obj)
    (htransparent : root.FunctionsTransparent) (he : .typeError e ∈ (parserEvaluate ctx root).log) :
    e ∈ root.typeErrors ctx.host .value ∨ e = .numberFromList := by
  refine (parserEvaluate_only ctx
    (E := fun e => e ∈ root.typeErrors ctx.host .value ∨ e = .numberFromList)
    (fun fn hfn v hv => hfn _ Only.quiet v (hv.elim id ?_)) htransparent
    fun e => .inl).log _ he e rfl
  rintro ⟨host, type, text, rfl⟩
  refine safe_pure ⟨by simp, fun _ d => listValue_safe Only.quiet host (by simp) ?_ d.type⟩
  intro e h
  cases h
  exact .inr rfl

/-! ## The errors of every evaluation -/

namespace Node

/-- The errors of the node an evaluation comes to first, among the root and the operands that
are read first. -/
def leadingErrors (host : Host) : Node Obj → List TypeError
  | binaryOp type op left right =>
    match binaryErrors host type op left right with
    | [] => leadingErrors host left
    | errors => errors
  | unaryOp _ .not subject =>
    match notErrors subject.type with
    | [] => leadingErrors host subject
    | errors => errors
  | unaryFun type name _ binding _ => functionErrors type name binding
  | _ => []

/-- One operator over a variable and a literal. -/
def overAtoms : Node Obj → Bool
  | binaryOp _ _ (objectVariable _ _ _) (value _ _ _) => true
  | _ => false

theorem errors_of_overAtoms (host : Host) {n : Node Obj} (h : n.overAtoms = true) :
    n.FunctionsSatisfy T ∧ n.typeErrors host .value = n.leadingErrors host := by
  unfold overAtoms at h
  split at h
  next =>
    refine ⟨⟨trivial, trivial⟩, ?_⟩
    simp only [typeErrors, leadingErrors, List.append_nil]
    split <;> simp_all
  next => cases h

end Node

section Leading

variable {host : Host} {left right : View} {op : Operator} {desc : String} {m : Message}

theorem mem_log_typeError {α : Type} (e : TypeError) (x : Eval α) :
    .typeError e ∈ (do typeError e; x).log :=
  mem_log_bind _ (mem_singleton_self _)

theorem simpleBoolEvaluate_log {evalIn : Domain → View → View → Eval ValueContainer} :
    (∀ e ∈ simpleBoolErrors left.type right.type,
        .typeError e ∈ (simpleBoolEvaluate host evalIn left right).log) ∧
      (simpleBoolErrors left.type right.type = [] → ∀ m, (∀ d, m ∈ (evalIn d left right).log) →
        m ∈ (simpleBoolEvaluate host evalIn left right).log) := by
  unfold simpleBoolErrors simpleBoolEvaluate
  split_ifs <;> simp_all [mem_log_typeError, mem_log_bind]

theorem patternEvaluate_log :
    (∀ e ∈ patternErrors desc left.type,
        .typeError e ∈ (patternEvaluate host op desc left right).log) ∧
      (patternErrors desc left.type = [] → ∀ m, (∀ d, m ∈ (evalPattern host op d left right).log) →
        m ∈ (patternEvaluate host op desc left right).log) := by
  unfold patternErrors patternEvaluate
  split_ifs <;> simp_all [mem_log_typeError, mem_log_bind]

theorem logicEvaluate_log {stop : Bool} :
    (∀ e ∈ logicErrors desc left.type right.type,
        .typeError e ∈ (logicEvaluate host stop desc left right).log) ∧
      (logicErrors desc left.type right.type = [] → ∀ m ∈ (evalLogic stop left right).log,
        m ∈ (logicEvaluate host stop desc left right).log) := by
  unfold logicErrors logicEvaluate
  split_ifs <;> simp_all [mem_log_typeError, mem_log_bind]

/-- A type error is found before any operand is read. -/
theorem mem_log_of_operatorErrors
    (he : e ∈ operatorErrors op (left.text ++ " " ++ op.text ++ " " ++ right.text) left.type
      right.type) : .typeError e ∈ (binaryOperator host op left right).log := by
  cases op
  case eq | ne | gt | lt | le | ge | «in» | nin => exact simpleBoolEvaluate_log.1 e he
  case like | notLike | regexp | notRegexp => exact patternEvaluate_log.1 e he
  case and | binand | or | binor => exact logicEvaluate_log.1 e he
  case inv | not =>
    rw [mem_singleton.mp he]
    exact mem_log_typeError _ _

/-- Without a type error the left operand is read, before the right one. -/
theorem mem_log_of_left
    (h : operatorErrors op (left.text ++ " " ++ op.text ++ " " ++ right.text) left.type
      right.type = []) (hm : ∀ type, m ∈ (left.getValue type).log) :
    m ∈ (binaryOperator host op left right).log := by
  cases op
  case eq | ne | gt | lt | le | ge | «in» | nin =>
    exact simpleBoolEvaluate_log.2 h m fun d => mem_log_bind _ (hm _)
  case like | notLike | regexp | notRegexp =>
    exact patternEvaluate_log.2 h m fun d => mem_log_bind _ (hm _)
  case and | binand | or | binor => exact logicEvaluate_log.2 h m (mem_log_bind _ (hm _))
  case inv | not => cases h

theorem mem_log_of_notErrors {now : ℤ} {type : ValueType} (he : e ∈ notErrors type) :
    .typeError e ∈ (operatorNot host now type left).log := by
  cases type <;> simp_all [notErrors, operatorNot, mem_log_typeError]

theorem mem_log_of_subject {now : ℤ} {type : ValueType} (h : notErrors type = [])
    (hm : m ∈ (left.getValue .int).log) : m ∈ (operatorNot host now type left).log := by
  cases type
  case bool | int | date => exact mem_log_bind _ hm
  all_goals simp [notErrors] at h

/-- An operator or a function is evaluated each time its value is read. -/
theorem mem_log_getValue {ctx : Context Obj} {n : Node Obj} (he : e ∈ n.leadingErrors ctx.host)
    (hm : m ∈ (n.evaluate ctx).log) (type : ValueType) : m ∈ ((n.view ctx).getValue type).log := by
  cases n with
  | binaryOp | unaryOp | unaryFun => exact mem_log_bind _ hm
  | _ => simp [leadingErrors] at he

/-- Nothing is read before the node, so no exception and no decided operand can keep an
evaluation from it. -/
theorem mem_log_of_leadingErrors (ctx : Context Obj) {n : Node Obj}
    (he : e ∈ n.leadingErrors ctx.host) : .typeError e ∈ (n.evaluate ctx).log := by
  induction n using treeInduction with
  | binaryOp type op left right ihl ihr =>
    simp only [evaluate, binaryEvaluate]
    unfold leadingErrors at he
    split at he
    next hnone =>
      -- the operator has no error of its own, and reads its left side first
      unfold binaryErrors at hnone
      split at hnone
      next htype =>
        rw [if_pos htype]
        refine mem_log_of_left (by simpa using hnone) fun type => ?_
        exact mem_log_getValue he (ihl he) type
      next => cases hnone
    next =>
      unfold binaryErrors at he
      split at he
      next htype =>
        rw [if_pos htype]
        exact mem_log_of_operatorErrors (by simpa using he)
      next htype =>
        rw [if_neg htype, mem_singleton.mp he]
        exact mem_log_typeError _ _
  | unaryOp type op subject ih =>
    cases op with
    | not =>
      change _ ∈ (operatorNot ctx.host ctx.now (view ctx subject).type (view ctx subject)).log
      rw [type_view]
      unfold leadingErrors at he
      split at he
      next hnone => exact mem_log_of_subject hnone (mem_log_getValue he (ih he) _)
      next => exact mem_log_of_notErrors he
    | _ => simp [leadingErrors] at he
  | unaryFun type name subject binding arguments ih iha =>
    simp only [leadingErrors] at he
    simp only [evaluate, functionEvaluate]
    cases binding with
    | unbound | undefined =>
      rw [mem_singleton.mp he]
      exact mem_log_typeError _ _
    | neg => exact mem_log_of_notErrors he
    | convert | registered => simp [functionErrors] at he
  | _ => simp [leadingErrors] at he

end Leading


end Nscp.Where
