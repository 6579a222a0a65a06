import Nscp.Where.TypeErrors
import Nscp.Where.Inference

/-!
# Which functions are bound

`bind` visits operators and lists, but a function binds only itself, and a registered
function binds nothing.  A tree comes out of the parser and of inference with no
function bound; after `bind` every function is bound exactly when none stands below
another function.
-/

namespace Nscp.Where

open Binding Factory Node List Logged Peg Peg.Parser

variable {Obj : Type} {n root parsed : Node Obj}

def Binding.isBound : Binding Obj → Bool
  | .unbound => false
  | _ => true

namespace Node

mutual

def allBound : Node Obj → Bool
  | list _ items => allBoundList items
  | binaryOp _ _ left right => allBound left && allBound right
  | unaryOp _ _ subject => allBound subject
  | unaryFun _ _ subject binding arguments =>
    binding.isBound && allBound subject && allBoundList arguments
  | customFunction _ _ _ subject => allBound subject
  | _ => true

def allBoundList : List (Node Obj) → Bool
  | [] => true
  | item :: items => allBound item && allBoundList items

end

mutual

def Fresh : Node Obj → Prop
  | list _ items => FreshList items
  | binaryOp _ _ left right => Fresh left ∧ Fresh right
  | unaryOp _ _ subject => Fresh subject
  | unaryFun _ _ subject binding arguments => binding = .unbound ∧ arguments = [] ∧ Fresh subject
  | customFunction _ _ _ subject => Fresh subject
  | _ => True

def FreshList : List (Node Obj) → Prop
  | [] => True
  | item :: items => Fresh item ∧ FreshList items

end

mutual

def functionFree : Node Obj → Bool
  | list _ items => functionFreeList items
  | binaryOp _ _ left right => functionFree left && functionFree right
  | unaryOp _ _ subject => functionFree subject
  | unaryFun _ _ _ _ _ => false
  | customFunction _ _ _ subject => functionFree subject
  | _ => true

def functionFreeList : List (Node Obj) → Bool
  | [] => true
  | item :: items => functionFree item && functionFreeList items

end

mutual

/-- No conversion or negation stands below a function of any kind. -/
def functionsOnTop : Node Obj → Bool
  | list _ items => functionsOnTopList items
  | binaryOp _ _ left right => functionsOnTop left && functionsOnTop right
  | unaryOp _ _ subject => functionsOnTop subject
  | unaryFun _ _ subject _ _ => functionFree subject
  | customFunction _ _ _ subject => functionFree subject
  | _ => true

def functionsOnTopList : List (Node Obj) → Bool
  | [] => true
  | item :: items => functionsOnTop item && functionsOnTopList items

end

/-! ## Members of lists -/

variable {items : List (Node Obj)} (factory : Factory Obj) (n : Node Obj)

theorem freshList_iff : FreshList items ↔ ∀ n ∈ items, n.Fresh := by
  induction items with
  | nil => simp [FreshList]
  | cons item items ih => simp [FreshList, ih]

theorem allBoundList_iff : allBoundList items = true ↔ ∀ n ∈ items, n.allBound = true := by
  induction items with
  | nil => simp [allBoundList]
  | cons item items ih => simp [allBoundList, ih]

theorem functionFreeList_iff :
    functionFreeList items = true ↔ ∀ n ∈ items, n.functionFree = true := by
  induction items with
  | nil => simp [functionFreeList]
  | cons item items ih => simp [functionFreeList, ih]

theorem functionsOnTopList_iff :
    functionsOnTopList items = true ↔ ∀ n ∈ items, n.functionsOnTop = true := by
  induction items with
  | nil => simp [functionsOnTopList]
  | cons item items ih => simp [functionsOnTopList, ih]

theorem bindList_eq_map (items : List (Node Obj)) :
    bindList factory items = items.map (bind factory) := by
  induction items with
  | nil => rfl
  | cons item items ih =>
    unfold bindList
    rw [ih, map_cons]

/-! ## `bind` -/

theorem allBound_of_functionFree (h : n.functionFree = true) : n.allBound = true := by
  induction n using treeInduction with
  | list type items ih =>
    exact allBoundList_iff.mpr fun n hn => ih n hn (functionFreeList_iff.mp h n hn)
  | binaryOp type op left right ihl ihr =>
    simp only [functionFree, Bool.and_eq_true] at h
    simp [allBound, ihl h.1, ihr h.2]
  | unaryOp type op subject ih => exact ih h
  | unaryFun type name subject binding arguments ih iha => cases h
  | customFunction type name fn subject ih => exact ih h
  | _ => rfl

theorem functionFree_of_allBound (hfresh : n.Fresh) (h : n.allBound = true) :
    n.functionFree = true := by
  induction n using treeInduction with
  | list type items ih =>
    exact functionFreeList_iff.mpr fun n hn =>
      ih n hn (freshList_iff.mp hfresh n hn) (allBoundList_iff.mp h n hn)
  | binaryOp type op left right ihl ihr =>
    unfold Fresh at hfresh
    simp only [allBound, Bool.and_eq_true] at h
    simp [functionFree, ihl hfresh.1 h.1, ihr hfresh.2 h.2]
  | unaryOp type op subject ih | customFunction type name fn subject ih => exact ih hfresh h
  | unaryFun type name subject binding arguments ih iha =>
    unfold Fresh at hfresh
    rw [hfresh.1] at h
    simp [allBound, isBound] at h
  | _ => rfl

variable {subject : Node Obj}

theorem argumentNodes_functionFree (h : subject.functionFree = true) :
    ∀ n ∈ subject.argumentNodes, n.functionFree = true := by
  intro n hn
  cases subject with
  | value type literal isUnsure =>
    rw [mem_singleton.mp hn]
    rfl
  | list type items => exact functionFreeList_iff.mp h n hn
  | unaryFun type name subject binding arguments => cases h
  | _ => cases hn

theorem convertArguments_functionFree (h : subject.functionFree = true) :
    ∀ n ∈ subject.convertArguments, n.functionFree = true := by
  unfold convertArguments
  split
  · intro n hn
    rw [mem_singleton.mp hn]
    exact h
  · exact argumentNodes_functionFree h

theorem allBound_bindFunction (type : ValueType) (name : String) (hfresh : subject.Fresh) :
    (bindFunction factory type name subject).allBound = true ↔ subject.functionFree = true := by
  constructor
  · intro h
    refine functionFree_of_allBound subject hfresh ?_
    unfold bindFunction at h
    split at h
    · simp_all [allBound]
    split at h
    · simp_all [allBound]
    split at h
    all_goals simp_all [allBound]
  · intro h
    have hsubject := allBound_of_functionFree subject h
    have harguments : allBoundList subject.convertArguments = true :=
      allBoundList_iff.mpr fun n hn =>
        allBound_of_functionFree n (convertArguments_functionFree h n hn)
    unfold bindFunction
    split
    · simp [allBound, isBound, allBoundList, hsubject]
    split
    · simp [allBound, isBound, harguments, hsubject]
    split
    all_goals simp [allBound, isBound, allBoundList, hsubject]

theorem allBound_bind (hfresh : n.Fresh) :
    (n.bind factory).allBound = true ↔ n.functionsOnTop = true := by
  induction n using treeInduction with
  | list type items ih =>
    simp only [bind, allBound, functionsOnTop, bindList_eq_map, allBoundList_iff,
      functionsOnTopList_iff, forall_mem_map]
    exact forall₂_congr fun n hn => ih n hn (freshList_iff.mp hfresh n hn)
  | binaryOp type op left right ihl ihr =>
    unfold Fresh at hfresh
    simp [bind, allBound, functionsOnTop, ihl hfresh.1, ihr hfresh.2]
  | unaryOp type op subject ih => exact ih hfresh
  | unaryFun type name subject binding arguments ih iha =>
    unfold Fresh at hfresh
    exact allBound_bindFunction factory type name hfresh.2.2
  | customFunction type name fn subject ih =>
    exact ⟨functionFree_of_allBound subject hfresh, allBound_of_functionFree subject⟩
  | _ => exact Iff.rfl

end Node

/-! ## Inference binds nothing -/

theorem Node.fresh_setType (t : ValueType) (h : n.Fresh) : (n.setType t).Fresh := by
  cases n <;> exact h

theorem keptByConversion_fresh : KeptByConversion (Node.Fresh : Node Obj → Prop) := by
  intro n t h
  unfold addConvertNode
  split
  · exact h
  split
  · exact ⟨rfl, rfl, h⟩
  · exact fresh_setType t h

theorem inferNode_fresh {ask : Request Obj} (hask : Keeps ask Node.Fresh) (factory : Factory Obj)
    (suggestion : Option ValueType) (h : n.Fresh) :
    Returns (fun r => r.2.Fresh) (inferNode factory ask suggestion n) := by
  have hchildren : ∀ m ∈ n.children, m.Fresh := by
    cases n with
    | list type items => exact freshList_iff.mp h
    | binaryOp type op left right => simpa [children, Fresh] using h
    | unaryOp type op subject => simpa [children, Fresh] using h
    | _ => simp [children]
  refine (inferNode_rebuilt hask keptByConversion_fresh factory suggestion hchildren).mono
    fun r hr => ?_
  generalize r.2 = m at hr
  cases hr with
  | same => exact h
  | list hitems => exact freshList_iff.mpr hitems
  | binaryOp hl hr => exact ⟨hl, hr⟩
  | unaryOp hs => exact hs
  | value | object => trivial

theorem inferType_fresh (factory : Factory Obj) (fuel : ℕ) :
    Keeps (inferType factory fuel) Node.Fresh := by
  induction fuel with
  | zero => exact fun _ _ h => .of_pure h
  | succ fuel ih => exact fun suggestion _ h => inferNode_fresh ih factory suggestion h

/-! ## The parser binds nothing -/

namespace Grammar

variable {α : Type} {Q : α → Prop}

theorem token_yields {p : Rule α} (h : Yields Q p) : Yields Q (token p) :=
  .of_bind (.any skip) fun _ _ => h

theorem choice_yields {ps : List (Rule α)} (h : ps.Forall (Yields Q)) : Yields Q (choice ps) := by
  induction ps with
  | nil => exact .of_fail
  | cons p ps ih =>
    rw [forall_cons] at h
    exact .of_orElse h.1 (ih h.2)

theorem call_yields {x : Eval α} (h : Returns Q x) : Yields Q (call x) := by
  intro s
  unfold call
  refine ⟨fun _ _ => trivial, ?_⟩
  intro r hr
  split at hr
  · rename_i a ha
    cases hr
    exact h.result a ha
  · cases hr

variable (factory : Factory Obj) (name : String)

theorem createFun_fresh {subject : Node Obj} (h : subject.Fresh) :
    Returns Node.Fresh (factory.createFun name subject) := by
  unfold createFun
  split
  · exact .of_pure ⟨rfl, rfl, h⟩
  split
  · split
    · exact .of_pure h
    · exact .of_pure trivial
  · exact .of_bind (.of_tell trivial trivial : Safe _ (fun _ => True) _) fun _ _ =>
      .of_pure trivial

theorem createSummaryVariable_fresh : (createSummaryVariable name : Node Obj).Fresh := by
  unfold createSummaryVariable
  split <;> trivial

theorem registeredVariable_fresh {name : String} {var : FilterVariable Obj}
    (h : registeredVariable name var = some n) : n.Fresh := by
  unfold registeredVariable at h
  split at h <;> cases h <;> trivial

theorem createVariable_fresh : Returns Node.Fresh (factory.createVariable name) := by
  have hmissing : ∀ text, Returns Node.Fresh (do error text; return (.createFalse : Node Obj)) :=
    fun text => .of_bind (.of_tell trivial trivial : Safe _ (fun _ => True) _) fun _ _ =>
      .of_pure trivial
  unfold createVariable
  split
  · unfold createHandlerVariable
    dsimp only
    split
    · exact .of_pure (createSummaryVariable_fresh name)
    cases factory.filterVariables name with
    | some var =>
      cases hvar : registeredVariable name var with
      | none => simpa [hvar] using hmissing _
      | some n => simpa [hvar] using .of_pure (registeredVariable_fresh hvar)
    | none =>
      cases factory.humanVariables name with
      | some _ => exact hmissing _
      | none =>
        dsimp only
        split
        · exact .of_pure (createSummaryVariable_fresh name)
        · exact hmissing _
  · exact hmissing _

theorem listExpr_fresh {item : Rule (Node Obj)} (hitem : Yields Node.Fresh item) (level : ℕ) :
    Yields Node.Fresh (listExpr item level) := by
  refine .of_bind (.any _) fun _ _ => .of_bind hitem fun first hfirst => ?_
  refine .of_bind (Q := Node.FreshList) ?_ fun items hitems => .of_pure hitems
  refine .of_many (.of_bind (.any _) fun _ _ => hitem) ?_ ⟨hfirst, trivial⟩
  intro items n hitems hn
  rw [freshList_iff] at hitems ⊢
  intro m hm
  rcases mem_append.mp hm with hm | hm
  · exact hitems m hm
  · rw [mem_singleton.mp hm]
    exact hn

theorem identifierBody_fresh {arguments : Rule (Node Obj)}
    (harguments : Yields Node.Fresh arguments) :
    Yields Node.Fresh (identifierBody factory arguments) := by
  refine choice_yields ⟨?_, ?_, ?_, ?_, ?_, ?_, ?_, ?_, ?_⟩
  · exact .of_bind (.any _) fun _ _ => .of_bind (.any _) fun _ _ => .of_pure trivial
  · refine .of_bind (.any _) fun name _ => .of_bind (.any _) fun _ _ => ?_
    refine .of_bind harguments fun subject hsubject => .of_bind (.any _) fun _ _ => ?_
    exact call_yields (createFun_fresh factory name hsubject)
  · refine .of_bind (.any _) fun name _ => .of_bind (.any _) fun _ _ => ?_
    refine .of_bind (.any _) fun _ _ => ?_
    exact call_yields (createFun_fresh factory name trivial)
  · exact .of_bind (.any _) fun name _ => call_yields (createVariable_fresh factory name)
  · exact .of_bind (.any _) fun _ _ => .of_pure trivial
  · refine token_yields (.of_bind (.any _) fun _ _ => .of_bind (.any _) fun _ _ => ?_)
    exact .of_pure ⟨rfl, rfl, trivial, trivial, trivial⟩
  · refine token_yields (.of_bind (.any _) fun _ _ => .of_bind (.any _) fun _ _ => ?_)
    exact .of_pure ⟨rfl, rfl, trivial, trivial, trivial⟩
  all_goals exact token_yields (.of_bind (.any _) fun _ _ => .of_pure trivial)

theorem identifier_fresh (fuel level : ℕ) :
    Yields Node.Fresh (identifier factory fuel level) := by
  induction fuel generalizing level with
  | zero => exact .of_bind (.any _) fun _ _ => .of_fail
  | succ fuel ih => exact identifierBody_fresh factory (listExpr_fresh (ih (level + 1)) _)

theorem identifierExpr_fresh {ident : Rule (Node Obj)} (hident : Yields Node.Fresh ident) :
    Yields Node.Fresh (identifierExpr ident) := by
  refine choice_yields ⟨?_, ?_, hident⟩
  · refine .of_bind hident fun left hleft => .of_bind (.any _) fun _ _ => ?_
    exact .of_bind hident fun right hright => .of_pure ⟨hleft, hright⟩
  · refine .of_bind (.any _) fun _ _ => .of_bind hident fun left hleft => ?_
    refine .of_bind (.any _) fun _ _ => .of_bind hident fun right hright => ?_
    exact .of_bind (.any _) fun _ _ => .of_pure ⟨hleft, hright⟩

theorem condExpr_fresh {ident list nested : Rule (Node Obj)} (hident : Yields Node.Fresh ident)
    (hlist : Yields Node.Fresh list) (hnested : Yields Node.Fresh nested) :
    Yields Node.Fresh (condExpr ident list nested) := by
  have hoperand := identifierExpr_fresh hident
  refine choice_yields ⟨?compare, ?member, ?notMember, ?nested, hoperand⟩
  case compare =>
    refine .of_bind hoperand fun left hleft => .of_bind (.any _) fun _ _ => ?_
    exact .of_bind hoperand fun right hright => .of_pure ⟨hleft, hright⟩
  case member | notMember =>
    refine .of_bind hoperand fun left hleft => .of_bind (.any _) fun _ _ => ?_
    refine .of_bind (.any _) fun _ _ => .of_bind hlist fun right hright => ?_
    exact .of_bind (.any _) fun _ _ => .of_pure ⟨hleft, hright⟩
  case nested =>
    refine .of_bind (.any _) fun _ _ => .of_bind hnested fun n hn => ?_
    exact .of_bind (.any _) fun _ _ => .of_pure hn

theorem notExpr_fresh {cond : Rule (Node Obj)} (hcond : Yields Node.Fresh cond) :
    Yields Node.Fresh (notExpr cond) :=
  .of_orElse (.of_bind (.any _) fun _ _ => .of_bind hcond fun _ hn => .of_pure hn) hcond

theorem chain_fresh (keyword : String) (o : Operator) {operand : Rule (Node Obj)}
    (hoperand : Yields Node.Fresh operand) : Yields Node.Fresh (chain keyword o operand) := by
  refine .of_bind hoperand fun first hfirst => ?_
  exact .of_many (.of_bind (.any _) fun _ _ => hoperand) (fun _ _ hn hm => ⟨hn, hm⟩) hfirst

theorem expression_fresh (fuel level : ℕ) :
    Yields Node.Fresh (expression factory fuel level) := by
  induction fuel generalizing level with
  | zero => exact .of_bind (.any _) fun _ _ => .of_fail
  | succ fuel ih =>
    refine .of_bind (.any _) fun _ _ => chain_fresh _ _ (chain_fresh _ _ (notExpr_fresh ?_))
    exact condExpr_fresh (identifier_fresh factory _ _)
      (listExpr_fresh (identifier_fresh factory _ _) _) (ih (level + 1))

end Grammar

variable {expr : List Char} {factory : Factory Obj}

theorem parse_fresh (h : (parse factory expr).tree = some n) : n.Fresh := by
  have hrun : Safe (fun _ => True) (fun r : Node Obj × List Char => r.1.Fresh)
      (Grammar.run factory expr) :=
    Yields.of_bind (Grammar.expression_fresh factory _ 0)
      (fun _ hn => .of_bind (.any Grammar.skip) fun _ _ => .of_pure hn) expr
  unfold parse at h
  split at h
  · cases h
  split at h
  · cases h
  split at h
  · rename_i m trace heq
    cases h
    exact hrun.result (n, []) (by rw [heq])
  · cases h
  · cases h

/-! ## Validation -/

theorem validate_eq_some (h : validate factory expr = some root) :
    ∃ parsed, (parse factory expr).tree = some parsed ∧
      validateTree factory parsed = some root := by
  unfold validate at h
  split at h
  · rename_i parsed hparsed
    split at h
    · cases h
    · exact ⟨parsed, hparsed, h⟩
  · cases h

theorem validateTree_eq_some (h : validateTree factory parsed = some root) :
    ∃ type typed log, deriveTypes factory parsed = ⟨.ok (type, typed), log⟩ ∧
      root = typed.bind factory := by
  unfold validateTree at h
  split at h
  · rename_i type typed log heq
    split at h
    · cases h
    · cases h
      exact ⟨type, typed, log, heq, rfl⟩
  · cases h

/-! ## Bound functions are not missed -/

theorem missingBinding_not_mem_operatorErrors (name : String) (op : Operator) (desc : String)
    (left right : ValueType) : .missingBinding name ∉ operatorErrors op desc left right := by
  unfold operatorErrors simpleBoolErrors patternErrors logicErrors
  repeat' split
  all_goals simp

theorem missingBinding_not_mem_notErrors (name : String) (type : ValueType) :
    .missingBinding name ∉ notErrors type := by
  unfold notErrors
  split
  · simp
  · simp

theorem missingBinding_not_mem_listErrors {host : Host} {name : String}
    {items : List (Node Obj)}
    (h : ∀ n ∈ items, .missingBinding name ∉ n.typeErrors host .value) :
    .missingBinding name ∉ listErrors host items := by
  induction items with
  | nil => simp [listErrors]
  | cons item items ih =>
    simp only [listErrors, mem_append, not_or]
    exact ⟨h item (by simp), ih fun n hn => h n (mem_cons_of_mem _ hn)⟩

theorem missingBinding_not_mem_typeErrors (host : Host) (name : String) (reading : Reading)
    (n : Node Obj) (h : n.allBound = true) :
    .missingBinding name ∉ n.typeErrors host reading := by
  -- reading for the items records less than reading for the value
  suffices hvalue : .missingBinding name ∉ n.typeErrors host .value from
    fun he => hvalue (typeErrors_value he)
  induction n using treeInduction with
  | value type literal isUnsure | objectVariable type name accessor => simp [typeErrors]
  | list type items ih =>
    simp only [typeErrors, mem_cons, not_or]
    refine ⟨by simp, missingBinding_not_mem_listErrors fun n hn => ?_⟩
    exact ih n hn (allBoundList_iff.mp h n hn)
  | binaryOp type op left right ihl ihr =>
    simp only [allBound, Bool.and_eq_true] at h
    simp only [typeErrors, mem_append, not_or]
    refine ⟨⟨?_, ihl h.1⟩, ?_⟩
    · unfold binaryErrors
      split
      · exact missingBinding_not_mem_operatorErrors name op _ _ _
      · simp
    · split
      all_goals exact fun he => ihr h.2 (typeErrors_value he)
  | unaryOp type op subject ih =>
    simp only [typeErrors, mem_append, not_or]
    refine ⟨?_, ih h⟩
    unfold unaryErrors
    split
    · exact missingBinding_not_mem_notErrors name _
    all_goals simp
  | unaryFun type name' subject binding arguments ih iha =>
    simp only [allBound, Bool.and_eq_true] at h
    simp only [typeErrors, mem_append, not_or]
    refine ⟨⟨?_, ?_⟩, missingBinding_not_mem_listErrors fun n hn => ?_⟩
    · cases binding with
      | unbound => simp [isBound] at h
      | neg => exact missingBinding_not_mem_notErrors name type
      | _ => simp [functionErrors]
    · exact fun he => ih h.1.2 (typeErrors_value he)
    · exact iha n hn (allBoundList_iff.mp h.2 n hn)
  | customFunction type name fn subject ih =>
    exact fun he => ih h (typeErrors_value he)
  | summaryVariable type name accessor => simp [typeErrors]

/-- After a successful validation every function is bound exactly when inference left
none below another function, and then no evaluation falls back for want of a binding. -/
theorem validate_allBound_iff {factory : Factory Obj} {expr : List Char}
    {parsed typed root : Node Obj} {type : ValueType} {log : List Message}
    (hparse : (parse factory expr).tree = some parsed)
    (htypes : deriveTypes factory parsed = ⟨.ok (type, typed), log⟩)
    (hvalid : validate factory expr = some root) :
    (root.allBound = true ↔ typed.functionsOnTop = true) ∧
      (typed.functionsOnTop = true → root.FunctionsTransparent → ∀ ctx name,
        .typeError (.missingBinding name) ∉ (parserEvaluate ctx root).log) := by
  obtain ⟨parsed', hparsed', hroot⟩ := validate_eq_some hvalid
  obtain rfl : parsed = parsed' := Option.some.inj (hparse.symm.trans hparsed')
  obtain ⟨type', typed', log', htypes', rfl⟩ := validateTree_eq_some hroot
  rw [htypes] at htypes'
  cases htypes'
  have hfresh : typed.Fresh := by
    have h := inferType_fresh factory parsed.depth none parsed (parse_fresh hparse)
    exact h.result (type, typed) (by rw [← deriveTypes, htypes])
  have hiff := allBound_bind factory typed hfresh
  refine ⟨hiff, ?_⟩
  intro htop htransparent ctx name hmem
  rcases parserEvaluate_typeErrors ctx (typed.bind factory) htransparent hmem with herror | herror
  · exact missingBinding_not_mem_typeErrors ctx.host name .value _ (hiff.mpr htop) herror
  · cases herror

theorem validate_allBound_level :
    ∃ typed root : Node Sample.Row, validate Sample.factory "level > 5m".toList = some root ∧
      root.allBound = true ∧ typed.functionsOnTop = true := by
  have hbound : (validate Sample.factory "level > 5m".toList).any allBound = true := by
    decide +kernel
  obtain ⟨root, hroot, hall⟩ := (Option.any_eq_true _ _).mp hbound
  obtain ⟨parsed, hparsed, htree⟩ := validate_eq_some hroot
  obtain ⟨type, typed, log, htypes, -⟩ := validateTree_eq_some htree
  exact ⟨typed, root, hroot, hall, (validate_allBound_iff hparsed htypes hroot).1.mp hall⟩

/-- `first(5m) = 0`: the unit literal is the argument of a function, stays unbound and
is read as 0. -/
theorem validate_argument_unbound :
    (validate Sample.factory "first(5m) = 0".toList).map (fun root =>
      (root.allBound, (parserEvaluate (Sample.context none) root).log.any
        fun m => m == .typeError (.missingBinding "convert"),
        (parserEvaluate (Sample.context none) root).result.toOption.map
          ValueContainer.isTrue)) = some (false, true, some true) := by
  decide +kernel

end Nscp.Where
