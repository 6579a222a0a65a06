import Nscp.Where.Laws

/-!
# Lists of literals

`v in (l1, ..., ln)` is meant as short for `v = l1 or ... or v = ln`.  The list takes
its own way through inference: it is asked as a whole, a conversion wraps all of it, and
the bound conversion holds on to its first two items.  `agreedDomain` is the condition
under which both forms compare in one domain with the same values.
-/

namespace Nscp.Where

open Bool Literal Node ValueType List Logged

variable {Obj : Type}

/-! ## The two forms -/

def Literal.node (l : Literal) : Node Obj := .value l.type l false

def literalNodes (literals : List Literal) : List (Node Obj) := literals.map node

/-- `v in (l1, ..., ln)` and `v not in (l1, ..., ln)` as the parser builds them. -/
def membership (op : Operator) (v : Node Obj) (literals : List Literal) : Node Obj :=
  .createBinOp op v (.createList (literalNodes literals))

def equality (v : Node Obj) (l : Literal) : Node Obj := .createBinOp .eq v l.node

/-- `v = l1 or ... or v = ln`, joined to the left. -/
def chainedOr (v : Node Obj) (l : Literal) (ls : List Literal) : Node Obj :=
  ls.foldl (fun n l => .createBinOp .or n (equality v l)) (equality v l)

/-! ## Literals in a domain -/

def Literal.domain : Literal → Domain
  | .string _ => .string
  | .int _ => .int
  | .float _ => .float

theorem Literal.type_eq (l : Literal) : l.type = l.domain.type := by
  cases l <;> rfl

def Literal.fits (d : Domain) (l : Literal) : Bool :=
  l.domain == d || d == .float && l.domain == .int

def Accessor.takes (type : ValueType) (d : Domain) (accessor : Accessor Obj) : Bool :=
  type == d.type ||
    match accessor with
    | .int _ => type.isInt && d == .float
    | .dual _ _ _ _ => type == .multi
    | .optionalInt numericType _ _ => type == .multi && (d == .string || numericType == d.type)
    | _ => false

/-- The type of the variable next to an integer. -/
def Accessor.besideInt (type : ValueType) (accessor : Accessor Obj) : ValueType :=
  if type = .multi then suggestVariable .int .multi accessor else type

/-- The domain in which an integer is compared with a variable of another numeric type. -/
def numberDomain (t : ValueType) (accessor : Accessor Obj) : Option Domain :=
  match t with
  | .float => some .float
  | .bool | .size | .customInt _ => if suggestVariable .int t accessor = t then some .int else none
  | _ => none

/-- One integer is converted by itself, unless something else is registered for it. -/
def singleDomain (factory : Factory Obj) (type : ValueType) (accessor : Accessor Obj) :
    Option Domain :=
  if [accessor.besideInt type, .int, .tbd].any factory.canConvert then none
  else numberDomain (accessor.besideInt type) accessor

/-- The domain both forms compare in, if there is one. -/
def agreedDomain (factory : Factory Obj) (type : ValueType) (accessor : Accessor Obj)
    (l : Literal) (ls : List Literal) : Option Domain :=
  if ls.all fun m => m.domain == l.domain then
    if accessor.takes type l.domain then some l.domain
    else if l.domain == .int && ls.isEmpty then singleDomain factory type accessor
    else none
  else if type == .float && ((l :: ls).all fun m => m.domain != .string) &&
      !factory.canConvert .tbd then some .float
  else none

variable {accessor : Accessor Obj} {ls : List Literal} {d : Domain} {l : Literal}
  {type t : ValueType} {m : Literal} {factory : Factory Obj} {op : Operator}

theorem singleDomain_cases (h : singleDomain factory type accessor = some d) :
    ∃ t, accessor.besideInt type = t ∧ factory.converters t = none ∧
      factory.converters .int = none ∧ factory.converters .tbd = none ∧
      ((t = .float ∧ d = .float) ∨
        ((t = .bool ∨ t = .size ∨ ∃ n, t = .customInt n) ∧ d = .int ∧
          suggestVariable .int t accessor = t)) := by
  unfold singleDomain at h
  split_ifs at h with hany
  simp only [any_cons, any_nil, Factory.canConvert, Bool.or_false, Bool.not_eq_true,
    Bool.or_eq_false_iff, Option.isSome_eq_false_iff, Option.isNone_iff_eq_none] at hany
  refine ⟨_, rfl, hany.1, hany.2.1, hany.2.2, ?_⟩
  generalize accessor.besideInt type = t at h
  cases t
  case float =>
    cases h
    exact .inl ⟨rfl, rfl⟩
  case bool | size | customInt =>
    obtain ⟨hsuggest, h⟩ := Option.ite_none_right_eq_some.mp h
    cases h
    exact .inr ⟨by simp, rfl, hsuggest⟩
  all_goals cases h

theorem cases_of_agreedDomain (h : agreedDomain factory type accessor l ls = some d) :
    (accessor.takes type d = true ∧ ∀ m ∈ l :: ls, m.domain = d) ∨
      (singleDomain factory type accessor = some d ∧ (∃ v, l = .int v) ∧ ls = []) ∨
      (type = .float ∧ d = .float ∧ (∀ m ∈ l :: ls, m.fits .float = true) ∧
        (∃ m ∈ ls, m.domain ≠ l.domain) ∧ factory.converters .tbd = none) := by
  unfold agreedDomain at h
  split at h
  · rename_i hall
    rw [all_eq_true] at hall
    split at h
    · rename_i htakes
      cases h
      refine .inl ⟨htakes, ?_⟩
      intro m hm
      rcases mem_cons.mp hm with rfl | hm
      · rfl
      · exact beq_iff_eq.mp (hall m hm)
    split at h
    · rename_i hsingle
      simp only [and_eq_true, beq_iff_eq, List.isEmpty_iff] at hsingle
      refine .inr (.inl ⟨h, ?_, hsingle.2⟩)
      cases l with
      | int v => exact ⟨v, rfl⟩
      | string v | float v => cases hsingle.1
    · cases h
  · rename_i hdiffer
    split at h
    · rename_i hmixed
      cases h
      simp only [and_eq_true, beq_iff_eq, all_eq_true, bne_iff_ne, Bool.not_eq_true',
        Factory.canConvert, Option.isSome_eq_false_iff, Option.isNone_iff_eq_none] at hmixed
      refine .inr (.inr ⟨hmixed.1.1, rfl, fun m hm => ?_, by simpa using hdiffer, hmixed.2⟩)
      cases m with
      | string v => exact absurd rfl (hmixed.1.2 _ hm)
      | int v | float v => rfl
    · cases h

theorem fits_of_agreedDomain (h : agreedDomain factory type accessor l ls = some d) :
    ∀ m ∈ l :: ls, m.fits d = true := by
  rcases cases_of_agreedDomain h with ⟨-, hall⟩ | ⟨hsingle, ⟨v, rfl⟩, rfl⟩ | ⟨-, rfl, hall, -⟩
  · exact fun m hm => by simp [fits, hall m hm]
  · obtain ⟨t, -, -, -, -, ⟨-, rfl⟩ | ⟨-, rfl, -⟩⟩ := singleDomain_cases hsingle
    · exact fun m hm => mem_singleton.mp hm ▸ rfl
    · exact fun m hm => mem_singleton.mp hm ▸ rfl
  · exact hall

def Literal.reading (d : Domain) (l : Literal) : ValueContainer :=
  match d, l with
  | .int, .int v => .createInt v false
  | .float, .int v => .createFloat (Float.ofInt v) false
  | .float, .float v => .createFloat v false
  | .string, .string v => .createString v false
  | _, _ => .createNil

theorem literalValue_of_fits (host : Host) (h : l.fits d = true) :
    (literalValue host l false d.type).result = .ok (l.reading d) := by
  cases l <;> cases d <;> first | rfl | cases h

theorem reading_sure (h : l.fits d = true) :
    d.holds (l.reading d) = true ∧ (l.reading d).isNoValue = false ∧
      (l.reading d).isUnsure = false := by
  cases l <;> cases d <;> first | exact ⟨rfl, rfl, rfl⟩ | cases h

/-! ## Equality -/

theorem float_beq_comm (x y : Float) : (x == y) = (y == x) := by
  have hsymm : ∀ x y : Float, (x == y) = true → (y == x) = true := by
    simp only [Float.beq_iff_ne_nan_and_eq]
    rintro x y ⟨hx, hy, h | h | h⟩
    · exact ⟨hy, hx, .inl h.symm⟩
    · exact ⟨hy, hx, .inr (.inr h.symm)⟩
    · exact ⟨hy, hx, .inr (.inl h.symm)⟩
  exact eq_iff_iff.mpr ⟨hsymm x y, hsymm y x⟩

theorem compareValues_eq_itemEquals (host : Host) (d : Domain) (lhs c : ValueContainer) :
    compareValues host .eq d lhs c = itemEquals host d lhs c := by
  cases d with
  | int | string => exact beq_comm
  | float => exact float_beq_comm _ _

/-! ## Inference next to literals -/

section

variable {ask : Request Obj} {type : ValueType} {name : String} {accessor : Accessor Obj}
  {factory : Factory Obj} {op : Operator} {right right' : Node Obj}

structure AsksVariable (ask : Request Obj) (type : ValueType) (name : String)
    (accessor : Accessor Obj) : Prop where
  plain : ask none (.objectVariable type name accessor) =
    ⟨.ok (type, .objectVariable type name accessor), []⟩
  suggested : ∀ s, ask (some s) (.objectVariable type name accessor) =
    ⟨.ok (suggestVariable s type accessor,
      .objectVariable (suggestVariable s type accessor) name accessor), []⟩

theorem asksVariable_inferType (factory : Factory Obj) {fuel : ℕ} (h : 1 ≤ fuel) :
    AsksVariable (inferType factory fuel) type name accessor := by
  constructor
  · rw [inferType_fuel factory none (n := .objectVariable type name accessor) h le_rfl]
    rfl
  · intro s
    rw [inferType_fuel factory (some s) (n := .objectVariable type name accessor) h le_rfl]
    rfl

theorem inferBinaryType_takes (factory : Factory Obj) (op : Operator)
    (hv : AsksVariable ask type name accessor) (hr : ask none right = ⟨.ok (d.type, right'), []⟩)
    (htakes : accessor.takes type d = true) :
    inferBinaryType factory ask op (.objectVariable type name accessor) right =
      ⟨.ok (d.type, ⟨d.type, .objectVariable d.type name accessor, d.type, right'⟩), []⟩ := by
  have hd : d.type ≠ .multi := by cases d <;> nofun
  rcases or_eq_true_iff.mp htakes with htype | htakes
  · obtain rfl : type = d.type := beq_iff_eq.mp htype
    exact inferBinaryType_same factory op hv.plain hr hd
  cases accessor with
  | int fn =>
    obtain ⟨hint, hfloat⟩ := and_eq_true_iff.mp htakes
    obtain rfl : d = .float := beq_iff_eq.mp hfloat
    obtain ⟨hmulti, hstring, hnot⟩ : type ≠ .multi ∧ type ≠ .string ∧ type ≠ .float := by
      refine ⟨?_, ?_, ?_⟩ <;> rintro rfl <;> cases hint
    -- no text to settle; the integer side is offered the type of the other
    have htext : ∀ o : Operands Obj, o.leftType = type → o.rightType = .float →
        settleText ask op o = pure o := by
      intro o hl hr
      simp [settleText, hl, hr, hstring]
    have hnumbers : settleNumbers ask ⟨type, .objectVariable type name (.int fn), .float, right'⟩ =
        pure ⟨.float, .objectVariable .float name (.int fn), .float, right'⟩ := by
      have hf : float.isInt = false ∧ float.isFloat = true := ⟨rfl, rfl⟩
      simp [settleNumbers, offerRight, offerLeft, askLeft, hv.suggested, suggestVariable, hint, hf]
    simp only [Domain.type] at hr
    simp [inferBinaryType, hv.plain, hr, settleMulti, unlessSame, hmulti, hnot, htext, hnumbers,
      Domain.type]
  | dual fallback iFn fFn sFn =>
    obtain rfl : type = .multi := beq_iff_eq.mp htakes
    have htakes : suggestVariable d.type .multi (.dual fallback iFn fFn sFn) = d.type := by
      cases d <;> rfl
    simp [inferBinaryType, hv.plain, hr, hv.suggested, settleMulti, askLeft, unlessSame, htakes, hd]
  | optionalInt numericType noValue fn =>
    obtain ⟨htype, hnumeric⟩ := and_eq_true_iff.mp htakes
    obtain rfl : type = .multi := beq_iff_eq.mp htype
    have htakes : suggestVariable d.type .multi (.optionalInt numericType noValue fn) = d.type := by
      cases d with
      | string => rfl
      | int | float => exact beq_iff_eq.mp ((Bool.false_or _).symm.trans hnumeric)
    simp [inferBinaryType, hv.plain, hr, hv.suggested, settleMulti, askLeft, unlessSame, htakes, hd]
  | float fn => cases htakes
  | string fn => cases htakes

/-- A variable of another numeric type and an integer: the integer side is asked first. -/
theorem inferBinaryType_number (factory : Factory Obj) (op : Operator) {rt : ValueType}
    {widened : Node Obj} (hv : ∀ t, AsksVariable ask t name accessor)
    (hr : ask none right = ⟨.ok (.int, right'), []⟩)
    (ht : accessor.besideInt type = t) (hint : t ≠ .int) (hfloat : t.isFloat = true)
    (hw : ask (some t) right' = ⟨.ok (rt, widened), []⟩) :
    inferBinaryType factory ask op (.objectVariable type name accessor) right =
      offerLeft ask ⟨t, .objectVariable t name accessor, rt, widened⟩ >>= fun o =>
        unlessSame o (settleConversion factory op o) := by
  have hstring : t ≠ .string := by
    rintro rfl
    cases hfloat
  have hsettled : settleMulti ask ⟨type, .objectVariable type name accessor, .int, right'⟩ =
      pure ⟨t, .objectVariable t name accessor, .int, right'⟩ := by
    unfold Accessor.besideInt at ht
    by_cases hmulti : type = .multi
    · subst hmulti
      rw [if_pos rfl] at ht
      simp [settleMulti, askLeft, (hv .multi).suggested, ht]
    · rw [if_neg hmulti] at ht
      subst ht
      simp [settleMulti, hmulti]
  have hi : int.isInt = true := rfl
  simp [inferBinaryType, (hv type).plain, hr, hsettled, unlessSame, hint, settleText, hstring,
    settleNumbers, offerRight, askRight, hfloat, hi, hw]

theorem settleConversion_untyped {o : Operands Obj} (hconverters : factory.converters .tbd = none)
    (hl : o.leftType.isFloat = true) (hr : o.rightType = .tbd) :
    settleConversion factory op o = pure (convertRight o.leftType o) := by
  have hcan : canConvert .tbd o.leftType = true := by
    cases htype : o.leftType <;> simp_all [canConvert, ValueType.isFloat]
  have hvalid : o.leftType ≠ .invalid ∧ o.leftType ≠ .tbd := by
    constructor <;> intro htype <;> rw [htype] at hl <;> cases hl
  simp [settleConversion, hr, Factory.canConvert, hconverters, hcan, hvalid]

theorem inferBinaryType_untyped (hop : op.isComparison = false)
    (hconverters : factory.converters .tbd = none) (hv : AsksVariable ask .float name accessor)
    (hr : ask none right = ⟨.ok (.tbd, right), []⟩) :
    inferBinaryType factory ask op (.objectVariable .float name accessor) right =
      ⟨.ok (.float, ⟨.float, .objectVariable .float name accessor, .tbd,
        addConvertNode right .float⟩), []⟩ := by
  have hf : float.isInt = false ∧ tbd.isInt = false ∧ tbd.isFloat = false ∧
      float.isFloat = true := ⟨rfl, rfl, rfl, rfl⟩
  simp [inferBinaryType, hv.plain, hr, settleMulti, unlessSame, settleText, hop, settleNumbers,
    offerRight, offerLeft, hf, settleConversion_untyped hconverters, convertRight]

/-- A variable of another numeric type next to a list of integers: the list is converted as
a whole. -/
theorem inferBinaryType_converted {typed widened : Node Obj}
    (hconverters : factory.converters .tbd = none) (hv : ∀ t, AsksVariable ask t name accessor)
    (hr : ask none right = ⟨.ok (.int, typed), []⟩) (ht : accessor.besideInt type = t)
    (hint : t ≠ .int) (hfloat : t.isFloat = true)
    (hw : ask (some t) typed = ⟨.ok (.tbd, widened), []⟩) :
    inferBinaryType factory ask op (.objectVariable type name accessor) right =
      ⟨.ok (t, ⟨t, .objectVariable t name accessor, .tbd, addConvertNode widened t⟩), []⟩ := by
  have htbd : tbd.isFloat = false := rfl
  have hne : t ≠ .tbd := by
    rintro rfl
    cases hfloat
  rw [inferBinaryType_number factory op hv hr ht hint hfloat hw]
  simp [offerLeft, htbd, unlessSame, hne, settleConversion_untyped hconverters, hfloat,
    convertRight]

end

/-! ## Lists of literals -/

theorem depth_literalNodes (literals : List Literal) :
    depth (.createList (literalNodes literals) : Node Obj) ≤ 2 := by
  refine Nat.succ_le_succ (listDepth_le_iff.mpr ?_)
  intro n hn
  obtain ⟨l, -, rfl⟩ := mem_map.mp hn
  exact le_rfl

theorem inferType_literalNodes (factory : Factory Obj) {fuel : ℕ} (h : 2 ≤ fuel)
    (literals : List Literal) :
    inferType factory fuel none (.createList (literalNodes literals)) =
      ⟨.ok (listType (literals.map Literal.type),
        .list (listType (literals.map Literal.type)) (literalNodes literals)), []⟩ := by
  rw [inferType_fuel factory none ((depth_literalNodes literals).trans h)
    (depth_literalNodes literals)]
  have hasks : mapList (inferType factory 1 none) (literalNodes literals : List (Node Obj)) =
      pure ((literalNodes literals).map fun n => (n.type, n)) := by
    refine mapList_pure ?_
    intro n hn
    obtain ⟨l, -, rfl⟩ := mem_map.mp hn
    rfl
  have hfst : ((literalNodes literals : List (Node Obj)).map fun n => (n.type, n)).map Prod.fst =
      literals.map Literal.type := by
    simp only [literalNodes, map_map]
    rfl
  have hsnd : ((literalNodes literals : List (Node Obj)).map fun n => (n.type, n)).map Prod.snd =
      literalNodes literals := by
    simp [Function.comp_def]
  change inferNode factory (inferType factory 1) none (.list .tbd (literalNodes literals)) = _
  simp only [inferNode, hasks, pure_bind, hfst, hsnd]
  split
  · rfl
  · rename_i hshared
    rw [not_not.mp hshared]
    rfl

theorem Infers.of_settled {left right : Node Obj} {o : Operands Obj}
    (h : inferBinaryType factory (inferType factory (max left.depth right.depth)) op left right =
      ⟨.ok (t, o), []⟩)
    (hvalid : t ≠ .invalid) : Infers factory (.createBinOp op left right) (op.returnType t)
      (.binaryOp (op.returnType t) op (o.left.bind factory) (o.right.bind factory)) :=
  .of_inferBinaryType h rfl hvalid

theorem Domain.type_injective : Function.Injective Domain.type := by
  intro d d' h
  cases d <;> cases d' <;> first | rfl | cases h

theorem comparisonDomain_type (d : Domain) : comparisonDomain d.type d.type = some d := by
  cases d <;> rfl

def StandsFor (d : Domain) (name : String) (accessor : Accessor Obj) (n : Node Obj) : Prop :=
  ∀ ctx : Context Obj, ((n.view ctx).getValue d.type).result =
    (variableValue ctx.host ctx.object d.type name accessor d.type).result

theorem standsFor_variable (d : Domain) (name : String) (accessor : Accessor Obj) :
    StandsFor d name accessor (.objectVariable d.type name accessor) := by
  intro ctx
  unfold view
  rfl

/-- A variable that keeps its own integer type is read by the same accessor in each. -/
theorem standsFor_of_suggest (name : String) (hne : t ≠ .int)
    (h : suggestVariable .int t accessor = t) :
    StandsFor .int name accessor (.objectVariable t name accessor) := by
  intro ctx
  unfold view
  cases accessor with
  | int fn | float fn | string fn | optionalInt numericType noValue fn => rfl
  | dual fallback iFn fFn sFn => exact absurd h.symm hne

/-- The equality is validated to a comparison of the variable with the literal in `d`. -/
def ComparesIn (factory : Factory Obj) (d : Domain) (type : ValueType) (name : String)
    (accessor : Accessor Obj) (m : Literal) : Prop :=
  ∃ left right : Node Obj, comparisonDomain left.type right.type = some d ∧
    StandsFor d name accessor left ∧
    (∀ ctx, ((right.view ctx).getValue d.type).result = .ok (m.reading d)) ∧
    Infers factory (equality (.objectVariable type name accessor) m) .bool
      (.binaryOp .bool .eq left right)

theorem ComparesIn.of_plain {name : String} (hfits : m.fits d = true)
    (h : Infers factory (equality (.objectVariable type name accessor) m) .bool
      (.binaryOp .bool .eq (.objectVariable d.type name accessor) (.value d.type m false))) :
    ComparesIn factory d type name accessor m :=
  ⟨.objectVariable d.type name accessor, .value d.type m false, comparisonDomain_type d,
    standsFor_variable d name accessor, fun ctx => literalValue_of_fits ctx.host hfits, h⟩

theorem inferType_literal (factory : Factory Obj) (m : Literal) :
    inferType factory 1 none m.node = ⟨.ok (m.type, m.node), []⟩ := rfl

theorem equality_infers {name : String} {o : Operands Obj} (hvalid : t ≠ .invalid)
    (h : inferBinaryType factory (inferType factory 1) .eq (.objectVariable type name accessor)
      m.node = ⟨.ok (t, o), []⟩) :
    Infers factory (equality (.objectVariable type name accessor) m) .bool
      (.binaryOp .bool .eq (o.left.bind factory) (o.right.bind factory)) := by
  have hdepth : max (Node.objectVariable type name accessor).depth (m.node : Node Obj).depth = 1 :=
    rfl
  rw [← hdepth] at h
  exact .of_settled h hvalid

theorem comparesIn_takes (factory : Factory Obj) (name : String)
    (htakes : accessor.takes type d = true) (hm : m.domain = d) :
    ComparesIn factory d type name accessor m := by
  have htype : m.type = d.type := by rw [m.type_eq, hm]
  have hr := inferType_literal factory m
  have hvalid : d.type ≠ .invalid := by cases d <;> nofun
  rw [htype] at hr
  have hinfers := equality_infers hvalid (inferBinaryType_takes factory .eq
    (asksVariable_inferType factory le_rfl : AsksVariable _ type name accessor) hr htakes)
  rw [node, htype] at hinfers
  exact .of_plain (by simp [fits, hm]) hinfers

/-- An integer next to a float variable is widened. -/
theorem comparesIn_float (factory : Factory Obj) (name : String) (v : ℤ)
    (ht : accessor.besideInt type = .float) :
    ComparesIn factory .float type name accessor (.int v) := by
  have hv : ∀ t, AsksVariable (inferType factory 1) t name accessor :=
    fun t => asksVariable_inferType factory le_rfl
  have hfloat : ValueType.float ≠ .invalid := nofun
  exact .of_plain rfl (equality_infers hfloat
    (inferBinaryType_number factory .eq hv (inferType_literal factory (.int v)) ht nofun rfl rfl))

theorem bind_addConvertNode {n : Node Obj} (hne : n.type ≠ t) (htbd : n.type ≠ .tbd)
    (hown : factory.converters t = none) : (addConvertNode n t).bind factory =
      .unaryFun t "convert" n .convert n.convertArguments := by
  rw [addConvertNode, if_neg hne, if_pos htbd]
  change bindFunction factory t "convert" n = _
  simp [bindFunction, hown]

/-- Next to a bool or a size the integer is converted, next to a custom integer the
variable is; the conversion leaves what it reads. -/
theorem comparesIn_integer (name : String) (v : ℤ)
    (hinteger : t = .bool ∨ t = .size ∨ ∃ n, t = .customInt n)
    (ht : accessor.besideInt type = t) (hsuggest : suggestVariable .int t accessor = t)
    (hown : factory.converters t = none) (hint : factory.converters .int = none) :
    ComparesIn factory .int type name accessor (.int v) := by
  have hv : ∀ t, AsksVariable (inferType factory 1) t name accessor :=
    fun t => asksVariable_inferType factory le_rfl
  obtain ⟨hne, hvalid⟩ : t ≠ .int ∧ t ≠ .invalid := by
    rcases hinteger with rfl | rfl | ⟨n, rfl⟩ <;> simp
  have hnumbers : t.isInt = true ∧ t.isFloat = true ∧ ValueType.int.isFloat = true := by
    rcases hinteger with rfl | rfl | ⟨n, rfl⟩ <;> exact ⟨rfl, rfl, rfl⟩
  have hw : inferType factory 1 (some t) (.value .int (.int v) false) =
      ⟨.ok (.int, .value .int (.int v) false), []⟩ := by
    rcases hinteger with rfl | rfl | ⟨n, rfl⟩ <;> rfl
  have hsettled : inferBinaryType factory (inferType factory 1) .eq
      (.objectVariable type name accessor) (Literal.node (.int v)) =
      settleConversion factory .eq ⟨t, .objectVariable t name accessor, .int,
        Literal.node (.int v)⟩ := by
    rw [inferBinaryType_number factory .eq hv (inferType_literal factory (.int v)) ht hne
      hnumbers.2.1 hw]
    simp [offerLeft, askLeft, (hv t).suggested, hsuggest, hnumbers, unlessSame, hne]
    rfl
  have hplain : factory.canConvert t = false ∧ factory.canConvert .int = false := by
    simp [Factory.canConvert, hown, hint]
  have hstands := standsFor_of_suggest name hne hsuggest
  by_cases hcan : canConvert .int t = true
  · have hconversion : settleConversion factory .eq ⟨t, .objectVariable t name accessor, .int,
        Literal.node (.int v)⟩ = pure (convertRight t ⟨t, .objectVariable t name accessor, .int,
        Literal.node (.int v)⟩) := by
      rcases hinteger with rfl | rfl | ⟨n, rfl⟩ <;> simp_all [settleConversion]
    have hinfers := equality_infers hvalid (hsettled.trans hconversion)
    simp only at hinfers
    rw [bind_addConvertNode (n := Literal.node (.int v)) hne.symm
        (by simp [node, Node.type, Literal.type])
      hown] at hinfers
    refine ⟨_, _, ?_, hstands, ?_, hinfers⟩
    · exact if_pos (and_eq_true_iff.mpr ⟨hnumbers.1, hnumbers.1⟩)
    · rcases hinteger with rfl | rfl | ⟨n, rfl⟩ <;> exact fun ctx => rfl
  · obtain ⟨n, rfl⟩ : ∃ n, t = .customInt n := by
      rcases hinteger with rfl | rfl | h
      · exact absurd rfl hcan
      · exact absurd rfl hcan
      · exact h
    have hconversion : settleConversion factory .eq ⟨.customInt n, .objectVariable (.customInt n)
        name accessor, .int, Literal.node (.int v)⟩ = pure (convertLeft .int ⟨.customInt n,
        .objectVariable (.customInt n) name accessor, .int, Literal.node (.int v)⟩) := by
      simp_all [settleConversion, canConvert]
    have hint' : ValueType.int ≠ .invalid := by simp
    have hinfers := equality_infers hint' (hsettled.trans hconversion)
    simp only at hinfers
    rw [bind_addConvertNode (n := .objectVariable (.customInt n) name accessor) hne
      (by simp [Node.type]) hint] at hinfers
    refine ⟨_, _, rfl, ?_, ?_, hinfers⟩
    · exact fun ctx => hstands ctx
    · exact fun ctx => rfl

theorem comparesIn_of_agreedDomain (name : String)
    (h : agreedDomain factory type accessor l ls = some d) (hm : m ∈ l :: ls) :
    ComparesIn factory d type name accessor m := by
  rcases cases_of_agreedDomain h with ⟨htakes, hall⟩ | ⟨hsingle, ⟨v, rfl⟩, rfl⟩ |
    ⟨rfl, rfl, hall, -⟩
  · exact comparesIn_takes factory name htakes (hall m hm)
  · obtain rfl := mem_singleton.mp hm
    obtain ⟨t, ht, hown, hint, -, ⟨rfl, rfl⟩ | ⟨hinteger, rfl, hsuggest⟩⟩ :=
      singleDomain_cases hsingle
    · exact comparesIn_float factory name v ht
    · exact comparesIn_integer name v hinteger ht hsuggest hown hint
  · cases m with
    | string v => cases hall _ hm
    | float v => exact comparesIn_takes factory name rfl rfl
    | int v => exact comparesIn_float factory name v rfl

theorem listType_literals : listType ((l :: ls).map Literal.type) =
      if ∀ m ∈ ls, m.domain = l.domain then l.type else .tbd := by
  rw [map_cons, listType]
  refine if_congr ?_ rfl rfl
  simp [type_eq, Domain.type_injective.eq_iff]

theorem listType_same (h : ∀ m ∈ l :: ls, m.domain = d) :
    listType ((l :: ls).map Literal.type) = d.type := by
  obtain ⟨hl, hls⟩ := forall_mem_cons.mp h
  rw [listType_literals, if_pos fun m hm => (hls m hm).trans hl.symm, l.type_eq, hl]

theorem listType_mixed (h : ∃ m ∈ ls, m.domain ≠ l.domain) :
    listType ((l :: ls).map Literal.type) = .tbd := by
  obtain ⟨m, hm, hne⟩ := h
  rw [listType_literals, if_neg fun hsame => hne (hsame m hm)]

theorem bind_literalNodes (factory : Factory Obj) (t : ValueType) (literals : List Literal) :
    (list t (literalNodes literals)).bind factory = .list t (literalNodes literals) := by
  have hitems : bindList factory (literalNodes literals) = literalNodes literals := by
    induction literals with
    | nil => rfl
    | cons l ls ih => exact congrArg (l.node :: ·) ih
  unfold Node.bind
  rw [hitems]

def ListsLiterals (ctx : Context Obj) (d : Domain) (literals : List Literal) (n : Node Obj) :
    Prop :=
  ∃ items, (n.view ctx).getListValue.result = .ok items ∧
    items.map (fun v => (v.getValue d.type).result) = literals.map fun m => .ok (m.reading d)

variable {literals : List Literal} (ctx : Context Obj)

theorem listsLiterals_list (t : ValueType) (h : ∀ m ∈ literals, m.fits d = true) :
    ListsLiterals ctx d literals (.list t (literalNodes literals)) := by
  refine ⟨viewList ctx (literalNodes literals), rfl, ?_⟩
  rw [viewList_eq_map, literalNodes, map_map, map_map]
  refine map_congr_left fun m hm => ?_
  exact literalValue_of_fits ctx.host (h m hm)

/-- The list of one integer is converted as a whole; the conversion holds its item. -/
theorem membership_single {name : String} {v : ℤ} (hbool : ∀ t, op.returnType t = .bool)
    (h : singleDomain factory type accessor = some d) :
    ∃ left right : Node Obj, comparisonDomain left.type right.type = some d ∧
      StandsFor d name accessor left ∧ (∀ ctx, ListsLiterals ctx d [.int v] right) ∧
      Infers factory (membership op (.objectVariable type name accessor) [.int v]) .bool
        (.binaryOp .bool op left right) := by
  obtain ⟨t, ht, hown, -, htbd, hcases⟩ := singleDomain_cases h
  have hv : ∀ t, AsksVariable (inferType factory 2) t name accessor :=
    fun t => asksVariable_inferType factory one_le_two
  have hr : inferType factory 2 none (.createList (literalNodes [.int v]) : Node Obj) =
      ⟨.ok (.int, .list .int [.value .int (.int v) false]), []⟩ := rfl
  have hinfers {s : ValueType} (hint : t ≠ .int) (hfloat : t.isFloat = true)
      (hw : inferType factory 2 (some t) (.list .int [.value .int (.int v) false]) =
        ⟨.ok (.tbd, .list .int [.value s (.int v) false]), []⟩) :
      Infers factory (membership op (.objectVariable type name accessor) [.int v]) .bool
        (.binaryOp .bool op (.objectVariable t name accessor) (.unaryFun t "convert"
          (.list .int [.value s (.int v) false]) .convert [.value s (.int v) false])) := by
    have hvalid : t ≠ .invalid := by
      rintro rfl
      cases hfloat
    have hsettled : Infers factory
        (membership op (.objectVariable type name accessor) [.int v]) _ _ :=
      .of_settled (inferBinaryType_converted htbd hv hr ht hint hfloat hw) hvalid
    rw [hbool, bind_addConvertNode (n := .list .int [.value s (.int v) false]) hint.symm nofun hown]
      at hsettled
    exact hsettled
  rcases hcases with ⟨rfl, rfl⟩ | ⟨hinteger, rfl, hsuggest⟩
  · exact ⟨_, _, rfl, standsFor_variable .float name accessor, fun ctx => ⟨_, rfl, rfl⟩,
      hinfers nofun rfl rfl⟩
  · have hne : t ≠ .int := by
      rcases hinteger with rfl | rfl | ⟨n, rfl⟩ <;> nofun
    have hfloat : t.isFloat = true := by
      rcases hinteger with rfl | rfl | ⟨n, rfl⟩ <;> rfl
    have hw : inferType factory 2 (some t) (.list .int [.value .int (.int v) false]) =
        ⟨.ok (.tbd, .list .int [.value .int (.int v) false]), []⟩ := by
      rcases hinteger with rfl | rfl | ⟨n, rfl⟩ <;> rfl
    refine ⟨_, _, ?_, standsFor_of_suggest name hne hsuggest, ?_, hinfers hne hfloat hw⟩
    · rcases hinteger with rfl | rfl | ⟨n, rfl⟩ <;> rfl
    · rcases hinteger with rfl | rfl | ⟨n, rfl⟩ <;> exact fun ctx => ⟨_, rfl, rfl⟩

theorem membership_infers (name : String) (hcomparison : op.isComparison = false)
    (hbool : ∀ t, op.returnType t = .bool)
    (h : agreedDomain factory type accessor l ls = some d) :
    ∃ left right : Node Obj, comparisonDomain left.type right.type = some d ∧
      StandsFor d name accessor left ∧ (∀ ctx, ListsLiterals ctx d (l :: ls) right) ∧
      Infers factory (membership op (.objectVariable type name accessor) (l :: ls)) .bool
        (.binaryOp .bool op left right) := by
  have hfits := fits_of_agreedDomain h
  set v : Node Obj := .objectVariable type name accessor with hvdef
  set list : Node Obj := .createList (literalNodes (l :: ls)) with hlistdef
  have hdepth : 2 ≤ max v.depth list.depth := by
    refine le_max_of_le_right (Nat.succ_le_succ ?_)
    exact le_max_of_le_left (one_le_depth _)
  have hv : AsksVariable (inferType factory (max v.depth list.depth)) type name accessor :=
    asksVariable_inferType factory (le_trans one_le_two hdepth)
  have hlist := inferType_literalNodes factory hdepth (l :: ls)
  rcases cases_of_agreedDomain h with ⟨htakes, hall⟩ | ⟨hsingle, ⟨v, rfl⟩, rfl⟩ |
    ⟨htype, hd, hall, hmixed, htbd⟩
  · rw [listType_same hall] at hlist
    have hinfers := Infers.of_settled (inferBinaryType_takes factory op hv hlist htakes)
      (by cases d <;> nofun)
    rw [hbool, bind_literalNodes] at hinfers
    refine ⟨_, _, ?_, standsFor_variable d name accessor,
      fun ctx => listsLiterals_list ctx d.type hfits, hinfers⟩
    exact comparisonDomain_type d
  · exact membership_single hbool hsingle
  · rw [listType_mixed hmixed] at hlist
    subst htype hd
    have hinfers := Infers.of_settled (inferBinaryType_untyped hcomparison htbd hv hlist) nofun
    rw [hbool] at hinfers
    refine ⟨.objectVariable .float name accessor, .list .float (literalNodes (l :: ls)), rfl,
      standsFor_variable .float name accessor,
      fun ctx => listsLiterals_list ctx .float hfits, ?_⟩
    rw [← bind_literalNodes factory .float (l :: ls)]
    exact hinfers

/-! ## Verdicts -/

/-- The verdict on a variable read as `lhs`: unsure without a value of the domain, sure
false for a missing number, and else what the comparison found. -/
def membershipGuess (d : Domain) (lhs : ValueContainer) (hit : Bool) : Guess :=
  if !d.holds lhs then ⟨false, true⟩
  else if lhs.isNoValue then ⟨false, false⟩
  else ⟨hit, lhs.isUnsure⟩

theorem membershipGuess_or (d : Domain) (lhs : ValueContainer) (hit hit' : Bool) :
    (membershipGuess d lhs hit).or (membershipGuess d lhs hit') =
      membershipGuess d lhs (hit || hit') := by
  rw [Guess.or_of_unsure_eq]
  all_goals
    unfold membershipGuess
    split_ifs <;> rfl

theorem compareVerdict_reading (host : Host) (h : m.fits d = true) (lhs : ValueContainer) :
    compareVerdict host .eq d lhs (m.reading d) =
      .ofGuess (membershipGuess d lhs (itemEquals host d lhs (m.reading d))) := by
  obtain ⟨hholds, hvalue, hsure⟩ := reading_sure h
  unfold compareVerdict membershipGuess
  rw [hholds, hvalue, hsure, compareValues_eq_itemEquals, Bool.not_true, Bool.or_false,
    Bool.or_false, Bool.or_false]
  split
  · rfl
  split
  · rfl
  · rfl

theorem anyItem_readings (host : Host) (d : Domain) (lhs : ValueContainer) {items : List View}
    (h : items.map (fun v => (v.getValue d.type).result) =
      literals.map fun m => .ok (m.reading d)) :
    (anyItem host d lhs items).result =
      .ok (literals.any fun m => itemEquals host d lhs (m.reading d)) := by
  induction literals generalizing items with
  | nil =>
    rw [map_nil, map_eq_nil_iff] at h
    rw [h]
    rfl
  | cons m ms ih =>
    cases items with
    | nil => cases h
    | cons item items =>
      rw [map_cons, map_cons, List.cons.injEq] at h
      rw [anyItem_cons_result, h.1, except_ok_bind, ih h.2, any_cons]
      cases itemEquals host d lhs (m.reading d) <;> rfl

theorem variableValue_total (type : ValueType) (name : String) (accessor : Accessor Obj)
    (d : Domain) :
    ∃ lhs, (variableValue ctx.host ctx.object type name accessor d.type).result = .ok lhs := by
  cases ctx.object with
  | none => exact ⟨_, variableValue_none type name accessor d⟩
  | some obj => exact variableValue_ok ctx.host type name accessor d obj

section

variable {factory : Factory Obj} {ctx : Context Obj} {type : ValueType} {name : String}
  {accessor : Accessor Obj} {l : Literal} {ls : List Literal} {d : Domain} {lhs : ValueContainer}
  (h : agreedDomain factory type accessor l ls = some d)
  (hlhs : (variableValue ctx.host ctx.object d.type name accessor d.type).result = .ok lhs)

include h hlhs

theorem equality_means (hm : m ∈ l :: ls) :
    Means factory ctx (equality (.objectVariable type name accessor) m)
      (membershipGuess d lhs (itemEquals ctx.host d lhs (m.reading d))) := by
  obtain ⟨left, right, hdomain, hleft, hright, hinfers⟩ := comparesIn_of_agreedDomain name h hm
  refine ⟨_, hinfers, rfl, getValue_binaryOp rfl ?_⟩
  rw [← compareVerdict_reading ctx.host (fits_of_agreedDomain h m hm)]
  unfold binaryContainer
  simp only [type_view, hdomain]
  rw [evalCompare_result, hleft ctx, hlhs, except_ok_bind, hright ctx, except_ok_map]

theorem chainedOr_means :
    Means factory ctx (chainedOr (.objectVariable type name accessor) l ls)
      (membershipGuess d lhs ((l :: ls).any fun m => itemEquals ctx.host d lhs (m.reading d))) := by
  -- the chain grows to the right of what has been joined so far
  have hfold : ∀ (rest : List Literal) (n : Node Obj) (hit : Bool), (∀ m ∈ rest, m ∈ l :: ls) →
      Means factory ctx n (membershipGuess d lhs hit) →
      Means factory ctx
        (rest.foldl (fun n m => .createBinOp .or n
          (equality (.objectVariable type name accessor) m)) n)
        (membershipGuess d lhs
          (hit || rest.any fun m => itemEquals ctx.host d lhs (m.reading d))) := by
    intro rest
    induction rest with
    | nil =>
      intro n hit _ hn
      simpa using hn
    | cons m rest ih =>
      intro n hit hrest hn
      have hstep := hn.or (equality_means h hlhs (hrest m (by simp)))
      rw [membershipGuess_or] at hstep
      rw [foldl_cons, any_cons, ← Bool.or_assoc]
      exact ih _ _ (fun k hk => hrest k (mem_cons_of_mem m hk)) hstep
  rw [any_cons]
  exact hfold ls _ _ (fun m hm => mem_cons_of_mem l hm) (equality_means h hlhs (by simp))

theorem membership_means (found : Bool) :
    Means factory ctx
      (membership (if found then .in else .nin) (.objectVariable type name accessor) (l :: ls))
      (membershipGuess d lhs
        ((l :: ls).any (fun m => itemEquals ctx.host d lhs (m.reading d)) == found)) := by
  obtain ⟨left, right, hdomain, hleft, hlists, hinfers⟩ := membership_infers name
    (show (if found then Operator.in else .nin).isComparison = false by cases found <;> rfl)
    (by cases found <;> exact fun _ => rfl) h
  obtain ⟨items, hitems, hreadings⟩ := hlists ctx
  refine ⟨_, hinfers, rfl, getValue_binaryOp rfl ?_⟩
  have heval : (evalIn ctx.host found d (left.view ctx) (right.view ctx)).result =
      .ok (Verdict.ofGuess (membershipGuess d lhs
        ((l :: ls).any (fun m => itemEquals ctx.host d lhs (m.reading d)) ==
          found))).container := by
    rw [evalIn_result, hleft ctx, hlhs, except_ok_bind, hitems, except_ok_bind,
      anyItem_readings ctx.host d lhs hreadings, except_ok_map]
    unfold membershipGuess
    split
    · rfl
    split
    · rfl
    · cases (l :: ls).any fun m => itemEquals ctx.host d lhs (m.reading d) <;> cases found <;> rfl
  rw [← type_view ctx left, ← type_view ctx right] at hdomain
  cases found with
  | true =>
    simp only [if_true, binaryContainer, hdomain]
    exact heval
  | false =>
    simp only [false_eq_true, if_false, binaryContainer, hdomain]
    exact heval

end

/-- The variable has a number or text of the domain on the record. -/
def HasValue (ctx : Context Obj) (d : Domain) (name : String) (accessor : Accessor Obj) : Prop :=
  ∃ lhs, (variableValue ctx.host ctx.object d.type name accessor d.type).result = .ok lhs ∧
    d.holds lhs = true ∧ lhs.isNoValue = false

end Nscp.Where
