import Nscp.Where.Sure
import Nscp.Where.Engine
import Nscp.Where.Parse

/-!
# Forced evaluation

When no row has matched, an expression is evaluated without a record.  Such a verdict
is sure or unsure; a sure one is meant to hold whatever the record is.  `forceSound` is
a condition on the tree under which it does: every value that depends on the record
reaches the root through operands that hand on the unsure flag.
-/

namespace Nscp.Where

open List Sample Bool Logged

variable {Obj : Type}

/-! ## Trees without a record -/

def Binding.isRegistered : Binding Obj → Bool
  | .registered _ => true
  | _ => false

namespace Node

mutual

/-- Nothing in the tree reads the record. -/
def closed : Node Obj → Bool
  | value _ _ _ => true
  | list _ items => closedList items
  | binaryOp _ _ left right => closed left && closed right
  | unaryOp _ _ subject => closed subject
  | unaryFun _ _ subject binding arguments =>
    !binding.isRegistered && closed subject && closedList arguments
  | objectVariable _ _ _ => false
  | customFunction _ _ _ _ => false
  | summaryVariable _ _ _ => true

def closedList : List (Node Obj) → Bool
  | [] => true
  | item :: items => closed item && closedList items

end

theorem closedList_eq_all (items : List (Node Obj)) : closedList items = items.all closed := by
  induction items with
  | nil => rfl
  | cons item items ih =>
    unfold closedList
    rw [ih, all_cons]

/-- The items of the list can be read, whatever they are compared with. -/
def readable (ctx : Context Obj) (n : Node Obj) : Bool :=
  (view ctx n).getListValue.result.toOption.any fun items => items.all fun v =>
    [Domain.int, .float, .string].all fun d => (v.getValue d.type).result.toBool

/-- The items up to the first that equals `lhs` do not read the record. -/
def closedUpTo (ctx : Context Obj) (d : Domain) (lhs : ValueContainer) : List (Node Obj) → Bool
  | [] => true
  | item :: items => closed item &&
    ((((view ctx item).getValue d.type).result.toOption.any fun c => itemEquals ctx.host d lhs c) ||
      closedUpTo ctx d lhs items)

/-- The items that are read without a record do not depend on it; a left operand that is
unsure makes the verdict unsure anyway. -/
def readsClosed (ctx : Context Obj) (left right : Node Obj) : Bool :=
  closed right ||
    match right, comparisonDomain left.type right.type with
    | list _ items, some d => ((view ctx left).getValue d.type).result.toOption.all fun lhs =>
        lhs.isUnsure || closedUpTo ctx d lhs items
    | _, _ => false

/-- The values `operator_not` cannot negate: the ends of a range. -/
def negatesRange (type : ValueType) : Bool := type == .int || type == .date

mutual

/-- Every operand that is read without a record, and depends on the record, hands on its
unsure flag; with `steady`, a record cannot make the node throw. -/
def tracks (ctx : Context Obj) (steady : Bool) : Node Obj → Bool
  | binaryOp type op left right =>
    closed (binaryOp type op left right) ||
      match op with
      | .eq | .ne | .gt | .lt | .le | .ge | .like | .notLike | .regexp | .notRegexp =>
        tracks ctx steady left && tracks ctx steady right
      | .and | .binand => (operandVerdict (view ctx left)).toOption.all fun lhs =>
          tracks ctx (steady || lhs.isUnsure) left && (lhs.stops false || tracks ctx steady right)
      | .or | .binor => (operandVerdict (view ctx left)).toOption.all fun lhs =>
          tracks ctx (steady || lhs.isUnsure) left && (lhs.stops true || tracks ctx steady right)
      | .in | .nin => tracks ctx steady left &&
          if steady then closed right && readable ctx right else readsClosed ctx left right
      | .inv | .not => true
  | unaryOp type op subject =>
    closed (unaryOp type op subject) ||
      match op with
      | .not => tracks ctx steady subject && !(steady && negatesRange subject.type)
      | _ => true
  | unaryFun type name subject binding arguments =>
    closed (unaryFun type name subject binding arguments) ||
      match binding with
      | .unbound | .undefined => true
      | .neg => tracks ctx steady subject && !(steady && negatesRange type)
      | .convert => tracksArguments ctx steady type arguments
      | .registered _ => false
  | objectVariable _ _ accessor => !steady || accessor.hasNumber
  | n => closed n

def tracksArguments (ctx : Context Obj) (steady : Bool) (type : ValueType) : List (Node Obj) → Bool
  | [] => true
  | v :: units =>
    match units with
    | [] => tracks ctx steady v
    | u :: _ => tracks ctx false v && closed u && !(steady && (type == .date || type == .size))

end

/-! ## A closed tree is the same tree for every record -/

variable {items : List (Node Obj)}

theorem viewList_congr {ctx ctx' : Context Obj}
    (h : ∀ item ∈ items, view ctx' item = view ctx item) :
    viewList ctx' items = viewList ctx items := by
  rw [viewList_eq_map, viewList_eq_map]
  exact map_congr_left h

variable (ctx : Context Obj) (object : Option Obj)

theorem view_of_closed (n : Node Obj) (h : closed n = true) :
    view (ctx.attach object) n = view ctx n := by
  induction n using treeInduction with
  | value type literal isUnsure => rfl
  | list type items ih =>
    unfold closed at h
    rw [closedList_eq_all, all_eq_true] at h
    unfold view
    rw [viewList_congr fun item hitem => ih item hitem (h item hitem)]
    rfl
  | binaryOp type op left right ihl ihr =>
    unfold closed at h
    rw [and_eq_true] at h
    unfold view
    rw [ihl h.1, ihr h.2]
    rfl
  | unaryOp type op subject ih =>
    unfold closed at h
    unfold view
    rw [ih h]
    rfl
  | unaryFun type name subject binding arguments ih iha =>
    unfold closed at h
    simp only [and_eq_true, closedList_eq_all, all_eq_true] at h
    obtain ⟨⟨hbinding, hsubject⟩, harguments⟩ := h
    unfold view
    rw [viewList_congr fun a ha => iha a ha (harguments a ha), ih hsubject]
    cases binding with
    | registered fn => cases hbinding
    | unbound | convert | neg | undefined => rfl
  | objectVariable | customFunction => cases h
  | summaryVariable type name accessor => rfl

theorem viewList_of_closed (items : List (Node Obj)) (h : closedList items = true) :
    viewList (ctx.attach object) items = viewList ctx items := by
  rw [closedList_eq_all, all_eq_true] at h
  exact viewList_congr fun item hitem => view_of_closed ctx object item (h item hitem)

theorem evaluate_of_closed (n : Node Obj) (h : closed n = true) :
    evaluate (ctx.attach object) n = evaluate ctx n := by
  induction n using treeInduction with
  | value type literal isUnsure => rfl
  | list type items ih =>
    unfold closed at h
    rw [closedList_eq_all, all_eq_true] at h
    have hitems : evaluateList (ctx.attach object) items = evaluateList ctx items := by
      clear type
      induction items with
      | nil => rfl
      | cons item items ihi =>
        unfold evaluateList
        rw [ih item (by simp) (h item (by simp)),
          ihi (fun a ha => ih a (by simp [ha])) fun a ha => h a (by simp [ha])]
    unfold evaluate
    rw [hitems]
    rfl
  | binaryOp type op left right ihl ihr =>
    unfold closed at h
    rw [and_eq_true] at h
    unfold evaluate
    rw [view_of_closed ctx object left h.1, view_of_closed ctx object right h.2]
    rfl
  | unaryOp type op subject ih =>
    unfold closed at h
    unfold evaluate
    rw [view_of_closed ctx object subject h]
    rfl
  | unaryFun type name subject binding arguments ih iha =>
    unfold closed at h
    simp only [and_eq_true] at h
    obtain ⟨⟨hbinding, hsubject⟩, harguments⟩ := h
    unfold evaluate
    rw [viewList_of_closed ctx object arguments harguments,
      view_of_closed ctx object subject hsubject]
    cases binding with
    | registered fn => cases hbinding
    | unbound | convert | neg | undefined => rfl
  | objectVariable | customFunction => cases h
  | summaryVariable type name accessor => rfl

mutual

/-- The accessors of the variables in a tree. -/
def accessors : Node Obj → List (Accessor Obj)
  | list _ items => accessorsList items
  | binaryOp _ _ left right => accessors left ++ accessors right
  | unaryOp _ _ subject => accessors subject
  | unaryFun _ _ subject _ arguments => accessors subject ++ accessorsList arguments
  | objectVariable _ _ accessor => [accessor]
  | customFunction _ _ _ subject => accessors subject
  | _ => []

def accessorsList : List (Node Obj) → List (Accessor Obj)
  | [] => []
  | item :: items => accessors item ++ accessorsList items

end

theorem accessors_subset_accessorsList {item : Node Obj} (h : item ∈ items) :
    accessors item ⊆ accessorsList items := by
  intro a ha
  induction items with
  | nil => simp at h
  | cons head tail ih =>
    unfold accessorsList
    rw [mem_append]
    rcases mem_cons.mp h with rfl | h
    · exact .inl ha
    · exact .inr (ih h)

end Node

/-! ## Closed nodes -/

section

variable {host : Host} {steady : Bool}

section

variable (host : Host) (literal : Literal) (isUnsure : Bool) (d : Domain)

theorem literalValue_ok :
    ∃ c, (literalValue host literal isUnsure d.type).result = .ok c ∧ c.isNoValue = false := by
  cases literal with
  | string v =>
    cases d with
    | int | float =>
      simp only [literalValue, Domain.type]
      split <;> exact ⟨_, rfl, rfl⟩
    | string => exact ⟨_, rfl, rfl⟩
  | int v => cases d <;> exact ⟨_, rfl, rfl⟩
  | float v => exact ⟨_, getValue_ofFloat host d v isUnsure, by cases d <;> rfl⟩

theorem literalValue_definite : Definite (literalValue host literal isUnsure d.type).result := by
  obtain ⟨c, hc, hvalue⟩ := literalValue_ok host literal isUnsure d
  intro c' hc'
  exact Except.ok.inj (hc.symm.trans hc') ▸ hvalue

end

theorem summaryValue_definite (summary : Summary) (name : String) (accessor : SummaryAccessor)
    (d : Domain) : Definite (summaryValue summary name accessor d.type).result := by
  intro c hc
  cases accessor <;> cases d <;> cases hc <;> rfl

theorem listValue_definite (host : Host) (items : List View) (d : Domain) :
    Definite (listValue host items d.type).result := by
  intro c hc
  cases d with
  | int | float =>
    cases hc
    rfl
  | string =>
    simp only [listValue, Domain.type, result_bind] at hc
    obtain ⟨text, -, hc⟩ := Fallible.bind_eq_ok hc
    cases hc
    rfl

def ArgumentsTrack (steady : Bool) (type : ValueType) : List View → List View → Prop
  | [], [] => True
  | [v], [w] => v.type = w.type ∧ ViewTracks steady v w
  | v :: u :: _, w :: u' :: _ => v.type = w.type ∧ ViewTracks false v w ∧ u = u' ∧
      (steady = true → ¬(type = .date ∨ type = .size))
  | _, _ => False

variable {arguments arguments' : List View} (now : ℤ)

theorem functionConvert_tracks (type : ValueType) (subject subject' : View)
    (h : ArgumentsTrack steady type arguments arguments') (d : Domain) : Tracks steady
      ((functionConvert host now type arguments subject).result.bind fun v =>
        (v.getValue d.type).result)
      ((functionConvert host now type arguments' subject').result.bind fun v =>
        (v.getValue d.type).result) := by
  match arguments, arguments', h with
  | [], [], _ => exact verdictView_tracks (verdictTracks_refl (.ok ⟨0, true⟩)) d
  | [v], [w], h => exact convertOne_tracks now type subject subject' d h.2 h.1
  | v :: u :: rest, w :: _ :: rest', ⟨htype, hv, rfl, hunit⟩ =>
    exact convertUnit_tracks now type u subject subject' rest rest' d hv htype hunit

def FunctionTracks (steady : Bool) (type : ValueType) (binding : Binding Obj)
    (arguments arguments' : List View) (subject subject' : View) : Prop :=
  match binding with
  | .unbound | .undefined => True
  | .neg => ViewTracks steady subject subject' ∧ (steady = true → type ≠ .int ∧ type ≠ .date)
  | .convert => ArgumentsTrack steady type arguments arguments'
  | .registered _ => False

variable {subject subject' : View}

theorem unaryFun_tracks (object object' : Option Obj) (type : ValueType)
    (name text text' : String) {binding : Binding Obj} (items items' : Eval (List View))
    (h : FunctionTracks steady type binding arguments arguments' subject subject') :
    ViewTracks steady
      (.composite type text
        (functionEvaluate host now object type name binding arguments subject) items)
      (.composite type text'
        (functionEvaluate host now object' type name binding arguments' subject') items') := by
  intro d
  rw [getValue_composite, getValue_composite]
  cases binding with
  | unbound | undefined => exact createFalse_tracks d
  | neg => exact operatorNot_tracks now type h.2 h.1 d
  | convert => exact functionConvert_tracks now type subject subject' h d
  | registered fn => exact h.elim

theorem unaryOp_tracks (type : ValueType) (op : Operator) (text text' : String)
    (items items' : Eval (List View)) (htype : subject.type = subject'.type)
    (h : op = .not → ViewTracks steady subject subject' ∧
      (steady = true → subject.type ≠ .int ∧ subject.type ≠ .date)) :
    ViewTracks steady (.composite type text (unaryEvaluate host now op subject) items)
      (.composite type text' (unaryEvaluate host now op subject') items') := by
  intro d
  rw [getValue_composite, getValue_composite]
  cases op
  case not =>
    obtain ⟨hsubject, hsteady⟩ := h rfl
    change Tracks steady
      ((operatorNot host now subject.type subject).result.bind _)
      ((operatorNot host now subject'.type subject').result.bind _)
    rw [← htype]
    exact operatorNot_tracks now subject.type hsteady hsubject d
  all_goals exact createFalse_tracks d

end

namespace Node

variable (ctx : Context Obj)

/-- A tree that reads no record is the same in both runs; what is left is that it yields no mark
of a missing number. -/
theorem viewTracks_of_closed (n : Node Obj) (h : closed n = true) (steady : Bool) :
    ViewTracks steady (view ctx n) (view ctx n) := by
  suffices hweak : ViewTracks false (view ctx n) (view ctx n) from
    fun d => .refl (hweak d).definite
  induction n using treeInduction with
  | value type literal isUnsure =>
    exact fun d => .refl (literalValue_definite ctx.host literal isUnsure d)
  | list type items ih => exact fun d => .refl (listValue_definite ctx.host _ d)
  | binaryOp type op left right ihl ihr =>
    unfold closed at h
    rw [and_eq_true] at h
    have hl : ∀ s, ViewTracks s (view ctx left) (view ctx left) :=
      fun s d => .refl (ihl h.1 d).definite
    have hr : ∀ s, ViewTracks s (view ctx right) (view ctx right) :=
      fun s d => .refl (ihr h.2 d).definite
    unfold view
    refine binaryOp_tracks type op _ _ _ _ rfl rfl ?_
    cases op
    case eq | ne | gt | lt | le | ge | like | notLike | regexp | notRegexp =>
      exact ⟨hl _, hr _⟩
    case and | binand | or | binor => exact fun lhs _ => ⟨hl _, fun _ => hr _⟩
    case «in» | nin => exact fun d _ => ⟨hl _, fun _ _ _ => rfl, nofun⟩
    case inv | not => trivial
  | unaryOp type op subject ih =>
    unfold closed at h
    unfold view
    exact unaryOp_tracks ctx.now type op _ _ _ _ rfl fun _ => ⟨ih h, nofun⟩
  | unaryFun type name subject binding arguments ih iha =>
    unfold closed at h
    simp only [and_eq_true, closedList_eq_all, all_eq_true] at h
    obtain ⟨⟨hbinding, hsubject⟩, harguments⟩ := h
    unfold view
    refine unaryFun_tracks ctx.now _ _ type name _ _ _ _ ?_
    cases binding with
    | unbound => trivial
    | undefined => trivial
    | neg => exact ⟨ih hsubject, nofun⟩
    | registered fn => cases hbinding
    | convert =>
      rw [viewList_eq_map]
      match arguments with
      | [] => trivial
      | [v] => exact ⟨rfl, iha v (by simp) (harguments v (by simp))⟩
      | v :: u :: rest =>
        exact ⟨rfl, iha v (by simp) (harguments v (by simp)), rfl, nofun⟩
  | objectVariable | customFunction => cases h
  | summaryVariable type name accessor =>
    exact fun d => .refl (summaryValue_definite ctx.summary name accessor d)

theorem searchList_of_readable {n : Node Obj} (h : readable ctx n = true) (d : Domain)
    (lhs : ValueContainer) : ∃ hit, searchList ctx.host d lhs (view ctx n) = .ok hit := by
  unfold readable at h
  unfold searchList
  cases hlist : (view ctx n).getListValue.result with
  | error e =>
    rw [hlist] at h
    cases h
  | ok items =>
    rw [hlist] at h
    rw [except_ok_bind]
    change items.all _ = true at h
    clear hlist
    induction items with
    | nil => exact ⟨false, rfl⟩
    | cons v items ih =>
      rw [all_cons, and_eq_true] at h
      obtain ⟨hit, hhit⟩ := ih h.2
      have hread : (v.getValue d.type).result.toBool = true :=
        all_eq_true.mp h.1 d (by cases d <;> simp)
      cases hv : (v.getValue d.type).result with
      | error e =>
        rw [hv] at hread
        cases hread
      | ok c =>
        rw [anyItem_cons_result, hv, except_ok_bind]
        split
        · exact ⟨true, rfl⟩
        · exact ⟨hit, hhit⟩

theorem anyItem_of_closedUpTo (object : Option Obj) {d : Domain} {lhs : ValueContainer}
    {items : List (Node Obj)} (h : closedUpTo ctx d lhs items = true) :
    (anyItem ctx.host d lhs (viewList (ctx.attach object) items)).result =
      (anyItem ctx.host d lhs (viewList ctx items)).result := by
  induction items with
  | nil => rfl
  | cons item items ih =>
    unfold closedUpTo at h
    obtain ⟨hitem, hrest⟩ := and_eq_true_iff.mp h
    unfold viewList
    rw [anyItem_cons_result, anyItem_cons_result, view_of_closed ctx object item hitem]
    cases hv : ((view ctx item).getValue d.type).result with
    | error e => rfl
    | ok c =>
      rw [hv] at hrest
      rw [except_ok_bind, except_ok_bind]
      split
      · rfl
      · rename_i hne
        exact ih ((or_eq_true_iff.mp hrest).resolve_left hne)

theorem searchList_of_readsClosed (object : Option Obj) {left right : Node Obj} {d : Domain}
    {lhs : ValueContainer} (h : readsClosed ctx left right = true)
    (hd : comparisonDomain left.type right.type = some d)
    (hlhs : ((view ctx left).getValue d.type).result = .ok lhs) (hsure : lhs.isUnsure = false) :
    searchList ctx.host d lhs (view (ctx.attach object) right) =
      searchList ctx.host d lhs (view ctx right) := by
  unfold readsClosed at h
  rcases or_eq_true_iff.mp h with h | h
  · rw [view_of_closed ctx object right h]
  rw [hd] at h
  cases right with
  | list type items =>
    change (((view ctx left).getValue d.type).result.toOption.all fun lhs =>
      lhs.isUnsure || closedUpTo ctx d lhs items) = true at h
    rw [hlhs] at h
    change (lhs.isUnsure || closedUpTo ctx d lhs items) = true at h
    rw [hsure, Bool.false_or] at h
    unfold view
    exact anyItem_of_closedUpTo ctx object h
  | _ => cases h

theorem not_negatesRange {steady : Bool} {type : ValueType}
    (h : (!(steady && negatesRange type)) = true) : steady = true → type ≠ .int ∧ type ≠ .date := by
  rintro rfl
  simp only [Bool.true_and, Bool.not_eq_true', negatesRange, Bool.or_eq_false_iff,
    beq_eq_false_iff_ne] at h
  exact h

theorem viewTracks_attach (n : Node Obj) (h : closed n = true) (object : Option Obj)
    (steady : Bool) : ViewTracks steady (view ctx n) (view (ctx.attach object) n) := by
  rw [view_of_closed ctx object n h]
  exact viewTracks_of_closed ctx n h steady

theorem logicTracks_of_all {steady stop : Bool} {left right left' right' : View}
    {tracksLeft : Bool → Bool} {tracksRight : Bool}
    (h : (operandVerdict left).toOption.all (fun lhs =>
      tracksLeft (steady || lhs.isUnsure) && (lhs.stops stop || tracksRight)) = true)
    (hl : ∀ s, tracksLeft s = true → ViewTracks s left left')
    (hr : tracksRight = true → ViewTracks steady right right') :
    LogicTracks steady stop left right left' right' := by
  intro lhs hlhs
  rw [hlhs] at h
  obtain ⟨h1, h2⟩ := and_eq_true_iff.mp h
  refine ⟨hl _ h1, fun hstop => hr ?_⟩
  rwa [hstop, Bool.false_or] at h2

/-- By induction over the tree, a record attached: a node that passes the check is read alike in
both runs, or its flag says that it was unsure. -/
theorem viewTracks_of_tracks (hforced : ctx.object = none) (obj : Obj) (n : Node Obj)
    (steady : Bool) (h : tracks ctx steady n = true)
    (hreturns : ∀ a ∈ accessors n, a.Returns obj) :
    ViewTracks steady (view ctx n) (view (ctx.attach (some obj)) n) := by
  induction n using treeInduction generalizing steady with
  | value | list | customFunction | summaryVariable => exact viewTracks_attach ctx _ h _ steady
  | objectVariable type name accessor =>
    intro d
    unfold view
    rw [hforced]
    refine variableValue_tracks type name obj d fun hs =>
      ⟨hreturns _ (by simp [accessors]), ?_⟩
    subst hs
    exact h
  | binaryOp type op left right ihl ihr =>
    unfold tracks at h
    rcases or_eq_true_iff.mp h with h | h
    · exact viewTracks_attach ctx _ h _ steady
    have hl : ∀ s, tracks ctx s left = true →
        ViewTracks s (view ctx left) (view (ctx.attach (some obj)) left) :=
      fun s hs => ihl s hs fun a ha => hreturns a (by simp [accessors, ha])
    have hr : ∀ s, tracks ctx s right = true →
        ViewTracks s (view ctx right) (view (ctx.attach (some obj)) right) :=
      fun s hs => ihr s hs fun a ha => hreturns a (by simp [accessors, ha])
    unfold view
    refine binaryOp_tracks type op _ _ _ _ (by simp) (by simp) ?_
    cases op
    case eq | ne | gt | lt | le | ge | like | notLike | regexp | notRegexp =>
      obtain ⟨h1, h2⟩ := and_eq_true_iff.mp h
      exact ⟨hl steady h1, hr steady h2⟩
    case and | binand | or | binor => exact logicTracks_of_all h hl (hr steady)
    case «in» | nin =>
      obtain ⟨h1, h2⟩ := and_eq_true_iff.mp h
      intro d hd
      rw [type_view, type_view] at hd
      refine ⟨hl steady h1, fun lhs hlhs hsure => ?_, ?_⟩
      · refine searchList_of_readsClosed ctx (some obj) ?_ hd hlhs hsure
        cases steady with
        | true => exact or_eq_true_iff.mpr (.inl (and_eq_true_iff.mp h2).1)
        | false => exact h2
      · rintro rfl lhs
        obtain ⟨hclosed, hreadable⟩ := and_eq_true_iff.mp h2
        rw [view_of_closed ctx (some obj) right hclosed]
        exact searchList_of_readable ctx hreadable d lhs
    case inv | not => trivial
  | unaryOp type op subject ih =>
    unfold tracks at h
    rcases or_eq_true_iff.mp h with h | h
    · exact viewTracks_attach ctx _ h _ steady
    unfold view
    refine unaryOp_tracks ctx.now type op _ _ _ _ (by simp) ?_
    rintro rfl
    obtain ⟨h1, h2⟩ := and_eq_true_iff.mp h
    refine ⟨ih steady h1 fun a ha => hreturns a (by simpa [accessors] using ha), ?_⟩
    rw [type_view]
    exact not_negatesRange h2
  | unaryFun type name subject binding arguments ih iha =>
    unfold tracks at h
    rcases or_eq_true_iff.mp h with h | h
    · exact viewTracks_attach ctx _ h _ steady
    unfold view
    refine unaryFun_tracks ctx.now _ _ type name _ _ _ _ ?_
    cases binding with
    | unbound => trivial
    | undefined => trivial
    | neg =>
      obtain ⟨h1, h2⟩ := and_eq_true_iff.mp h
      exact ⟨ih steady h1 fun a ha => hreturns a (by simp [accessors, ha]), not_negatesRange h2⟩
    | registered fn => cases h
    | convert =>
      have hargs : ∀ v ∈ arguments, ∀ a ∈ accessors v, a.Returns obj := fun v hv a ha =>
        hreturns a (by
          unfold accessors
          exact mem_append_right _ (accessors_subset_accessorsList hv ha))
      rw [viewList_eq_map, viewList_eq_map]
      match arguments with
      | [] => trivial
      | [v] => exact ⟨by simp, iha v (by simp) steady h (hargs v (by simp))⟩
      | v :: u :: rest =>
        obtain ⟨h1, h3⟩ := and_eq_true_iff.mp h
        obtain ⟨h1, h2⟩ := and_eq_true_iff.mp h1
        refine ⟨by simp, iha v (by simp) false h1 (hargs v (by simp)),
          (view_of_closed ctx (some obj) u h2).symm, ?_⟩
        rintro rfl
        simpa using h3

/-- A root whose forced verdict in the context can be trusted.  A variable on its own cannot:
`evaluate` of a variable without a record is a sure false. -/
def forceSound (ctx : Context Obj) (root : Node Obj) : Bool :=
  closed root || root.isOperator && tracks (ctx.attach none) false root

end Node

/-! ## Verdicts -/

theorem rootValue_tracks {ctx : Context Obj} {root : Node Obj} {obj : Obj}
    (h : root.forceSound ctx = true) (hreturns : ∀ a ∈ root.accessors, a.Returns obj)
    {c : ValueContainer} (hc : rootValue (ctx.attach none) root = .ok c)
    (hsure : c.isUnsure = false) : rootValue (ctx.attach (some obj)) root = .ok c := by
  rcases or_eq_true_iff.mp h with h | h
  · unfold rootValue at hc ⊢
    rw [Node.evaluate_of_closed ctx none root h] at hc
    rw [Node.evaluate_of_closed ctx (some obj) root h]
    exact hc
  obtain ⟨hoperator, htracks⟩ := and_eq_true_iff.mp h
  rw [rootValue_of_isOperator _ hoperator] at hc ⊢
  exact (Node.viewTracks_of_tracks (ctx.attach none) rfl obj root false htracks hreturns .int).sure
    c hc hsure

end Nscp.Where
