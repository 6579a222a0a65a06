import Nscp.Library.Guess
import Nscp.Where.Forced
import Nscp.Where.Inference

/-!
# Boolean laws

`and`, `or` and `not` compute with integers: any non-zero operand counts as true, the
verdict at the top is true for one only, and `not` of an integer is its negative.  On
operands inferred as bool the three are the connectives of `Guess`, and a verdict of an
operator is zero or one, so the laws of `Guess` are laws of the language there.
-/

namespace Nscp.Where

open Node Number Sample Verdict Logged

variable {Obj : Type} {op : Operator}

/-! ## Verdicts as guesses -/

namespace Verdict

def guess (v : Verdict) : Guess := ⟨decide (v.value ≠ 0), v.isUnsure⟩

def ofGuess (g : Guess) : Verdict := .ofBool g.truth g.unsure

@[simp] theorem guess_ofGuess (g : Guess) : (ofGuess g).guess = g := by
  obtain ⟨t, u⟩ := g
  cases t <;> rfl

end Verdict

theorem logicVerdict_eq (stop : Bool) (lhs rhs : Verdict) :
    logicVerdict stop lhs rhs = .ofGuess (.combine lhs.guess rhs.guess stop) := by
  have hstops : ∀ v : Verdict, v.stops stop = v.guess.sureIs stop := by
    intro v
    simp only [stops, guess, Guess.sureIs]
    cases decide (v.value ≠ 0) <;> cases stop <;> rfl
  unfold logicVerdict Guess.combine
  rw [hstops, hstops]
  split
  · rfl
  · rfl

def Operator.stop : Operator → Option Bool
  | and | binand => some false
  | or | binor => some true
  | _ => none

theorem binaryContainer_logic {host : Host} {stop : Bool} {left right : View}
    (h : op.stop = some stop) : binaryContainer host op left right =
      if left.type.isInt && right.type.isInt then (evalLogic stop left right).result
      else .ok (.createInt 0 false) := by
  cases op <;> cases h <;> rfl

/-! ## Reading operands -/

def Reads (ctx : Context Obj) (root : Node Obj) (v : Verdict) : Prop :=
  ∃ c, ((root.view ctx).getValue .int).result = .ok c ∧ c.isInt = true ∧
    v = ⟨c.getIntD 0, c.isUnsure⟩

variable {ctx : Context Obj} {root a b : Node Obj} {v : Verdict} {factory : Factory Obj}
  {c : ValueContainer}

theorem Reads.operandVerdict (h : Reads ctx root v) : operandVerdict (root.view ctx) = .ok v := by
  obtain ⟨c, hc, hint, rfl⟩ := h
  have hnumber : c.isNumber = true := by simp [ValueContainer.isNumber, hint]
  unfold Where.operandVerdict
  rw [hc, except_ok_bind, getInt_result, if_pos hnumber, except_ok_map]

theorem Reads.of_view (h : ((root.view ctx).getValue .int).result = .ok v.container) :
    Reads ctx root v :=
  ⟨v.container, h, rfl, rfl⟩

/-- The verdict at the top of an expression: only one counts as true. -/
def Verdict.judgement (v : Verdict) : ForceMatchResult := ⟨v.value == 1, v.isUnsure⟩

theorem filterMatchForce_of_view (hoperator : root.isOperator = true)
    (h : ((root.view ctx).getValue .int).result = .ok v.container) :
    filterMatchForce ctx root = v.judgement := by
  unfold filterMatchForce
  rw [verdictValue_eq, rootValue_of_isOperator ctx hoperator, h]
  rfl

section

variable {ctx : Context Obj} {l r : Node Obj} {u v : Verdict} {type : ValueType}

theorem getValue_binaryOp (htype : type.isInt = true)
    (h : binaryContainer ctx.host op (l.view ctx) (r.view ctx) = .ok v.container) :
    (((binaryOp type op l r).view ctx).getValue .int).result = .ok v.container := by
  unfold Node.view
  rw [getValue_composite, binaryEvaluate_result, binaryValue, htype, Bool.true_or, if_pos rfl, h]
  rfl

theorem getValue_logic {stop : Bool} (hop : op.stop = some stop) (htype : type.isInt = true)
    (hlt : l.type.isInt = true) (hrt : r.type.isInt = true) (hl : Reads ctx l u)
    (hr : Reads ctx r v) : (((binaryOp type op l r).view ctx).getValue .int).result =
      .ok (logicVerdict stop u v).container := by
  refine getValue_binaryOp htype ?_
  rw [binaryContainer_logic hop, type_view, type_view, hlt, hrt, Bool.true_and,
    if_pos rfl, evalLogic_result, hl.operandVerdict, except_ok_bind]
  split
  · rename_i hstops
    simp [logicVerdict, hstops]
  · rw [hr.operandVerdict, except_ok_map]

theorem getValue_not_of_verdict {c : ValueContainer}
    (hc : ((l.view ctx).getValue .int).result = .ok c) (hnegates : negates l.type = true)
    (hnot : notVerdict ctx.now l.type c = .ok v) :
    (((unaryOp .bool .not l).view ctx).getValue .int).result = .ok v.container := by
  unfold Node.view
  rw [getValue_composite]
  change ((operatorNot ctx.host ctx.now (l.view ctx).type (l.view ctx)).result.bind _) = _
  rw [operatorNot_result, type_view, if_pos hnegates, hc, except_ok_bind, hnot]
  rfl

theorem getValue_not (hl : Reads ctx l u) (htype : l.type = .bool) :
    (((unaryOp .bool .not l).view ctx).getValue .int).result =
      .ok (ofGuess u.guess.not).container := by
  obtain ⟨c, hc, hint, rfl⟩ := hl
  refine getValue_not_of_verdict hc (htype ▸ rfl) ?_
  simp only [htype, notVerdict, hint, guess, ofGuess, Guess.not, ofBool]
  by_cases hzero : c.getIntD 0 = 0 <;> simp [hzero]

/-- What `not` makes of an operand of the type that reads as `x`. -/
def negated (now : ℤ) (type : ValueType) (x : Verdict) : Verdict :=
  match type with
  | .bool => ofGuess x.guess.not
  | .int => ⟨-x.value, x.isUnsure⟩
  | .date => ⟨2 * now - x.value, x.isUnsure⟩
  | _ => ⟨0, true⟩

def Negatable (now : ℤ) (type : ValueType) (x : Verdict) : Prop :=
  match type with
  | .int => x.value ≠ Number.int64Min
  | .date => ∃ date, reflectedDate now x.value = .ok date
  | _ => True

theorem addChecked_eq {m n k : ℤ} {what : String} (h : addChecked m n what = .ok k) :
    k = m + n := by
  unfold addChecked at h
  split_ifs at h
  cases h
  rfl

theorem reflectedDate_eq {now date d : ℤ} (h : reflectedDate now date = .ok d) :
    d = 2 * now - date := by
  obtain ⟨twice, htwice, h⟩ := Fallible.bind_eq_ok h
  obtain ⟨negative, hnegative, h⟩ := Fallible.bind_eq_ok h
  unfold negateChecked at hnegative
  split_ifs at hnegative
  cases hnegative
  rw [addChecked_eq h, addChecked_eq htwice]
  ring

theorem getValue_negated (hl : l.type.isInt = true → Reads ctx l u)
    (hfits : Negatable ctx.now l.type u) :
    (((unaryOp .bool .not l).view ctx).getValue .int).result =
      .ok (negated ctx.now l.type u).container := by
  by_cases hnegates : negates l.type = true
  · have hint : l.type.isInt = true := by
      cases htype : l.type <;> simp_all [negates, ValueType.isInt]
    obtain ⟨c, hc, hcint, rfl⟩ := hl hint
    cases htype : l.type with
    | bool => exact getValue_not ⟨c, hc, hcint, rfl⟩ htype
    | int =>
      rw [htype] at hfits
      refine getValue_not_of_verdict hc hnegates ?_
      simp only [htype, notVerdict, hcint, Bool.not_true, Bool.false_eq_true, if_false]
      exact if_neg hfits
    | date =>
      rw [htype] at hfits
      obtain ⟨date, hdate⟩ := hfits
      refine getValue_not_of_verdict hc hnegates ?_
      simp only [htype, notVerdict, hcint, Bool.not_true, Bool.false_eq_true, if_false]
      change reflectedDate ctx.now (c.getIntD 0) = _ at hdate
      rw [hdate, reflectedDate_eq hdate]
      rfl
    | _ => simp [htype, negates] at hnegates
  · have hzero : negated ctx.now l.type u = ⟨0, true⟩ := by
      cases htype : l.type <;> simp_all [negates, negated]
    unfold Node.view
    rw [getValue_composite]
    change ((operatorNot ctx.host ctx.now (l.view ctx).type (l.view ctx)).result.bind _) = _
    rw [operatorNot_result, type_view, if_neg hnegates, hzero]
    rfl

end

/-! ## Verdicts of compound expressions -/

section

variable (factory : Factory Obj) (ctx : Context Obj) (n : Node Obj)

/-- The verdict of a parsed expression, if it validates. -/
def judged : Option ForceMatchResult :=
  (validateTree factory n).map (filterMatchForce ctx)

/-- The expression is inferred as bool and evaluates to the truth value `g`. -/
def Means (g : Guess) : Prop :=
  ∃ root, Infers factory n .bool root ∧ root.isOperator = true ∧
    ((root.view ctx).getValue .int).result = .ok (ofGuess g).container

end

section

variable {factory : Factory Obj} {ctx : Context Obj} {a b ra rb : Node Obj} {g h : Guess}
  {t : ValueType} {x y : Verdict} {stop : Bool}

theorem Means.judged_eq (ha : Means factory ctx a g) :
    judged factory ctx a = some (ofGuess g).judgement := by
  obtain ⟨root, hinfers, hoperator, hvalue⟩ := ha
  rw [judged, hinfers.validateTree, Option.map_some, filterMatchForce_of_view hoperator hvalue]

@[simp] theorem judgement_ofGuess (g : Guess) : (ofGuess g).judgement = ⟨g.truth, g.unsure⟩ := by
  obtain ⟨t, u⟩ := g
  cases t <;> rfl

/-- Two operands of one type, lists included, are joined as they are. -/
theorem Infers.joined (hbool : ∀ s, op.returnType s = .bool) (ha : Infers factory a t ra)
    (hb : Infers factory b t rb) (hvalid : t ≠ .invalid) :
    Infers factory (.createBinOp op a b) .bool (.binaryOp .bool op ra rb) := by
  by_cases hmulti : t = .multi
  · subst hmulti
    obtain ⟨typeda, loga, hderivea, hloga, rfl⟩ := ha.derived
    obtain ⟨typedb, logb, hderiveb, hlogb, rfl⟩ := hb.derived
    have haska := inferType_eq_deriveTypes factory (le_max_left a.depth b.depth)
    have haskb := inferType_eq_deriveTypes factory (le_max_right a.depth b.depth)
    have hboth : inferBinaryType factory (inferType factory (max a.depth b.depth)) op a b =
        ⟨.ok (.tbd, ⟨.multi, typeda, .multi, typedb⟩), logb ++ loga⟩ := by
      simp [inferBinaryType, haska.trans hderivea, haskb.trans hderiveb]
    have hinfers := Infers.of_inferBinaryType hboth (by simp [hloga, hlogb]) (by simp)
    rwa [hbool] at hinfers
  · have hinfers := ha.binaryOp op hb hmulti hvalid
    rwa [hbool] at hinfers

theorem Means.of_reads (hop : op.stop = some stop) (hbool : ∀ s, op.returnType s = .bool)
    (ha : Infers factory a t ra) (hb : Infers factory b t rb) (ht : t.isInt = true)
    (hx : Reads ctx ra x) (hy : Reads ctx rb y) :
    Means factory ctx (.createBinOp op a b) (.combine x.guess y.guess stop) := by
  have hvalid : t ≠ .invalid := by
    rintro rfl
    cases ht
  refine ⟨_, ha.joined hbool hb hvalid, rfl, ?_⟩
  rw [getValue_logic hop rfl (ha.type ▸ ht) (hb.type ▸ ht) hx hy, logicVerdict_eq]

/-- Operands that are not integers are joined to a sure false. -/
theorem Means.of_not_isInt (hop : op.stop = some stop) (hbool : ∀ s, op.returnType s = .bool)
    (ha : Infers factory a t ra) (hb : Infers factory b t rb) (ht : t.isInt = false)
    (hvalid : t ≠ .invalid) : Means factory ctx (.createBinOp op a b) ⟨false, false⟩ := by
  refine ⟨_, ha.joined hbool hb hvalid, rfl, getValue_binaryOp rfl ?_⟩
  rw [binaryContainer_logic hop, type_view, ha.type, ht]
  rfl

theorem Means.reads (ha : Means factory ctx a g) :
    ∃ root, Infers factory a .bool root ∧ Reads ctx root (ofGuess g) := by
  obtain ⟨root, hinfers, -, hvalue⟩ := ha
  exact ⟨root, hinfers, .of_view hvalue⟩

theorem Means.or (ha : Means factory ctx a g) (hb : Means factory ctx b h) :
    Means factory ctx (.createBinOp .or a b) (g.or h) := by
  obtain ⟨ra, hia, hva⟩ := ha.reads
  obtain ⟨rb, hib, hvb⟩ := hb.reads
  simpa [Guess.or] using Means.of_reads rfl (fun _ => rfl) hia hib rfl hva hvb

theorem Means.not_of_reads (ha : Infers factory a .bool ra) (hx : Reads ctx ra x) :
    Means factory ctx (.createUnOp .not a) x.guess.not :=
  ⟨.unaryOp .bool .not ra, ha.not nofun, rfl, getValue_not hx ha.type⟩

theorem Means.not (ha : Means factory ctx a g) :
    Means factory ctx (.createUnOp .not a) g.not := by
  obtain ⟨root, hinfers, hvalue⟩ := ha.reads
  simpa using Means.not_of_reads hinfers hvalue

end

/-! ## The laws -/

/-- The laws of Boolean algebra a filter may rely on, for one record and summary. -/
structure BooleanLaws (factory : Factory Obj) (ctx : Context Obj) (a b : Node Obj) : Prop where
  and_comm : judged factory ctx (.createBinOp .and a b) = judged factory ctx (.createBinOp .and b a)
  or_comm : judged factory ctx (.createBinOp .or a b) = judged factory ctx (.createBinOp .or b a)
  and_self : judged factory ctx (.createBinOp .and a a) = judged factory ctx a
  or_self : judged factory ctx (.createBinOp .or a a) = judged factory ctx a
  not_and : judged factory ctx (.createUnOp .not (.createBinOp .and a b)) =
    judged factory ctx (.createBinOp .or (.createUnOp .not a) (.createUnOp .not b))
  not_not : judged factory ctx (.createUnOp .not (.createUnOp .not a)) = judged factory ctx a

/-- The expression validates as `root`, which evaluates without an exception: read as an
operand it gives `x`, and its negative fits. -/
structure Operand (factory : Factory Obj) (ctx : Context Obj) (n root : Node Obj) (x : Verdict) :
    Prop where
  infers : Infers factory n root.type root
  valid : root.type ≠ .invalid
  reads : root.type.isInt = true → Reads ctx root x
  negatable : Negatable ctx.now root.type x

/-- The operand on its own is judged as `and` and `or` count it, and `not` turns it over:
what that takes depends on its type.  An integer has its negative for `not`, which counts
as the integer does; a size has the guess false, whatever it is. -/
def ActsAsTruth (ctx : Context Obj) (root : Node Obj) (x : Verdict) : Prop :=
  filterMatchForce ctx root = ⟨decide (x.value ≠ 0), x.isUnsure⟩ ∧
    match root.type with
    | .bool => True
    | .date => 2 * ctx.now - x.value = 0 ↔ x.value ≠ 0
    | .size | .customInt _ => x.value ≠ 0 ∧ x.isUnsure = true
    | _ => False

section

variable {a b ra rb : Node Obj} {x y : Verdict}

theorem actsAsTruth_iff : ActsAsTruth ctx root x ↔
    root.type.isInt = true ∧ filterMatchForce ctx root = ⟨x.guess.truth, x.guess.unsure⟩ ∧
      (negated ctx.now root.type x).guess = x.guess.not := by
  have htruth : x.guess.truth = decide (x.value ≠ 0) := rfl
  have hunsure : x.guess.unsure = x.isUnsure := rfl
  unfold ActsAsTruth
  rw [htruth, hunsure]
  cases root.type
  case bool => simp [ValueType.isInt, negated]
  case date =>
    by_cases hnow : 2 * ctx.now - x.value = 0 <;> by_cases hzero : x.value = 0 <;>
      simp [ValueType.isInt, negated, guess, Guess.not, hnow, hzero]
  case size | customInt =>
    by_cases hzero : x.value = 0 <;> cases hunsure : x.isUnsure <;>
      simp [ValueType.isInt, negated, guess, Guess.not, hzero, hunsure]
  case int => simp [ValueType.isInt, negated, guess, Guess.not]
  all_goals simp [ValueType.isInt]

namespace Operand

theorem judged_eq (ha : Operand factory ctx a ra x) :
    judged factory ctx a = some (filterMatchForce ctx ra) := by
  rw [judged, ha.infers.validateTree, Option.map_some]

theorem not_reads (ha : Operand factory ctx a ra x) :
    Reads ctx (.unaryOp .bool .not ra) (negated ctx.now ra.type x) :=
  .of_view (getValue_negated ha.reads ha.negatable)

theorem not_not (ha : Operand factory ctx a ra x) :
    Means factory ctx (.createUnOp .not (.createUnOp .not a))
      (negated ctx.now ra.type x).guess.not :=
  .not_of_reads (ha.infers.not ha.valid) ha.not_reads

/-- A type that is no integer is joined with itself to a sure false, and negated twice to
a guess; so an operand that keeps both laws is read as an integer. -/
theorem isInt_of_laws (ha : Operand factory ctx a ra x) (hlaws : BooleanLaws factory ctx a b) :
    ra.type.isInt = true := by
  by_contra hint
  have hself : Means factory ctx (.createBinOp .and a a) ⟨false, false⟩ :=
    .of_not_isInt rfl (fun _ => rfl) ha.infers ha.infers (by simpa using hint) ha.valid
  have hguess : negated ctx.now ra.type x = ⟨0, true⟩ := by
    cases htype : ra.type <;> simp_all [negated, ValueType.isInt]
  have h := hlaws.not_not.trans hlaws.and_self.symm
  rw [ha.not_not.judged_eq, hself.judged_eq, hguess] at h
  cases h

theorem actsAsTruth (ha : Operand factory ctx a ra x) (hlaws : BooleanLaws factory ctx a b) :
    ActsAsTruth ctx ra x := by
  have hint := ha.isInt_of_laws hlaws
  have hself : Means factory ctx (.createBinOp .and a a) _ :=
    .of_reads rfl (fun _ => rfl) ha.infers ha.infers hint (ha.reads hint) (ha.reads hint)
  have htop := hlaws.and_self
  rw [hself.judged_eq, Guess.combine_self, ha.judged_eq, judgement_ofGuess,
    Option.some_inj] at htop
  have hnot := hlaws.not_not
  rw [ha.not_not.judged_eq, ha.judged_eq, ← htop, judgement_ofGuess, Option.some_inj] at hnot
  refine actsAsTruth_iff.mpr ⟨hint, htop.symm, ?_⟩
  have hturned : (negated ctx.now ra.type x).guess.not = x.guess := by
    cases hx : x.guess
    cases hn : (negated ctx.now ra.type x).guess.not
    simpa [hx, hn] using hnot
  rw [← hturned, Guess.not_not]

/-- The laws of `Guess` are laws of the language on operands that act as truth values. -/
theorem booleanLaws (ha : Operand factory ctx a ra x) (hb : Operand factory ctx b rb y)
    (hsame : ra.type = rb.type) (hta : ActsAsTruth ctx ra x) (htb : ActsAsTruth ctx rb y) :
    BooleanLaws factory ctx a b := by
  obtain ⟨hint, htop, hnot⟩ := actsAsTruth_iff.mp hta
  obtain ⟨hintb, -, hnotb⟩ := actsAsTruth_iff.mp htb
  have hib : Infers factory b ra.type rb := hsame ▸ hb.infers
  have hra := ha.reads hint
  have hrb := hb.reads hintb
  have hand : ∀ s, Operator.returnType .and s = .bool := fun _ => rfl
  have hor : ∀ s, Operator.returnType .or s = .bool := fun _ => rfl
  have hjudged : judged factory ctx a = some (ofGuess x.guess).judgement := by
    rw [ha.judged_eq, htop, judgement_ofGuess]
  have hboth := Means.of_reads rfl hand ha.infers hib hint hra hrb
  constructor
  · rw [hboth.judged_eq, (Means.of_reads rfl hand hib ha.infers hint hrb hra).judged_eq,
      Guess.combine_comm]
  · rw [(Means.of_reads rfl hor ha.infers hib hint hra hrb).judged_eq,
      (Means.of_reads rfl hor hib ha.infers hint hrb hra).judged_eq, Guess.combine_comm]
  · rw [(Means.of_reads rfl hand ha.infers ha.infers hint hra hra).judged_eq,
      Guess.combine_self, hjudged]
  · rw [(Means.of_reads rfl hor ha.infers ha.infers hint hra hra).judged_eq,
      Guess.combine_self, hjudged]
  · rw [hboth.not.judged_eq, (Means.of_reads rfl hor (ha.infers.not ha.valid)
      (hb.infers.not hb.valid) rfl ha.not_reads hb.not_reads).judged_eq, hnot, hnotb,
      Guess.not_combine]
    rfl
  · rw [ha.not_not.judged_eq, hnot, Guess.not_not, hjudged]

end Operand

end

namespace Sample

def active : Node Row := .objectVariable .bool "active" (.int fun row => .ok row.level)

def nameIsUp : Node Row :=
  .createBinOp .eq (.objectVariable .string "name" (.string fun row => .ok row.name))
    (.createString "up")

end Sample

end Nscp.Where
