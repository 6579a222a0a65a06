import Nscp.Where.Infer

/-!
# What inference keeps

Inference asks the nodes below an operator, sometimes twice, and may wrap a side in a
conversion.  A property of nodes that every answer keeps, and that a conversion keeps,
holds of both sides in the end.  Two uses of this are the depth of a tree, which never
grows, and with it the fuel: any amount from the depth on gives the same answer.
-/

namespace Nscp.Where

open Nat Logged

variable {Obj : Type}

/-- Messages are of no interest here, only the value. -/
abbrev Returns {α : Type} (Q : α → Prop) (x : Eval α) : Prop := Safe (fun _ => True) Q x

/-- Every answer of a node with the property has it again. -/
def Keeps (ask : Request Obj) (K : Node Obj → Prop) : Prop :=
  ∀ suggestion n, K n → Returns (fun r => K r.2) (ask suggestion n)

def KeptByConversion (K : Node Obj → Prop) : Prop := ∀ n t, K n → K (addConvertNode n t)

structure Operands.Hold (L R : Node Obj → Prop) (o : Operands Obj) : Prop where
  left : L o.left
  right : R o.right

/-! ## Both sides of an operator -/

section

variable {ask : Request Obj} {K : Node Obj → Prop} (hk : Keeps ask K) {o : Operands Obj}

include hk

theorem askLeft_hold (s : ValueType) (h : o.Hold K K) :
    Returns (Operands.Hold K K) (askLeft ask s o) :=
  .of_bind (hk (some s) o.left h.left) fun _ ha => .of_pure ⟨ha, h.right⟩

theorem askRight_hold (s : ValueType) (h : o.Hold K K) :
    Returns (Operands.Hold K K) (askRight ask s o) :=
  .of_bind (hk (some s) o.right h.right) fun _ ha => .of_pure ⟨h.left, ha⟩

theorem settleMulti_hold (h : o.Hold K K) : Returns (Operands.Hold K K) (settleMulti ask o) := by
  unfold settleMulti
  split
  · exact askLeft_hold hk _ h
  split
  · exact askRight_hold hk _ h
  · exact .of_pure h

theorem settleText_hold (op : Operator) (h : o.Hold K K) :
    Returns (Operands.Hold K K) (settleText ask op o) := by
  unfold settleText
  split
  · split
    · exact askLeft_hold hk _ h
    split
    · exact askRight_hold hk _ h
    · exact .of_pure h
  · exact .of_pure h

theorem offerRight_hold (h : o.Hold K K) : Returns (Operands.Hold K K) (offerRight ask o) := by
  unfold offerRight
  split
  · exact askRight_hold hk _ h
  · exact .of_pure h

theorem offerLeft_hold (h : o.Hold K K) : Returns (Operands.Hold K K) (offerLeft ask o) := by
  unfold offerLeft
  split
  · exact askLeft_hold hk _ h
  · exact .of_pure h

omit hk in
theorem settleConversion_hold (hc : KeptByConversion K) (factory : Factory Obj) (op : Operator)
    (h : o.Hold K K) : Returns (fun r => r.2.Hold K K) (settleConversion factory op o) := by
  have hright : ∀ t, (convertRight t o).2.Hold K K := fun t => ⟨h.left, hc _ t h.right⟩
  have hleft : ∀ t, (convertLeft t o).2.Hold K K := fun t => ⟨hc _ t h.left, h.right⟩
  unfold settleConversion
  repeat' split
  all_goals first
    | exact .of_pure h
    | exact .of_pure (hright _)
    | exact .of_pure (hleft _)
    | exact .of_bind (.of_tell trivial trivial : Safe _ (fun _ => True) _) fun _ _ => .of_pure h

omit hk in
theorem unlessSame_hold (h : o.Hold K K) {next : Eval (ValueType × Operands Obj)}
    (hnext : Returns (fun r => r.2.Hold K K) next) :
    Returns (fun r => r.2.Hold K K) (unlessSame o next) := by
  unfold unlessSame
  split
  · exact .of_pure h
  · exact hnext

theorem inferBinaryType_hold (hc : KeptByConversion K) (factory : Factory Obj) (op : Operator)
    {left right : Node Obj} (hleft : K left) (hright : K right) :
    Returns (fun r => r.2.Hold K K) (inferBinaryType factory ask op left right) := by
  refine .of_bind (hk none right hright) fun r hr => ?_
  refine .of_bind (hk none left hleft) fun l hl => ?_
  have ho : Operands.Hold K K ⟨l.1, l.2, r.1, r.2⟩ := ⟨hl, hr⟩
  dsimp only
  split
  · exact .of_pure ho
  refine .of_bind (settleMulti_hold hk ho) fun o ho => unlessSame_hold ho ?_
  refine .of_bind (settleText_hold hk op ho) fun o ho => unlessSame_hold ho ?_
  refine .of_bind (.of_bind (offerRight_hold hk ho) fun _ ho => offerLeft_hold hk ho)
    fun o ho => unlessSame_hold ho ?_
  exact settleConversion_hold hc factory op ho

/-! ## Requests that agree -/

variable {ask' : Request Obj} (hagree : ∀ s n, K n → ask s n = ask' s n)

include hagree

omit hk in
theorem askLeft_congr (s : ValueType) (h : o.Hold K K) : askLeft ask s o = askLeft ask' s o := by
  unfold askLeft
  rw [hagree (some s) o.left h.left]

omit hk in
theorem askRight_congr (s : ValueType) (h : o.Hold K K) : askRight ask s o = askRight ask' s o := by
  unfold askRight
  rw [hagree (some s) o.right h.right]

theorem settleNumbers_congr (h : o.Hold K K) : settleNumbers ask o = settleNumbers ask' o := by
  have hoffer : offerRight ask o = offerRight ask' o := by
    unfold offerRight
    rw [askRight_congr hagree _ h]
  unfold settleNumbers
  rw [← hoffer]
  refine bind_congr_of_safe (offerRight_hold hk h) fun o ho => ?_
  unfold offerLeft
  rw [askLeft_congr hagree _ ho]

theorem inferBinaryType_congr (factory : Factory Obj) (op : Operator) {left right : Node Obj}
    (hleft : K left) (hright : K right) :
    inferBinaryType factory ask op left right = inferBinaryType factory ask' op left right := by
  unfold inferBinaryType
  rw [← hagree none right hright, ← hagree none left hleft]
  refine bind_congr_of_safe (hk none right hright) fun r hr => ?_
  refine bind_congr_of_safe (hk none left hleft) fun l hl => ?_
  have ho : Operands.Hold K K ⟨l.1, l.2, r.1, r.2⟩ := ⟨hl, hr⟩
  have hmulti : settleMulti ask ⟨l.1, l.2, r.1, r.2⟩ = settleMulti ask' ⟨l.1, l.2, r.1, r.2⟩ := by
    unfold settleMulti
    rw [askLeft_congr hagree _ ho, askRight_congr hagree _ ho]
  dsimp only
  rw [← hmulti]
  split
  · rfl
  refine bind_congr_of_safe (settleMulti_hold hk ho) fun o ho => ?_
  have htext : settleText ask op o = settleText ask' op o := by
    unfold settleText
    rw [askLeft_congr hagree _ ho, askRight_congr hagree _ ho]
  rw [← htext]
  refine congrArg (unlessSame o) (bind_congr_of_safe (settleText_hold hk op ho) fun o ho => ?_)
  rw [← settleNumbers_congr hk hagree ho]

end

/-! ## What is built from the answers -/

def Node.children : Node Obj → List (Node Obj)
  | .list _ items => items
  | .binaryOp _ _ left right => [left, right]
  | .unaryOp _ _ subject => [subject]
  | _ => []

/-- An answer of a node is of its shape, with any type, and over children with the property. -/
inductive Rebuilt (K : Node Obj → Prop) : Node Obj → Node Obj → Prop
  | same n : Rebuilt K n n
  | value {t t' l l' u u'} : Rebuilt K (.value t l u) (.value t' l' u')
  | object {t t' name a} : Rebuilt K (.objectVariable t name a) (.objectVariable t' name a)
  | list {t t' items items'} (h : ∀ n ∈ items', K n) : Rebuilt K (.list t items) (.list t' items')
  | binaryOp {t t' op l l' r r'} (hl : K l') (hr : K r') :
    Rebuilt K (.binaryOp t op l r) (.binaryOp t' op l' r')
  | unaryOp {t t' op s s'} (h : K s') : Rebuilt K (.unaryOp t op s) (.unaryOp t' op s')

theorem inferNode_rebuilt {ask : Request Obj} {K : Node Obj → Prop} {n : Node Obj}
    (hk : Keeps ask K) (hc : KeptByConversion K) (factory : Factory Obj)
    (suggestion : Option ValueType) (h : ∀ m ∈ n.children, K m) :
    Returns (fun r => Rebuilt K n r.2) (inferNode factory ask suggestion n) := by
  cases n with
  | value type literal isUnsure =>
    cases suggestion with
    | none => exact .of_pure (.same _)
    | some s =>
      refine .of_pure ?_
      unfold suggestValue
      repeat' split
      all_goals exact .value
  | list type items =>
    have hitems : ∀ s, Returns (fun answers => ∀ n ∈ answers.map Prod.snd, K n)
        (mapList (ask s) items) := by
      intro s
      refine (Safe.of_mapList fun n hn => hk s n (h n hn)).mono fun answers hanswers => ?_
      simpa using fun n t hr => hanswers (t, n) hr
    cases suggestion with
    | none => exact .of_bind (hitems none) fun _ ha => .of_pure (.list ha)
    | some s => exact .of_bind (hitems (some s)) fun _ ha => .of_pure (.list ha)
  | binaryOp type op left right =>
    refine .of_bind (inferBinaryType_hold hk hc factory op (h left (by simp [Node.children]))
      (h right (by simp [Node.children]))) fun r hr => ?_
    obtain ⟨inferred, o⟩ := r
    dsimp only
    split
    all_goals exact .of_pure (.binaryOp hr.left hr.right)
  | unaryOp type op subject =>
    have hsubject := h subject (by simp [Node.children])
    cases suggestion with
    | none =>
      refine .of_bind (hk none subject hsubject) fun r hr => ?_
      split
      all_goals exact .of_pure (.unaryOp hr)
    | some s => exact .of_bind (hk (some s) subject hsubject) fun _ hr => .of_pure (.unaryOp hr)
  | objectVariable type name accessor => cases suggestion <;> exact .of_pure .object
  | _ => exact .of_pure (.same _)

/-! ## Depth -/

namespace Node

theorem one_le_depth (n : Node Obj) : 1 ≤ n.depth := by
  cases n <;> simp [depth]

theorem depth_setType (t : ValueType) (n : Node Obj) : (n.setType t).depth = n.depth := by
  cases n <;> rfl

theorem depth_addConvertNode_le (n : Node Obj) (t : ValueType) :
    (addConvertNode n t).depth ≤ n.depth := by
  unfold addConvertNode
  split
  · exact le_rfl
  split
  · exact one_le_depth n
  · exact (depth_setType t n).le

theorem listDepth_le_iff {items : List (Node Obj)} {k : ℕ} :
    listDepth items ≤ k ↔ ∀ item ∈ items, item.depth ≤ k := by
  induction items with
  | nil => simp [listDepth]
  | cons item items ih => simp [listDepth, ih]

end Node

open Node

theorem keptByConversion_depth (k : ℕ) : KeptByConversion fun n : Node Obj => n.depth ≤ k :=
  fun n t h => (depth_addConvertNode_le n t).trans h

/-- Answers are no deeper than the node that was asked. -/
def AsksDepth (ask : Request Obj) : Prop :=
  ∀ suggestion n, Returns (fun r => r.2.depth ≤ n.depth) (ask suggestion n)

variable {ask ask' : Request Obj} (factory : Factory Obj) {n right left : Node Obj}

theorem AsksDepth.keeps (h : AsksDepth ask) (k : ℕ) : Keeps ask fun n => n.depth ≤ k :=
  fun suggestion n hn => (h suggestion n).mono fun _ hr => hr.trans hn

theorem inferNode_depth (hask : AsksDepth ask) (factory : Factory Obj)
    (suggestion : Option ValueType) (n : Node Obj) :
    Returns (fun r => r.2.depth ≤ n.depth) (inferNode factory ask suggestion n) := by
  have hchildren : ∀ m ∈ n.children, m.depth ≤ n.depth - 1 := by
    cases n with
    | list type items => exact listDepth_le_iff.mp le_rfl
    | _ => simp [children, depth]
  refine (inferNode_rebuilt (hask.keeps _) (keptByConversion_depth _) factory suggestion
    hchildren).mono fun r hr => ?_
  generalize r.2 = m at hr
  cases hr with
  | list h => exact succ_le_succ (listDepth_le_iff.mpr h)
  | binaryOp hl hr => exact succ_le_succ (max_le hl hr)
  | unaryOp h => exact succ_le_succ h
  | _ => exact le_rfl

theorem inferType_depth (fuel : ℕ) : AsksDepth (inferType factory fuel) := by
  induction fuel with
  | zero => exact fun _ _ => .of_pure le_rfl
  | succ fuel ih => exact fun suggestion n => inferNode_depth ih factory suggestion n

/-! ## Fuel -/

/-- A node asks only nodes that are less deep, so more fuel than its depth changes nothing. -/
theorem inferNode_congr (hask : AsksDepth ask) (factory : Factory Obj)
    (suggestion : Option ValueType) (n : Node Obj)
    (h : ∀ s m, m.depth < n.depth → ask s m = ask' s m) :
    inferNode factory ask suggestion n = inferNode factory ask' suggestion n := by
  have hitems : ∀ (s : Option ValueType) (items : List (Node Obj)),
      (∀ item ∈ items, item.depth < n.depth) → mapList (ask s) items = mapList (ask' s) items := by
    intro s items hlt
    induction items with
    | nil => rfl
    | cons item items ih =>
      unfold mapList
      rw [h s item (hlt item (by simp)), ih fun m hm => hlt m (by simp [hm])]
  cases n with
  | list type items =>
    have hlt : ∀ item ∈ items, item.depth < (list type items).depth :=
      fun item hitem => lt_succ_of_le (listDepth_le_iff.mp le_rfl item hitem)
    cases suggestion with
    | none =>
      simp only [inferNode]
      rw [hitems none items hlt]
    | some s =>
      simp only [inferNode]
      rw [hitems (some s) items hlt]
  | binaryOp type op left right =>
    have hlt : ∀ s m, m.depth ≤ max left.depth right.depth → ask s m = ask' s m :=
      fun s m hm => h s m (lt_succ_of_le hm)
    simp only [inferNode]
    rw [inferBinaryType_congr (hask.keeps _) hlt factory op (le_max_left _ _) (le_max_right _ _)]
  | unaryOp type op subject =>
    have hlt : subject.depth < (unaryOp type op subject).depth := lt_succ_self _
    cases suggestion with
    | none =>
      simp only [inferNode]
      rw [h none subject hlt]
    | some s =>
      simp only [inferNode]
      rw [h (some s) subject hlt]
  | value | unaryFun | objectVariable | customFunction | summaryVariable =>
    cases suggestion <;> rfl

theorem inferType_fuel {fuel fuel' : ℕ} (suggestion : Option ValueType) (h : n.depth ≤ fuel)
    (h' : n.depth ≤ fuel') :
    inferType factory fuel suggestion n = inferType factory fuel' suggestion n := by
  induction fuel generalizing fuel' suggestion n with
  | zero => exact absurd (n.one_le_depth.trans h) (by simp)
  | succ fuel ih =>
    cases fuel' with
    | zero => exact absurd (n.one_le_depth.trans h') (by simp)
    | succ fuel' =>
      refine inferNode_congr (inferType_depth factory fuel) factory suggestion n ?_
      intro s m hm
      exact ih s (le_of_lt_succ (hm.trans_le h)) (le_of_lt_succ (hm.trans_le h'))

theorem inferType_eq_deriveTypes {fuel : ℕ} (h : n.depth ≤ fuel) :
    inferType factory fuel none n = deriveTypes factory n :=
  inferType_fuel factory none h le_rfl

/-! ## Nodes of a settled type -/

variable {t : ValueType}

theorem inferBinaryType_same (op : Operator) {left' right' : Node Obj} {llog rlog : List Message}
    (hl : ask none left = ⟨.ok (t, left'), llog⟩) (hr : ask none right = ⟨.ok (t, right'), rlog⟩)
    (ht : t ≠ .multi) : inferBinaryType factory ask op left right =
      ⟨.ok (t, ⟨t, left', t, right'⟩), rlog ++ llog⟩ := by
  simp [inferBinaryType, hl, hr, ht, settleMulti, unlessSame]

/-- Validation gives the node the type `t` and turns it into `root`. -/
structure Infers (factory : Factory Obj) (n : Node Obj) (t : ValueType) (root : Node Obj) :
    Prop where
  type : root.type = t
  derived : ∃ typed log, deriveTypes factory n = ⟨.ok (t, typed), log⟩ ∧
    log.any Message.isError = false ∧ root = typed.bind factory

variable {n root : Node Obj} {factory : Factory Obj}

theorem Infers.validateTree (h : Infers factory n t root) : validateTree factory n = some root := by
  obtain ⟨typed, log, hderive, hlog, rfl⟩ := h.derived
  simp [Where.validateTree, hderive, hlog]

theorem Infers.of_inferBinaryType {op : Operator} {o : Operands Obj} {log : List Message}
    (h : inferBinaryType factory (inferType factory (max left.depth right.depth)) op left right =
      ⟨.ok (t, o), log⟩)
    (hlog : log.any Message.isError = false) (hvalid : t ≠ .invalid) :
    Infers factory (.createBinOp op left right) (op.returnType t)
      (.binaryOp (op.returnType t) op (o.left.bind factory) (o.right.bind factory)) := by
  refine ⟨rfl, .binaryOp (op.returnType t) op o.left o.right, log, ?_, hlog, rfl⟩
  change inferNode factory (inferType factory (max left.depth right.depth)) none
    (.binaryOp .tbd op left right) = _
  simp [inferNode, h, hvalid]

theorem Infers.binaryOp {l r : Node Obj} (op : Operator) (hl : Infers factory left t l)
    (hr : Infers factory right t r) (hmulti : t ≠ .multi) (hvalid : t ≠ .invalid) :
    Infers factory (.createBinOp op left right) (op.returnType t)
      (.binaryOp (op.returnType t) op l r) := by
  obtain ⟨typedl, logl, hderivel, hlogl, rfl⟩ := hl.derived
  obtain ⟨typedr, logr, hderiver, hlogr, rfl⟩ := hr.derived
  have hal := inferType_eq_deriveTypes factory (le_max_left left.depth right.depth)
  have har := inferType_eq_deriveTypes factory (le_max_right left.depth right.depth)
  refine .of_inferBinaryType (inferBinaryType_same factory op (hal.trans hderivel)
    (har.trans hderiver) hmulti) ?_ hvalid
  rw [List.any_append, hlogr, hlogl]
  rfl

theorem Infers.not (h : Infers factory n t root) (hvalid : t ≠ .invalid) :
    Infers factory (.createUnOp .not n) .bool (.unaryOp .bool .not root) := by
  obtain ⟨typed, log, hderive, hlog, rfl⟩ := h.derived
  refine ⟨rfl, .unaryOp .bool .not typed, log, ?_, hlog, rfl⟩
  have ha : inferType factory n.depth none n = _ := hderive
  change inferNode factory (inferType factory n.depth) none (.unaryOp .tbd .not n) = _
  simp [inferNode, ha, hvalid, Operator.returnType]

end Nscp.Where
