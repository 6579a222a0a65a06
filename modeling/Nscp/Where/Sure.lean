import Nscp.Where.Verdict

/-!
# Verdicts that do not depend on the record

A forced evaluation runs a tree without a record; its verdict is sure when no value it
depends on was a default.  Two runs of one tree are compared here, without a record and
with one.  `Tracks` relates a value of the first run to the value of the second: a sure
value is the same value.  The relation is carried through every operator; `tracks` is
the condition on a tree under which no node on the way drops the flag.
-/

namespace Nscp.Where

open Verdict Logged

variable {Obj : Type}

def Context.attach (ctx : Context Obj) (object : Option Obj) : Context Obj :=
  { ctx with object := object }

/-! ## Two runs of one value -/

/-- A value `x` of the run without a record and the same value `y` of a run with one.
With `steady`, the second run does not throw where the first does not. -/
structure Tracks (steady : Bool) (x y : Except Exception ValueContainer) : Prop where
  sure : ∀ c, x = .ok c → c.isUnsure = false → y = .ok c
  settled : steady = true → ∀ c, x = .ok c →
    ∃ c', y = .ok c' ∧ (c.isNumber = true → c'.isNumber = true)
  definite : ∀ c, x = .ok c → c.isNoValue = false

def ViewTracks (steady : Bool) (v w : View) : Prop :=
  ∀ d : Domain, Tracks steady (v.getValue d.type).result (w.getValue d.type).result

/-- A value that is never the mark of a missing number. -/
def Definite (x : Except Exception ValueContainer) : Prop := ∀ c, x = .ok c → c.isNoValue = false

variable {steady : Bool} {y x : Except Exception ValueContainer} {c : ValueContainer}

theorem Tracks.refl (h : Definite x) : Tracks steady x x :=
  ⟨fun _ hc _ => hc, fun _ c hc => ⟨c, hc, id⟩, h⟩

theorem Tracks.error {e : Exception} : Tracks steady (.error e) y :=
  ⟨nofun, nofun, nofun⟩

theorem Tracks.ok (hsure : c.isUnsure = false → y = .ok c)
    (hsettled : steady = true → ∃ c', y = .ok c' ∧ (c.isNumber = true → c'.isNumber = true))
    (hdefinite : c.isNoValue = false) : Tracks steady (.ok c) y := by
  refine ⟨?_, ?_, ?_⟩ <;> intros <;> simp_all

theorem Tracks.const (h : c.isNoValue = false) : Tracks steady (.ok c) (.ok c) :=
  .ok (fun _ => rfl) (fun _ => ⟨c, rfl, id⟩) h

structure VerdictTracks (steady : Bool) (x y : Except Exception Verdict) : Prop where
  sure : ∀ v, x = .ok v → v.isUnsure = false → y = .ok v
  settled : steady = true → ∀ v, x = .ok v → ∃ v', y = .ok v'

theorem VerdictTracks.ok {v : Verdict} {y : Except Exception Verdict}
    (hsure : v.isUnsure = false → y = .ok v) (hsettled : steady = true → ∃ v', y = .ok v') :
    VerdictTracks steady (.ok v) y := by
  refine ⟨?_, ?_⟩ <;> intros <;> simp_all

theorem VerdictTracks.error {e : Exception} {y : Except Exception Verdict} :
    VerdictTracks steady (.error e) y := by
  refine ⟨fun _ h => ?_, fun _ _ h => ?_⟩ <;> cases h

theorem VerdictTracks.tracks {x y : Except Exception Verdict} (h : VerdictTracks steady x y)
    (d : Domain) : Tracks steady (x.map (read d)) (y.map (read d)) := by
  rcases x with _ | v
  · exact .error
  refine .ok (fun hsure => ?_) (fun hsteady => ?_) (isNoValue_read d v)
  · rw [isUnsure_read] at hsure
    rw [h.sure v rfl hsure, except_ok_map]
  · obtain ⟨v', hv'⟩ := h.settled hsteady v rfl
    refine ⟨v'.read d, by rw [hv', except_ok_map], ?_⟩
    cases d <;> exact id

/-! ## Operators -/

section

variable {host : Host} {steady : Bool} {left right left' right' : View}

variable {d : Domain} (now : ℤ) {op : Operator}

theorem compareVerdict_sure {lhs rhs : ValueContainer} (hl : lhs.isNoValue = false)
    (hr : rhs.isNoValue = false) (h : (compareVerdict host op d lhs rhs).isUnsure = false) :
    lhs.isUnsure = false ∧ rhs.isUnsure = false := by
  unfold compareVerdict at h
  split at h
  · cases h
  rw [hl, hr] at h
  simpa [ofBool] using h

theorem evalCompare_tracks (op : Operator) (d : Domain) (hleft : ViewTracks steady left left')
    (hright : ViewTracks steady right right') :
    Tracks steady (evalCompare host op d left right).result
      (evalCompare host op d left' right').result := by
  rw [evalCompare_result, evalCompare_result]
  have hl := hleft d
  have hr := hright d
  rcases hlhs : (left.getValue d.type).result with _ | lhs
  · exact .error
  rcases hrhs : (right.getValue d.type).result with _ | rhs
  · exact .error
  rw [hlhs] at hl
  rw [hrhs] at hr
  refine .ok (fun hsure => ?_) (fun hsteady => ?_) rfl
  · obtain ⟨hls, hrs⟩ :=
      compareVerdict_sure (hl.definite lhs rfl) (hr.definite rhs rfl) hsure
    rw [hl.sure lhs rfl hls, hr.sure rhs rfl hrs]
    rfl
  · obtain ⟨lhs', hl', -⟩ := hl.settled hsteady lhs rfl
    obtain ⟨rhs', hr', -⟩ := hr.settled hsteady rhs rfl
    exact ⟨_, by rw [hl', hr', except_ok_bind, except_ok_map], fun _ => rfl⟩

theorem operandVerdict_tracks (h : ViewTracks steady left left') :
    VerdictTracks steady (operandVerdict left) (operandVerdict left') := by
  have hl := h .int
  unfold operandVerdict
  rcases hlhs : (left.getValue .int).result with _ | lhs
  · exact .error
  rw [Domain.type, hlhs] at hl
  rw [except_ok_bind, getInt_result]
  by_cases hnumber : lhs.isNumber = true
  · rw [if_pos hnumber, except_ok_map]
    refine .ok (fun hsure => ?_) (fun hsteady => ?_)
    · rw [hl.sure lhs rfl hsure, except_ok_bind, getInt_result, if_pos hnumber, except_ok_map]
    · obtain ⟨lhs', hl', hnum⟩ := hl.settled hsteady lhs rfl
      refine ⟨⟨lhs'.getIntD 0, lhs'.isUnsure⟩, ?_⟩
      rw [hl', except_ok_bind, getInt_result, if_pos (hnum hnumber), except_ok_map]
  · rw [if_neg hnumber]
    exact .error

theorem isUnsure_of_stops {v : Verdict} {stop : Bool} (h : v.stops stop = true) :
    v.isUnsure = false := by
  simp only [stops, Bool.and_eq_true, Bool.not_eq_true'] at h
  exact h.2

/-- What `and` and `or` ask of their sides, given the left one without a record: one that
decides leaves the other unread, and one that is unsure must not throw on a record. -/
def LogicTracks (steady stop : Bool) (left right left' right' : View) : Prop :=
  ∀ lhs, operandVerdict left = .ok lhs → ViewTracks (steady || lhs.isUnsure) left left' ∧
    (lhs.stops stop = false → ViewTracks steady right right')

/-- A sure left side that decides ends both runs; an unsure one makes the verdict unsure, as
long as the run with a record returns. -/
theorem evalLogic_tracks (stop : Bool) (h : LogicTracks steady stop left right left' right') :
    Tracks steady (evalLogic stop left right).result (evalLogic stop left' right').result := by
  rw [evalLogic_result, evalLogic_result]
  rcases hlhs : operandVerdict left with _ | lhs
  · exact .error
  obtain ⟨hleft, hright⟩ := h lhs hlhs
  have hl := operandVerdict_tracks hleft
  rw [hlhs] at hl
  obtain ⟨lhs', hl', hsame⟩ : ∃ lhs', operandVerdict left' = .ok lhs' ∧
      (lhs.isUnsure = false → lhs' = lhs) := by
    cases hunsure : lhs.isUnsure with
    | false => exact ⟨lhs, hl.sure lhs rfl hunsure, fun _ => rfl⟩
    | true =>
      obtain ⟨lhs', hl'⟩ := hl.settled (by simp [hunsure]) lhs rfl
      exact ⟨lhs', hl', nofun⟩
  rw [hl', except_ok_bind, except_ok_bind]
  by_cases hstop : lhs.stops stop = true
  · -- a sure left side decides both runs
    obtain rfl := hsame (isUnsure_of_stops hstop)
    rw [if_pos hstop, if_pos hstop]
    exact .const rfl
  have hr := operandVerdict_tracks (hright (by simpa using hstop))
  rw [if_neg hstop]
  rcases hrhs : operandVerdict right with _ | rhs
  · exact .error
  rw [hrhs] at hr
  rw [except_ok_map]
  refine .ok (fun hsure => ?_) (fun hsteady => ?_) rfl
  · by_cases hrstop : rhs.stops stop = true
    · rw [hr.sure rhs rfl (isUnsure_of_stops hrstop), except_ok_map]
      have hv : ∀ v : Verdict, logicVerdict stop v rhs = .ofBool stop false := by
        intro v
        simp [logicVerdict, hrstop]
      rw [hv lhs, hv lhs']
      split <;> rfl
    · have hboth : lhs.isUnsure = false ∧ rhs.isUnsure = false := by
        simpa [logicVerdict, hstop, hrstop, container, ofBool, ValueContainer.createInt] using hsure
      rw [hsame hboth.1, if_neg hstop, hr.sure rhs rfl hboth.2, except_ok_map]
  · by_cases hstop' : lhs'.stops stop = true
    · exact ⟨_, if_pos hstop', fun _ => rfl⟩
    · obtain ⟨rhs', hr'⟩ := hr.settled hsteady rhs rfl
      exact ⟨_, by rw [if_neg hstop', hr', except_ok_map], fun _ => rfl⟩

theorem matchVerdict_sure {subject : String} {pattern : ValueContainer} {isUnsure : Bool}
    (h : (matchVerdict host op subject pattern isUnsure).isUnsure = false) : isUnsure = false := by
  unfold matchVerdict at h
  split at h
  · cases h
  split at h
  · exact h
  · cases h

theorem patternSubject_settled {lhs rhs lhs' : ValueContainer} (rhs' : ValueContainer)
    {subject : Option String} (h : patternSubject host d lhs rhs = .ok subject)
    (hnumber : lhs.isNumber = true → lhs'.isNumber = true) :
    ∃ subject', patternSubject host d lhs' rhs' = .ok subject' := by
  unfold patternSubject at h ⊢
  cases d with
  | int | float =>
    simp only [getInt_result, getFloat_result] at h ⊢
    by_cases hn : lhs.isNumber = true
    · rw [if_pos (hnumber hn)]
      exact ⟨_, rfl⟩
    · rw [if_neg hn] at h
      cases h
  | string =>
    simp only
    split
    · exact ⟨_, rfl⟩
    · rename_i hstrings
      have hstring : lhs'.isString = true := by
        simp only [Bool.or_eq_true, Bool.not_eq_true', not_or, Bool.not_eq_false] at hstrings
        exact hstrings.1
      rw [getString_result, if_pos (by simp [hstring])]
      exact ⟨_, rfl⟩

theorem evalPattern_tracks (op : Operator) (d : Domain) (hleft : ViewTracks steady left left')
    (hright : ViewTracks steady right right') :
    Tracks steady (evalPattern host op d left right).result
      (evalPattern host op d left' right').result := by
  rw [evalPattern_result, evalPattern_result]
  have hl := hleft d
  have hr := hright .string
  rcases hlhs : (left.getValue d.type).result with _ | lhs
  · exact .error
  rcases hrhs : (right.getValue .string).result with _ | rhs
  · exact .error
  rw [hlhs] at hl
  rw [Domain.type, hrhs] at hr
  rw [except_ok_bind, except_ok_bind]
  rcases hsubject : patternSubject host d lhs rhs with _ | subject
  · exact .error
  rw [except_ok_map]
  refine .ok (fun hsure => ?_) (fun hsteady => ?_) rfl
  · have hboth : lhs.isUnsure = false ∧ rhs.isUnsure = false := by
      cases subject with
      | none => cases hsure
      | some text => exact Bool.or_eq_false_iff.mp (matchVerdict_sure hsure)
    rw [hl.sure lhs rfl hboth.1, hr.sure rhs rfl hboth.2, except_ok_bind,
      except_ok_bind, hsubject, except_ok_map]
  · obtain ⟨lhs', hl', hnumber⟩ := hl.settled hsteady lhs rfl
    obtain ⟨rhs', hr', -⟩ := hr.settled hsteady rhs rfl
    obtain ⟨subject', hs'⟩ := patternSubject_settled rhs' hsubject hnumber
    exact ⟨_, by rw [hl', hr', except_ok_bind, except_ok_bind, hs', except_ok_map], fun _ => rfl⟩

def searchList (host : Host) (d : Domain) (lhs : ValueContainer) (right : View) :
    Except Exception Bool :=
  right.getListValue.result.bind fun items => (anyItem host d lhs items).result

/-- What `in` and `not in` ask of their sides: a sure left operand is looked up alike in both
runs, and with `steady` the list can be searched for anything. -/
structure ListTracks (host : Host) (steady : Bool) (d : Domain) (left right left' right' : View) :
    Prop where
  operand : ViewTracks steady left left'
  alike : ∀ lhs, (left.getValue d.type).result = .ok lhs → lhs.isUnsure = false →
    searchList host d lhs right' = searchList host d lhs right
  settled : steady = true → ∀ lhs, ∃ hit, searchList host d lhs right' = .ok hit

theorem evalIn_tracks (found : Bool) (d : Domain)
    (h : ListTracks host steady d left right left' right') :
    Tracks steady (evalIn host found d left right).result
      (evalIn host found d left' right').result := by
  have hverdict : ∀ left right : View, (evalIn host found d left right).result =
      (left.getValue d.type).result.bind fun lhs =>
        if !d.holds lhs then .ok (.createInt 0 true)
        else if lhs.isNoValue then .ok (.createInt 0 false)
        else (searchList host d lhs right).map fun hit =>
          (ofBool (if hit then found else !found) lhs.isUnsure).container := by
    intro left right
    simp only [evalIn_result, searchList, except_map_bind]
  have hl := h.operand d
  rcases hlhs : (left.getValue d.type).result with e | lhs
  · rw [hverdict, hlhs]
    exact .error
  rw [hlhs] at hl
  refine ⟨fun c hc hsure => ?_, fun hsteady c _ => ?_, fun c hc => ?_⟩
  · have hls : lhs.isUnsure = false := by
      rw [hverdict, hlhs, except_ok_bind, hl.definite lhs rfl] at hc
      split at hc
      · cases hc
        cases hsure
      · obtain ⟨hit, -, rfl⟩ := Fallible.map_eq_ok hc
        exact hsure
    rw [hverdict, hlhs, except_ok_bind] at hc
    rw [hverdict, hl.sure lhs rfl hls, except_ok_bind, h.alike lhs hlhs hls, hc]
  · obtain ⟨lhs', hl', -⟩ := hl.settled hsteady lhs rfl
    obtain ⟨hit, hhit⟩ := h.settled hsteady lhs'
    rw [hverdict, hl', except_ok_bind, hhit]
    split_ifs <;> exact ⟨_, rfl, fun _ => rfl⟩
  · obtain ⟨b, u, rfl⟩ := evalIn_isVerdict hc
    rfl

theorem notVerdict_tracks (type : ValueType)
    (hsteady : steady = true → type ≠ .int ∧ type ≠ .date) (h : ViewTracks steady left left') :
    VerdictTracks steady
      ((left.getValue .int).result.bind fun v => notVerdict now type v)
      ((left'.getValue .int).result.bind fun v => notVerdict now type v) := by
  have hl := h .int
  rcases hlhs : (left.getValue .int).result with _ | lhs
  · exact .error
  rw [Domain.type, hlhs] at hl
  rw [except_ok_bind]
  refine ⟨?_, ?_⟩
  · intro v hv hsure
    have hls : lhs.isUnsure = false := by
      unfold notVerdict at hv
      cases type <;> simp only at hv
      case bool =>
        split at hv <;> cases hv <;> first | cases hsure | exact hsure
      case int =>
        split at hv
        · cases hv
          cases hsure
        split at hv
        · cases hv
        · cases hv
          exact hsure
      case date =>
        split at hv
        · cases hv
          cases hsure
        cases hdate : relabel
            ("neg(" ++ toString (lhs.getIntD 0) ++ ") does not fit a 64-bit integer")
            (reflectedDate now (lhs.getIntD 0)) with
        | error e => rw [hdate] at hv; cases hv
        | ok date =>
          rw [hdate] at hv
          cases hv
          exact hsure
      all_goals
        cases hv
        cases hsure
    rw [hl.sure lhs rfl hls]
    exact hv
  · intro hs v hv
    obtain ⟨lhs', hl', -⟩ := hl.settled hs lhs rfl
    obtain ⟨hint, hdate⟩ := hsteady hs
    rw [hl', except_ok_bind]
    cases type
    case int => exact absurd rfl hint
    case date => exact absurd rfl hdate
    all_goals exact ⟨_, rfl⟩

/-! ## Conversions -/

variable {x y : Except Exception ValueContainer} (type : ValueType) (name : String)
  (accessor : Accessor Obj) {α : Type}

theorem Tracks.map (h : Tracks steady x y) {f : ValueContainer → ValueContainer}
    (hsure : ∀ c, (f c).isUnsure = false → c.isUnsure = false)
    (hnumber : ∀ c c', (f c).isNumber = true → (f c').isNumber = true)
    (hdefinite : ∀ c, (f c).isNoValue = false) : Tracks steady (x.map f) (y.map f) := by
  rcases x with _ | a
  · exact .error
  refine .ok (fun hs => ?_) (fun hsteady => ?_) (hdefinite a)
  · rw [h.sure a rfl (hsure a hs), except_ok_map]
  · obtain ⟨a', ha', -⟩ := h.settled hsteady a rfl
    exact ⟨f a', by rw [ha', except_ok_map], hnumber a a'⟩

theorem map_bind_getValue {f : α → View} {g : α → ValueContainer}
    (hfg : ∀ a, ((f a).getValue d.type).result = .ok (g a)) (x : Except Exception α) :
    ((x.map f).bind fun v => (v.getValue d.type).result) = x.map g := by
  cases x with
  | error e => rfl
  | ok a => exact hfg a

def floatRead (host : Host) (d : Domain) (x : Float) (isUnsure : Bool) : ValueContainer :=
  match d with
  | .int => .createInt (Number.toInt64Saturating x) (!Number.fitsInt64 x || isUnsure)
  | .float => .createFloat x isUnsure
  | .string => .createString (host.formatFloat x) isUnsure

theorem getValue_ofFloat (host : Host) (d : Domain) (x : Float) (isUnsure : Bool) :
    ((View.ofFloat host x isUnsure).getValue d.type).result =
      .ok (floatRead host d x isUnsure) := by
  cases d with
  | int =>
    change (literalValue host (.float x) isUnsure .int).result = _
    simp only [literalValue, floatRead, result_ite]
    split
    all_goals
      rename_i hfits
      simp [hfits]
  | float => rfl
  | string => rfl

theorem convertOne_tracks (type : ValueType) (subject subject' : View) (d : Domain)
    (h : ViewTracks steady left left') (htype : left.type = left'.type) : Tracks steady
      ((functionConvert host now type [left] subject).result.bind fun v =>
        (v.getValue d.type).result)
      ((functionConvert host now type [left'] subject').result.bind fun v =>
        (v.getValue d.type).result) := by
  rw [functionConvert_one, functionConvert_one, ← htype]
  split
  · exact h d
  split
  · rw [map_bind_getValue fun _ => getValue_view host _ d,
      map_bind_getValue fun _ => getValue_view host _ d]
    refine (h .float).map ?_ ?_ ?_
    · intro c hc
      rw [isUnsure_read] at hc
      exact hc
    · intro c c' hc
      cases d <;> exact hc
    · intro c
      exact isNoValue_read d _
  split
  · rw [map_bind_getValue fun _ => getValue_ofFloat host d _ _,
      map_bind_getValue fun _ => getValue_ofFloat host d _ _]
    refine (h .int).map ?_ ?_ ?_
    · intro c hc
      cases d with
      | int => exact (Bool.or_eq_false_iff.mp hc).2
      | float => exact hc
      | string => exact hc
    · intro c c' hc
      cases d <;> exact hc
    · intro c
      cases d <;> rfl
  · exact h d

theorem convertUnit_tracks (type : ValueType) (u subject subject' : View) (rest rest' : List View)
    (d : Domain) (h : ViewTracks false left left') (htype : left.type = left'.type)
    (hsteady : steady = true → ¬(type = .date ∨ type = .size)) : Tracks steady
      ((functionConvert host now type (left :: u :: rest) subject).result.bind fun v =>
        (v.getValue d.type).result)
      ((functionConvert host now type (left' :: u :: rest') subject').result.bind fun v =>
        (v.getValue d.type).result) := by
  rw [functionConvert_unit, functionConvert_unit]
  by_cases hunit : type = .date ∨ type = .size
  · rw [if_pos hunit, if_pos hunit]
    have hread := h (unitDomain type left.type)
    rcases hu : (u.getStringValue host).result with _ | unit
    · exact .error
    rw [except_ok_bind, except_ok_bind, convertWithUnit_result, convertWithUnit_result, ← htype]
    cases hv : (left.getValue (unitDomain type left.type).type).result with
    | error e =>
      rw [except_error_bind]
      cases e <;> exact .error
    | ok vc =>
      rw [hv] at hread
      rw [except_ok_bind]
      rcases hs : scaledByUnit now type (unitDomain type left.type) unit vc with e | i
      · cases e <;> exact .error
      have hvalue : ∀ what, ((relabel what (Except.map (fun i =>
          view host ⟨i, vc.isUnsure⟩) (.ok i))).bind fun v =>
            (v.getValue d.type).result) =
          .ok (read d ⟨i, vc.isUnsure⟩) :=
        fun _ => getValue_view host _ d
      rw [hvalue]
      refine .ok (fun hsure => ?_) (fun hs => absurd hunit (hsteady hs))
        (isNoValue_read d _)
      rw [isUnsure_read] at hsure
      rw [hread.sure vc rfl hsure, except_ok_bind, hs, hvalue]
  · rw [if_neg hunit, if_neg hunit]
    have hvalue := getValue_view host ⟨0, true⟩ d
    rw [except_ok_bind, hvalue]
    exact .const (isNoValue_read d _)

/-! ## Variables -/

/-- The accessors of a variable return on the record. -/
def Accessor.Returns (obj : Obj) : Accessor Obj → Prop
  | .int fn => ∃ v, fn obj = .ok v
  | .float fn => ∃ v, fn obj = .ok v
  | .string fn => ∃ v, fn obj = .ok v
  | .dual _ iFn fFn sFn => (∀ fn ∈ iFn, ∃ v, fn obj = .ok v) ∧ (∀ fn ∈ fFn, ∃ v, fn obj = .ok v) ∧
      (∀ fn ∈ sFn, ∃ v, fn obj = .ok v)
  | .optionalInt _ _ fn => ∃ v, fn obj = .ok v

instance decidableReturned {α : Type} (x : Except String α) : Decidable (∃ v, x = .ok v) :=
  match x with
  | .ok v => isTrue ⟨v, rfl⟩
  | .error _ => isFalse nofun

instance decidableReturns (obj : Obj) (accessor : Accessor Obj) :
    Decidable (accessor.Returns obj) := by
  cases accessor <;> unfold Accessor.Returns <;> infer_instance

def Accessor.hasNumber : Accessor Obj → Bool
  | .dual _ iFn fFn _ => iFn.isSome || fFn.isSome
  | _ => true

def Accessor.default (accessor : Accessor Obj) (d : Domain) : ValueContainer :=
  match accessor, d with
  | .int _, .string | .float _, .string => .createNil
  | _, d => noObjectDefault d.type

theorem variableValue_none (d : Domain) :
    (variableValue host none type name accessor d.type).result = .ok (accessor.default d) := by
  cases accessor <;> cases d <;> rfl

theorem isNoValue_default (d : Domain) : (accessor.default d).isNoValue = false := by
  cases accessor <;> cases d <;> rfl

theorem accessed_result (x : Except String α) (f : α → Eval ValueContainer)
    (hf : ∀ a, ∃ c, (f a).result = .ok c) : ∃ c, (accessed name x f).result = .ok c := by
  cases x with
  | ok a => exact hf a
  | error what => exact ⟨.createNil, rfl⟩

theorem dualAccessed_result (x : Except String α) (f : α → ValueContainer) :
    ∃ c, (dualAccessed name x f).result = .ok c := by
  cases x with
  | ok a => exact ⟨f a, rfl⟩
  | error what => exact ⟨.createNil, rfl⟩

theorem numericView_number (host : Host) (name value : String) (wanted : ValueType) :
    ∃ c, (numericView host name value wanted).result = .ok c ∧ c.isNumber = true := by
  unfold numericView
  rcases host.parseFloat (trim value) with _ | x
  · exact ⟨.createNoValue, rfl, rfl⟩
  refine ⟨_, rfl, ?_⟩
  split <;> rfl

variable {accessor : Accessor Obj}

theorem variableValue_sure {type : ValueType} {name : String} (obj : Obj)
    (h : (accessor.default d).isUnsure = false) :
    (variableValue host (some obj) type name accessor d.type).result =
      .ok (accessor.default d) := by
  cases accessor <;> cases d <;> first | rfl | cases h

theorem dualServed_result (iFn : Option (Obj → Except String ℤ))
    (fFn : Option (Obj → Except String Float)) (sFn : Option (Obj → Except String String))
    (obj : Obj) (wanted : ValueType) :
    ∃ c, (dualServed host type name iFn fFn sFn obj wanted).result = .ok c := by
  unfold dualServed
  cases iFn <;> cases fFn <;> cases sFn <;> simp only [result_ite, Option.elim] <;>
    split_ifs <;> first | exact dualAccessed_result _ _ _ | exact ⟨_, rfl⟩

theorem variableValue_ok (host : Host) (type : ValueType) (name : String) (accessor : Accessor Obj)
    (d : Domain) (obj : Obj) :
    ∃ c, (variableValue host (some obj) type name accessor d.type).result = .ok c := by
  cases accessor with
  | int fn | float fn =>
    cases d with
    | string => exact ⟨_, rfl⟩
    | int | float => exact accessed_result name (fn obj) _ fun v => ⟨_, rfl⟩
  | string fn =>
    refine accessed_result name (fn obj) _ fun v => ?_
    obtain ⟨c, hc, -⟩ := numericView_number host name v d.type
    cases d with
    | string => exact ⟨_, rfl⟩
    | int | float => exact ⟨c, hc⟩
  | dual _ iFn fFn sFn => exact dualServed_result type name iFn fFn sFn obj d.type
  | optionalInt _ noValue fn =>
    refine accessed_result name (fn obj) _ fun v => ?_
    cases d <;> exact ⟨_, rfl⟩

section

variable {name : String} {x : Except String α} (hx : ∃ v, x = .ok v)
include hx

theorem accessed_number {f : α → Eval ValueContainer}
    (hf : ∀ v, ∃ c, (f v).result = .ok c ∧ c.isNumber = true) :
    ∃ c, (accessed name x f).result = .ok c ∧ c.isNumber = true := by
  obtain ⟨v, rfl⟩ := hx
  exact hf v

theorem dualAccessed_number {f : α → ValueContainer} (hf : ∀ v, (f v).isNumber = true) :
    ∃ c, (dualAccessed name x f).result = .ok c ∧ c.isNumber = true := by
  obtain ⟨v, rfl⟩ := hx
  exact ⟨f v, rfl, hf v⟩

end

theorem variableValue_number {type : ValueType} {name : String} {obj : Obj}
    (hreturns : accessor.Returns obj) (hnumber : accessor.hasNumber = true) (hd : d ≠ .string) :
    ∃ c, (variableValue host (some obj) type name accessor d.type).result = .ok c ∧
      c.isNumber = true := by
  cases accessor with
  | int fn | float fn =>
    cases d with
    | string => exact absurd rfl hd
    | int | float => exact accessed_number hreturns fun v => ⟨_, rfl, rfl⟩
  | string fn =>
    cases d with
    | string => exact absurd rfl hd
    | int | float => exact accessed_number hreturns fun v => numericView_number host name v _
  | dual _ iFn fFn sFn =>
    obtain ⟨hi, hf, -⟩ := hreturns
    -- an int is served first where one is wanted, a float otherwise
    cases d with
    | string => exact absurd rfl hd
    | int =>
      cases iFn with
      | some fn => exact dualAccessed_number (hi fn rfl) fun v => rfl
      | none =>
        cases fFn with
        | some fn => exact dualAccessed_number (hf fn rfl) fun v => rfl
        | none => cases hnumber
    | float =>
      cases fFn with
      | some fn => exact dualAccessed_number (hf fn rfl) fun v => rfl
      | none =>
        cases iFn with
        | some fn => exact dualAccessed_number (hi fn rfl) fun v => rfl
        | none => cases hnumber
  | optionalInt _ noValue fn =>
    refine accessed_number hreturns fun v => ?_
    cases d with
    | string => exact absurd rfl hd
    | int | float => cases v <;> exact ⟨_, rfl, rfl⟩

theorem variableValue_tracks (obj : Obj) (d : Domain)
    (hsteady : steady = true → accessor.Returns obj ∧ accessor.hasNumber = true) :
    Tracks steady (variableValue host none type name accessor d.type).result
      (variableValue host (some obj) type name accessor d.type).result := by
  rw [variableValue_none]
  refine .ok (variableValue_sure obj) (fun hs => ?_) (isNoValue_default accessor d)
  obtain ⟨hreturns, hnumber⟩ := hsteady hs
  by_cases hd : d = .string
  · obtain ⟨c', hc'⟩ := variableValue_ok host type name accessor d obj
    exact ⟨c', hc', fun hn => by subst hd; cases accessor <;> cases hn⟩
  · obtain ⟨c', hc', hnum⟩ := variableValue_number hreturns hnumber hd
    exact ⟨c', hc', fun _ => hnum⟩

/-! ## Operators over nodes -/

def OperandsTrack (host : Host) (steady : Bool) (op : Operator)
    (left right left' right' : View) : Prop :=
  match op with
  | .eq | .ne | .gt | .lt | .le | .ge | .like | .notLike | .regexp | .notRegexp =>
    ViewTracks steady left left' ∧ ViewTracks steady right right'
  | .and | .binand => LogicTracks steady false left right left' right'
  | .or | .binor => LogicTracks steady true left right left' right'
  | .in | .nin => ∀ d, comparisonDomain left.type right.type = some d →
      ListTracks host steady d left right left' right'
  | .inv | .not => True

theorem binaryValue_tracks (op : Operator) (hleft : left.type = left'.type)
    (hright : right.type = right'.type) (h : OperandsTrack host steady op left right left' right') :
    Tracks steady (binaryValue host type op left right)
      (binaryValue host type op left' right') := by
  unfold binaryValue
  by_cases htype : (type.isInt || type.isString) = true
  swap
  · rw [if_neg htype, if_neg htype]
    exact .const rfl
  rw [if_pos htype, if_pos htype]
  unfold binaryContainer
  rw [← hleft, ← hright]
  cases op
  case eq | ne | gt | lt | le | ge =>
    cases comparisonDomain left.type right.type with
    | none => exact .const rfl
    | some d => exact evalCompare_tracks _ d h.1 h.2
  case like | notLike | regexp | notRegexp =>
    cases patternDomain left.type with
    | none => exact .const rfl
    | some d => exact evalPattern_tracks _ d h.1 h.2
  case and | binand | or | binor =>
    dsimp only
    split
    · exact evalLogic_tracks _ h
    · exact .const rfl
  case «in» | nin =>
    cases hd : comparisonDomain left.type right.type with
    | none => exact .const rfl
    | some d => exact evalIn_tracks _ d (h d hd)
  case inv | not => exact .const rfl

theorem verdictView_tracks {x y : Except Exception Verdict} (h : VerdictTracks steady x y)
    (d : Domain) :
    Tracks steady ((x.map (view host)).bind fun v => (v.getValue d.type).result)
      ((y.map (view host)).bind fun v => (v.getValue d.type).result) := by
  have hread := map_bind_getValue fun v : Verdict => v.getValue_view host d
  rw [hread, hread]
  exact h.tracks d

theorem verdictTracks_refl (x : Except Exception Verdict) : VerdictTracks steady x x :=
  ⟨fun _ hv _ => hv, fun _ v hv => ⟨v, hv⟩⟩

theorem Verdict.container_injective : Function.Injective container := by
  rintro ⟨a, b⟩ ⟨c, d⟩ h
  simpa [container, ValueContainer.createInt] using h

theorem createNum_tracks (h : Tracks steady x y) (hx : ∀ c, x = .ok c → IsVerdict c)
    (hy : ∀ c, y = .ok c → IsVerdict c) (d : Domain) :
    Tracks steady ((x.map (View.createNum host)).bind fun v => (v.getValue d.type).result)
      ((y.map (View.createNum host)).bind fun v => (v.getValue d.type).result) := by
  have hverdict : ∀ z : Except Exception ValueContainer, (∀ c, z = .ok c → IsVerdict c) →
      ∃ z' : Except Exception Verdict, z = z'.map container := by
    intro z hz
    rcases z with e | c
    · exact ⟨.error e, rfl⟩
    obtain ⟨b, u, rfl⟩ := hz c rfl
    exact ⟨.ok (.ofBool b u), rfl⟩
  obtain ⟨x', rfl⟩ := hverdict x hx
  obtain ⟨y', rfl⟩ := hverdict y hy
  have hcompose : ∀ z : Except Exception Verdict,
      (z.map container).map (View.createNum host) = z.map (view host) := by
    intro z
    cases z <;> rfl
  rw [hcompose, hcompose]
  refine verdictView_tracks ⟨?_, ?_⟩ d
  · intro v hv hsure
    rw [hv] at h
    have hsame := h.sure v.container rfl hsure
    cases hy' : y' with
    | error e =>
      rw [hy'] at hsame
      cases hsame
    | ok w =>
      rw [hy', except_ok_map] at hsame
      rw [container_injective (Except.ok.inj hsame)]
  · intro hsteady v hv
    rw [hv] at h
    obtain ⟨c', hc', -⟩ := h.settled hsteady v.container rfl
    cases hy' : y' with
    | error e =>
      rw [hy'] at hc'
      cases hc'
    | ok w => exact ⟨w, rfl⟩

theorem binaryOp_tracks (op : Operator) (text text' : String) (items items' : Eval (List View))
    (hleft : left.type = left'.type) (hright : right.type = right'.type)
    (h : OperandsTrack host steady op left right left' right') : ViewTracks steady
      (.composite type text (binaryEvaluate host type op left right) items)
      (.composite type text' (binaryEvaluate host type op left' right') items') := by
  intro d
  rw [getValue_composite, getValue_composite, binaryEvaluate_result, binaryEvaluate_result]
  exact createNum_tracks (binaryValue_tracks type op hleft hright h)
    (fun _ => binaryValue_isVerdict) (fun _ => binaryValue_isVerdict) d

theorem operatorNot_tracks (type : ValueType)
    (hsteady : steady = true → type ≠ .int ∧ type ≠ .date) (h : ViewTracks steady left left')
    (d : Domain) : Tracks steady
      ((operatorNot host now type left).result.bind fun v => (v.getValue d.type).result)
      ((operatorNot host now type left').result.bind fun v => (v.getValue d.type).result) := by
  rw [operatorNot_result, operatorNot_result]
  by_cases hnegates : negates type = true
  · rw [if_pos hnegates, if_pos hnegates]
    have hmap : ∀ v : View, ((v.getValue .int).result.bind fun c =>
        (notVerdict now type c).map (view host)) =
        ((v.getValue .int).result.bind fun c => notVerdict now type c).map
          (view host) := by
      intro v
      cases (v.getValue .int).result <;> rfl
    rw [hmap, hmap]
    exact verdictView_tracks (notVerdict_tracks now type hsteady h) d
  · rw [if_neg hnegates, if_neg hnegates]
    exact verdictView_tracks (verdictTracks_refl (.ok ⟨0, true⟩)) d

theorem createFalse_tracks (d : Domain) :
    Tracks steady ((View.createFalse host).getValue d.type).result
      ((View.createFalse host).getValue d.type).result := by
  change Tracks steady ((view host ⟨0, false⟩).getValue d.type).result
    ((view host ⟨0, false⟩).getValue d.type).result
  exact verdictView_tracks (verdictTracks_refl (.ok ⟨0, false⟩)) d

end

end Nscp.Where
