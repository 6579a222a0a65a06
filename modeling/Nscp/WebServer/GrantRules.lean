import Nscp.WebServer.SessionManager

/-!
# What a grant covers

A rule and a required grant are names with dots between them.  A star at the end of a rule stands
for one or more further names; the walk over the names takes a star anywhere for that.
-/

namespace Nscp.WebServer

open List

/-- Non-empty names, to be written with dots between them. -/
structure Grant where
  names : List Text
  proper : ∀ name ∈ names, '.' ∉ name ∧ name ≠ []

namespace Grant

def text (g : Grant) : Text := ['.'].intercalate g.names

theorem getlines_text (g : Grant) : Text.getlines '.' g.text = g.names :=
  Text.getlines_intercalate (fun name h => (g.proper name h).1)
    fun name h => (g.proper name (mem_of_getLast? h)).2

def star : Text := ['*']

/-- The two are equal, or the rule ends in a star and the required grant goes on from there. -/
def Covers (rule need : Grant) : Prop :=
  rule.names = need.names ∨ ∃ p, rule.names = p ++ [star] ∧ p <+: need.names ∧ p ≠ need.names

/-- A star with names behind it stands where the required grant goes on. -/
def Overreaches (rule need : Grant) : Prop :=
  ∃ p q, rule.names = p ++ star :: q ∧ q ≠ [] ∧ p <+: need.names ∧ p ≠ need.names

end Grant

namespace GrantStore

open Grant (star)

theorem validateGrants_iff (rule need : List Text) : validateGrants rule need = true ↔
    rule = need ∨ ∃ p q, rule = p ++ star :: q ∧ p <+: need ∧ p ≠ need := by
  induction rule, need using validateGrants.induct with
  | case1 rule =>
    cases rule <;> simp [validateGrants]
  | case2 n need => simp [validateGrants]
  | case3 rule n need =>
    rw [validateGrants, if_pos rfl]
    exact iff_of_true rfl (.inr ⟨[], rule, rfl, nil_prefix, cons_ne_nil _ _ |>.symm⟩)
  | case4 g rule n need hstar hne =>
    rw [validateGrants, if_neg hstar, if_pos hne]
    refine iff_of_false Bool.false_ne_true ?_
    rintro (h | ⟨p, q, h, hp, -⟩)
    · exact hne (cons.inj h).1.symm
    · cases p with
      | nil => exact hstar (cons.inj h).1
      | cons g' p =>
        have hg := (cons.inj h).1
        exact hne (hg.trans (cons_prefix_cons.mp hp).1).symm
  | case5 g rule n need hstar hsame ih =>
    obtain rfl : n = g := not_not.mp hsame
    rw [validateGrants, if_neg hstar, if_neg hsame, ih]
    refine or_congr (by simp) ⟨?_, ?_⟩
    · rintro ⟨p, q, rfl, hp, hne⟩
      exact ⟨n :: p, q, rfl, cons_prefix_cons.mpr ⟨rfl, hp⟩, by simpa using hne⟩
    · rintro ⟨p, q, h, hp, hne⟩
      cases p with
      | nil => exact absurd (cons.inj h).1 hstar
      | cons g' p =>
        obtain ⟨rfl, hp'⟩ := cons_prefix_cons.mp hp
        exact ⟨p, q, (cons.inj h).2, hp', by simpa using hne⟩

theorem validateGrants_text_iff (rule need : Grant) :
    validateGrants (Text.getlines '.' rule.text) (Text.getlines '.' need.text) = true ↔
      rule.Covers need ∨ rule.Overreaches need := by
  rw [rule.getlines_text, need.getlines_text, validateGrants_iff, Grant.Covers, or_assoc]
  refine or_congr_right ⟨?_, ?_⟩
  · rintro ⟨p, q, hrule, hp⟩
    by_cases hq : q = []
    · exact .inl ⟨p, hq ▸ hrule, hp⟩
    · exact .inr ⟨p, q, hrule, hq, hp⟩
  · rintro (⟨p, hrule, hp⟩ | ⟨p, q, hrule, -, hp⟩)
    · exact ⟨p, [], hrule, hp⟩
    · exact ⟨p, q, hrule, hp⟩

/-- A user without a role is granted nothing and a user with one what its rules cover, exactly when
no rule reaches over names behind a star to something that none of them covers. -/
theorem validate_covers_iff (g : GrantStore) (uid : Text) (rules : List Grant)
    (hrules : g.fetchRole uid = rules.map Grant.text) (need : Grant) :
    ((g.getRole uid = [] → g.validate uid need.text = false) ∧
      (g.validate uid need.text = true ↔ ∃ rule ∈ rules, rule.Covers need)) ↔
      ((∃ rule ∈ rules, rule.Overreaches need) → ∃ rule ∈ rules, rule.Covers need) := by
  have hvalidate : g.validate uid need.text = true ↔
      (∃ rule ∈ rules, rule.Covers need) ∨ ∃ rule ∈ rules, rule.Overreaches need := by
    rw [validate, hrules]
    simp [Function.comp, validateGrants_text_iff, and_or_left, exists_or]
  have hnone : g.getRole uid = [] → g.validate uid need.text = false := by
    intro h
    rw [validate, fetchRole, h]
    rfl
  rw [and_iff_right hnone, hvalidate]
  exact or_iff_left_iff_imp

def withRule (rule : Grant) : GrantStore where
  roles _ := some [rule.text]
  users _ := some "role".toList

def listQueries : Grant := ⟨["queries".toList, "list".toList], by decide⟩

def queriesAny : Grant := ⟨["queries".toList, star], by decide⟩

def executeAny : Grant := ⟨["queries".toList, star, "execute".toList], by decide⟩

theorem validate_covers_listQueries :
    (withRule queriesAny).validate [] listQueries.text = true := by
  have hcovers : ∃ rule ∈ [queriesAny], rule.Covers listQueries :=
    ⟨_, mem_singleton_self _, .inr ⟨["queries".toList], rfl, ⟨_, rfl⟩, by decide⟩⟩
  have h := validate_covers_iff (withRule queriesAny) [] [queriesAny] rfl listQueries
  exact (h.mpr fun _ => hcovers).2.mpr hcovers

/-- The names behind a star are not looked at. -/
theorem executeAny_grants_list :
    (withRule executeAny).validate [] listQueries.text = true ∧
      ¬ executeAny.Covers listQueries := by
  refine ⟨by decide, ?_⟩
  rintro (h | ⟨p, h, -⟩)
  · exact absurd h (by decide)
  · have hlast := congrArg getLast? h
    rw [getLast?_append, getLast?_singleton, Option.some_or] at hlast
    exact absurd hlast (by decide)

end GrantStore

end Nscp.WebServer
