import Nscp.ExternalScripts.HandleCommand

/-!
# Arguments of external scripts stay apart

The argument vector of a launch has the shape of the template: each token is one element, whatever
the arguments hold, and only a token that stands for all arguments gives way to them.  Where the
launcher has to interpret the text, the arguments hold nothing a shell would act on.
-/

namespace Nscp.ExternalScripts

open List Replace

/-! ## Tokens without a placeholder -/

def placeholders (n : ℕ) : List (List Char) :=
  (range n).flatMap (fun i => [dollarArg (i + 1), percentArg (i + 1)]) ++
    [dollarArgs, percentArgs, dollarArgsQuoted, percentArgsQuoted]

theorem numbered_mem_placeholders {i n : ℕ} (h : i < n) :
    dollarArg (i + 1) ∈ placeholders n ∧ percentArg (i + 1) ∈ placeholders n := by
  have hboth : ∀ p ∈ [dollarArg (i + 1), percentArg (i + 1)], p ∈ placeholders n := by
    intro p hp
    apply mem_append_left
    exact mem_flatMap.mpr ⟨i, mem_range.mpr h, hp⟩
  exact ⟨hboth _ mem_cons_self, hboth _ (mem_cons_of_mem _ mem_cons_self)⟩

theorem substituteNumbered_of_no_placeholder {text : List Char} {n i : ℕ}
    (h : ∀ p ∈ placeholders n, ¬ p <:+: text) (args : List (List Char))
    (hn : i + args.length = n) : substituteNumbered text (i + 1) args = text := by
  induction args generalizing i with
  | nil => rfl
  | cons arg args ih =>
    rw [length_cons] at hn
    obtain ⟨hdollar, hpercent⟩ := numbered_mem_placeholders (show i < n by omega)
    rw [substituteNumbered, replace_of_not_infix (h _ hdollar), replace_of_not_infix (h _ hpercent)]
    apply ih
    omega

theorem substitute_of_no_placeholder {text : List Char} {args : List (List Char)}
    (h : ∀ p ∈ placeholders args.length, ¬ p <:+: text) : substitute args text = text := by
  have hall : ∀ p ∈ [dollarArgs, percentArgs, dollarArgsQuoted, percentArgsQuoted],
      ¬ p <:+: text := fun p hp => h p (mem_append_right _ hp)
  have hnumbered : substituteNumbered text 1 args = text :=
    substituteNumbered_of_no_placeholder h args (Nat.zero_add _)
  rw [substitute, hnumbered, substituteAll, replace_of_not_infix (hall _ (by simp)),
    replace_of_not_infix (hall _ (by simp)), replace_of_not_infix (hall _ (by simp)),
    replace_of_not_infix (hall _ (by simp))]

/-! ## What a launch went through -/

section Launched

variable {tokenise : List Char → Option (List (List Char))} {settings : Settings} {cd : Command}
  {args argv template : List (List Char)} {cmdline : List Char} {exec : ExecArguments}

theorem no_nul_of_validate {allowNasty : Bool} (h : validate allowNasty args = .ok ()) :
    ∀ arg ∈ args, '\x00' ∉ arg := by
  induction args with
  | nil => exact fun _ harg => (nomatch harg)
  | cons arg args ih =>
    rw [validate] at h
    split_ifs at h with hnul
    exact forall_mem_cons.mpr ⟨hnul, ih h⟩

theorem of_launch (h : launch settings cd cmdline template args argv = .ok exec) :
    exec.argv = (if template = [] then [] else argv) ∧
      (exec.argv = [] → settings.allowNasty = false →
        ∀ arg ∈ args, holdsAny shellMetachars arg = false) := by
  rw [launch] at h
  split at h
  · cases h
  · next hshell =>
      split at h
      · cases h
      · cases h
        by_cases hnone : template = [] ∨ argv = []
        · have hfallback : (decide (template = []) || decide (argv = [])) = true := by
            rwa [Bool.or_eq_true, decide_eq_true_eq, decide_eq_true_eq]
          rw [hfallback] at hshell
          rw [if_pos hfallback]
          refine ⟨?_, fun _ hnasty arg harg => ?_⟩
          · rcases hnone with ht | ha
            · rw [if_pos ht]
            · rw [ha, ite_self]
          · rw [hnasty, Bool.not_false, Bool.and_self, Bool.true_and, any_eq_true] at hshell
            rw [← Bool.not_eq_true]
            exact fun hany => hshell ⟨arg, harg, hany⟩
        · have hvector : ¬ (decide (template = []) || decide (argv = [])) = true := by
            rwa [Bool.or_eq_true, decide_eq_true_eq, decide_eq_true_eq]
          obtain ⟨htemplate, hargv⟩ := not_or.mp hnone
          rw [if_neg hvector, if_neg htemplate]
          exact ⟨rfl, fun hnil => absurd hnil hargv⟩

theorem handleCommand_of_allowArgs (hallow : settings.allowArgs = true)
    (h : handleCommand tokenise settings cd args = .ok exec) :
    (∀ arg ∈ args, '\x00' ∉ arg) ∧
      launch settings cd (substitute args cd.command) ((parseCommand tokenise cd.command).getD [])
        args (((parseCommand tokenise cd.command).getD []).flatMap (expandToken args)) =
          .ok exec := by
  rw [handleCommand] at h
  rw [if_pos hallow] at h
  cases hvalid : validate settings.allowNasty args with
  | error message =>
    rw [hvalid] at h
    cases h
  | ok _ =>
    rw [hvalid] at h
    exact ⟨no_nul_of_validate hvalid, h⟩

theorem handleCommand_of_not_allowArgs (hallow : settings.allowArgs = false)
    (h : handleCommand tokenise settings cd args = .ok exec) :
    args = [] ∧ launch settings cd cd.command ((parseCommand tokenise cd.command).getD []) []
        ((parseCommand tokenise cd.command).getD []) = .ok exec := by
  rw [handleCommand] at h
  rw [if_neg (Bool.not_eq_true _ ▸ hallow)] at h
  split_ifs at h with hargs
  exact ⟨not_not.mp hargs, h⟩

end Launched

/-! ## The contract of a launch -/

/-- The vector has one element for each token that is not a splat, and the arguments one for one at
each splat. -/
def Shaped (args tokens argv : List (List Char)) : Prop :=
  ∃ element : List Char → List Char,
    (∀ token ∈ tokens, (∀ p ∈ placeholders args.length, ¬ p <:+: token) → element token = token) ∧
    argv = tokens.flatMap fun token => if isSplat token then args else [element token]

/-- What holds of every request. -/
structure Contract (tokenise : List Char → Option (List (List Char))) (settings : Settings)
    (cd : Command) (args : List (List Char)) : Prop where
  shaped : ∀ exec, handleCommand tokenise settings cd args = .ok exec →
    settings.allowArgs = true → ∀ tokens, parseCommand tokenise cd.command = some tokens →
      Shaped args tokens exec.argv
  verbatim : ∀ exec, handleCommand tokenise settings cd args = .ok exec →
    settings.allowArgs = false → ∀ tokens, parseCommand tokenise cd.command = some tokens →
      exec.argv = tokens
  fallback : ∀ exec, handleCommand tokenise settings cd args = .ok exec → exec.argv = [] →
    settings.allowNasty = false → ∀ arg ∈ args, holdsAny shellMetachars arg = false
  noNul : ∀ exec, handleCommand tokenise settings cd args = .ok exec → ∀ arg ∈ args, '\x00' ∉ arg
  disallowed : settings.allowArgs = false → args ≠ [] →
    ∀ exec, handleCommand tokenise settings cd args ≠ .ok exec

theorem argv_of_launch {settings : Settings} {cd : Command} {cmdline : List Char}
    {args tokens : List (List Char)} {f : List (List Char) → List (List Char)} (hf : f [] = [])
    {exec : ExecArguments} (h : launch settings cd cmdline tokens args (f tokens) = .ok exec) :
    exec.argv = f tokens := by
  rw [(of_launch h).1]
  split_ifs with hnil
  · rw [hnil, hf]
  · rfl

/-- Arguments stay apart in every launch; without them the tokens are handed on as they are. -/
theorem arguments_isolated (tokenise : List Char → Option (List (List Char))) (settings : Settings)
    (cd : Command) (args : List (List Char)) : Contract tokenise settings cd args := by
  refine ⟨?_, ?_, ?_, ?_, ?_⟩
  · intro exec h hallow tokens htokens
    obtain ⟨-, hlaunch⟩ := handleCommand_of_allowArgs hallow h
    rw [htokens, Option.getD_some] at hlaunch
    have hargv : exec.argv = tokens.flatMap (expandToken args) :=
      argv_of_launch (f := fun tokens => tokens.flatMap (expandToken args)) rfl hlaunch
    exact ⟨substitute args, fun token _ hfree => substitute_of_no_placeholder hfree, hargv⟩
  · intro exec h hallow tokens htokens
    obtain ⟨-, hlaunch⟩ := handleCommand_of_not_allowArgs hallow h
    rw [htokens, Option.getD_some] at hlaunch
    exact argv_of_launch (f := id) rfl hlaunch
  · intro exec h hnil hnasty arg harg
    cases hallow : settings.allowArgs with
    | true => exact (of_launch (handleCommand_of_allowArgs hallow h).2).2 hnil hnasty arg harg
    | false =>
      rw [(handleCommand_of_not_allowArgs hallow h).1] at harg
      cases harg
  · intro exec h arg harg
    cases hallow : settings.allowArgs with
    | true => exact (handleCommand_of_allowArgs hallow h).1 arg harg
    | false =>
      rw [(handleCommand_of_not_allowArgs hallow h).1] at harg
      cases harg
  · intro hallow hargs exec h
    exact hargs (handleCommand_of_not_allowArgs hallow h).1

/-- Where arguments are not allowed a splat is not taken out, so the script is handed its text. -/
theorem splat_kept_without_arguments :
    ∃ exec, handleCommand (fun _ => some ["s".toList, dollarArgs]) ⟨false, false, false⟩
        { aliasName := "s".toList, command := "s $ARGS$".toList } [] = .ok exec ∧
      exec.argv = ["s".toList, "$ARGS$".toList] ∧
      ¬ Shaped [] ["s".toList, dollarArgs] exec.argv := by
  refine ⟨_, rfl, rfl, ?_⟩
  rintro ⟨element, -, hargv⟩
  have hlength := congrArg length hargv
  change 2 = 1 at hlength
  exact absurd hlength (by decide)

end Nscp.ExternalScripts
