import Nscp.Library.Replace

/-!
# Running an external script

The command of a script is a template.  The arguments of a request are put into it in two forms
side by side: into the text, and into the tokens of the template, which become the argument vector
the launcher is given.  Only when there is no argument vector the launcher interprets the text.
-/

namespace Nscp.ExternalScripts

open Replace

/-! ## Settings and requests -/

structure Command where
  aliasName : List Char
  command : List Char
  user : List Char := []
  domain : List Char := []
  password : List Char := []

structure Settings where
  allowArgs : Bool
  allowNasty : Bool
  windows : Bool

structure ExecArguments where
  aliasName : List Char
  command : List Char
  argv : List (List Char) := []
  user : List Char := []
  domain : List Char := []
  password : List Char := []
  deriving DecidableEq

def nastyMetachars : List Char :=
  "|\x60&><\x27\"\\[]\x7b\x7d".toList

def shellMetachars : List Char :=
  "|\x60&><\x27\"\\[]\x7b\x7d$;()*?~!\n\r%^".toList

def holdsAny (metachars text : List Char) : Bool :=
  text.any (· ∈ metachars)

/-! ## Substitution -/

def appendList (list text sep : List Char) : List Char :=
  if text = [] then list
  else if list = [] then text
  else list ++ sep ++ text

def quoted (text : List Char) : List Char :=
  '"' :: text ++ ['"']

def dollarArg (i : ℕ) : List Char :=
  "$ARG".toList ++ Nat.toDigits 10 i ++ "$".toList

def percentArg (i : ℕ) : List Char :=
  "%ARG".toList ++ Nat.toDigits 10 i ++ "%".toList

def dollarArgs : List Char := "$ARGS$".toList

def percentArgs : List Char := "%ARGS%".toList

def dollarArgsQuoted : List Char := "$ARGS\"$".toList

def percentArgsQuoted : List Char := "%ARGS\"%".toList

def substituteNumbered (text : List Char) : ℕ → List (List Char) → List Char
  | _, [] => text
  | i, arg :: args =>
    substituteNumbered (replace (percentArg i) arg (replace (dollarArg i) arg text)) (i + 1) args

def substituteAll (text all allesc : List Char) : List Char :=
  replace percentArgsQuoted allesc (replace dollarArgsQuoted allesc
    (replace percentArgs all (replace dollarArgs all text)))

def joined (args : List (List Char)) : List Char :=
  args.foldl (fun all arg => appendList all arg [' ']) []

def joinedQuoted (args : List (List Char)) : List Char :=
  args.foldl (fun allesc arg => appendList allesc (quoted arg) [' ']) []

/-- A text of the template, with every placeholder replaced. -/
def substitute (args : List (List Char)) (text : List Char) : List Char :=
  substituteAll (substituteNumbered text 1 args) (joined args) (joinedQuoted args)

/-- A token that stands for all arguments, each one an element of its own. -/
def isSplat (token : List Char) : Bool :=
  token = dollarArgs || token = percentArgs || token = dollarArgsQuoted ||
    token = percentArgsQuoted

def expandToken (args : List (List Char)) (token : List Char) : List (List Char) :=
  if isSplat token then args else [substitute args token]

/-! ## The handler -/

/-- The arguments one after another, up to one that is refused. -/
def validate (allowNasty : Bool) : List (List Char) → Except (List Char) Unit
  | [] => .ok ()
  | arg :: args =>
    if '\x00' ∈ arg then
      .error ("Request contained a NUL byte in an argument, which would truncate the ".toList ++
        "command line.".toList)
    else if !allowNasty && holdsAny nastyMetachars arg then
      .error ("Request contained illegal characters set /settings/external scripts/allow ".toList ++
        "nasty characters=true!".toList)
    else validate allowNasty args

def parseCommand (tokenise : List Char → Option (List (List Char))) (command : List Char) :
    Option (List (List Char)) :=
  (tokenise command).map (List.filter (· ≠ []))

def launch (settings : Settings) (cd : Command) (cmdline : List Char) (template : List (List Char))
    (args argv : List (List Char)) : Except (List Char) ExecArguments :=
  if (template = [] || argv = []) && !settings.allowNasty && args.any (holdsAny shellMetachars) then
    .error ("Request contained illegal characters for the shell fallback path; see ".toList ++
      "nsclient.log (allow nasty characters=true to override).".toList)
  else if !settings.windows && !(cd.user = [] && cd.domain = [] && cd.password = []) then
    .error ("Refusing to run ".toList ++ cd.aliasName ++
      ": the user, domain and password settings are only supported on Windows; on Linux ".toList ++
      "prefix the command with sudo (for example \x60command = sudo -n -u <user> ".toList ++
      "/path/to/script\x60) and grant it in sudoers instead".toList)
  else
    .ok {
      aliasName := cd.aliasName
      command := cmdline
      argv := if template = [] || argv = [] then [] else argv
      user := cd.user
      domain := if cd.user = [] then [] else cd.domain
      password := if cd.user = [] then [] else cd.password }

def handleCommand (tokenise : List Char → Option (List (List Char))) (settings : Settings)
    (cd : Command) (args : List (List Char)) : Except (List Char) ExecArguments :=
  let template := (parseCommand tokenise cd.command).getD []
  if settings.allowArgs then
    match validate settings.allowNasty args with
    | .error message => .error message
    | .ok () =>
      launch settings cd (substitute args cd.command) template args
        (template.flatMap (expandToken args))
  else if args ≠ [] then .error "Arguments not allowed see nsclient.log for details".toList
  else launch settings cd cd.command template [] template

end Nscp.ExternalScripts
