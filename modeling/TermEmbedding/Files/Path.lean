import TermEmbedding.Table
import TermEmbedding.Text.Quoted

/-!
# Paths of files

A path is written by a user and may begin with a tilde, for a home directory, or mention variables
of the environment. What names no account and no variable stays as it is written. What is left is
split at the slashes; parts that are empty or a single dot say nothing and are dropped, while two
dots stay, since what they mean depends on the directories of the day.
-/

namespace TermEmbedding

/-- What a path may mention: variables, and the accounts of the machine by their directories. -/
structure Environment where
  /-- The values of variables. -/
  values : Table Text Text
  /-- The home directories of accounts. -/
  homes : Table Text Text
deriving Inhabited

namespace Environment

def get? (environment : Environment) (name : Text) : Option Text := environment.values.get? name

/-- The home directory of an account. Without a name it is that of the user. -/
def home? (environment : Environment) (account : Text) : Option Text :=
  if account = [] then environment.get? "HOME".toList else environment.homes.get? account

end Environment

/-- A path, split at its slashes. -/
structure Path where
  /-- The slashes at the beginning: none, one or two. -/
  root : Text
  parts : List Text
deriving DecidableEq, Inhabited

namespace Path

/-! ## Variables -/

/-- The characters of the name of a variable that is written without braces. -/
def isNameChar (c : Char) : Bool := c.isAlphanum || c = '_'

/-- The text of a mention of a variable: its value, or the mention as it is written. -/
def mentioned (environment : Environment) (name mention : Text) : Text :=
  (environment.get? name).getD mention

/-- A text with the values of variables in the place of their mentions. -/
def expandVariables (environment : Environment) (t : Text) : Text :=
  match t with
  | [] => []
  | '$' :: '\x7b' :: rest =>
    let name := rest.takeWhile (· ≠ '\x7d')
    match h : rest.dropWhile (· ≠ '\x7d') with
    | [] => '$' :: expandVariables environment ('\x7b' :: rest)
    | _ :: after =>
      have : after.length < rest.length := by
        have hle := (List.dropWhile_sublist (· ≠ '\x7d') (l := rest)).length_le
        rw [h] at hle
        exact hle
      mentioned environment name ('$' :: '\x7b' :: name ++ ['\x7d']) ++
        expandVariables environment after
  | '$' :: rest =>
    let name := rest.takeWhile isNameChar
    have : (rest.dropWhile isNameChar).length ≤ rest.length :=
      (List.dropWhile_sublist isNameChar).length_le
    if name = [] then '$' :: expandVariables environment rest
    else
      mentioned environment name ('$' :: name) ++
        expandVariables environment (rest.dropWhile isNameChar)
  | c :: rest => c :: expandVariables environment rest
termination_by t.length
decreasing_by all_goals simp only [List.length_cons]; omega

/-- A text with a home directory in the place of a tilde that begins it and the name of an account
behind the tilde. If there is no such account the text stays as it is. -/
def expandHome (environment : Environment) (t : Text) : Text :=
  match t with
  | '~' :: rest =>
    match environment.home? (rest.takeWhile (· ≠ '/')) with
    | none => t
    | some home =>
      match (home.reverse.dropWhile (· = '/')).reverse ++ rest.dropWhile (· ≠ '/') with
      | [] => ['/']
      | expanded => expanded
  | _ => t

/-! ## Parts -/

def ofText (t : Text) : Path where
  root :=
    match t.takeWhile (· = '/') with
    | [] => []
    | ['/', '/'] => ['/', '/']
    | _ => ['/']
  parts := (Text.pieces '/' t).filter fun part ↦ part ≠ [] && part ≠ ['.']

/-- The path that a text spells in an environment. -/
def expand (environment : Environment) (t : Text) : Path :=
  ofText (expandVariables environment (expandHome environment t))

def text (p : Path) : Text :=
  match p.root ++ Text.join ['/'] p.parts with
  | [] => ['.']
  | t => t

/-- The end of the last part from its last dot on, if there is something on both sides of it. -/
def suffix (p : Path) : Text :=
  let name := (p.parts.getLast?.getD []).reverse
  match name.takeWhile (· ≠ '.'), name.dropWhile (· ≠ '.') with
  | [], _ => []
  | _, [] => []
  | _, [_] => []
  | ending, _ => '.' :: ending.reverse

/-- Whether a path can be passed on: no name holds the zero character. -/
def isPassable (p : Path) : Bool := p.parts.all fun part ↦ '\x00' ∉ part

end Path

end TermEmbedding
