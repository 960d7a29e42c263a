import Badger.Text.Basic

/-!
# File paths

Paths as texts, taken apart at slashes. All of this is a matter of spelling: no file is
looked at.

## Main definitions

* `Path.clean`: the shortest spelling of a path
* `Path.join`: two paths laid end to end, cleaned
* `Path.base`: the last name in a path
* `Path.expandHome`: a path in which `~/` stands for the home directory
-/

namespace Badger.Path

/-- The byte between names. -/
def slash : UInt8 := 47

/-- The name of the same directory. -/
def here : Text := utf8 "."

/-- The name of the directory around. -/
def up : Text := utf8 ".."

/-- Whether a path starts at the root. -/
def isAbsolute : Text → Bool
  | b :: _ => b == slash
  | [] => false

/-- The names in a path, empty ones included. -/
def names (p : Text) : List Text := p.splitOn slash

/-- Takes one more name of a path into account; `done` holds the names that are left, last
one first. A step up removes a name if there is one, and is kept unless the path is
`rooted`. -/
def step (rooted : Bool) (done : List Text) (name : Text) : List Text :=
  if name = [] || name = here then done
  else if name = up then
    match done with
    | [] => if rooted then [] else [up]
    | last :: others => if last = up then up :: done else others
  else name :: done

/-- **The shortest spelling of a path**: without empty names, without `.`, and with `..`
only at the front of a path that does not start at the root. -/
def clean (p : Text) : Text :=
  let rooted := isAbsolute p
  let kept := ((names p).foldl (step rooted) []).reverse
  let body := Text.join [slash] kept
  if rooted then slash :: body else if body.isEmpty then here else body

/-- **Two paths laid end to end**, cleaned; empty ones are left out. -/
def join (p q : Text) : Text :=
  if p.isEmpty && q.isEmpty then []
  else if p.isEmpty then clean q
  else if q.isEmpty then clean p
  else clean (p ++ slash :: q)

/-- **The last name in a path.** -/
def base (p : Text) : Text :=
  if p.isEmpty then here
  else
    match (Text.dropTrailing slash p).reverse.takeWhile (· != slash) with
    | [] => [slash]
    | name => name.reverse

/-- **A path in which a leading `~/` stands for the home directory**; without a home
directory it stays as it is. -/
def expandHome (home p : Text) : Text :=
  if Text.startsWith p (utf8 "~/") && !home.isEmpty then join home (p.drop 2) else p

end Badger.Path
