import Mathlib

/-!
# Paths

`path/filepath` of Go on a Unix system. A path is a string, and its functions are lexical: no
function here looks at a file system.
-/

namespace Mastermind.Path

/-- The elements between the separators, without the empty ones. -/
def elements (path : String) : List String :=
  ((path.toList.splitOn '/').filter (· ≠ [])).map String.ofList

/-- Whether the path begins at the root. -/
def isAbs (path : String) : Bool := path.toList.head? = some '/'

/-- The elements of a path after one more. What `..` leads out of is dropped, and the root leads
nowhere out. -/
def descend (rooted : Bool) (out : List String) (element : String) : List String :=
  if element = "." then out
  else if element = ".." then
    match out.getLast? with
    | none => if rooted then [] else [".."]
    | some last => if last = ".." then out ++ [".."] else out.dropLast
  else out ++ [element]

/-- The path of some elements. -/
def assemble (rooted : Bool) (out : List String) : String :=
  if rooted then "/" ++ "/".intercalate out
  else if out = [] then "." else "/".intercalate out

/-- `filepath.Clean`. -/
def clean (path : String) : String :=
  assemble (isAbs path) ((elements path).foldl (descend (isAbs path)) [])

/-- `filepath.Join`. -/
def join (parts : List String) : String :=
  match parts.dropWhile (· = "") with
  | [] => ""
  | parts => clean ("/".intercalate parts)

/-- `filepath.Base`. -/
def base (path : String) : String :=
  if path = "" then "."
  else match (elements path).getLast? with
    | none => "/"
    | some last => last

/-- `filepath.Dir`. -/
def dir (path : String) : String :=
  clean (String.ofList (path.toList.reverse.dropWhile (· ≠ '/')).reverse)

/-- What remains of two lists after what they begin with alike. -/
def dropCommon : List String → List String → List String × List String
  | a :: as, b :: bs => if a = b then dropCommon as bs else (a :: as, b :: bs)
  | as, bs => (as, bs)

/-- `filepath.Rel`. -/
def rel (basepath targpath : String) : Option String :=
  let base := clean basepath
  let targ := clean targpath
  if targ = base then some "."
  else if isAbs base ≠ isAbs targ then none
  else
    let (up, down) := dropCommon (if base = "." then [] else elements base) (elements targ)
    if up.head? = some ".." then none
    else some ("/".intercalate (List.replicate up.length ".." ++ down))

end Mastermind.Path
