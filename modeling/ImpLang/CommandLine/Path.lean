import ImpLang.Text.Line

/-!
Paths. A path is cut at its slashes into steps. An empty step and a single dot stay where they are,
two dots lead up, and any other step is the name of something in the directory reached so far.
-/

namespace ImpLang.CommandLine

def pathSteps (path : String) : List String :=
  (Text.splitAtEach '/' path.toList).map String.ofList

def isIdleStep (step : String) : Bool :=
  step = "" || step = "."

def isAbsolutePath (path : String) : Bool :=
  path.toList.head? = some '/'

def movingSteps (path : String) : List String :=
  (pathSteps path).filter fun step => !isIdleStep step

/-- The slashes with which a tidy path starts. Exactly two are kept, and more count as one. -/
def pathRoot (path : String) : String :=
  match (path.toList.takeWhile (· == '/')).length with
  | 0 => ""
  | 2 => "//"
  | _ => "/"

/-- The path without the steps that stay where they are, in particular without a slash at its end. A
path with no other steps is a single dot. -/
def tidyPath (path : String) : String :=
  match pathRoot path ++ "/".intercalate (movingSteps path) with
  | "" => "."
  | tidied => tidied

def maxNameBytes : Nat := 255

def maxPathBytes : Nat := 4095

end ImpLang.CommandLine
