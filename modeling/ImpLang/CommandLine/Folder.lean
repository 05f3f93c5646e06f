import ImpLang.CommandLine.Path
import ImpLang.Script

/-!
A folder with files and directories, from inside which paths are followed step by step. Nothing is
known of what lies outside but that there are directories all the way up.
-/

namespace ImpLang.CommandLine

/-- A folder: its files with their bytes, and the directories in it. Both are named by their paths
from the folder; what is named on the way to them is a directory as well. -/
structure Folder where
  files : Bindings (List Nat) := []
  directories : List String := []

inductive Place where
  /-- The directory with these names on the way from the folder down to it. -/
  | inside (names : List String)
  | outside
  | file (bytes : List Nat)
  deriving DecidableEq, Repr

def Folder.file? (folder : Folder) (names : List String) : Option (List Nat) :=
  (folder.files.find? fun (path, _) => movingSteps path = names).map Prod.snd

def Folder.hasDirectory (folder : Folder) (names : List String) : Bool :=
  (folder.directories ++ folder.files.keys).any fun path => names.isPrefixOf (movingSteps path)

def Folder.enter (folder : Folder) (names : List String) : Except Script.Obstacle Place :=
  match folder.file? names with
  | some bytes => .ok (.file bytes)
  | none => if folder.hasDirectory names then .ok (.inside names) else .error .missing

/-- Takes one step. Even a step that stays where it is can be taken from a directory only. -/
def Folder.step (folder : Folder) : Place → String → Except Script.Obstacle Place
  | .file _, _ => .error .throughFile
  | place, name =>
    if isIdleStep name then .ok place
    else if maxNameBytes < name.utf8ByteSize then .error .nameTooLong
    else
      match place with
      | .inside names =>
        if name ≠ ".." then folder.enter (names ++ [name])
        else if names.isEmpty then .ok .outside
        else .ok (.inside names.dropLast)
      | place => if name = ".." then .ok place else .error .missing

def Folder.walk (folder : Folder) (place : Place) (steps : List String) :
    Except Script.Obstacle Place :=
  steps.foldlM folder.step place

def Place.source : Place → Script.Source
  | .file bytes => .file bytes
  | .inside _ | .outside => .directory

/-- What a path leads to from inside the folder. No path is empty or holds a null character. -/
def Folder.find (folder : Folder) (path : String) : Script.Lookup :=
  if path.isEmpty || path.toList.contains '\x00' then .error .missing
  else if maxPathBytes < path.utf8ByteSize then .error .nameTooLong
  else
    let start := if isAbsolutePath path then .outside else .inside []
    (folder.walk start (pathSteps path)).map Place.source

end ImpLang.CommandLine
