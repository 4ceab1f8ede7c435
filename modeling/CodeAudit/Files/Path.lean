import CodeAudit.Text.Basic

namespace CodeAudit.Path

def parts : Text → List Text
  | [] => [[]]
  | c :: rest =>
    if c == '/' then [] :: parts rest
    else match parts rest with
      | [] => [[c]]
      | p :: ps => (c :: p) :: ps

def base (path : Text) : Text :=
  (path.reverse.takeWhile (· != '/')).reverse

def stem (path : Text) : Text :=
  let name := base path
  let bare := name.dropWhile (· == '.')
  if bare.contains '.' then
    let extension := (bare.reverse.takeWhile (· != '.')).length + 1
    path.take (path.length - extension)
  else path

def normalParts (absolute : Bool) : (told rest : List Text) → List Text
  | told, [] => told.reverse
  | told, p :: ps =>
    if p == [] || p == ['.'] then normalParts absolute told ps
    else if p == ['.', '.'] then
      match told with
      | [] => normalParts absolute (if absolute then [] else [p]) ps
      | q :: qs => if q == ['.', '.'] then normalParts absolute (p :: told) ps
        else normalParts absolute qs ps
    else normalParts absolute (p :: told) ps

def join (ps : List Text) : Text :=
  ['/'].intercalate ps

def isAbsolute (path : Text) : Bool :=
  path.head? == some '/'

def resolve (home path : Text) : Text :=
  let full := if isAbsolute path then path else home ++ '/' :: path
  let absolute := isAbsolute full
  (if absolute then ['/'] else []) ++ join (normalParts absolute [] (parts full))

def inFolder (folder name : Text) : Text :=
  folder ++ '/' :: name

end CodeAudit.Path
