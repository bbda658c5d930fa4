/-!
File paths in their plain form: without empty segments and segments that are a single dot. The
empty path is the dot. Two leading slashes are kept, any other number of them counts as one.
-/

set_option autoImplicit false

namespace MonkeyLang.Command

def pathRoot : List Char → String
  | '/' :: '/' :: '/' :: _ => "/"
  | '/' :: '/' :: _ => "//"
  | '/' :: _ => "/"
  | _ => ""

def pathSegments (path : String) : List String :=
  ((path.toList.splitOnP (· = '/')).filter fun segment => !(segment = [] ∨ segment = ['.'])).map
    .ofList

def plainPath (path : String) : String :=
  let text := pathRoot path.toList ++ "/".intercalate (pathSegments path)
  if text = "" then "." else text

end MonkeyLang.Command
