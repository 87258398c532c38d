import DiagnosticFeed.Json.Value

/-!
# Members in the order of their keys

`Json.sorted` puts the members of every object of a value in ascending order of
their keys, at every depth.
-/

namespace DiagnosticFeed.Json

/-- Put a member in front of the first member with a greater key. -/
def placeMember (k : Option String) (v : Json) :
    List (Option String × Json) → List (Option String × Json)
  | [] => [(k, v)]
  | (k', v') :: rest =>
    if k.getD "" < k'.getD "" then (k, v) :: (k', v') :: rest
    else (k', v') :: placeMember k v rest

mutual

def sorted : Json → Json
  | .array vs => .array (sortedElements vs)
  | .object ms => .object (sortedMembers ms)
  | v => v

def sortedElements : List Json → List Json
  | [] => []
  | v :: vs => sorted v :: sortedElements vs

def sortedMembers : List (Option String × Json) → List (Option String × Json)
  | [] => []
  | (k, v) :: ms => placeMember k (sorted v) (sortedMembers ms)

end

end DiagnosticFeed.Json
