/-!
Dotted paths. The path of a field is the path of its mapping, a dot and the field's name; at the
root the path is empty and a field's path is its name alone.
-/

set_option autoImplicit false
set_option relaxedAutoImplicit false

namespace Assay.Path

/-- The path of the field `key` of the mapping at `path`. -/
def child (path key : String) : String := if path = "" then key else path ++ "." ++ key

/-- What stands behind the last dot of a list of characters; all of it if there is no dot. -/
def lastSegment (s : List Char) : List Char := (s.reverse.takeWhile (· ≠ '.')).reverse

/-- The last segment of a path: what stands behind its last dot. -/
def key (path : String) : String := String.ofList (lastSegment path.toList)

/-- A path for display: the given word stands for the empty path. -/
def shown (path atRoot : String) : String := if path = "" then atRoot else path

end Assay.Path
