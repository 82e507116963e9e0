import MarkdownTemplates.Failure
import MarkdownTemplates.Resolver

/-!
# Documents in files

Reading the document in a file that is named directly, and not by a reference.
-/

namespace MarkdownTemplates

namespace World

/-- The document in a file. -/
def document (w : World) (p : Path) : Except Failure Document :=
  match w.files.readText (w.cwd.join p) with
  | .ok text => .ok (.parse text.toList)
  | .error e => .error (.ofFileError p.text e)

end World

end MarkdownTemplates
