import Distant.Host.Remove

/-!
# What the SFTP server answers

Of a listing, the attributes are those of links themselves; all other calls follow links.
-/

namespace Distant

namespace Site

variable {β : Type} (site : Site)

/-- The entries of a directory. -/
def readDir (tree : FileTree String β) (path : FilePath String) :
    Option (List (PathStep String × FileKind String β)) :=
  (site.follow tree path).bind fun place =>
    if tree.isDir place = true then
      some ([(.stay, .dir), (.up, .dir)] ++
        (tree.entries place).map fun entry => (.name entry.1, entry.2))
    else none

/-- The absolute path of where the path leads. -/
def canonicalize (tree : FileTree String β) (path : FilePath String) : Option (FilePath String) :=
  (site.follow tree path).map fun place => ⟨true, place.map .name⟩

def readLink (tree : FileTree String β) (path : FilePath String) : Option (FilePath String) :=
  (site.locate tree path).bind fun place =>
    match tree.kind place with
    | some (.link target) => some target
    | _ => none

end Site

end Distant
