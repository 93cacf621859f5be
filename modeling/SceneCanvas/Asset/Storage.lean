import SceneCanvas.Asset.Tree

/-!
# Storage

Where files come from. A storage answers whether there is a file under a path, and hands out its
content. One storage is a plain table of paths; another is rooted in a file system and takes only
paths that stay below the root.
-/

namespace SceneCanvas.Asset

/-- A source of files. -/
structure Storage where
  fileExists : String → Bool
  read : String → Except SceneError File

namespace Storage

/-- The storage of a table of paths, in which the first entry of a path counts. -/
def ofTable (files : List (String × File)) : Storage where
  fileExists path := (files.lookup path).isSome
  read path :=
    match files.lookup path with
    | some file => .ok file
    | none => .error (.noSuchFile path)

/-- The storage of the files below a root, which messages show as `shown`. It takes only paths
that stay below the root. -/
def below (tree : Tree) (root shown : String) : Storage where
  fileExists path :=
    match normalizePath path with
    | .ok p => (tree (Tree.join root p)).isFile
    | .error _ => false
  read path := do
    let p ← normalizePath path
    match tree (Tree.join root p) with
    | .file content => .ok content
    | _ => .error (.unreadable (Tree.join shown p))

end Storage

end SceneCanvas.Asset
