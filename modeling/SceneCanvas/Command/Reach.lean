import SceneCanvas.Command.Run

/-!
# What a command looks at

The paths that a command may ask the file system about. They are known beforehand: those on the
command line, and for a scene its pictures and its fonts. Whoever runs a command can therefore look
them up first and hand the command a table of what it found.
-/

namespace SceneCanvas.Command

open Asset (Entry Tree)

namespace Request

/-- The paths that a request names. -/
def paths : Request → List String
  | .render args =>
    args.scene :: args.config.toList ++ outputPaths args.out
  | .config path => path.toList
  | .tags | .help | .version => []

/-- The scene of a request, with its arguments. -/
def scene? : Request → Option RenderArgs
  | .render args => some args
  | _ => none

end Request

/-- The paths of the pictures and fonts that a scene may use. -/
def assetPaths (args : RenderArgs) (source : String) : List String :=
  let root := assetRoot args
  let pictures := (Script.Plan.parse source).imageKeys.flatMap Asset.candidates
  Tree.join root "fonts"
    :: (pictures.filterMap fun p => (Asset.normalizePath p).toOption).map (Tree.join root)

/-- The file system of some known paths; everything else is missing. -/
def treeOf (known : List (String × Entry)) : Tree := fun path =>
  (known.lookup path).getD .missing

end SceneCanvas.Command
