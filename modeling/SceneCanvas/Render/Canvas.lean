import SceneCanvas.Asset.Cache
import SceneCanvas.Blocks
import SceneCanvas.Blur.Gaussian
import SceneCanvas.ColorMatrix
import SceneCanvas.Font.Painter
import SceneCanvas.Raster
import SceneCanvas.Script.Plan
import SceneCanvas.Settings

/-!
# The canvas

A canvas is the surface being drawn together with the resources that drawing uses up or fills: the
asset cache and the font book. This module gives the effect of every single directive and caption
on a canvas. An effect may fail; the canvas that it leaves behind then keeps what had happened so
far.
-/

namespace SceneCanvas.Render

open Script (Caption Directive ImageRef Zoom)

/-- What renders share: pictures and fonts looked up so far. -/
structure Resources where
  assets : Asset.Cache := {}
  fonts : Font.Book := {}
deriving Inhabited

/-- A surface and the resources to draw on it. -/
structure Canvas where
  surface : Surface
  resources : Resources
deriving Inhabited

/-- What rendering takes as given. -/
structure Renderer where
  settings : Settings
  storage : Asset.Storage
  shaper : Font.Shaper := .boxes
  raster : Rasterizer := .blocks

/-- A canvas after an effect, and the failure of the effect if it failed. -/
abbrev Outcome := Canvas × Option SceneError

namespace Canvas

/-- The canvas with its pixels replaced. -/
def mapData (f : Buffer → Buffer) (c : Canvas) : Canvas := { c with surface := c.surface.mapData f }

/-- Nothing failed. -/
def done (c : Canvas) : Outcome := (c, none)

/-- Take over new pixels unless computing them failed. -/
def replaceData (c : Canvas) : Except SceneError Buffer → Outcome
  | .ok data => (c.mapData fun _ => data, none)
  | .error e => (c, some e)

/-- Take over a new surface unless drawing it failed, in which case `spoilt` is what is left. -/
def replaceSurface (c : Canvas) (spoilt : Surface) : Except SceneError Surface → Outcome
  | .ok surface => ({ c with surface }, none)
  | .error e => ({ c with surface := spoilt }, some e)

/-- Blur the canvas, and change its tones afterwards. A deviation of zero only changes tones. -/
def blur (c : Canvas) (pixels : UInt32) (tones : List (Tone Float32)) : Outcome :=
  let adjust (b : Buffer) : Buffer := tones.foldl (fun b t => (ColorMatrix.ofTone t).apply b) b
  if pixels = 0 then (c.mapData adjust).done
  else c.replaceData
    (c.surface.data.paddedBlur c.surface.width c.surface.height pixels adjust)

/-- Add a blurred copy of the canvas to itself. -/
def bloom (c : Canvas) (pixels : UInt32) (alpha : Float32) : Outcome :=
  c.replaceData do
    let glow ← c.surface.data.paddedBlur c.surface.width c.surface.height pixels id
    c.surface.data.add glow alpha

/-- Magnify and turn the canvas. A factor that is no positive number, or a map that moves nothing,
leaves the canvas alone. -/
def zoom (raster : Rasterizer) (c : Canvas) (z : Zoom Float) : Outcome :=
  match z.transform? c.surface.size with
  | none => c.done
  | some map =>
    if Script.isNearIdentity map then c.done
    else c.replaceSurface c.surface.clear (c.surface.redraw raster map)

/-- Draw a picture of the storage. A picture that cannot be had draws nothing. -/
def drawImage (r : Renderer) (c : Canvas) (image : ImageRef Float) : Outcome :=
  let (found, assets) := c.resources.assets.fetch r.storage image.key
  let c := { c with resources.assets := assets }
  match found with
  | none => c.done
  | some picture =>
    c.replaceSurface c.surface
      (c.surface.drawPicture r.raster picture
        (image.placement.transform c.surface.size picture.size))

/-- Carry out one directive. Captions are not painted here. -/
def apply (r : Renderer) (c : Canvas) : Directive → Outcome
  | .title _ | .subtitle _ => c.done
  | .dark amount => (c.mapData (·.fillOver (.withAlpha 0 0 0 amount))).done
  | .light amount => (c.mapData (·.fillOver (.withAlpha 255 255 255 amount))).done
  | .blur pixels tones => c.blur pixels tones
  | .bloom pixels alpha => c.bloom pixels alpha
  | .zoom z => c.zoom r.raster z
  | .grayscale amount => (c.mapData (ColorMatrix.grayscale (amount / 100.0)).apply).done
  | .sepia amount => (c.mapData (ColorMatrix.sepia (amount / 100.0)).apply).done
  | .invert => (c.mapData (ColorMatrix.invert (1.0 : Float32)).apply).done
  | .hue degrees => (c.mapData (ColorMatrix.hueRotate degrees).apply).done
  | .image image => c.drawImage r image

/-- Paint one caption. -/
def paint (r : Renderer) (c : Canvas) (caption : Caption) : Outcome :=
  let (painted, fonts) :=
    Font.paint r.raster r.shaper c.resources.fonts r.settings.defaultFont c.surface caption
  let c := { c with resources.fonts := fonts }
  c.replaceSurface c.surface painted

/-- The colour of the marker. -/
def markerColor : Pixel := .ofHex 0x00FFFF

/-- The radius of the marker in pixels. -/
def markerRadius : Float := 100.0

/-- Paint the marker, a disc at the centre of the scene. -/
def drawMarker (raster : Rasterizer) (c : Canvas) : Outcome :=
  let center : Vec Float := ⟨c.surface.size.x / 2.0, c.surface.size.y / 2.0⟩
  c.replaceSurface c.surface (c.surface.drawDisc raster center markerRadius markerColor)

/-- Fetch the pictures of a plan before drawing, if there are at least two. -/
def prefetch (r : Renderer) (c : Canvas) (plan : Script.Plan) : Canvas :=
  let keys := plan.imageKeys
  if keys.length < 2 then c
  else { c with resources.assets := c.resources.assets.fetchAll r.storage keys }

end Canvas

end SceneCanvas.Render
