import SceneCanvas.Blend
import SceneCanvas.Drawing

/-!
# Drawing on a surface

Everything is drawn on a transparent layer of the size of the surface, which is then laid over it.
-/

namespace SceneCanvas.Surface

/-- The width of a layer. A side of a layer is counted in sixteen bits, so of a surface whose size
was set beyond `maxSide` it has what is left in them. -/
def layerWidth (s : Surface) : Nat := s.width % (maxSide + 1)

/-- The height of a layer. -/
def layerHeight (s : Surface) : Nat := s.height % (maxSide + 1)

/-- Lay the layer of a drawing over the surface. -/
def drawLayer (s : Surface) (raster : Rasterizer) (drawing : Drawing) :
    Except SceneError Surface := do
  let w := s.layerWidth
  let h := s.layerHeight
  Buffer.checkSizes s.data.size (4 * (w * h)) "over_in_place"
  return { s with data := ← s.data.sourceOver (raster.layer drawing w h) 1.0 }

/-- Paint a disc. -/
def drawDisc (s : Surface) (raster : Rasterizer) (center : Vec Float) (radius : Float)
    (color : Pixel) : Except SceneError Surface :=
  s.drawLayer raster (.disc center radius color)

/-- Paint a picture through `map`. A picture with a side beyond `maxSide` draws nothing. -/
def drawPicture (s : Surface) (raster : Rasterizer) (p : Picture) (map : Affine Float) :
    Except SceneError Surface :=
  if maxSide < p.width ∨ maxSide < p.height then .ok s else s.drawLayer raster (.picture p map)

/-- Clear the surface and paint what it held through `map`. -/
def redraw (s : Surface) (raster : Rasterizer) (map : Affine Float) : Except SceneError Surface :=
  s.clear.drawLayer raster (.picture ⟨s.width, s.height, s.data⟩ map)

end SceneCanvas.Surface
