import SceneCanvas.Geometry
import SceneCanvas.Pixel

/-!
# Pixel coverage

How much of each pixel a closed outline covers. Pixels are painted in square blocks, and a row of
blocks is swept from left to right. Each edge counts the part of a pixel that lies to its right,
upward edges with one sign and downward edges with the other: to the right of both sides of a
figure the counts cancel, so their sum is the covered part, and its sign only tells which way round
the outline runs.

Only a block that an edge touches is measured. In the blocks between, the number of edges that were
crossed tells whether they are inside, and it takes the place of the sum, which has been rounded.
Edges are kept in single precision and measured from the corner of the block at hand, and fractions
on the verge between two bytes are settled by that.
-/

namespace SceneCanvas

/-- The side of the square blocks that pixels are painted in. -/
def blockSide : Nat := 4

/-- A fraction of a pixel as a byte. What is not a number counts as a whole pixel. -/
def coverageByte {α : Type} [Scalar α] (fraction : α) : UInt8 :=
  Scalar.toByte (Scalar.lesser (fraction * 255.0 + 0.5) 255.0)

/-- A colour at partial coverage. -/
def Pixel.shade (color : Pixel) (coverage : UInt8) : Pixel :=
  color.map fun v => UInt8.ofNat ((v.toNat * coverage.toNat + 255) / 256)

/-! ### Edges -/

/-- A directed edge of an outline. -/
structure Edge where
  start : Vec Float32
  stop : Vec Float32
deriving Repr, Inhabited

/-- The closed outline through some corners. A corner that is not a number leaves nothing of it. -/
def outline (corners : List (Vec Float32)) : List Edge :=
  if corners.any fun c => c.x.isNaN || c.y.isNaN then []
  else corners.zipWith Edge.mk (corners.drop 1 ++ corners.take 1)

/-- The blocks of a row that an edge touches. -/
structure Trace where
  edge : Edge
  first : Nat
  last : Nat
  /-- The block into which the edge comes down from the row above, or leaves for it. -/
  crossing : Option Nat
deriving Repr, Inhabited

/-- What an edge counts in a row of pixels of a block. -/
structure Share where
  /-- In every pixel, for the part of the edge beyond the left side of the layer. -/
  beyond : Float32
  /-- In each pixel, for the part of the edge within the block. -/
  within : List Float32
  /-- In every pixel to the right of the block, for the part of the edge within the block. -/
  passed : Float32
deriving Repr, Inhabited

/-- The block that a coordinate lies in, when it is counted in blocks. What lies before the layer
belongs to the first one. -/
def blockAt (v : Float32) : Nat := v.toUInt32.toNat

namespace Edge

/-- The edge measured from another origin. -/
def relativeTo (e : Edge) (origin : Vec Float32) : Edge :=
  ⟨⟨e.start.x - origin.x, e.start.y - origin.y⟩, ⟨e.stop.x - origin.x, e.stop.y - origin.y⟩⟩

/-- The edge counted in blocks. -/
def inBlocks (e : Edge) : Edge :=
  ⟨⟨e.start.x / 4.0, e.start.y / 4.0⟩, ⟨e.stop.x / 4.0, e.stop.y / 4.0⟩⟩

/-- The upper end. -/
def upper (e : Edge) : Vec Float32 := if e.start.y < e.stop.y then e.start else e.stop

/-- The lower end. -/
def lower (e : Edge) : Vec Float32 := if e.start.y < e.stop.y then e.stop else e.start

/-- The end on the left. -/
def leftmost (e : Edge) : Vec Float32 := if e.start.x < e.stop.x then e.start else e.stop

/-- The end on the right. -/
def rightmost (e : Edge) : Vec Float32 := if e.start.x < e.stop.x then e.stop else e.start

/-- One for an edge that runs upwards, minus one for an edge that runs downwards. -/
def sign (e : Edge) : Float32 := if e.stop.y < e.start.y then 1.0 else -1.0

/-- The blocks that an edge touches in the given row of blocks, out of a number of columns. -/
def trace? (e : Edge) (columns row : Nat) : Option Trace :=
  let b := e.inBlocks
  let top : Float32 := Scalar.ofNat row
  let crossing (x : Float32) : Option Nat := if b.upper.y ≤ top then some (blockAt x) else none
  if row < blockAt b.upper.y ∨ blockAt b.lower.y.ceil ≤ row then none
  else if b.start.x == b.stop.x then
    some ⟨e, blockAt b.start.x, blockAt b.start.x, crossing b.start.x⟩
  else
    let slope := (b.stop.x - b.start.x) / (b.stop.y - b.start.y)
    -- Where the edge is at a height, held within the row.
    let across (y : Float32) : Float32 :=
      b.start.x + (Scalar.lesser (Scalar.greater y top) (top + 1.0) - b.start.y) * slope
    let entry := across b.upper.y
    let exit := across b.lower.y
    let first := blockAt (Scalar.greater (Scalar.lesser entry exit) b.leftmost.x)
    let last := blockAt (Scalar.lesser (Scalar.greater entry exit) b.rightmost.x)
    if Nat.min last (columns - 1) < first then none
    else some ⟨e, first, Nat.min last (columns - 1),
      crossing (Scalar.lesser (Scalar.greater entry b.leftmost.x) b.rightmost.x)⟩

/-- What the part of an edge left of the layer counts in the row of pixels below the height `y`. -/
def countBeyond (e : Edge) (y : Float32) : Float32 :=
  if e.leftmost.x < 0.0 then
    -- Where the edge meets the left side of the layer, or an end of it.
    let meeting :=
      Scalar.lesser
        (Scalar.greater
          (e.upper.y - e.upper.x * ((e.lower.y - e.upper.y) / (e.lower.x - e.upper.x))) e.upper.y)
        e.lower.y
    let upright : Bool := e.start.x == e.stop.x
    let top := if upright then e.upper.y else Scalar.lesser e.leftmost.y meeting
    let bottom := if upright then e.lower.y else Scalar.greater e.leftmost.y meeting
    Scalar.greater (Scalar.lesser (y + 1.0) bottom - Scalar.greater y top) 0.0 * e.sign
  else 0.0

/-- What an edge counts within a block, in the row of pixels below the height `y`, and to the right
of the block. -/
def countWithin (e : Edge) (y : Float32) : List Float32 × Float32 :=
  let top := e.upper
  let slope := (e.lower.y - top.y) / (e.lower.x - top.x)
  -- The heights at which the edge enters and leaves the row.
  let first := Scalar.greater top.y y
  let last := Scalar.lesser e.lower.y (y + 1.0)
  -- The height at which the edge crosses a column line, held within the row.
  let heightAt (column : Float32) : Float32 :=
    Scalar.lesser (Scalar.greater ((column - top.x) * slope + top.y) first) last
  let across (height : Float32) : Float32 := (height - top.y) * (1.0 / slope) + top.x
  let count (column : Nat) (passed : Float32) : Float32 × Float32 :=
    let right : Float32 := Scalar.ofNat (column + 1)
    let entry := heightAt (Scalar.ofNat column)
    let exit := heightAt right
    let drop := Scalar.magnitude (exit - entry)
    let area := 0.5 * drop * (2.0 * right - across exit - across entry)
    (area * e.sign + passed, drop * e.sign + passed)
  (List.range blockSide).foldl (fun (counts, passed) column =>
    let (inside, passed) := count column passed
    (counts ++ [inside], passed)) ([], 0.0)

/-- What an edge, measured from the corner of a block, counts in the row of pixels below the height
`y`. The blocks of the first column count what lies left of the layer, too. -/
def share (e : Edge) (atSide : Bool) (y : Float32) : Share :=
  let beyond := if atSide then e.countBeyond y else 0.0
  if atSide && e.rightmost.x < 0.0 then ⟨beyond, List.replicate blockSide 0.0, 0.0⟩
  else
    let (within, passed) := e.countWithin y
    ⟨beyond, within, passed⟩

end Edge

/-! ### Rows of blocks -/

/-- A row of pixels of a block, with how much is covered of each. -/
structure BlockRow where
  column : Nat
  /-- Whether an edge touches the block. -/
  touched : Bool
  covered : List UInt8
deriving Repr, Inhabited

/-- What the edges of an outline count at some place of a row of pixels. -/
structure Tally where
  /-- In whole edges, in the pixels to the right. -/
  crossed : Float32
  /-- As it was measured, in the pixels to the right. -/
  carried : Float32
  /-- As it was measured, in the pixels of the block at hand. -/
  counts : List Float32
deriving Repr, Inhabited

namespace Tally

/-- Before the first block. -/
def start : Tally := ⟨0.0, 0.0, []⟩

/-- Turn to the next block, of which no edge has been measured. -/
def enter (t : Tally) : Tally := { t with counts := List.replicate blockSide t.carried }

/-- Go past a block that no edge touches. -/
def skip (t : Tally) : Tally := { t with carried := t.crossed }

/-- Count an edge that is measured from the corner of the block at hand. A level edge counts
nothing. -/
def add (column : Nat) (y : Float32) (t : Tally) (trace : Trace) : Tally :=
  let e := trace.edge
  if e.start.y == e.stop.y then t
  else
    let s := e.share (column == 0) y
    { crossed := if trace.crossing == some column then t.crossed + e.sign else t.crossed
      carried := t.carried + s.beyond + s.passed
      counts := t.counts.zipWith (fun count within => count + s.beyond + within) s.within }

end Tally

/-- The block of a row in the given column, in the row of pixels below the height `y`, and the tally
after it. -/
def coverBlock (traces : List Trace) (row : Nat) (y : Float32) (t : Tally) (column : Nat) :
    BlockRow × Tally :=
  let here := traces.filter fun trace => trace.first ≤ column && column ≤ trace.last
  if here.isEmpty then
    (⟨column, false, List.replicate blockSide (if t.crossed == 0.0 then 0 else 255)⟩, t.skip)
  else
    let corner : Vec Float32 :=
      ⟨Scalar.ofNat (column * blockSide), Scalar.ofNat (row * blockSide)⟩
    let measured := here.map fun trace => { trace with edge := trace.edge.relativeTo corner }
    let t := measured.foldl (Tally.add column y) t.enter
    (⟨column, true, t.counts.map fun count => coverageByte (Scalar.magnitude count)⟩, t)

/-- How much an outline covers of the pixels of row `y`, in the blocks from `first` up to
`columns`. No edge may touch a block before the first one. -/
def coverageRow (edges : List Edge) (first columns y : Nat) : List BlockRow :=
  let row := y / blockSide
  let traces := edges.filterMap (·.trace? columns row)
  let height : Float32 := Scalar.ofNat (y % blockSide)
  let (blocks, _) := (List.range' first (columns - first)).foldl (fun (blocks, t) column =>
    let (block, t) := coverBlock traces row height t column
    (blocks.push block, t)) ((#[] : Array BlockRow), Tally.start)
  blocks.toList

/-! ### Runs -/

/-- Pixels of one row that are painted one after the other. -/
structure PixelRun where
  start : Nat
  covered : List UInt8
deriving Repr, Inhabited

/-- The number of blocks after which a run ends in any case. -/
def runBlocks : Nat := 64

/-- The runs of a row. A run keeps to blocks that edges touch or to blocks between edges. -/
def runs (blocks : List BlockRow) : List PixelRun :=
  (blocks.splitBy fun b c => b.touched == c.touched && c.column % runBlocks != 0).filterMap fun
    | [] => none
    | b :: rest => some ⟨b.column * blockSide, (b :: rest).flatMap (·.covered)⟩

end SceneCanvas
