import SceneCanvas.Scalar

/-!
# Box passes

A wide gaussian is approximated by three moving averages along each axis. A moving average is
computed from running sums, so its cost does not depend on the size of the window, and the passes
keep their fractions: values are rounded to bytes only once, at the end.

Everything here works over any `Scalar`. `single` marks where a value is stored between passes.
-/

namespace SceneCanvas

/-- A window of `size` samples that starts `left` samples before the one it replaces. -/
structure BoxPass where
  size : Nat
  left : Nat
deriving Repr, DecidableEq

namespace BoxPass

/-- The three windows for a box of `d` samples. An odd box is centred. An even one leans left
once and right once, and the third window, one sample wider, is centred again. -/
def triple (d : Nat) : List BoxPass :=
  if d % 2 = 1 then [⟨d, d / 2⟩, ⟨d, d / 2⟩, ⟨d, d / 2⟩]
  else [⟨d, d / 2⟩, ⟨d, d / 2 - 1⟩, ⟨d + 1, d / 2⟩]

/-- The circle constant, to double precision. -/
def pi : Float := 3.141592653589793

/-- The box whose three passes come closest to a gaussian of deviation `sigma`; at least one
sample and at most what a 64-bit word counts. -/
def sizeFor (sigma : Float32) : Nat :=
  let d := Scalar.floor (Scalar.widen sigma * 3.0 * Float.sqrt (2.0 * pi) / 4.0 + 0.5)
  Nat.max 1 (Nat.min (Word.count64 - 1) (Scalar.truncate d).toNat)

variable {α : Type} [Scalar α]

/-- The running sums of the first `n` samples: entry `i` is the sum of the first `i`. -/
@[specialize] def runningSums (n : Nat) (sample : Nat → α) : Array α :=
  n.fold (fun i _ sums => sums.push (sums.getD i 0.0 + sample i)) #[0.0]

/-- Replace a line of `n` samples by its moving average. Sample `i` of the line lies at
`start + i * step`; the window holds zeros beyond either end of the line. -/
@[specialize] def line (pass : BoxPass) (src dst : Array α) (start step n : Nat) : Array α :=
  let sums := runningSums n fun i => src.getD (start + i * step) 0.0
  let share : α := 1.0 / Scalar.ofNat pass.size
  n.fold (fun i _ acc =>
    let first := i - pass.left
    let last := Nat.min (i + pass.size - pass.left) n
    acc.setIfInBounds (start + i * step)
      (Scalar.single ((sums.getD last 0.0 - sums.getD first 0.0) * share))) dst

/-- Average `count` lines of `n` pixels, each of the four channels on its own. Pixel `i` of line
`l` starts at `l * lineStep + i * step`. -/
@[specialize] def lines (pass : BoxPass) (src : Array α) (count n lineStep step : Nat) :
    Array α :=
  count.fold (fun l _ dst =>
    Nat.fold 4 (fun c _ dst => pass.line src dst (l * lineStep + c) step n) dst)
    (Array.replicate src.size 0.0)

/-- Run passes along the rows of a buffer of `w` by `h` pixels. -/
@[specialize] def rows (passes : List BoxPass) (buf : Array α) (w h : Nat) : Array α :=
  passes.foldl (fun b pass => pass.lines b h w (w * 4) 4) buf

/-- Run passes along the columns of a buffer of `w` by `h` pixels. -/
@[specialize] def columns (passes : List BoxPass) (buf : Array α) (w h : Nat) : Array α :=
  passes.foldl (fun b pass => pass.lines b w h 4 (w * 4)) buf

end BoxPass

end SceneCanvas
