import SceneCanvas.Proofs.Blend
import SceneCanvas.Proofs.BoxSize
import SceneCanvas.Proofs.EdgePadding

/-!
# Checked access

Reading beyond the end of a buffer gives zero bytes and writing there changes nothing, so every
operation has a result whether or not it keeps to its buffers. Here each one has a twin that is
checked: it has no result as soon as it reads or writes out of range, counts below zero or beyond a
machine word, or refuses its arguments. Whatever a checked operation computes, the operation
computes as well, and the theorems say for which sizes it does.

* `tryFold_eq_some` is the rule for loops: checked steps that succeed make a loop that succeeds.
* `BoxPass.lines?_eq_some` and `Buffer.convolve?_eq_some` cover the two kinds of blur.
* `Buffer.paddedBlur?_eq_some` puts together the blur that does not fade towards the edges.
-/

namespace SceneCanvas

/-! ### Loops and single places -/

/-- What comes after a value that is there has the result that it has for that value. -/
theorem bind_eq_some_of_eq {α β : Type} {x : Option α} {f : α → Option β} {a : α} {b : β}
    (hx : x = some a) (hf : f a = some b) : (x >>= f) = some b := by
  rw [hx]
  exact hf

/-- A counted loop that ends as soon as a step has no result. -/
def tryFold {α : Type} (n : Nat) (f : (i : Nat) → i < n → α → Option α) (a : α) : Option α :=
  n.fold (fun i hi acc => acc.bind (f i hi)) (some a)

/-- A loop whose checked steps succeed under an invariant has a result, and keeps the invariant. -/
theorem tryFold_eq_some {α : Type} {n : Nat} {f : (i : Nat) → i < n → α → Option α}
    {g : (i : Nat) → i < n → α → α} {a : α} (P : Nat → α → Prop) (hstart : P 0 a)
    (hstep : ∀ i hi x, P i x → f i hi x = some (g i hi x) ∧ P (i + 1) (g i hi x)) :
    tryFold n f a = some (n.fold g a) ∧ P n (n.fold g a) := by
  induction n with
  | zero => exact ⟨rfl, hstart⟩
  | succ n ih =>
    obtain ⟨hfold, hinv⟩ := ih fun i hi => hstep i (Nat.lt_succ_of_lt hi)
    obtain ⟨hlast, hnext⟩ := hstep n (Nat.lt_succ_self n) _ hinv
    rw [tryFold] at hfold ⊢
    rw [Nat.fold_succ, Nat.fold_succ, hfold]
    exact ⟨hlast, hnext⟩

/-- Checked steps over a list that succeed under an invariant have a result, and keep it. -/
theorem foldlM_eq_some {α β : Type} {f : α → β → Option α} {g : α → β → α} {items : List β} {a : α}
    (P : α → Prop) (hstart : P a)
    (hstep : ∀ item ∈ items, ∀ x, P x → f x item = some (g x item) ∧ P (g x item)) :
    items.foldlM f a = some (items.foldl g a) ∧ P (items.foldl g a) := by
  induction items generalizing a with
  | nil => exact ⟨rfl, hstart⟩
  | cons item items ih =>
    rw [List.forall_mem_cons] at hstep
    obtain ⟨hfirst, hnext⟩ := hstep.1 a hstart
    obtain ⟨hrest, hend⟩ := ih hnext hstep.2
    rw [List.foldlM_cons]
    exact ⟨bind_eq_some_of_eq hfirst hrest, hend⟩

/-- Replace the element at `i`, which has to be there. -/
def setAt? {α : Type} (a : Array α) (i : Nat) (v : α) : Option (Array α) :=
  if i < a.size then some (a.setIfInBounds i v) else none

theorem setAt?_eq_some {α : Type} {a : Array α} {i : Nat} (h : i < a.size) (v : α) :
    setAt? a i v = some (a.setIfInBounds i v) :=
  if_pos h

theorem getElem?_eq_some_getD {α : Type} {a : Array α} {i : Nat} (h : i < a.size) (default : α) :
    a[i]? = some (a.getD i default) := by
  rw [Array.getElem?_eq_getElem h, Array.getD_eq_getD_getElem?, Array.getElem?_eq_getElem h,
    Option.getD_some]

/-- The four bytes of the pixel in column `x` of row `y` are among those of the picture. -/
theorem byte_lt_of_place {size w h x y c : Nat} (hsize : size = w * h * 4) (hx : x < w) (hy : y < h)
    (hc : c < 4) : (y * w + x) * 4 + c < size := by
  have hplace := Buffer.place_lt hx hy
  omega

namespace Buffer

/-- The `p`-th pixel, which has to be complete. -/
def pixel? (b : Buffer) (p : Nat) : Option Pixel :=
  if 4 * p + 3 < b.size then some (b.pixelAt p) else none

/-- Replace the `p`-th pixel, which has to be complete. -/
def setPixel? (b : Buffer) (p : Nat) (q : Pixel) : Option Buffer :=
  if 4 * p + 3 < b.size then some (b.setPixel p q) else none

theorem pixel?_eq_some {b : Buffer} {p : Nat} (h : p < b.pixelCount) :
    b.pixel? p = some (b.pixelAt p) := by
  rw [pixelCount] at h
  exact if_pos (by omega)

theorem setPixel?_eq_some {b : Buffer} {p : Nat} (h : p < b.pixelCount) (q : Pixel) :
    b.setPixel? p q = some (b.setPixel p q) := by
  rw [pixelCount] at h
  exact if_pos (by omega)

theorem byte?_eq_some {b : Buffer} {i : Nat} (h : i < b.size) : b[i]? = some (b.byteAt i) :=
  getElem?_eq_some_getD h 0

/-! ### Rewriting in place -/

/-- `Buffer.updateSpan`, checked; the new values may have to be read somewhere. -/
def updateSpan? (b : Buffer) (d n : Nat) (f : Nat → Pixel → Option Pixel) : Option Buffer :=
  tryFold n (fun i _ acc => do acc.setPixel? (d + i) (← f i (← acc.pixel? (d + i)))) b

theorem updateSpan?_eq_some {b : Buffer} {d n : Nat} {f : Nat → Pixel → Option Pixel}
    {g : Nat → Pixel → Pixel} (hspan : d + n ≤ b.pixelCount)
    (hf : ∀ i < n, ∀ q, f i q = some (g i q)) :
    b.updateSpan? d n f = some (b.updateSpan d n g) := by
  refine (tryFold_eq_some (fun _ acc => acc.pixelCount = b.pixelCount) rfl
    fun i hi acc hacc => ?_).1
  have hplace : d + i < acc.pixelCount := by omega
  refine ⟨?_, (pixelCount_congr (size_setPixel ..)).trans hacc⟩
  refine bind_eq_some_of_eq (pixel?_eq_some hplace) (bind_eq_some_of_eq (hf i hi _) ?_)
  exact setPixel?_eq_some hplace _

/-- `Buffer.mapPixels`, checked. -/
def mapPixels? (f : Pixel → Pixel) (b : Buffer) : Option Buffer :=
  b.updateSpan? 0 b.pixelCount fun _ q => some (f q)

theorem mapPixels?_eq_some (f : Pixel → Pixel) (b : Buffer) :
    b.mapPixels? f = some (b.mapPixels f) := by
  rw [mapPixels_eq_updateSpan]
  exact updateSpan?_eq_some (Nat.le_of_eq (Nat.zero_add _)) fun _ _ _ => rfl

/-- `Buffer.fillOver`, checked. -/
def fillOver? (dst : Buffer) (color : Pixel) : Option Buffer :=
  if color.a = 0 then some dst else dst.mapPixels? color.overFull

theorem fillOver?_eq_some (dst : Buffer) (color : Pixel) :
    dst.fillOver? color = some (dst.fillOver color) := by
  rw [fillOver?, fillOver]
  split
  next => rfl
  next => exact mapPixels?_eq_some _ _

/-- `Buffer.overSpan`, checked. -/
def overSpan? (dst : Buffer) (d : Nat) (src : Buffer) (s n : Nat) (opacity : UInt8) :
    Option Buffer :=
  if opacity = 0 then some dst
  else dst.updateSpan? d n fun i q => do return (← src.pixel? (s + i)).sourceOver opacity q

theorem overSpan?_eq_some {dst src : Buffer} {d s n : Nat} (hdst : d + n ≤ dst.pixelCount)
    (hsrc : s + n ≤ src.pixelCount) (opacity : UInt8) :
    dst.overSpan? d src s n opacity = some (dst.overSpan d src s n opacity) := by
  rw [overSpan?, overSpan_eq_updateSpan]
  split
  next => rfl
  next =>
    refine updateSpan?_eq_some hdst fun i hi q => ?_
    exact bind_eq_some_of_eq (pixel?_eq_some (by omega)) rfl

/-- `Buffer.sourceOver`, checked. -/
def sourceOver? (dst src : Buffer) (opacity : Float32) : Option Buffer := do
  (checkSizes dst.size src.size "over_in_place").toOption
  dst.overSpan? 0 src 0 dst.pixelCount (Pixel.fractionByte opacity)

/-- `Buffer.add`, checked. -/
def add? (dst src : Buffer) (opacity : Float32) : Option Buffer := do
  (checkSizes dst.size src.size "add_in_place").toOption
  let scale := Pixel.fractionByte opacity
  if scale = 0 then return dst
  tryFold dst.size (fun i _ acc => do
    setAt? acc i (saturatingAdd (← acc[i]?) (mul255 (← src[i]?) scale))) dst

section Blending

variable {dst src : Buffer}

/-- Two whole buffers of one size are laid over each other. -/
theorem sourceOver?_eq_some (hsize : dst.size = src.size) (hwhole : dst.size % 4 = 0)
    (opacity : Float32) : ∃ out, dst.sourceOver src opacity = .ok out ∧
      dst.sourceOver? src opacity = some out ∧ out.size = dst.size := by
  have hchecked := (checkSizes_eq_ok_iff "over_in_place").mpr ⟨hsize, hwhole⟩
  refine ⟨_, sourceOver_eq_ok_iff.mpr ⟨⟨hsize, hwhole⟩, rfl⟩, ?_, size_overSpan ..⟩
  refine bind_eq_some_of_eq (congrArg Except.toOption hchecked) (overSpan?_eq_some ?_ ?_ _)
  · exact Nat.le_of_eq (Nat.zero_add _)
  · exact Nat.le_of_eq ((Nat.zero_add _).trans (pixelCount_congr hsize))

/-- Two whole buffers of one size are added. -/
theorem add?_eq_some (hsize : dst.size = src.size) (hwhole : dst.size % 4 = 0)
    (opacity : Float32) : ∃ out, dst.add src opacity = .ok out ∧
      dst.add? src opacity = some out ∧ out.size = dst.size := by
  have hchecked := (checkSizes_eq_ok_iff "add_in_place").mpr ⟨hsize, hwhole⟩
  have hadd := add_eq_ok_iff.mpr ⟨⟨hsize, hwhole⟩, Eq.refl (if Pixel.fractionByte opacity = 0
    then dst else dst.updateBytes dst.size fun i v =>
      saturatingAdd v (mul255 (src.byteAt i) (Pixel.fractionByte opacity)))⟩
  refine ⟨_, hadd, ?_, size_of_add_eq_ok hadd⟩
  refine bind_eq_some_of_eq (congrArg Except.toOption hchecked) ?_
  dsimp only
  split
  next => rfl
  next =>
    refine (tryFold_eq_some (fun _ acc => acc.size = dst.size) rfl fun i hi acc hacc => ?_).1
    have hplace : i < acc.size := hacc ▸ hi
    refine ⟨?_, Array.size_setIfInBounds.trans hacc⟩
    exact bind_eq_some_of_eq (byte?_eq_some hplace)
      (bind_eq_some_of_eq (byte?_eq_some (hsize ▸ hi)) (setAt?_eq_some hplace _))

end Blending

/-! ### Building anew -/

/-- `Buffer.ofPixels`, checked. -/
def ofPixels? (n : Nat) (f : Nat → Option Pixel) : Option Buffer :=
  tryFold n (fun p _ b => do return Buffer.pushPixel b (← f p)) #[]

theorem ofPixels?_eq_some {n : Nat} {f : Nat → Option Pixel} {g : Nat → Pixel}
    (hf : ∀ p < n, f p = some (g p)) : ofPixels? n f = some (ofPixels n g) := by
  rw [ofPixels_eq_fold]
  refine (tryFold_eq_some (fun _ _ => True) trivial fun p hp b _ => ⟨?_, trivial⟩).1
  exact bind_eq_some_of_eq (hf p hp) rfl

/-- `Buffer.ofBytes`, checked. -/
def ofBytes? (n : Nat) (f : Nat → Option UInt8) : Option Buffer :=
  tryFold n (fun i _ (b : Buffer) => do return b.push (← f i)) #[]

theorem ofBytes_eq_fold (n : Nat) (f : Nat → UInt8) :
    ofBytes n f = n.fold (fun i _ (b : Buffer) => b.push (f i)) #[] := by
  induction n with
  | zero => rfl
  | succ n ih => rw [Nat.fold_succ, ← ih, ofBytes, Array.ofFn_succ]; rfl

theorem ofBytes?_eq_some {n : Nat} {f : Nat → Option UInt8} {g : Nat → UInt8}
    (hf : ∀ i < n, f i = some (g i)) : ofBytes? n f = some (ofBytes n g) := by
  rw [ofBytes_eq_fold]
  refine (tryFold_eq_some (fun _ _ => True) trivial fun i hi b _ => ⟨?_, trivial⟩).1
  exact bind_eq_some_of_eq (hf i hi) rfl

/-- `Buffer.padEdges`, checked; the last row and column are counted down from the sizes. -/
def padEdges? (src : Buffer) (w h pad : Nat) : Option Buffer :=
  let pw := w + 2 * pad
  if w = 0 ∨ h = 0 then none
  else ofPixels? (pw * (h + 2 * pad)) fun p =>
    src.pixel? (clampIndex h pad (p / pw) * w + clampIndex w pad (p % pw))

/-- `Buffer.crop`, checked. -/
def crop? (src : Buffer) (sw pad w h : Nat) : Option Buffer :=
  ofPixels? (w * h) fun p => src.pixel? ((p / w + pad) * sw + pad + p % w)

theorem clampIndex_lt {n : Nat} (hn : 0 < n) (pad i : Nat) : clampIndex n pad i < n :=
  Nat.lt_of_le_of_lt (Nat.min_le_right _ _) (Nat.sub_lt hn Nat.one_pos)

section Padding

variable {src : Buffer} {w h : Nat}

theorem padEdges?_eq_some (hw : 0 < w) (hh : 0 < h) (hsize : src.size = 4 * (w * h)) (pad : Nat) :
    src.padEdges? w h pad = some (src.padEdges w h pad) := by
  rw [padEdges?, if_neg (by omega)]
  exact ofPixels?_eq_some fun p _ => pixel?_eq_some
    (place_lt_pixelCount (Nat.le_of_eq hsize.symm) (clampIndex_lt hw ..) (clampIndex_lt hh ..))

theorem crop?_eq_some {pad : Nat} (hsize : src.size = 4 * ((w + 2 * pad) * (h + 2 * pad))) :
    src.crop? (w + 2 * pad) pad w h = some (src.crop (w + 2 * pad) pad w h) := by
  refine ofPixels?_eq_some fun p hp => ?_
  have hcolumn : p % w < w := Nat.mod_lt p (Nat.pos_of_mul_pos_right (Nat.zero_lt_of_lt hp))
  have hrow : p / w < h := Nat.div_lt_of_lt_mul hp
  rw [Nat.add_assoc]
  exact pixel?_eq_some
    (place_lt_pixelCount (Nat.le_of_eq hsize.symm) (by omega) (by omega))

end Padding

end Buffer

/-! ### The exact blur -/

/-- `Kernel.sumAt`, checked. -/
def Kernel.sumAt? (k : Kernel) (n : Nat) (sample : Nat → Option Nat) (x : Nat) : Option Nat :=
  let radius := k.size / 2
  tryFold k.size (fun j _ acc =>
    if radius ≤ x + j ∧ x + j < radius + n then do
      return acc + k[j] * (← sample (x + j - radius))
    else some acc) 0

theorem Kernel.sumAt?_eq_some {n : Nat} {sample : Nat → Option Nat} {f : Nat → Nat}
    (hsample : ∀ x < n, sample x = some (f x)) (k : Kernel) (x : Nat) :
    k.sumAt? n sample x = some (k.sumAt n f x) := by
  refine (tryFold_eq_some (fun _ _ => True) trivial fun j hj acc _ => ⟨?_, trivial⟩).1
  split
  next hin => exact bind_eq_some_of_eq (hsample _ (by omega)) rfl
  next => rfl

namespace Buffer

/-- `Buffer.convolveRows`, checked. -/
def convolveRows? (src : Buffer) (w h : Nat) (k : Kernel) : Option Buffer :=
  ofBytes? (w * h * 4) fun i => do
    let row := i / 4 / w
    return Kernel.toByte (← k.sumAt? w
      (fun x => (src[(row * w + x) * 4 + i % 4]?).map UInt8.toNat) (i / 4 % w))

/-- `Buffer.convolveColumns`, checked. -/
def convolveColumns? (src : Buffer) (w h : Nat) (k : Kernel) : Option Buffer :=
  ofBytes? (w * h * 4) fun i => do
    let column := i / 4 % w
    return Kernel.toByte (← k.sumAt? h
      (fun y => (src[(y * w + column) * 4 + i % 4]?).map UInt8.toNat) (i / 4 / w))

/-- `Buffer.convolve`, checked. -/
def convolve? (src : Buffer) (w h : Nat) (k : Kernel) : Option Buffer := do
  (← src.convolveRows? w h k).convolveColumns? w h k

/-- `Buffer.exactBlur`, checked; the middle weight of the kernel has to be there. -/
def exactBlur? (src : Buffer) (w h radius : Nat) (sigma : Float32) : Option Buffer :=
  if Word.count64 ≤ w * h * 4 ∨ src.size ≠ w * h * 4 then none
  else if radius = 0 then some src
  else do
    let k ← (Kernel.gaussian radius sigma).toOption
    let _ ← k[k.size / 2]?
    src.convolve? w h k

section Convolution

variable {src : Buffer} {w h : Nat}

theorem convolveRows?_eq_some (hsize : src.size = w * h * 4) (k : Kernel) :
    src.convolveRows? w h k = some (src.convolveRows w h k) := by
  refine ofBytes?_eq_some fun i hi => ?_
  have hrow : i / 4 / w < h := Nat.div_lt_of_lt_mul (Nat.div_lt_of_lt_mul (by omega))
  refine bind_eq_some_of_eq (Kernel.sumAt?_eq_some (fun x hx => ?_) k (i / 4 % w)) rfl
  have hbyte := byte_lt_of_place hsize hx hrow (Nat.mod_lt i (by decide : 4 > 0))
  exact congrArg (Option.map UInt8.toNat) (byte?_eq_some hbyte)

theorem convolveColumns?_eq_some (hsize : src.size = w * h * 4) (k : Kernel) :
    src.convolveColumns? w h k = some (src.convolveColumns w h k) := by
  refine ofBytes?_eq_some fun i hi => ?_
  have hpixel : i / 4 < w * h := Nat.div_lt_of_lt_mul (by omega)
  have hcolumn : i / 4 % w < w :=
    Nat.mod_lt _ (Nat.pos_of_mul_pos_right (Nat.zero_lt_of_lt hpixel))
  refine bind_eq_some_of_eq (Kernel.sumAt?_eq_some (fun y hy => ?_) k (i / 4 / w)) rfl
  have hbyte := byte_lt_of_place hsize hcolumn hy (Nat.mod_lt i (by decide : 4 > 0))
  exact congrArg (Option.map UInt8.toNat) (byte?_eq_some hbyte)

theorem convolve?_eq_some (hsize : src.size = w * h * 4) (k : Kernel) :
    src.convolve? w h k = some (src.convolve w h k) := by
  exact bind_eq_some_of_eq (convolveRows?_eq_some hsize k)
    (convolveColumns?_eq_some (size_convolveRows ..) k)

theorem exactBlur?_eq_some {sigma : Float32} (hword : w * h * 4 < Word.count64)
    (hsize : src.size = w * h * 4) (hfinite : sigma.isFinite = true) (hpos : ¬ sigma ≤ 0.0)
    (radius : Nat) : ∃ out, src.exactBlur w h radius sigma = .ok out ∧
      src.exactBlur? w h radius sigma = some out ∧ out.size = w * h * 4 := by
  obtain ⟨k, hk, hksize⟩ := Kernel.exists_gaussian_eq_ok hfinite hpos radius
  have hmiddle : k.size / 2 < k.size := by omega
  rw [exactBlur_eq_ok hword hsize hk, exactBlur?, if_neg (by omega)]
  refine ⟨_, rfl, ?_, size_convolve ..⟩
  -- radius zero hands the buffer on, which is what its kernel does to it
  split
  next hradius =>
    subst hradius
    cases hk
    rw [convolve_unit hsize]
  next =>
    exact bind_eq_some_of_eq (congrArg Except.toOption hk) (bind_eq_some_of_eq
      (Array.getElem?_eq_getElem hmiddle) (convolve?_eq_some hsize k))

end Convolution

end Buffer

/-! ### Box passes -/

namespace BoxPass

variable {α : Type} [Scalar α]

/-- `BoxPass.triple`, checked; the lean of an even box is counted down from its half. -/
def triple? (d : Nat) : Option (List BoxPass) := if d = 0 then none else some (triple d)

/-- A window starts at most its own length before the sample it replaces. -/
theorem left_le_size_of_mem_triple {d : Nat} {pass : BoxPass} (h : pass ∈ triple d) :
    pass.left ≤ pass.size ∧ pass.size ≤ d + 1 := by
  rw [triple] at h
  split at h
  next =>
    simp only [List.mem_cons, List.not_mem_nil, or_false, or_self] at h
    subst h
    dsimp only
    omega
  next =>
    simp only [List.mem_cons, List.not_mem_nil, or_false] at h
    rcases h with rfl | rfl | rfl <;> dsimp only <;> omega

/-- `BoxPass.runningSums`, checked. -/
def runningSums? (n : Nat) (sample : Nat → Option α) : Option (Array α) :=
  tryFold n (fun i _ (sums : Array α) => do return sums.push ((← sums[i]?) + (← sample i))) #[0.0]

theorem runningSums?_eq_some {n : Nat} {sample : Nat → Option α} {f : Nat → α}
    (hsample : ∀ i < n, sample i = some (f i)) :
    runningSums? n sample = some (runningSums n f) ∧ (runningSums n f).size = n + 1 := by
  refine tryFold_eq_some (fun i (sums : Array α) => sums.size = i + 1) rfl fun i hi sums hsums => ?_
  have hplace : i < sums.size := by omega
  refine ⟨?_, by rw [Array.size_push, hsums]⟩
  exact bind_eq_some_of_eq (getElem?_eq_some_getD hplace 0.0)
    (bind_eq_some_of_eq (hsample i hi) rfl)

/-- `BoxPass.line`, checked; a window must not start after it ends. -/
def line? (pass : BoxPass) (src dst : Array α) (start step n : Nat) : Option (Array α) := do
  let sums ← runningSums? n fun i => src[start + i * step]?
  let share : α := 1.0 / Scalar.ofNat pass.size
  tryFold n (fun i _ acc =>
    if i + pass.size < pass.left then none
    else do
      let first := i - pass.left
      let last := Nat.min (i + pass.size - pass.left) n
      setAt? acc (start + i * step)
        (Scalar.single (((← sums[last]?) - (← sums[first]?)) * share))) dst

theorem line?_eq_some {pass : BoxPass} (hleft : pass.left ≤ pass.size) {src dst : Array α}
    {start step n : Nat} (hsrc : ∀ i < n, start + i * step < src.size)
    (hdst : dst.size = src.size) :
    pass.line? src dst start step n = some (pass.line src dst start step n) ∧
      (pass.line src dst start step n).size = src.size := by
  obtain ⟨hsums, hcount⟩ := runningSums?_eq_some (α := α) fun i hi =>
    getElem?_eq_some_getD (hsrc i hi) 0.0
  refine And.imp_left (bind_eq_some_of_eq hsums) ?_
  -- both ends of the window are among the running sums, since `last` is held at `n`
  refine tryFold_eq_some (fun _ (acc : Array α) => acc.size = src.size) hdst
    fun i hi acc hacc => ?_
  have hplace : start + i * step < acc.size := hacc ▸ hsrc i hi
  have hlast : Nat.min (i + pass.size - pass.left) n < n + 1 :=
    Nat.lt_succ_of_le (Nat.min_le_right _ _)
  have hfirst : i - pass.left < n + 1 := by omega
  refine ⟨?_, Array.size_setIfInBounds.trans hacc⟩
  rw [if_neg (by omega)]
  exact bind_eq_some_of_eq (getElem?_eq_some_getD (hcount ▸ hlast) 0.0)
    (bind_eq_some_of_eq (getElem?_eq_some_getD (hcount ▸ hfirst) 0.0) (setAt?_eq_some hplace _))

/-- `BoxPass.lines`, checked. -/
def lines? (pass : BoxPass) (src : Array α) (count n lineStep step : Nat) : Option (Array α) :=
  tryFold count (fun l _ dst =>
    tryFold 4 (fun c _ dst => pass.line? src dst (l * lineStep + c) step n) dst)
    (Array.replicate src.size 0.0)

/-- A pass keeps to a buffer that holds all its lines. -/
theorem lines?_eq_some {pass : BoxPass} (hleft : pass.left ≤ pass.size) {src : Array α}
    {count n lineStep step : Nat}
    (hsrc : ∀ l < count, ∀ i < n, ∀ c < 4, l * lineStep + i * step + c < src.size) :
    pass.lines? src count n lineStep step = some (pass.lines src count n lineStep step) ∧
      (pass.lines src count n lineStep step).size = src.size := by
  refine tryFold_eq_some (fun _ (dst : Array α) => dst.size = src.size) Array.size_replicate
    fun l hl dst hdst => ?_
  refine tryFold_eq_some (fun _ (dst : Array α) => dst.size = src.size) hdst
    fun c hc dst hdst => ?_
  refine line?_eq_some hleft (fun i hi => ?_) hdst
  rw [Nat.add_right_comm]
  exact hsrc l hl i hi c hc

/-- `BoxPass.rows`, checked. -/
def rows? (passes : List BoxPass) (buf : Array α) (w h : Nat) : Option (Array α) :=
  passes.foldlM (fun b pass => pass.lines? b h w (w * 4) 4) buf

/-- `BoxPass.columns`, checked. -/
def columns? (passes : List BoxPass) (buf : Array α) (w h : Nat) : Option (Array α) :=
  passes.foldlM (fun b pass => pass.lines? b w h 4 (w * 4)) buf

section Passes

variable {passes : List BoxPass} {buf : Array α} {w h : Nat}

theorem rows?_eq_some (hpasses : ∀ pass ∈ passes, pass.left ≤ pass.size)
    (hsize : buf.size = w * h * 4) :
    rows? passes buf w h = some (rows passes buf w h) ∧
      (rows passes buf w h).size = w * h * 4 := by
  refine foldlM_eq_some (fun b : Array α => b.size = w * h * 4) hsize fun pass hpass b hb => ?_
  rw [← hb]
  refine lines?_eq_some (hpasses pass hpass) fun l hl i hi c hc => ?_
  have hplace : l * (w * 4) + i * 4 = (l * w + i) * 4 := by rw [← Nat.mul_assoc, Nat.add_mul]
  rw [hplace]
  exact byte_lt_of_place hb hi hl hc

theorem columns?_eq_some (hpasses : ∀ pass ∈ passes, pass.left ≤ pass.size)
    (hsize : buf.size = w * h * 4) :
    columns? passes buf w h = some (columns passes buf w h) ∧
      (columns passes buf w h).size = w * h * 4 := by
  refine foldlM_eq_some (fun b : Array α => b.size = w * h * 4) hsize fun pass hpass b hb => ?_
  rw [← hb]
  refine lines?_eq_some (hpasses pass hpass) fun l hl i hi c hc => ?_
  have hplace : l * 4 + i * (w * 4) = (i * w + l) * 4 := by
    rw [← Nat.mul_assoc, Nat.add_mul, Nat.add_comm]
  rw [hplace]
  exact byte_lt_of_place hb hl hi hc

end Passes

end BoxPass

/-! ### Blurs of any deviation -/

namespace Buffer

/-- `Buffer.boxBlur`, checked. -/
def boxBlur? (src : Buffer) (w h : Nat) (passes : List BoxPass) : Option Buffer := do
  let values : Array Float := src.map Scalar.ofByte
  let blurred ← BoxPass.columns? passes (← BoxPass.rows? passes values w h) w h
  return blurred.map fun v => Scalar.toByte (Scalar.clamp 0.0 255.0 (Scalar.round v))

theorem boxBlur?_eq_some {src : Buffer} {w h : Nat} (hsize : src.size = w * h * 4)
    {passes : List BoxPass} (hpasses : ∀ pass ∈ passes, pass.left ≤ pass.size) :
    src.boxBlur? w h passes = some (src.boxBlur w h passes) ∧
      (src.boxBlur w h passes).size = w * h * 4 := by
  have hvalues : (src.map Scalar.ofByte : Array Float).size = w * h * 4 :=
    Array.size_map.trans hsize
  obtain ⟨hrows, hrowsSize⟩ := BoxPass.rows?_eq_some hpasses hvalues
  obtain ⟨hcolumns, hcolumnsSize⟩ := BoxPass.columns?_eq_some hpasses hrowsSize
  exact ⟨bind_eq_some_of_eq hrows (bind_eq_some_of_eq hcolumns rfl),
    Array.size_map.trans hcolumnsSize⟩

/-- `Buffer.gaussianBlur`, checked. -/
def gaussianBlur? (src : Buffer) (w h : Nat) (sigma : Float32) : Option Buffer :=
  if !sigma.isFinite || sigma < 0.0 then none
  else if sigma < boxDeviation then
    src.exactBlur? w h (blurReach sigma) (Scalar.greater sigma 0.1)
  else if Word.count64 ≤ w * h * 4 ∨ src.size ≠ w * h * 4 then none
  else do
    let passes ← BoxPass.triple? (BoxPass.sizeFor sigma)
    if passes.all fun pass => slides w pass && slides h pass then src.boxBlur? w h passes else none

theorem gaussianBlur?_eq_some {src : Buffer} {w h : Nat} (hsize : src.size = w * h * 4)
    (hw : w < Word.count32) (hh : h < Word.count32) (hword : w * h * 4 < Word.count64)
    {pixels : UInt32} (hpixels : pixels ≤ 128) :
    ∃ out, src.gaussianBlur w h pixels.toFloat32 = .ok out ∧
      src.gaussianBlur? w h pixels.toFloat32 = some out ∧ out.size = w * h * 4 := by
  obtain ⟨hfinite, hnonneg, hfinite', hpos⟩ := isDeviation_of_pixels hpixels
  have hdeviation : (!pixels.toFloat32.isFinite || pixels.toFloat32 < 0.0) = false := by
    simp [hfinite, hnonneg]
  rw [gaussianBlur, gaussianBlur?, hdeviation]
  by_cases hexact : pixels.toFloat32 < boxDeviation
  · simp only [hexact]
    exact exactBlur?_eq_some hword hsize hfinite' hpos _
  · have hmost : pixels.toNat ≤ 128 := UInt32.le_iff_toNat_le.mp hpixels
    have hbox := BoxPass.sizeFor_le hpixels
    have hboxes : BoxPass.triple? (BoxPass.sizeFor pixels.toFloat32)
        = some (BoxPass.triple (BoxPass.sizeFor pixels.toFloat32)) :=
      if_neg (Nat.ne_of_gt (Nat.lt_of_lt_of_le Nat.one_pos (Nat.le_max_left ..)))
    -- the boxes of these deviations are far shorter than a word can count
    have hslides : ((BoxPass.triple (BoxPass.sizeFor pixels.toFloat32)).all fun pass =>
        slides w pass && slides h pass) = true := by
      refine List.all_eq_true.mpr fun pass hpass => ?_
      have hpassSize := (BoxPass.left_le_size_of_mem_triple hpass).2
      have hwords : Word.count32 + 258 ≤ Word.count64 := by decide
      simp only [slides, Bool.and_eq_true, Bool.or_eq_true, decide_eq_true_eq]
      constructor <;> right <;> omega
    obtain ⟨hchecked, hout⟩ := boxBlur?_eq_some hsize fun pass hpass =>
      (BoxPass.left_le_size_of_mem_triple (d := BoxPass.sizeFor pixels.toFloat32) hpass).1
    have hrefused : ¬ (Word.count64 ≤ w * h * 4 ∨ src.size ≠ w * h * 4) := by omega
    refine ⟨_, ?_, ?_, hout⟩
    · simp only [Bool.false_eq_true, if_false, hexact, Nat.not_le.mpr hword, hsize, ne_eq,
        not_true_eq_false, hslides, Bool.or_true, if_true]
    · simp only [Bool.false_eq_true, if_false, hexact, hrefused]
      refine bind_eq_some_of_eq hboxes ?_
      rw [if_pos hslides, hchecked]

/-- `Buffer.paddedBlur`, checked; the sizes of the grown picture have to be 32-bit words. -/
def paddedBlur? (src : Buffer) (w h : Nat) (pixels : UInt32) (adjust : Buffer → Option Buffer) :
    Option Buffer := do
  let sigma := pixels.toFloat32
  let pad := blurReach sigma
  if Word.count32 ≤ w + 2 * pad ∨ Word.count32 ≤ h + 2 * pad then none
  else
    let grown ← src.padEdges? w h pad
    let blurred ← grown.gaussianBlur? (w + 2 * pad) (h + 2 * pad) sigma
    (← adjust blurred).crop? (w + 2 * pad) pad w h

/-- **The blur that does not fade** keeps to its buffers and comes to an end, for all pictures of a
size that a surface can have and all deviations that a scene can name. -/
theorem paddedBlur?_eq_some {src : Buffer} {w h : Nat} (hw : 0 < w ∧ w ≤ 65535)
    (hh : 0 < h ∧ h ≤ 65535) (hsize : src.size = 4 * (w * h)) {pixels : UInt32}
    (hpixels : pixels ≤ 128) {adjust? : Buffer → Option Buffer} {adjust : Buffer → Buffer}
    (hadjust : ∀ b, adjust? b = some (adjust b) ∧ (adjust b).size = b.size) :
    ∃ out, src.paddedBlur w h pixels adjust = .ok out ∧
      src.paddedBlur? w h pixels adjust? = some out ∧ out.size = 4 * (w * h) := by
  have hreach := blurReach_le hpixels
  obtain ⟨pad, hpad⟩ : ∃ pad, blurReach pixels.toFloat32 = pad := ⟨_, rfl⟩
  rw [hpad] at hreach
  have hword32 : 66303 < Word.count32 := by decide
  have hgrown : (w + 2 * pad) * (h + 2 * pad) * 4 ≤ 66303 * 66303 * 4 :=
    Nat.mul_le_mul_right 4 (Nat.mul_le_mul (by omega) (by omega))
  have hword64 : 66303 * 66303 * 4 < Word.count64 := by decide
  have hgrownSize : (src.padEdges w h pad).size = (w + 2 * pad) * (h + 2 * pad) * 4 := by
    rw [size_padEdges, Nat.mul_comm]
  obtain ⟨blurred, hblur, hblur?, hblurred⟩ :=
    gaussianBlur?_eq_some hgrownSize (by omega) (by omega) (by omega) hpixels
  obtain ⟨hadjusted, hadjustedSize⟩ := hadjust blurred
  refine ⟨(adjust blurred).crop (w + 2 * pad) pad w h, ?_, ?_, size_crop ..⟩
  · rw [paddedBlur, hpad, hblur]
    rfl
  · rw [paddedBlur?, hpad, if_neg (by omega)]
    refine bind_eq_some_of_eq (padEdges?_eq_some hw.1 hh.1 hsize pad)
      (bind_eq_some_of_eq hblur? (bind_eq_some_of_eq hadjusted ?_))
    exact crop?_eq_some (by rw [hadjustedSize, hblurred, Nat.mul_comm])

end Buffer

end SceneCanvas
