import SceneCanvas.Proofs.RealPlane
import SceneCanvas.Proofs.StillZoom

/-!
# What a zoom shows

In exact arithmetic, the window of a zoom that magnifies lies in the scene, and as near to the focal
point as it can (`Zoom.points_subset_frame`, `Zoom.distance_focalPoint_lt`); the window of a zoom
that reduces holds the whole scene (`Zoom.frame_subset_points`). The two bounds between which the
centre is held meet for a zoom by one and cross for a smaller one.

The map brings the centre of the window to that of the scene and magnifies every distance alike
(`Zoom.distance_apply`), and unless it turns, the window comes to fill the frame
(`Zoom.image_points`). `zoom_shows_window` puts these together, and adds that on doubles, too, a zoom
by one that does not turn leaves the canvas alone.
-/

namespace SceneCanvas.Script

open RealPlane

/-- The points of a scene. -/
def frame (scene : Vec ℝ) : Set (Vec ℝ) :=
  {p | p.x ∈ Set.Icc 0 scene.x ∧ p.y ∈ Set.Icc 0 scene.y}

/-- The points of a window. -/
def Window.points (window : Window ℝ) : Set (Vec ℝ) :=
  {p | |p.x - window.center.x| ≤ window.size.x / 2 ∧ |p.y - window.center.y| ≤ window.size.y / 2}

/-- A window that is not empty lies in the scene just if its centre keeps off the edges. -/
theorem Window.points_subset_frame_iff {window : Window ℝ} {scene : Vec ℝ}
    (hx : 0 ≤ window.size.x) (hy : 0 ≤ window.size.y) :
    window.points ⊆ frame scene ↔
      window.center.x ∈ Set.Icc (window.size.x / 2) (scene.x - window.size.x / 2) ∧
        window.center.y ∈ Set.Icc (window.size.y / 2) (scene.y - window.size.y / 2) := by
  constructor
  · -- two opposite corners of the window tell
    intro hsubset
    have hleast : (⟨window.center.x - window.size.x / 2, window.center.y - window.size.y / 2⟩
        : Vec ℝ) ∈ window.points := by
      refine ⟨?_, ?_⟩
      all_goals rw [sub_sub_cancel_left, abs_neg, abs_of_nonneg (by linarith)]
    have hlargest : (⟨window.center.x + window.size.x / 2, window.center.y + window.size.y / 2⟩
        : Vec ℝ) ∈ window.points := by
      refine ⟨?_, ?_⟩
      all_goals rw [add_sub_cancel_left, abs_of_nonneg (by linarith)]
    obtain ⟨⟨hleft, -⟩, htop, -⟩ := hsubset hleast
    obtain ⟨⟨-, hright⟩, -, hbottom⟩ := hsubset hlargest
    exact ⟨⟨by linarith, by linarith⟩, by linarith, by linarith⟩
  · rintro ⟨⟨hleft, hright⟩, htop, hbottom⟩ p ⟨hpx, hpy⟩
    rw [abs_le] at hpx hpy
    exact ⟨⟨by linarith, by linarith⟩, by linarith, by linarith⟩

namespace Zoom

/-- The point that a zoom looks at. -/
def focalPoint (z : Zoom ℝ) (scene : Vec ℝ) : Vec ℝ := ⟨scene.x * z.focus.x, scene.y * z.focus.y⟩

theorem within_eq (lo hi v : ℝ) : within lo hi v = max (min v hi) lo := by
  have hlesser : Scalar.lesser v hi = min v hi := by
    change (if decide (hi < v) = true then hi else v) = _
    rw [min_comm, min_def_lt]
    simp only [decide_eq_true_eq]
  rw [within, hlesser]
  change (if decide (min v hi < lo) = true then lo else min v hi) = _
  rw [max_def_lt]
  simp only [decide_eq_true_eq]

theorem within_mem {lo hi : ℝ} (h : lo ≤ hi) (v : ℝ) : within lo hi v ∈ Set.Icc lo hi := by
  rw [within_eq]
  exact ⟨le_max_right _ _, max_le (min_le_right _ _) h⟩

theorem within_of_crossed {lo hi : ℝ} (h : hi ≤ lo) (v : ℝ) : within lo hi v = lo := by
  rw [within_eq]
  exact max_eq_right ((min_le_right _ _).trans h)

/-- **The nearest number of an interval** is the one that holding finds. -/
theorem abs_sub_within_lt {lo hi v t : ℝ} (ht : t ∈ Set.Icc lo hi) (hne : t ≠ within lo hi v) :
    |v - within lo hi v| < |v - t| := by
  obtain ⟨hlo, hhi⟩ := ht
  rw [within_eq] at hne ⊢
  obtain hbelow | habove := le_total v lo
  · rw [max_eq_right ((min_le_left _ _).trans hbelow)] at hne ⊢
    have hlt := lt_of_le_of_ne hlo hne.symm
    rw [abs_of_nonpos (by linarith), abs_of_neg (by linarith)]
    linarith
  · obtain hinside | habove := le_total v hi
    · rw [min_eq_left hinside, max_eq_left habove] at hne ⊢
      rw [sub_self, abs_zero]
      exact abs_pos.mpr (sub_ne_zero.mpr hne.symm)
    · rw [min_eq_right habove, max_eq_left (hlo.trans hhi)] at hne ⊢
      have hlt := lt_of_le_of_ne hhi hne
      rw [abs_of_nonneg (by linarith), abs_of_pos (by linarith)]
      linarith

theorem abs_sub_within_le {lo hi v t : ℝ} (ht : t ∈ Set.Icc lo hi) :
    |v - within lo hi v| ≤ |v - t| := by
  by_cases heq : t = within lo hi v
  · rw [heq]
  · exact (abs_sub_within_lt ht heq).le

/-! ### The window -/

section

variable {z : Zoom ℝ} {scene : Vec ℝ} {window : Window ℝ}

private theorem condition_iff :
    (Scalar.isFinite z.zoom && Scalar.lt 0.0 z.zoom) = true ↔ 0 < z.zoom := by
  have hzero : (0.0 : ℝ) = 0 := by norm_num
  change (true && decide ((0.0 : ℝ) < z.zoom)) = true ↔ _
  rw [hzero, Bool.true_and, decide_eq_true_iff]

theorem window?_eq_none_iff : z.window? scene = none ↔ z.zoom ≤ 0 := by
  rw [window?, ← not_lt, ← condition_iff]
  split
  next hpos => exact iff_of_false (Option.some_ne_none _) (not_not_intro hpos)
  next hpos => exact iff_of_true rfl hpos

/-- The window of a zoom: its size, and where its centre is held. -/
theorem window?_eq_some_iff : z.window? scene = some window ↔ 0 < z.zoom ∧
    window.size = ⟨scene.x / z.zoom, scene.y / z.zoom⟩ ∧
    window.center =
      ⟨within (window.size.x / 2) (scene.x - window.size.x / 2) (scene.x * z.focus.x),
        within (window.size.y / 2) (scene.y - window.size.y / 2) (scene.y * z.focus.y)⟩ := by
  have htwo : (2.0 : ℝ) = 2 := by norm_num
  rw [window?, ← condition_iff]
  split
  next hpos =>
    rw [htwo, Option.some.injEq]
    constructor
    · rintro rfl
      exact ⟨hpos, rfl, rfl⟩
    · rintro ⟨-, hsize, hcenter⟩
      rw [hsize] at hcenter
      cases window
      cases hsize
      cases hcenter
      rfl
  next hpos => exact iff_of_false (Option.some_ne_none window).symm fun h => hpos h.1

variable (h : z.window? scene = some window) (hx : 0 < scene.x) (hy : 0 < scene.y)

include h hx hy

theorem size_nonneg : 0 ≤ window.size.x ∧ 0 ≤ window.size.y := by
  obtain ⟨hpos, hsize, -⟩ := window?_eq_some_iff.mp h
  rw [hsize]
  exact ⟨(div_pos hx hpos).le, (div_pos hy hpos).le⟩

/-- A magnified window is no larger than the scene. -/
theorem size_le (hzoom : 1 ≤ z.zoom) : window.size.x ≤ scene.x ∧ window.size.y ≤ scene.y := by
  obtain ⟨-, hsize, -⟩ := window?_eq_some_iff.mp h
  rw [hsize]
  exact ⟨div_le_self hx.le hzoom, div_le_self hy.le hzoom⟩

/-- **A magnified window lies in the scene.** -/
theorem points_subset_frame (hzoom : 1 ≤ z.zoom) : window.points ⊆ frame scene := by
  obtain ⟨hsx, hsy⟩ := size_nonneg h hx hy
  obtain ⟨hlx, hly⟩ := size_le h hx hy hzoom
  obtain ⟨-, -, hcenter⟩ := window?_eq_some_iff.mp h
  rw [Window.points_subset_frame_iff hsx hsy, hcenter]
  exact ⟨within_mem (by linarith) _, within_mem (by linarith) _⟩

/-- **Its centre is as near the focal point as it can be**: any other centre with a window of this
size in the scene is further away. -/
theorem distance_focalPoint_lt {center : Vec ℝ}
    (hsubset : (Window.mk center window.size).points ⊆ frame scene)
    (hne : center ≠ window.center) :
    distance (z.focalPoint scene) window.center < distance (z.focalPoint scene) center := by
  obtain ⟨hsx, hsy⟩ := size_nonneg h hx hy
  obtain ⟨-, -, hcenter⟩ := window?_eq_some_iff.mp h
  have hsx' : 0 ≤ (Window.mk center window.size).size.x := hsx
  obtain ⟨hcx, hcy⟩ := (Window.points_subset_frame_iff hsx' hsy).mp hsubset
  rw [hcenter] at hne ⊢
  refine distance_lt (abs_sub_within_le hcx) (abs_sub_within_le hcy) ?_
  -- a centre that agrees on one axis is further away on the other
  by_cases hacross : center.x = within (window.size.x / 2) (scene.x - window.size.x / 2)
      (scene.x * z.focus.x)
  · refine .inr (abs_sub_within_lt hcy fun hdown => hne ?_)
    cases center
    exact congrArg₂ Vec.mk hacross hdown
  · exact .inl (abs_sub_within_lt hcx hacross)

/-- **A reduced scene lies in the window.** -/
theorem frame_subset_points (hzoom : z.zoom < 1) : frame scene ⊆ window.points := by
  obtain ⟨hpos, hsize, hcenter⟩ := window?_eq_some_iff.mp h
  have hlx : scene.x ≤ window.size.x := by
    rw [hsize]
    exact le_div_self hx.le hpos hzoom.le
  have hly : scene.y ≤ window.size.y := by
    rw [hsize]
    exact le_div_self hy.le hpos hzoom.le
  rw [within_of_crossed (by linarith), within_of_crossed (by linarith)] at hcenter
  rintro p ⟨⟨hleft, hright⟩, htop, hbottom⟩
  rw [Window.points, hcenter]
  exact ⟨abs_le.mpr ⟨by linarith, by linarith⟩, abs_le.mpr ⟨by linarith, by linarith⟩⟩

end

/-! ### The map -/

section

variable {z : Zoom ℝ} {cos sin : ℝ} {scene : Vec ℝ} {window : Window ℝ} {map : Affine ℝ}

theorem exists_turned? (h : z.window? scene = some window) (cos sin : ℝ) :
    ∃ map, z.turned? cos sin scene = some map := by
  rw [turned?, h]
  exact ⟨_, rfl⟩

variable (h : z.window? scene = some window) (hmap : z.turned? cos sin scene = some map)

include h hmap

/-- The map turns and scales about the centre of the window, and brings it to that of the scene. -/
theorem apply_turned (p : Vec ℝ) : map.apply p =
    ⟨cos * (z.zoom * (p.x - window.center.x)) - sin * (z.zoom * (p.y - window.center.y))
        + scene.x / 2,
      sin * (z.zoom * (p.x - window.center.x)) + cos * (z.zoom * (p.y - window.center.y))
        + scene.y / 2⟩ := by
  have htwo : (2.0 : ℝ) = 2 := by norm_num
  rw [turned?, h, htwo] at hmap
  obtain rfl := Option.some.inj hmap
  rw [apply_mul, apply_mul, apply_mul, apply_translate, apply_scale, apply_rotate, apply_translate]
  rfl

theorem apply_center : map.apply window.center = ⟨scene.x / 2, scene.y / 2⟩ := by
  rw [apply_turned h hmap, sub_self, sub_self, mul_zero, mul_zero, mul_zero, sub_zero, add_zero,
    zero_add, zero_add]

/-- **All distances are magnified alike.** -/
theorem distance_apply (hturn : cos ^ 2 + sin ^ 2 = 1) (p q : Vec ℝ) :
    distance (map.apply p) (map.apply q) = z.zoom * distance p q := by
  have hpos := (window?_eq_some_iff.mp h).1
  have hsquares : ((map.apply p).x - (map.apply q).x) ^ 2 + ((map.apply p).y - (map.apply q).y) ^ 2
      = z.zoom ^ 2 * ((p.x - q.x) ^ 2 + (p.y - q.y) ^ 2) := by
    rw [apply_turned h hmap, apply_turned h hmap]
    linear_combination z.zoom ^ 2 * ((p.x - q.x) ^ 2 + (p.y - q.y) ^ 2) * hturn
  rw [distance, distance, hsquares, Real.sqrt_mul (sq_nonneg _), Real.sqrt_sq hpos.le]

end

/-- A stretch of the window that is magnified by `k` fills a side of the frame. -/
private theorem magnified_mem_Icc_iff {k : ℝ} (hk : 0 < k) (d side : ℝ) :
    k * d + side / 2 ∈ Set.Icc 0 side ↔ |d| ≤ side / k / 2 := by
  have hstretch : |d| ≤ side / k / 2 ↔ |k * d| ≤ side / 2 := by
    rw [abs_mul, abs_of_pos hk, div_right_comm, le_div_iff₀ hk, mul_comm]
  rw [hstretch, abs_le]
  constructor
  · rintro ⟨hlow, hhigh⟩
    exact ⟨by linarith, by linarith⟩
  · rintro ⟨hlow, hhigh⟩
    exact ⟨by linarith, by linarith⟩

section

variable {z : Zoom ℝ} {scene : Vec ℝ} {window : Window ℝ} {map : Affine ℝ}
  (h : z.window? scene = some window) (hmap : z.turned? 1 0 scene = some map)

include h hmap

theorem apply_unturned (p : Vec ℝ) : map.apply p =
    ⟨z.zoom * (p.x - window.center.x) + scene.x / 2,
      z.zoom * (p.y - window.center.y) + scene.y / 2⟩ := by
  rw [apply_turned h hmap, one_mul, one_mul, zero_mul, zero_mul, sub_zero, zero_add]

/-- **The window fills the frame**, unless it is turned. -/
theorem image_points : map.apply '' window.points = frame scene := by
  obtain ⟨hpos, hsize, -⟩ := window?_eq_some_iff.mp h
  have hmem (p : Vec ℝ) : map.apply p ∈ frame scene ↔ p ∈ window.points := by
    rw [apply_unturned h hmap, Window.points, hsize]
    exact and_congr (magnified_mem_Icc_iff hpos _ _) (magnified_mem_Icc_iff hpos _ _)
  ext q
  constructor
  · rintro ⟨p, hp, rfl⟩
    exact (hmem p).mpr hp
  · intro hq
    have hsurjective : map.apply ⟨(q.x - scene.x / 2) / z.zoom + window.center.x,
        (q.y - scene.y / 2) / z.zoom + window.center.y⟩ = q := by
      rw [apply_unturned h hmap, add_sub_cancel_right, add_sub_cancel_right,
        mul_div_cancel₀ _ hpos.ne', mul_div_cancel₀ _ hpos.ne', sub_add_cancel, sub_add_cancel]
    exact ⟨_, (hmem _).mp (by rwa [hsurjective]), hsurjective⟩

/-- A map that neither scales nor turns moves nothing, wherever the zoom looks. -/
theorem eq_identity (hzoom : z.zoom = 1) : map = Affine.identity := by
  obtain ⟨-, hsize, hcenter⟩ := window?_eq_some_iff.mp h
  rw [hsize, hzoom, div_one, div_one, within_of_crossed (by linarith),
    within_of_crossed (by linarith)] at hcenter
  apply apply_injective
  funext p
  rw [apply_unturned h hmap, apply_identity, hcenter, hzoom, one_mul, one_mul, sub_add_cancel,
    sub_add_cancel]

end

end Zoom

open Render (Canvas)

/-- **The window of a zoom and its map**, in exact arithmetic, and the zoom by one on a canvas. -/
theorem zoom_shows_window :
    (∀ (z : Zoom ℝ) (scene : Vec ℝ), 0 < scene.x → 0 < scene.y →
      (z.window? scene = none ↔ z.zoom ≤ 0) ∧
      ∀ window, z.window? scene = some window →
        window.size = ⟨scene.x / z.zoom, scene.y / z.zoom⟩ ∧
        (1 ≤ z.zoom → window.points ⊆ frame scene ∧
          ∀ center ≠ window.center, (Window.mk center window.size).points ⊆ frame scene →
            distance (z.focalPoint scene) window.center
              < distance (z.focalPoint scene) center) ∧
        (z.zoom < 1 → frame scene ⊆ window.points) ∧
        (∀ cos sin : ℝ, cos ^ 2 + sin ^ 2 = 1 → ∃ map, z.turned? cos sin scene = some map ∧
          map.apply window.center = ⟨scene.x / 2, scene.y / 2⟩ ∧
          ∀ p q, distance (map.apply p) (map.apply q) = z.zoom * distance p q) ∧
        ∃ map, z.turned? 1 0 scene = some map ∧ map.apply '' window.points = frame scene ∧
          (z.zoom = 1 → map = Affine.identity)) ∧
    (∀ r (c : Canvas) z, c.apply r (.zoom z) = c.zoomWith Float.cos Float.sin r.raster z) ∧
    ∀ cos sin, Canvas.StartsAtZero cos sin → ∀ raster (c : Canvas) (z : Zoom Float),
      c.surface.width < 2 ^ 53 → c.surface.height < 2 ^ 53 →
      z.zoom = 1.0 → z.degrees = 0.0 ∨ z.degrees = -0.0 →
      c.zoomWith cos sin raster z = c.done := by
  refine ⟨fun z scene hx hy => ⟨Zoom.window?_eq_none_iff, fun window h => ?_⟩,
    fun r c z => Canvas.zoom_eq_zoomWith r.raster c z,
    fun cos sin hangle raster c z hwidth hheight hzoom hdegrees =>
      Canvas.zoomWith_eq_done hangle raster hwidth hheight hzoom hdegrees⟩
  obtain ⟨-, hsize, -⟩ := Zoom.window?_eq_some_iff.mp h
  refine ⟨hsize, fun hzoom => ⟨Zoom.points_subset_frame h hx hy hzoom,
    fun center hne hsubset => Zoom.distance_focalPoint_lt h hx hy hsubset hne⟩,
    Zoom.frame_subset_points h hx hy, fun cos sin hturn => ?_, ?_⟩
  · obtain ⟨map, hmap⟩ := Zoom.exists_turned? h cos sin
    exact ⟨map, hmap, Zoom.apply_center h hmap, Zoom.distance_apply h hmap hturn⟩
  · obtain ⟨map, hmap⟩ := Zoom.exists_turned? h 1 0
    exact ⟨map, hmap, Zoom.image_points h hmap, Zoom.eq_identity h hmap⟩

/-- A zoom by two that looks beyond the lower left corner of a scene shows that corner; a zoom by one
leaves a small canvas alone although it looks nowhere. -/
theorem zoom_shows_window_corner :
    (let z : Zoom ℝ := ⟨2, 0, ⟨0, 5⟩⟩
      let scene : Vec ℝ := ⟨4, 2⟩
      let window : Window ℝ := ⟨⟨1, 3 / 2⟩, ⟨2, 1⟩⟩
      z.window? scene = some window ∧ window.points ⊆ frame scene ∧
        ∃ map, z.turned? (3 / 5) (4 / 5) scene = some map ∧ map.apply ⟨1, 3 / 2⟩ = ⟨2, 1⟩ ∧
          ∀ p q, distance (map.apply p) (map.apply q) = 2 * distance p q) ∧
    let c : Canvas := ⟨⟨3, 2, Buffer.zeros 24⟩, {}⟩
    c.zoomWith (fun _ => 1.0) id .blocks ⟨1.0, -0.0, ⟨0.0 / 0.0, 1.0 / 0.0⟩⟩ = c.done := by
  constructor
  · intro z scene window
    have hwindow : z.window? scene = some window := by
      rw [Zoom.window?_eq_some_iff, Zoom.within_eq, Zoom.within_eq]
      norm_num [z, scene, window]
    obtain ⟨-, hshows⟩ := zoom_shows_window.1 z scene (by norm_num [scene]) (by norm_num [scene])
    obtain ⟨-, hmagnified, -, hturned, -⟩ := hshows window hwindow
    obtain ⟨map, hmap, hcenter, hdistance⟩ := hturned (3 / 5) (4 / 5) (by norm_num)
    refine ⟨hwindow, (hmagnified (by norm_num [z])).1, map, hmap, ?_, hdistance⟩
    rw [hcenter]
    norm_num [scene]
  · exact zoom_shows_window.2.2 _ id ⟨rfl, rfl, rfl, rfl⟩ _ _ _ (by decide) (by decide) rfl
      (.inr rfl)

end SceneCanvas.Script
