import ContentStream.Proofs.Confinement
import ContentStream.Proofs.Rectangles

/-!
# The clip is the intersection of its regions

**Theorem (`clipTo_exact`).** Clip with any paths, one after another. The regions are the paths that
have points, in order and each with the smallest rectangle around its points. The clip is empty
exactly if a path had no points or the rectangles have no point in common, and otherwise its bounds
are the rectangle of all their common points. So the order of the paths does not matter, an empty clip
stays empty, and the bounds never grow.

The clip is narrowed rectangle by rectangle, and its bounds are no longer looked after once it is
empty. So the invariant (`IsIntersection`) says nothing about the bounds of an empty clip. It does not
have to, since what the rectangles have in common only shrinks.
-/

namespace ContentStream

open Rect

namespace Clip

variable {clip : Clip} {calls : List (Path × FillRule)}

/-- The clip after clipping with paths, one after another. -/
def clipTo (clip : Clip) (calls : List (Path × FillRule)) : Clip :=
  calls.foldl (fun clip call => clip.intersect call.1 call.2) clip

/-- The points that all regions of the clip have around them. -/
def common (clip : Clip) : Set (ℚ × ℚ) := {v | ∀ region ∈ clip.regions, v ∈ region.bbox.region}

/-- The clip is that of the paths that were clipped with. -/
structure IsIntersection (clip : Clip) (calls : List (Path × FillRule)) : Prop where
  regions : clip.regions.map (fun region => (region.path, region.rule)) =
    calls.filter fun call => !(Path.points call.1).isEmpty
  tight : ∀ region ∈ clip.regions, region.bbox.Tight (Path.points region.path)
  empty : clip.empty = true ↔ (∃ call ∈ calls, Path.points call.1 = []) ∨ clip.common = ∅
  bounds_eq_none : clip.empty = false → (clip.bounds = none ↔ calls = [])
  bounds : clip.empty = false → ∀ r, clip.bounds = some r → r.region = clip.common

/-! ## One more path -/

theorem common_default : ({} : Clip).common = Set.univ := by
  simp [common]

theorem common_intersect {path : Path} {bbox : Rect} (rule : FillRule)
    (h : Path.bbox? path = some bbox) :
    (clip.intersect path rule).common = clip.common ∩ bbox.region := by
  ext v
  simp [common, clip.intersect_regions rule h, or_imp, forall_and]

theorem isIntersection_default : IsIntersection {} [] where
  regions := rfl
  tight := by simp
  empty := by simp [common_default]
  bounds_eq_none := by simp
  bounds := by simp

/-- A path without points empties the clip and is no region. -/
theorem IsIntersection.intersect_pointless (h : clip.IsIntersection calls) {path : Path}
    (rule : FillRule) (hpath : Path.points path = []) :
    (clip.intersect path rule).IsIntersection (calls ++ [(path, rule)]) := by
  have heq : clip.intersect path rule = { clip with empty := true } := by
    simp [intersect, Path.bbox?, hpath, bound?]
  rw [heq]
  refine ⟨?_, h.tight, ?_, ?_, ?_⟩
  · simp [h.regions, hpath]
  · simp [hpath]
  · simp
  · simp

/-- Narrowing meets the common points with the rectangle, or finds that nothing is left. -/
theorem IsIntersection.narrow (h : clip.IsIntersection calls) {bbox : Rect}
    (hne : bbox.region.Nonempty) :
    ((clip.narrow bbox).empty = true ↔ clip.empty = true ∨ clip.common ∩ bbox.region = ∅) ∧
      ((clip.narrow bbox).empty = false →
        ∃ r, (clip.narrow bbox).bounds = some r ∧ r.region = clip.common ∩ bbox.region) := by
  cases hgo : clip.empty with
  | true => simp [(clip.narrow_within bbox).empty hgo]
  | false =>
    unfold Clip.narrow
    cases hbounds : clip.bounds with
    | none =>
      have hcalls : calls = [] := (h.bounds_eq_none hgo).1 hbounds
      have hregions : clip.regions = [] := by simpa [hcalls] using h.regions
      simp [hgo, common, hregions, hne.ne_empty]
    | some r =>
      rw [← h.bounds hgo r hbounds]
      obtain ⟨t, ht, hle, hregion⟩ | ⟨hnone, hempty⟩ := r.intersect?_cases bbox
      · simp [ht, hgo, ← hregion, (region_nonempty.2 hle).ne_empty]
      · simp [hnone, hempty]

theorem IsIntersection.intersect (h : clip.IsIntersection calls) (path : Path) (rule : FillRule) :
    (clip.intersect path rule).IsIntersection (calls ++ [(path, rule)]) := by
  cases hbox : Path.bbox? path with
  | none => exact h.intersect_pointless rule (bound?_eq_none.1 hbox)
  | some bbox =>
    have hpoints : Path.points path ≠ [] := fun hnil => by
      simp [Path.bbox?, bound?_eq_none.2 hnil] at hbox
    have htight : bbox.Tight (Path.points path) := bound?_tight hbox
    have hregions := clip.intersect_regions rule hbox
    have hempty : (clip.intersect path rule).empty = (clip.narrow bbox).empty := by
      simp [Clip.intersect, hbox]
    have hbounds : (clip.intersect path rule).bounds = (clip.narrow bbox).bounds := by
      simp [Clip.intersect, hbox]
    obtain ⟨hnone, hsome⟩ := h.narrow (htight.nonempty hpoints)
    rw [← hempty] at hnone hsome
    rw [← hbounds, ← common_intersect rule hbox] at hsome
    refine ⟨?_, ?_, ?_, fun hgo => ?_, fun hgo r hr => ?_⟩
    · simp [hregions, h.regions, hpoints]
    · rw [hregions]
      exact List.forall_mem_append.2 ⟨h.tight, List.forall_mem_singleton.2 htight⟩
    · have hcalls : (∃ call ∈ calls ++ [(path, rule)], Path.points call.1 = []) ↔
          ∃ call ∈ calls, Path.points call.1 = [] := by
        simp [or_and_right, exists_or, hpoints]
      -- Nothing in common with the others is nothing in common with this one as well.
      have hshrinks : clip.common = ∅ → clip.common ∩ bbox.region = ∅ := fun hc => by simp [hc]
      rw [hnone, h.empty, hcalls, common_intersect rule hbox, or_assoc,
        or_iff_right_of_imp hshrinks]
    · obtain ⟨r, hr, -⟩ := hsome hgo
      simp [hr]
    · obtain ⟨r', hr', hregion⟩ := hsome hgo
      cases hr'.symm.trans hr
      exact hregion

/-! ## All paths -/

theorem IsIntersection.clipTo (h : clip.IsIntersection calls) (more : List (Path × FillRule)) :
    (clip.clipTo more).IsIntersection (calls ++ more) := by
  induction more generalizing clip calls with
  | nil => simpa [Clip.clipTo] using h
  | cons call more ih => simpa [Clip.clipTo] using ih (h.intersect call.1 call.2)

theorem clipTo_within (clip : Clip) (calls : List (Path × FillRule)) :
    (clip.clipTo calls).Within clip := by
  induction calls generalizing clip with
  | nil => exact .refl clip
  | cons call calls ih => exact (ih _).trans (clip.intersect_within call.1 call.2)

theorem clipTo_append (clip : Clip) (calls more : List (Path × FillRule)) :
    clip.clipTo (calls ++ more) = (clip.clipTo calls).clipTo more :=
  List.foldl_append

end Clip

/-! ## Other orders, more paths -/

theorem Rect.Inside.region_subset {r s : Rect} (h : r.Inside s) : r.region ⊆ s.region :=
  Set.Icc_subset_Icc ⟨Decimal.toRat_le_toRat.2 h.x0, Decimal.toRat_le_toRat.2 h.y0⟩
    ⟨Decimal.toRat_le_toRat.2 h.x1, Decimal.toRat_le_toRat.2 h.y1⟩

namespace Clip

variable {clip other : Clip} {calls calls' : List (Path × FillRule)}

/-- Clipping with more paths leaves no more points in common. The rectangles need not be written with
the same decimals, but they have the same points. -/
theorem IsIntersection.common_subset (h : clip.IsIntersection calls)
    (h' : other.IsIntersection calls') (hsub : calls' ⊆ calls) : clip.common ⊆ other.common := by
  intro v hv region hregion
  have hcall : (region.path, region.rule) ∈
      calls'.filter fun call => !(Path.points call.1).isEmpty := by
    rw [← h'.regions]
    exact List.mem_map_of_mem hregion
  obtain ⟨hmem, hpoints⟩ := List.mem_filter.1 hcall
  have hsame : (region.path, region.rule) ∈ clip.regions.map fun r => (r.path, r.rule) := by
    rw [h.regions]
    exact List.mem_filter.2 ⟨hsub hmem, hpoints⟩
  obtain ⟨region', hregion', heq⟩ := List.mem_map.1 hsame
  have htight := h.tight region' hregion'
  rw [(Prod.mk.inj heq).1] at htight
  exact htight.region_subset (h'.tight region hregion) (hv region' hregion')

theorem IsIntersection.common_eq_of_perm (h : clip.IsIntersection calls)
    (h' : other.IsIntersection calls') (hperm : calls.Perm calls') : clip.common = other.common :=
  (h.common_subset h' hperm.symm.subset).antisymm (h'.common_subset h hperm.subset)

theorem IsIntersection.empty_eq_of_perm (h : clip.IsIntersection calls)
    (h' : other.IsIntersection calls') (hperm : calls.Perm calls') : clip.empty = other.empty := by
  rw [Bool.eq_iff_iff, h.empty, h'.empty, h.common_eq_of_perm h' hperm]
  simp only [hperm.mem_iff]

theorem IsIntersection.bounds_eq_of_perm (h : clip.IsIntersection calls)
    (h' : other.IsIntersection calls') (hperm : calls.Perm calls') (hgo : clip.empty = false) :
    clip.bounds.map corners = other.bounds.map corners := by
  have hgo' : other.empty = false := (h.empty_eq_of_perm h' hperm).symm.trans hgo
  have hne : clip.common.Nonempty := by
    rw [Set.nonempty_iff_ne_empty]
    intro hnone
    simp [h.empty.2 (.inr hnone)] at hgo
  have hnone : clip.bounds = none ↔ other.bounds = none := by
    rw [h.bounds_eq_none hgo, h'.bounds_eq_none hgo', ← List.length_eq_zero_iff,
      ← List.length_eq_zero_iff, hperm.length_eq]
  cases hbounds : clip.bounds with
  | none => rw [hnone.1 hbounds]
  | some r =>
    cases hbounds' : other.bounds with
    | none => simp [hnone.2 hbounds'] at hbounds
    | some r' =>
      have hr := h.bounds hgo r hbounds
      have hr' := h'.bounds hgo' r' hbounds'
      have hregion : r.region = r'.region := by rw [hr, hr', h.common_eq_of_perm h' hperm]
      simp [corners_of_region (hr ▸ hne) hregion]

/-- **The clip is the intersection of its regions**, whatever paths are clipped with. Another order
gives the same clip, up to how the numbers of its bounds are written, and further paths can only
narrow it. -/
theorem clipTo_exact (calls : List (Path × FillRule)) :
    (clipTo {} calls).IsIntersection calls ∧
      (∀ calls', calls.Perm calls' →
        (clipTo {} calls').empty = (clipTo {} calls).empty ∧
          ((clipTo {} calls).empty = false →
            (clipTo {} calls').bounds.map corners = (clipTo {} calls).bounds.map corners)) ∧
      ∀ more,
        ((clipTo {} calls).empty = true → (clipTo {} (calls ++ more)).empty = true) ∧
          ∀ r, (clipTo {} calls).bounds = some r →
            ∃ r', (clipTo {} (calls ++ more)).bounds = some r' ∧ r'.region ⊆ r.region := by
  have h : ∀ calls, (clipTo {} calls).IsIntersection calls := isIntersection_default.clipTo
  refine ⟨h calls, fun calls' hperm => ⟨?_, fun hgo => ?_⟩, fun more => ?_⟩
  · exact ((h calls).empty_eq_of_perm (h calls') hperm).symm
  · exact ((h calls).bounds_eq_of_perm (h calls') hperm hgo).symm
  · rw [clipTo_append]
    have hwithin := clipTo_within (clipTo {} calls) more
    refine ⟨hwithin.empty, fun r hr => ?_⟩
    obtain ⟨r', hr', hinside⟩ := hwithin.bounds r hr
    exact ⟨r', hr', hinside.region_subset⟩

end Clip

end ContentStream
