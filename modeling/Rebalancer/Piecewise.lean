import Rebalancer.ExceptLoops

namespace Rebalancer

structure Bounds where
  lowerBound : ℚ
  upperBound : ℚ

def Bounds.Contains (b : Bounds) (v : ℚ) : Prop := b.lowerBound ≤ v ∧ v ≤ b.upperBound

/-- The loop of the constructor of `Piecewise`, from the point before; `none` is an infinite
slope. -/
def buildSlopes (continuous : Bool) : ℚ × ℚ → List (ℚ × ℚ) → Except String (List (Option ℚ))
  | _, [] => .ok []
  | prev, point :: points =>
    if point.1 < prev.1 then .error "Require piecewise points to be in increasing order"
    else if continuous ∧ prev.1 = point.1 then
      .error "discontinuous piecewise. Not allowed unless specified"
    else if point.1 = prev.1 then
      if point.2 = prev.2 then .error s!"duplicated points defined {point.1}, {point.2}"
      else do
        let slopes ← buildSlopes continuous point points
        .ok (none :: slopes)
    else do
      let slopes ← buildSlopes continuous point points
      .ok (some ((point.2 - prev.2) / (point.1 - prev.1)) :: slopes)

/-- The points of a piecewise linear function, with the slopes its constructor computed. -/
structure Piecewise where
  first : ℚ × ℚ
  points : List (ℚ × ℚ)
  slopes : List (Option ℚ)
  points_ne : points ≠ []
  built : ∃ continuous, buildSlopes continuous first points = .ok slopes

namespace Piecewise

def new (points : List (ℚ × ℚ)) (continuous : Bool) : Except String Piecewise :=
  match points with
  | first :: second :: rest =>
    match h : buildSlopes continuous first (second :: rest) with
    | .error e => .error e
    | .ok slopes => .ok ⟨first, second :: rest, slopes, List.cons_ne_nil _ _, continuous, h⟩
  | _ => .error "Needs to define at least 2 points for Piecewise"

def valueBefore (val : ℚ) (point : ℚ × ℚ) : Option (Option ℚ) → Except String ℚ
  | none => .error "vector::_M_range_check"
  | some none => .error "infinite slope"
  | some (some slope) => .ok (point.2 - slope * (point.1 - val))

def findPiece (val : ℚ) : Option (Option ℚ) → List (Option ℚ) → List (ℚ × ℚ) → Except String ℚ
  | _, _, [] => .error "x is larger than given points"
  | slope, slopes, point :: points =>
    if val = point.1 then .ok point.2
    else if val < point.1 then valueBefore val point slope
    else findPiece val slopes.head? slopes.tail points

def performPiecewise (p : Piecewise) (val : ℚ) : Except String ℚ :=
  if val < p.first.1 then .error "x cannot be smaller than first points"
  else if (p.points.getLast p.points_ne).1 < val then
    .error "x cannot be larger than last points"
  else findPiece val none p.slopes (p.first :: p.points)

def innerLowerAndUpperBounds (p : Piecewise) : Bounds :=
  p.points.foldl (fun b point => ⟨min b.lowerBound point.2, max b.upperBound point.2⟩)
    ⟨p.first.2, p.first.2⟩

theorem between_of_slope {prev p : ℚ × ℚ} (h : prev.1 < val) (h' : val < p.1) : min prev.2 p.2 ≤
        p.2 - (p.2 - prev.2) / (p.1 - prev.1) * (p.1 - val) ∧
      p.2 - (p.2 - prev.2) / (p.1 - prev.1) * (p.1 - val) ≤ max prev.2 p.2 := by
  have hw : 0 < p.1 - prev.1 := by linarith
  have hs : (p.2 - prev.2) / (p.1 - prev.1) * (p.1 - val) =
      (p.1 - val) / (p.1 - prev.1) * (p.2 - prev.2) := by
    field_simp
  have hp : 0 ≤ (p.1 - val) / (p.1 - prev.1) := div_nonneg (by linarith) hw.le
  have ho : (p.1 - val) / (p.1 - prev.1) ≤ 1 := by
    rw [div_le_one hw]
    linarith
  rcases le_total prev.2 p.2 with hle | hle
  · rw [min_eq_left hle, max_eq_right hle]
    constructor <;> nlinarith
  · rw [min_eq_right hle, max_eq_left hle]
    constructor <;> nlinarith

theorem findPiece_between {ps : List (ℚ × ℚ)} :
    ∀ {prev : ℚ × ℚ} {ss : List (Option ℚ)}, buildSlopes cs prev ps = .ok ss →
      prev.1 < val → findPiece val ss.head? ss.tail ps = .ok v →
      ∃ p ∈ prev :: ps, ∃ q ∈ prev :: ps, min p.2 q.2 ≤ v ∧ v ≤ max p.2 q.2 := by
  induction ps with
  | nil =>
    intro prev ss _ _ h
    cases h
  | cons point ps ih =>
    intro prev ss hs hprev h
    rw [findPiece] at h
    split at h
    · cases h
      exact ⟨point, .tail _ (.head _), point, .tail _ (.head _), min_le_left _ _, le_max_left _ _⟩
    · rename_i hne
      split at h
      · rename_i hlt
        have hd := (hprev.trans hlt).ne'
        have hi := not_lt_of_gt (hprev.trans hlt)
        simp only [buildSlopes, hi, hd, Ne.symm hd, and_false, ↓reduceIte] at hs
        obtain ⟨rest, -, hs⟩ := except_bind_ok hs
        cases hs
        rw [List.head?_cons, valueBefore, Except.ok.injEq] at h
        rw [← h]
        exact ⟨prev, .head _, point, .tail _ (.head _), between_of_slope hprev hlt⟩
      · rename_i hge
        have hpoint : point.1 < val := lt_of_le_of_ne (not_lt.mp hge) (Ne.symm hne)
        have ht : buildSlopes cs point ps = .ok ss.tail := by
          rw [buildSlopes] at hs
          split at hs
          · cases hs
          · split at hs
            · cases hs
            · split at hs
              · split at hs
                · cases hs
                · obtain ⟨rest, hrest, hs⟩ := except_bind_ok hs
                  cases hs
                  exact hrest
              · obtain ⟨rest, hrest, hs⟩ := except_bind_ok hs
                cases hs
                exact hrest
        obtain ⟨p, hp, q, hq, hb⟩ := ih ht hpoint h
        exact ⟨p, .tail _ hp, q, .tail _ hq, hb⟩

section
variable (p : Piecewise) (h : p.performPiecewise val = .ok v)
include h

theorem performPiecewise_between :
    ∃ q ∈ p.first :: p.points, ∃ r ∈ p.first :: p.points, min q.2 r.2 ≤ v ∧ v ≤ max q.2 r.2 := by
  obtain ⟨c, hb⟩ := p.built
  rw [performPiecewise] at h
  split at h
  · cases h
  · rename_i hf
    split at h
    · cases h
    · rw [findPiece] at h
      split_ifs at h with hne
      · cases h
        exact ⟨p.first, .head _, p.first, .head _, min_le_left _ _, le_max_left _ _⟩
      · exact findPiece_between hb (lt_of_le_of_ne (not_lt.mp hf) (Ne.symm hne)) h

theorem bounds_contains : p.innerLowerAndUpperBounds.Contains v := by
  have hpoint : ∀ q ∈ p.first :: p.points, p.innerLowerAndUpperBounds.Contains q.2 := by
    refine foldl_rule (P := fun done b => ∀ q ∈ done, Bounds.Contains b q.2) ?_ [p.first] _ ?_
    · intro point _ done b h q hq
      rcases List.mem_append.mp hq with hq | hq
      · exact ⟨(min_le_left _ _).trans (h q hq).1, (h q hq).2.trans (le_max_left _ _)⟩
      · rw [List.mem_singleton.mp hq]
        exact ⟨min_le_right _ _, le_max_right _ _⟩
    · intro q hq
      rw [List.mem_singleton.mp hq]
      exact ⟨le_refl _, le_refl _⟩
  obtain ⟨q, hq, r, hr, hlow, hh⟩ := p.performPiecewise_between h
  have hq' := hpoint q hq
  have hr' := hpoint r hr
  exact ⟨(le_min hq'.1 hr'.1).trans hlow, hh.trans (max_le hq'.2 hr'.2)⟩

end

end Piecewise

end Rebalancer
