import Rebalancer.BoundsSound

namespace Rebalancer
open List

/-- A double that is not NaN. -/
abbrev Extended := WithBot (WithTop ℚ)

/-- `safe_div` of finite numbers; `none` is NaN. -/
def safeDiv (numerator denominator : ℚ) : Option Extended :=
  if denominator = 0 then
    if numerator = 0 then none else if 0 < numerator then some ⊤ else some ⊥
  else some ((numerator / denominator : ℚ) : WithTop ℚ)

theorem safeDiv_eq_none : safeDiv n d = none ↔ n = 0 ∧ d = 0 := by
  rw [safeDiv]
  split_ifs <;> simp [*]

namespace QuotientOperation
variable (child1 child2 : Bounds)

def boundCandidates : List Extended :=
  let corners := [child1.lowerBound, child1.upperBound].flatMap fun numerator =>
    [child2.lowerBound, child2.upperBound].filterMap (safeDiv numerator)
  let denomContainsZero := child2.lowerBound < 0 ∧ 0 < child2.upperBound
  if ¬(child1.lowerBound = 0 ∧ child1.upperBound = 0) ∧ denomContainsZero then corners ++ [⊤, ⊥]
  else corners

/-- `none` where the source reads the least of no candidates. -/
def innerLowerAndUpperBounds : Option (Extended × Extended) := do
  let lowerBound ← (boundCandidates child1 child2).min?
  let upperBound ← (boundCandidates child1 child2).max?
  some (lowerBound, upperBound)

def Covers : Prop :=
  ∃ b ∈ innerLowerAndUpperBounds child1 child2, ∀ n d, child1.Contains n → child2.Contains d →
    d ≠ 0 → b.1 ≤ ((n / d : ℚ) : WithTop ℚ) ∧ ((n / d : ℚ) : WithTop ℚ) ≤ b.2

def Bracketed (q : ℚ) : Prop := (∃ x ∈ boundCandidates child1 child2, x ≤ (q : WithTop ℚ)) ∧
    ∃ x ∈ boundCandidates child1 child2, (q : WithTop ℚ) ≤ x

theorem covers_iff : Covers child1 child2 ↔ boundCandidates child1 child2 ≠ [] ∧
    ∀ n d, child1.Contains n → child2.Contains d → d ≠ 0 → Bracketed child1 child2 (n / d) := by
  simp only [Covers, innerLowerAndUpperBounds, Bracketed]
  generalize boundCandidates child1 child2 = l
  cases hl : l.min? with
  | none => simp [min?_eq_none_iff.mp hl]
  | some m =>
    cases hu : l.max? with
    | none => simp [max?_eq_none_iff.mp hu]
    | some M =>
      obtain ⟨hm, hmin⟩ := min?_eq_some_iff.mp hl
      obtain ⟨hM, hmax⟩ := max?_eq_some_iff.mp hu
      simp only [Option.bind_eq_bind, Option.bind_some, Option.mem_some_iff, exists_eq_left']
      refine ⟨fun h => ⟨ne_nil_of_mem hm, fun n d hn hd h0 => ?_⟩, fun h n d hn hd h0 => ?_⟩
      · exact ⟨⟨m, hm, (h n d hn hd h0).1⟩, M, hM, (h n d hn hd h0).2⟩
      · obtain ⟨⟨x, hx, hxq⟩, y, hy, hyq⟩ := h.2 n d hn hd h0
        exact ⟨(hmin x hx).trans hxq, hyq.trans (hmax y hy)⟩

variable {a b c e : ℚ}

theorem mem_of_corner (hn : n ∈ [a, b]) (hd : d ∈ [c, e]) (h : safeDiv n d = some x) :
    x ∈ boundCandidates ⟨a, b⟩ ⟨c, e⟩ := by
  have hx : x ∈ [a, b].flatMap fun n => [c, e].filterMap (safeDiv n) :=
    mem_flatMap.mpr ⟨n, hn, mem_filterMap.mpr ⟨d, hd, h⟩⟩
  rw [boundCandidates]
  split
  · exact mem_append_left _ hx
  · exact hx

theorem boundCandidates_eq_nil : boundCandidates ⟨a, b⟩ ⟨c, e⟩ = [] ↔
    (a = 0 ∧ b = 0) ∧ c = 0 ∧ e = 0 := by
  constructor
  · intro h
    have hc : ∀ n ∈ [a, b], ∀ d ∈ [c, e], n = 0 ∧ d = 0 := by
      intro n hn d hd
      rw [← safeDiv_eq_none, Option.eq_none_iff_forall_ne_some]
      intro x hx
      exact ne_nil_of_mem (mem_of_corner hn hd hx) h
    simp only [mem_cons, not_mem_nil, or_false, forall_eq_or_imp, forall_eq] at hc
    exact ⟨⟨hc.1.1.1, hc.2.1.1⟩, hc.1.1.2, hc.1.2.2⟩
  · rintro ⟨⟨rfl, rfl⟩, rfl, rfl⟩
    rfl

theorem bracketed_of_inv (hc : c ≠ 0) (he : e ≠ 0) (hn : Bounds.Contains ⟨a, b⟩ n)
    (hd : Bounds.Contains ⟨e⁻¹, c⁻¹⟩ d⁻¹) : Bracketed ⟨a, b⟩ ⟨c, e⟩ (n / d) := by
  have hmem : ∀ x ∈ [a * e⁻¹, a * c⁻¹, b * e⁻¹, b * c⁻¹],
      ((x : WithTop ℚ) : Extended) ∈ boundCandidates ⟨a, b⟩ ⟨c, e⟩ := by
    simp only [← div_eq_mul_inv, mem_cons, not_mem_nil, or_false]
    rintro x (rfl | rfl | rfl | rfl)
    · exact mem_of_corner (by simp) (by simp) (if_neg he)
    · exact mem_of_corner (by simp) (by simp) (if_neg hc)
    · exact mem_of_corner (by simp) (by simp) (if_neg he)
    · exact mem_of_corner (by simp) (by simp) (if_neg hc)
  obtain ⟨⟨x, hx, hxq⟩, y, hy, hyq⟩ := hn.mul hd
  rw [div_eq_mul_inv]
  exact ⟨⟨x, hmem x hx, WithBot.coe_le_coe.mpr (WithTop.coe_le_coe.mpr hxq)⟩, y, hmem y hy,
    WithBot.coe_le_coe.mpr (WithTop.coe_le_coe.mpr hyq)⟩

theorem bot_mem (ha : a < 0) (h0 : 0 ∈ [c, e]) : ⊥ ∈ boundCandidates ⟨a, b⟩ ⟨c, e⟩ := by
  apply mem_of_corner (n := a) (by simp) h0
  simp [safeDiv, ha.ne, ha.not_gt]

theorem top_mem (hb : 0 < b) (h0 : 0 ∈ [c, e]) : ⊤ ∈ boundCandidates ⟨a, b⟩ ⟨c, e⟩ := by
  apply mem_of_corner (n := b) (by simp) h0
  simp [safeDiv, hb.ne', hb]

theorem bracketed (h : c < 0 → e = 0 → a < 0 ∧ 0 < b ∨ a = 0 ∧ b = 0)
    (hn : Bounds.Contains ⟨a, b⟩ n) (hd : Bounds.Contains ⟨c, e⟩ d) (h0 : d ≠ 0) :
    Bracketed ⟨a, b⟩ ⟨c, e⟩ (n / d) := by
  obtain ⟨hcd, hde⟩ : c ≤ d ∧ d ≤ e := hd
  rcases lt_or_ge 0 c with hc | hc
  · have hd := hc.trans_le hcd
    apply bracketed_of_inv hc.ne' (hd.trans_le hde).ne' hn
    exact ⟨inv_anti₀ hd hde, inv_anti₀ hc hcd⟩
  rcases lt_or_ge e 0 with he | he
  · have hd := hde.trans_lt he
    apply bracketed_of_inv (hcd.trans_lt hd).ne he.ne hn
    exact ⟨(inv_le_inv_of_neg he hd).mpr hde, (inv_le_inv_of_neg hd (hcd.trans_lt hd)).mpr hcd⟩
  by_cases hz : a = 0 ∧ b = 0
  · obtain ⟨rfl, rfl⟩ := hz
    have hn : n = 0 := le_antisymm hn.2 hn.1
    have hx : ∃ f ∈ [c, e], f ≠ 0 := by
      by_contra! hx
      exact h0 (le_antisymm (hx e (by simp) ▸ hde) (hx c (by simp) ▸ hcd))
    obtain ⟨f, hf, hf0⟩ := hx
    have hx := mem_of_corner (n := 0) (a := 0) (b := 0) (by simp) hf (if_neg hf0)
    rw [hn, zero_div]
    rw [zero_div] at hx
    exact ⟨⟨_, hx, le_refl _⟩, _, hx, le_refl _⟩
  rcases hc.lt_or_eq with hc | rfl
  · rcases he.lt_or_eq with he | rfl
    · have hx : ∀ x ∈ [⊤, ⊥], x ∈ boundCandidates ⟨a, b⟩ ⟨c, e⟩ := by
        rw [boundCandidates, if_pos ⟨hz, hc, he⟩]
        exact fun x hx => mem_append_right _ hx
      exact ⟨⟨⊥, hx ⊥ (by simp), bot_le⟩, ⊤, hx ⊤ (by simp), le_top⟩
    · obtain ⟨ha, hb⟩ := (h hc rfl).resolve_right hz
      exact ⟨⟨⊥, bot_mem ha (by simp), bot_le⟩, ⊤, top_mem hb (by simp), le_top⟩
  · have hd := hcd.lt_of_ne' h0
    have he := hd.trans_le hde
    constructor
    · rcases lt_or_ge a 0 with ha | ha
      · exact ⟨⊥, bot_mem ha (by simp), bot_le⟩
      · refine ⟨_, mem_of_corner (n := a) (d := e) (by simp) (by simp) (if_neg he.ne'), ?_⟩
        exact_mod_cast div_le_div₀ (ha.trans hn.1) hn.1 hd hde
    · rcases lt_or_ge 0 b with hb | hb
      · exact ⟨⊤, top_mem hb (by simp), le_top⟩
      · refine ⟨_, mem_of_corner (n := b) (d := e) (by simp) (by simp) (if_neg he.ne'), ?_⟩
        have hq := div_le_div₀ (neg_nonneg.mpr (hn.2.trans hb)) (neg_le_neg hn.2) hd hde
        rw [neg_div, neg_div] at hq
        exact_mod_cast neg_le_neg_iff.mp hq

theorem mem_of_touching (hc : c < 0) (hx : x ∈ boundCandidates ⟨a, b⟩ ⟨c, 0⟩) :
    ∃ n ∈ [a, b], x = ((n / c : ℚ) : WithTop ℚ) ∨ safeDiv n 0 = some x := by
  rw [boundCandidates, if_neg fun h => lt_irrefl _ h.2.2] at hx
  obtain ⟨n, hn, hx⟩ := mem_flatMap.mp hx
  exact ⟨n, hn, by simpa [safeDiv, hc.ne, eq_comm] using hx⟩

theorem not_covers (hc : c < 0) (hab : a ≤ b) (h : ¬(a < 0 ∧ 0 < b ∨ a = 0 ∧ b = 0)) :
    ¬ Covers ⟨a, b⟩ ⟨c, 0⟩ := by
  intro hcov
  have hq : ∀ n, n / (c / 2) = n / c + n / c := by
    intro n
    rw [div_div_eq_mul_div, mul_two, add_div]
  have hbr : ∀ n, Bounds.Contains ⟨a, b⟩ n → Bracketed ⟨a, b⟩ ⟨c, 0⟩ (n / (c / 2)) := by
    intro n hn
    refine ((covers_iff _ _).mp hcov).2 n _ hn ⟨?_, ?_⟩ (by linarith) <;> dsimp only <;> linarith
  rcases lt_or_ge a 0 with ha | ha
  · have hb : b ≤ 0 := not_lt.mp fun hb => h (.inl ⟨ha, hb⟩)
    obtain ⟨-, x, hx, hxq⟩ := hbr a ⟨le_refl _, hab⟩
    obtain ⟨n, hn, hx⟩ := mem_of_touching hc hx
    have hn : a ≤ n ∧ n ≤ 0 := by
      rcases mem_pair.mp hn with rfl | rfl <;> simp [*, ha.le]
    rcases hx with rfl | hx
    · have hle := div_le_div_of_nonpos_of_le hc.le hn.1
      have hpos := div_pos_of_neg_of_neg ha hc
      rw [hq] at hxq
      norm_cast at hxq
      linarith
    · rcases hn.2.lt_or_eq with hn | hn
      · simp [safeDiv, hn.ne, hn.not_gt] at hx
        simp [← hx] at hxq
      · simp [safeDiv, hn] at hx
  · have hb : 0 < b := (ha.trans hab).lt_of_ne' fun hb => h (.inr ⟨by linarith, hb⟩)
    obtain ⟨⟨x, hx, hxq⟩, -⟩ := hbr b ⟨hab, le_refl _⟩
    obtain ⟨n, hn, hx⟩ := mem_of_touching hc hx
    have hn : n ≤ b ∧ 0 ≤ n := by
      rcases mem_pair.mp hn with rfl | rfl <;> simp [*, hb.le]
    rcases hx with rfl | hx
    · have hle := div_le_div_of_nonpos_of_le hc.le hn.1
      have hneg := div_neg_of_pos_of_neg hb hc
      rw [hq] at hxq
      norm_cast at hxq
      linarith
    · rcases hn.2.lt_or_eq with hn | hn
      · simp [safeDiv, hn.ne', hn] at hx
        simp [← hx] at hxq
      · simp [safeDiv, ← hn] at hx

/-- The bounds cover every quotient, but for divisors `[0, 0]` and those that end at zero. -/
theorem covers_exactly (hab : a ≤ b) : Covers ⟨a, b⟩ ⟨c, e⟩ ↔
    ¬((a = 0 ∧ b = 0) ∧ c = 0 ∧ e = 0) ∧ (c < 0 → e = 0 → a < 0 ∧ 0 < b ∨ a = 0 ∧ b = 0) := by
  rw [covers_iff, ← boundCandidates_eq_nil.not]
  constructor
  · intro h
    refine ⟨h.1, ?_⟩
    rintro hc rfl
    by_contra hn
    exact not_covers hc hab hn ((covers_iff _ _).mpr h)
  · rintro ⟨h0, h⟩
    exact ⟨h0, fun _ _ hn hd hd0 => bracketed h hn hd hd0⟩

theorem positive_over_negative : Covers ⟨1, 2⟩ ⟨-2, -1⟩ :=
  (covers_exactly (by norm_num)).mpr (by norm_num)

theorem positive_over_touching : ¬ Covers ⟨1, 2⟩ ⟨-1, 0⟩ :=
  not_covers (by norm_num) (by norm_num) (by norm_num)

end QuotientOperation

end Rebalancer
