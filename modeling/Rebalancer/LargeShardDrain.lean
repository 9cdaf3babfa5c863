import Rebalancer.ChangeSet
import Rebalancer.Precision

namespace Rebalancer
open List

/-- The initial objects of a scope item with their values, its immovable shards and its capacity. -/
structure DrainCandidate where
  precision : PrecisionTolerances
  objects : List (ObjectId × ℚ)
  nonneg : ∀ p ∈ objects, 0 ≤ p.2
  immovableShards : List ObjectId
  scopeItemCapacity : ℚ
  candidateLargeShardSize : ℚ

namespace DrainCandidate
variable (d : DrainCandidate)

def getSortedDimValues : List (ObjectId × ℚ) := d.objects.insertionSort fun p q => p.2 ≤ q.2

def initialUtil : ℚ := (d.objects.map Prod.snd).sum

def amountOfDrainRequired : ℚ :=
  max 0 (d.candidateLargeShardSize - max 0 (d.scopeItemCapacity - d.initialUtil))

/-- The loop over the sorted shards: the running sum, the value of the last shard when the sum is
enough, and the number of shards. -/
def drain : List (ObjectId × ℚ) → ℚ → Nat → ℚ × ℚ × Nat
  | [], sum, n => (sum, 0, n)
  | (o, dimValue) :: rest, sum, n =>
    if o ∈ d.immovableShards then drain rest sum n
    else if d.amountOfDrainRequired ≤ sum + dimValue then (sum + dimValue, dimValue, n + 1)
    else drain rest (sum + dimValue) (n + 1)

def computeRawDrainMetric : Option (ℚ × Nat) :=
  if d.precision.compare d.amountOfDrainRequired 0 = .eq then some (0, 0)
  else
    let (sum, maxShardRemovalSize, nShardsToRemove) := d.drain d.getSortedDimValues 0 0
    if sum < d.amountOfDrainRequired then none else some (maxShardRemovalSize, nShardsToRemove)

def isMovable (p : ObjectId × ℚ) : Bool := decide (p.1 ∉ d.immovableShards)

def movable : List ℚ := (d.getSortedDimValues.filter d.isMovable).map Prod.snd

def smallest (n : Nat) : ℚ := (d.movable.take n).sum

def HasRoom (removed : ℚ) : Prop :=
  d.candidateLargeShardSize ≤ d.scopeItemCapacity - (d.initialUtil - removed)

/-- The metric names the least number of smallest movable shards that make enough room, and is
absent when no movable shards do. -/
def Answers : Option (ℚ × Nat) → Prop
  | none => ∀ removed, removed <+ d.movable → ¬ d.HasRoom removed.sum
  | some (v, n) => d.HasRoom (d.smallest n) ∧ (∀ m, m < n → ¬ d.HasRoom (d.smallest m)) ∧
      if n = 0 then v = 0 else d.movable[n - 1]? = some v

def shortfall : ℚ := d.candidateLargeShardSize - (d.scopeItemCapacity - d.initialUtil)

/-- The truncation and the tolerance neither hide nor invent a shortfall. -/
def AmountSuffices : Prop :=
  if d.precision.compare d.amountOfDrainRequired 0 = .eq then d.shortfall ≤ 0
  else if d.movable = [] then d.amountOfDrainRequired ≤ 0 → d.shortfall ≤ 0
  else 0 < d.shortfall ∧ ∀ n, 1 ≤ n → n ≤ d.movable.length →
    d.amountOfDrainRequired ≤ d.smallest n → d.shortfall ≤ d.smallest n

/-- An item within its capacity has a shortfall that the tolerance tells from zero, or none; on an
overfull one no sum of smallest shards is enough for the size without covering the shortfall. -/
def Drains : Prop :=
  if d.initialUtil ≤ d.scopeItemCapacity then
    if d.shortfall ≤ 0 then 0 < d.precision.absolute ∨ d.movable = []
    else d.precision.compare d.shortfall 0 ≠ .eq
  else if 0 < d.candidateLargeShardSize then
    d.precision.compare d.candidateLargeShardSize 0 ≠ .eq ∧
      ∀ n, d.candidateLargeShardSize ≤ d.smallest n → d.shortfall ≤ d.smallest n
  else if 0 < d.precision.absolute ∨ d.movable = [] then d.shortfall ≤ 0
  else 0 < d.shortfall ∧ d.shortfall ≤ d.smallest 1

variable {d}

theorem hasRoom_iff : d.HasRoom x ↔ d.shortfall ≤ x := by
  rw [HasRoom, shortfall]
  apply Iff.intro
  · intro h
    linarith
  · intro h
    linarith

theorem amountOfDrainRequired_le (h : 0 ≤ d.shortfall) : d.amountOfDrainRequired ≤ d.shortfall := by
  apply max_le h
  exact sub_le_sub_left (le_max_right 0 _) _

theorem shortfall_pos (h : 0 < d.amountOfDrainRequired) : 0 < d.shortfall := by
  have h := (lt_max_iff.mp h).resolve_left (lt_irrefl 0)
  exact h.trans_le (sub_le_sub_left (le_max_right 0 _) _)

theorem nonneg_of_mem_movable (hx : x ∈ d.movable) : 0 ≤ x := by
  obtain ⟨p, hp, rfl⟩ := mem_map.mp hx
  exact d.nonneg p ((mem_insertionSort _).mp (mem_filter.mp hp).1)

theorem smallest_mono (h : m ≤ n) : d.smallest m ≤ d.smallest n := by
  apply (take_sublist_take_left h).sum_le_sum
  intro x hx
  exact nonneg_of_mem_movable (mem_of_mem_take hx)

theorem amountSuffices_of_zero (h : d.amountOfDrainRequired = 0) : d.AmountSuffices ↔
    if 0 < d.precision.absolute ∨ d.movable = [] then d.shortfall ≤ 0
    else 0 < d.shortfall ∧ d.shortfall ≤ d.smallest 1 := by
  rw [AmountSuffices, h]
  by_cases ht : 0 < d.precision.absolute
  · rw [if_pos (PrecisionTolerances.compare_self ht 0), if_pos (.inl ht)]
  · rw [PrecisionTolerances.compare_zero (not_lt.mp ht), if_neg (by decide)]
    by_cases hm : d.movable = []
    · rw [if_pos hm, if_pos (.inr hm), forall_prop_of_true le_rfl]
    · rw [if_neg hm, if_neg (not_or.mpr ⟨ht, hm⟩)]
      apply and_congr_right
      intro _
      constructor
      · intro h
        exact h 1 le_rfl (length_pos_iff.mpr hm) (smallest_mono (m := 0) zero_le_one)
      · intro h n hn _ _
        exact h.trans (smallest_mono hn)

theorem amountSuffices_of_pos (h : 0 < d.amountOfDrainRequired) : d.AmountSuffices ↔
    d.precision.compare d.amountOfDrainRequired 0 ≠ .eq ∧
      ∀ n, d.amountOfDrainRequired ≤ d.smallest n → d.shortfall ≤ d.smallest n := by
  have hs := shortfall_pos h
  rw [AmountSuffices]
  split_ifs with hc hm
  · exact iff_of_false (not_le.mpr hs) fun hn => hn.1 hc
  · refine iff_of_true (fun hle => absurd h (not_lt.mpr hle)) ⟨hc, fun n hn => ?_⟩
    rw [smallest, hm, take_nil, sum_nil] at hn
    exact absurd h (not_lt.mpr hn)
  · rw [and_iff_right hs, and_iff_right hc]
    constructor
    · intro ha n hn
      have hpos : 1 ≤ n := by
        by_contra hz
        rw [Nat.lt_one_iff.mp (not_le.mp hz)] at hn
        exact absurd h (not_lt.mpr hn)
      have hmin : d.smallest (min n d.movable.length) = d.smallest n := by
        rw [smallest, ← take_eq_take_min, smallest]
      rw [← hmin] at hn ⊢
      exact ha _ (le_min hpos (length_pos_iff.mpr hm)) (min_le_right _ _) hn
    · exact fun ha n _ _ => ha n

theorem amountSuffices_iff : d.AmountSuffices ↔ d.Drains := by
  rw [Drains]
  split_ifs with hc hs hs hn
  · have hz : d.amountOfDrainRequired = 0 := by
      rw [amountOfDrainRequired, max_eq_right (sub_nonneg.mpr hc)]
      exact max_eq_left hs
    rw [amountSuffices_of_zero hz]
    split_ifs with ht
    · exact iff_of_true hs ht
    · exact iff_of_false (fun h => absurd h.1 (not_lt.mpr hs)) ht
  · have ha : d.amountOfDrainRequired = d.shortfall := by
      rw [amountOfDrainRequired, max_eq_right (sub_nonneg.mpr hc)]
      exact max_eq_right (not_le.mp hs).le
    rw [amountSuffices_of_pos (ha ▸ not_le.mp hs), ha]
    exact and_iff_left fun _ => id
  all_goals
    have ha : d.amountOfDrainRequired = max 0 d.candidateLargeShardSize := by
      rw [amountOfDrainRequired, max_eq_left (sub_nonpos.mpr (not_le.mp hc).le), sub_zero]
  · rw [max_eq_right hs.le] at ha
    rw [amountSuffices_of_pos (ha ▸ hs), ha]
  all_goals
    rw [max_eq_left (not_lt.mp hs)] at ha
    rw [amountSuffices_of_zero ha]
  · rw [if_pos hn]
  · rw [if_neg hn]

theorem drain_cases (l : List (ObjectId × ℚ)) (sum : ℚ) (n : Nat) :
    let xs := (l.filter d.isMovable).map Prod.snd
    (∃ k v, xs[k]? = some v ∧ d.drain l sum n = (sum + (xs.take (k + 1)).sum, v, n + k + 1) ∧
        d.amountOfDrainRequired ≤ sum + (xs.take (k + 1)).sum ∧
        ∀ j, 1 ≤ j → j ≤ k → sum + (xs.take j).sum < d.amountOfDrainRequired) ∨
      d.drain l sum n = (sum + xs.sum, 0, n + xs.length) ∧
        ∀ j, 1 ≤ j → j ≤ xs.length → sum + (xs.take j).sum < d.amountOfDrainRequired := by
  induction l generalizing sum n with
  | nil => exact .inr ⟨by simp [drain], fun j hj hle => absurd (hj.trans hle) (by simp)⟩
  | cons p l ih =>
    obtain ⟨o, v⟩ := p
    rw [drain]
    by_cases ho : o ∈ d.immovableShards
    · simp only [isMovable, ho, not_true_eq_false, decide_false, filter_cons, Bool.false_eq_true,
        if_false, if_true]
      exact ih sum n
    · have hf : ((o, v) :: l).filter d.isMovable = (o, v) :: l.filter d.isMovable :=
        filter_cons_of_pos (decide_eq_true ho)
      rw [hf, map_cons, if_neg ho]
      by_cases hv : d.amountOfDrainRequired ≤ sum + v
      · refine .inl ⟨0, v, rfl, ?_, ?_, fun j hj hle => absurd (hj.trans hle) (by simp)⟩
        · simp [hv]
        · simpa using hv
      · rw [if_neg hv]
        have hl : ∀ xs : List ℚ, ∀ k, (∀ j, 1 ≤ j → j ≤ k →
              sum + v + (xs.take j).sum < d.amountOfDrainRequired) → ∀ j, 1 ≤ j → j ≤ k + 1 →
            sum + ((v :: xs).take j).sum < d.amountOfDrainRequired := by
          intro xs k ha j hj hle
          obtain ⟨j, rfl⟩ := Nat.exists_eq_add_of_le' hj
          rw [take_succ_cons, sum_cons, ← add_assoc]
          rcases Nat.eq_zero_or_pos j with rfl | hp
          · simpa using hv
          · exact ha j hp (Nat.le_of_succ_le_succ hle)
        rcases ih (sum + v) (n + 1) with ⟨k, w, hk, hr, hreach, ha⟩ | ⟨hr, ha⟩
        · refine .inl ⟨k + 1, w, hk, ?_, ?_, hl _ _ ha⟩
          · rw [hr, take_succ_cons, sum_cons, add_assoc, add_assoc n, add_comm 1]
          · rwa [take_succ_cons, sum_cons, ← add_assoc]
        · refine .inr ⟨?_, hl _ _ ha⟩
          rw [hr, sum_cons, length_cons, add_assoc, add_assoc n, add_comm 1]

/-- The metric is right exactly when the truncation at zero free capacity loses nothing. -/
theorem answers_iff (d : DrainCandidate) : d.Answers d.computeRawDrainMetric ↔ d.Drains := by
  rw [computeRawDrainMetric, ← amountSuffices_iff, AmountSuffices]
  have hnone : d.Answers (some (0, 0)) ↔ d.shortfall ≤ 0 := by
    simp [Answers, hasRoom_iff, smallest]
  split
  case isTrue => exact hnone
  case isFalse heq =>
    rcases d.drain_cases d.getSortedDimValues 0 0 with ⟨k, v, hk, hrun, hr, ha⟩ | ⟨hrun, ha⟩
    · change d.movable[k]? = some v at hk
      rw [zero_add] at hrun hr
      have hlen := (List.getElem?_eq_some_iff.mp hk).1
      have hne := ne_nil_of_length_pos (k.succ_pos.trans_le hlen)
      simp only [hrun, not_lt.mpr hr, if_false, hne, Answers, hasRoom_iff, zero_add, not_le,
        Nat.add_sub_cancel, Nat.succ_ne_zero, hk, and_true]
      apply Iff.intro
      · intro ⟨hroom, hl⟩
        refine ⟨hl 0 k.succ_pos, fun n hn hle hn' => ?_⟩
        have hkn : k + 1 ≤ n := by
          by_contra hlt
          have hlt := ha n hn (Nat.le_of_lt_succ (not_le.mp hlt))
          rw [zero_add] at hlt
          exact absurd hn' (not_le.mpr hlt)
        exact hroom.trans (smallest_mono hkn)
      · intro ⟨hp, hg⟩
        refine ⟨hg (k + 1) (Nat.le_add_left 1 k) hlen hr, fun m hm => ?_⟩
        rcases Nat.eq_zero_or_pos m with rfl | hm'
        · exact hp
        · have hlt := ha m hm' (Nat.le_of_lt_succ hm)
          rw [zero_add] at hlt
          exact hlt.trans_le (amountOfDrainRequired_le hp.le)
    · rw [hrun]
      change ∀ j, 1 ≤ j → j ≤ d.movable.length → 0 + d.smallest j < _ at ha
      change d.Answers (if 0 + d.movable.sum < _ then none else some (0, 0 + d.movable.length)) ↔ _
      cases hm : d.movable with
      | nil =>
        simp only [sum_nil, add_zero, length_nil, if_true]
        split
        case isTrue hp =>
          apply iff_of_true
          · intro r hsub
            rw [hm] at hsub
            rw [hasRoom_iff, not_le, sublist_nil.mp hsub]
            exact shortfall_pos hp
          · exact fun hle => absurd hle (not_le.mpr hp)
        case isFalse hzero =>
          rw [hnone, forall_prop_of_true (not_lt.mp hzero)]
      | cons x xs =>
        have hlt := ha d.movable.length (by rw [hm]; exact Nat.le_add_left 1 _) le_rfl
        rw [smallest, take_length, hm] at hlt
        rw [if_pos hlt, if_neg (cons_ne_nil x xs)]
        have hs : ∀ r, r <+ d.movable → r.sum < d.amountOfDrainRequired := by
          intro r hsub
          have hle := hsub.sum_le_sum fun y => nonneg_of_mem_movable
          rw [hm] at hle
          linarith
        have hp := hs [] (nil_sublist _)
        have hneed := shortfall_pos hp
        apply iff_of_true
        · intro r hsub
          rw [hasRoom_iff, not_le]
          exact (hs r hsub).trans_le (amountOfDrainRequired_le hneed.le)
        · refine ⟨hneed, fun n hn hle hr => ?_⟩
          have hlt := ha n hn (hm ▸ hle)
          rw [zero_add] at hlt
          exact absurd hr (not_le.mpr hlt)

def overfull : DrainCandidate :=
  ⟨defaultTolerances, [(0, 4), (1, 4), (2, 4)], by decide +kernel, [], 10, 4⟩

theorem overfull_drains_too_little : overfull.computeRawDrainMetric = some (4, 1) ∧
    ¬ overfull.HasRoom (overfull.smallest 1) ∧
    ¬ overfull.Answers overfull.computeRawDrainMetric := by
  have hm : overfull.computeRawDrainMetric = some (4, 1) := by decide +kernel
  have hr : ¬ overfull.HasRoom (overfull.smallest 1) := by
    rw [HasRoom]
    decide +kernel
  exact ⟨hm, hr, fun h => hr (by rw [hm] at h; exact h.1)⟩

end DrainCandidate

end Rebalancer
