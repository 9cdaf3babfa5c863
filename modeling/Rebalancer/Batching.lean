import Mathlib

namespace Rebalancer.CoroUtils
open List

section
variable (total numBatches : Nat)

def startIdx (batchIdx : Nat) : Nat :=
  batchIdx * (total / numBatches) + min batchIdx (total % numBatches)

/-- The indices of a batch: one more in the first batches, as long as there is a remainder. -/
def batch (batchIdx : Nat) : List Nat := range' (startIdx total numBatches batchIdx)
  (total / numBatches + if batchIdx < total % numBatches then 1 else 0)

end

section
variable {α β R : Type} (accumulateFunc : R → R → R) (init : R)

/-- The results of the batches arrive in the given order; `none` is a read outside a container. -/
def runBatches (total numBatches : Nat) (item : Nat → Option R) (order : List Nat) : Option R :=
  order.foldlM (fun finalResult batchIdx => do
    let batchResult ← (batch total numBatches batchIdx).foldlM
      (fun result i => do some (accumulateFunc result (← item i))) init
    some (accumulateFunc finalResult batchResult)) init

variable (numThreads : Option Nat) (order : List Nat)

def parallelMapReduceAllPairs (vec1 : List α) (vec2 : List β) (workFunc : α → β → R) : Option R :=
  let totalPairs := vec1.length * vec2.length
  if totalPairs = 0 then some init
  else match numThreads with
    | none => some (vec1.foldl (fun result x =>
        vec2.foldl (fun result y => accumulateFunc result (workFunc x y)) result) init)
    | some n => runBatches accumulateFunc init totalPairs (min n totalPairs)
        (fun i => do some (workFunc (← vec1[i / vec2.length]?) (← vec2[i % vec2.length]?))) order

def runEachAndGetAccumulatedWithBatching (container : List α) (workFunc : α → R) : Option R :=
  if container.length = 0 then some init
  else match numThreads with
    | none => some (container.foldl (fun result x => accumulateFunc result (workFunc x)) init)
    | some n => runBatches accumulateFunc init container.length (min n container.length)
        (fun i => container[i]?.map workFunc) order

end

variable {α β R : Type} {total n : Nat} {order : List Nat}

theorem flatMap_batch (total numBatches k : Nat) :
    (range k).flatMap (batch total numBatches) = range (startIdx total numBatches k) := by
  induction k with
  | zero => simp [startIdx]
  | succ k ih =>
    have hs : startIdx total numBatches (k + 1) = startIdx total numBatches k +
        (total / numBatches + if k < total % numBatches then 1 else 0) := by
      simp only [startIdx, Nat.succ_mul]
      split <;> omega
    have ha (c : Nat) := range'_append_1 (s := 0) (m := startIdx total numBatches k) (n := c)
    rw [zero_add] at ha
    rw [range_succ, flatMap_append, ih, flatMap_singleton, batch, hs, range_eq_range',
      range_eq_range', ha]

theorem batches_cover (total : Nat) (hn : 0 < n) :
    (range n).flatMap (batch total n) = range total := by
  rw [flatMap_batch, startIdx, min_eq_right (Nat.mod_lt _ hn).le, Nat.div_add_mod]

theorem batch_ne_nil (hn : 0 < n) (ht : n ≤ total) (b : Nat) : batch total n b ≠ [] := by
  have := Nat.div_pos ht hn
  rw [batch, Ne, range'_eq_nil_iff]
  omega

section
variable [CommMonoid R]

theorem foldlM_prod (l : List α) {f : α → Option R} {g : α → R} (h : ∀ x ∈ l, f x = some (g x)) :
    ∀ r, l.foldlM (fun r x => do some (r * (← f x))) r = some (r * (l.map g).prod) := by
  induction l with
  | nil => simp
  | cons x l ih =>
    intro r
    rw [foldlM_cons, h x mem_cons_self, map_cons, prod_cons, ← mul_assoc]
    exact ih (fun y hy => h y (mem_cons_of_mem _ hy)) (r * g x)

theorem runBatches_eq (items : List R) (ht : items.length = total) (hn : 1 ≤ n) (h : total ≠ 0)
    (ho : order.Perm (range (min n total))) :
    runBatches (· * ·) 1 total (min n total) (items[·]?) order = some (items.foldl (· * ·) 1) := by
  have hc := batches_cover (n := min n total) total (by omega)
  have hitems : (range total).map (fun i => items.getD i 1) = items := by
    refine ext_getElem (by simp [ht]) ?_
    intro i hi _
    simp [show i < items.length by omega]
  have hb : ∀ b ∈ order, (batch total (min n total) b).foldlM
      (fun r i => do some (r * (← items[i]?))) 1 =
        some ((batch total (min n total) b).map fun i => items.getD i 1).prod := by
    intro b hb
    rw [foldlM_prod (g := fun i => items.getD i 1), one_mul]
    intro i hib
    have hr : i ∈ range total := hc ▸ mem_flatMap.mpr ⟨b, ho.mem_iff.mp hb, hib⟩
    rw [getD_eq_getElem?_getD, getElem?_eq_getElem (ht ▸ mem_range.mp hr)]
    rfl
  rw [runBatches, foldlM_prod _ hb, one_mul, (ho.map _).prod_eq, ← prod_eq_foldl]
  nth_rewrite 2 [← hitems]
  rw [← hc, map_flatMap, flatMap_def, prod_flatten, map_map]
  rfl

end

theorem getElem?_pairs (vec1 : List α) {vec2 : List β} (workFunc : α → β → R)
    (hm : 0 < vec2.length) : ∀ i, (do some (workFunc (← vec1[i / vec2.length]?)
      (← vec2[i % vec2.length]?))) = (vec1.flatMap fun x => vec2.map (workFunc x))[i]? := by
  induction vec1 with
  | nil =>
    intro i
    rfl
  | cons x vec1 ih =>
    intro i
    rw [flatMap_cons]
    by_cases hi : i < vec2.length
    · rw [getElem?_append_left (by simpa), Nat.div_eq_of_lt hi, Nat.mod_eq_of_lt hi]
      simp [hi]
    · have hi := not_lt.mp hi
      rw [getElem?_append_right (by simpa), length_map, ← ih, Nat.div_eq_sub_div hm hi,
        Nat.mod_eq_sub_mod hi]
      rfl

/-- Without threads, or in whatever order the batches of the threads arrive, both functions return
the fold over all pairs and over all items; the batches list every index once. -/
theorem batching_eq_serial [CommMonoid R] :
    (∀ (vec1 : List α) (vec2 : List β) (workFunc : α → β → R) (numThreads : Option Nat)
      (order : List Nat), (∀ n ∈ numThreads, 1 ≤ n ∧
        order.Perm (range (min n (vec1.length * vec2.length)))) →
      parallelMapReduceAllPairs (· * ·) 1 numThreads order vec1 vec2 workFunc =
        some ((vec1 ×ˢ vec2).foldl (fun result pair => result * workFunc pair.1 pair.2) 1)) ∧
    (∀ (container : List α) (workFunc : α → R) (numThreads : Option Nat) (order : List Nat),
      (∀ n ∈ numThreads, 1 ≤ n ∧ order.Perm (range (min n container.length))) →
      runEachAndGetAccumulatedWithBatching (· * ·) 1 numThreads order container workFunc =
        some (container.foldl (fun result x => result * workFunc x) 1)) ∧
    ∀ total > 0, ∀ n ≥ 1, (range (min n total)).flatMap (batch total (min n total)) = range total ∧
      ∀ b, batch total (min n total) b ≠ [] := by
  refine ⟨?_, ?_, ?_⟩
  · intro vec1 vec2 workFunc numThreads order ho
    have hpairs : (vec1 ×ˢ vec2).foldl (fun result pair => result * workFunc pair.1 pair.2) 1 =
        (vec1.flatMap fun x => vec2.map (workFunc x)).foldl (· * ·) 1 := by
      simp [SProd.sprod, product, foldl_flatMap, foldl_map]
    rw [hpairs]
    by_cases h : vec1.length * vec2.length = 0
    · refine (if_pos h).trans ?_
      have hnil : (vec1.flatMap fun x => vec2.map (workFunc x)) = [] :=
        length_eq_zero_iff.mp (by simpa using h)
      rw [hnil, foldl_nil]
    · refine (if_neg h).trans ?_
      cases numThreads with
      | none => simp [foldl_flatMap, foldl_map]
      | some n =>
        obtain ⟨hn, ho⟩ := ho n rfl
        have hm : 0 < vec2.length := Nat.pos_of_mul_pos_left (Nat.pos_of_ne_zero h)
        simp only [getElem?_pairs vec1 workFunc hm]
        exact runBatches_eq _ (by simp) hn h ho
  · intro container workFunc numThreads order ho
    by_cases h : container.length = 0
    · refine (if_pos h).trans ?_
      rw [length_eq_zero_iff.mp h, foldl_nil]
    · refine (if_neg h).trans ?_
      cases numThreads with
      | none => rfl
      | some n =>
        obtain ⟨hn, ho⟩ := ho n rfl
        have hr := runBatches_eq (container.map workFunc) (length_map _) hn h ho
        simp only [getElem?_map, foldl_map] at hr
        exact hr
  · intro total ht n hn
    exact ⟨batches_cover total (by omega), batch_ne_nil (by omega) (min_le_right n total)⟩

theorem batching_two :
    parallelMapReduceAllPairs (· * ·) 1 (some 2) [1, 0] [2, 3] [5, 7, 11] (· + ·) =
      some (7 * 9 * 13 * 8 * 10 * 14) :=
  (batching_eq_serial (α := Nat)).1 [2, 3] [5, 7, 11] (· + ·) (some 2) [1, 0] (by decide)

end Rebalancer.CoroUtils
