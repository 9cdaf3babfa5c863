import Mathlib

namespace Rebalancer
open List

/-- An iterator of an inner collection is what is left of the collection: `[]` at its end. -/
structure ProductIterator (α : Type) where
  startIters : List (List α)
  currIters : List (List α)
  atLeastOneEmptyCollection : Bool

namespace ProductIterator
variable {α : Type}

def new (startIters : List (List α)) : ProductIterator α :=
  ⟨startIters, startIters.takeWhile (!·.isEmpty), startIters.isEmpty || startIters.any isEmpty⟩

/-- The loop of `operator++`, which goes from the last collection to the first. -/
def carry : List (List α) → List (List α) → List (List α)
  | start :: starts, curr :: iter :: iters =>
    if curr.tail.isEmpty then start :: carry starts (iter :: iters)
    else curr.tail :: iter :: iters
  | _, curr :: iters => curr.tail :: iters
  | _, [] => []

section
variable (it : ProductIterator α)

def increment : ProductIterator α :=
  { it with currIters := (carry it.startIters.reverse it.currIters.reverse).reverse }

def value : Option (List α) := it.currIters.mapM head?

def doneIterating : Bool := it.atLeastOneEmptyCollection || it.currIters.head?.any isEmpty

def equals (other : ProductIterator α) : Bool :=
  if it.doneIterating then other.doneIterating
  else it.currIters.map length == other.currIters.map length

end

def enumerate (collections : List (List α)) : Nat → ProductIterator α → Option (List (List α))
  | 0, _ => none
  | fuel + 1, it =>
    if it.equals (new (collections.map fun _ => [])) then some []
    else do
      let tuple ← it.value
      let rest ← enumerate collections fuel it.increment
      some (tuple :: rest)

/-- The tuples that the iterators go through, which are listed from the last collection on. -/
inductive Visits (starts : List (List α)) : List (List α) → List (List α) → Prop
  | done : iters.getLast? = some [] → Visits starts iters []
  | step : iters ≠ [] → Forall₂ (fun iter x => iter.head? = some x) iters.reverse t →
    Visits starts (carry starts iters) ts → Visits starts iters (t :: ts)

variable {t start curr : List α} {starts iters ts collections : List (List α)}

theorem Visits.single (start iter : List α) : Visits [start] [iter] (iter.map ([·])) := by
  induction iter with
  | nil => exact .done rfl
  | cons x iter ih => exact .step (cons_ne_nil _ _) (.cons rfl .nil) ih

theorem Visits.row (hc : Forall₂ (fun iter x => iter.head? = some x) (curr :: iters).reverse t)
    (h : Visits (start :: starts) (start :: carry starts (curr :: iters)) ts) (iter : List α)
    (hi : iter ≠ []) :
    Visits (start :: starts) (iter :: curr :: iters) (iter.map (t ++ [·]) ++ ts) := by
  induction iter with
  | nil => exact absurd rfl hi
  | cons x iter ih =>
    refine .step (cons_ne_nil _ _) ?_ ?_
    · rw [reverse_cons]
      exact rel_append hc (.cons rfl .nil)
    · cases iter with
      | nil => exact h
      | cons y iter => exact ih (cons_ne_nil y iter)

theorem Visits.cons (h : Visits starts iters ts) (hs : start ≠ []) :
    Visits (start :: starts) (start :: iters) (ts.flatMap fun t => start.map (t ++ [·])) := by
  induction h with
  | @done iters h =>
    cases iters with
    | nil => cases h
    | cons curr iters => exact .done h
  | @step iters t ts hi ht _ ih =>
    obtain ⟨curr, iters, rfl⟩ := exists_cons_of_ne_nil hi
    exact .row ht ih start hs

/-- What nested loops over the collections visit, the loop over the first one outside. -/
def nestedLoops : List (List α) → List (List α)
  | [] => [[]]
  | collection :: collections => collection.flatMap fun x => (nestedLoops collections).map (x :: ·)

theorem nestedLoops_concat (cs : List (List α)) (c : List α) :
    nestedLoops (cs ++ [c]) = (nestedLoops cs).flatMap fun t => c.map (t ++ [·]) := by
  induction cs with
  | nil => simp [nestedLoops, map_eq_flatMap]
  | cons d cs ih =>
    simp [nestedLoops, ih, flatMap_assoc, map_flatMap, flatMap_map, Function.comp_def]

theorem mem_nestedLoops (cs : List (List α)) :
    ∀ t, t ∈ nestedLoops cs ↔ Forall₂ (· ∈ ·) t cs := by
  induction cs with
  | nil => simp [nestedLoops]
  | cons c cs ih => simp [nestedLoops, ih, forall₂_cons_right_iff, eq_comm]

theorem nestedLoops_empty (cs : List (List α)) (h : [] ∈ cs) : nestedLoops cs = [] := by
  induction cs with
  | nil => cases h
  | cons c cs ih =>
    rcases mem_cons.mp h with rfl | h
    · rfl
    · simp [nestedLoops, ih h]

theorem nestedLoops_sorted (R : α → α → Prop) (cs : List (List α))
    (hc : ∀ c ∈ cs, c.Pairwise R) : (nestedLoops cs).Pairwise (List.Lex R) := by
  induction cs with
  | nil => exact pairwise_singleton _ _
  | cons c cs ih =>
    have hrest := ih fun c h => hc c (mem_cons_of_mem _ h)
    rw [nestedLoops, pairwise_flatMap]
    refine ⟨fun i _ => pairwise_map.mpr (hrest.imp .cons), (hc c mem_cons_self).imp ?_⟩
    intro x y hxy t ht u hu
    obtain ⟨t, -, rfl⟩ := mem_map.mp ht
    obtain ⟨u, -, rfl⟩ := mem_map.mp hu
    exact .rel hxy

theorem visits_nestedLoops (starts : List (List α)) (hs : [] ∉ starts) (hn : starts ≠ []) :
    Visits starts starts (nestedLoops starts.reverse) := by
  induction starts with
  | nil => exact absurd rfl hn
  | cons start starts ih =>
    obtain ⟨hne, hs⟩ := not_or.mp (mt mem_cons.mpr hs)
    rw [reverse_cons, nestedLoops_concat]
    cases starts with
    | nil => simpa [nestedLoops] using Visits.single start start
    | cons next starts => exact (ih hs (cons_ne_nil _ _)).cons (Ne.symm hne)

theorem value_of_heads (h : Forall₂ (fun iter x => iter.head? = some x) iters t) :
    iters.mapM head? = some t := by
  induction h with
  | nil => rfl
  | cons hx _ ih =>
    rw [mapM_cons, hx, ih]
    rfl

theorem new_ends (collections : List (List α)) :
    (new (collections.map fun _ => ([] : List α))).doneIterating = true ∧
      (new (collections.map fun _ => ([] : List α))).currIters = [] := by
  cases collections <;> simp [new, doneIterating]

theorem enumerate_done {it : ProductIterator α} {fuel : Nat} (h : it.doneIterating = true)
    (hf : 0 < fuel) : enumerate collections fuel it = some [] := by
  obtain ⟨fuel, rfl⟩ := Nat.exists_eq_succ_of_ne_zero hf.ne'
  rw [enumerate, equals, if_pos h, if_pos (new_ends _).1]

theorem Visits.enumerate (h : Visits collections.reverse iters ts) : ∀ fuel > ts.length,
    enumerate collections fuel ⟨collections, iters.reverse, false⟩ = some ts := by
  induction h with
  | @done iters h =>
    intro fuel hf
    apply enumerate_done _ hf
    simp [doneIterating, h]
  | @step iters t ts hi ht _ ih =>
    intro fuel hf
    obtain ⟨fuel, rfl⟩ := Nat.exists_eq_succ_of_ne_zero hf.ne_bot
    have hd : (mk collections iters.reverse false).doneIterating = false := by
      obtain ⟨iter, rest, hr⟩ := exists_cons_of_ne_nil (mt reverse_eq_nil_iff.mp hi)
      rw [hr] at ht ⊢
      cases ht with
      | cons hx _ =>
        cases iter with
        | nil => cases hx
        | cons x iter => rfl
    rw [ProductIterator.enumerate, equals, hd, (new_ends _).2, if_neg (by simpa), value,
      value_of_heads ht]
    simp only [increment, reverse_reverse]
    rw [ih fuel (Nat.lt_of_succ_lt_succ hf)]
    rfl

/-- The loop over a product passes the tuples that nested loops pass, in lexicographic order. -/
theorem enumerate_eq_nestedLoops (cs : List (List α)) :
    (∀ fuel > (nestedLoops cs).length, enumerate cs fuel (new cs) =
      some (if cs = [] then [] else nestedLoops cs)) ∧
    (∀ t, t ∈ nestedLoops cs ↔ Forall₂ (· ∈ ·) t cs) ∧
    ([] ∈ cs → nestedLoops cs = []) ∧
    ∀ R, (∀ c ∈ cs, c.Pairwise R) → (nestedLoops cs).Pairwise (List.Lex R) := by
  refine ⟨?_, mem_nestedLoops cs, nestedLoops_empty cs, fun R => nestedLoops_sorted R cs⟩
  intro fuel hf
  by_cases hc : cs = [] ∨ [] ∈ cs
  · rw [enumerate_done _ (Nat.zero_lt_of_lt hf)]
    · rcases hc with rfl | hc
      · rfl
      · rw [nestedLoops_empty cs hc, ite_self]
    · simp [doneIterating, new, hc]
  · rw [not_or] at hc
    have hv := visits_nestedLoops cs.reverse (by simpa using hc.2) (by simpa using hc.1)
    rw [reverse_reverse] at hv
    have hb : new cs = ⟨cs, cs.reverse.reverse, false⟩ := by
      simpa [new, hc.1, takeWhile_eq_self_iff] using fun c h => ne_of_mem_of_not_mem h hc.2
    rw [if_neg hc.1, hb, hv.enumerate fuel hf]

end ProductIterator

end Rebalancer
