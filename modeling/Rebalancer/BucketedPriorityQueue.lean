import Mathlib

namespace Rebalancer
open List

/-- Priority buckets in descending order; elements of one bucket leave in insertion order. -/
structure BucketedPriorityQueue (P E : Type) [LinearOrder P] where
  buckets : List (P × List E)
  sorted : buckets.Pairwise (fun b c => c.1 < b.1)
  filled : ∀ b ∈ buckets, b.2 ≠ []

def emplaceBucket [LinearOrder P] (p : P) (e : E) : List (P × List E) → List (P × List E)
  | [] => [(p, [e])]
  | b :: bs =>
    if b.1 < p then (p, [e]) :: b :: bs
    else if b.1 = p then (b.1, b.2 ++ [e]) :: bs
    else b :: emplaceBucket p e bs

def bucketEntries (bs : List (P × List E)) : List (P × E) :=
  bs.flatMap (fun b => b.2.map (Prod.mk b.1))

section
variable {P E : Type} [LinearOrder P]

variable (p : P) (e : E) (bs : List (P × List E))

theorem emplaceBucket_keys (c : P × List E)
    (h : c ∈ emplaceBucket p e bs) : c.1 = p ∨ ∃ b ∈ bs, c.1 = b.1 := by
  induction bs with
  | nil =>
    rw [emplaceBucket, mem_singleton] at h
    exact .inl (by rw [h])
  | cons b bs ih =>
    rw [emplaceBucket] at h
    split at h
    · rcases mem_cons.1 h with he | hm
      · exact .inl (by rw [he])
      · exact .inr ⟨c, hm, rfl⟩
    · split at h
      · rcases mem_cons.1 h with he | hm
        · exact .inr ⟨b, mem_cons_self, by rw [he]⟩
        · exact .inr ⟨c, mem_cons_of_mem _ hm, rfl⟩
      · rcases mem_cons.1 h with he | hm
        · exact .inr ⟨b, mem_cons_self, by rw [he]⟩
        · rcases ih hm with hp | ⟨d, hd, hcd⟩
          · exact .inl hp
          · exact .inr ⟨d, mem_cons_of_mem _ hd, hcd⟩

theorem emplaceBucket_sorted (h : bs.Pairwise (fun b c => c.1 < b.1)) :
    (emplaceBucket p e bs).Pairwise (fun b c => c.1 < b.1) := by
  induction bs with
  | nil => exact pairwise_singleton _ _
  | cons b bs ih =>
    obtain ⟨hb, hbs⟩ := pairwise_cons.1 h
    rw [emplaceBucket]
    split
    · rename_i hlt
      refine pairwise_cons.2 ⟨fun c hc => ?_, h⟩
      rcases mem_cons.1 hc with he | hm
      · exact he ▸ hlt
      · exact (hb c hm).trans hlt
    · split
      · exact pairwise_cons.2 ⟨hb, hbs⟩
      · rename_i hlt hne
        refine pairwise_cons.2 ⟨fun c hc => ?_, ih hbs⟩
        rcases emplaceBucket_keys p e bs c hc with hp | ⟨d, hd, hcd⟩
        · rw [hp]
          exact lt_of_le_of_ne (not_lt.1 hlt) (Ne.symm hne)
        · rw [hcd]
          exact hb d hd

theorem emplaceBucket_filled (h : ∀ b ∈ bs, b.2 ≠ []) : ∀ b ∈ emplaceBucket p e bs, b.2 ≠ [] := by
  induction bs with
  | nil =>
    intro b hb
    rw [emplaceBucket, mem_singleton] at hb
    rw [hb]
    exact cons_ne_nil _ _
  | cons b bs ih =>
    have hbs : ∀ c ∈ bs, c.2 ≠ [] := fun c hc => h c (mem_cons_of_mem _ hc)
    intro c hc
    rw [emplaceBucket] at hc
    split at hc
    · rcases mem_cons.1 hc with he | hm
      · rw [he]
        exact cons_ne_nil _ _
      · exact h c hm
    · split at hc
      · rcases mem_cons.1 hc with he | hm
        · rw [he]
          exact append_ne_nil_of_right_ne_nil _ (cons_ne_nil _ _)
        · exact hbs c hm
      · rcases mem_cons.1 hc with he | hm
        · exact he ▸ h b mem_cons_self
        · exact ih hbs c hm

theorem emplaceBucket_entries :
    (bucketEntries (emplaceBucket p e bs)).Perm ((p, e) :: bucketEntries bs) := by
  induction bs with
  | nil => exact .refl _
  | cons b bs ih =>
    rw [emplaceBucket]
    split
    · exact .refl _
    · split_ifs with hp
      · simp only [bucketEntries, flatMap_cons, map_append, map_cons,
          map_nil, hp, append_assoc, singleton_append]
        exact perm_middle
      · exact (ih.append_left _).trans perm_middle

variable {p e bs}

theorem orderedInsert_bucket {k : P} (es : List E) (l : List (P × E)) (h : ¬ k < p) :
    (es.map (Prod.mk k) ++ l).orderedInsert (fun x y => y.1 < x.1) (p, e) =
      es.map (Prod.mk k) ++ l.orderedInsert (fun x y => y.1 < x.1) (p, e) := by
  induction es with
  | nil => rfl
  | cons d es ih =>
    rw [map_cons, cons_append, orderedInsert_cons, if_neg h, ih]
    rfl

theorem bucketEntries_emplaceBucket (hs : bs.Pairwise fun b c => c.1 < b.1)
    (hf : ∀ b ∈ bs, b.2 ≠ []) : bucketEntries (emplaceBucket p e bs) =
      (bucketEntries bs).orderedInsert (fun x y => y.1 < x.1) (p, e) := by
  induction bs with
  | nil => rfl
  | cons b bs ih =>
    obtain ⟨hb, hs⟩ := pairwise_cons.mp hs
    obtain ⟨hne, hf⟩ := forall_mem_cons.mp hf
    rw [emplaceBucket]
    split
    · rename_i hlt
      obtain ⟨d, ds, hd⟩ := exists_cons_of_ne_nil hne
      simp [bucketEntries, hd, hlt]
    · rename_i hnot
      have hi := orderedInsert_bucket (e := e) b.2 (bucketEntries bs) hnot
      rw [← ih hs hf] at hi
      refine .trans ?_ hi.symm
      split
      · rename_i hp
        cases bs with
        | nil => simp [bucketEntries, emplaceBucket, hp]
        | cons c bs =>
          rw [emplaceBucket, if_pos (hp ▸ hb c mem_cons_self)]
          simp [bucketEntries, hp]
      · rfl

end

namespace BucketedPriorityQueue
variable {P E : Type} [LinearOrder P]

def new : BucketedPriorityQueue P E := ⟨[], .nil, by simp⟩

def empty (q : BucketedPriorityQueue P E) : Bool := q.buckets.isEmpty

def emplace (p : P) (e : E) (q : BucketedPriorityQueue P E) : BucketedPriorityQueue P E :=
  ⟨emplaceBucket p e q.buckets, emplaceBucket_sorted p e _ q.sorted,
    emplaceBucket_filled p e _ q.filled⟩

def emptyError : String := "cannot call top()/pop() when queue is empty"

def top (q : BucketedPriorityQueue P E) : Except String E :=
  match q.buckets with
  | (_, e :: _) :: _ => .ok e
  | _ => .error emptyError

def popBuckets : List (P × List E) → List (P × List E)
  | (_, [_]) :: bs => bs
  | (p, _ :: e :: es) :: bs => (p, e :: es) :: bs
  | bs => bs

theorem popBuckets_sorted (bs : List (P × List E)) (h : bs.Pairwise (fun b c => c.1 < b.1)) :
    (popBuckets bs).Pairwise (fun b c => c.1 < b.1) := by
  match bs, h with
  | [], h => exact h
  | (_, []) :: _, h => exact h
  | (_, [_]) :: _, h => exact (pairwise_cons.1 h).2
  | (_, _ :: _ :: _) :: _, h =>
    obtain ⟨hb, hbs⟩ := pairwise_cons.1 h
    exact pairwise_cons.2 ⟨hb, hbs⟩

omit [LinearOrder P] in
theorem popBuckets_filled (bs : List (P × List E)) (h : ∀ b ∈ bs, b.2 ≠ []) :
    ∀ b ∈ popBuckets bs, b.2 ≠ [] := by
  match bs, h with
  | [], h => exact h
  | (_, []) :: _, h => exact h
  | (_, [_]) :: _, h => exact fun b hb => h b (mem_cons_of_mem _ hb)
  | (_, _ :: _ :: _) :: _, h =>
    intro b hb
    rcases mem_cons.1 hb with he | hm
    · rw [he]
      exact cons_ne_nil _ _
    · exact h b (mem_cons_of_mem _ hm)

def pop (q : BucketedPriorityQueue P E) : Except String (BucketedPriorityQueue P E) :=
  if q.empty then .error emptyError
  else .ok ⟨popBuckets q.buckets, popBuckets_sorted _ q.sorted, popBuckets_filled _ q.filled⟩

def entries (q : BucketedPriorityQueue P E) : List (P × E) := bucketEntries q.buckets

theorem entries_emplace (p : P) (e : E) (q : BucketedPriorityQueue P E) :
    (q.emplace p e).entries.Perm ((p, e) :: q.entries) :=
  emplaceBucket_entries p e q.buckets

variable (q : BucketedPriorityQueue P E)

theorem entries_eq_nil (h : q.empty = true) : q.entries = [] := by
  have hb : q.buckets = [] := isEmpty_iff.1 h
  simp [entries, hb, bucketEntries]

theorem top_pop (h : q.empty = false) :
    ∃ p e q', q.top = .ok e ∧ q.pop = .ok q' ∧ q.entries = (p, e) :: q'.entries ∧
      ∀ x ∈ q.entries, x.1 ≤ p := by
  obtain ⟨bs, hs, hf⟩ := q
  match bs, hs, hf, h with
  | (p, []) :: bs, hs, hf, h => exact absurd rfl (hf _ mem_cons_self)
  | (p, e :: es) :: bs, hs, hf, h =>
    have hmax : ∀ x ∈ bucketEntries ((p, e :: es) :: bs), x.1 ≤ p := by
      intro x hx
      obtain ⟨b, hb, hm⟩ := mem_flatMap.1 hx
      obtain ⟨d, _, hd⟩ := mem_map.1 hm
      rw [← hd]
      rcases mem_cons.1 hb with he | hm
      · exact (congrArg Prod.fst he).le
      · exact ((pairwise_cons.1 hs).1 b hm).le
    refine ⟨p, e, ⟨popBuckets _, popBuckets_sorted _ hs, popBuckets_filled _ hf⟩, rfl, ?_, ?_, hmax⟩
    · simp [pop, h]
    · cases es with
      | nil => rfl
      | cons d es => rfl

inductive Call (P E : Type) where
  | emplace (p : P) (e : E)
  | top
  | pop

/-- What the calls of `top` and `pop` return; `pop` returns nothing, and a failed call changes
nothing. -/
def answers (q : BucketedPriorityQueue P E) : List (Call P E) → List (Except String (Option E))
  | [] => []
  | .emplace p e :: calls => answers (q.emplace p e) calls
  | .top :: calls => q.top.map some :: answers q calls
  | .pop :: calls =>
    match q.pop with
    | .error message => .error message :: answers q calls
    | .ok q' => .ok none :: answers q' calls

/-- A list in descending order, in which an entry is inserted after those of its priority. -/
def serve (entries : List (P × E)) : List (Call P E) → List (Except String (Option E))
  | [] => []
  | .emplace p e :: calls => serve (entries.orderedInsert (fun x y => y.1 < x.1) (p, e)) calls
  | .top :: calls =>
    (entries.head?.elim (.error emptyError) fun entry => .ok (some entry.2)) :: serve entries calls
  | .pop :: calls =>
    (if entries.isEmpty then .error emptyError else .ok none) :: serve entries.tail calls

/-- Elements leave by priority and, within a bucket, in the order in which they came. -/
theorem answers_eq_serve (calls : List (Call P E)) :
    ∀ q : BucketedPriorityQueue P E, q.answers calls = serve q.entries calls := by
  induction calls with
  | nil => exact fun _ => rfl
  | cons call calls ih =>
    intro q
    cases call with
    | emplace p e =>
      rw [answers, serve, ih, entries, emplace, bucketEntries_emplaceBucket q.sorted q.filled]
      rfl
    | top =>
      rw [answers, serve, ih]
      by_cases he : q.empty = true
      · rw [entries_eq_nil q he, top, isEmpty_iff.mp he]
        rfl
      · obtain ⟨p, e, q', ht, -, hc, -⟩ := q.top_pop (Bool.eq_false_iff.mpr he)
        rw [ht, hc]
        rfl
    | pop =>
      rw [answers, serve]
      by_cases he : q.empty = true
      · have hn := entries_eq_nil q he
        rw [pop, if_pos he, hn]
        exact congrArg _ ((ih q).trans (by rw [hn]; rfl))
      · obtain ⟨p, e, q', -, hp, hc, -⟩ := q.top_pop (Bool.eq_false_iff.mpr he)
        rw [hp, hc]
        exact congrArg _ (ih q')

end BucketedPriorityQueue
end Rebalancer
