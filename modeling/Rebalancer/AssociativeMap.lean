import Mathlib

namespace Rebalancer
open List

/-- A search tree whose nodes keep the aggregate and the height of their subtree. -/
inductive AssociativeMap (κ V : Type) where
  | empty
  | node (left : AssociativeMap κ V) (key : κ) (value result : V) (height : Nat)
    (right : AssociativeMap κ V)

namespace AssociativeMap
variable {κ V : Type}

def height : AssociativeMap κ V → Nat
  | empty => 0
  | node _ _ _ _ height _ => height

def toList : AssociativeMap κ V → List (κ × V)
  | empty => []
  | node left key value _ _ right => left.toList ++ (key, value) :: right.toList

section
variable [AddCommMonoid V]

def query : AssociativeMap κ V → V
  | empty => 0
  | node _ _ _ result _ _ => result

/-- A node after `update_height_and_result`. -/
def updated (left : AssociativeMap κ V) (key : κ) (value : V) (right : AssociativeMap κ V) :
    AssociativeMap κ V :=
  node left key value (value + left.query + right.query) (1 + max left.height right.height) right

def rotateLeft (left : AssociativeMap κ V) (key : κ) (value : V) :
    AssociativeMap κ V → AssociativeMap κ V
  | empty => updated left key value empty
  | node l k v _ _ r => updated (updated left key value l) k v r

def rotateRight (key : κ) (value : V) (right : AssociativeMap κ V) :
    AssociativeMap κ V → AssociativeMap κ V
  | empty => updated empty key value right
  | node l k v _ _ r => updated l k v (updated r key value right)

def raiseRight : AssociativeMap κ V → AssociativeMap κ V
  | empty => empty
  | node l k v result h r => if l.height < r.height then rotateLeft l k v r
    else node l k v result h r

def raiseLeft : AssociativeMap κ V → AssociativeMap κ V
  | empty => empty
  | node l k v result h r => if r.height < l.height then rotateRight k v r l
    else node l k v result h r

def rebalance (left : AssociativeMap κ V) (key : κ) (value : V) (right : AssociativeMap κ V) :
    AssociativeMap κ V :=
  if right.height + 1 < left.height then rotateRight key value right left.raiseRight
  else if left.height + 1 < right.height then rotateLeft left key value right.raiseLeft
  else updated left key value right

def extractMin : AssociativeMap κ V → Option ((κ × V) × AssociativeMap κ V)
  | empty => none
  | node l k v _ _ r =>
    match extractMin l with
    | none => some ((k, v), r)
    | some (minNode, l) => some (minNode, rebalance l k v r)

def merge (left right : AssociativeMap κ V) : AssociativeMap κ V :=
  match extractMin right with
  | none => left
  | some (newRoot, right) => rebalance left newRoot.1 newRoot.2 right

variable [LinearOrder κ] (key : κ)

/-- The flag is `INSERT`, after which the nodes above are rebalanced. -/
def insertOrUpdate (value : V) : AssociativeMap κ V → AssociativeMap κ V × Bool
  | empty => (node empty key value value 1 empty, true)
  | node l k v _ h r =>
    if key = k then (node l k value (value + l.query + r.query) h r, false)
    else if key < k then
      let (l, inserted) := insertOrUpdate value l
      (if inserted then rebalance l k v r else node l k v (v + l.query + r.query) h r, inserted)
    else
      let (r, inserted) := insertOrUpdate value r
      (if inserted then rebalance l k v r else node l k v (v + l.query + r.query) h r, inserted)

def update (t : AssociativeMap κ V) (value : V) : AssociativeMap κ V :=
  (insertOrUpdate key value t).1

def remove : AssociativeMap κ V → AssociativeMap κ V
  | empty => empty
  | node l k v _ _ r =>
    if key = k then merge l r
    else if key < k then rebalance (remove l) k v r
    else rebalance l k v (remove r)

def lessThan (strict : Bool) : AssociativeMap κ V → V
  | empty => 0
  | node l k v _ _ r =>
    if strict ∧ k < key ∨ ¬ strict ∧ k ≤ key then v + l.query + lessThan strict r
    else lessThan strict l

def queryLe (t : AssociativeMap κ V) : V := lessThan key false t

end

section
variable [LinearOrder κ] {es es' : List (κ × V)}

def Sorted (entries : List (κ × V)) : Prop := entries.Pairwise fun e e' => e.1 < e'.1

theorem Sorted.node (h : Sorted (es ++ (k, v) :: es')) :
    Sorted es ∧ Sorted es' ∧ (∀ e ∈ es, e.1 < k) ∧ ∀ e ∈ es', k < e.1 := by
  obtain ⟨hl, hr, hlr⟩ := pairwise_append.mp h
  obtain ⟨hk, hr⟩ := pairwise_cons.mp hr
  exact ⟨hl, hr, fun e he => hlr e he _ mem_cons_self, hk⟩

theorem filter_of_lt (h : ∀ e ∈ es, e.1 < k) (hk : k ≤ key) :
    es.filter (·.1 < key) = es ∧ es.filter (key < ·.1) = [] := by
  refine ⟨filter_eq_self.mpr fun e he => ?_, filter_eq_nil_iff.mpr fun e he => ?_⟩
  · exact decide_eq_true ((h e he).trans_le hk)
  · simpa using ((h e he).trans_le hk).le

theorem filter_of_gt (h : ∀ e ∈ es, k < e.1) (hk : key ≤ k) :
    es.filter (·.1 < key) = [] ∧ es.filter (key < ·.1) = es := by
  refine ⟨filter_eq_nil_iff.mpr fun e he => ?_, filter_eq_self.mpr fun e he => ?_⟩
  · simpa using (hk.trans_lt (h e he)).le
  · exact decide_eq_true (hk.trans_lt (h e he))

end

section
variable [AddCommMonoid V]

/-- Every node keeps the aggregate of its subtree. -/
def Sums : AssociativeMap κ V → Prop
  | empty => True
  | node l _ v result _ r => result = v + l.query + r.query ∧ l.Sums ∧ r.Sums

/-- The trees that list `entries` and keep their aggregates. -/
structure Lists (t : AssociativeMap κ V) (entries : List (κ × V)) : Prop where
  toList : t.toList = entries
  sums : t.Sums

variable {t l r : AssociativeMap κ V} {es es' : List (κ × V)}

theorem Lists.query (h : t.Lists es) : t.query = (es.map Prod.snd).sum := by
  obtain ⟨rfl, h⟩ := h
  induction t with
  | empty => rfl
  | node l k v result _ r ihl ihr =>
    obtain ⟨hr, hl, hr'⟩ := h
    rw [AssociativeMap.query, hr, ihl hl, ihr hr', AssociativeMap.toList, map_append, map_cons,
      sum_append, sum_cons, ← add_assoc, add_comm v]

variable (hl : l.Lists es) (hr : r.Lists es') (k : κ) (v : V)
include hl hr

theorem Lists.node (n : Nat) :
    (node l k v (v + l.query + r.query) n r).Lists (es ++ (k, v) :: es') :=
  ⟨by rw [AssociativeMap.toList, hl.toList, hr.toList], rfl, hl.sums, hr.sums⟩

theorem Lists.updated : (updated l k v r).Lists (es ++ (k, v) :: es') := hl.node hr k v _

theorem Lists.rotateLeft : (rotateLeft l k v r).Lists (es ++ (k, v) :: es') := by
  cases r with
  | empty => exact hl.updated hr k v
  | node rl rk rv _ _ rr =>
    obtain ⟨rfl, -, hrl, hrr⟩ := hr
    have h := (hl.updated ⟨rfl, hrl⟩ k v).updated ⟨rfl, hrr⟩ rk rv
    rwa [append_assoc] at h

theorem Lists.rotateRight : (rotateRight k v r l).Lists (es ++ (k, v) :: es') := by
  cases l with
  | empty => exact hl.updated hr k v
  | node ll lk lv _ _ lr =>
    obtain ⟨rfl, -, hll, hlr⟩ := hl
    have h := Lists.updated ⟨rfl, hll⟩ (Lists.updated ⟨rfl, hlr⟩ hr k v) lk lv
    rwa [← cons_append, ← append_assoc] at h

omit hl hr in
theorem Lists.raise (h : t.Lists es) : t.raiseRight.Lists es ∧ t.raiseLeft.Lists es := by
  cases t with
  | empty => exact ⟨h, h⟩
  | node l k v result n r =>
    obtain ⟨rfl, h⟩ := h
    have hl : l.Lists l.toList := ⟨rfl, h.2.1⟩
    have hr : r.Lists r.toList := ⟨rfl, h.2.2⟩
    rw [raiseRight, raiseLeft]
    constructor
    · split
      · exact hl.rotateLeft hr k v
      · exact ⟨rfl, h⟩
    · split
      · exact hl.rotateRight hr k v
      · exact ⟨rfl, h⟩

theorem Lists.rebalance : (rebalance l k v r).Lists (es ++ (k, v) :: es') := by
  rw [AssociativeMap.rebalance]
  split
  · exact hl.raise.1.rotateRight hr k v
  · split
    · exact hl.rotateLeft hr.raise.2 k v
    · exact hl.updated hr k v

omit hl hr

theorem extractMin_spec (h : t.Lists es) : extractMin t = none ∧ es = [] ∨
    ∃ m t' es', extractMin t = some (m, t') ∧ es = m :: es' ∧ t'.Lists es' := by
  induction t generalizing es with
  | empty => exact .inl ⟨rfl, h.toList.symm⟩
  | node l k v _ _ r ihl _ =>
    obtain ⟨rfl, -, hl, hr⟩ := h
    right
    rw [extractMin]
    rcases ihl ⟨rfl, hl⟩ with ⟨he, hn⟩ | ⟨m, l', es', he, hm, hl'⟩
    · rw [he]
      exact ⟨_, _, _, rfl, by rw [AssociativeMap.toList, hn, nil_append], rfl, hr⟩
    · rw [he]
      refine ⟨m, _, _, rfl, ?_, hl'.rebalance ⟨rfl, hr⟩ k v⟩
      rw [AssociativeMap.toList, hm, cons_append]

include hl hr in
theorem Lists.merge : (merge l r).Lists (es ++ es') := by
  rw [AssociativeMap.merge]
  rcases extractMin_spec hr with ⟨he, rfl⟩ | ⟨m, r', es'', he, rfl, hr'⟩
  · rwa [he, append_nil]
  · rw [he]
    exact hl.rebalance hr' m.1 m.2

variable [LinearOrder κ]

theorem Lists.update (h : t.Lists es) (hs : Sorted es) (key : κ) (v : V) : (t.update key v).Lists
    (es.filter (·.1 < key) ++ (key, v) :: es.filter (key < ·.1)) := by
  rw [AssociativeMap.update]
  induction t generalizing es with
  | empty =>
    obtain rfl := h.toList
    exact ⟨rfl, (by simp [AssociativeMap.query]), trivial, trivial⟩
  | node l k w _ n r ihl ihr =>
    obtain ⟨rfl, -, hl, hr⟩ := h
    obtain ⟨hsl, hsr, hlt, hgt⟩ := hs.node
    have ihl := ihl ⟨rfl, hl⟩ hsl
    have ihr := ihr ⟨rfl, hr⟩ hsr
    rw [insertOrUpdate, AssociativeMap.toList, filter_append, filter_append]
    split_ifs with heq hkey
    · subst heq
      obtain ⟨hl1, hl2⟩ := filter_of_lt hlt le_rfl
      obtain ⟨hr1, hr2⟩ := filter_of_gt hgt le_rfl
      rw [filter_cons_of_neg (by simp), filter_cons_of_neg (by simp), hl1, hl2, hr1,
        hr2, append_nil]
      exact ⟨rfl, rfl, hl, hr⟩
    · obtain ⟨hr1, hr2⟩ := filter_of_gt hgt hkey.le
      rw [filter_cons_of_neg (by simpa using hkey.le), filter_cons_of_pos (by simpa using hkey),
        hr1, hr2, append_nil]
      generalize insertOrUpdate key v l = x at ihl
      obtain ⟨l', inserted⟩ := x
      rw [← cons_append, ← append_assoc]
      cases inserted with
      | true => exact ihl.rebalance ⟨rfl, hr⟩ k w
      | false => exact ihl.node ⟨rfl, hr⟩ k w n
    · have hkey := lt_of_le_of_ne (not_lt.mp hkey) (Ne.symm heq)
      obtain ⟨hl1, hl2⟩ := filter_of_lt hlt hkey.le
      rw [filter_cons_of_pos (by simpa using hkey), filter_cons_of_neg (by simpa using hkey.le),
        hl1, hl2, nil_append, append_assoc, cons_append]
      generalize insertOrUpdate key v r = x at ihr
      obtain ⟨r', inserted⟩ := x
      cases inserted with
      | true => exact Lists.rebalance ⟨rfl, hl⟩ ihr k w
      | false => exact Lists.node ⟨rfl, hl⟩ ihr k w n

theorem Lists.remove (h : t.Lists es) (hs : Sorted es) (key : κ) :
    (t.remove key).Lists (es.filter (·.1 ≠ key)) := by
  induction t generalizing es with
  | empty =>
    obtain rfl := h.toList
    exact ⟨rfl, trivial⟩
  | node l k w _ n r ihl ihr =>
    obtain ⟨rfl, -, hl, hr⟩ := h
    obtain ⟨hsl, hsr, hlt, hgt⟩ := hs.node
    have hl' (hk : k ≤ key) : l.toList.filter (·.1 ≠ key) = l.toList :=
      filter_eq_self.mpr fun e he => decide_eq_true ((hlt e he).trans_le hk).ne
    have hr' (hk : key ≤ k) : r.toList.filter (·.1 ≠ key) = r.toList :=
      filter_eq_self.mpr fun e he => decide_eq_true (hk.trans_lt (hgt e he)).ne'
    rw [AssociativeMap.remove, AssociativeMap.toList, filter_append]
    split_ifs with heq hkey
    · rw [filter_cons_of_neg (by simp [heq]), hl' heq.ge, hr' heq.le]
      exact Lists.merge ⟨rfl, hl⟩ ⟨rfl, hr⟩
    · rw [filter_cons_of_pos (by simp [hkey.ne']), hr' hkey.le]
      exact (ihl ⟨rfl, hl⟩ hsl).rebalance ⟨rfl, hr⟩ k w
    · rw [filter_cons_of_pos (by simp [Ne.symm heq]), hl' (not_lt.mp hkey)]
      exact Lists.rebalance ⟨rfl, hl⟩ (ihr ⟨rfl, hr⟩ hsr) k w

theorem Lists.lessThan (h : t.Lists es) (hs : Sorted es) (key : κ) (strict : Bool) :
    t.lessThan key strict =
      ((es.filter fun e => strict ∧ e.1 < key ∨ ¬ strict ∧ e.1 ≤ key).map Prod.snd).sum := by
  induction t generalizing es with
  | empty =>
    obtain rfl := h.toList
    rfl
  | node l k w _ n r ihl ihr =>
    obtain ⟨rfl, -, hl, hr⟩ := h
    obtain ⟨hsl, hsr, hlt, hgt⟩ := hs.node
    rw [AssociativeMap.lessThan, AssociativeMap.toList, filter_append, map_append, sum_append]
    split_ifs with hkey
    · have hl' : l.toList.filter (fun e => strict ∧ e.1 < key ∨ ¬ strict ∧ e.1 ≤ key) =
          l.toList := by
        refine filter_eq_self.mpr fun e he => decide_eq_true ?_
        exact hkey.imp (.imp_right (hlt e he).trans) (.imp_right (hlt e he).le.trans)
      rw [filter_cons_of_pos (by simpa using hkey), hl', map_cons, sum_cons, ← ihr ⟨rfl, hr⟩ hsr,
        ← Lists.query ⟨rfl, hl⟩, ← add_assoc, add_comm w]
    · have hr' : ((k, w) :: r.toList).filter
          (fun e => strict ∧ e.1 < key ∨ ¬ strict ∧ e.1 ≤ key) = [] := by
        refine filter_eq_nil_iff.mpr fun e he hd => hkey ?_
        have hle : k ≤ e.1 := by
          rcases mem_cons.mp he with rfl | he
          · exact le_rfl
          · exact (hgt e he).le
        exact (of_decide_eq_true hd).imp (.imp_right hle.trans_lt) (.imp_right hle.trans)
      rw [hr', map_nil, sum_nil, add_zero, ihl ⟨rfl, hl⟩ hsl]

/-- A search tree with these entries, in any order. -/
def Stores (t : AssociativeMap κ V) (entries : List (κ × V)) : Prop :=
  ∃ es, t.Lists es ∧ Sorted es ∧ es.Perm entries

theorem Stores.perm (h : t.Stores es) (hp : es.Perm es') : t.Stores es' := by
  obtain ⟨l, hl, hs, hp'⟩ := h
  exact ⟨l, hl, hs, hp'.trans hp⟩

theorem stores_empty : (empty : AssociativeMap κ V).Stores [] := ⟨[], ⟨rfl, trivial⟩, .nil, .nil⟩

theorem Stores.update (h : t.Stores es) (hn : ∀ e ∈ es, e.1 ≠ key) (v : V) :
    (t.update key v).Stores ((key, v) :: es) := by
  obtain ⟨l, h, hs, hp⟩ := h
  have hlt : ∀ e ∈ l.filter (·.1 < key), e.1 < key :=
    fun e he => by simpa using (mem_filter.mp he).2
  have hgt : ∀ e ∈ l.filter (key < ·.1), key < e.1 :=
    fun e he => by simpa using (mem_filter.mp he).2
  refine ⟨_, h.update hs key v, ?_, ?_⟩
  · refine pairwise_append.mpr ⟨hs.filter _, pairwise_cons.mpr ⟨hgt, hs.filter _⟩, ?_⟩
    intro e he e' he'
    rcases mem_cons.mp he' with rfl | he'
    · exact hlt e he
    · exact (hlt e he).trans (hgt e' he')
  · have hf : l.filter (key < ·.1) = l.filter fun e => !decide (e.1 < key) := by
      apply filter_congr
      intro e he
      rw [← decide_not, decide_eq_decide, not_lt]
      exact (hn e (hp.mem_iff.mp he)).symm.le_iff_lt.symm
    rw [hf]
    exact perm_middle.trans (((filter_append_perm _ l).trans hp).cons _)

theorem Stores.remove (h : t.Stores es) (key : κ) :
    (t.remove key).Stores (es.filter (·.1 ≠ key)) := by
  obtain ⟨l, h, hs, hp⟩ := h
  exact ⟨_, h.remove hs key, hs.filter _, hp.filter _⟩

theorem Stores.query (h : t.Stores es) : t.query = (es.map Prod.snd).sum := by
  obtain ⟨l, h, -, hp⟩ := h
  rw [h.query, (hp.map _).sum_eq]

theorem Stores.queryLe (h : t.Stores es) (key : κ) :
    t.queryLe key = ((es.filter (·.1 ≤ key)).map Prod.snd).sum := by
  obtain ⟨l, h, hs, hp⟩ := h
  rw [AssociativeMap.queryLe, h.lessThan hs, ← ((hp.filter _).map _).sum_eq]
  simp

end

end AssociativeMap

end Rebalancer
