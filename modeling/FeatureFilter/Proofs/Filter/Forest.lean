import FeatureFilter.Filter.Maker
import Mathlib.Data.List.Basic

/-!
# Forests of numbered nodes

Nodes that are numbered in the order in which they are made, and name their parts by number. A
stretch of such nodes is a forest: every number in it is used once, but for the tops of its trees,
which are left for the nodes to come, and for numbers that are used again. Forests can be put side
by side and brought together under a node. Of a record that is a single tree, every number but the
last is used, and used once unless it is the value of an `IN` list (`Shares.linear`).
-/

namespace FeatureFilter

/-- The numbers of the parts of nodes, each as often as it is used. -/
def uses (nodes : List NodeRecord) : List Nat := nodes.flatMap NodeRecord.parts

theorem uses_append (nodes nodes' : List NodeRecord) :
    uses (nodes ++ nodes') = uses nodes ++ uses nodes' := List.flatMap_append

theorem uses_singleton (node : NodeRecord) : uses [node] = node.parts := by
  simp [uses]

/-- Whether the number is in the stretch of so many numbers behind `first`. -/
abbrev InStretch (first length n : Nat) : Prop := first < n ∧ n ≤ first + length

/-- The nodes are numbered from behind `first`. All numbers of the stretch are used once in it, but
for those of `tops`, which are left, and those in `again`, which are used once more for each time
they stand there. -/
structure Forest (first : Nat) (nodes : List NodeRecord) (tops again : List Nat) : Prop where
  increasing : ∀ node ∈ nodes, node.parts.Pairwise (· < ·)
  earlier : ∀ i node, nodes[i]? = some node → ∀ p ∈ node.parts, p ≤ first + i
  tops_increasing : tops.Pairwise (· < ·)
  tops_mem : ∀ t ∈ tops, InStretch first nodes.length t
  count_uses : ∀ n, (uses nodes).count n + tops.count n =
    (if InStretch first nodes.length n then 1 else 0) + again.count n

namespace Forest

variable {first : Nat} {nodes nodes' : List NodeRecord} {tops tops' again again' : List Nat}
  {node : NodeRecord}

theorem nil (first : Nat) : Forest first [] [] [] where
  increasing := nofun
  earlier := nofun
  tops_increasing := .nil
  tops_mem := nofun
  count_uses n := by
    rw [if_neg (by simp only [List.length_nil]; omega)]
    rfl

theorem append (h : Forest first nodes tops again)
    (h' : Forest (first + nodes.length) nodes' tops' again') :
    Forest first (nodes ++ nodes') (tops ++ tops') (again ++ again') where
  increasing node hn := (List.mem_append.1 hn).elim (h.increasing node) (h'.increasing node)
  earlier i node hi p hp := by
    rcases Nat.lt_or_ge i nodes.length with hlt | hge
    · rw [List.getElem?_append_left hlt] at hi
      exact h.earlier i node hi p hp
    · rw [List.getElem?_append_right hge] at hi
      have := h'.earlier _ node hi p hp
      omega
  tops_increasing := by
    refine List.pairwise_append.2 ⟨h.tops_increasing, h'.tops_increasing, fun t ht t' ht' => ?_⟩
    exact Nat.lt_of_le_of_lt (h.tops_mem t ht).2 (h'.tops_mem t' ht').1
  tops_mem t ht := by
    rw [List.length_append]
    rcases List.mem_append.1 ht with ht | ht
    · have := h.tops_mem t ht
      omega
    · have := h'.tops_mem t ht
      omega
  count_uses n := by
    have hn := h.count_uses n
    have hn' := h'.count_uses n
    rw [uses_append, List.count_append, List.count_append, List.count_append, List.length_append]
    split at hn <;> split at hn' <;> split <;> omega

theorem close {outer : List Nat} (h : Forest first nodes tops again)
    (hp : node.parts = outer ++ tops) (hinc : outer.Pairwise (· < ·))
    (hle : ∀ p ∈ outer, p ≤ first) :
    Forest first (nodes ++ [node]) [first + nodes.length + 1] (outer ++ again) where
  increasing node' hn := by
    rcases List.mem_append.1 hn with hn | hn
    · exact h.increasing node' hn
    · rw [List.mem_singleton.1 hn, hp]
      refine List.pairwise_append.2 ⟨hinc, h.tops_increasing, fun p hp t ht => ?_⟩
      exact Nat.lt_of_le_of_lt (hle p hp) (h.tops_mem t ht).1
  earlier i node' hi p hmem := by
    rcases Nat.lt_or_ge i nodes.length with hlt | hge
    · rw [List.getElem?_append_left hlt] at hi
      exact h.earlier i node' hi p hmem
    · rw [List.getElem?_append_right hge, List.getElem?_singleton] at hi
      split at hi
      · cases hi
        rw [hp] at hmem
        rcases List.mem_append.1 hmem with hmem | hmem
        · have := hle p hmem
          omega
        · have := (h.tops_mem p hmem).2
          omega
      · cases hi
  tops_increasing := List.pairwise_singleton _ _
  tops_mem t ht := by
    rw [List.mem_singleton.1 ht, List.length_append, List.length_singleton]
    omega
  count_uses n := by
    have hn := h.count_uses n
    rw [uses_append, uses_singleton, hp, List.count_append, List.count_append, List.count_append,
      List.count_singleton, List.length_append, List.length_singleton]
    simp only [beq_iff_eq]
    split at hn <;> split <;> split <;> omega

theorem under (h : Forest first nodes tops again) (hp : node.parts = tops) :
    Forest first (nodes ++ [node]) [first + nodes.length + 1] again :=
  h.close (show node.parts = [] ++ tops from hp) .nil nofun

theorem leaf (first : Nat) (hp : node.parts = []) : Forest first [node] [first + 1] [] :=
  (nil first).under hp

/-- A top that is used besides need not be used by the nodes to come. -/
theorem reuse {x n : Nat} (h : Forest first nodes (x :: tops) (List.replicate (n + 1) x)) :
    Forest first nodes tops (List.replicate n x) where
  increasing := h.increasing
  earlier := h.earlier
  tops_increasing := (List.pairwise_cons.1 h.tops_increasing).2
  tops_mem t ht := h.tops_mem t (List.mem_cons_of_mem x ht)
  count_uses k := by
    have hk := h.count_uses k
    rw [List.count_cons, List.replicate_succ, List.count_cons] at hk
    omega

end Forest

/-! ## Values of lists -/

def NodeRecord.equates (left : Nat) : NodeRecord → Bool
  | .compare .eq l _ => l == left
  | _ => false

theorem countP_equates_le (nodes : List NodeRecord) (n : Nat) :
    nodes.countP (·.equates n) ≤ (uses nodes).count n := by
  induction nodes with
  | nil => exact Nat.le_refl 0
  | cons node nodes ih =>
    rw [List.countP_cons, ← List.singleton_append, uses_append, uses_singleton, List.count_append]
    split
    · rename_i h
      have hmem : n ∈ node.parts := by
        cases node with
        | compare op l r =>
          cases op with
          | eq =>
            have hl : l = n := by simpa [NodeRecord.equates] using h
            exact hl ▸ List.mem_cons_self
          | _ => cases h
        | _ => cases h
      have := List.count_pos_iff.2 hmem
      omega
    · omega

/-- The uses of the values of lists besides the first use of each. A list is the number of its value
with the number of its equalities. -/
def furtherUses (lists : List (Nat × Nat)) : List Nat :=
  lists.flatMap fun p => List.replicate (p.2 - 1) p.1

theorem count_furtherUses_of_notMem {lists : List (Nat × Nat)} {n : Nat}
    (h : ∀ p ∈ lists, p.1 ≠ n) : (furtherUses lists).count n = 0 := by
  refine List.count_eq_zero.2 fun hn => ?_
  obtain ⟨p, hp, hn⟩ := List.mem_flatMap.1 hn
  exact h p hp (List.eq_of_mem_replicate hn).symm

theorem count_furtherUses {lists : List (Nat × Nat)} (h : lists.Pairwise fun a b => a.1 < b.1) :
    ∀ p ∈ lists, (furtherUses lists).count p.1 = p.2 - 1 := by
  induction lists with
  | nil => exact nofun
  | cons q lists ih =>
    obtain ⟨hq, hl⟩ := List.pairwise_cons.1 h
    intro p hp
    rw [furtherUses, List.flatMap_cons, List.count_append, ← furtherUses]
    rcases List.mem_cons.1 hp with rfl | hp
    · rw [List.count_replicate_self,
        count_furtherUses_of_notMem fun q' hq' => Nat.ne_of_gt (hq q' hq'), Nat.add_zero]
    · have hne : q.1 ≠ p.1 := Nat.ne_of_lt (hq p hp)
      rw [ih hl p hp, List.count_eq_zero.2 fun hmem => hne (List.eq_of_mem_replicate hmem).symm,
        Nat.zero_add]

/-- The nodes are a forest in which only the values of the lists are used again, by equalities. -/
structure Shares (first : Nat) (nodes : List NodeRecord) (tops : List Nat)
    (lists : List (Nat × Nat)) : Prop where
  forest : Forest first nodes tops (furtherUses lists)
  increasing : lists.Pairwise fun a b => a.1 < b.1
  mem : ∀ p ∈ lists, InStretch first nodes.length p.1
  equates : ∀ p ∈ lists, 1 ≤ p.2 ∧ p.2 ≤ nodes.countP (·.equates p.1)

namespace Shares

variable {first : Nat} {nodes nodes' : List NodeRecord} {tops tops' : List Nat}
  {lists lists' : List (Nat × Nat)} {node : NodeRecord}

theorem ofForest (h : Forest first nodes tops []) : Shares first nodes tops [] :=
  ⟨h, .nil, nofun, nofun⟩

theorem append (h : Shares first nodes tops lists)
    (h' : Shares (first + nodes.length) nodes' tops' lists') :
    Shares first (nodes ++ nodes') (tops ++ tops') (lists ++ lists') where
  forest := by
    rw [furtherUses, List.flatMap_append]
    exact h.forest.append h'.forest
  increasing := by
    refine List.pairwise_append.2 ⟨h.increasing, h'.increasing, fun p hp q hq => ?_⟩
    exact Nat.lt_of_le_of_lt (h.mem p hp).2 (h'.mem q hq).1
  mem p hp := by
    rw [List.length_append]
    rcases List.mem_append.1 hp with hp | hp
    · have := h.mem p hp
      omega
    · have := h'.mem p hp
      omega
  equates p hp := by
    rw [List.countP_append]
    rcases List.mem_append.1 hp with hp | hp
    · have := h.equates p hp
      omega
    · have := h'.equates p hp
      omega

theorem under (h : Shares first nodes tops lists) (hp : node.parts = tops) :
    Shares first (nodes ++ [node]) [first + nodes.length + 1] lists where
  forest := h.forest.under hp
  increasing := h.increasing
  mem p hp := by
    have := h.mem p hp
    rw [List.length_append, List.length_singleton]
    omega
  equates p hp := by
    have := h.equates p hp
    rw [List.countP_append]
    omega

end Shares

/-! ## Records of a single tree -/

/-- Parts of nodes come before them, in increasing order. Every number but that of the last node is
used once, except for the value of a list, which is used by each equality of the list and by nothing
else. -/
structure Linear (record : Array NodeRecord) (lists : List (Nat × Nat)) : Prop where
  increasing : ∀ node ∈ record, node.parts.Pairwise (· < ·)
  earlier : ∀ i node, record[i]? = some node → ∀ p ∈ node.parts, 1 ≤ p ∧ p < i + 1
  once : ∀ n, 1 ≤ n → n < record.size → (∀ p ∈ lists, p.1 ≠ n) →
    (uses record.toList).count n = 1
  value : ∀ p ∈ lists, 1 ≤ p.1 ∧ p.1 < record.size ∧ 1 ≤ p.2 ∧
    (uses record.toList).count p.1 = p.2 ∧ record.toList.countP (·.equates p.1) = p.2

theorem Shares.linear {record : Array NodeRecord} {lists : List (Nat × Nat)}
    (h : Shares 0 record.toList [record.size] lists) : Linear record lists where
  increasing node hn := h.forest.increasing node (Array.mem_toList_iff.2 hn)
  earlier i node hi p hp := by
    have hi : record.toList[i]? = some node := by simpa using hi
    have hle := h.forest.earlier i node hi p hp
    have hcount := h.forest.count_uses p
    have hpos : 0 < (uses record.toList).count p :=
      List.count_pos_iff.2 (List.mem_flatMap.2 ⟨node, List.mem_of_getElem? hi, hp⟩)
    refine ⟨?_, by omega⟩
    by_cases hl : ∃ q ∈ lists, q.1 = p
    · obtain ⟨q, hq, rfl⟩ := hl
      have := h.mem q hq
      omega
    · rw [count_furtherUses_of_notMem fun q hq he => hl ⟨q, hq, he⟩] at hcount
      split at hcount <;> omega
  once n h1 hn hl := by
    have hcount := h.forest.count_uses n
    rw [count_furtherUses_of_notMem hl, if_pos ⟨h1, by simpa using Nat.le_of_lt hn⟩,
      List.count_singleton, if_neg (by simpa using Nat.ne_of_gt hn)] at hcount
    exact hcount
  value p hp := by
    have hmem := h.mem p hp
    have hcount := h.forest.count_uses p.1
    obtain ⟨hpos, hequates⟩ := h.equates p hp
    have hle := countP_equates_le record.toList p.1
    rw [count_furtherUses h.increasing p hp, if_pos hmem, List.count_singleton] at hcount
    simp only [beq_iff_eq] at hcount
    simp only [Array.length_toList] at hmem
    split at hcount <;> omega

end FeatureFilter
