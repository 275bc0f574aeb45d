import FeatureFilter.Proofs.Filter.Forest
import FeatureFilter.Proofs.Filter.Tree
import FeatureFilter.Proofs.Syntax.Denotation

/-!
# The order in which nodes are made

The nodes of a phrase in the order in which they are made: those of its parts from left to right,
then its own (`Operand.listing`, `Condition.listing`). A maker that numbers its nodes records just
this list (`Condition.adds_make`), and the list is a forest with a single tree, whose nodes are all
used once but for the value of an `IN` list, which is used by every equality of the list
(`Condition.shares_listing`).
-/

namespace FeatureFilter

/-! ## Listings -/

def NodeRecord.relate : Relation → Nat → Nat → NodeRecord
  | .spatial op => .spatial op
  | .temporal op => .temporal op

/-- Nodes that are made one after the other. They depend on the number of nodes that were made
before, since nodes know their parts by number. -/
abbrev Listing := Nat → List NodeRecord

namespace Listing

def last (l : Listing) (first : Nat) : Nat := first + (l first).length

def single (node : NodeRecord) : Listing := fun _ => [node]

def before (l l' : Listing) : Listing := fun first => l first ++ l' (l.last first)

def under (l : Listing) (node : Nat → NodeRecord) : Listing := fun first => l first ++ [node first]

/-- A node of two parts, behind the listings of both. -/
def pair (l l' : Listing) (node : Nat → Nat → NodeRecord) : Listing :=
  (l.before l').under fun first => node (l.last first) ((l.before l').last first)

/-- A listing and a node behind it, and behind that its negation where it is asked for. -/
def closed (negated : Bool) (l : Listing) (node : Nat → NodeRecord) : Listing := fun first =>
  l first ++ node first :: if negated then [.negation (l.last first + 1)] else []

variable {l l' : Listing} {first : Nat}

theorem last_before : (l.before l').last first = l'.last (l.last first) := by
  simp only [last, before, List.length_append]
  omega

theorem last_under {node : Nat → NodeRecord} :
    (l.under node).last first = l.last first + 1 := by
  simp only [last, under, List.length_append, List.length_singleton]
  omega

theorem last_closed {negated : Bool} {node : Nat → NodeRecord} :
    (l.closed negated node).last first = l.last first + 1 + negated.toNat := by
  simp only [last, closed, List.length_append, List.length_cons]
  cases negated <;> simp <;> omega

end Listing

namespace Operand

mutual

def listing : Operand → Listing
  | .literal _ value => .single (.literal value.toValue)
  | .property _ name => .single (.property name.path)
  | .call _ name args => (listingAll args).under fun first => .call name (numbers args first)
  | .arithmetic _ op left right => left.listing.pair right.listing (.arithmetic op)
  | .interval _ start stop => start.listing.pair stop.listing .interval
  | .openBound _ => .single (.literal (.string openMarker))
  | .geometry _ g _ => .single (.literal (.geometry g))

def listingAll : List Operand → Listing
  | [] => fun _ => []
  | o :: os => o.listing.before (listingAll os)

def numbers : List Operand → Nat → List Nat
  | [], _ => []
  | o :: os, first => o.listing.last first :: numbers os (o.listing.last first)

end

end Operand

namespace Condition

def equalities (value : Nat) : List Operand → Listing
  | [] => fun _ => []
  | o :: os =>
    (o.listing.under fun first => .compare .eq value (o.listing.last first)).before
      (equalities value os)

def equalityNumbers : List Operand → Nat → List Nat
  | [], _ => []
  | o :: os, first => (o.listing.last first + 1) :: equalityNumbers os (o.listing.last first + 1)

def listItems (value : Operand) (choices : List Operand) : Listing := fun first =>
  value.listing.before (equalities (value.listing.last first) choices) first

theorem last_listItems {value : Operand} {choices : List Operand} {first : Nat} :
    (listItems value choices).last first =
      (equalities (value.listing.last first) choices).last (value.listing.last first) :=
  Listing.last_before

mutual

/-- The nodes that are made for a condition. -/
def listing (v : Vocabulary) : Condition → Listing
  | .any _ clauses => (listingAll v clauses).under fun first => .any (numbers v clauses first)
  | .all _ clauses => (listingAll v clauses).under fun first => .all (numbers v clauses first)
  | .negation _ clause =>
    (clause.listing v).under fun first => .negation ((clause.listing v).last first)
  | .compare _ op left right => left.listing.pair right.listing (.compare op)
  | .between _ negated value low high =>
    ((value.listing.before low.listing).before high.listing).closed negated fun first =>
      .between (value.listing.last first) ((value.listing.before low.listing).last first)
        (((value.listing.before low.listing).before high.listing).last first)
  | .like _ negated value pattern matchCase =>
    value.listing.closed negated fun first => .like (value.listing.last first) pattern matchCase
  | .isNull _ negated value =>
    value.listing.closed negated fun first => .isNull (value.listing.last first)
  | .inList _ negated value choices =>
    (listItems value choices).closed negated fun first =>
      .any (equalityNumbers choices (value.listing.last first))
  | .call span name args =>
    match v.relation span name args.length with
    | .error _ => fun _ => []
    | .ok r =>
      match args with
      | [left, right] => left.listing.pair right.listing (.relate r)
      | _ => fun _ => []

def listingAll (v : Vocabulary) : List Condition → Listing
  | [] => fun _ => []
  | c :: cs => (c.listing v).before (listingAll v cs)

def numbers (v : Vocabulary) : List Condition → Nat → List Nat
  | [], _ => []
  | c :: cs, first => (c.listing v).last first :: numbers v cs ((c.listing v).last first)

end

mutual

/-- The `IN` lists in a condition: the number of the value and how many choices there are. -/
def lists (v : Vocabulary) : Condition → Nat → List (Nat × Nat)
  | .any _ clauses, first | .all _ clauses, first => listsAll v clauses first
  | .negation _ clause, first => clause.lists v first
  | .inList _ _ value choices, first => [(value.listing.last first, choices.length)]
  | .compare _ _ _ _, _ | .between _ _ _ _ _, _ | .like _ _ _ _ _, _ | .isNull _ _ _, _
  | .call _ _ _, _ => []

def listsAll (v : Vocabulary) : List Condition → Nat → List (Nat × Nat)
  | [], _ => []
  | c :: cs, first => c.lists v first ++ listsAll v cs ((c.listing v).last first)

end

end Condition

/-! ## Numbering while making -/

section Adds

/-- With so many nodes made before, the work makes just these nodes if it succeeds, and gives the
result. -/
def Adds (first : Nat) (x : ExceptT MeaningError (StateM (Array NodeRecord)) α)
    (nodes : List NodeRecord) (result : α) : Prop :=
  ∀ record : Array NodeRecord, record.size = first → ∀ a record',
    (x.run.run record).run = (.ok a, record') →
      a = result ∧ record'.toList = record.toList ++ nodes

variable {α β : Type} {first : Nat} {x : ExceptT MeaningError (StateM (Array NodeRecord)) α}
  {f : α → ExceptT MeaningError (StateM (Array NodeRecord)) β} {nodes nodes' : List NodeRecord}

theorem adds_pure (a : α) : Adds first (pure a) [] a := by
  rintro record - b record' h
  cases h
  exact ⟨rfl, (List.append_nil _).symm⟩

theorem adds_node (node : NodeRecord) :
    Adds first (liftM node.add : ExceptT MeaningError (StateM (Array NodeRecord)) Nat) [node]
      (first + 1) := by
  rintro record rfl b record' h
  cases h
  exact ⟨Array.size_push _, Array.toList_push⟩

theorem adds_throw (e : MeaningError) {a : α} :
    Adds first (throw e : ExceptT MeaningError (StateM (Array NodeRecord)) α) nodes a := by
  rintro record - b record' h
  cases h

theorem Adds.bind {a : α} {b : β} (hx : Adds first x nodes a)
    (hf : Adds (first + nodes.length) (f a) nodes' b) :
    Adds first (x >>= f) (nodes ++ nodes') b := by
  intro record hr c record'' h
  rw [ExceptT.run_bind, StateT.run_bind, Id.run_bind] at h
  rcases hx' : (x.run.run record).run with ⟨e | a', record'⟩
  · rw [hx'] at h
    cases h
  · rw [hx'] at h
    obtain ⟨rfl, hl⟩ := hx record hr a' record' hx'
    have hsize : record'.size = first + nodes.length := by
      rw [← Array.length_toList, hl, List.length_append, Array.length_toList, hr]
    obtain ⟨rfl, hl'⟩ := hf record' hsize c record'' h
    exact ⟨rfl, by rw [hl', hl, List.append_assoc]⟩

/-- Work behind that makes no nodes. -/
theorem Adds.close {a : α} {b : β} (hx : Adds first x nodes a)
    (hf : Adds (first + nodes.length) (f a) [] b) : Adds first (x >>= f) nodes b := by
  have h := hx.bind hf
  rwa [List.append_nil] at h

end Adds

/-! ## Making the nodes -/

section Make

variable {v : Vocabulary} {first : Nat}

theorem adds_pair {x y : ExceptT MeaningError (StateM (Array NodeRecord)) Nat} {l l' : Listing}
    {add : Nat → Nat → ExceptT MeaningError (StateM (Array NodeRecord)) Nat}
    {node : Nat → Nat → NodeRecord} (hx : Adds first x (l first) (l.last first))
    (hy : Adds (l.last first) y (l' (l.last first)) (l'.last (l.last first)))
    (ha : ∀ n a b, Adds n (add a b) [node a b] (n + 1)) :
    Adds first (x >>= fun a => y >>= fun b => add a b) (l.pair l' node first)
      ((l.pair l' node).last first) := by
  rw [Listing.pair, Listing.last_under, Listing.last_before, Listing.under, Listing.before,
    List.append_assoc, Listing.last_before]
  exact hx.bind (hy.bind (ha _ _ _))

namespace Operand

theorem adds_asBound {o : Operand}
    (h : Adds first (o.make v .numbered) (o.listing first) (o.listing.last first)) :
    Adds first (o.asBound .numbered (o.make v .numbered)) (o.listing first)
      (o.listing.last first) := by
  cases o with
  | literal s l =>
    cases l with
    | date | timestamp => exact h
    | _ => exact adds_throw _
  | property | call => exact h
  | openBound => exact adds_node _
  | _ => exact adds_throw _

mutual

theorem adds_make : ∀ (o : Operand) (first : Nat),
    Adds first (o.make v .numbered) (o.listing first) (o.listing.last first)
  | .literal _ _, _ | .property _ _, _ | .geometry _ _ none, _ => adds_node _
  | .geometry _ _ (some _), _ | .openBound _, _ => adds_throw _
  | .call span name args, first => by
    rw [make, listing, Listing.last_under]
    cases v.checkValueCall span name args.length with
    | error e => exact adds_throw e
    | ok _ => exact (adds_makeAll args first).bind (adds_node _)
  | .arithmetic _ _ left right, first => by
    rw [make, listing]
    exact adds_pair (adds_make left _) (adds_make right _) fun _ _ _ => adds_node _
  | .interval _ start stop, first => by
    rw [make, listing]
    exact adds_pair (adds_asBound (adds_make start _)) (adds_asBound (adds_make stop _))
      fun _ _ _ => adds_node _

theorem adds_makeAll : ∀ (os : List Operand) (first : Nat),
    Adds first (makeAll v .numbered os) (listingAll os first) (numbers os first)
  | [], _ => adds_pure _
  | o :: os, first => by
    rw [makeAll, listingAll, numbers]
    exact (adds_make o first).bind ((adds_makeAll os _).close (adds_pure _))

end

end Operand

namespace Condition

theorem adds_negatable (negated : Bool) (node : NodeRecord) :
    Adds first ((liftM node.add : ExceptT MeaningError (StateM (Array NodeRecord)) Nat) >>=
        fun n => makeNegated .numbered negated n)
      (node :: if negated then [.negation (first + 1)] else []) (first + 1 + negated.toNat) := by
  cases negated with
  | false => exact (adds_node node).bind (adds_pure _)
  | true => exact (adds_node node).bind (adds_node _)

theorem adds_makeEqualities (value : Nat) (os : List Operand) (first : Nat) :
    Adds first (makeEqualities v .numbered value os) (equalities value os first)
      (equalityNumbers os first) := by
  induction os generalizing first with
  | nil => exact adds_pure _
  | cons o os ih =>
    rw [makeEqualities, equalities, equalityNumbers, Listing.before, Listing.last_under,
      Listing.under, List.append_assoc]
    exact (o.adds_make first).bind ((adds_node _).bind ((ih _).close (adds_pure _)))

theorem adds_relate (r : Relation) (a b : Nat) :
    Adds first (liftM (Maker.numbered.relate r a b) : ExceptT MeaningError _ Nat)
      [NodeRecord.relate r a b] (first + 1) := by
  cases r <;> exact adds_node _

mutual

theorem adds_make : ∀ (c : Condition) (first : Nat),
    Adds first (c.make v .numbered) (c.listing v first) ((c.listing v).last first)
  | .any _ clauses, first | .all _ clauses, first => by
    rw [make, listing, Listing.last_under]
    exact (adds_makeAll clauses first).bind (adds_node _)
  | .negation _ clause, first => by
    rw [make, listing, Listing.last_under]
    exact (adds_make clause first).bind (adds_node _)
  | .compare _ _ left right, first => by
    rw [make, listing]
    exact adds_pair (left.adds_make _) (right.adds_make _) fun _ _ _ => adds_node _
  | .between _ negated value low high, first => by
    rw [make, listing, Listing.last_closed, Listing.closed, Listing.before, Listing.before,
      List.append_assoc, List.append_assoc]
    simp only [Listing.last_before]
    exact (value.adds_make _).bind ((low.adds_make _).bind ((high.adds_make _).bind
      (adds_negatable negated _)))
  | .like _ negated value _ _, first | .isNull _ negated value, first => by
    rw [make, listing, Listing.last_closed]
    exact (value.adds_make _).bind (adds_negatable negated _)
  | .inList _ negated value choices, first => by
    rw [make, listing, Listing.last_closed, Listing.closed, last_listItems, listItems,
      Listing.before, List.append_assoc]
    exact (value.adds_make _).bind ((adds_makeEqualities _ choices _).bind
      (adds_negatable negated _))
  | .call span name args, first => by
    rw [make, listing]
    cases v.relation span name args.length with
    | error e => exact adds_throw e
    | ok r =>
      match args with
      | [left, right] =>
        exact adds_pair (left.adds_make _) (right.adds_make _) fun _ => adds_relate r
      | [] | [_] | _ :: _ :: _ :: _ => exact adds_throw _

theorem adds_makeAll : ∀ (cs : List Condition) (first : Nat),
    Adds first (makeAll v .numbered cs) (listingAll v cs first) (numbers v cs first)
  | [], _ => adds_pure _
  | c :: cs, first => by
    rw [makeAll, listingAll, numbers]
    exact (adds_make c first).bind ((adds_makeAll cs _).close (adds_pure _))

end

end Condition

end Make

/-! ## Listings are forests -/

section ForestOf

variable {v : Vocabulary} {first : Nat}

namespace Listing

variable {l l' : Listing} {tops tops' again again' : List Nat} {lists : List (Nat × Nat)}

theorem forest_before (h : Forest first (l first) tops again)
    (h' : Forest (l.last first) (l' (l.last first)) tops' again') :
    Forest first (l.before l' first) (tops ++ tops') (again ++ again') := h.append h'

theorem forest_under {node : Nat → NodeRecord} (h : Forest first (l first) tops again)
    (hp : (node first).parts = tops) :
    Forest first (l.under node first) [(l.under node).last first] again := by
  rw [last_under]
  exact h.under hp

theorem forest_pair {node : Nat → Nat → NodeRecord} (h : Forest first (l first) [l.last first] [])
    (h' : Forest (l.last first) (l' (l.last first)) [l'.last (l.last first)] [])
    (hp : ∀ a b, (node a b).parts = [a, b]) :
    Forest first (l.pair l' node first) [(l.pair l' node).last first] [] :=
  forest_under (forest_before h h') (by rw [hp, last_before]; rfl)

theorem shares_under {node : Nat → NodeRecord} (h : Shares first (l first) tops lists)
    (hp : (node first).parts = tops) :
    Shares first (l.under node first) [(l.under node).last first] lists := by
  rw [last_under]
  exact h.under hp

theorem shares_closed {node : Nat → NodeRecord} (negated : Bool)
    (h : Shares first (l first) tops lists) (hp : (node first).parts = tops) :
    Shares first (l.closed negated node first) [(l.closed negated node).last first] lists := by
  have hnode := h.under hp
  rw [last_closed, closed]
  cases negated with
  | false => exact hnode
  | true =>
    have hparts : (NodeRecord.negation (l.last first + 1)).parts = [l.last first + 1] := rfl
    have hneg := hnode.under hparts
    rw [List.append_assoc, List.length_append, ← Nat.add_assoc] at hneg
    exact hneg

end Listing

open Listing

namespace Operand

mutual

/-- The nodes of an operand are all used once. -/
theorem forest_listing : ∀ (o : Operand) (first : Nat),
    Forest first (o.listing first) [o.listing.last first] []
  | .literal _ _, _ | .property _ _, _ | .openBound _, _ | .geometry _ _ _, _ => .leaf _ rfl
  | .call _ _ args, first => by
    rw [listing]
    exact forest_under (forest_listingAll args first) rfl
  | .arithmetic _ _ left right, first => by
    rw [listing]
    exact forest_pair (forest_listing left _) (forest_listing right _) fun _ _ => rfl
  | .interval _ start stop, first => by
    rw [listing]
    exact forest_pair (forest_listing start _) (forest_listing stop _) fun _ _ => rfl

theorem forest_listingAll : ∀ (os : List Operand) (first : Nat),
    Forest first (listingAll os first) (numbers os first) []
  | [], first => .nil first
  | o :: os, first => by
    rw [listingAll, numbers]
    exact forest_before (forest_listing o first) (forest_listingAll os _)

end

end Operand

namespace Condition

theorem forest_equalities {x : Nat} (os : List Operand) (h : x ≤ first) :
    Forest first (equalities x os first) (equalityNumbers os first)
      (List.replicate os.length x) := by
  induction os generalizing first with
  | nil => exact .nil first
  | cons o os ih =>
    have hparts : (NodeRecord.compare .eq x (o.listing.last first)).parts =
        [x] ++ [o.listing.last first] := rfl
    have ho : Forest first
        ((o.listing.under fun first => .compare .eq x (o.listing.last first)) first)
        [o.listing.last first + 1] [x] :=
      (o.forest_listing first).close hparts (List.pairwise_singleton _ _) (by simpa using h)
    rw [equalities, equalityNumbers]
    refine forest_before ho ?_
    rw [last_under]
    refine ih (Nat.le_trans h ?_)
    rw [last]
    omega

theorem length_le_countP_equalities (x : Nat) (os : List Operand) (first : Nat) :
    os.length ≤ (equalities x os first).countP (·.equates x) := by
  induction os generalizing first with
  | nil => exact Nat.le_refl 0
  | cons o os ih =>
    have hos := ih ((o.listing.under fun first => .compare .eq x (o.listing.last first)).last first)
    have hnode : (NodeRecord.compare .eq x (o.listing.last first)).equates x = true :=
      beq_self_eq_true x
    rw [equalities, before, under, List.countP_append, List.countP_append, List.countP_singleton,
      if_pos hnode, List.length_cons]
    omega

theorem shares_listItems (value : Operand) {choices : List Operand} (h : choices ≠ []) :
    Shares first (listItems value choices first)
      (equalityNumbers choices (value.listing.last first))
      [(value.listing.last first, choices.length)] where
  forest := by
    obtain ⟨n, hn⟩ : ∃ n, choices.length = n + 1 :=
      Nat.exists_eq_succ_of_ne_zero (by simpa using h)
    have hlist := forest_before (value.forest_listing first)
      (forest_equalities choices (Nat.le_refl (value.listing.last first)))
    rw [hn] at hlist ⊢
    simpa [furtherUses, listItems] using hlist.reuse
  increasing := List.pairwise_singleton _ _
  mem p hp := by
    rw [List.mem_singleton.1 hp, listItems, before, List.length_append]
    have := (value.forest_listing first).tops_mem _ List.mem_cons_self
    omega
  equates p hp := by
    have :=
      length_le_countP_equalities (value.listing.last first) choices (value.listing.last first)
    have hpos : 0 < choices.length := List.length_pos_iff.2 h
    obtain rfl := List.mem_singleton.1 hp
    refine ⟨hpos, ?_⟩
    rw [listItems, before, List.countP_append]
    exact Nat.le_trans this (Nat.le_add_left _ _)

mutual

/-- The nodes of a condition that has a meaning are all used once, but for the values of its lists.
-/
theorem shares_listing : ∀ {c : Condition} {f : Filter} (first : Nat), c.Denotes v f →
    f.Every (· ≠ .any []) (fun _ => True) →
    Shares first (c.listing v first) [(c.listing v).last first] (c.lists v first)
  | .any _ clauses, _, first, hd, hf => by
    obtain ⟨fs, hfs, rfl⟩ := denotes_any.1 hd
    rw [listing, lists]
    exact shares_under (shares_listingAll first hfs hf.2) rfl
  | .all _ clauses, _, first, hd, hf => by
    obtain ⟨fs, hfs, rfl⟩ := denotes_all.1 hd
    rw [listing, lists]
    exact shares_under (shares_listingAll first hfs hf.2) rfl
  | .negation _ clause, _, first, hd, hf => by
    obtain ⟨a, ha, rfl⟩ := denotes_negation.1 hd
    rw [listing, lists]
    exact shares_under (shares_listing first ha hf.2) rfl
  | .compare _ _ left right, _, first, _, _ => by
    rw [listing, lists]
    exact .ofForest (forest_pair (left.forest_listing _) (right.forest_listing _) fun _ _ => rfl)
  | .between _ negated value low high, _, first, _, _ => by
    rw [listing, lists]
    refine shares_closed negated (.ofForest (forest_before (forest_before (value.forest_listing _)
      (low.forest_listing _)) (high.forest_listing _))) ?_
    rw [last_before, last_before, last_before]
    rfl
  | .like _ negated value _ _, _, first, _, _ | .isNull _ negated value, _, first, _, _ => by
    rw [listing, lists]
    exact shares_closed negated (.ofForest (value.forest_listing _)) rfl
  | .inList _ negated value choices, _, first, hd, hf => by
    obtain ⟨x, -, es, hes, rfl⟩ := denotes_inList.1 hd
    have hne : choices ≠ [] := by
      rintro rfl
      cases hes
      cases negated with
      | false => exact hf.1 rfl
      | true => exact hf.2.1 rfl
    rw [listing, lists]
    exact shares_closed negated (shares_listItems value hne) rfl
  | .call span name args, _, first, hd, _ => by
    obtain ⟨left, right, r, rfl, hr, -⟩ := denotes_call.1 hd
    rw [listing, lists, show v.relation span name [left, right].length = .ok r from
      Vocabulary.relation_iff.2 hr]
    exact .ofForest (forest_pair (left.forest_listing _) (right.forest_listing _)
      fun _ _ => by cases r <;> rfl)

theorem shares_listingAll : ∀ {cs : List Condition} {fs : List Filter} (first : Nat),
    List.Forall₂ (Denotes v) cs fs → Filter.EveryOne (· ≠ .any []) (fun _ => True) fs →
    Shares first (listingAll v cs first) (numbers v cs first) (listsAll v cs first)
  | [], _, first, _, _ => .ofForest (.nil first)
  | c :: cs, _, first, h, hf => by
    obtain _ | ⟨hc, hcs⟩ := h
    rw [listingAll, numbers, listsAll]
    exact (shares_listing first hc hf.1).append (shares_listingAll _ hcs hf.2)

end

end Condition

end ForestOf

end FeatureFilter
