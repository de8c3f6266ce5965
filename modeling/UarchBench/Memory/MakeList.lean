import UarchBench.Base.Loop
import UarchBench.Base.PointerChain
import UarchBench.Memory.ShuffledRegion
import UarchBench.Memory.StoragePool

/-! Linked lists: one node of its own in front of those from a block, and two traversals, one that
counts the nodes and one that looks for the null pointer. -/
namespace UarchBench.MakeList
open Base StoragePool

/-- `sizeof(list_node)`. -/
def nodeSize : ℕ := 16

/-- `offsetof(list_node, next)`. -/
def nextOffset : ℕ := 8

/-- `p->value`. -/
def valueOf (m : Memory) (p : ℕ) : Int32 := Int32.ofNat (m.load p 4)

/-- `p->next`. -/
def nextOf (m : Memory) (p : ℕ) : ℕ := m.load (p+nextOffset) 8

/-- `p->value = value`. -/
def setValue (m : Memory) (p value : ℕ) : Memory := m.store p 4 value

/-- `p->next = next`. -/
def setNext (m : Memory) (p next : ℕ) : Memory := m.store (p+nextOffset) 8 next

structure ListHead where
  size : Int32
  first : ℕ

/-- `operator new`: an address for a number of bytes beside the blocks that are in use, or
`std::bad_alloc`. -/
abbrev New := List Block → ℕ → Option ℕ

/-- Blocks without a common byte. -/
def Apart (b c : Block) : Prop := b.start+b.size ≤ c.start ∨ c.start+c.size ≤ b.start

/-- A new block lies in the address space, not at null and apart from the blocks in use. -/
def New.Spec (new : New) : Prop :=
  ∀ live bytes p, new live bytes = some p →
    0 < p ∧ p+bytes ≤ addressSpace ∧ ∀ b ∈ live, Apart ⟨p,bytes⟩ b

inductive MakeFailure
  | badArrayNewLength
  | badAlloc
  | outOfFuel
  deriving DecidableEq, Repr

/-- The locals of `makeList`, with the memory. -/
structure Build where
  size : Int32
  allNodes : ℕ
  cur : ℕ
  mem : Memory

/-- One trip of the loop that links the nodes. -/
def linkTrip (s : Build) : Build ⊕ Memory :=
  let size := s.size-1
  if size > 0 then
    .inl ⟨size,(s.allNodes+nodeSize)%addressSpace,s.allNodes,setNext s.mem s.cur s.allNodes⟩
  else .inr s.mem

/-- `makeList`, with the blocks that are in use before the call. -/
def makeList (new : New) (live : List Block) (size : Int32) (m : Memory) (fuel : ℕ) :
    Except MakeFailure (ListHead × Memory) :=
  if size ≠ 0 then
    if size < 0 then .error .badArrayNewLength
    else
      let bytes := nodeSize*size.toInt.toNat
      match new live bytes with
      | none => .error .badAlloc
      | some allNodes =>
        match new (⟨allNodes,bytes⟩::live) nodeSize with
        | none => .error .badAlloc
        | some first =>
          let m := setNext (setValue (m.fill allNodes bytes 0) first 1) first 0
          match loop (fun s => some (linkTrip s)) fuel ⟨size,allNodes,first,m⟩ with
          | none => .error .outOfFuel
          | some m => .ok (⟨size,first⟩,m)
  else .ok (⟨size,0⟩,m)

/-- The two blocks that `makeList` allocates for a list that is not empty. -/
def listBlocks (new : New) (live : List Block) (size : Int32) : List Block :=
  let bytes := nodeSize*size.toInt.toNat
  match new live bytes with
  | none => []
  | some allNodes =>
    match new (⟨allNodes,bytes⟩::live) nodeSize with
    | none => []
    | some first => [⟨first,nodeSize⟩,⟨allNodes,bytes⟩]

inductive WalkFailure
  | nullDereference
  | outOfFuel
  deriving DecidableEq, Repr

/-- The locals that both traversals have, with the nodes visited so far. -/
structure Walk where
  cur : ℕ
  sum : Int32
  visited : List ℕ

/-- `sum += cur->value`, then `cur = cur->next`. -/
def visit (m : Memory) (w : Walk) : Except WalkFailure Walk :=
  if w.cur = 0 then .error .nullDereference
  else .ok ⟨nextOf m w.cur,w.sum+valueOf m w.cur,w.visited ++ [w.cur]⟩

/-- The result of a traversal, with the nodes it has visited. -/
structure Traversal where
  sum : Int64
  visited : List ℕ
  deriving DecidableEq

def Walk.finish (w : Walk) : Traversal := ⟨w.sum.toInt64,w.visited⟩

/-- The result of a loop that may fail. -/
def finished : Option (Except WalkFailure Walk) → Except WalkFailure Traversal
  | none => .error .outOfFuel
  | some r => r.map Walk.finish

def counterTrip (m : Memory) (list : ListHead) (s : Int32 × Walk) :
    (Int32 × Walk) ⊕ Except WalkFailure Walk :=
  if s.1 < list.size then
    match visit m s.2 with
    | .error e => .inr (.error e)
    | .ok w => .inl (s.1+1,w)
  else .inr (.ok s.2)

/-- `sum_counter`. -/
def sumCounter (m : Memory) (list : ListHead) (fuel : ℕ) : Except WalkFailure Traversal :=
  finished (loop (fun s => some (counterTrip m list s)) fuel (0,⟨list.first,0,[]⟩))

def sentinelTrip (m : Memory) (w : Walk) : Walk ⊕ Except WalkFailure Walk :=
  if w.cur ≠ 0 then
    match visit m w with
    | .error e => .inr (.error e)
    | .ok w => .inl w
  else .inr (.ok w)

/-- `sum_sentinel`. -/
def sumSentinel (m : Memory) (list : ListHead) (fuel : ℕ) : Except WalkFailure Traversal :=
  finished (loop (fun w => some (sentinelTrip m w)) fuel ⟨list.first,0,[]⟩)

section Chain
variable {m : Memory}

/-- The state behind the remaining nodes of a chain. -/
def Walk.through (m : Memory) (w : Walk) (nodes : List ℕ) : Walk :=
  ⟨0,nodes.foldl (fun sum p => sum+valueOf m p) w.sum,w.visited ++ nodes⟩

/-- The state behind the next node. -/
def Walk.next (m : Memory) (w : Walk) : Walk :=
  ⟨nextOf m w.cur,w.sum+valueOf m w.cur,w.visited ++ [w.cur]⟩

lemma visit_ok {w : Walk} (h : w.cur ≠ 0) : visit m w = .ok (w.next m) := if_neg h

lemma next_through (w : Walk) (nodes : List ℕ) :
    (w.next m).through m nodes = w.through m (w.cur::nodes) := by
  rw [Walk.through,Walk.through,Walk.next,List.append_assoc]
  rfl

lemma through_nil {w : Walk} (h : w.cur = 0) : w.through m [] = w := by
  obtain ⟨cur,sum,visited⟩ := w
  obtain rfl : cur = 0 := h
  rw [Walk.through,List.append_nil]
  rfl

/-- The traversal that looks for null visits the whole chain. -/
lemma sentinel_through {w : Walk} {a : ℕ} {nodes : List ℕ}
    (h : PointerChain (nextOf m) 0 a nodes) (hcur : w.cur = a) {fuel : ℕ}
    (hfuel : nodes.length < fuel) :
    loop (fun w => some (sentinelTrip m w)) fuel w = some (.ok (w.through m nodes)) := by
  induction h generalizing w fuel with
  | nil =>
    obtain ⟨fuel,rfl⟩ : ∃ k, fuel = k+1 := ⟨fuel-1,by omega⟩
    rw [loop,sentinelTrip,if_neg (not_not.mpr hcur),through_nil hcur]
  | @cons a nodes ne rest ih =>
    rw [List.length_cons] at hfuel
    obtain ⟨fuel,rfl⟩ : ∃ k, fuel = k+1 := ⟨fuel-1,by omega⟩
    have hne : w.cur ≠ 0 := by rwa [hcur]
    have hrest := @ih (w.next m) (by rw [Walk.next,hcur]) fuel (by omega)
    rw [next_through,hcur] at hrest
    rw [← hrest,loop,sentinelTrip,if_pos hne,visit_ok hne]

lemma toInt_add_one {i size : Int32} (h : i.toInt < size.toInt) :
    (i+1).toInt = i.toInt+1 := by
  have hlow := i.le_toInt
  have hsize := size.toInt_lt
  rw [Int32.toInt_add]
  exact Int.bmod_eq_of_le (by change _ ≤ i.toInt+1; omega) (by change i.toInt+1 < _; omega)

/-- The traversal that counts visits the same nodes if the size is the length of the chain. -/
lemma counter_through {list : ListHead} {i : Int32} {w : Walk} {a : ℕ} {nodes : List ℕ}
    (h : PointerChain (nextOf m) 0 a nodes) (hcur : w.cur = a)
    (hsize : list.size.toInt = i.toInt+nodes.length) {fuel : ℕ} (hfuel : nodes.length < fuel) :
    loop (fun s => some (counterTrip m list s)) fuel (i,w) = some (.ok (w.through m nodes)) := by
  induction h generalizing i w fuel with
  | nil =>
    obtain ⟨fuel,rfl⟩ : ∃ k, fuel = k+1 := ⟨fuel-1,by omega⟩
    have hend : ¬ i < list.size := by
      rw [Int32.lt_iff_toInt_lt,hsize,List.length_nil]
      omega
    rw [loop,counterTrip,if_neg hend,through_nil hcur]
  | @cons a nodes ne rest ih =>
    rw [List.length_cons] at hfuel hsize
    obtain ⟨fuel,rfl⟩ : ∃ k, fuel = k+1 := ⟨fuel-1,by omega⟩
    have hlt : i.toInt < list.size.toInt := by omega
    have hne : w.cur ≠ 0 := by rwa [hcur]
    have hrest := @ih (i+1) (w.next m) (by rw [Walk.next,hcur])
      (by rw [toInt_add_one hlt]; omega) fuel (by omega)
    rw [next_through,hcur] at hrest
    rw [← hrest,loop,counterTrip,if_pos (Int32.lt_iff_toInt_lt.mpr hlt),visit_ok hne]

end Chain

/-- Node `k` of a list: the single one, then those of the block. -/
def nodeAt (first array k : ℕ) : ℕ := if k = 0 then first else array+nodeSize*(k-1)

/-- The nodes of a list of some length, and null behind them. -/
def nodeOrNull (first array n k : ℕ) : ℕ := if k < n then nodeAt first array k else 0

section Linking
variable {first array n : ℕ} (hfirst : 0 < first) (hnode : first+nodeSize ≤ addressSpace)
  (harray : 0 < array) (hblock : array+nodeSize*n ≤ addressSpace)
  (hapart : Apart ⟨first,nodeSize⟩ ⟨array,nodeSize*n⟩)

/-- The nodes are linked up to `j`, and the others point to null. -/
structure Linked (first array n j : ℕ) (s : Build) : Prop where
  lt : j < n
  size : s.size.toInt = n-j
  cur : s.cur = nodeAt first array j
  allNodes : s.allNodes = array+nodeSize*j
  linked : ∀ k < j, nextOf s.mem (nodeAt first array k) = nodeAt first array (k+1)
  rest : ∀ k, j ≤ k → k < n → nextOf s.mem (nodeAt first array k) = 0

include hapart in
lemma nodeAt_apart {j k : ℕ} (hj : j < n) (hk : k < n) (hne : j ≠ k) :
    nodeAt first array j+nodeSize ≤ nodeAt first array k ∨
      nodeAt first array k+nodeSize ≤ nodeAt first array j := by
  rw [Apart] at hapart
  simp only [nodeAt,nodeSize] at hapart ⊢
  split_ifs <;> omega

lemma nodeAt_succ (first array k : ℕ) : nodeAt first array (k+1) = array+nodeSize*k := by
  rw [nodeAt,if_neg k.succ_ne_zero,Nat.add_sub_cancel]

include hfirst harray in
lemma nodeAt_pos (k : ℕ) : 0 < nodeAt first array k := by
  rw [nodeAt]
  split_ifs
  · exact hfirst
  · omega

include hnode hblock in
lemma nodeAt_inside {k : ℕ} (hk : k < n) : nodeAt first array k+nodeSize ≤ addressSpace := by
  simp only [nodeAt,nodeSize] at hnode hblock ⊢
  split_ifs <;> omega

lemma nextOf_setNext {m : Memory} {p next : ℕ} (h : next < addressSpace) :
    nextOf (setNext m p next) p = next := by
  rw [nextOf,setNext,Memory.load_store_same]
  exact Nat.mod_eq_of_lt h

lemma nextOf_setNext_apart {m : Memory} {p q next : ℕ} (h : p+nodeSize ≤ q ∨ q+nodeSize ≤ p) :
    nextOf (setNext m p next) q = nextOf m q := by
  refine Memory.load_store_apart _ _ _ _ _ _ ?_
  rw [nodeSize] at h
  omega

lemma toInt_sub_one {i : Int32} (h : 0 < i.toInt) : (i-1).toInt = i.toInt-1 := by
  have hlt := i.toInt_lt
  rw [Int32.toInt_sub]
  exact Int.bmod_eq_of_le (by change _ ≤ i.toInt-1; omega) (by change i.toInt-1 < _; omega)

include hnode hblock hapart

/-- A trip links one node more, or ends with all of them linked. -/
lemma linkTrip_linked {j : ℕ} {s : Build} (hs : Linked first array n j s) :
    (∃ t, linkTrip s = .inl t ∧ Linked first array n (j+1) t) ∨
      ∃ m, linkTrip s = .inr m ∧
        ∀ k < n, nextOf m (nodeAt first array k) = nodeOrNull first array n (k+1) := by
  obtain ⟨hlt,hsize,hcur,hall,hlinked,hrest⟩ := hs
  have hdec : (s.size-1).toInt = n-(j+1 : ℕ) := by
    rw [toInt_sub_one (by omega),hsize]
    push_cast
    ring
  have hpos : s.size-1 > 0 ↔ j+1 < n := by
    rw [gt_iff_lt,Int32.lt_iff_toInt_lt,hdec,Int32.toInt_zero]
    omega
  by_cases hmore : j+1 < n
  · refine Or.inl ⟨_,by rw [linkTrip,if_pos (hpos.mpr hmore)],?_⟩
    have hinside := nodeAt_inside hnode hblock hmore
    rw [nodeAt_succ,← hall] at hinside
    have hnext : s.allNodes < addressSpace := by
      rw [nodeSize] at hinside
      omega
    have hwrap : (s.allNodes+nodeSize)%addressSpace = array+nodeSize*(j+1) := by
      have hmul := Nat.mul_le_mul_left nodeSize hmore
      rw [Nat.mul_succ] at hmul
      rw [hall,Nat.add_assoc,← Nat.mul_succ]
      exact Nat.mod_eq_of_lt (lt_of_lt_of_le (by rw [nodeSize] at hmul ⊢; omega) hblock)
    refine ⟨hmore,hdec,?_,hwrap,fun k hk => ?_,fun k hk hkn => ?_⟩
    · rw [nodeAt_succ]
      exact hall
    · dsimp only
      rw [hcur]
      obtain rfl | hne := eq_or_ne k j
      · rw [nextOf_setNext hnext,nodeAt_succ,hall]
      · rw [nextOf_setNext_apart (nodeAt_apart hapart hlt (by omega) (Ne.symm hne))]
        exact hlinked k (by omega)
    · dsimp only
      rw [hcur,nextOf_setNext_apart (nodeAt_apart hapart hlt hkn (by omega))]
      exact hrest k (by omega) hkn
  · refine Or.inr ⟨_,by rw [linkTrip,if_neg (fun h => hmore (hpos.mp h))],fun k hk => ?_⟩
    rw [nodeOrNull]
    split_ifs with hnext
    · exact hlinked k (by omega)
    · exact hrest k (by omega) hk

omit hnode hblock hapart in
include hfirst harray in
/-- The nodes of a linked list form a chain. -/
lemma nodes_chain {m : Memory} (hn : 0 < n)
    (h : ∀ k < n, nextOf m (nodeAt first array k) = nodeOrNull first array n (k+1)) :
    PointerChain (nextOf m) 0 first ((List.range n).map (nodeOrNull first array n)) := by
  have hnodes : ∀ k < n, nodeOrNull first array n k = nodeAt first array k := fun k hk => if_pos hk
  have hlinks : ∀ k < n, nodeOrNull first array n k ≠ 0 ∧
      nextOf m (nodeOrNull first array n k) = nodeOrNull first array n (k+1) := fun k hk => by
    rw [hnodes k hk]
    exact ⟨(nodeAt_pos hfirst harray k).ne',h k hk⟩
  have hchain := PointerChain.of_links (nodeOrNull first array n) n hlinks (if_neg (lt_irrefl n))
  rwa [hnodes 0 hn] at hchain

omit hnode hblock in
/-- No two nodes have a common byte. -/
lemma nodes_apart : ((List.range n).map (nodeOrNull first array n)).Pairwise
    (fun p q => Apart ⟨p,nodeSize⟩ ⟨q,nodeSize⟩) := by
  refine List.pairwise_map.mpr ((List.pairwise_lt_range (n := n)).imp_of_mem (fun hj hk hlt => ?_))
  rw [List.mem_range] at hj hk
  rw [nodeOrNull,nodeOrNull,if_pos hj,if_pos hk]
  exact nodeAt_apart hapart hj hk hlt.ne

end Linking

section NextOnly
variable {first array n : ℕ}

/-- Only the `next` fields of the nodes may differ. -/
def NextOnly (first array n : ℕ) (m m' : Memory) : Prop :=
  ∀ x, (∀ k < n, x < nodeAt first array k+nextOffset ∨ nodeAt first array k+nodeSize ≤ x) →
    m' x = m x

lemma setNext_outside (m : Memory) (p next : ℕ) {x : ℕ}
    (hx : x < p+nextOffset ∨ p+nodeSize ≤ x) : setNext m p next x = m x :=
  Memory.store_outside _ _ _ _ _ hx

lemma linkTrip_mem {s t : Build} (h : linkTrip s = .inl t) :
    t.mem = setNext s.mem s.cur s.allNodes := by
  rw [linkTrip] at h
  split_ifs at h
  rw [← Sum.inl.inj h]

lemma linkTrip_last {s : Build} {m : Memory} (h : linkTrip s = .inr m) : m = s.mem := by
  rw [linkTrip] at h
  split_ifs at h
  exact (Sum.inr.inj h).symm

/-- The loop links all nodes and changes nothing else. -/
lemma link_loop (hnode : first+nodeSize ≤ addressSpace)
    (hblock : array+nodeSize*n ≤ addressSpace)
    (hapart : Apart ⟨first,nodeSize⟩ ⟨array,nodeSize*n⟩) {s : Build}
    (hs : Linked first array n 0 s) {fuel : ℕ} (hfuel : n < fuel) :
    ∃ m, loop (fun s => some (linkTrip s)) fuel s = some m ∧
      (∀ k < n, nextOf m (nodeAt first array k) = nodeOrNull first array n (k+1)) ∧
        NextOnly first array n s.mem m := by
  refine loop_rule (fun t => (∃ j, Linked first array n j t) ∧ NextOnly first array n s.mem t.mem)
    (fun s => s.size.toInt.toNat) _ (fun t ht => ?_) ⟨⟨0,hs⟩,fun _ _ => rfl⟩ ?_
  · obtain ⟨⟨j,ht⟩,hsame⟩ := ht
    rcases linkTrip_linked hnode hblock hapart ht with ⟨u,hu,hlinked⟩ | ⟨m,hm,hlinks⟩
    · refine Or.inl ⟨u,by rw [hu],⟨⟨j+1,hlinked⟩,fun x hx => ?_⟩,?_⟩
      · have hcur := hx j ht.lt
        rw [← ht.cur] at hcur
        rw [linkTrip_mem hu,setNext_outside _ _ _ hcur]
        exact hsame x hx
      · have hlt := hlinked.lt
        rw [hlinked.size,ht.size]
        omega
    · refine Or.inr ⟨m,by rw [hm],hlinks,?_⟩
      rw [linkTrip_last hm]
      exact hsame
  · rw [hs.size]
    omega

/-- The values of the nodes are not touched. -/
lemma NextOnly.valueOf {m m' : Memory} (h : NextOnly first array n m m')
    (hapart : Apart ⟨first,nodeSize⟩ ⟨array,nodeSize*n⟩) {k : ℕ} (hk : k < n) :
    valueOf m' (nodeAt first array k) = valueOf m (nodeAt first array k) := by
  have hload : m'.load (nodeAt first array k) 4 = m.load (nodeAt first array k) 4 := by
    refine Memory.load_congr _ _ _ _ (fun x hx hx' => h x (fun j hj => ?_))
    simp only [nextOffset,nodeSize]
    obtain rfl | hne := eq_or_ne k j
    · exact Or.inl (by omega)
    · have hnodes := nodeAt_apart hapart hk hj hne
      rw [nodeSize] at hnodes
      omega
  rw [MakeList.valueOf,MakeList.valueOf,hload]

end NextOnly

/-- A list in some blocks, of nodes without a common byte: a one, and zeros behind it. -/
structure IsList (blocks : List Block) (m : Memory) (head : ListHead) (nodes : List ℕ) : Prop where
  size : head.size.toInt = nodes.length
  chain : PointerChain (nextOf m) 0 head.first nodes
  values : ∀ p ∈ nodes, valueOf m p = if p = head.first then 1 else 0
  apart : nodes.Pairwise (fun p q => Apart ⟨p,nodeSize⟩ ⟨q,nodeSize⟩)
  inside : ∀ p ∈ nodes, ∃ b ∈ blocks, b.Contains p nodeSize

namespace IsList
variable {blocks : List Block} {m m' : Memory} {head : ListHead} {nodes : List ℕ}

/-- A list is as it was if its blocks are. -/
lemma congr (h : IsList blocks m head nodes)
    (hsame : ∀ b ∈ blocks, ∀ x, b.start ≤ x → x < b.start+b.size → m' x = m x) :
    IsList blocks m' head nodes := by
  have hbytes : ∀ p ∈ nodes, ∀ x, p ≤ x → x < p+nodeSize → m' x = m x := fun p hp x hx hx' => by
    obtain ⟨b,hb,hstart,hend⟩ := h.inside p hp
    exact hsame b hb x (hstart.trans hx) (lt_of_lt_of_le hx' hend)
  refine ⟨h.size,h.chain.congr (fun p hp => ?_),fun p hp => ?_,h.apart,h.inside⟩
  · refine Memory.load_congr _ _ _ _ (fun x hx hx' => hbytes p hp x ?_ ?_)
    all_goals simp only [nextOffset,nodeSize] at *; omega
  · rw [← h.values p hp,valueOf,valueOf]
    refine congrArg Int32.ofNat (Memory.load_congr _ _ _ _ (fun x hx hx' => hbytes p hp x hx ?_))
    rw [nodeSize]
    omega

lemma foldl_zeros {rest : List ℕ} (h : ∀ p ∈ rest, valueOf m p = 0) (sum : Int32) :
    rest.foldl (fun sum p => sum+valueOf m p) sum = sum := by
  induction rest with
  | nil => rfl
  | cons p rest ih =>
    rw [List.foldl_cons,h p List.mem_cons_self,Int32.add_zero]
    exact ih (fun q hq => h q (List.mem_cons_of_mem _ hq))

/-- The values add up to one. -/
lemma sum (h : IsList blocks m head nodes) (hne : nodes ≠ []) :
    nodes.foldl (fun sum p => sum+valueOf m p) 0 = 1 := by
  obtain ⟨-,hchain,hvalues,-,-⟩ := h
  have hnodup := hchain.nodup
  generalize head.first = a at hchain hvalues
  cases hchain with
  | nil => exact absurd rfl hne
  | @cons _ rest _ _ =>
    obtain ⟨hhead,-⟩ := List.nodup_cons.mp hnodup
    rw [List.foldl_cons,hvalues _ List.mem_cons_self,if_pos rfl]
    refine foldl_zeros (fun p hp => ?_) _
    rw [hvalues p (List.mem_cons_of_mem _ hp),if_neg (ne_of_mem_of_not_mem hp hhead)]

/-- Both traversals of a list visit its nodes and add up their values. -/
lemma sumCounter (h : IsList blocks m head nodes) {fuel : ℕ} (hfuel : nodes.length < fuel) :
    sumCounter m head fuel =
      .ok ⟨(nodes.foldl (fun sum p => sum+valueOf m p) 0).toInt64,nodes⟩ := by
  have hsize : head.size.toInt = (0 : Int32).toInt+nodes.length := by
    rw [h.size,Int32.toInt_zero,zero_add]
  have hwalk := counter_through (w := ⟨head.first,0,[]⟩) h.chain rfl hsize hfuel
  rw [MakeList.sumCounter,hwalk]
  rfl

lemma sumSentinel (h : IsList blocks m head nodes) {fuel : ℕ} (hfuel : nodes.length < fuel) :
    sumSentinel m head fuel =
      .ok ⟨(nodes.foldl (fun sum p => sum+valueOf m p) 0).toInt64,nodes⟩ := by
  have hwalk := sentinel_through (w := ⟨head.first,0,[]⟩) h.chain rfl hfuel
  rw [MakeList.sumSentinel,hwalk]
  rfl

end IsList

section Build
variable {new : New} {size : Int32} {m : Memory}

/-- The memory in front of the loop that links the nodes. -/
def cleared (m : Memory) (first array n : ℕ) : Memory :=
  setNext (setValue (m.fill array (nodeSize*n) 0) first 1) first 0

lemma cleared_outside {first array n x : ℕ} (hfirst : x < first ∨ first+nodeSize ≤ x)
    (harray : x < array ∨ array+nodeSize*n ≤ x) : cleared m first array n x = m x := by
  simp only [nodeSize] at hfirst
  rw [cleared,setNext_outside _ _ _ (by simp only [nextOffset,nodeSize]; omega),setValue,
    Memory.store_outside _ _ _ _ _ (by omega),Memory.fill_outside _ _ _ _ _ harray]

/-- The single node has a one and the others have zeros. -/
lemma cleared_valueOf {first array n k : ℕ} (hk : k < n)
    (hapart : Apart ⟨first,nodeSize⟩ ⟨array,nodeSize*n⟩) :
    valueOf (cleared m first array n) (nodeAt first array k) = if k = 0 then 1 else 0 := by
  rw [valueOf,cleared,setNext]
  by_cases hzero : k = 0
  · rw [if_pos hzero,nodeAt,if_pos hzero,
      Memory.load_store_apart _ _ _ _ _ _ (by simp only [nextOffset]; omega),setValue,
      Memory.load_store_same]
    rfl
  · have hne := nodeAt_apart hapart (by omega) hk (Ne.symm hzero)
    rw [if_neg hzero]
    obtain ⟨k,rfl⟩ := Nat.exists_eq_succ_of_ne_zero hzero
    rw [Nat.succ_eq_add_one,nodeAt,if_pos rfl,nodeAt_succ] at hne
    rw [Nat.succ_eq_add_one,nodeAt_succ]
    simp only [nodeSize] at hne
    have hfill : (m.fill array (nodeSize*n) 0).load (array+nodeSize*k) 4 = 0 := by
      refine Memory.load_zero _ _ _ (fun x hx hx' => if_pos ?_)
      simp only [nodeSize] at hx hx' ⊢
      omega
    rw [Memory.load_store_apart _ _ _ _ _ _ (by simp only [nextOffset,nodeSize]; omega),setValue,
      Memory.load_store_apart _ _ _ _ _ _ (by simp only [nodeSize]; omega),hfill]
    rfl

/-- The block of nodes is cleared before the single node is initialized. -/
lemma linked_start {first array n : ℕ} (hn : 0 < n) (hsize : size.toInt = n)
    (hapart : Apart ⟨first,nodeSize⟩ ⟨array,nodeSize*n⟩) :
    Linked first array n 0 ⟨size,array,first,
      setNext (setValue (m.fill array (nodeSize*n) 0) first 1) first 0⟩ := by
  refine ⟨hn,by simpa using hsize,rfl,rfl,fun k hk => absurd hk (Nat.not_lt_zero k),?_⟩
  intro k _ hk
  dsimp only
  by_cases hzero : k = 0
  · rw [nodeAt,if_pos hzero,nextOf_setNext (by decide)]
  · obtain ⟨k,rfl⟩ := Nat.exists_eq_succ_of_ne_zero hzero
    have hne := nodeAt_apart hapart hn hk (Nat.succ_ne_zero k).symm
    rw [Nat.succ_eq_add_one] at hne ⊢
    rw [nodeAt,if_pos rfl,nodeAt_succ] at hne
    rw [nodeAt_succ,nextOf_setNext_apart hne,nextOf,setValue,
      Memory.load_store_apart _ _ _ _ _ _ (by simp only [nodeSize,nextOffset] at hne ⊢; omega)]
    refine Memory.load_zero _ _ _ (fun x hx hx' => if_pos ?_)
    simp only [nodeSize,nextOffset] at hx hx' ⊢
    omega

/-- One of the two allocations fails. -/
def AllocFails (new : New) (live : List Block) (size : Int32) : Prop :=
  new live (nodeSize*size.toInt.toNat) = none ∨
    ∃ array, new live (nodeSize*size.toInt.toNat) = some array ∧
      new (⟨array,nodeSize*size.toInt.toNat⟩::live) nodeSize = none

/-- Each node lies in one of the two blocks. -/
lemma nodeAt_contained {first array n k : ℕ} (hk : k < n) :
    (⟨first,nodeSize⟩ : Block).Contains (nodeAt first array k) nodeSize ∨
      (⟨array,nodeSize*n⟩ : Block).Contains (nodeAt first array k) nodeSize := by
  simp only [Block.Contains,nodeAt,nodeSize]
  split_ifs <;> omega

section Linked
variable {first array n : ℕ} {m' : Memory}
  (hapart : Apart ⟨first,nodeSize⟩ ⟨array,nodeSize*n⟩)
  (hsame : NextOnly first array n (cleared m first array n) m')

include hapart hsame in
/-- The linked nodes are a list. -/
lemma linked_isList (hfirst : 0 < first) (harray : 0 < array) (hn : 0 < n)
    (hsize : size.toInt = n)
    (hlinks : ∀ k < n, nextOf m' (nodeAt first array k) = nodeOrNull first array n (k+1)) :
    IsList [⟨first,nodeSize⟩,⟨array,nodeSize*n⟩] m' ⟨size,first⟩
      ((List.range n).map (nodeOrNull first array n)) := by
  have hnode : ∀ p ∈ (List.range n).map (nodeOrNull first array n),
      ∃ k < n, p = nodeAt first array k := fun p hp => by
    obtain ⟨k,hk,rfl⟩ := List.mem_map.mp hp
    exact ⟨k,List.mem_range.mp hk,if_pos (List.mem_range.mp hk)⟩
  refine ⟨?_,nodes_chain hfirst harray hn hlinks,fun p hp => ?_,nodes_apart hapart,fun p hp => ?_⟩
  · rw [List.length_map,List.length_range]
    exact hsize
  · obtain ⟨k,hk,rfl⟩ := hnode p hp
    have hzero : nodeAt first array k = first ↔ k = 0 := by
      refine ⟨fun heq => ?_,fun heq => if_pos heq⟩
      by_contra hne
      have hnodes := nodeAt_apart hapart hk hn hne
      rw [heq,nodeAt,if_pos rfl,nodeSize] at hnodes
      omega
    rw [hsame.valueOf hapart hk]
    simp only [hzero]
    exact cleared_valueOf hk hapart
  · obtain ⟨k,hk,rfl⟩ := hnode p hp
    rcases nodeAt_contained hk with h | h
    · exact ⟨_,List.mem_cons_self,h⟩
    · exact ⟨_,List.mem_cons_of_mem _ List.mem_cons_self,h⟩

include hsame in
/-- The bytes outside of the two blocks. -/
lemma linked_outside {x : ℕ} (hfirst : x < first ∨ first+nodeSize ≤ x)
    (harray : x < array ∨ array+nodeSize*n ≤ x) : m' x = m x := by
  have hnext : m' x = cleared m first array n x := by
    refine hsame x (fun k hk => ?_)
    have hnode : (⟨first,nodeSize⟩ : Block).Contains (nodeAt first array k) nodeSize ∨
        (⟨array,nodeSize*n⟩ : Block).Contains (nodeAt first array k) nodeSize :=
      nodeAt_contained hk
    simp only [Block.Contains,nextOffset,nodeSize] at *
    omega
  rw [hnext]
  exact cleared_outside hfirst harray

end Linked

/-- `makeList` makes a list in new blocks, and changes nothing else. -/
theorem makeList_isList (hnew : new.Spec) (live : List Block) (m : Memory)
    (hsize : 0 < size.toInt) {fuel : ℕ} (hfuel : size.toInt.toNat < fuel) :
    (AllocFails new live size ∧ makeList new live size m fuel = .error .badAlloc) ∨
      ∃ head m' nodes, makeList new live size m fuel = .ok (head,m') ∧
        nodes.length = size.toInt.toNat ∧ IsList (listBlocks new live size) m' head nodes ∧
        (∀ x, (∀ b ∈ listBlocks new live size, x < b.start ∨ b.start+b.size ≤ x) → m' x = m x) ∧
        ∀ b ∈ listBlocks new live size, ∀ c ∈ live, Apart b c := by
  let n := size.toInt.toNat
  have hsize' : size.toInt = n := (Int.toNat_of_nonneg hsize.le).symm
  have hn : 0 < n := by omega
  have hzero : size ≠ 0 := by
    rintro rfl
    exact absurd hsize (by decide)
  have hneg : ¬ size < 0 := by
    rw [Int32.lt_iff_toInt_lt,Int32.toInt_zero]
    omega
  cases harray : new live (nodeSize*n) with
  | none =>
    refine Or.inl ⟨Or.inl harray,?_⟩
    simp only [makeList,hzero,hneg,harray,n,ne_eq,not_false_eq_true,if_true,if_false]
  | some array =>
    cases hfirst : new (⟨array,nodeSize*n⟩::live) nodeSize with
    | none =>
      refine Or.inl ⟨Or.inr ⟨array,harray,hfirst⟩,?_⟩
      simp only [makeList,hzero,hneg,harray,hfirst,n,ne_eq,not_false_eq_true,if_true,if_false]
    | some first =>
      obtain ⟨harraypos,hblock,harrays⟩ := hnew _ _ _ harray
      obtain ⟨hfirstpos,hnode,hfirsts⟩ := hnew _ _ _ hfirst
      have hapart := hfirsts _ List.mem_cons_self
      have hblocks : listBlocks new live size = [⟨first,nodeSize⟩,⟨array,nodeSize*n⟩] := by
        simp only [listBlocks,harray,hfirst,n]
      obtain ⟨m',hm',hlinks,hsame⟩ := link_loop hnode hblock hapart
        (linked_start (m := m) hn hsize' hapart) hfuel
      have hok : makeList new live size m fuel = .ok (⟨size,first⟩,m') := by
        simp only [makeList,hzero,hneg,harray,hfirst,hm',n,ne_eq,not_false_eq_true,if_true,if_false]
      refine Or.inr ⟨_,m',(List.range n).map (nodeOrNull first array n),hok,?_,?_,
        fun x hx => ?_,fun b hb c hc => ?_⟩
      · rw [List.length_map,List.length_range]
      · rw [hblocks]
        exact linked_isList hapart hsame hfirstpos harraypos hn hsize' hlinks
      · rw [hblocks] at hx
        exact linked_outside hsame (hx _ List.mem_cons_self)
          (hx _ (List.mem_cons_of_mem _ List.mem_cons_self))
      · rw [hblocks] at hb
        rcases List.mem_cons.mp hb with rfl | hb
        · exact hfirsts c (List.mem_cons_of_mem _ hc)
        · rw [List.mem_singleton.mp hb]
          exact harrays c hc

end Build

/-- If the allocations succeed, the list has as many nodes as its size says, which lie apart from each
other in the new blocks, and both traversals visit them in order, without going through null, and add
up their values. -/
theorem makeList_traversals (new : New) (hnew : new.Spec) (live : List Block) (size : Int32)
    (hsize : 0 ≤ size) (m : Memory) :
    ∀ fuel, size.toInt.toNat < fuel →
      (size ≠ 0 ∧ AllocFails new live size ∧
        makeList new live size m fuel = .error .badAlloc) ∨
      ∃ head m' nodes, makeList new live size m fuel = .ok (head,m') ∧
        nodes.length = size.toInt.toNat ∧ nodes.Nodup ∧
        nodes.Pairwise (fun p q => Apart ⟨p,nodeSize⟩ ⟨q,nodeSize⟩) ∧
        (∀ p ∈ nodes, ∃ b ∈ listBlocks new live size, b.Contains p nodeSize) ∧
        PointerChain (nextOf m') 0 head.first nodes ∧
        (∀ p ∈ nodes, valueOf m' p = if p = head.first then 1 else 0) ∧
        let sum := nodes.foldl (fun sum p => sum+valueOf m' p) 0
        sumCounter m' head fuel = .ok ⟨sum.toInt64,nodes⟩ ∧
        sumSentinel m' head fuel = .ok ⟨sum.toInt64,nodes⟩ := by
  intro fuel hfuel
  have hmade : (size ≠ 0 ∧ AllocFails new live size ∧
      makeList new live size m fuel = .error .badAlloc) ∨
      ∃ head m' nodes, makeList new live size m fuel = .ok (head,m') ∧
        nodes.length = size.toInt.toNat ∧ IsList (listBlocks new live size) m' head nodes := by
    by_cases hzero : size = 0
    · subst hzero
      exact Or.inr ⟨_,m,[],rfl,rfl,rfl,PointerChain.nil,nofun,List.Pairwise.nil,nofun⟩
    · have hne : size.toInt ≠ (0 : Int32).toInt := fun h => hzero (Int32.toInt_inj.mp h)
      have hnonneg := Int32.le_iff_toInt_le.mp hsize
      rcases makeList_isList hnew live m (lt_of_le_of_ne hnonneg hne.symm) hfuel with
        hfails | ⟨head,m',nodes,hok,hlen,hlist,-⟩
      · exact Or.inl ⟨hzero,hfails⟩
      · exact Or.inr ⟨head,m',nodes,hok,hlen,hlist⟩
  rcases hmade with hfails | ⟨head,m',nodes,hok,hlen,hlist⟩
  · exact Or.inl hfails
  · exact Or.inr ⟨head,m',nodes,hok,hlen,hlist.chain.nodup,hlist.apart,hlist.inside,hlist.chain,
      hlist.values,hlist.sumCounter (hlen ▸ hfuel),hlist.sumSentinel (hlen ▸ hfuel)⟩

/-- The first of two places that is free. -/
def newOfTwo : New := fun live bytes => [4096,65536].find? (fun p =>
  decide (p+bytes ≤ addressSpace) &&
    live.all (fun b => decide (p+bytes ≤ b.start ∨ b.start+b.size ≤ p)))

lemma newOfTwo_spec : newOfTwo.Spec := by
  intro live bytes p h
  have hfound := List.find?_some h
  have hmem := List.mem_of_find?_eq_some h
  simp only [Bool.and_eq_true,decide_eq_true_eq,List.all_eq_true] at hfound
  have hpos : ∀ p ∈ [4096,65536], 0 < p := by decide
  exact ⟨hpos p hmem,hfound.1,hfound.2⟩

/-- A list of the length that the benchmark uses. -/
theorem makeList_traversals_five :
    ∃ head m' nodes, makeList newOfTwo [] 5 (fun _ => 7) 6 = .ok (head,m') ∧
      nodes.length = 5 ∧ nodes.Nodup ∧
      nodes.Pairwise (fun p q => Apart ⟨p,nodeSize⟩ ⟨q,nodeSize⟩) ∧
      (∀ p ∈ nodes, ∃ b ∈ listBlocks newOfTwo [] 5, b.Contains p nodeSize) ∧
      PointerChain (nextOf m') 0 head.first nodes ∧
      (∀ p ∈ nodes, valueOf m' p = if p = head.first then 1 else 0) ∧
      let sum := nodes.foldl (fun sum p => sum+valueOf m' p) 0
      sumCounter m' head 6 = .ok ⟨sum.toInt64,nodes⟩ ∧
      sumSentinel m' head 6 = .ok ⟨sum.toInt64,nodes⟩ := by
  refine (makeList_traversals newOfTwo newOfTwo_spec [] 5 (by decide) (fun _ => 7) 6
    (by decide)).resolve_left ?_
  rintro ⟨-,hnone | ⟨array,harray,hnone⟩,-⟩
  · exact absurd hnone (by decide)
  · obtain rfl : 4096 = array := Option.some.inj harray
    exact absurd hnone (by decide)

end UarchBench.MakeList
