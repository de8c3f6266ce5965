import UarchBench.Base.ExceptList
import UarchBench.Memory.MakeList
import Mathlib.Data.List.Nodup

/-! The lists of the linked-list benchmarks: they are built one after the other, each from blocks of
its own, and none of them changes when the later ones are built. -/
namespace UarchBench.ListOfLists
open Base StoragePool MakeList

def listCount : ℕ := 4000

/-- `NODE_COUNT`. -/
def nodeCount : Int32 := 5

/-- The locals of `makeLists`, with the memory and the blocks of the lists. -/
structure Lists where
  live : List Block
  lists : List ListHead
  mem : Memory

/-- One trip of the loop. The vector has blocks of its own, which change as it grows. -/
def makeTrip (new : New) (storage : ℕ → List Block) (fuel : ℕ) (s : Lists) (i : ℕ) :
    Except MakeFailure Lists :=
  (makeList new (storage i ++ s.live) nodeCount s.mem fuel).map (fun r =>
    ⟨listBlocks new (storage i ++ s.live) nodeCount ++ s.live,s.lists ++ [r.1],r.2⟩)

/-- `makeLists`. -/
def makeLists (new : New) (storage : ℕ → List Block) (live : List Block) (m : Memory) (fuel : ℕ) :
    Except MakeFailure Lists :=
  (List.range listCount).foldlM (makeTrip new storage fuel) ⟨live,[],m⟩

inductive SumFailure
  | outOfRange
  | walk (e : WalkFailure)
  deriving DecidableEq, Repr

/-- `sum += SUM_IMPL(listOfLists[list_index])`. -/
def addList (impl : ListHead → Except WalkFailure Traversal) (lists : List ListHead) (sum : Int32)
    (listIndex : ℕ) : Except SumFailure Int32 :=
  match lists[listIndex]? with
  | none => .error .outOfRange
  | some head =>
    match impl head with
    | .error e => .error (.walk e)
    | .ok t => .ok (sum.toInt64+t.sum).toInt32

/-- One trip of `while (iters-- > 0)`. -/
def sumTrip (impl : ListHead → Except WalkFailure Traversal) (lists : List ListHead)
    (s : UInt64 × Int32) : (UInt64 × Int32) ⊕ Except SumFailure Int64 :=
  if s.1 > 0 then
    match (List.range listCount).foldlM (addList impl lists) s.2 with
    | .error e => .inr (.error e)
    | .ok sum => .inl (s.1-1,sum)
  else .inr (.ok s.2.toInt64)

/-- `linkedlist_sum`. -/
def linkedlistSum (impl : ListHead → Except WalkFailure Traversal) (lists : List ListHead)
    (iters : UInt64) (fuel : ℕ) : Option (Except SumFailure Int64) :=
  loop (fun s => some (sumTrip impl lists s)) fuel (iters,0)

def linkedlistCounter (s : Lists) (iters : UInt64) (walkFuel fuel : ℕ) :
    Option (Except SumFailure Int64) :=
  linkedlistSum (fun list => sumCounter s.mem list walkFuel) s.lists iters fuel

def linkedlistSentinel (s : Lists) (iters : UInt64) (walkFuel fuel : ℕ) :
    Option (Except SumFailure Int64) :=
  linkedlistSum (fun list => sumSentinel s.mem list walkFuel) s.lists iters fuel

/-- A list with its blocks and its nodes. -/
structure Part where
  head : ListHead
  blocks : List Block
  nodes : List ℕ

/-- The lists so far: all of them are in memory, in blocks without a common byte. -/
structure Built (s : Lists) (parts : List Part) : Prop where
  heads : s.lists = parts.map Part.head
  isList : ∀ p ∈ parts, IsList p.blocks s.mem p.head p.nodes
  length : ∀ p ∈ parts, p.nodes.length = nodeCount.toInt.toNat
  live : ∀ p ∈ parts, ∀ b ∈ p.blocks, b ∈ s.live
  apart : parts.Pairwise (fun p q => ∀ b ∈ p.blocks, ∀ c ∈ q.blocks, Apart c b)

section Lists
variable {new : New} {fuel : ℕ}

/-- One list more; the others stay. -/
lemma makeTrip_built (hnew : new.Spec) (storage : ℕ → List Block)
    (hfuel : nodeCount.toInt.toNat < fuel) {s : Lists} {parts : List Part} (hs : Built s parts)
    (i : ℕ) :
    (AllocFails new (storage i ++ s.live) nodeCount ∧
        makeTrip new storage fuel s i = .error .badAlloc) ∨
      ∃ t part, makeTrip new storage fuel s i = .ok t ∧ Built t (parts ++ [part]) := by
  rcases makeList_isList hnew (storage i ++ s.live) s.mem
    (show 0 < nodeCount.toInt by decide) hfuel with
    ⟨hfails,herror⟩ | ⟨head,m',nodes,hok,hlen,hlist,hsame,hapart⟩
  · exact Or.inl ⟨hfails,by rw [makeTrip,herror]; rfl⟩
  let blocks := listBlocks new (storage i ++ s.live) nodeCount
  have hold : ∀ p ∈ parts, ∀ b ∈ p.blocks, ∀ c ∈ blocks, Apart c b := fun p hp b hb c hc =>
    hapart c hc b (List.mem_append_right _ (hs.live p hp b hb))
  refine Or.inr ⟨⟨blocks ++ s.live,s.lists ++ [head],m'⟩,⟨head,blocks,nodes⟩,
    by rw [makeTrip,hok]; rfl,?_,fun p hp => ?_,fun p hp => ?_,fun p hp b hb => ?_,?_⟩
  · rw [List.map_append,hs.heads]
    rfl
  · rcases List.mem_append.mp hp with hp | hp
    · refine (hs.isList p hp).congr (fun b hb x hx hx' => hsame x (fun c hc => ?_))
      rcases hold p hp b hb c hc with h | h
      · exact Or.inr (h.trans hx)
      · exact Or.inl (lt_of_lt_of_le hx' h)
    · rw [List.mem_singleton.mp hp]
      exact hlist
  · rcases List.mem_append.mp hp with hp | hp
    · exact hs.length p hp
    · rw [List.mem_singleton.mp hp]
      exact hlen
  · rcases List.mem_append.mp hp with hp | hp
    · exact List.mem_append_right _ (hs.live p hp b hb)
    · rw [List.mem_singleton.mp hp] at hb
      exact List.mem_append_left _ hb
  · rw [List.pairwise_append]
    refine ⟨hs.apart,List.pairwise_singleton _ _,fun p hp q hq b hb c hc => ?_⟩
    rw [List.mem_singleton.mp hq] at hc
    exact hold p hp b hb c hc

/-- Any number of trips. -/
theorem makeLists_built (hnew : new.Spec) (storage : ℕ → List Block)
    (hfuel : nodeCount.toInt.toNat < fuel) (live : List Block) (m : Memory) (n : ℕ) :
    ((∃ i < n, ∃ live, AllocFails new (storage i ++ live) nodeCount) ∧
        (List.range n).foldlM (makeTrip new storage fuel) ⟨live,[],m⟩ = .error .badAlloc) ∨
      ∃ s parts, (List.range n).foldlM (makeTrip new storage fuel) ⟨live,[],m⟩ = .ok s ∧
        parts.length = n ∧ Built s parts := by
  induction n with
  | zero => exact Or.inr ⟨_,[],rfl,rfl,⟨rfl,by simp,by simp,by simp,List.Pairwise.nil⟩⟩
  | succ n ih =>
    rw [foldlM_range_succ]
    rcases ih with ⟨⟨i,hi,hfails⟩,herror⟩ | ⟨s,parts,hs,hlen,hbuilt⟩
    · exact Or.inl ⟨⟨i,Nat.lt_succ_of_lt hi,hfails⟩,by rw [herror]; rfl⟩
    · rw [hs]
      rcases makeTrip_built hnew storage hfuel hbuilt n with
        ⟨hfails,herror⟩ | ⟨t,part,ht,hbuilt⟩
      · exact Or.inl ⟨⟨n,Nat.lt_succ_self n,s.live,hfails⟩,herror⟩
      · exact Or.inr ⟨t,parts ++ [part],ht,by rw [List.length_append,hlen]; rfl,hbuilt⟩

/-- No node is in two lists, or twice in one. -/
theorem Built.nodup {s : Lists} {parts : List Part} (h : Built s parts) :
    (parts.flatMap Part.nodes).Nodup := by
  rw [List.nodup_flatMap]
  refine ⟨fun p hp => (h.isList p hp).chain.nodup,?_⟩
  refine h.apart.imp_of_mem (fun {p q} hp hq hapart x hxp hxq => ?_)
  obtain ⟨b,hb,hbstart,hbend⟩ := (h.isList p hp).inside x hxp
  obtain ⟨c,hc,hcstart,hcend⟩ := (h.isList q hq).inside x hxq
  have hbc := hapart b hb c hc
  simp only [Apart,nodeSize] at *
  omega

end Lists

section Sums
variable {impl : ListHead → Except WalkFailure Traversal} {lists : List ListHead}
  (himpl : ∀ head ∈ lists, ∃ nodes, impl head = .ok ⟨1,nodes⟩)

lemma foldl_succ {α : Type} (l : List α) (sum : Int32) :
    l.foldl (fun sum _ => sum+1) sum = sum+Int32.ofNat l.length := by
  induction l generalizing sum with
  | nil => exact (Int32.add_zero sum).symm
  | cons a l ih =>
    rw [List.foldl_cons,ih,List.length_cons,Int32.ofNat_add,Int32.add_assoc,
      Int32.add_comm (Int32.ofNat l.length)]
    rfl

include himpl

/-- One pass over all lists. -/
lemma pass_sum (hlen : lists.length = listCount) (sum : Int32) :
    (List.range listCount).foldlM (addList impl lists) sum = .ok (sum+Int32.ofNat listCount) := by
  rw [← hlen,← foldl_succ lists]
  refine foldlM_range (fun k head hk sum => ?_) sum
  obtain ⟨nodes,hok⟩ := himpl head (List.mem_of_getElem? hk)
  simp only [addList,hk,hok,Int64.toInt32_add,Int32.toInt32_toInt64]
  rfl

/-- The loop over the iterations; the sum wraps around. -/
theorem linkedlistSum_eq (hlen : lists.length = listCount) (iters : UInt64) {fuel : ℕ}
    (hfuel : iters.toNat < fuel) : linkedlistSum impl lists iters fuel =
      some (.ok (Int32.ofNat (iters.toNat*listCount)).toInt64) := by
  obtain ⟨r,hr,rfl⟩ : ∃ r, linkedlistSum impl lists iters fuel = some r ∧
      r = .ok (Int32.ofNat (iters.toNat*listCount)).toInt64 := by
    refine loop_rule (fun s : UInt64 × Int32 => s.1.toNat ≤ iters.toNat ∧
      s.2 = Int32.ofNat ((iters.toNat-s.1.toNat)*listCount)) (fun s => s.1.toNat) _
      (fun s hs => ?_) ⟨le_rfl,by rw [Nat.sub_self,Nat.zero_mul]; rfl⟩ hfuel
    obtain ⟨hle,hsum⟩ := hs
    by_cases hmore : s.1 > 0
    · have hpos : 0 < s.1.toNat := UInt64.lt_iff_toNat_lt.mp hmore
      have hdec : (s.1-1).toNat = s.1.toNat-1 := UInt64.toNat_sub_of_le _ _ (by
        rw [UInt64.le_iff_toNat_le]
        exact hpos)
      refine Or.inl ⟨(s.1-1,s.2+Int32.ofNat listCount),?_,⟨?_,?_⟩,?_⟩
      · rw [sumTrip,if_pos hmore,pass_sum himpl hlen]
      · rw [hdec]
        omega
      · have hnext : iters.toNat-(s.1.toNat-1) = iters.toNat-s.1.toNat+1 := by omega
        rw [hsum,hdec,hnext,Nat.succ_mul,Int32.ofNat_add]
      · rw [hdec]
        omega
    · have hzero : s.1.toNat = 0 := by
        rw [gt_iff_lt,UInt64.lt_iff_toNat_lt] at hmore
        exact Nat.eq_zero_of_not_pos hmore
      refine Or.inr ⟨_,by rw [sumTrip,if_neg hmore],?_⟩
      rw [hsum,hzero,Nat.sub_zero]
  exact hr

end Sums

/-- If the allocations succeed, all lists are there when the last one is built, each with its own
nodes, and both benchmarks return the number of lists that they have summed up, as an `int`. -/
theorem linkedlist_sums (new : New) (hnew : new.Spec) (storage : ℕ → List Block)
    (live : List Block) (m : Memory) (fuel : ℕ) (hfuel : nodeCount.toInt.toNat < fuel) :
    ((∃ i < listCount, ∃ live, AllocFails new (storage i ++ live) nodeCount) ∧
        makeLists new storage live m fuel = .error .badAlloc) ∨
      ∃ s parts, makeLists new storage live m fuel = .ok s ∧ parts.length = listCount ∧
        Built s parts ∧ (parts.flatMap Part.nodes).Nodup ∧
        ∀ (iters : UInt64) (sumFuel : ℕ), iters.toNat < sumFuel →
          linkedlistCounter s iters fuel sumFuel =
              some (.ok (Int32.ofNat (iters.toNat*listCount)).toInt64) ∧
            linkedlistSentinel s iters fuel sumFuel =
              some (.ok (Int32.ofNat (iters.toNat*listCount)).toInt64) := by
  rcases makeLists_built hnew storage hfuel live m listCount with
    hfails | ⟨s,parts,hok,hlen,hbuilt⟩
  · exact Or.inl hfails
  have hlists : s.lists.length = listCount := by rw [hbuilt.heads,List.length_map,hlen]
  have hlist : ∀ head ∈ s.lists, ∃ blocks nodes, IsList blocks s.mem head nodes ∧ nodes ≠ [] ∧
      nodes.length < fuel := fun head hhead => by
    rw [hbuilt.heads] at hhead
    obtain ⟨p,hp,rfl⟩ := List.mem_map.mp hhead
    have hnodes := hbuilt.length p hp
    refine ⟨p.blocks,p.nodes,hbuilt.isList p hp,fun hnil => ?_,by rwa [hnodes]⟩
    rw [hnil] at hnodes
    exact absurd hnodes (by decide)
  refine Or.inr ⟨s,parts,hok,hlen,hbuilt,hbuilt.nodup,fun iters sumFuel hsum => ⟨?_,?_⟩⟩
  · refine linkedlistSum_eq (fun head hhead => ?_) hlists iters hsum
    obtain ⟨blocks,nodes,h,hne,hlt⟩ := hlist head hhead
    exact ⟨nodes,by rw [h.sumCounter hlt,h.sum hne]; rfl⟩
  · refine linkedlistSum_eq (fun head hhead => ?_) hlists iters hsum
    obtain ⟨blocks,nodes,h,hne,hlt⟩ := hlist head hhead
    exact ⟨nodes,by rw [h.sumSentinel hlt,h.sum hne]; rfl⟩

/-- The first address behind all blocks in use. -/
def behind : List Block → ℕ
  | [] => 4096
  | b::live => max (b.start+b.size) (behind live)

def newBehind : New := fun live bytes =>
  if behind live+bytes ≤ addressSpace then some (behind live) else none

lemma le_behind {live : List Block} {b : Block} (h : b ∈ live) :
    b.start+b.size ≤ behind live := by
  induction live with
  | nil => cases h
  | cons c live ih =>
    rw [behind]
    rcases List.mem_cons.mp h with rfl | h
    · exact le_max_left _ _
    · exact (ih h).trans (le_max_right _ _)

lemma behind_pos (live : List Block) : 0 < behind live := by
  induction live with
  | nil => decide
  | cons b live ih => exact ih.trans_le (le_max_right _ _)

lemma newBehind_spec : newBehind.Spec := by
  intro live bytes p h
  rw [newBehind] at h
  split_ifs at h with hfits
  obtain rfl := Option.some.inj h
  exact ⟨behind_pos live,hfits,fun b hb => Or.inr (le_behind hb)⟩

/-- The bytes of a list. -/
def listBytes : ℕ := nodeSize*nodeCount.toInt.toNat+nodeSize

lemma newBehind_first {live : List Block} (h : behind live+listBytes ≤ addressSpace) :
    newBehind live (nodeSize*nodeCount.toInt.toNat) = some (behind live) ∧
      newBehind (⟨behind live,nodeSize*nodeCount.toInt.toNat⟩::live) nodeSize =
        some (behind live+nodeSize*nodeCount.toInt.toNat) := by
  rw [listBytes] at h
  have hbehind : behind (⟨behind live,nodeSize*nodeCount.toInt.toNat⟩::live) =
      behind live+nodeSize*nodeCount.toInt.toNat := max_eq_left (Nat.le_add_right _ _)
  rw [newBehind,newBehind,hbehind,if_pos (by omega),if_pos (by omega)]
  exact ⟨rfl,rfl⟩

lemma behind_listBlocks {live : List Block} (h : behind live+listBytes ≤ addressSpace) :
    behind (listBlocks newBehind live nodeCount ++ live) = behind live+listBytes := by
  obtain ⟨harray,hfirst⟩ := newBehind_first h
  simp only [listBlocks,harray,hfirst,List.cons_append,List.nil_append,behind,listBytes]
  omega

lemma makeTrip_live {new : New} {storage : ℕ → List Block} {fuel i : ℕ} {s t : Lists}
    (h : makeTrip new storage fuel s i = .ok t) :
    t.live = listBlocks new (storage i ++ s.live) nodeCount ++ s.live := by
  rw [makeTrip] at h
  cases hmake : makeList new (storage i ++ s.live) nodeCount s.mem fuel with
  | error e =>
    rw [hmake] at h
    cases h
  | ok r =>
    rw [hmake] at h
    rw [← Except.ok.inj h]

/-- This allocator has memory for all lists. -/
lemma makeLists_newBehind (m : Memory) (n : ℕ) (hn : n ≤ listCount) :
    ∃ s parts, (List.range n).foldlM (makeTrip newBehind (fun _ => []) 6) ⟨[],[],m⟩ = .ok s ∧
      Built s parts ∧ behind s.live = 4096+listBytes*n := by
  induction n with
  | zero => exact ⟨_,[],rfl,⟨rfl,by simp,by simp,by simp,List.Pairwise.nil⟩,rfl⟩
  | succ n ih =>
    obtain ⟨s,parts,hs,hbuilt,hbehind⟩ := ih (Nat.le_of_succ_le hn)
    have hfits : behind s.live+listBytes ≤ addressSpace := by
      have hbytes : listBytes = 96 := rfl
      have hcount : listCount = 4000 := rfl
      have hspace : addressSpace = 2^64 := rfl
      rw [hbehind,hbytes,hspace]
      omega
    obtain ⟨harray,hfirst⟩ := newBehind_first hfits
    rcases makeTrip_built newBehind_spec (fun _ => []) (show _ < 6 by decide) hbuilt n with
      ⟨hnone | ⟨array,harray',hnone⟩,-⟩ | ⟨t,part,ht,hbuilt'⟩
    · rw [List.nil_append,harray] at hnone
      cases hnone
    · rw [List.nil_append,harray] at harray'
      obtain rfl := Option.some.inj harray'
      rw [List.nil_append,hfirst] at hnone
      cases hnone
    · refine ⟨t,parts ++ [part],by rw [foldlM_range_succ,hs]; exact ht,hbuilt',?_⟩
      rw [makeTrip_live ht,List.nil_append,behind_listBlocks hfits,hbehind]
      ring

theorem linkedlist_sums_behind :
    ∃ s parts, makeLists newBehind (fun _ => []) [] (fun _ => 7) 6 = .ok s ∧
      parts.length = listCount ∧ Built s parts ∧ (parts.flatMap Part.nodes).Nodup ∧
      ∀ (iters : UInt64) (sumFuel : ℕ), iters.toNat < sumFuel →
        linkedlistCounter s iters 6 sumFuel =
            some (.ok (Int32.ofNat (iters.toNat*listCount)).toInt64) ∧
          linkedlistSentinel s iters 6 sumFuel =
            some (.ok (Int32.ofNat (iters.toNat*listCount)).toInt64) := by
  refine (linkedlist_sums newBehind newBehind_spec (fun _ => []) [] (fun _ => 7) 6
    (by decide)).resolve_left ?_
  rintro ⟨-,herror⟩
  obtain ⟨s,-,hok,-⟩ := makeLists_newBehind (fun _ => 7) listCount le_rfl
  rw [makeLists,hok] at herror
  cases herror

end UarchBench.ListOfLists
