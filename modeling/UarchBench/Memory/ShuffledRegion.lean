import UarchBench.Base.ByteMemory
import UarchBench.Base.Ring

/-! The pointer-chasing region: its cache lines are linked in shuffled order and closed into one
cycle. Addresses and sizes are numbers, and pointer arithmetic wraps at the address space. -/
namespace UarchBench
open Base

def addressSpace : ℕ := 2^64
def cacheLineSize : ℕ := 64
def pointerSize : ℕ := 8
/-- The length of `CacheLine::nexts`. -/
def slotCount : ℕ := cacheLineSize/pointerSize
def maxShuffledRegionSize : ℕ := 400*1024*1024

structure Region where
  size : ℕ
  start : ℕ
  deriving DecidableEq, Repr

/-- How a call ends when it does not return. -/
inductive Failure
  | assertion (condition : String)
  | outOfFuel
  deriving DecidableEq, Repr

namespace CacheLine

/-- `p->nexts[slot]`. -/
def nexts (m : Memory) (slot p : ℕ) : ℕ := m.load (p+pointerSize*slot) pointerSize

/-- `std::fill` of the first slots of a line. -/
def fillSlots (m : Memory) (p next : ℕ) : ℕ → Memory
  | 0 => m
  | slot+1 => (fillSlots m p next slot).store (p+pointerSize*slot) pointerSize next

def setNexts (m : Memory) (p next : ℕ) : Memory := fillSlots m p next slotCount

/-- Lines at these addresses have no byte in common. -/
def Apart (p q : ℕ) : Prop := p+cacheLineSize ≤ q ∨ q+cacheLineSize ≤ p

lemma Apart.symm {p q : ℕ} (h : Apart p q) : Apart q p := Or.symm h

lemma fillSlots_same (m : Memory) (p next : ℕ) {slot count : ℕ} (h : slot < count) :
    nexts (fillSlots m p next count) slot p = next%addressSpace := by
  induction count with
  | zero => omega
  | succ count ih =>
    simp only [nexts,fillSlots]
    obtain rfl | hlt : slot = count ∨ slot < count := by omega
    · rw [Memory.load_store_same]
      rfl
    · rw [Memory.load_store_apart _ _ _ _ _ _ (Or.inl (by simp only [pointerSize]; omega))]
      exact ih hlt

lemma fillSlots_apart (m : Memory) (p q next : ℕ) (hpq : Apart p q) {slot count : ℕ}
    (hslot : slot < slotCount) (hcount : count ≤ slotCount) :
    nexts (fillSlots m p next count) slot q = nexts m slot q := by
  induction count with
  | zero => rfl
  | succ count ih =>
    rw [← ih (by omega)]
    apply Memory.load_store_apart
    simp only [slotCount,Apart,cacheLineSize,pointerSize] at *
    omega

lemma fillSlots_outside (m : Memory) (p next : ℕ) {x count : ℕ}
    (hx : x < p ∨ p+cacheLineSize ≤ x) (hcount : count ≤ slotCount) :
    fillSlots m p next count x = m x := by
  induction count with
  | zero => rfl
  | succ count ih =>
    rw [← ih (by omega)]
    apply Memory.store_outside
    simp only [slotCount,cacheLineSize,pointerSize] at *
    omega

@[simp] theorem setNexts_same (m : Memory) (p next : ℕ) {slot : ℕ} (h : slot < slotCount) :
    nexts (setNexts m p next) slot p = next%addressSpace := fillSlots_same m p next h

theorem setNexts_apart (m : Memory) (p q next : ℕ) (hpq : Apart p q) {slot : ℕ}
    (h : slot < slotCount) : nexts (setNexts m p next) slot q = nexts m slot q :=
  fillSlots_apart m p q next hpq h le_rfl

theorem setNexts_outside (m : Memory) (p next : ℕ) {x : ℕ} (hx : x < p ∨ p+cacheLineSize ≤ x) :
    setNexts m p next x = m x := fillSlots_outside m p next hx le_rfl

end CacheLine

namespace ShuffledRegion
open CacheLine

/-- `storage + i` on a pointer to cache lines. -/
def lineAt (storage i : ℕ) : ℕ := (storage+cacheLineSize*i)%addressSpace

/-- The linking loop: every line gets the next one of the order, which becomes current. -/
def linkFrom (storage : ℕ) (m : Memory) (p : ℕ) : List ℕ → Memory × ℕ
  | [] => (m,p)
  | i::rest => linkFrom storage (setNexts m p (lineAt storage i)) (lineAt storage i) rest

/-- The loop from the first line of the order, then the closing edge back to that line. -/
def link (storage : ℕ) (m : Memory) : List ℕ → Memory
  | [] => m
  | first::rest =>
    let chain := linkFrom storage m (lineAt storage first) rest
    setNexts chain.1 chain.2 (lineAt storage first)

/-- The contents of the region: cleared to all ones and linked in the shuffled order. -/
def build (shuffle : List ℕ → List ℕ) (storage size : ℕ) (m : Memory) : Memory :=
  link storage (m.fill storage size 255) (shuffle (List.range (size/cacheLineSize)))

/-- The loop of `count`, whose state is the current line and the counter. -/
def countLoop (m : Memory) (first fuel : ℕ) : Option ((ℕ × ℕ) × ℕ) :=
  doWhile (fun s => some (nexts m 0 s.1,s.2+1)) (fun s => decide (s.1 ≠ first)) fuel (first,0)

def count (m : Memory) (first fuel : ℕ) : Option ℕ :=
  (countLoop m first fuel).map (fun r => r.1.2)

/-- A 32-bit word read as a signed `int`. -/
def toInt32 (v : ℕ) : ℤ := (BitVec.ofNat 32 v).toInt

/-- The loop of `sumlist`: a `list_node` has its `int value` at offset 0, its `next` at 8. -/
def sumlistLoop (m : Memory) (first fuel : ℕ) : Option ((ℕ × ℤ) × ℕ) :=
  doWhile (fun s => some (nexts m 1 s.1,s.2+toInt32 (m.load s.1 4)))
    (fun s => decide (s.1 ≠ first)) fuel (first,0)

def sumlist (m : Memory) (first fuel : ℕ) : Option ℤ :=
  (sumlistLoop m first fuel).map (fun r => r.1.2)

/-- `shuffled_region` over its static storage: the assertions in source order, the region built
in place, and the final self check. -/
def shuffledRegion (shuffle : List ℕ → List ℕ) (storageBase size offset : ℕ) (m : Memory)
    (fuel : ℕ) : Except Failure (Region × Memory) :=
  if ¬ (size+offset)%addressSpace ≤ maxShuffledRegionSize then
    .error (.assertion "size + offset <= MAX_SHUFFLED_REGION_SIZE")
  else if ¬ size%cacheLineSize = 0 then
    .error (.assertion "size % UB_CACHE_LINE_SIZE == 0")
  else if ¬ 0 < size/cacheLineSize then
    .error (.assertion "size_lines > 0")
  else
    let storage := (storageBase+offset)%addressSpace
    let built := build shuffle storage size m
    match count built storage fuel with
    | none => .error .outOfFuel
    | some lines =>
      if lines = size/cacheLineSize then .ok (⟨size,storage⟩,built)
      else .error (.assertion "count(storage) == size_lines")

/-- One edge written by the builder: all slots of a line get the same successor. -/
def writeEdge (m : Memory) (edge : ℕ × ℕ) : Memory := setNexts m edge.1 edge.2

/-- The loop and its closing edge write the edges of the cyclic order, one after the other. -/
lemma linkFrom_close (storage : ℕ) (m : Memory) (p last : ℕ) (rest : List ℕ) :
    setNexts (linkFrom storage m p rest).1 (linkFrom storage m p rest).2 last =
      ((p::rest.map (lineAt storage)).zip (rest.map (lineAt storage) ++ [last])).foldl
        writeEdge m := by
  induction rest generalizing m p with
  | nil => rfl
  | cons i rest ih => exact ih (setNexts m p (lineAt storage i)) (lineAt storage i)

theorem link_eq_edges (storage : ℕ) (m : Memory) (order : List ℕ) :
    link storage m order =
      ((order.map (lineAt storage)).zip ((order.map (lineAt storage)).rotate 1)).foldl
        writeEdge m := by
  cases order with
  | nil => rfl
  | cons first rest =>
    simp only [link,List.map_cons,List.rotate_cons_succ,List.rotate_zero]
    exact linkFrom_close storage m _ _ rest

lemma writeEdges_apart (edges : List (ℕ × ℕ)) (m : Memory) (q : ℕ)
    (hq : ∀ e ∈ edges, Apart e.1 q) {slot : ℕ} (h : slot < slotCount) :
    nexts (edges.foldl writeEdge m) slot q = nexts m slot q := by
  induction edges generalizing m with
  | nil => rfl
  | cons e edges ih =>
    rw [List.foldl_cons,ih _ (fun e' he' => hq e' (List.mem_cons_of_mem _ he'))]
    exact setNexts_apart m e.1 q e.2 (hq e List.mem_cons_self) h

lemma writeEdges_outside (edges : List (ℕ × ℕ)) (m : Memory) (x : ℕ)
    (hx : ∀ e ∈ edges, x < e.1 ∨ e.1+cacheLineSize ≤ x) : edges.foldl writeEdge m x = m x := by
  induction edges generalizing m with
  | nil => rfl
  | cons e edges ih =>
    rw [List.foldl_cons,ih _ (fun e' he' => hx e' (List.mem_cons_of_mem _ he'))]
    exact setNexts_outside m e.1 e.2 (hx e List.mem_cons_self)

/-- Edges that leave different lines do not overwrite each other. -/
lemma writeEdges_mem (edges : List (ℕ × ℕ)) (m : Memory)
    (hapart : edges.Pairwise (fun e e' => Apart e.1 e'.1)) (e : ℕ × ℕ) (he : e ∈ edges)
    {slot : ℕ} (h : slot < slotCount) :
    nexts (edges.foldl writeEdge m) slot e.1 = e.2%addressSpace := by
  induction edges generalizing m with
  | nil => simp at he
  | cons e' edges ih =>
    obtain ⟨hhead,htail⟩ := List.pairwise_cons.mp hapart
    rw [List.foldl_cons]
    rcases List.mem_cons.mp he with rfl | hmem
    · rw [writeEdges_apart edges _ _ (fun f hf => (hhead f hf).symm) h]
      exact setNexts_same m e.1 e.2 h
    · exact ih _ htail hmem

/-- The edges from each line of a list to the following one close it into a ring. -/
theorem writeEdges_isRing (ring : List ℕ) (m : Memory) (hapart : ring.Pairwise Apart)
    (hlt : ∀ p ∈ ring, p < addressSpace) {slot : ℕ} (h : slot < slotCount) :
    IsRing (nexts ((ring.zip (ring.rotate 1)).foldl writeEdge m) slot) ring := by
  intro k hk hlast
  have hedge : (ring[k],ring[(k+1)%ring.length]) ∈ ring.zip (ring.rotate 1) := by
    rw [← List.getElem_rotate ring 1 k (by simpa using hk)]
    exact List.mem_iff_getElem.mpr ⟨k,by simpa using hk,List.getElem_zip⟩
  have hsources : (ring.zip (ring.rotate 1)).Pairwise (fun e e' => Apart e.1 e'.1) := by
    apply List.pairwise_map.mp
    rwa [List.map_fst_zip (by simp)]
  rw [writeEdges_mem _ m hsources _ hedge h]
  exact Nat.mod_eq_of_lt (hlt _ (List.getElem_mem hlast))

lemma lineAt_lt (storage i : ℕ) : lineAt storage i < addressSpace :=
  Nat.mod_lt _ (by simp [addressSpace])

section Addressable
variable {storage lines : ℕ} (haddr : storage+cacheLineSize*lines ≤ addressSpace)
include haddr

lemma lineAt_eq {i : ℕ} (hi : i < lines) : lineAt storage i = storage+cacheLineSize*i := by
  apply Nat.mod_eq_of_lt
  simp only [cacheLineSize] at *
  omega

lemma lineAt_apart {i j : ℕ} (hi : i < lines) (hj : j < lines) (hij : i ≠ j) :
    Apart (lineAt storage i) (lineAt storage j) := by
  rw [lineAt_eq haddr hi,lineAt_eq haddr hj]
  simp only [Apart,cacheLineSize]
  omega

variable {order : List ℕ} (horder : order.Perm (List.range lines))
include horder

lemma order_pairwise_apart : (order.map (lineAt storage)).Pairwise Apart := by
  have hnodup : order.Nodup := horder.nodup_iff.mpr List.nodup_range
  have hlt : ∀ i ∈ order, i < lines := fun i hi => List.mem_range.mp (horder.mem_iff.mp hi)
  refine List.pairwise_map.mpr (hnodup.imp_of_mem ?_)
  intro i j hi hj hij
  exact lineAt_apart haddr (hlt i hi) (hlt j hj) hij

lemma order_nodup : (order.map (lineAt storage)).Nodup := by
  refine (order_pairwise_apart haddr horder).imp ?_
  intro p q hpq he
  simp only [Apart,cacheLineSize] at hpq
  omega

/-- Following any fixed slot of the linked lines walks around the shuffled order. -/
theorem link_isRing (m : Memory) {slot : ℕ} (h : slot < slotCount) :
    IsRing (nexts (link storage m order) slot) (order.map (lineAt storage)) := by
  rw [link_eq_edges]
  refine writeEdges_isRing _ m (order_pairwise_apart haddr horder) ?_ h
  simp only [List.mem_map,forall_exists_index,and_imp,forall_apply_eq_imp_iff₂]
  exact fun i _ => lineAt_lt storage i

/-- Linking the lines writes to no other memory. -/
theorem link_outside (m : Memory) {x : ℕ} (hx : x < storage ∨ storage+cacheLineSize*lines ≤ x) :
    link storage m order x = m x := by
  rw [link_eq_edges]
  apply writeEdges_outside
  intro e he
  obtain ⟨i,hi,hline⟩ := List.mem_map.mp (List.of_mem_zip he).1
  have hlt : i < lines := List.mem_range.mp (horder.mem_iff.mp hi)
  rw [← hline,lineAt_eq haddr hlt]
  simp only [cacheLineSize] at *
  omega

end Addressable

/-- What the region promises its benchmarks: one cycle through all of its lines, the same along
every slot. -/
structure SingleCycle (m : Memory) (storage lines : ℕ) : Prop where
  /-- All slots of a line hold the same pointer, and it is the address of a line. -/
  slots_agree : ∀ i < lines, ∃ j < lines, ∀ slot < slotCount,
    nexts m slot (lineAt storage i) = lineAt storage j
  distinct : ((List.range lines).map (lineAt storage)).Nodup
  /-- One turn from any line meets every line once. -/
  visits : ∀ i < lines, ∀ slot < slotCount,
    ((List.range lines).map (fun k => (nexts m slot)^[k] (lineAt storage i))).Perm
      ((List.range lines).map (lineAt storage))
  /-- The turn closes at the line it began with. -/
  returns : ∀ i < lines, ∀ slot < slotCount,
    (nexts m slot)^[lines] (lineAt storage i) = lineAt storage i

section Addressable
variable {storage lines : ℕ} (haddr : storage+cacheLineSize*lines ≤ addressSpace)
  {order : List ℕ} (horder : order.Perm (List.range lines))
include haddr horder

omit haddr in
/-- Every line of the region stands at some position of the shuffled order. -/
lemma position_of_line {i : ℕ} (hi : i < lines) :
    ∃ (k : ℕ) (hk : k < (order.map (lineAt storage)).length),
      (order.map (lineAt storage))[k] = lineAt storage i := by
  have hmem : lineAt storage i ∈ order.map (lineAt storage) :=
    List.mem_map_of_mem (horder.mem_iff.mpr (List.mem_range.mpr hi))
  exact List.mem_iff_getElem.mp hmem

theorem link_singleCycle (m : Memory) : SingleCycle (link storage m order) storage lines := by
  have hlen : (order.map (lineAt storage)).length = lines := by
    rw [List.length_map,horder.length_eq,List.length_range]
  refine ⟨?_,?_,?_,?_⟩
  · intro i hi
    obtain ⟨k,hk,hline⟩ := position_of_line horder hi
    have hk' : (k+1)%order.length < order.length := Nat.mod_lt _ (by simp at hk; omega)
    refine ⟨order[(k+1)%order.length],?_,?_⟩
    · exact List.mem_range.mp (horder.mem_iff.mp (List.getElem_mem hk'))
    · intro slot hslot
      rw [← hline,link_isRing haddr horder m hslot k hk (by simpa using hk')]
      simp
  · exact (horder.map _).nodup_iff.mp (order_nodup haddr horder)
  · intro i hi slot hslot
    obtain ⟨k,hk,hline⟩ := position_of_line horder hi
    have ho := (link_isRing haddr horder m hslot).orbit_perm k hk
    rw [hline,hlen] at ho
    exact ho.trans (horder.map _)
  · intro i hi slot hslot
    obtain ⟨k,hk,hline⟩ := position_of_line horder hi
    have hr := (link_isRing haddr horder m hslot).iterate_length k hk
    rwa [hline,hlen] at hr

/-- Any do-while walk along one slot, from any line back to it, takes one trip per line. -/
theorem walk_trips {σ : Type*} (m : Memory) {slot i : ℕ} (hslot : slot < slotCount)
    (hi : i < lines) (position : σ → ℕ) (body : σ → σ)
    (hbody : ∀ s, position (body s) = nexts (link storage m order) slot (position s)) (s : σ)
    (hs : position s = lineAt storage i) (fuel : ℕ) (hfuel : lines ≤ fuel) :
    doWhile (fun s => some (body s)) (fun s => decide (position s ≠ lineAt storage i)) fuel s =
      some (body^[lines] s,lines) := by
  obtain ⟨k,hk,hline⟩ := position_of_line horder hi
  have hlen : (order.map (lineAt storage)).length = lines := by
    rw [List.length_map,horder.length_eq,List.length_range]
  have h := (link_isRing haddr horder m hslot).doWhile_turn (order_nodup haddr horder) k hk
    position body hbody (fun s => decide (position s ≠ lineAt storage i))
    (fun s => by rw [decide_eq_true_iff,hline]) s (hs.trans hline.symm) fuel (by omega)
  rwa [hlen] at h

theorem countLoop_trips (m : Memory) {i : ℕ} (hi : i < lines) (fuel : ℕ) (hfuel : lines ≤ fuel) :
    ∃ s, countLoop (link storage m order) (lineAt storage i) fuel = some (s,lines) ∧
      s.2 = lines := by
  have hcounter : ∀ j, ((fun s : ℕ × ℕ => (nexts (link storage m order) 0 s.1,s.2+1))^[j]
      (lineAt storage i,0)).2 = j := by
    intro j
    induction j with
    | zero => rfl
    | succ j ih => rw [Function.iterate_succ_apply',ih]
  exact ⟨_,walk_trips haddr horder m (by decide) hi Prod.fst
    (fun s => (nexts (link storage m order) 0 s.1,s.2+1)) (fun _ => rfl) _ rfl fuel hfuel,
    hcounter lines⟩

theorem count_eq (m : Memory) {i : ℕ} (hi : i < lines) (fuel : ℕ) (hfuel : lines ≤ fuel) :
    count (link storage m order) (lineAt storage i) fuel = some lines := by
  obtain ⟨s,hrun,hs⟩ := countLoop_trips haddr horder m hi fuel hfuel
  rw [count,hrun,Option.map_some,hs]

theorem sumlistLoop_trips (m : Memory) {i : ℕ} (hi : i < lines) (fuel : ℕ)
    (hfuel : lines ≤ fuel) :
    ∃ s, sumlistLoop (link storage m order) (lineAt storage i) fuel = some (s,lines) :=
  ⟨_,walk_trips haddr horder m (by decide) hi Prod.fst
    (fun s => (nexts (link storage m order) 1 s.1,
      s.2+toInt32 ((link storage m order).load s.1 4)))
    (fun _ => rfl) _ rfl fuel hfuel⟩

end Addressable

/-- The builder writes inside the region only. -/
theorem build_outside (shuffle : List ℕ → List ℕ) {storage size x : ℕ} (m : Memory)
    (hsize : size%cacheLineSize = 0) (haddr : storage+size ≤ addressSpace)
    (hshuffle : (shuffle (List.range (size/cacheLineSize))).Perm
      (List.range (size/cacheLineSize))) (hx : x < storage ∨ storage+size ≤ x) :
    build shuffle storage size m x = m x := by
  have hmul : cacheLineSize*(size/cacheLineSize) = size :=
    Nat.mul_div_cancel' (Nat.dvd_of_mod_eq_zero hsize)
  rw [build,link_outside (by rwa [hmul]) hshuffle _ (by rwa [hmul])]
  exact Memory.fill_outside m storage size 255 x hx

section Permuting
variable {shuffle : List ℕ → List ℕ} {storage size : ℕ} (hsize : size%cacheLineSize = 0)
  (haddr : storage+size ≤ addressSpace)
  (hshuffle : (shuffle (List.range (size/cacheLineSize))).Perm (List.range (size/cacheLineSize)))
include hsize haddr hshuffle

theorem build_singleCycle (m : Memory) :
    SingleCycle (build shuffle storage size m) storage (size/cacheLineSize) := by
  have hmul : cacheLineSize*(size/cacheLineSize) = size :=
    Nat.mul_div_cancel' (Nat.dvd_of_mod_eq_zero hsize)
  exact link_singleCycle (by rwa [hmul]) hshuffle _

theorem count_build (hlines : 1 ≤ size/cacheLineSize) (m : Memory) {fuel : ℕ}
    (hfuel : size/cacheLineSize ≤ fuel) :
    count (build shuffle storage size m) storage fuel = some (size/cacheLineSize) := by
  have hmul : cacheLineSize*(size/cacheLineSize) = size :=
    Nat.mul_div_cancel' (Nat.dvd_of_mod_eq_zero hsize)
  have haddr' : storage+cacheLineSize*(size/cacheLineSize) ≤ addressSpace := by rwa [hmul]
  have hcount := count_eq haddr' hshuffle (m.fill storage size 255) hlines fuel hfuel
  rwa [lineAt_eq haddr' hlines,Nat.mul_zero,Nat.add_zero] at hcount

end Permuting

/-- With its assertions met the call returns. -/
theorem shuffledRegion_returns {shuffle : List ℕ → List ℕ} {storageBase size offset : ℕ}
    (hmax : (size+offset)%addressSpace ≤ maxShuffledRegionSize)
    (hsize : size%cacheLineSize = 0) (hlines : 1 ≤ size/cacheLineSize)
    (haddr : (storageBase+offset)%addressSpace+size ≤ addressSpace)
    (hshuffle : (shuffle (List.range (size/cacheLineSize))).Perm
      (List.range (size/cacheLineSize))) (m : Memory) {fuel : ℕ}
    (hfuel : size/cacheLineSize ≤ fuel) :
    shuffledRegion shuffle storageBase size offset m fuel =
      .ok (⟨size,(storageBase+offset)%addressSpace⟩,
        build shuffle ((storageBase+offset)%addressSpace) size m) := by
  have hcount := count_build hsize haddr hshuffle hlines m hfuel
  simp only [shuffledRegion,hmax,hsize,not_true_eq_false,↓reduceIte]
  rw [if_neg (by omega),hcount]
  exact if_pos rfl

/-- For every shuffle that permutes, the region is a single cycle through all of its lines;
`count` and `sumlist` make one trip per line, and only the size limit can stop the call. -/
theorem shuffledRegion_single_cycle (shuffle : List ℕ → List ℕ) (storageBase size offset : ℕ)
    (m : Memory) (hsize : size%cacheLineSize = 0) (hlines : 1 ≤ size/cacheLineSize)
    (haddr : (storageBase+offset)%addressSpace+size ≤ addressSpace)
    (hshuffle : (shuffle (List.range (size/cacheLineSize))).Perm
      (List.range (size/cacheLineSize))) :
    let lines := size/cacheLineSize
    let storage := (storageBase+offset)%addressSpace
    let built := build shuffle storage size m
    SingleCycle built storage lines ∧
    ∀ fuel, lines ≤ fuel →
      (countLoop built storage fuel).map Prod.snd = some lines ∧
      count built storage fuel = some lines ∧
      (sumlistLoop built storage fuel).map Prod.snd = some lines ∧
      shuffledRegion shuffle storageBase size offset m fuel =
        if (size+offset)%addressSpace ≤ maxShuffledRegionSize then .ok (⟨size,storage⟩,built)
        else .error (.assertion "size + offset <= MAX_SHUFFLED_REGION_SIZE") := by
  intro lines storage built
  have hmul : cacheLineSize*lines = size := Nat.mul_div_cancel' (Nat.dvd_of_mod_eq_zero hsize)
  have haddr' : storage+cacheLineSize*lines ≤ addressSpace := by rw [hmul]; exact haddr
  have hfirst : lineAt storage 0 = storage := by
    rw [lineAt_eq haddr' hlines,Nat.mul_zero,Nat.add_zero]
  refine ⟨build_singleCycle hsize haddr hshuffle m,fun fuel hfuel => ?_⟩
  obtain ⟨s,hs,-⟩ := countLoop_trips haddr' hshuffle (m.fill storage size 255) hlines fuel hfuel
  obtain ⟨t,ht⟩ := sumlistLoop_trips haddr' hshuffle (m.fill storage size 255) hlines fuel hfuel
  have hcount := count_build hsize haddr hshuffle hlines m hfuel
  rw [hfirst] at hs ht
  refine ⟨congrArg (Option.map Prod.snd) hs,hcount,congrArg (Option.map Prod.snd) ht,?_⟩
  by_cases hmax : (size+offset)%addressSpace ≤ maxShuffledRegionSize
  · rw [if_pos hmax]
    exact shuffledRegion_returns hmax hsize hlines haddr hshuffle m hfuel
  · simp only [shuffledRegion,hmax,not_false_eq_true,↓reduceIte]

/-- Three lines at an offset of one line, shuffled into the reverse order. -/
theorem shuffledRegion_three_lines :
    SingleCycle (build List.reverse 4160 192 (fun _ => 0)) 4160 3 ∧
    shuffledRegion List.reverse 4096 192 64 (fun _ => 0) 3 =
      .ok (⟨192,4160⟩,build List.reverse 4160 192 (fun _ => 0)) := by
  have h := shuffledRegion_single_cycle List.reverse 4096 192 64 (fun _ => 0) (by decide)
    (by decide) (by decide) (List.reverse_perm _)
  have hrun := (h.2 3 (by decide)).2.2.2
  rw [if_pos (by decide)] at hrun
  exact ⟨h.1,hrun⟩

end ShuffledRegion
end UarchBench
