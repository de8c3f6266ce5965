import UarchBench.Memory.AddIndirect
import UarchBench.Base.Loop
import UarchBench.Base.Stride
import Mathlib.Algebra.Order.Ring.Nat

/-! Products of an array in 32 bits: with one factor after the other, and with four accumulators
that each take every fourth factor. -/
namespace UarchBench.MulChain
open Base AddIndirect

/-- The product that a function returns, with the addresses of the elements it has read. -/
structure Outcome where
  product : UInt32
  reads : List ℕ
  deriving DecidableEq

/-- The locals of `mul_chain`. -/
structure Chain where
  i : UInt64
  product : UInt32
  reads : List ℕ

def chainTrip (m : Memory) (data : ℕ) (s : Chain) : Chain where
  i := s.i+1
  product := s.product*UInt32.ofNat (element m data s.i.toNat)
  reads := s.reads ++ [elementAt data s.i.toNat]

/-- `mul_chain`. -/
def mulChain (m : Memory) (data : ℕ) (len : UInt64) (fuel : ℕ) : Option Outcome :=
  (whileLoop (fun s : Chain => decide (s.i < len)) (chainTrip m data) fuel ⟨0,1,[]⟩).map
    (fun s => ⟨s.product,s.reads⟩)

/-- The locals of `mul_chain4`. -/
structure Chain4 where
  i : UInt64
  p1 : UInt32
  p2 : UInt32
  p3 : UInt32
  p4 : UInt32
  reads : List ℕ

def chain4Trip (m : Memory) (data : ℕ) (s : Chain4) : Chain4 where
  i := s.i+4
  p1 := s.p1*UInt32.ofNat (element m data (s.i+0).toNat)
  p2 := s.p2*UInt32.ofNat (element m data (s.i+1).toNat)
  p3 := s.p3*UInt32.ofNat (element m data (s.i+2).toNat)
  p4 := s.p4*UInt32.ofNat (element m data (s.i+3).toNat)
  reads := s.reads ++ [elementAt data (s.i+0).toNat,elementAt data (s.i+1).toNat,
    elementAt data (s.i+2).toNat,elementAt data (s.i+3).toNat]

/-- `mul_chain4`. -/
def mulChain4 (m : Memory) (data : ℕ) (len : UInt64) (fuel : ℕ) : Option Outcome :=
  (whileLoop (fun s : Chain4 => decide (s.i < len)) (chain4Trip m data) fuel
    ⟨0,1,1,1,1,[]⟩).map (fun s => ⟨s.p1*s.p2*s.p3*s.p4,s.reads⟩)

section Product
variable (m : Memory) (data : ℕ)

/-- The product of the first elements. -/
def product (n : ℕ) : UInt32 := UInt32.ofNat ((List.range n).map (element m data)).prod

/-- The addresses of the first elements. -/
def readsBelow (n : ℕ) : List ℕ := (List.range n).map (elementAt data)

lemma product_succ (n : ℕ) :
    product m data (n+1) = product m data n*UInt32.ofNat (element m data n) := by
  rw [product,product,List.range_succ,List.map_append,List.prod_append,List.map_singleton,
    List.prod_singleton,UInt32.ofNat_mul]

lemma readsBelow_succ (n : ℕ) :
    readsBelow data (n+1) = readsBelow data n ++ [elementAt data n] := by
  rw [readsBelow,readsBelow,List.range_succ,List.map_append,List.map_singleton]

end Product

section Loops
variable {m : Memory} {data : ℕ} {len : UInt64}

lemma toNat_add_of_lt {i k : UInt64} (h : i.toNat+k.toNat < 2^64) :
    (i+k).toNat = i.toNat+k.toNat := by
  rw [UInt64.toNat_add,Nat.mod_eq_of_lt h]

lemma toNat_eq_of_stop {i : UInt64} (hle : i.toNat ≤ len.toNat)
    (hstop : decide (i < len) = false) : i.toNat = len.toNat := by
  have hge := of_decide_eq_false hstop
  rw [UInt64.lt_iff_toNat_lt] at hge
  omega

/-- The elements below the index are the factors of the product. -/
structure Multiplied (m : Memory) (data : ℕ) (len : UInt64) (i : UInt64) (p : UInt32)
    (reads : List ℕ) : Prop where
  bound : i.toNat ≤ len.toNat
  product : p = product m data i.toNat
  reads : reads = readsBelow data i.toNat

lemma chainTrip_multiplied {s : Chain} (hs : Multiplied m data len s.i s.product s.reads)
    (hlt : s.i < len) :
    Multiplied m data len (chainTrip m data s).i (chainTrip m data s).product
        (chainTrip m data s).reads ∧ (chainTrip m data s).i.toNat = s.i.toNat+1 := by
  obtain ⟨-,hproduct,hreads⟩ := hs
  have hlt' : s.i.toNat < len.toNat := UInt64.lt_iff_toNat_lt.mp hlt
  have hlen := len.toNat_lt
  have hnext : (s.i+1).toNat = s.i.toNat+1 := toNat_add_of_lt (show s.i.toNat+1 < 2^64 by omega)
  refine ⟨⟨?_,?_,?_⟩,hnext⟩
  · rw [chainTrip,hnext]
    exact hlt'
  · rw [chainTrip,hnext,product_succ,hproduct]
  · rw [chainTrip,hnext,readsBelow_succ,hreads]

/-- The accumulators together have the factors of the single one. -/
lemma chain4Trip_multiplied (hfour : len.toNat%4 = 0) {s : Chain4}
    (hs : Multiplied m data len s.i (s.p1*s.p2*s.p3*s.p4) s.reads) (hi : s.i.toNat%4 = 0)
    (hlt : s.i < len) :
    Multiplied m data len (chain4Trip m data s).i ((chain4Trip m data s).p1*
        (chain4Trip m data s).p2*(chain4Trip m data s).p3*(chain4Trip m data s).p4)
        (chain4Trip m data s).reads ∧
      (chain4Trip m data s).i.toNat = s.i.toNat+4 := by
  obtain ⟨-,hproduct,hreads⟩ := hs
  have hlt' : s.i.toNat < len.toNat := UInt64.lt_iff_toNat_lt.mp hlt
  have hlen := len.toNat_lt
  have hnext : ∀ k : UInt64, k.toNat ≤ 4 → (s.i+k).toNat = s.i.toNat+k.toNat := fun k hk =>
    toNat_add_of_lt (by omega)
  have h0 := hnext 0 (by decide)
  have h1 := hnext 1 (by decide)
  have h2 := hnext 2 (by decide)
  have h3 := hnext 3 (by decide)
  have h4 := hnext 4 (by decide)
  refine ⟨⟨?_,?_,?_⟩,h4⟩
  · rw [chain4Trip,h4]
    change s.i.toNat+4 ≤ len.toNat
    omega
  · have hfactors : product m data (s.i.toNat+4) = s.p1*s.p2*s.p3*s.p4*
        UInt32.ofNat (element m data s.i.toNat)*UInt32.ofNat (element m data (s.i.toNat+1))*
        UInt32.ofNat (element m data (s.i.toNat+2))*
        UInt32.ofNat (element m data (s.i.toNat+3)) := by
      rw [product_succ,product_succ,product_succ,product_succ,hproduct]
    rw [chain4Trip,h4]
    change _ = product m data (s.i.toNat+4)
    rw [hfactors,h0,h1,h2,h3]
    change s.p1*UInt32.ofNat (element m data s.i.toNat)*
      (s.p2*UInt32.ofNat (element m data (s.i.toNat+1)))*
      (s.p3*UInt32.ofNat (element m data (s.i.toNat+2)))*
      (s.p4*UInt32.ofNat (element m data (s.i.toNat+3))) = _
    ac_rfl
  · rw [chain4Trip,h4,h0,h1,h2,h3]
    change _ = readsBelow data (s.i.toNat+4)
    rw [readsBelow_succ,readsBelow_succ,readsBelow_succ,readsBelow_succ,hreads]
    simp only [List.append_assoc,List.singleton_append]
    rfl

/-- A loop that keeps the product of the elements below its index ends with the product of all. -/
lemma whileLoop_multiplied {σ : Type} {i : σ → UInt64} {p : σ → UInt32} {reads : σ → List ℕ}
    {trip : σ → σ} (inv : σ → Prop)
    (htrip : ∀ s, inv s → Multiplied m data len (i s) (p s) (reads s) → i s < len →
      inv (trip s) ∧ Multiplied m data len (i (trip s)) (p (trip s)) (reads (trip s)) ∧
        (i s).toNat < (i (trip s)).toNat)
    {s : σ} (hinv : inv s) (hs : Multiplied m data len (i s) (p s) (reads s)) {fuel : ℕ}
    (hfuel : len.toNat < fuel) :
    ∃ t, whileLoop (fun s => decide (i s < len)) trip fuel s = some t ∧
      p t = product m data len.toNat ∧ reads t = readsBelow data len.toNat := by
  obtain ⟨t,ht,⟨-,hbound,hproduct,hreads⟩,hstop⟩ := whileLoop_rule
    (fun s => inv s ∧ Multiplied m data len (i s) (p s) (reads s))
    (fun s => len.toNat-(i s).toNat)
    (fun s hs hcond => by
      have hlt : i s < len := of_decide_eq_true hcond
      have hlt' := UInt64.lt_iff_toNat_lt.mp hlt
      obtain ⟨hinv,hnext,hi⟩ := htrip s hs.1 hs.2 hlt
      exact ⟨⟨hinv,hnext⟩,by omega⟩)
    ⟨hinv,hs⟩ (lt_of_le_of_lt (Nat.sub_le _ _) hfuel)
  rw [toNat_eq_of_stop hbound hstop] at hproduct hreads
  exact ⟨t,ht,hproduct,hreads⟩

lemma mulChain_eq (m : Memory) (data : ℕ) (len : UInt64) {fuel : ℕ} (hfuel : len.toNat < fuel) :
    mulChain m data len fuel = some ⟨product m data len.toNat,readsBelow data len.toNat⟩ := by
  have hstart : Multiplied m data len 0 1 [] := ⟨Nat.zero_le _,rfl,rfl⟩
  obtain ⟨s,hs,hproduct,hreads⟩ := whileLoop_multiplied (i := Chain.i) (p := Chain.product)
    (fun _ => True) (fun s _ hs hlt => by
      obtain ⟨hnext,hi⟩ := chainTrip_multiplied hs hlt
      exact ⟨trivial,hnext,by omega⟩) (s := ⟨0,1,[]⟩) trivial hstart hfuel
  rw [mulChain,hs,Option.map_some,hproduct,hreads]

lemma mulChain4_eq (m : Memory) (data : ℕ) {len : UInt64} (hfour : len.toNat%4 = 0) {fuel : ℕ}
    (hfuel : len.toNat < fuel) :
    mulChain4 m data len fuel = some ⟨product m data len.toNat,readsBelow data len.toNat⟩ := by
  have hstart : Multiplied m data len 0 1 [] := ⟨Nat.zero_le _,rfl,rfl⟩
  obtain ⟨s,hs,hproduct,hreads⟩ := whileLoop_multiplied (i := Chain4.i)
    (p := fun s => s.p1*s.p2*s.p3*s.p4) (fun s => s.i.toNat%4 = 0) (fun s hi hs hlt => by
      obtain ⟨hnext,hi'⟩ := chain4Trip_multiplied hfour hs hi hlt
      exact ⟨by omega,hnext,by omega⟩) (s := ⟨0,1,1,1,1,[]⟩) rfl hstart hfuel
  rw [mulChain4,hs,Option.map_some,hproduct,hreads]

end Loops

/-- Both functions return the product of all elements in 32 bits, and the one with four accumulators
reads each of them once and nothing else. -/
theorem mulChain4_agrees (m : Memory) (data : ℕ) (len : UInt64) (hfour : len%4 = 0)
    (hspace : data+4*len.toNat ≤ addressSpace) :
    ∀ fuel, len.toNat < fuel → ∃ plain four,
      mulChain m data len fuel = some plain ∧ mulChain4 m data len fuel = some four ∧
      plain.product = four.product ∧
      four.product = UInt32.ofNat ((List.range len.toNat).map (element m data)).prod ∧
      (∀ j < len.toNat, four.reads.count (data+4*j) = 1) ∧
      ∀ address ∈ four.reads, ∃ j < len.toNat, address = data+4*j := by
  intro fuel hfuel
  have hfour' : len.toNat%4 = 0 := congrArg UInt64.toNat hfour
  have hreads : readsBelow data len.toNat = (List.range len.toNat).map (fun j => data+4*j) :=
    List.map_congr_left (fun j hj => Nat.mod_eq_of_lt (by
      have hlt := List.mem_range.mp hj
      omega))
  have hinj : Function.Injective (fun j => data+4*j) := by
    intro i j h
    dsimp only at h
    omega
  refine ⟨_,_,mulChain_eq m data len hfuel,mulChain4_eq m data hfour' hfuel,rfl,rfl,
    fun j hj => ?_,fun address ha => ?_⟩
  · dsimp only
    rw [hreads]
    exact count_map_range hinj hj
  · dsimp only at ha
    rw [hreads] at ha
    obtain ⟨j,hj,rfl⟩ := List.mem_map.mp ha
    exact ⟨j,List.mem_range.mp hj,rfl⟩

/-- Eight words, whose product does not fit 32 bits. -/
theorem mulChain4_agrees_eight : ∃ plain four,
    mulChain (fun _ => 7) 4096 8 9 = some plain ∧ mulChain4 (fun _ => 7) 4096 8 9 = some four ∧
      plain.product = four.product ∧ ∀ j < 8, four.reads.count (4096+4*j) = 1 := by
  obtain ⟨plain,four,hplain,hfour,hproduct,-,hcount,-⟩ :=
    mulChain4_agrees (fun _ => 7) 4096 8 (by decide) (by decide) 9 (by decide)
  exact ⟨plain,four,hplain,hfour,hproduct,hcount⟩

end UarchBench.MulChain
