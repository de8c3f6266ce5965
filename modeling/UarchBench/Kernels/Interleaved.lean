import UarchBench.Base.Countdown
import UarchBench.Kernels.Bandwidth

/-! The 256-bit read kernels that are compared with each other: one that walks the lines in
order, one that reads all first halves before all second halves, and three software-pipelined
ones, with a lead-in, a main loop that reads first halves ahead, and a lead-out. -/
namespace UarchBench.Interleaved
open Base Bandwidth

/-- One pass over the region: the byte offsets from `rcx` of its 32-byte reads. -/
structure PassShape where
  benchName : String
  /-- What is taken off `rax` before the main loop. -/
  reduced : ℕ
  leadIn : List ℕ
  inner : List ℕ
  advance : ℕ
  leadOut : List ℕ

/-- The offsets of `%rep count` with `offset` growing by `size`. -/
def offsets (size count : ℕ) : List ℕ := rep (fun offset => offset+size) count 0

/-- `bandwidth_test256`: the halves of each line in order. -/
def bandwidthTest256 (UNROLLB : ℕ) : PassShape where
  benchName := "bandwidth_test256"
  reduced := 0
  leadIn := []
  inner := (offsets 64 UNROLLB).flatMap (fun offset => [offset,offset+32])
  advance := UNROLLB*64
  leadOut := []

/-- `bandwidth_test256i_orig`: the first halves of a block of lines, then the second ones. -/
def bandwidthTest256iOrig (UNROLLB : ℕ) : PassShape where
  benchName := "bandwidth_test256i_orig"
  reduced := 0
  leadIn := []
  inner := offsets 64 UNROLLB ++ rep (fun offset => offset+64) UNROLLB 32
  advance := UNROLLB*64
  leadOut := []

/-- `bandwidth_test256i`: a block of first halves ahead, then a block of second halves. -/
def bandwidthTest256i (UNROLLB UNROLLX : ℕ) : PassShape where
  benchName := "bandwidth_test256i"
  reduced := UNROLLB*64
  leadIn := offsets 64 UNROLLB
  inner := (offsets 64 UNROLLX).map (fun offset => offset+UNROLLB*64) ++
    (offsets 64 UNROLLX).map (fun offset => offset+32)
  advance := UNROLLX*64
  leadOut := offsets 64 UNROLLB

/-- `bandwidth_test256i_single`: a first half ahead and a second half in turn. -/
def bandwidthTest256iSingle (UNROLLB UNROLLX : ℕ) : PassShape where
  benchName := "bandwidth_test256i_single"
  reduced := UNROLLB*64
  leadIn := offsets 64 UNROLLB
  inner := (offsets 64 UNROLLX).flatMap (fun offset => [offset+UNROLLB*64,offset+32])
  advance := UNROLLX*64
  leadOut := offsets 64 UNROLLB

/-- `bandwidth_test256i_double`: two first halves ahead and two second halves in turn. -/
def bandwidthTest256iDouble (UNROLLB UNROLLX : ℕ) : PassShape where
  benchName := "bandwidth_test256i_double"
  reduced := UNROLLB*64
  leadIn := offsets 64 UNROLLB
  inner := (offsets 128 UNROLLX).flatMap
    (fun offset => [offset+UNROLLB*64,offset+UNROLLB*64+64,offset+32,offset+96])
  advance := 2*UNROLLX*64
  leadOut := offsets 64 UNROLLB

inductive Variant
  | plain
  | iOrig
  | i
  | iSingle
  | iDouble
  deriving DecidableEq, Repr

def Variant.shape (UNROLLB UNROLLX : ℕ) : Variant → PassShape
  | plain => bandwidthTest256 UNROLLB
  | iOrig => bandwidthTest256iOrig UNROLLB
  | i => bandwidthTest256i UNROLLB UNROLLX
  | iSingle => bandwidthTest256iSingle UNROLLB UNROLLX
  | iDouble => bandwidthTest256iDouble UNROLLB UNROLLX

/-- Each variant has a label of its own. -/
theorem benchName_injective (UNROLLB UNROLLX : ℕ) :
    Function.Injective (fun V : Variant => (V.shape UNROLLB UNROLLX).benchName) := by
  intro V W h
  cases V <;> cases W <;> simp [Variant.shape,bandwidthTest256,bandwidthTest256iOrig,
    bandwidthTest256i,bandwidthTest256iSingle,bandwidthTest256iDouble] at h ⊢

/-- The addresses of the repeated reads. -/
def readsAt (offs : List ℕ) (rcx : Word) : List Word :=
  offs.map (fun offset => rcx+BitVec.ofNat 64 offset)

structure Inner where
  rax : Word
  rcx : Word
  flags : Flags
  reads : List Word

/-- One trip of `.inner`: the reads, `add rcx` and `sub rax`. -/
def innerBody (P : PassShape) (s : Inner) : Inner where
  rax := s.rax-BitVec.ofNat 64 P.advance
  rcx := s.rcx+BitVec.ofNat 64 P.advance
  flags := subFlags s.rax (BitVec.ofNat 64 P.advance)
  reads := s.reads ++ readsAt P.inner s.rcx

def entry (P : PassShape) (size start : Word) (flags : Flags) : Inner where
  rax := size-BitVec.ofNat 64 P.reduced
  rcx := start
  flags := flags
  reads := readsAt P.leadIn start

/-- One trip of `.top` up to `dec rdi`: the addresses of all reads, in order. -/
def pass (P : PassShape) (size start : Word) (flags : Flags) (fuel : ℕ) : Option (List Word) :=
  (doWhile (fun s => some (innerBody P s)) (fun s => s.flags.jge) fuel
    (entry P size start flags)).map (fun r => r.1.reads ++ readsAt P.leadOut r.1.rcx)

lemma mem_offsets {size count offset : ℕ} :
    offset ∈ offsets size count ↔ ∃ j < count, offset = size*j := by
  rw [offsets,mem_rep_add]
  simp only [Nat.zero_add]

/-- `rcx` before trip `k`, counted from zero. -/
def rcxAt (P : PassShape) (start : Word) (k : ℕ) : Word := start+BitVec.ofNat 64 (P.advance*k)

/-- The reads of a pass whose main loop makes the given number of trips. -/
def passReads (P : PassShape) (start : Word) (trips : ℕ) : List Word :=
  readsAt P.leadIn start ++
    (List.range trips).flatMap (fun k => readsAt P.inner (rcxAt P start k)) ++
    readsAt P.leadOut (rcxAt P start trips)

lemma iterate_rcx (P : PassShape) (s : Inner) (k : ℕ) :
    ((innerBody P)^[k] s).rcx = rcxAt P s.rcx k := by
  induction k with
  | zero => simp [rcxAt]
  | succ k ih =>
    rw [Function.iterate_succ_apply',innerBody,ih,rcxAt,rcxAt,Nat.mul_succ,BitVec.ofNat_add,
      BitVec.add_assoc]

lemma iterate_reads (P : PassShape) (s : Inner) (k : ℕ) :
    ((innerBody P)^[k] s).reads =
      s.reads ++ (List.range k).flatMap (fun j => readsAt P.inner (rcxAt P s.rcx j)) := by
  induction k with
  | zero => simp
  | succ k ih =>
    rw [Function.iterate_succ_apply',innerBody,ih,iterate_rcx,List.range_succ,
      List.flatMap_append,List.append_assoc]
    simp

/-- A finished pass reads what some number of trips reads. -/
theorem pass_result {P : PassShape} {size start : Word} {flags : Flags} {fuel : ℕ}
    {reads : List Word} (h : pass P size start flags fuel = some reads) :
    ∃ trips, reads = passReads P start trips := by
  obtain ⟨⟨t,trips⟩,hrun,rfl⟩ := Option.map_eq_some_iff.mp h
  refine ⟨trips,?_⟩
  rw [doWhile_result hrun,iterate_reads,iterate_rcx]
  rfl

lemma pass_mono {P : PassShape} {size start : Word} {flags : Flags} {fuel fuel' : ℕ}
    (hle : fuel ≤ fuel') {reads : List Word} (h : pass P size start flags fuel = some reads) :
    pass P size start flags fuel' = some reads := by
  obtain ⟨r,hrun,hreads⟩ := Option.map_eq_some_iff.mp h
  exact Option.map_eq_some_iff.mpr ⟨r,doWhile_mono hle hrun,hreads⟩

/-- The trip count of the main loop. -/
theorem pass_trips (P : PassShape) (size start : Word) (flags : Flags) (fuel : ℕ)
    (hadvance : 0 < (BitVec.ofNat 64 P.advance).toInt)
    (hfuel : subTrips (size-BitVec.ofNat 64 P.reduced) (BitVec.ofNat 64 P.advance) ≤ fuel) :
    pass P size start flags fuel =
      some (passReads P start
        (subTrips (size-BitVec.ofNat 64 P.reduced) (BitVec.ofNat 64 P.advance))) := by
  have hloop : doWhile (fun s => some (innerBody P s)) (fun s => s.flags.jge) fuel
      (entry P size start flags) = _ :=
    doWhile_sub Inner.rax hadvance (fun _ => rfl) (fun _ => rfl) _ fuel hfuel
  rw [pass,hloop,Option.map_some,iterate_reads,iterate_rcx]
  rfl

/-- The 32-byte half lines of the region, numbered from its start. -/
def half (start : Word) (h : ℕ) : Word := start+BitVec.ofNat 64 (32*h)

/-- A correct pass stays inside the region and reads each of its halves exactly once. -/
structure ReadsHalvesOnce (start : Word) (lines : ℕ) (reads : List Word) : Prop where
  within : ∀ a ∈ reads, start.toNat ≤ a.toNat ∧ a.toNat+32 ≤ start.toNat+64*lines
  once : ∀ h < 2*lines, reads.count (half start h) = 1

/-- A half that is read twice makes a pass wrong wherever it lies. -/
theorem not_once_of_repeated {start : Word} {lines : ℕ} {reads : List Word} (h : ℕ)
    (hrepeated : 2 ≤ reads.count (half start h)) : ¬ ReadsHalvesOnce start lines reads := by
  intro hcorrect
  have hlt := start.isLt
  have haddr : (half start h).toNat = (start.toNat+32*h)%2^64 := by
    rw [half,BitVec.toNat_add,BitVec.toNat_ofNat,Nat.add_mod_mod]
  obtain ⟨hstart,hend⟩ :=
    hcorrect.within (half start h) (List.count_pos_iff.mp (by omega))
  rw [haddr] at hstart hend
  obtain ⟨h',hh'⟩ : ∃ h', (start.toNat+32*h)%2^64 = start.toNat+32*h' :=
    ⟨((start.toNat+32*h)%2^64-start.toNat)/32,by omega⟩
  have hsame : half start h' = half start h := by
    apply BitVec.eq_of_toNat_eq
    rw [haddr,hh',half,BitVec.toNat_add,BitVec.toNat_ofNat]
    omega
  have hone := hcorrect.once h' (by omega)
  rw [hsame] at hone
  omega

lemma two_le_count_append {a : Word} {front back : List Word} (hfront : a ∈ front)
    (hback : a ∈ back) : 2 ≤ (front ++ back).count a := by
  have hf := List.count_pos_iff.mpr hfront
  have hb := List.count_pos_iff.mpr hback
  rw [List.count_append]
  omega

/-- The lead-in reads the first halves of `ahead` lines, a trip those of the next `lines` lines
at that distance, and the lead-out begins with the first half of the line at `rcx`. -/
structure Pipelined (P : PassShape) (ahead lines : ℕ) : Prop where
  leadIn : ∀ j < ahead, 64*j ∈ P.leadIn
  inner : ∀ j < lines, 64*(ahead+j) ∈ P.inner
  advance : P.advance = 64*lines
  leadOut : 0 ∈ P.leadOut

lemma readsAt_offset {offs : List ℕ} {offset : ℕ} (P : PassShape) (start : Word) (k : ℕ)
    (h : offset ∈ offs) :
    start+BitVec.ofNat 64 (P.advance*k+offset) ∈ readsAt offs (rcxAt P start k) := by
  refine List.mem_map.mpr ⟨offset,h,?_⟩
  rw [rcxAt,BitVec.ofNat_add,BitVec.add_assoc]

/-- The first line of the lead-out was read before: by the lead-in or in an earlier trip. -/
lemma Pipelined.read_before {P : PassShape} {ahead lines : ℕ} (hP : Pipelined P ahead lines)
    (hpos : 0 < ahead) (hlines : 0 < lines) (start : Word) (trips : ℕ) :
    start+BitVec.ofNat 64 (P.advance*trips) ∈
      readsAt P.leadIn start ++
        (List.range trips).flatMap (fun k => readsAt P.inner (rcxAt P start k)) := by
  rw [hP.advance,Nat.mul_assoc]
  by_cases hahead : lines*trips < ahead
  · exact List.mem_append_left _ (List.mem_map.mpr ⟨_,hP.leadIn _ hahead,rfl⟩)
  · obtain ⟨m,hm⟩ : ∃ m, lines*trips = ahead+m := ⟨lines*trips-ahead,by omega⟩
    have hsplit := Nat.div_add_mod m lines
    refine List.mem_append_right _ (List.mem_flatMap.mpr ⟨m/lines,List.mem_range.mpr ?_,?_⟩)
    · exact Nat.div_lt_of_lt_mul (by omega)
    · have hmem := readsAt_offset P start (m/lines) (hP.inner _ (Nat.mod_lt m hlines))
      rwa [hP.advance,Nat.mul_assoc,← Nat.mul_add,Nat.add_left_comm,hsplit,← hm] at hmem

theorem Pipelined.repeats {P : PassShape} {ahead lines : ℕ} (hP : Pipelined P ahead lines)
    (hpos : 0 < ahead) (hlines : 0 < lines) (start : Word) (trips : ℕ) :
    2 ≤ (passReads P start trips).count (half start (2*(lines*trips))) := by
  have hhalf : half start (2*(lines*trips)) = start+BitVec.ofNat 64 (P.advance*trips) := by
    rw [half,hP.advance,← Nat.mul_assoc,← Nat.mul_assoc]
  rw [hhalf]
  exact two_le_count_append (hP.read_before hpos hlines start trips)
    (readsAt_offset P start trips hP.leadOut)

lemma zero_mem_offsets {size count : ℕ} (h : 0 < count) : 0 ∈ offsets size count :=
  mem_offsets.mpr ⟨0,h,rfl⟩

lemma bandwidthTest256i_pipelined {UNROLLB : ℕ} (UNROLLX : ℕ) (hB : 0 < UNROLLB) :
    Pipelined (bandwidthTest256i UNROLLB UNROLLX) UNROLLB UNROLLX where
  leadIn := fun j hj => mem_offsets.mpr ⟨j,hj,rfl⟩
  inner := fun j hj => List.mem_append_left _
    (List.mem_map.mpr ⟨64*j,mem_offsets.mpr ⟨j,hj,rfl⟩,by omega⟩)
  advance := Nat.mul_comm _ _
  leadOut := zero_mem_offsets hB

lemma bandwidthTest256iSingle_pipelined {UNROLLB : ℕ} (UNROLLX : ℕ) (hB : 0 < UNROLLB) :
    Pipelined (bandwidthTest256iSingle UNROLLB UNROLLX) UNROLLB UNROLLX where
  leadIn := fun j hj => mem_offsets.mpr ⟨j,hj,rfl⟩
  inner := fun j hj => List.mem_flatMap.mpr ⟨64*j,mem_offsets.mpr ⟨j,hj,rfl⟩,
    List.mem_cons.mpr (.inl (by omega))⟩
  advance := Nat.mul_comm _ _
  leadOut := zero_mem_offsets hB

/-- A repetition reads two lines ahead, so a trip covers twice as many. -/
lemma bandwidthTest256iDouble_pipelined {UNROLLB : ℕ} (UNROLLX : ℕ) (hB : 0 < UNROLLB) :
    Pipelined (bandwidthTest256iDouble UNROLLB UNROLLX) UNROLLB (2*UNROLLX) where
  leadIn := fun j hj => mem_offsets.mpr ⟨j,hj,rfl⟩
  inner := fun j hj => by
    refine List.mem_flatMap.mpr ⟨128*(j/2),mem_offsets.mpr ⟨j/2,by omega,rfl⟩,?_⟩
    rcases Nat.mod_two_eq_zero_or_one j with hj | hj
    · exact List.mem_cons.mpr (.inl (by omega))
    · exact List.mem_cons_of_mem _ (List.mem_cons.mpr (.inl (by omega)))
  advance := Nat.mul_comm _ _
  leadOut := zero_mem_offsets hB

/-- A trip reads blocks of whole lines, and the loop runs over the full size. -/
structure Sequential (P : PassShape) (block : ℕ) : Prop where
  reduced : P.reduced = 0
  leadIn : P.leadIn = []
  first : 0 ∈ P.inner
  inside : ∀ offset ∈ P.inner, offset < 64*block
  advance : P.advance = 64*block
  leadOut : P.leadOut = []

lemma bandwidthTest256_sequential {UNROLLB : ℕ} (hB : 0 < UNROLLB) :
    Sequential (bandwidthTest256 UNROLLB) UNROLLB where
  reduced := rfl
  leadIn := rfl
  first := List.mem_flatMap.mpr ⟨0,zero_mem_offsets hB,List.mem_cons_self⟩
  inside := fun offset hoffset => by
    obtain ⟨_,hline,hoffset⟩ := List.mem_flatMap.mp hoffset
    obtain ⟨j,hj,rfl⟩ := mem_offsets.mp hline
    simp only [List.mem_cons,List.not_mem_nil,or_false] at hoffset
    omega
  advance := Nat.mul_comm _ _
  leadOut := rfl

lemma bandwidthTest256iOrig_sequential {UNROLLB : ℕ} (hB : 0 < UNROLLB) :
    Sequential (bandwidthTest256iOrig UNROLLB) UNROLLB where
  reduced := rfl
  leadIn := rfl
  first := List.mem_append_left _ (zero_mem_offsets hB)
  inside := fun offset hoffset => by
    rcases List.mem_append.mp hoffset with hoffset | hoffset
    · obtain ⟨j,hj,rfl⟩ := mem_offsets.mp hoffset
      omega
    · obtain ⟨j,hj,rfl⟩ := mem_rep_add.mp hoffset
      omega
  advance := Nat.mul_comm _ _
  leadOut := rfl

lemma Sequential.passReads_eq {P : PassShape} {block : ℕ} (hP : Sequential P block)
    (start : Word) (trips : ℕ) :
    passReads P start trips =
      (List.range trips).flatMap (fun k => readsAt P.inner (rcxAt P start k)) := by
  rw [passReads,hP.leadIn,hP.leadOut]
  simp [readsAt]

/-- The trip that begins behind the last line leaves the region. -/
lemma Sequential.overrun {P : PassShape} {block : ℕ} (hP : Sequential P block) (start : Word)
    (q trips : ℕ) (hq : q < trips) (hsize : 64*(block*q) < 2^64)
    (hregion : start.toNat+64*(block*q) ≤ 2^64) :
    ¬ ReadsHalvesOnce start (block*q) (passReads P start trips) := by
  intro hcorrect
  have hmem : rcxAt P start q ∈ passReads P start trips := by
    rw [hP.passReads_eq]
    exact List.mem_flatMap.mpr ⟨q,List.mem_range.mpr hq,readsAt_offset P start q hP.first⟩
  obtain ⟨hstart,hend⟩ := hcorrect.within _ hmem
  rw [rcxAt,hP.advance,Nat.mul_assoc,BitVec.toNat_add,BitVec.toNat_ofNat] at hstart hend
  omega

/-- One trip does not reach the lines of a longer region. -/
lemma Sequential.one_trip {P : PassShape} {block lines : ℕ} (hP : Sequential P block)
    (start : Word) (hlines : block < lines) (hsize : 64*lines < 2^64) :
    ¬ ReadsHalvesOnce start lines (passReads P start 1) := by
  intro hcorrect
  have hone := hcorrect.once (2*block) (by omega)
  have hmem : half start (2*block) ∈ passReads P start 1 := List.count_pos_iff.mp (by omega)
  rw [hP.passReads_eq] at hmem
  obtain ⟨k,hk,hmem⟩ := List.mem_flatMap.mp hmem
  obtain rfl : k = 0 := by
    have := List.mem_range.mp hk
    omega
  obtain ⟨offset,hoffset,heq⟩ := List.mem_map.mp hmem
  have hlt := hP.inside offset hoffset
  rw [rcxAt,Nat.mul_zero,BitVec.add_zero,half,BitVec.add_right_inj] at heq
  have hnat := congrArg BitVec.toNat heq
  rw [BitVec.toNat_ofNat,BitVec.toNat_ofNat] at hnat
  omega

theorem Sequential.never_once {P : PassShape} {block lines : ℕ} (hP : Sequential P block)
    (start : Word) (flags : Flags) (hblock : 0 < block) (hlines : block < lines)
    (hdvd : block ∣ lines) (hsize : 64*lines < 2^64) (hregion : start.toNat+64*lines ≤ 2^64)
    {fuel : ℕ} {reads : List Word}
    (h : pass P (BitVec.ofNat 64 (64*lines)) start flags fuel = some reads) :
    ¬ ReadsHalvesOnce start lines reads := by
  obtain ⟨q,rfl⟩ := hdvd
  have hfit : block < 2^57 := by
    have hq : 2 ≤ q := by
      by_contra hq
      have : block*q ≤ block*1 := Nat.mul_le_mul_left _ (by omega)
      omega
    have : block*2 ≤ block*q := Nat.mul_le_mul_left _ hq
    omega
  have htrips := subTrips_lines hblock hfit hsize
  have hrun := pass_trips P (BitVec.ofNat 64 (64*(block*q))) start flags (max fuel (q+1)) ?_ ?_
  · rw [pass_mono (le_max_left _ _) h,hP.advance,hP.reduced,BitVec.sub_zero,htrips] at hrun
    obtain rfl := Option.some.inj hrun
    split_ifs with hsmall
    · exact hP.overrun start q (q+1) (Nat.lt_succ_self q) hsize hregion
    · exact hP.one_trip start hlines hsize
  · rw [hP.advance,toInt_lines (by omega),if_pos hfit]
    omega
  · rw [hP.advance,hP.reduced,BitVec.sub_zero,htrips]
    split_ifs <;> omega

theorem Pipelined.never_once {P : PassShape} {ahead lines n : ℕ} (hP : Pipelined P ahead lines)
    (hpos : 0 < ahead) (hlines : 0 < lines) {size start : Word} {flags : Flags} {fuel : ℕ}
    {reads : List Word} (h : pass P size start flags fuel = some reads) :
    ¬ ReadsHalvesOnce start n reads := by
  obtain ⟨trips,rfl⟩ := pass_result h
  exact not_once_of_repeated _ (hP.repeats hpos hlines start trips)

lemma advance_lt {UNROLLB UNROLLX n : ℕ} (V : Variant) (hB : 1 ≤ UNROLLB) (hX : 1 ≤ UNROLLX)
    (hn : UNROLLB < n) (hBn : UNROLLB ∣ n) (hsize : 64*n < 2^64) (hfit : 2*UNROLLX < 2^57) :
    0 < (V.shape UNROLLB UNROLLX).advance ∧ (V.shape UNROLLB UNROLLX).advance < 2^63 := by
  have hB' : UNROLLB < 2^57 := by
    obtain ⟨q,rfl⟩ := hBn
    have hq : UNROLLB*1 < UNROLLB*q := by omega
    have htwo : UNROLLB*2 ≤ UNROLLB*q := Nat.mul_le_mul_left _ (Nat.lt_of_mul_lt_mul_left hq)
    omega
  cases V <;> simp only [Variant.shape,bandwidthTest256,bandwidthTest256iOrig,bandwidthTest256i,
    bandwidthTest256iSingle,bandwidthTest256iDouble] <;> omega

/-- Every pass finishes (for any block whose size is an immediate operand), and what it reads is
never each half of the region once: the first two leave the region or skip most of it, the
pipelined ones read the first halves again in their lead-out. -/
theorem halves_never_once (V : Variant) (UNROLLB UNROLLX n : ℕ) (start : Word) (flags : Flags)
    (hB : 1 ≤ UNROLLB) (hX : 1 ≤ UNROLLX) (hn : UNROLLB < n) (hBn : UNROLLB ∣ n)
    (hsize : 64*n < 2^64) (hregion : start.toNat+64*n ≤ 2^64) :
    (2*UNROLLX < 2^57 → ∃ enough reads, ∀ fuel, enough ≤ fuel →
      pass (V.shape UNROLLB UNROLLX) (BitVec.ofNat 64 (64*n)) start flags fuel = some reads) ∧
    ∀ fuel reads,
      pass (V.shape UNROLLB UNROLLX) (BitVec.ofNat 64 (64*n)) start flags fuel = some reads →
        ¬ ReadsHalvesOnce start n reads := by
  refine ⟨fun hfit => ?_,fun fuel reads h => ?_⟩
  · obtain ⟨hpos,hlt⟩ := advance_lt V hB hX hn hBn hsize hfit
    refine ⟨_,_,fun fuel hfuel => pass_trips _ _ start flags fuel ?_ hfuel⟩
    rw [BitVec.toInt_eq_toNat_cond,BitVec.toNat_ofNat]
    split_ifs <;> omega
  · cases V with
    | plain =>
      exact (bandwidthTest256_sequential hB).never_once start flags hB hn hBn hsize hregion h
    | iOrig =>
      exact (bandwidthTest256iOrig_sequential hB).never_once start flags hB hn hBn hsize hregion h
    | i => exact (bandwidthTest256i_pipelined UNROLLX hB).never_once hB hX h
    | iSingle => exact (bandwidthTest256iSingle_pipelined UNROLLX hB).never_once hB hX h
    | iDouble =>
      exact (bandwidthTest256iDouble_pipelined UNROLLX hB).never_once hB (by omega) h

/-- `bandwidth_test256i_double` on a region of four lines. -/
theorem halves_never_once_double :
    (2*1 < 2^57 → ∃ enough reads, ∀ fuel, enough ≤ fuel →
      pass (bandwidthTest256iDouble 2 1) 256 0x1000 ⟨true,false,false⟩ fuel = some reads) ∧
    ∀ fuel reads,
      pass (bandwidthTest256iDouble 2 1) 256 0x1000 ⟨true,false,false⟩ fuel = some reads →
        ¬ ReadsHalvesOnce 0x1000 4 reads :=
  halves_never_once .iDouble 2 1 4 0x1000 ⟨true,false,false⟩ (by decide) (by decide) (by decide)
    (by decide) (by decide) (by decide)

/-- Two lines without unrolling: one trip too many reads behind the region, and the lead-out
reads a first half again. -/
theorem two_lines_wrong :
    (pass (bandwidthTest256 1) 128 0x1000 ⟨true,false,false⟩ 3 =
        some [0x1000,0x1020,0x1040,0x1060,0x1080,0x10a0] ∧
      ¬ ReadsHalvesOnce 0x1000 2 [0x1000,0x1020,0x1040,0x1060,0x1080,0x10a0]) ∧
    (pass (bandwidthTest256i 1 1) 128 0x1000 ⟨true,false,false⟩ 2 =
        some [0x1000,0x1040,0x1020,0x1080,0x1060,0x1080] ∧
      ¬ ReadsHalvesOnce 0x1000 2 [0x1000,0x1040,0x1020,0x1080,0x1060,0x1080]) :=
  ⟨⟨by decide,fun h => absurd (h.within 0x1080 (by decide)) (by decide)⟩,
    ⟨by decide,fun h => absurd (h.within 0x1080 (by decide)) (by decide)⟩⟩

end UarchBench.Interleaved
