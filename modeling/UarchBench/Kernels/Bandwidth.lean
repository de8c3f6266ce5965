import UarchBench.Base.Countdown

/-! The linear bandwidth kernels: one assembly macro for loads, stores and non-temporal stores,
and its variant with extra stores to each line. A run records the memory accesses of every trip
of the inner loop, pass by pass; the data moved does not influence the control flow. -/
namespace UarchBench.Bandwidth
open Base

abbrev Word := BitVec 64

/-- One instance of the macros: the repeated instruction advances by `element` bytes and touches
`bytes` of them. -/
structure LineMacro where
  benchName : String
  element : ℕ
  bytes : ℕ
  writes : Bool
  /-- The third parameter of `define_nt_extra`. -/
  extra : Bool
  element_pos : 0 < element
  element_dvd : element ∣ 64
  bytes_pos : 0 < bytes
  bytes_le : bytes ≤ element

/-- What the parameters of an instance must satisfy. -/
def Fits (element bytes : ℕ) : Prop := 0 < element ∧ element ∣ 64 ∧ 0 < bytes ∧ bytes ≤ element

instance (element bytes : ℕ) : Decidable (Fits element bytes) :=
  inferInstanceAs (Decidable (_ ∧ _))

/-- `define_bandwidth size, {instruction}, name[, true size]`; the last parameter only changes
the bit size in the name. -/
def defineBandwidth (element bytes : ℕ) (writes : Bool) (name : String) (trueSize : Option ℕ)
    (h : Fits element bytes) : LineMacro :=
  ⟨name ++ "_bandwidth_" ++ toString (trueSize.getD element*8),element,bytes,writes,false,
    h.1,h.2.1,h.2.2.1,h.2.2.2⟩

/-- `define_nt_extra size, {instruction}, flag`. -/
def defineNtExtra (element bytes : ℕ) (extra : Bool) (h : Fits element bytes) : LineMacro :=
  ⟨(if extra then "nt_extra_" else "nt_normal_") ++ toString (element*8),element,bytes,true,extra,
    h.1,h.2.1,h.2.2.1,h.2.2.2⟩

def defineNtBoth (element bytes : ℕ) (h : Fits element bytes) : List LineMacro :=
  [defineNtExtra element bytes false h,defineNtExtra element bytes true h]

/-- The instances of both macros in source order. -/
def instances : List LineMacro :=
  [defineBandwidth 4 4 true "store" none (by decide),
   defineBandwidth 8 8 true "store" none (by decide),
   defineBandwidth 16 16 true "store" none (by decide),
   defineBandwidth 32 32 true "store" none (by decide),
   defineBandwidth 64 64 true "store" none (by decide),
   defineBandwidth 4 4 true "nt_store" none (by decide),
   defineBandwidth 8 8 true "nt_store" none (by decide),
   defineBandwidth 16 16 true "nt_store" none (by decide),
   defineBandwidth 32 32 true "nt_store" none (by decide),
   defineBandwidth 64 64 true "nt_store" none (by decide),
   defineBandwidth 8 4 true "nt_store_partial" (some 4) (by decide),
   defineBandwidth 16 8 true "nt_store_partial" (some 8) (by decide),
   defineBandwidth 32 16 true "nt_store_partial" (some 16) (by decide),
   defineBandwidth 64 32 true "nt_store_partial" (some 32) (by decide),
   defineBandwidth 4 4 false "load" none (by decide),
   defineBandwidth 8 8 false "load" none (by decide),
   defineBandwidth 16 16 false "load" none (by decide),
   defineBandwidth 32 32 false "load" none (by decide),
   defineBandwidth 64 64 false "load" none (by decide),
   defineBandwidth 64 1 false "loadtouch" none (by decide)] ++
  defineNtBoth 4 4 (by decide) ++ defineNtBoth 8 8 (by decide) ++ defineNtBoth 16 16 (by decide) ++
  defineNtBoth 32 32 (by decide) ++ defineNtBoth 64 64 (by decide)

/-- Each instance has a label of its own. -/
theorem instances_labels : (instances.map LineMacro.benchName).Nodup := by decide

/-- One memory access of an instruction. -/
structure Access where
  addr : Word
  bytes : ℕ
  writes : Bool
  deriving DecidableEq, Repr

/-- The accesses of one trip of the inner loop. -/
abbrev Trip := List Access

/-- The assembler loop `%rep`: the offsets of the repeated instruction. -/
def rep (next : ℕ → ℕ) : ℕ → ℕ → List ℕ
  | 0, _ => []
  | n+1, offset => offset::rep next n (next offset)

def LineMacro.offsets (I : LineMacro) : List ℕ :=
  rep (fun offset => offset+I.element) (64/I.element) 0 ++
    if I.extra then rep (fun offset => (offset+I.element)%64) 5 0 else []

def LineMacro.trip (I : LineMacro) (rcx : Word) : Trip :=
  I.offsets.map (fun offset => ⟨rcx+BitVec.ofNat 64 offset,I.bytes,I.writes⟩)

structure Inner where
  rax : Word
  rcx : Word
  flags : Flags
  trips : List Trip

/-- One trip of `.inner`: the accesses, `add rcx, 64` and `sub rax, 64`. -/
def innerBody (I : LineMacro) (s : Inner) : Inner where
  rax := s.rax-64
  rcx := s.rcx+64
  flags := subFlags s.rax 64
  trips := s.trips ++ [I.trip s.rcx]

/-- One pass over the region: `.inner` is repeated by `jge`. -/
def pass (I : LineMacro) (size start : Word) (flags : Flags) (fuel : ℕ) : Option (List Trip) :=
  (doWhile (fun s => some (innerBody I s)) (fun s => s.flags.jge) fuel
    ⟨size,start,flags,[]⟩).map (fun r => r.1.trips)

structure Outer where
  rdi : Word
  flags : Flags
  passes : List (List Trip)

def outerBody (I : LineMacro) (size start : Word) (fuel : ℕ) (s : Outer) : Option Outer :=
  (pass I size start s.flags fuel).map fun trips =>
    ⟨s.rdi-1,subFlags s.rdi 1,s.passes ++ [trips]⟩

/-- The kernel on a region: `.top` is repeated by `dec rdi` and `jnz`. The flags at its entry
are those of `xor eax, eax`. -/
def kernel (I : LineMacro) (size start iters : Word) (fuel : ℕ) : Option (List (List Trip)) :=
  (doWhile (outerBody I size start fuel) (fun s => s.flags.jnz) fuel
    ⟨iters,⟨true,false,false⟩,[]⟩).map (fun r => r.1.passes)

lemma mem_rep_add {size count first offset : ℕ} :
    offset ∈ rep (fun offset => offset+size) count first ↔
      ∃ j < count, offset = first+size*j := by
  induction count generalizing first with
  | zero => simp [rep]
  | succ count ih =>
    rw [rep,List.mem_cons,ih]
    constructor
    · rintro (rfl | ⟨j,hj,rfl⟩)
      · exact ⟨0,Nat.succ_pos _,by simp⟩
      · exact ⟨j+1,by omega,by rw [Nat.mul_succ]; omega⟩
    · rintro ⟨j,hj,rfl⟩
      cases j with
      | zero => exact .inl (by simp)
      | succ j => exact .inr ⟨j,by omega,by rw [Nat.mul_succ]; omega⟩

/-- The first instruction of a line touches its first byte. -/
lemma zero_mem_offsets (I : LineMacro) : 0 ∈ I.offsets := by
  have hpos : 0 < 64/I.element :=
    Nat.div_pos (Nat.le_of_dvd (by omega) I.element_dvd) I.element_pos
  exact List.mem_append_left _ (mem_rep_add.mpr ⟨0,hpos,rfl⟩)

lemma rep_mod_lt (element n offset : ℕ) (h : offset < 64) :
    ∀ o ∈ rep (fun offset => (offset+element)%64) n offset, o < 64 := by
  induction n generalizing offset with
  | zero => simp [rep]
  | succ n ih =>
    intro o ho
    rcases List.mem_cons.mp ho with rfl | ho
    · exact h
    · exact ih _ (Nat.mod_lt _ (by omega)) o ho

/-- Every instruction of a trip, the extra ones included, starts inside its line. -/
lemma offsets_lt (I : LineMacro) : ∀ o ∈ I.offsets, o < 64 := by
  intro o ho
  rcases List.mem_append.mp ho with ho | ho
  · obtain ⟨j,hj,rfl⟩ := mem_rep_add.mp ho
    rw [Nat.zero_add]
    calc I.element*j < I.element*(64/I.element) := Nat.mul_lt_mul_of_pos_left hj I.element_pos
      _ ≤ 64 := Nat.mul_div_le 64 I.element
  · split_ifs at ho
    · exact rep_mod_lt I.element 5 0 (by omega) o ho
    · simp at ho

/-- The line numbered `k` from the start of the region. -/
def lineAt (start : Word) (k : ℕ) : Word := start+BitVec.ofNat 64 (64*k)

lemma lineAt_succ (start : Word) (k : ℕ) : lineAt start k+64 = lineAt start (k+1) := by
  rw [lineAt,lineAt,BitVec.add_assoc,Nat.mul_succ,BitVec.ofNat_add]
  rfl

lemma iterate_rcx (I : LineMacro) (s : Inner) (k : ℕ) :
    ((innerBody I)^[k] s).rcx = lineAt s.rcx k := by
  induction k with
  | zero => simp [lineAt]
  | succ k ih => rw [Function.iterate_succ_apply',innerBody,ih,lineAt_succ]

lemma iterate_trips (I : LineMacro) (s : Inner) (k : ℕ) :
    ((innerBody I)^[k] s).trips =
      s.trips ++ (List.range k).map (fun j => I.trip (lineAt s.rcx j)) := by
  induction k with
  | zero => simp
  | succ k ih =>
    rw [Function.iterate_succ_apply',innerBody,ih,iterate_rcx,List.range_succ,List.map_append,
      List.append_assoc]
    rfl

lemma toInt_lines {lines : ℕ} (hsize : 64*lines < 2^64) :
    (BitVec.ofNat 64 (64*lines)).toInt =
      if lines < 2^57 then ((64*lines : ℕ) : ℤ) else ((64*lines : ℕ) : ℤ)-2^64 := by
  rw [BitVec.toInt_eq_toNat_cond,BitVec.toNat_ofNat,Nat.mod_eq_of_lt hsize]
  split_ifs <;> omega

/-- The loop ends on a negative rest, one trip after the region is used up; a size with its sign
bit set is negative at once. -/
lemma subTrips_lines {q block : ℕ} (hblock : 0 < block) (hfit : block < 2^57)
    (hsize : 64*(block*q) < 2^64) :
    subTrips (BitVec.ofNat 64 (64*(block*q))) (BitVec.ofNat 64 (64*block)) =
      if block*q < 2^57 then q+1 else 1 := by
  rw [subTrips,toInt_lines hsize,toInt_lines (by omega),if_pos hfit,Int.toNat_natCast]
  split_ifs with hlines
  · rw [Int.toNat_natCast,← Nat.mul_assoc,Nat.mul_div_cancel_left q (by omega)]
  · rw [Int.toNat_of_nonpos (by omega),Nat.zero_div]

/-- The trip count: the loop only stops after the trip that begins with nothing left, so it
visits one line more than the region has, or the first one alone. -/
theorem pass_trips (I : LineMacro) (start : Word) (flags : Flags) (lines fuel : ℕ)
    (hsize : 64*lines < 2^64) (hfuel : lines+1 ≤ fuel) :
    pass I (BitVec.ofNat 64 (64*lines)) start flags fuel =
      some ((List.range (if lines < 2^57 then lines+1 else 1)).map
        (fun k => I.trip (lineAt start k))) := by
  have htrips : subTrips (BitVec.ofNat 64 (64*(1*lines))) (BitVec.ofNat 64 (64*1)) = _ :=
    subTrips_lines Nat.one_pos (by decide) (by rwa [Nat.one_mul])
  rw [Nat.one_mul] at htrips
  rw [pass,doWhile_sub Inner.rax (d := 64) (by decide) (fun _ => rfl) (fun _ => rfl) _ fuel]
  · simp only [Option.map_some,iterate_trips,List.nil_append]
    rw [← htrips]
    rfl
  · refine htrips.trans_le ?_
    split_ifs <;> omega

def Access.Within (a : Access) (start size : ℕ) : Prop :=
  start ≤ a.addr.toNat ∧ a.addr.toNat+a.bytes ≤ start+size

/-- The line that an access of the region begins in. -/
def Access.line (a : Access) (start : Word) : ℕ := (a.addr.toNat-start.toNat)/64

def Trip.visits (trip : Trip) (start : Word) (line : ℕ) : Bool :=
  trip.any (fun a => a.line start = line)

/-- A correct pass stays inside the region and visits each of its lines in exactly one trip, so
that the trips are the operations that the registration divides by. -/
structure PassCorrect (start : Word) (lines : ℕ) (trips : List Trip) : Prop where
  within : ∀ trip ∈ trips, ∀ a ∈ trip, a.Within start.toNat (64*lines)
  visited : ∀ line < lines, trips.countP (fun trip => trip.visits start line) = 1
  operations : trips.length = lines

/-- The first access of the trip at line `k`. -/
lemma first_access_mem (I : LineMacro) (rcx : Word) : ⟨rcx,I.bytes,I.writes⟩ ∈ I.trip rcx := by
  refine List.mem_map.mpr ⟨0,zero_mem_offsets I,?_⟩
  rw [BitVec.add_zero]

/-- The trip past the last line leaves the region, also where its address wraps. -/
lemma overrun_not_within (I : LineMacro) (start : Word) (lines : ℕ) (hlines : lines < 2^57)
    (hregion : start.toNat+64*lines ≤ 2^64) :
    ¬ ∀ a ∈ I.trip (lineAt start lines), a.Within start.toNat (64*lines) := by
  intro h
  obtain ⟨hstart,hend⟩ := h _ (first_access_mem I (lineAt start lines))
  have hbytes := I.bytes_pos
  have haddr : (lineAt start lines).toNat = (start.toNat+64*lines)%2^64 := by
    rw [lineAt,BitVec.toNat_add,BitVec.toNat_ofNat,Nat.add_mod_mod]
  simp only [haddr] at hstart hend
  omega

/-- The accesses of the trip at the first line all begin in that line. -/
lemma first_trip_visits (I : LineMacro) (start : Word) (hregion : start.toNat+64 ≤ 2^64)
    (line : ℕ) (hline : 0 < line) : Trip.visits (I.trip (lineAt start 0)) start line = false := by
  rw [Trip.visits,List.any_eq_false]
  intro a ha
  obtain ⟨o,ho,rfl⟩ := List.mem_map.mp ha
  have hlt := offsets_lt I o ho
  have haddr : (lineAt start 0+BitVec.ofNat 64 o).toNat = start.toNat+o := by
    rw [lineAt,Nat.mul_zero,BitVec.add_zero,BitVec.toNat_add,BitVec.toNat_ofNat]
    omega
  simp only [Access.line,haddr,decide_eq_true_eq]
  omega

/-- Every pass finishes, whatever the flags at its entry, and none over a nonempty region is
correct. -/
theorem pass_incorrect (I : LineMacro) (start : Word) (lines : ℕ) (hpos : 1 ≤ lines)
    (hsize : 64*lines < 2^64) (hregion : start.toNat+64*lines ≤ 2^64) :
    ∃ trips, (∀ flags fuel, lines+1 ≤ fuel →
        pass I (BitVec.ofNat 64 (64*lines)) start flags fuel = some trips) ∧
      ¬ PassCorrect start lines trips := by
  refine ⟨_,fun flags fuel hfuel => pass_trips I start flags lines fuel hsize hfuel,?_⟩
  intro hcorrect
  by_cases hlines : lines < 2^57
  · rw [if_pos hlines] at hcorrect
    exact overrun_not_within I start lines hlines hregion
      (hcorrect.within _ (List.mem_map_of_mem (List.mem_range.mpr (Nat.lt_succ_self lines))))
  · rw [if_neg hlines] at hcorrect
    have hone := hcorrect.visited 1 (by omega)
    rw [List.range_one,List.map_singleton,List.countP_singleton,
      first_trip_visits I start (by omega) 1 one_pos] at hone
    simp at hone

/-- A trip of `.top` with the trips of its pass known. -/
def outerStep (trips : List Trip) (s : Outer) : Outer :=
  ⟨s.rdi-1,subFlags s.rdi 1,s.passes ++ [trips]⟩

lemma iterate_passes (trips : List Trip) (s : Outer) (k : ℕ) :
    ((outerStep trips)^[k] s).passes = s.passes ++ List.replicate k trips := by
  induction k with
  | zero => simp
  | succ k ih =>
    rw [Function.iterate_succ_apply',List.replicate_succ',← List.append_assoc,← ih,outerStep]

/-- One pass per iteration. -/
theorem kernel_run (I : LineMacro) (size start iters : Word) (trips : List Trip) (fuel : ℕ)
    (hpass : ∀ flags, pass I size start flags fuel = some trips) (hiters : 1 ≤ iters.toNat)
    (hfuel : iters.toNat ≤ fuel) :
    kernel I size start iters fuel = some (List.replicate iters.toNat trips) := by
  have hstep : outerBody I size start fuel = fun s => some (outerStep trips s) := by
    funext s
    rw [outerBody,hpass]
    rfl
  have htrips := decTrips_of_pos hiters
  rw [kernel,hstep,doWhile_dec Outer.rdi (by decide) (fun _ => rfl) (fun _ => rfl) _ fuel
    (htrips.trans_le hfuel),Option.map_some,iterate_passes,htrips]
  rfl

/-- Whatever the instance, the nonempty region and the iteration count, the kernel makes one pass
per iteration and every one of them is wrong. -/
theorem bandwidth_never_correct (I : LineMacro) (start iters : Word) (lines : ℕ)
    (hpos : 1 ≤ lines) (hsize : 64*lines < 2^64) (hregion : start.toNat+64*lines ≤ 2^64)
    (hiters : 1 ≤ iters.toNat) :
    ∃ enough passes, (∀ fuel, enough ≤ fuel →
        kernel I (BitVec.ofNat 64 (64*lines)) start iters fuel = some passes) ∧
      passes.length = iters.toNat ∧ ∀ trips ∈ passes, ¬ PassCorrect start lines trips := by
  obtain ⟨trips,hpass,hwrong⟩ := pass_incorrect I start lines hpos hsize hregion
  refine ⟨max (lines+1) iters.toNat,List.replicate iters.toNat trips,fun fuel hfuel => ?_,
    List.length_replicate,fun other hother => ?_⟩
  · exact kernel_run I _ start iters trips fuel
      (fun flags => hpass flags fuel (le_trans (le_max_left _ _) hfuel)) hiters
      (le_trans (le_max_right _ _) hfuel)
  · rw [List.eq_of_mem_replicate hother]
    exact hwrong

/-- `store_bandwidth_64` on a region of two lines, three times. -/
theorem store_bandwidth_two_lines_wrong :
    ∃ enough passes, (∀ fuel, enough ≤ fuel →
        kernel (defineBandwidth 8 8 true "store" none (by decide)) 128 0x1000 3 fuel =
          some passes) ∧
      passes.length = 3 ∧ ∀ trips ∈ passes, ¬ PassCorrect 0x1000 2 trips :=
  bandwidth_never_correct (defineBandwidth 8 8 true "store" none (by decide)) 0x1000 3 2
    (by decide) (by decide) (by decide) (by decide)

/-- The shortest overrun: one iteration of `store_bandwidth_512` on a region of one line also
writes the line behind it. -/
theorem store_bandwidth_one_line_overrun :
    kernel (defineBandwidth 64 64 true "store" none (by decide)) 64 0x1000 1 2 =
      some [[[⟨0x1000,64,true⟩],[⟨0x1040,64,true⟩]]] ∧
    ¬ PassCorrect 0x1000 1 [[⟨0x1000,64,true⟩],[⟨0x1040,64,true⟩]] :=
  ⟨by decide,fun h => absurd h.operations (by decide)⟩

end UarchBench.Bandwidth
