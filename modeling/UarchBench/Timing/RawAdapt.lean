import UarchBench.Kernels.RawPmc

/-! The samples of the benchmarks that read the counters themselves: an array of the objects that the
method fills, one call after the other. -/
namespace UarchBench.RawPmc
open Base Machine Libpfc

/-- The arguments of a method. -/
def callMethod (s : Cpu) (loopCount arg result : Word) : Cpu :=
  ((s.set .rdi loopCount).set .rsi arg).set .rdx result

/-- The address of a sample in the array. -/
def sampleAt (result : Word) (i : ℕ) : Word := result+BitVec.ofNat 64 (nowSize*i)

/-- `libpfc_raw_adapt`, with the array of zeros and nothing to warm. -/
def libpfcRawAdapt (env : Env) (m : RawMethod) (samples : ℕ) (loopCount arg result : Word)
    (fuel : ℕ) (s : Cpu) : Option Cpu :=
  (List.range samples).foldlM (fun s i => (semantics env).run fuel m.code
    (callMethod s loopCount arg (sampleAt result i))) (s.write result (nowSize*samples) 0)

/-- The memory of the caller: the method writes neither the array nor, where it relies on it, the
start of the buffer, which is zero. -/
structure Layout (m : RawMethod) (samples : ℕ) (arg result : Word) (s : Cpu) : Prop where
  size : nowSize*samples ≤ 2^64
  apart : ∀ a, Within (m.ranges (s.regs .rsp) arg) a → nowSize*samples ≤ (a-result).toNat
  buffer : m = .mixedLoadsRaw → s.mem.load arg 4 = 0 ∧
    ∀ a, (a-arg).toNat < 4 → nowSize*samples ≤ (a-result).toNat

/-- What a sample has in each of its counters. -/
def sample (env : Env) (m : RawMethod) (reads i : ℕ) : Now Word :=
  ⟨fun slot => ((differences env m.readings (reads+2*m.readings.length*i)).lookup slot).getD 0⟩

section Addresses
variable {samples i k : ℕ} {a result : Word} (hsize : nowSize*samples ≤ 2^64) (hk : k < samples)
include hsize hk

lemma sampleAt_outside (ha : nowSize*samples ≤ (a-result).toNat) :
    nowSize ≤ (a-sampleAt result k).toNat := by
  change 56*samples ≤ 2^64 at hsize
  change 56*samples ≤ (a-result).toNat at ha
  change 56 ≤ (a-(result+BitVec.ofNat 64 (56*k))).toNat
  have hoffset : 56*k+56 ≤ 56*samples := by omega
  generalize 56*k = offset at *
  bv_omega

lemma sampleAt_other (hi : i < samples) (hne : i ≠ k)
    (ha : (a-sampleAt result i).toNat < nowSize) : nowSize ≤ (a-sampleAt result k).toNat := by
  change 56*samples ≤ 2^64 at hsize
  change (a-(result+BitVec.ofNat 64 (56*i))).toNat < 56 at ha
  change 56 ≤ (a-(result+BitVec.ofNat 64 (56*k))).toNat
  have hoffsets : 56*i+56 ≤ 56*k ∨ 56*k+56 ≤ 56*i := by omega
  have hi' : 56*i+56 ≤ 2^64 := by omega
  have hk' : 56*k+56 ≤ 2^64 := by omega
  generalize 56*k = offset at *
  generalize 56*i = offset' at *
  bv_omega

lemma sampleAt_inside (ha : (a-sampleAt result k).toNat < nowSize) :
    (a-result).toNat < nowSize*samples := by
  change 56*samples ≤ 2^64 at hsize
  change (a-(result+BitVec.ofNat 64 (56*k))).toNat < 56 at ha
  change (a-result).toNat < 56*samples
  have hoffset : 56*k+56 ≤ 56*samples := by omega
  generalize 56*k = offset at *
  bv_omega

end Addresses

/-- The array after some calls. -/
structure Filled (env : Env) (m : RawMethod) (samples : ℕ) (arg result : Word) (s : Cpu) (k : ℕ)
    (t : Cpu) : Prop where
  regs : ∀ r ∈ calleeSaved, t.regs r = s.regs r
  reads : t.reads = s.reads+2*m.readings.length*k
  done : ∀ i < k, ∀ slot,
    (now t.mem (sampleAt result i)).cnt slot = (sample env m s.reads i).cnt slot
  zeros : ∀ i < samples, k ≤ i → ∀ slot, (now t.mem (sampleAt result i)).cnt slot = 0
  mem : ∀ a, ¬Within (m.ranges (s.regs .rsp) arg) a → nowSize*samples ≤ (a-result).toNat →
    t.mem a = s.mem a

section Calls
variable {env : Env} {m : RawMethod} {samples : ℕ} {arg result : Word} {s : Cpu}
  (hlayout : Layout m samples arg result s)
include hlayout

lemma filled_zero : Filled env m samples arg result s 0 (s.write result (nowSize*samples) 0) := by
  have hzero : ∀ a, (a-result).toNat < nowSize*samples →
      (s.write result (nowSize*samples) 0).mem a = 0 := fun a ha => by
    rw [Cpu.write_mem,WrapMemory.store,if_pos ha]
    simp
  refine ⟨fun _ _ => rfl,rfl,fun i hi => absurd hi (Nat.not_lt_zero i),fun i hi _ slot => ?_,
    fun a _ ha => WrapMemory.store_outside ha⟩
  have hcnt : (now (s.write result (nowSize*samples) 0).mem (sampleAt result i)).cnt slot =
      (now (fun _ => 0) (sampleAt result i)).cnt slot :=
    now_congr (fun a ha => hzero a (sampleAt_inside hlayout.size hi ha)) slot
  rw [hcnt]
  have hload : WrapMemory.load (fun _ => 0) (sampleAt result i+BitVec.ofNat 64 (8*slot)) 8 =
      0%256^8 := WrapMemory.load_bytes (by decide) (fun _ _ => by simp)
  exact congrArg (BitVec.ofNat 64) hload

/-- One call. -/
theorem filled_call {k : ℕ} (hk : k < samples) (loopCount : Word) {t : Cpu}
    (ht : Filled env m samples arg result s k t) :
    ∃ u, Filled env m samples arg result s (k+1) u ∧ (semantics env).Ends m.code
      (callMethod t loopCount arg (sampleAt result k)) u := by
  let c := callMethod t loopCount arg (sampleAt result k)
  have hcalled : ∀ r ∈ calleeSaved, c.regs r = s.regs r := fun r hr => by
    have hne : ∀ r ∈ calleeSaved, r ≠ .rdi ∧ r ≠ .rsi ∧ r ≠ .rdx := by decide
    obtain ⟨hrdi,hrsi,hrdx⟩ := hne r hr
    rw [← ht.regs r hr]
    simp only [c,callMethod,Cpu.set_of_ne _ _ _ _ hrdi,Cpu.set_of_ne _ _ _ _ hrsi,
      Cpu.set_of_ne _ _ _ _ hrdx]
  have hrsp : c.regs .rsp = s.regs .rsp := hcalled _ (by decide)
  have hrsi : c.regs .rsi = arg := by simp [c,callMethod]
  have hrdx : c.regs .rdx = sampleAt result k := Cpu.set_same ..
  have hready : m.Ready c := fun hm => by
    obtain ⟨hzero,hbuffer⟩ := hlayout.buffer hm
    rw [hrsi,← hzero]
    refine WrapMemory.load_congr (by decide) (fun x hx => ht.mem x ?_ (hbuffer x hx))
    rw [hm]
    rintro ⟨p,hp,hlt⟩
    rw [List.mem_singleton.mp hp] at hlt
    bv_omega
  have hapart : Apart (m.ranges (c.regs .rsp) (c.regs .rsi)) (c.regs .rdx) := fun a ha => by
    rw [hrsp,hrsi] at ha
    rw [hrdx]
    exact sampleAt_outside hlayout.size hk (hlayout.apart a ha)
  obtain ⟨u,hend,hu⟩ := RawMethod.measures env c m hready hapart c rfl
  rw [hrsp,hrsi] at hu
  have hcnt := hu.cnt
  have hmem := hu.mem
  rw [hrdx] at hcnt hmem
  have hother : ∀ i < samples, i ≠ k → ∀ slot, (now u.mem (sampleAt result i)).cnt slot =
      (now t.mem (sampleAt result i)).cnt slot := fun i hi hne slot => by
    refine now_congr (fun a ha => hmem a (fun hin => ?_)
      (sampleAt_other hlayout.size hk hi hne ha)) slot
    exact absurd (hlayout.apart a hin) (Nat.not_le.mpr (sampleAt_inside hlayout.size hi ha))
  refine ⟨u,⟨fun r hr => ?_,?_,fun i hi slot => ?_,fun i hi hki slot => ?_,
    fun a ha hout => ?_⟩,hend⟩
  · rw [hu.regs r hr,hcalled r hr]
  · rw [hu.reads,show c.reads = t.reads from rfl,ht.reads,Nat.mul_succ,Nat.add_assoc]
  · rcases Nat.lt_succ_iff_lt_or_eq.mp hi with hlt | rfl
    · rw [hother i (by omega) (by omega),ht.done i hlt]
    · rw [hcnt,show c.reads = t.reads from rfl,show c.mem = t.mem from rfl,ht.reads,
        ht.zeros i hk le_rfl]
      rfl
  · rw [hother i hi (by omega),ht.zeros i hi (by omega)]
  · rw [hmem a ha (sampleAt_outside hlayout.size hk hout)]
    exact ht.mem a ha hout

/-- All calls. -/
theorem libpfcRawAdapt_filled (loopCount : Word) :
    ∃ t, Filled env m samples arg result s samples t ∧ ∃ n, ∀ fuel, n ≤ fuel →
      libpfcRawAdapt env m samples loopCount arg result fuel s = some t := by
  refine foldlM_range_fuel (I := Filled env m samples arg result s) (fun k hk t ht => ?_)
    (filled_zero hlayout)
  obtain ⟨u,hu,n,hend⟩ := filled_call hlayout hk loopCount ht
  exact ⟨u,hu,n,hend⟩

end Calls

/-- The array that a method fills has, for each sample, the differences between the two reads of its
own call in the counters that the method reads, and zero in the others; the method ends, and the
registers and the memory of the caller are as before. -/
theorem libpfcRawAdapt_samples (env : Env) (m : RawMethod) (samples : ℕ)
    (loopCount arg result : Word) (s : Cpu) (hlayout : Layout m samples arg result s) :
    ∃ t, (∃ n, ∀ fuel, n ≤ fuel →
        libpfcRawAdapt env m samples loopCount arg result fuel s = some t) ∧
      (∀ i < samples, now t.mem (sampleAt result i) = sample env m s.reads i) ∧
      (∀ r ∈ calleeSaved, t.regs r = s.regs r) ∧
      ∀ a, ¬Within (m.ranges (s.regs .rsp) arg) a → nowSize*samples ≤ (a-result).toNat →
        t.mem a = s.mem a := by
  obtain ⟨t,ht,hend⟩ := libpfcRawAdapt_filled hlayout loopCount
  refine ⟨t,hend,fun i hi => ?_,ht.regs,ht.mem⟩
  have hcnt := funext (ht.done i hi)
  exact congrArg Now.mk hcnt

/-- A processor whose counters grow with each read. -/
def squares : Env := ⟨fun n _ => BitVec.ofNat 64 (n*n),fun _ _ _ => 0⟩

/-- A caller with a zeroed buffer, below its stack and its array. -/
def caller : Cpu := ⟨fun _ => 8192,fun _ _ => 0,fun _ => 0,0⟩

lemma caller_layout : Layout .mixedLoadsRaw 20 4096 16384 caller := by
  refine ⟨by decide,fun a ha => ?_,fun _ => ⟨by decide,fun a ha => ?_⟩⟩
  · obtain ⟨p,hp,hlt⟩ := ha
    rw [List.mem_singleton.mp hp] at hlt
    change 1120 ≤ _
    bv_omega
  · change 1120 ≤ _
    bv_omega

theorem libpfcRawAdapt_samples_caller :
    ∃ t, (∃ n, ∀ fuel, n ≤ fuel →
        libpfcRawAdapt squares .mixedLoadsRaw 20 1 4096 16384 fuel caller = some t) ∧
      (∀ i < 20, now t.mem (sampleAt 16384 i) = sample squares .mixedLoadsRaw 0 i) ∧
      (∀ r ∈ calleeSaved, t.regs r = caller.regs r) ∧
      ∀ a, ¬Within (mixedRanges 4096) a → nowSize*20 ≤ (a-16384).toNat → t.mem a = caller.mem a :=
  libpfcRawAdapt_samples squares .mixedLoadsRaw 20 1 4096 16384 caller caller_layout

lemma readings_eq (m : RawMethod) : m.readings = readings0 ∨ m.readings = readings4 := by
  cases m <;> simp [RawMethod.readings]

/-- The difference of a reading is found under its index. -/
lemma sample_cnt (env : Env) (m : RawMethod) (reads i : ℕ) {p : ℕ} {r : Reading}
    (hr : readings4[p]? = some r) : (sample env m reads i).cnt r.slot =
      if p < m.readings.length then
        env.counter (reads+2*m.readings.length*i+m.readings.length+p) r.select-
          env.counter (reads+2*m.readings.length*i+p) r.select
      else 0 := by
  have hp : p < 5 := (List.getElem?_eq_some_iff.mp hr).1
  have hcases : p = 0 ∨ p = 1 ∨ p = 2 ∨ p = 3 ∨ p = 4 := by omega
  have hreading := readings_eq m
  rcases hcases with rfl | rfl | rfl | rfl | rfl <;>
    obtain rfl := Option.some.inj hr <;>
    rcases hreading with hm | hm <;>
    simp only [sample,hm,differences] <;> rfl

/-- The index of an event is that of the reading in its place. -/
lemma event_slot {L : Library} (hfixed : L.fixedcntCpuClkUnhalted = 1) {extraEvents : List PmuEvent}
    {p : ℕ} {e : PmuEvent}
    (he : (cyclesEvent L::slotted 0 (extraEvents.take gpCounters))[p]? = some e) :
    ∃ r, readings4[p]? = some r ∧ e.slot.toNat = r.slot.val := by
  cases p with
  | zero =>
    obtain rfl := Option.some.inj he
    refine ⟨_,rfl,?_⟩
    rw [cyclesEvent,PmuEvent.new,hfixed]
    rfl
  | succ p =>
    rw [List.getElem?_cons_succ,slotted,List.getElem?_mapIdx,Option.map_eq_some_iff] at he
    obtain ⟨e',he',rfl⟩ := he
    have hp := (List.getElem?_eq_some_iff.mp he').1
    have hlt : p < 4 := lt_of_lt_of_le hp (List.length_take_le gpCounters extraEvents)
    have hcases : p = 0 ∨ p = 1 ∨ p = 2 ∨ p = 3 := by omega
    rcases hcases with rfl | rfl | rfl | rfl <;> exact ⟨_,rfl,rfl⟩

/-- The events of the timer and their codes. -/
lemma init_events {L : Library} (hfixed : L.fixedcntCpuClkUnhalted = 1)
    {extraEvents : List PmuEvent} {timer : LibpfcTimer} {cfg : Cfg}
    (hinit : init L extraEvents = .ok (timer,cfg)) :
    timer.allEvents = cyclesEvent L::slotted 0 (extraEvents.take gpCounters) ∧
      ∀ e ∈ timer.allEvents, ∀ i : Fin totalCounters, e.slot.toNat = i.val → cfg i = e.code := by
  have hkept := foldl_keepEvent extraEvents [cyclesEvent L] 0
  have hcycles : (cyclesEvent L).slot.toNat < fixedCounters := by
    rw [cyclesEvent,PmuEvent.new,hfixed]
    decide
  have hnodup := slots_nodup hcycles (List.length_take_le gpCounters extraEvents)
  rw [List.singleton_append,Nat.sub_zero] at hkept
  rw [← hkept] at hnodup
  simp only [init] at hinit
  split_ifs at hinit with hpfc hbelow hwrite
  obtain ⟨rfl,rfl⟩ := Prod.mk.inj (Except.ok.inj hinit)
  refine ⟨hkept,fun e he i hi => ?_⟩
  obtain rfl : i = ⟨e.slot.toNat,hbelow e he⟩ := Fin.ext hi.symm
  exact cfg_code hnodup he _

/-- What the timer shows for a sample: for every event the difference of the counter that was set up
for it, and zero if the method does not read that counter. -/
theorem libpfcRawAdapt_results {δ : Type} (toDouble : Word → δ) (L : Library)
    (hfixed : L.fixedcntCpuClkUnhalted = 1) (extraEvents : List PmuEvent) (timer : LibpfcTimer)
    (cfg : Cfg) (hinit : init L extraEvents = .ok (timer,cfg)) (env : Env) (m : RawMethod)
    (samples : ℕ) (loopCount arg result : Word) (s : Cpu)
    (hlayout : Layout m samples arg result s) :
    ∃ t, (∃ n, ∀ fuel, n ≤ fuel →
        libpfcRawAdapt env m samples loopCount arg result fuel s = some t) ∧
      ∀ i < samples, ∀ p e, timer.allEvents[p]? = some e →
        ∃ r, readings4[p]? = some r ∧ cfg r.slot = e.code ∧
          (toResult toDouble timer (now t.mem (sampleAt result i)))[p]? = some (toDouble
            (if p < m.readings.length then
              env.counter (s.reads+2*m.readings.length*i+m.readings.length+p) r.select-
                env.counter (s.reads+2*m.readings.length*i+p) r.select
            else 0)) := by
  obtain ⟨hevents,hcodes⟩ := init_events hfixed hinit
  obtain ⟨t,ht,hend⟩ := libpfcRawAdapt_filled hlayout loopCount
  refine ⟨t,hend,fun i hi p e he => ?_⟩
  obtain ⟨r,hr,hslot⟩ := event_slot hfixed (hevents ▸ he)
  have hmem := List.mem_of_getElem? he
  refine ⟨r,hr,hcodes e hmem r.slot hslot,?_⟩
  have hcnt : (now t.mem (sampleAt result i)).cnt ⟨e.slot.toNat,timer.slots_lt e hmem⟩ =
      (sample env m s.reads i).cnt r.slot := by
    rw [ht.done i hi]
    exact congrArg _ (Fin.ext hslot)
  simp only [toResult,List.getElem?_pmap,he]
  rw [← sample_cnt env m s.reads i hr,← hcnt]
  rfl

theorem libpfcRawAdapt_results_fiveEvents :
    ∃ timer cfg, init clockAtOne fiveEvents = .ok (timer,cfg) ∧
      ∃ t, (∃ n, ∀ fuel, n ≤ fuel →
          libpfcRawAdapt squares .mixedLoadsRaw 20 1 4096 16384 fuel caller = some t) ∧
        ∀ i < 20, ∀ p e, timer.allEvents[p]? = some e →
          ∃ r, readings4[p]? = some r ∧ cfg r.slot = e.code ∧
            (toResult BitVec.toInt timer (now t.mem (sampleAt 16384 i)))[p]? = some (BitVec.toInt
              (if p < 5 then
                squares.counter (0+2*5*i+5+p) r.select-squares.counter (0+2*5*i+p) r.select
              else 0)) :=
  ⟨_,_,rfl,libpfcRawAdapt_results BitVec.toInt clockAtOne rfl fiveEvents _ _ rfl squares
    .mixedLoadsRaw 20 1 4096 16384 caller caller_layout⟩

end UarchBench.RawPmc
