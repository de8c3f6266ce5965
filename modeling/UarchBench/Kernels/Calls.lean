import UarchBench.Base.Countdown
import UarchBench.Base.Visits
import UarchBench.Kernels.Machine

/-! Programs with calls, at the addresses that a layout gives their labels. A return goes to the
address on top of the stack, whatever it is. -/
namespace UarchBench.Calls
open Base Machine
variable {L : Type}

/-- Instructions that go on to the next one. -/
inductive Straight (L : Type)
  | op (i : Machine.Instr)
  /-- `lea r, [l]` or `lea r, [l + index*8]`. -/
  | leaLabel (r : Reg) (l : L) (index : Option Reg)

inductive Instr (L : Type)
  | straight (i : Straight L)
  | jmp (l : L)
  | jmpReg (r : Reg)
  | call (l : L)
  | callReg (r : Reg)
  | ret
  /-- An instruction and `jnz l` on its result. -/
  | opJnz (o : Op) (w : Width) (r : Reg) (src : Src) (l : L)
  /-- `dec r` and `jnz l`. -/
  | decJnz (r : Reg) (l : L)

structure Program (L : Type) where
  code : L → Instr L
  /-- The label behind a label. -/
  next : L → L
  /-- The labels that the program has. -/
  has : L → Prop

/-- The addresses of a program's labels. -/
structure Layout (P : Program L) where
  place : L → Word
  find : Word → Option L
  find_place : ∀ l, P.has l → find (place l) = some l

/-- The labels at the addresses from zero on, in order, each with as many bytes as every other. -/
def Layout.ofList [DecidableEq L] (P : Program L) (bytes : ℕ) (ls : List L)
    (hmem : ∀ l, P.has l → l ∈ ls) (hpos : 0 < bytes) (hlt : bytes*ls.length < 2^64) :
    Layout P where
  place l := BitVec.ofNat 64 (bytes*ls.idxOf l)
  find w := if bytes ∣ w.toNat then ls[w.toNat/bytes]? else none
  find_place l hl := by
    have hidx := List.idxOf_lt_length_of_mem (hmem l hl)
    have hplace : bytes*ls.idxOf l < 2^64 := lt_trans (Nat.mul_lt_mul_of_pos_left hidx hpos) hlt
    rw [BitVec.toNat_ofNat,Nat.mod_eq_of_lt hplace,if_pos (Nat.dvd_mul_right _ _),
      Nat.mul_div_cancel_left _ hpos,List.getElem?_eq_getElem hidx,List.getElem_idxOf]

structure State where
  cpu : Cpu
  pc : Word

section Step
variable {P : Program L} (lay : Layout P) (env : Env)

def Straight.exec (c : Cpu) : Straight L → Cpu
  | .op i => Machine.exec env c i
  | .leaLabel r l none => c.set r (lay.place l)
  | .leaLabel r l (some index) => c.set r (lay.place l+c.regs index*8)

def exec (l : L) (s : State) : State :=
  match P.code l with
  | .straight i => ⟨i.exec lay env s.cpu,lay.place (P.next l)⟩
  | .jmp l' => ⟨s.cpu,lay.place l'⟩
  | .jmpReg r => ⟨s.cpu,s.cpu.regs r⟩
  | .call l' => ⟨s.cpu.push (lay.place (P.next l)),lay.place l'⟩
  | .callReg r => ⟨s.cpu.push (lay.place (P.next l)),s.cpu.regs r⟩
  | .ret => ⟨s.cpu.set .rsp (s.cpu.regs .rsp+8),s.cpu.read (s.cpu.regs .rsp) 8⟩
  | .opJnz o w r src l' =>
    let v := w.trunc (o.apply (s.cpu.regs r) (src.value w s.cpu))
    ⟨s.cpu.set r v,if v ≠ 0 then lay.place l' else lay.place (P.next l)⟩
  | .decJnz r l' => ⟨s.cpu.set r (s.cpu.regs r-1),
      if (subFlags (s.cpu.regs r) 1).jnz then lay.place l' else lay.place (P.next l)⟩

/-- The label that the code is at. -/
def label (s : State) : Option L := lay.find s.pc

/-- One instruction; there is none outside of the program. -/
def step (s : State) : Option State := (lay.find s.pc).map (fun l => exec lay env l s)

/-- The labels that are visited until there is no next instruction. -/
def run (fuel : ℕ) (s : State) : Option (List (Option L)) :=
  visits (step lay env) (label lay) fuel s

/-- A path from label to label. -/
abbrev Goes (s : State) (l : List L) (t : State) : Prop :=
  Path (step lay env) (label lay) s (l.map some) t

variable {lay env}

lemma Goes.append {s t u : State} {l m : List L} (h : Goes lay env s l t)
    (h' : Goes lay env t m u) : Goes lay env s (l ++ m) u := by
  rw [Goes,List.map_append]
  exact Path.append h h'

lemma goes_one {s : State} {l : L} (hpc : s.pc = lay.place l) (hl : P.has l) :
    Goes lay env s [l] (exec lay env l s) := by
  have hlabel : label lay s = some l := by rw [label,hpc,lay.find_place l hl]
  have hstep : step lay env s = some (exec lay env l s) := by
    rw [step,hpc,lay.find_place l hl,Option.map_some]
  have hpath : Path (step lay env) (label lay) s [label lay s] _ := Path.single hstep
  rwa [hlabel] at hpath

/-- One instruction whose effect is known. -/
lemma goes_exec {c : Cpu} {l : L} {t : State} (hl : P.has l)
    (hexec : exec lay env l ⟨c,lay.place l⟩ = t) : Goes lay env ⟨c,lay.place l⟩ [l] t := by
  rw [← hexec]
  exact goes_one rfl hl

/-- One label after the other. -/
lemma goes_steps (states : ℕ → State) (mk : ℕ → L) (n : ℕ)
    (hpc : ∀ k < n, (states k).pc = lay.place (mk k)) (hhas : ∀ k < n, P.has (mk k))
    (h : ∀ k < n, exec lay env (mk k) (states k) = states (k+1)) :
    Goes lay env (states 0) ((List.range n).map mk) (states n) := by
  have hlabel : ∀ k ∈ List.range n, label lay (states k) = some (mk k) := fun k hk => by
    have hk := List.mem_range.mp hk
    rw [label,hpc k hk,lay.find_place _ (hhas k hk)]
  have hpath : Path (step lay env) (label lay) _ _ _ := Path.steps states n (fun k hk => by
    rw [step,hpc k hk,lay.find_place _ (hhas k hk),Option.map_some,h k hk])
  rw [List.map_congr_left hlabel] at hpath
  rw [Goes,List.map_map]
  exact hpath

/-- Straight code. -/
theorem goes_straight {seg : List (Straight L)} {mk go : ℕ → L} (c : Cpu)
    (hcode : ∀ k (h : k < seg.length), P.code (mk k) = .straight seg[k])
    (hnext : ∀ k < seg.length, P.next (mk k) = go (k+1))
    (hgo : ∀ k < seg.length, go k = mk k) (hhas : ∀ k < seg.length, P.has (mk k)) :
    Goes lay env ⟨c,lay.place (go 0)⟩ ((List.range seg.length).map mk)
      ⟨seg.foldl (Straight.exec lay env) c,lay.place (go seg.length)⟩ := by
  have hgoes : Goes lay env _ ((List.range seg.length).map mk) _ := goes_steps
    (fun k => ⟨(seg.take k).foldl (Straight.exec lay env) c,lay.place (go k)⟩) mk seg.length
    (fun k hk => congrArg lay.place (hgo k hk)) hhas (fun k hk => by
      rw [exec,hcode k hk,hnext k hk,← List.take_append_getElem hk,List.foldl_append]
      rfl)
  rwa [List.take_length] at hgoes

/-- Parts that keep an invariant. -/
theorem Goes.rounds {I : ℕ → State → Prop} (l : ℕ → List L) (n : ℕ)
    (h : ∀ k < n, ∀ s, I k s → ∃ t, Goes lay env s (l k) t ∧ I (k+1) t) {s : State} (hs : I 0 s) :
    ∃ t, Goes lay env s ((List.range n).flatMap l) t ∧ I n t := by
  have hrounds := Path.rounds_invariant (fun k => (l k).map some) n h hs
  rwa [← List.map_flatMap] at hrounds

/-- The loop that counts a register down: the body goes from the top to the decrement and keeps the
counter. The first trip may start elsewhere. -/
theorem Goes.loop_from (start : ℕ → L) {top again : L} {r : Reg}
    (hstart : ∀ k, start (k+1) = top) (hcode : P.code again = .decJnz r top)
    (hhas : P.has again) {I : ℕ → Cpu → Prop} {l : ℕ → List L} {c : Cpu}
    (h : ∀ k < decTrips (c.regs r), ∀ u, I k u → u.regs r = c.regs r-BitVec.ofNat 64 k →
      ∃ d, Goes lay env ⟨u,lay.place (start k)⟩ (l k) ⟨d,lay.place again⟩ ∧
        d.regs r = u.regs r ∧ I (k+1) (d.set r (d.regs r-1))) (hc : I 0 c) :
    ∃ d, Goes lay env ⟨c,lay.place (start 0)⟩
        ((List.range (decTrips (c.regs r))).flatMap (fun k => l k ++ [again]))
        ⟨d,lay.place (P.next again)⟩ ∧ I (decTrips (c.regs r)) d := by
  generalize hn : decTrips (c.regs r) = n at h
  have hpos : 0 < n := hn ▸ Nat.succ_pos _
  obtain ⟨t,hgoes,hpc,hinv,-⟩ : ∃ t, Goes lay env ⟨c,lay.place (start 0)⟩
      ((List.range n).flatMap (fun k => l k ++ [again])) t ∧
      t.pc = (if n < n then lay.place (start n) else lay.place (P.next again)) ∧ I n t.cpu ∧
        t.cpu.regs r = c.regs r-BitVec.ofNat 64 n := by
    refine Goes.rounds (I := fun k t => t.pc = (if k < n then lay.place (start k)
        else lay.place (P.next again)) ∧ I k t.cpu ∧ t.cpu.regs r = c.regs r-BitVec.ofNat 64 k) _ n
      (fun k hk t ht => ?_) ⟨(if_pos hpos).symm,hc,(BitVec.sub_zero _).symm⟩
    obtain ⟨hpc,hinv,hcounter⟩ := ht
    obtain ⟨d,hbody,hd,hinv'⟩ := h k hk t.cpu hinv hcounter
    have hagain : Goes lay env ⟨d,lay.place again⟩ [again] ⟨d.set r (d.regs r-1),
        if (subFlags (d.regs r) 1).jnz then lay.place top else lay.place (P.next again)⟩ :=
      goes_exec hhas (by rw [exec,hcode])
    rw [if_pos hk] at hpc
    have hfrom : t = ⟨t.cpu,lay.place (start k)⟩ := by rw [← hpc]
    rw [hfrom]
    refine ⟨_,hbody.append hagain,?_,hinv',?_⟩
    · rw [hd,hcounter,last_jnz (hn ▸ hk),hn,hstart]
      simp only [decide_eq_true_eq]
    · rw [Cpu.set_same,hd,hcounter,BitVec.ofNat_add]
      bv_omega
  rw [if_neg (lt_irrefl n)] at hpc
  refine ⟨t.cpu,?_,hinv⟩
  rwa [← hpc]

/-- The loop whose trips all start at the top. -/
theorem Goes.loop {top again : L} {r : Reg} (hcode : P.code again = .decJnz r top)
    (hhas : P.has again) {I : ℕ → Cpu → Prop} {l : ℕ → List L} {c : Cpu}
    (h : ∀ k < decTrips (c.regs r), ∀ u, I k u → u.regs r = c.regs r-BitVec.ofNat 64 k →
      ∃ d, Goes lay env ⟨u,lay.place top⟩ (l k) ⟨d,lay.place again⟩ ∧ d.regs r = u.regs r ∧
        I (k+1) (d.set r (d.regs r-1))) (hc : I 0 c) :
    ∃ d, Goes lay env ⟨c,lay.place top⟩
        ((List.range (decTrips (c.regs r))).flatMap (fun k => l k ++ [again]))
        ⟨d,lay.place (P.next again)⟩ ∧ I (decTrips (c.regs r)) d :=
  Goes.loop_from (fun _ => top) (fun _ => rfl) hcode hhas h hc

end Step

lemma push_read (c : Cpu) (v : Word) : (c.push v).read (c.regs .rsp-8) 8 = v := by
  have hsame := WrapMemory.load_store_same (m := c.mem) (a := c.regs .rsp-8) (v := v.toNat)
    (show 8 ≤ 2^64 by decide)
  have hlt : v.toNat < 256^8 := v.isLt
  rw [Cpu.read,Cpu.push,Cpu.write_mem,Cpu.set_mem,hsame,Nat.mod_eq_of_lt hlt,
    BitVec.ofNat_toNat,BitVec.setWidth_eq]

lemma push_rsp (c : Cpu) (v : Word) : (c.push v).regs .rsp = c.regs .rsp-8 := by
  rw [Cpu.push,Cpu.write_regs,Cpu.set_same]

lemma push_regs (c : Cpu) (v : Word) {r : Reg} (hr : r ≠ .rsp) :
    (c.push v).regs r = c.regs r := by
  rw [Cpu.push,Cpu.write_regs,Cpu.set_of_ne _ _ _ _ hr]

lemma push_mem (c : Cpu) (v : Word) {x : Word} (hx : 8 ≤ (x-(c.regs .rsp-8)).toNat) :
    (c.push v).mem x = c.mem x := WrapMemory.store_outside hx

/-- Only the bytes next below the stack pointer may differ. -/
def SameAbove (sp : Word) (bytes : ℕ) (m m' : WrapMemory 64) : Prop :=
  ∀ x, bytes ≤ (x-(sp-BitVec.ofNat 64 bytes)).toNat → m' x = m x

namespace SameAbove
variable {sp : Word} {bytes : ℕ} {m m' m'' : WrapMemory 64}

lemma trans (h : SameAbove sp bytes m m') (h' : SameAbove sp bytes m' m'') :
    SameAbove sp bytes m m'' := fun x hx => (h' x hx).trans (h x hx)

lemma mono {bytes' : ℕ} (h : SameAbove sp bytes m m') (hle : bytes ≤ bytes') :
    SameAbove sp bytes' m m' := fun x hx => h x (by bv_omega)

/-- What is on the stack. -/
lemma read {c d : Cpu} (h : SameAbove sp bytes c.mem d.mem) (hlt : bytes < 2^63) {o : ℕ}
    (ho : o < 2^32) : d.read (sp+BitVec.ofNat 64 o) 8 = c.read (sp+BitVec.ofNat 64 o) 8 := by
  have hload : d.mem.load (sp+BitVec.ofNat 64 o) 8 = c.mem.load (sp+BitVec.ofNat 64 o) 8 :=
    WrapMemory.load_congr (by decide) (fun x hx => h x (by bv_omega))
  rw [Cpu.read,Cpu.read,hload]

lemma read_top {c d : Cpu} (h : SameAbove sp bytes c.mem d.mem) (hlt : bytes < 2^63) :
    d.read sp 8 = c.read sp 8 := by
  have hread := h.read (o := 0) hlt (by decide)
  rwa [BitVec.add_zero] at hread

/-- A value on the stack with what is done below it. -/
lemma push {c d : Cpu} {v : Word}
    (h : SameAbove (c.regs .rsp-8) bytes (c.push v).mem d.mem) (hlt : bytes+8 < 2^63) :
    SameAbove (c.regs .rsp) (bytes+8) c.mem d.mem := fun x hx => by
  rw [h x (by bv_omega)]
  exact push_mem c v (by bv_omega)

end SameAbove

lemma push_sameAbove (c : Cpu) (v : Word) : SameAbove (c.regs .rsp) 8 c.mem (c.push v).mem :=
  fun _ hx => push_mem c v hx

lemma push_read_above (c : Cpu) (v : Word) {o : ℕ} (ho : o < 2^32) :
    (c.push v).read (c.regs .rsp+BitVec.ofNat 64 o) 8 =
      c.read (c.regs .rsp+BitVec.ofNat 64 o) 8 := (push_sameAbove c v).read (by decide) ho

lemma push_read_top (c : Cpu) (v : Word) :
    (c.push v).read (c.regs .rsp) 8 = c.read (c.regs .rsp) 8 :=
  (push_sameAbove c v).read_top (by decide)

def calleeSaved : List Reg := [.rbx,.rbp,.r12,.r13,.r14,.r15]

/-- A return to the caller, with some bytes used below its stack pointer. -/
structure Returned (bytes : ℕ) (s t : State) : Prop where
  pc : t.pc = s.cpu.read (s.cpu.regs .rsp) 8
  rsp : t.cpu.regs .rsp = s.cpu.regs .rsp+8
  regs : ∀ r ∈ calleeSaved, t.cpu.regs r = s.cpu.regs r
  mem : SameAbove (s.cpu.regs .rsp) bytes s.cpu.mem t.cpu.mem

/-- The run of a function whose caller is outside of the program. -/
lemma Returned.run_eq_some {P : Program L} {lay : Layout P} {env : Env} {bytes : ℕ} {s t : State}
    {l : List L} (h : Returned bytes s t) (hgoes : Goes lay env s l t)
    (hret : lay.find (s.cpu.read (s.cpu.regs .rsp) 8) = none) {fuel : ℕ} (hfuel : l.length < fuel) :
    run lay env fuel s = some (l.map some) := by
  have hend : step lay env t = none := by rw [step,h.pc,hret,Option.map_none]
  exact hgoes.visits_eq hend (by rwa [List.length_map])

/-- Code that leaves all registers but its scratch registers, and memory but for some bytes next below
the stack pointer. -/
structure Kept (scratch : List Reg) (bytes : ℕ) (c d : Cpu) : Prop where
  regs : ∀ r, r ∉ scratch → d.regs r = c.regs r
  mem : SameAbove (c.regs .rsp) bytes c.mem d.mem

namespace Kept
variable {scratch : List Reg} {bytes : ℕ} {b c d : Cpu}

lemma refl : Kept scratch bytes c c := ⟨fun _ _ => rfl,fun _ _ => rfl⟩

lemma trans (hrsp : .rsp ∉ scratch) (h : Kept scratch bytes b c) (h' : Kept scratch bytes c d) :
    Kept scratch bytes b d := by
  have hmem := h'.mem
  rw [h.regs _ hrsp] at hmem
  exact ⟨fun r hr => (h'.regs r hr).trans (h.regs r hr),h.mem.trans hmem⟩

lemma set (h : Kept scratch bytes c d) {r : Reg} (hr : r ∈ scratch) (v : Word) :
    Kept scratch bytes c (d.set r v) := by
  refine ⟨fun r' hr' => ?_,h.mem⟩
  rw [Cpu.set_of_ne _ _ _ _ (ne_of_mem_of_not_mem hr hr').symm]
  exact h.regs r' hr'

/-- The values on the stack. -/
lemma read (h : Kept scratch bytes c d) (hlt : bytes < 2^63) {o : ℕ} (ho : o < 2^32) :
    d.read (c.regs .rsp+BitVec.ofNat 64 o) 8 = c.read (c.regs .rsp+BitVec.ofNat 64 o) 8 :=
  h.mem.read hlt ho

/-- The return behind the code. -/
theorem leave_goes {P : Program L} {lay : Layout P} {env : Env} {leave : L}
    (h : Kept scratch bytes c d) (hscratch : ∀ r ∈ Reg.rsp::calleeSaved, r ∉ scratch)
    (hlt : bytes < 2^63) (hcode : P.code leave = .ret) (hhas : P.has leave) (pc : Word) :
    ∃ t, Goes lay env ⟨d,lay.place leave⟩ [leave] t ∧ Returned bytes ⟨c,pc⟩ t ∧
      ∀ r, r ≠ .rsp → t.cpu.regs r = d.regs r := by
  have hret : Goes lay env ⟨d,lay.place leave⟩ [leave]
      ⟨d.set .rsp (d.regs .rsp+8),d.read (d.regs .rsp) 8⟩ :=
    goes_exec hhas (by rw [exec,hcode])
  have hrsp : d.regs .rsp = c.regs .rsp := h.regs _ (hscratch _ (List.mem_cons_self ..))
  have hne : ∀ r ∈ calleeSaved, r ≠ .rsp := by decide
  rw [hrsp] at hret
  refine ⟨_,hret,⟨h.mem.read_top hlt,Cpu.set_same ..,fun r hr => ?_,h.mem⟩,
    fun r hr => Cpu.set_of_ne _ _ _ _ hr⟩
  rw [Cpu.set_of_ne _ _ _ _ (hne r hr)]
  exact h.regs r (hscratch r (List.mem_cons_of_mem _ hr))

end Kept

section Functions
variable {P : Program L} {lay : Layout P} {env : Env} {f : L} {l : List L} {bytes : ℕ}

/-- A function that returns with all other registers as they are, and memory but for the bytes next
below its return address. -/
def Callable (lay : Layout P) (env : Env) (f : L) (l : List L) (bytes : ℕ) : Prop :=
  ∀ c, ∃ d, Goes lay env ⟨c,lay.place f⟩ l ⟨d,c.read (c.regs .rsp) 8⟩ ∧
    d.regs = Function.update c.regs .rsp (c.regs .rsp+8) ∧
    SameAbove (c.regs .rsp) bytes c.mem d.mem

/-- A call of a function. -/
theorem Callable.call_goes (hf : Callable lay env f l bytes) (hlt : bytes+8 < 2^63) {site : L}
    (hcode : P.code site = .call f) (hhas : P.has site) (c : Cpu) :
    ∃ d, Goes lay env ⟨c,lay.place site⟩ (site::l) ⟨d,lay.place (P.next site)⟩ ∧
      d.regs = c.regs ∧ SameAbove (c.regs .rsp) (bytes+8) c.mem d.mem := by
  have hcall : Goes lay env ⟨c,lay.place site⟩ [site]
      ⟨c.push (lay.place (P.next site)),lay.place f⟩ := goes_exec hhas (by rw [exec,hcode])
  obtain ⟨d,hgoes,hregs,hmem⟩ := hf (c.push (lay.place (P.next site)))
  rw [push_rsp] at hregs hmem
  rw [push_rsp,push_read] at hgoes
  refine ⟨d,hcall.append hgoes,?_,hmem.push hlt⟩
  funext r
  by_cases hr : r = .rsp
  · rw [hregs,hr,Function.update_self]
    exact BitVec.sub_add_cancel _ _
  · rw [hregs,Function.update_of_ne hr,push_regs _ _ hr]

/-- A return of a function whose body has left the registers and the return address. -/
lemma ret_goes {c d : Cpu} {leave : L} (hcode : P.code leave = .ret) (hhas : P.has leave)
    (hregs : d.regs = c.regs) (hmem : SameAbove (c.regs .rsp) bytes c.mem d.mem)
    (hlt : bytes < 2^63) :
    ∃ e, Goes lay env ⟨d,lay.place leave⟩ [leave] ⟨e,c.read (c.regs .rsp) 8⟩ ∧
      e.regs = Function.update c.regs .rsp (c.regs .rsp+8) ∧
      SameAbove (c.regs .rsp) bytes c.mem e.mem := by
  have hret : Goes lay env ⟨d,lay.place leave⟩ [leave]
      ⟨d.set .rsp (d.regs .rsp+8),d.read (d.regs .rsp) 8⟩ :=
    goes_exec hhas (by rw [exec,hcode])
  rw [hregs,hmem.read_top hlt] at hret
  exact ⟨_,hret,by rw [Cpu.set,hregs],hmem⟩

/-- A function without calls. -/
theorem callable_straight {body : List (Straight L)} {mk : ℕ → L}
    (hcode : ∀ k (h : k < body.length), P.code (mk k) = .straight body[k])
    (hret : P.code (mk body.length) = .ret) (hnext : ∀ k < body.length, P.next (mk k) = mk (k+1))
    (hhas : ∀ k ≤ body.length, P.has (mk k)) (hlt : bytes < 2^63)
    (hbody : ∀ c, (body.foldl (Straight.exec lay env) c).regs = c.regs ∧
      SameAbove (c.regs .rsp) bytes c.mem (body.foldl (Straight.exec lay env) c).mem) :
    Callable lay env (mk 0) ((List.range (body.length+1)).map mk) bytes := fun c => by
  have hgoes : Goes lay env ⟨c,lay.place (mk 0)⟩ ((List.range body.length).map mk)
      ⟨body.foldl (Straight.exec lay env) c,lay.place (mk body.length)⟩ :=
    goes_straight c hcode hnext (fun _ _ => rfl) (fun k hk => hhas k hk.le)
  obtain ⟨hregs,hmem⟩ := hbody c
  obtain ⟨e,hleave,he⟩ := ret_goes hret (hhas _ le_rfl) hregs hmem hlt
  refine ⟨e,?_,he⟩
  rw [List.range_succ,List.map_append]
  exact hgoes.append hleave

/-- A function that calls another one. -/
theorem Callable.wrap (hf : Callable lay env f l bytes) (hlt : bytes+8 < 2^63) {enter leave : L}
    (hcode : P.code enter = .call f) (hnext : P.next enter = leave) (hret : P.code leave = .ret)
    (henter : P.has enter) (hleave : P.has leave) :
    Callable lay env enter (enter::l ++ [leave]) (bytes+8) := fun c => by
  obtain ⟨d,hgoes,hregs,hmem⟩ := hf.call_goes hlt hcode henter c
  rw [hnext] at hgoes
  obtain ⟨e,hend,he⟩ := ret_goes hret hleave hregs hmem hlt
  exact ⟨e,hgoes.append hend,he⟩

end Functions

/-- A caller with a hundred iterations. -/
def caller : Cpu := ⟨fun r => if r = .rdi then 100 else 65536,fun _ _ => 0,fun _ => 1,0⟩

def zeroEnv : Env := ⟨fun _ _ => 0,fun _ _ _ => 0⟩

end UarchBench.Calls
