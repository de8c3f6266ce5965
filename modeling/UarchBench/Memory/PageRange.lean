import UarchBench.Memory.Pagemap

/-! The pages of an address range: which of them get an entry, and where their words are in the
pagemap. -/
namespace UarchBench.Pagemap
open Base

section Pages
variable {psize : BitVec 32} (hpow : isPow2 psize = true)
include hpow

lemma psize_pow : ∃ k < 32, psize.toNat = 2^k ∧ (psize.setWidth 64).toNat = 2^k := by
  obtain ⟨k,hk,hpsize⟩ := isPow2_toNat hpow
  have hlt := psize.isLt
  exact ⟨k,hk,hpsize,by rw [BitVec.toNat_setWidth,Nat.mod_eq_of_lt (by omega),hpsize]⟩

lemma pagedown_toNat (p : Word) :
    (pagedown p psize).toNat = p.toNat/psize.toNat*psize.toNat := by
  obtain ⟨k,hk,hpsize,hwide⟩ := psize_pow hpow
  rw [pagedown,toNat_and_neg (by omega) hwide,hpsize]

end Pages

/-- The numbers of the first and the last page that meet the range. -/
def firstPage (psize : BitVec 32) (start : Word) : ℕ := start.toNat/psize.toNat

def lastPage (psize : BitVec 32) (finish : Word) : ℕ := (finish.toNat-1)/psize.toNat

/-- The pages of a range number `n`, and its sizes in bytes are those of the machine: the pointer
difference is a signed number, the file offset too, and the array of results is addressable. -/
structure PagesFit (psize : BitVec 32) (first n : ℕ) : Prop where
  span : n*psize.toNat < 2^63
  offset : first*8 < 2^63
  array : (n+1)*24 < 2^64

/-- For a page size of 16 bytes or more only the span matters. -/
theorem pagesFit_of_span {psize : BitVec 32} (hpsize : 16 ≤ psize.toNat) (start : Word) {n : ℕ}
    (hspan : n*psize.toNat < 2^63) : PagesFit psize (firstPage psize start) n := by
  have hstart := start.isLt
  have hfirst : firstPage psize start ≤ start.toNat/16 :=
    Nat.div_le_div_left hpsize (by decide)
  have hn : n*16 ≤ n*psize.toNat := Nat.mul_le_mul_left n hpsize
  exact ⟨hspan,by omega,by omega⟩

section Range
variable {psize : BitVec 32} (hpow : isPow2 psize = true) {start finish : Word}
include hpow

lemma endPage_toNat (hpos : 0 < finish.toNat) (hend : finish.toNat+psize.toNat ≤ 2^64) :
    (pagedown (finish-1) psize+psize.setWidth 64).toNat =
      (lastPage psize finish+1)*psize.toNat := by
  obtain ⟨k,hk,hpsize,hwide⟩ := psize_pow hpow
  have hpred : (finish-1).toNat = finish.toNat-1 := by
    rw [toNat_pred (by omega)]
    omega
  have hle := Nat.div_mul_le_self (finish.toNat-1) psize.toNat
  rw [BitVec.toNat_add,pagedown_toNat hpow,hwide,← hpsize,hpred,lastPage,Nat.succ_mul]
  exact Nat.mod_eq_of_lt (by omega)

variable (hlt : start.toNat < finish.toNat) (hend : finish.toNat+psize.toNat ≤ 2^64)
include hlt hend

omit hpow hend in
lemma firstPage_le_lastPage : firstPage psize start ≤ lastPage psize finish :=
  Nat.div_le_div_right (by omega)

lemma startPage_lt_endPage :
    pagedown start psize < pagedown (finish-1) psize+psize.setWidth 64 := by
  obtain ⟨k,-,hpsize,-⟩ := psize_pow hpow
  have hpos := Nat.two_pow_pos k
  rw [BitVec.lt_def,pagedown_toNat hpow,endPage_toNat hpow (by omega) hend]
  exact Nat.mul_lt_mul_of_pos_right (Nat.lt_succ_of_le (firstPage_le_lastPage hlt)) (by omega)

/-- The count is the number of pages from the first to the last. -/
theorem pageCount_toNat
    (hspan : (lastPage psize finish+1-firstPage psize start)*psize.toNat < 2^63) :
    (pageCount psize start finish).toNat =
      lastPage psize finish+1-firstPage psize start := by
  obtain ⟨k,hk,hpsize,hwide⟩ := psize_pow hpow
  have hpos := Nat.two_pow_pos k
  have hdiff : (pagedown (finish-1) psize+psize.setWidth 64-pagedown start psize).toNat =
      (lastPage psize finish+1-firstPage psize start)*psize.toNat := by
    rw [BitVec.toNat_sub_of_le (BitVec.le_of_lt (startPage_lt_endPage hpow hlt hend)),
      endPage_toNat hpow (by omega) hend,pagedown_toNat hpow,Nat.sub_mul]
    rfl
  have hwideLt : 2^k < 2^63 := Nat.pow_lt_pow_right (by omega) (by omega)
  rw [pageCount,if_pos (BitVec.lt_def.mpr hlt),BitVec.sdiv_eq,BitVec.msb_eq_decide,
    BitVec.msb_eq_decide,hdiff,hwide,decide_eq_false (by omega),decide_eq_false (by omega)]
  change (_ / _ : Word).toNat = _
  rw [BitVec.toNat_udiv,hdiff,hwide,hpsize,Nat.mul_div_cancel _ hpos]

omit hlt hend in
/-- The seek goes to the word of the first page. -/
lemma pagemapOffset_toNat (hoffset : firstPage psize start*8 < 2^63) :
    (pagemapOffset psize start).toNat = firstPage psize start*8 := by
  obtain ⟨k,hk,hpsize,hwide⟩ := psize_pow hpow
  have hpos := Nat.two_pow_pos k
  rw [pagemapOffset,BitVec.toNat_mul,BitVec.toNat_udiv,pagedown_toNat hpow,hwide,hpsize,
    Nat.mul_div_cancel _ hpos,← hpsize]
  exact Nat.mod_eq_of_lt (by change firstPage psize start*8 < _; omega)

omit hlt hend in
lemma rangeWord_eq (sys : System) (hoffset : firstPage psize start*8 < 2^63) (i : ℕ) :
    rangeWord sys psize start i =
      sys.pagemap.bind (fun pagemap => pagemap (firstPage psize start+i)) := by
  rw [rangeWord,pagemapOffset_toNat hpow hoffset,Nat.mul_div_cancel _ (by decide)]

end Range

/-- One entry for every page that meets the range, in address order, each decoded from the pagemap
word of its page. -/
structure EntryPerPage (sys : System) (psize : BitVec 32) (start finish : Word)
    (infos : List PageInfo) : Prop where
  pages : ∀ q, (q*psize.toNat < finish.toNat ∧ start.toNat < (q+1)*psize.toNat) ↔
    ∃ i < infos.length, q = firstPage psize start+i
  decoded : ∀ i info, infos[i]? = some info → ∃ pagemap bits, sys.pagemap = some pagemap ∧
    pagemap (firstPage psize start+i) = some bits ∧ decode sys bits = some info

/-- The operating system delivers what is needed for `n` pages. -/
structure Readable (sys : System) (first n : ℕ) : Prop where
  infos : sys.malloc ((n+1)*24) = true
  bitmap : sys.malloc (n*8) = true
  words : ∃ pagemap, sys.pagemap = some pagemap ∧ ∀ i < n, ∃ bits,
    pagemap (first+i) = some bits ∧ (decode sys bits).isSome

/-- The pages between the first and the last one are those that meet the range. -/
lemma page_meets_iff {psize : BitVec 32} (hpos : 0 < psize.toNat) {start finish : Word}
    (hfinish : 0 < finish.toNat) (q : ℕ) :
    (q*psize.toNat < finish.toNat ∧ start.toNat < (q+1)*psize.toNat) ↔
      firstPage psize start ≤ q ∧ q ≤ lastPage psize finish := by
  rw [firstPage,lastPage,Nat.le_div_iff_mul_le hpos,← Nat.lt_succ_iff,Nat.div_lt_iff_lt_mul hpos]
  constructor
  · rintro ⟨hq,hq'⟩
    exact ⟨hq',by omega⟩
  · rintro ⟨hq',hq⟩
    exact ⟨by omega,hq'⟩

/-- The bitmap of readable words. -/
lemma readBitmap_returns {sys : System} {psize : BitVec 32} (hpow : isPow2 psize = true)
    {start count : Word} {n : ℕ} (hcount : count.toNat = n) (hpos : 0 < n)
    (hfit : PagesFit psize (firstPage psize start) n)
    (hread : Readable sys (firstPage psize start) n) :
    ∃ bitmap, readBitmap sys psize start count = .ok bitmap ∧ bitmap.length = n ∧
      ∀ bits ∈ bitmap, (decode sys bits).isSome := by
  obtain ⟨pagemap,hpagemap,hwords⟩ := hread.words
  have harray := hfit.array
  have hoffset := hfit.offset
  have hbytes : (count*8).toNat = n*8 := by
    rw [BitVec.toNat_mul,hcount]
    exact Nat.mod_eq_of_lt (by change n*8 < _; omega)
  have hseek : (pagemapOffset psize start).msb = false := by
    rw [BitVec.msb_eq_decide,pagemapOffset_toNat hpow hoffset]
    exact decide_eq_false (by omega)
  have hsome : ∀ i < n, (pagemap (firstPage psize start+i)).isSome := fun i hi => by
    obtain ⟨bits,hbits,-⟩ := hwords i hi
    rw [hbits]
    rfl
  obtain ⟨bitmap,hbitmap,hlength⟩ := readWords_returns hsome
  refine ⟨bitmap,?_,hlength,fun bits hbits => ?_⟩
  · simp only [readBitmap,hpagemap,hseek,hbytes,hread.bitmap,
      pagemapOffset_toNat hpow hoffset,Nat.mul_div_cancel _ (show 0 < 8 by decide),hbitmap]
    rw [if_neg (by decide),if_neg (by decide),if_neg (by omega)]
  · obtain ⟨i,hi⟩ := List.getElem?_of_mem hbits
    obtain ⟨bits',hbits',hdecode⟩ := hwords i (hlength ▸ (List.getElem?_eq_some_iff.mp hi).1)
    obtain rfl := Option.some.inj ((readWords_get hbitmap i bits hi).symm.trans hbits')
    exact hdecode

/-- The array of results has one entry more than needed. -/
lemma infosCapacity_eq {sys : System} {count : Word} {n : ℕ} (hcount : count.toNat = n)
    (harray : (n+1)*24 < 2^64) (hmalloc : sys.malloc ((n+1)*24) = true) :
    infosCapacity sys count = n+1 := by
  have hbytes : ((count+1)*24).toNat = (n+1)*24 := by
    rw [BitVec.toNat_mul,BitVec.toNat_add,hcount]
    change (n+1)%2^64*24%2^64 = _
    omega
  simp only [infosCapacity,hbytes,hmalloc,if_true,sizeofPageInfo]
  exact Nat.mul_div_cancel _ (by decide)

section Entries
variable {sys : System} {psize : BitVec 32} (hsize : getPageSize sys = .ok psize)
  (hpow : isPow2 psize = true)
include hsize

/-- An empty range needs no file. -/
theorem getInfoForRange_empty {start finish : Word} (h : finish.toNat ≤ start.toNat) :
    getInfoForRange sys start finish = .ok [] := by
  have hzero : pageCount psize start finish = 0 :=
    if_neg (by rw [BitVec.lt_def]; omega)
  rw [getInfoForRange,hsize]
  change (if _ then _ else if _ then _ else _) = _
  rw [if_neg (not_not.mpr (.inl hzero)),if_pos hzero]

variable {start finish : Word} (hlt : start.toNat < finish.toNat)
  (hend : finish.toNat+psize.toNat ≤ 2^64)
  (hfit : PagesFit psize (firstPage psize start) (lastPage psize finish+1-firstPage psize start))
include hpow hlt hend hfit

theorem getInfoForRange_entries {infos : List PageInfo}
    (h : getInfoForRange sys start finish = .ok infos) :
    EntryPerPage sys psize start finish infos ∧
      infos.length = lastPage psize finish+1-firstPage psize start := by
  obtain ⟨k,-,hpsize,-⟩ := psize_pow hpow
  have hpos := Nat.two_pow_pos k
  obtain ⟨hlength,hentry⟩ := getInfoForRange_ok hsize h
  rw [pageCount_toNat hpow hlt hend hfit.span] at hlength
  have hle : firstPage psize start ≤ lastPage psize finish := firstPage_le_lastPage hlt
  refine ⟨⟨fun q => ?_,fun i info hi => ?_⟩,hlength⟩
  · rw [page_meets_iff (by omega) (by omega),hlength]
    constructor
    · rintro ⟨hfirst,hlast⟩
      exact ⟨q-firstPage psize start,by omega,by omega⟩
    · rintro ⟨i,hi,rfl⟩
      exact ⟨by omega,by omega⟩
  · obtain ⟨bits,hbits,hdecode⟩ := hentry i info hi
    rw [rangeWord_eq hpow sys hfit.offset] at hbits
    obtain ⟨pagemap,hpagemap,hbits⟩ := Option.bind_eq_some_iff.mp hbits
    exact ⟨pagemap,bits,hpagemap,hbits,hdecode⟩

theorem getInfoForRange_returns
    (hread : Readable sys (firstPage psize start)
      (lastPage psize finish+1-firstPage psize start)) :
    ∃ infos, getInfoForRange sys start finish = .ok infos := by
  have hcount := pageCount_toNat hpow hlt hend hfit.span
  have hle : firstPage psize start ≤ lastPage psize finish := firstPage_le_lastPage hlt
  have hzero : pageCount psize start finish ≠ 0 := fun h => by
    rw [h] at hcount
    change 0 = _ at hcount
    omega
  obtain ⟨bitmap,hbitmap,hlength,hdecode⟩ :=
    readBitmap_returns hpow hcount (by omega) hfit hread
  have hroom : 0+(lastPage psize finish+1-firstPage psize start) ≤
      infosCapacity sys (pageCount psize start finish) := by
    rw [infosCapacity_eq hcount hfit.array hread.infos]
    omega
  obtain ⟨infos,hloop⟩ := pageLoop_returns (show FileState.Agrees sys .init from trivial) hroom
    hlength.ge hdecode
  refine ⟨infos,?_⟩
  rw [getInfoForRange,hsize]
  change (if _ then _ else if _ then _ else _) = _
  rw [if_neg (not_not.mpr (.inr (startPage_lt_endPage hpow hlt hend))),if_neg hzero]
  exact bind_eq_ok.mpr ⟨bitmap,hbitmap,hcount ▸ hloop⟩

end Entries

section OnePage
variable {sys : System} {psize : BitVec 32} (hsize : getPageSize sys = .ok psize)
  (hpow : isPow2 psize = true) {p : Word} (hend : p.toNat+1+psize.toNat ≤ 2^64)
  (hoffset : firstPage psize p*8 < 2^63)
include hpow hend

lemma onePage_toNat : (p+1).toNat = p.toNat+1 := by
  obtain ⟨k,-,hpsize,-⟩ := psize_pow hpow
  have hpos := Nat.two_pow_pos k
  rw [BitVec.toNat_add]
  exact Nat.mod_eq_of_lt (by change p.toNat+1 < _; omega)

lemma onePage_count : lastPage psize (p+1)+1-firstPage psize p = 1 := by
  rw [lastPage,onePage_toNat hpow hend,firstPage,Nat.add_sub_cancel,Nat.add_sub_cancel_left]

include hoffset in
lemma onePage_fits :
    PagesFit psize (firstPage psize p) (lastPage psize (p+1)+1-firstPage psize p) := by
  have hlt := psize.isLt
  rw [onePage_count hpow hend]
  exact ⟨by omega,hoffset,by decide⟩

include hsize hoffset

/-- The array of one page has one entry. -/
lemma onePage_entry {infos : List PageInfo} (h : getInfoForRange sys p (p+1) = .ok infos) :
    ∃ info pagemap bits, infos = [info] ∧ sys.pagemap = some pagemap ∧
      pagemap (firstPage psize p) = some bits ∧ decode sys bits = some info := by
  have hnext := onePage_toNat hpow hend
  obtain ⟨hentries,hlength⟩ := getInfoForRange_entries hsize hpow (by omega) (by omega)
    (onePage_fits hpow hend hoffset) h
  rw [onePage_count hpow hend] at hlength
  obtain ⟨info,rfl⟩ := List.length_eq_one_iff.mp hlength
  obtain ⟨pagemap,bits,hpagemap,hbits,hdecode⟩ := hentries.decoded 0 info rfl
  exact ⟨info,pagemap,bits,rfl,hpagemap,hbits,hdecode⟩

theorem getPageInfo_ok {info : PageInfo} (h : getPageInfo sys p = .ok info) :
    ∃ pagemap bits, sys.pagemap = some pagemap ∧ pagemap (firstPage psize p) = some bits ∧
      decode sys bits = some info := by
  obtain ⟨infos,hinfos,hone⟩ := bind_eq_ok.mp h
  obtain ⟨info',pagemap,bits,rfl,hpagemap,hbits,hdecode⟩ :=
    onePage_entry hsize hpow hend hoffset hinfos
  obtain rfl := Except.ok.inj hone
  exact ⟨pagemap,bits,hpagemap,hbits,hdecode⟩

theorem getPageInfo_returns (hread : Readable sys (firstPage psize p) 1) :
    ∃ info, getPageInfo sys p = .ok info := by
  have hnext := onePage_toNat hpow hend
  obtain ⟨infos,hinfos⟩ := getInfoForRange_returns hsize hpow (by omega) (by omega)
    (onePage_fits hpow hend hoffset) (by rwa [onePage_count hpow hend])
  obtain ⟨info,-,-,rfl,-⟩ := onePage_entry hsize hpow hend hoffset hinfos
  exact ⟨info,bind_eq_ok.mpr ⟨[info],hinfos,rfl⟩⟩

end OnePage

/-- For every page size the machine can have, a range whose page addresses fit the signed types of
the program gets one entry per page, an empty range none, and a single address exactly one. -/
theorem info_per_page (sys : System) (psize : BitVec 32) (hsize : getPageSize sys = .ok psize)
    (hpow : isPow2 psize = true) :
    (∀ start finish : Word, start.toNat < finish.toNat → finish.toNat+psize.toNat ≤ 2^64 →
      PagesFit psize (firstPage psize start) (lastPage psize finish+1-firstPage psize start) →
      (∀ infos, getInfoForRange sys start finish = .ok infos →
        EntryPerPage sys psize start finish infos) ∧
      (Readable sys (firstPage psize start)
          (lastPage psize finish+1-firstPage psize start) →
        ∃ infos, getInfoForRange sys start finish = .ok infos)) ∧
    (∀ start finish : Word, finish.toNat ≤ start.toNat →
      getInfoForRange sys start finish = .ok []) ∧
    ∀ p : Word, p.toNat+1+psize.toNat ≤ 2^64 → firstPage psize p*8 < 2^63 →
      (∀ infos, getInfoForRange sys p (p+1) = .ok infos → infos.length = 1) ∧
      (∀ info, getPageInfo sys p = .ok info → ∃ pagemap bits, sys.pagemap = some pagemap ∧
        pagemap (firstPage psize p) = some bits ∧ decode sys bits = some info) ∧
      (Readable sys (firstPage psize p) 1 → ∃ info, getPageInfo sys p = .ok info) := by
  refine ⟨fun start finish hlt hend hfit => ⟨fun infos h => ?_,fun hread => ?_⟩,
    fun start finish h => getInfoForRange_empty hsize h,
    fun p hend hoffset => ⟨fun infos h => ?_,fun info h => ?_,fun hread => ?_⟩⟩
  · exact (getInfoForRange_entries hsize hpow hlt hend hfit h).1
  · exact getInfoForRange_returns hsize hpow hlt hend hfit hread
  · obtain ⟨info,-,-,rfl,-⟩ := onePage_entry hsize hpow hend hoffset h
    rfl
  · exact getPageInfo_ok hsize hpow hend hoffset h
  · exact getPageInfo_returns hsize hpow hend hoffset hread

/-- A system on which every word can be read, with no frame numbers, and where an object may take up
all of the positive pointer differences. -/
def zeroPages (psize : ℤ) : System where
  sysconfPageSize := psize
  pagemap := some (fun _ => some 0)
  kpageflags := none
  malloc := fun size => size < 2^63

lemma zeroPages_readable (psize : ℤ) (first n : ℕ) (h : (n+1)*24 < 2^63) :
    Readable (zeroPages psize) first n where
  infos := decide_eq_true h
  bitmap := decide_eq_true (by omega)
  words := ⟨_,rfl,fun i _ => ⟨0,rfl,rfl⟩⟩

/-- Pages of 4096 bytes, on such a system. -/
theorem info_per_page_zeroPages :
    (∀ start finish : Word, start.toNat < finish.toNat → finish.toNat+4096 ≤ 2^64 →
      PagesFit 4096 (firstPage 4096 start) (lastPage 4096 finish+1-firstPage 4096 start) →
      (∀ infos, getInfoForRange (zeroPages 4096) start finish = .ok infos →
        EntryPerPage (zeroPages 4096) 4096 start finish infos) ∧
      (Readable (zeroPages 4096) (firstPage 4096 start)
          (lastPage 4096 finish+1-firstPage 4096 start) →
        ∃ infos, getInfoForRange (zeroPages 4096) start finish = .ok infos)) ∧
    (∀ start finish : Word, finish.toNat ≤ start.toNat →
      getInfoForRange (zeroPages 4096) start finish = .ok []) ∧
    ∀ p : Word, p.toNat+1+4096 ≤ 2^64 → firstPage 4096 p*8 < 2^63 →
      (∀ infos, getInfoForRange (zeroPages 4096) p (p+1) = .ok infos → infos.length = 1) ∧
      (∀ info, getPageInfo (zeroPages 4096) p = .ok info →
        ∃ pagemap bits, (zeroPages 4096).pagemap = some pagemap ∧
          pagemap (firstPage 4096 p) = some bits ∧ decode (zeroPages 4096) bits = some info) ∧
      (Readable (zeroPages 4096) (firstPage 4096 p) 1 →
        ∃ info, getPageInfo (zeroPages 4096) p = .ok info) :=
  info_per_page (zeroPages 4096) 4096 rfl rfl

/-- Everything needed can be read, and yet no entries are returned: half of the address space has a
negative pointer difference, and with pages of 8 bytes the offset of an upper page is negative. -/
theorem signed_differences_fail :
    (Readable (zeroPages 4096) (firstPage 4096 0) (lastPage 4096 0x8000000000000000+1) ∧
      getInfoForRange (zeroPages 4096) 0 0x8000000000000000 = .error (.assertion "bitmap")) ∧
    (Readable (zeroPages 8) (firstPage 8 0x8000000000000000) 1 ∧
      getPageInfo (zeroPages 8) 0x8000000000000000 = .error (.err "pagemap seek failed")) :=
  ⟨⟨zeroPages_readable _ _ _ (by decide),rfl⟩,zeroPages_readable _ _ _ (by decide),rfl⟩

end UarchBench.Pagemap
