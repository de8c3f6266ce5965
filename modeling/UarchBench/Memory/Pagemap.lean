import UarchBench.Base.Alignment
import UarchBench.Base.Progress

/-! The page attributes of an address range, read from `/proc/self/pagemap` and, for pages with a
frame number, from `/proc/kpageflags`. The two files, the page size and the allocator are given;
everything the process decides from them is computed here. -/
namespace UarchBench.Pagemap
open Base

abbrev Word := BitVec 64

/-- A file of 64-bit words, as far as it can be read. -/
abbrev WordFile := ℕ → Option Word

/-- The answers of the operating system; a file that cannot be opened is absent. -/
structure System where
  sysconfPageSize : ℤ
  pagemap : Option WordFile
  kpageflags : Option WordFile
  malloc : ℕ → Bool

/-- How the process ends when the functions do not return. -/
inductive Failure
  | err (message : String)
  | assertion (condition : String)
  | fault
  deriving DecidableEq, Repr

structure PageInfo where
  pfn : Word
  softdirty : Bool
  exclusive : Bool
  file : Bool
  swapped : Bool
  present : Bool
  kpageflagsOk : Bool := false
  kpageflags : Word := 0
  deriving DecidableEq, Repr

/-- `sizeof(page_info)`. -/
def sizeofPageInfo : ℕ := 24

def getPageSize (sys : System) : Except Failure (BitVec 32) :=
  if 1 ≤ sys.sysconfPageSize ∧ sys.sysconfPageSize ≤ 2^32-1 then
    .ok (BitVec.ofInt 32 sys.sysconfPageSize)
  else .error (.assertion "psize >= 1 && psize <= UINT_MAX")

/-- Round down to the page boundary. -/
def pagedown (p : Word) (psize : BitVec 32) : Word := p &&& -(psize.setWidth 64)

def pmPframeMask : Word := (1 <<< 55)-1

def extractInfo (bits : Word) : PageInfo where
  pfn := bits &&& pmPframeMask
  softdirty := bits.getLsbD 55
  exclusive := bits.getLsbD 56
  file := bits.getLsbD 61
  swapped := bits.getLsbD 62
  present := bits.getLsbD 63

/-- The difference of the page pointers is a signed number, and so is its quotient. -/
def pageCount (psize : BitVec 32) (start finish : Word) : Word :=
  let startPage := pagedown start psize
  let endPage := pagedown (finish-1) psize+psize.setWidth 64
  if start < finish then (endPage-startPage).sdiv (psize.setWidth 64) else 0

/-- The argument of the seek in the pagemap. -/
def pagemapOffset (psize : BitVec 32) (start : Word) : Word :=
  pagedown start psize/psize.setWidth 64*8

/-- `file_state`. -/
inductive FileState
  | init
  | opened (file : WordFile)
  | failed

/-- Open the file of the flags unless an earlier page did. -/
def FileState.next (sys : System) : FileState → FileState
  | init =>
    match sys.kpageflags with
    | none => failed
    | some file => opened file
  | opened file => opened file
  | failed => failed

/-- One page of the loop: decode its word, and fetch its flags if it has a frame number. -/
def pageStep (sys : System) (state : FileState) (bits : Word) :
    Except Failure (FileState × PageInfo) :=
  let info := extractInfo bits
  if info.pfn ≠ 0 then
    match state.next sys with
    | .opened file =>
      if (info.pfn*8).msb then .error (.err "kpageflags seek failed")
      else
        match file ((info.pfn*8).toNat/8) with
        | none => .error (.err "unexpected fread(kpageflags) return: 0")
        | some flags => .ok (.opened file,{ info with kpageflagsOk := true, kpageflags := flags })
    | state => .ok (state,info)
  else .ok (state,info)

/-- The loop over the pages; the array of results has room for `capacity` entries. -/
def pageLoop (sys : System) (capacity : ℕ) :
    ℕ → ℕ → List Word → FileState → Except Failure (List PageInfo)
  | 0, _, _, _ => .ok []
  | _+1, _, [], _ => .error .fault
  | n+1, idx, bits::bitmap, state => do
    let (state,info) ← pageStep sys state bits
    if idx < capacity then
      let infos ← pageLoop sys capacity n (idx+1) bitmap state
      return info::infos
    else throw .fault

/-- Read words from a file, all or none of them. -/
def readWords (file : WordFile) (index : ℕ) : ℕ → Option (List Word)
  | 0 => some []
  | count+1 => do
    let bits ← file index
    let rest ← readWords file (index+1) count
    return bits::rest

/-- The part of `get_info_for_range` that opens the pagemap, seeks, allocates the bitmap and reads
it; the product with the word size is taken modulo `2^64`. -/
def readBitmap (sys : System) (psize : BitVec 32) (start count : Word) :
    Except Failure (List Word) :=
  match sys.pagemap with
  | none => .error (.err "failed to open pagemap")
  | some pagemap =>
    let bitmapBytes := (count*8).toNat
    if (pagemapOffset psize start).msb then .error (.err "pagemap seek failed")
    else if ¬ sys.malloc bitmapBytes then .error (.assertion "bitmap")
    -- a read of no bytes reports no complete item
    else if bitmapBytes = 0 then .error (.err "unexpected fread(pagemap) return: 0")
    else
      match readWords pagemap ((pagemapOffset psize start).toNat/8) (bitmapBytes/8) with
      | none => .error (.err "unexpected fread(pagemap) return: 0")
      | some bitmap => .ok bitmap

/-- The room in the array `infos`; its allocation is not checked. -/
def infosCapacity (sys : System) (count : Word) : ℕ :=
  let infosBytes := ((count+1)*24).toNat
  if sys.malloc infosBytes then infosBytes/sizeofPageInfo else 0

/-- The array of `get_info_for_range`, with as many entries as its `num_pages`. -/
def getInfoForRange (sys : System) (start finish : Word) : Except Failure (List PageInfo) := do
  let psize ← getPageSize sys
  let count := pageCount psize start finish
  if ¬ (count = 0 ∨ pagedown start psize < pagedown (finish-1) psize+psize.setWidth 64) then
    .error (.assertion "page_count == 0 || start_page < end_page")
  else if count = 0 then .ok []
  else do
    let bitmap ← readBitmap sys psize start count
    pageLoop sys (infosCapacity sys count) count.toNat 0 bitmap .init

/-- `get_page_info`. -/
def getPageInfo (sys : System) (p : Word) : Except Failure PageInfo := do
  let onepage ← getInfoForRange sys p (p+1)
  match onepage with
  | [info] => return info
  | _ => throw (.assertion "onepage.num_pages == 1")

structure FlagCount where
  pagesSet : ℕ := 0
  pagesAvailable : ℕ := 0
  pagesTotal : ℕ := 0
  flag : ℤ := 0
  deriving DecidableEq, Repr

/-- The loop body of `get_flag_count`. -/
def countPage (flag : Word) (ret : FlagCount) (info : PageInfo) : FlagCount :=
  if info.kpageflagsOk then
    { ret with
      pagesSet := ret.pagesSet+(if info.kpageflags &&& flag = flag then 1 else 0)
      pagesAvailable := ret.pagesAvailable+1 }
  else ret

def getFlagCount (infos : List PageInfo) (flagNum : ℤ) : FlagCount :=
  if flagNum < 0 ∨ 63 < flagNum then {}
  else
    infos.foldl (countPage (1 <<< flagNum.toNat))
      { flag := flagNum, pagesTotal := infos.length }

/-- What a page word is turned into, whenever the file of the flags is opened. -/
def decode (sys : System) (bits : Word) : Option PageInfo :=
  let info := extractInfo bits
  if info.pfn = 0 then some info
  else
    match sys.kpageflags with
    | none => some info
    | some file =>
      (file info.pfn.toNat).map (fun flags =>
        { info with kpageflagsOk := true, kpageflags := flags })

/-- The state of the flag file agrees with the system. -/
def FileState.Agrees (sys : System) : FileState → Prop
  | init => True
  | opened file => sys.kpageflags = some file
  | failed => sys.kpageflags = none

lemma pfn_mul_eight (bits : Word) :
    ((extractInfo bits).pfn*8).msb = false ∧
      ((extractInfo bits).pfn*8).toNat/8 = (extractInfo bits).pfn.toNat := by
  have hlt : (extractInfo bits).pfn.toNat < 2^55 := by
    rw [extractInfo,BitVec.toNat_and]
    exact lt_of_le_of_lt Nat.and_le_right (by decide)
  have hmul : ((extractInfo bits).pfn*8).toNat = (extractInfo bits).pfn.toNat*8 := by
    rw [BitVec.toNat_mul]
    exact Nat.mod_eq_of_lt (by change _*8 < _; omega)
  rw [BitVec.msb_eq_decide,hmul]
  exact ⟨decide_eq_false (by omega),Nat.mul_div_cancel _ (by decide)⟩

lemma FileState.next_eq {sys : System} {state : FileState} (hstate : state.Agrees sys) :
    state.next sys =
      match sys.kpageflags with
      | none => failed
      | some file => opened file := by
  cases state with
  | init => rfl
  | opened file =>
    rw [show sys.kpageflags = some file from hstate]
    rfl
  | failed =>
    rw [show sys.kpageflags = none from hstate]
    rfl

/-- The step with its hidden file state decodes the word, or the process ends with an error. -/
theorem pageStep_eq {sys : System} {state : FileState} (hstate : state.Agrees sys) (bits : Word) :
    (∃ info state', decode sys bits = some info ∧ pageStep sys state bits = .ok (state',info) ∧
      state'.Agrees sys) ∨
    (decode sys bits = none ∧ ∃ e, pageStep sys state bits = .error e) := by
  obtain ⟨hseek,hindex⟩ := pfn_mul_eight bits
  by_cases hzero : (extractInfo bits).pfn = 0
  · refine .inl ⟨extractInfo bits,state,?_,?_,hstate⟩
    · simp [decode,hzero]
    · simp [pageStep,hzero]
  · have hpfn : (extractInfo bits).pfn ≠ 0#64 := hzero
    cases hfile : sys.kpageflags with
    | none =>
      refine .inl ⟨extractInfo bits,.failed,?_,?_,hfile⟩
      · simp [decode,hfile]
      · simp [pageStep,hpfn,FileState.next_eq hstate,hfile]
    | some file =>
      cases hflags : file (extractInfo bits).pfn.toNat with
      | none =>
        refine .inr ⟨?_,.err "unexpected fread(kpageflags) return: 0",?_⟩
        · simp [decode,hpfn,hfile,hflags]
        · simp only [pageStep,FileState.next_eq hstate,hfile,hseek,hindex,hflags]
          simp [hpfn]
      | some flags =>
        refine .inl ⟨{ extractInfo bits with kpageflagsOk := true, kpageflags := flags },
          .opened file,?_,?_,hfile⟩
        · simp [decode,hpfn,hfile,hflags]
        · simp only [pageStep,FileState.next_eq hstate,hfile,hseek,hindex,hflags]
          simp [hpfn]

/-- A finished loop has decoded as many words as there are pages, in order. -/
theorem pageLoop_ok {sys : System} {capacity n idx : ℕ} {bitmap : List Word} {state : FileState}
    (hstate : state.Agrees sys) {infos : List PageInfo}
    (h : pageLoop sys capacity n idx bitmap state = .ok infos) :
    infos.length = n ∧
      List.Forall₂ (fun bits info => decode sys bits = some info) (bitmap.take n) infos := by
  induction n generalizing idx bitmap state infos with
  | zero =>
    obtain rfl : [] = infos := Except.ok.inj h
    simp
  | succ n ih =>
    cases bitmap with
    | nil => cases h
    | cons bits bitmap =>
      obtain ⟨⟨state',info⟩,hstep,hrest⟩ := bind_eq_ok.mp h
      split_ifs at hrest with hroom
      obtain ⟨infos,hloop,hpure⟩ := bind_eq_ok.mp hrest
      obtain rfl : info::infos = _ := Except.ok.inj hpure
      rcases pageStep_eq hstate bits with ⟨info',state'',hdecode,hok,hagrees⟩ | ⟨-,e,he⟩
      · obtain ⟨rfl,rfl⟩ := Prod.mk.inj (Except.ok.inj (hok.symm.trans hstep))
        obtain ⟨hlength,hall⟩ := ih hagrees hloop
        exact ⟨by rw [List.length_cons,hlength],.cons hdecode hall⟩
      · rw [he] at hstep
        cases hstep

/-- With room for all entries, and every word decodable, the loop finishes. -/
theorem pageLoop_returns {sys : System} {capacity n idx : ℕ} {bitmap : List Word}
    {state : FileState} (hstate : state.Agrees sys) (hroom : idx+n ≤ capacity)
    (hlength : n ≤ bitmap.length) (hdecode : ∀ bits ∈ bitmap, (decode sys bits).isSome) :
    ∃ infos, pageLoop sys capacity n idx bitmap state = .ok infos := by
  induction n generalizing idx bitmap state with
  | zero => exact ⟨[],rfl⟩
  | succ n ih =>
    cases bitmap with
    | nil => simp at hlength
    | cons bits bitmap =>
      rcases pageStep_eq hstate bits with ⟨info,state',-,hok,hagrees⟩ | ⟨hnone,-⟩
      · obtain ⟨infos,hinfos⟩ := ih hagrees (show idx+1+n ≤ capacity by omega)
          (by simpa using hlength)
          (fun bits' hbits' => hdecode bits' (List.mem_cons_of_mem _ hbits'))
        refine ⟨info::infos,bind_eq_ok.mpr ⟨_,hok,?_⟩⟩
        simp only [if_pos (show idx < capacity by omega)]
        exact bind_eq_ok.mpr ⟨infos,hinfos,rfl⟩
      · have hsome := hdecode bits List.mem_cons_self
        rw [hnone] at hsome
        simp at hsome

lemma readWords_get {file : WordFile} {index count : ℕ} {words : List Word}
    (h : readWords file index count = some words) (i : ℕ) (bits : Word)
    (hi : words[i]? = some bits) : file (index+i) = some bits := by
  induction count generalizing index words i with
  | zero =>
    obtain rfl : [] = words := Option.some.inj h
    simp at hi
  | succ count ih =>
    rw [readWords] at h
    obtain ⟨first,hfirst,h⟩ := Option.bind_eq_some_iff.mp h
    obtain ⟨rest,hrest,h⟩ := Option.bind_eq_some_iff.mp h
    obtain rfl : first::rest = words := Option.some.inj h
    cases i with
    | zero => rw [Nat.add_zero,hfirst]; simpa using hi
    | succ i =>
      rw [show index+(i+1) = index+1+i by omega]
      exact ih hrest i (by simpa using hi)

lemma readWords_returns {file : WordFile} {index count : ℕ}
    (h : ∀ i < count, (file (index+i)).isSome) :
    ∃ words, readWords file index count = some words ∧ words.length = count := by
  induction count generalizing index with
  | zero => exact ⟨[],rfl,rfl⟩
  | succ count ih =>
    obtain ⟨bits,hbits⟩ := Option.isSome_iff_exists.mp (h 0 (Nat.succ_pos _))
    have hshift : ∀ i < count, (file (index+1+i)).isSome := fun i hi => by
      have := h (i+1) (by omega)
      rwa [show index+(i+1) = index+1+i by omega] at this
    obtain ⟨rest,hrest,hlength⟩ := ih hshift
    refine ⟨bits::rest,?_,by rw [List.length_cons,hlength]⟩
    rw [readWords,show file index = some bits from hbits,hrest]
    rfl

/-- The pagemap word that is read for page `i` of the range. -/
def rangeWord (sys : System) (psize : BitVec 32) (start : Word) (i : ℕ) : Option Word :=
  sys.pagemap.bind (fun pagemap => pagemap ((pagemapOffset psize start).toNat/8+i))

lemma exists_getElem?_of_forall₂ {α β : Type} {R : α → β → Prop} {l : List α} {l' : List β}
    (h : List.Forall₂ R l l') {i : ℕ} {b : β} (hb : l'[i]? = some b) :
    ∃ a, l[i]? = some a ∧ R a b := by
  induction h generalizing i with
  | nil => simp at hb
  | cons hab hrest ih =>
    cases i with
    | zero =>
      obtain rfl := Option.some.inj hb
      exact ⟨_,rfl,hab⟩
    | succ i => exact ih hb

lemma readBitmap_ok {sys : System} {psize : BitVec 32} {start count : Word} {bitmap : List Word}
    (h : readBitmap sys psize start count = .ok bitmap) (i : ℕ) (bits : Word)
    (hi : bitmap[i]? = some bits) : rangeWord sys psize start i = some bits := by
  rw [readBitmap] at h
  cases hpagemap : sys.pagemap with
  | none => simp [hpagemap] at h
  | some pagemap =>
    simp only [hpagemap] at h
    split_ifs at h
    cases hwords : readWords pagemap ((pagemapOffset psize start).toNat/8) ((count*8).toNat/8) with
    | none => simp only [hwords,reduceCtorEq] at h
    | some words =>
      simp only [hwords,Except.ok.injEq] at h
      rw [rangeWord,hpagemap]
      exact readWords_get (h ▸ hwords) i bits hi

/-- The array has one entry per counted page, each decoded from the word of its page. -/
theorem getInfoForRange_ok {sys : System} {psize : BitVec 32} (hsize : getPageSize sys = .ok psize)
    {start finish : Word} {infos : List PageInfo}
    (h : getInfoForRange sys start finish = .ok infos) :
    infos.length = (pageCount psize start finish).toNat ∧
      ∀ i info, infos[i]? = some info →
        ∃ bits, rangeWord sys psize start i = some bits ∧ decode sys bits = some info := by
  rw [getInfoForRange,hsize] at h
  change (if _ then _ else if _ then _ else _) = _ at h
  split_ifs at h with hassert hzero
  · obtain rfl : [] = infos := Except.ok.inj h
    rw [hzero]
    simp
  · obtain ⟨bitmap,hbitmap,hloop⟩ := bind_eq_ok.mp h
    obtain ⟨hlength,hall⟩ := pageLoop_ok (show FileState.Agrees sys .init from trivial) hloop
    refine ⟨hlength,fun i info hi => ?_⟩
    obtain ⟨bits,hbits,hdecode⟩ := exists_getElem?_of_forall₂ hall hi
    have hlt : i < (pageCount psize start finish).toNat := by
      by_contra hle
      rw [List.getElem?_take_eq_none (by omega)] at hbits
      cases hbits
    rw [List.getElem?_take_of_lt hlt] at hbits
    exact ⟨bits,readBitmap_ok hbitmap i bits hbits,hdecode⟩

/-- The three ways a word is decoded. -/
lemma decode_cases {sys : System} {bits : Word} {info : PageInfo}
    (h : decode sys bits = some info) :
    (bits &&& pmPframeMask = 0 ∧ info = extractInfo bits) ∨
    (bits &&& pmPframeMask ≠ 0 ∧ sys.kpageflags = none ∧ info = extractInfo bits) ∨
    ∃ file flags, bits &&& pmPframeMask ≠ 0 ∧ sys.kpageflags = some file ∧
      file (bits &&& pmPframeMask).toNat = some flags ∧
      info = { extractInfo bits with kpageflagsOk := true, kpageflags := flags } := by
  rw [decode] at h
  by_cases hzero : (extractInfo bits).pfn = 0
  · simp only [if_pos hzero,Option.some.injEq] at h
    exact .inl ⟨hzero,h.symm⟩
  · cases hfile : sys.kpageflags with
    | none =>
      simp only [if_neg hzero,hfile,Option.some.injEq] at h
      exact .inr (.inl ⟨hzero,rfl,h.symm⟩)
    | some file =>
      simp only [if_neg hzero,hfile,Option.map_eq_some_iff] at h
      obtain ⟨flags,hflags,rfl⟩ := h
      exact .inr (.inr ⟨file,flags,hzero,rfl,hflags,rfl⟩)

lemma decode_present {sys : System} {bits : Word} {info : PageInfo}
    (h : decode sys bits = some info) : info.present = bits.getLsbD 63 := by
  rcases decode_cases h with ⟨-,rfl⟩ | ⟨-,-,rfl⟩ | ⟨file,flags,-,-,-,rfl⟩ <;> rfl

/-- Flags are fetched for a nonzero frame number, from an open file. -/
lemma decode_flags {sys : System} {bits : Word} {info : PageInfo}
    (h : decode sys bits = some info) (hok : info.kpageflagsOk = true) :
    bits &&& pmPframeMask ≠ 0 ∧ ∃ file, sys.kpageflags = some file ∧
      file (bits &&& pmPframeMask).toNat = some info.kpageflags := by
  rcases decode_cases h with ⟨-,rfl⟩ | ⟨-,-,rfl⟩ | ⟨file,flags,hpfn,hfile,hflags,rfl⟩
  · cases hok
  · cases hok
  · exact ⟨hpfn,file,hfile,hflags⟩

lemma decode_ok {sys : System} {bits : Word} {info : PageInfo}
    (h : decode sys bits = some info) (hpfn : bits &&& pmPframeMask ≠ 0)
    (hfile : sys.kpageflags ≠ none) : info.kpageflagsOk = true := by
  rcases decode_cases h with ⟨hzero,-⟩ | ⟨-,hnone,-⟩ | ⟨file,flags,-,-,-,rfl⟩
  · exact absurd hzero hpfn
  · exact absurd hnone hfile
  · rfl

lemma foldl_countPage_available (flag : Word) (ret : FlagCount) (infos : List PageInfo) :
    (infos.foldl (countPage flag) ret).pagesAvailable =
      ret.pagesAvailable+infos.countP (fun info => info.kpageflagsOk) := by
  induction infos generalizing ret with
  | nil => rfl
  | cons info infos ih =>
    rw [List.foldl_cons,ih,List.countP_cons,countPage]
    by_cases hok : info.kpageflagsOk = true
    · rw [if_pos hok,if_pos hok]
      change ret.pagesAvailable+1+_ = _
      omega
    · rw [if_neg hok,if_neg hok,Nat.add_zero]

theorem getFlagCount_available (infos : List PageInfo) (flagNum : ℤ) :
    (getFlagCount infos flagNum).pagesAvailable =
      if flagNum < 0 ∨ 63 < flagNum then 0 else infos.countP (fun info => info.kpageflagsOk) := by
  rw [getFlagCount]
  split_ifs
  · rfl
  · rw [foldl_countPage_available,Nat.zero_add]

/-- Every page with flags has a physical frame, and the flags are those of that frame; pages
without one do not count as available. -/
structure Attributed (sys : System) (psize : BitVec 32) (start : Word) (infos : List PageInfo) :
    Prop where
  flags : ∀ i info, infos[i]? = some info → info.kpageflagsOk = true →
    ∃ bits file, rangeWord sys psize start i = some bits ∧ bits.getLsbD 63 = true ∧
      sys.kpageflags = some file ∧
      file (bits &&& pmPframeMask).toNat = some info.kpageflags
  available : ∀ flagNum,
    (getFlagCount (infos.filter (fun info => !info.present)) flagNum).pagesAvailable = 0

/-- The flags are attributed correctly exactly if no word of the range has frame number bits
without the present bit, or the flags cannot be read at all: the loop looks at the number only. -/
theorem attributed_iff {sys : System} {psize : BitVec 32} (hsize : getPageSize sys = .ok psize)
    {start finish : Word} {infos : List PageInfo}
    (h : getInfoForRange sys start finish = .ok infos) :
    Attributed sys psize start infos ↔
      sys.kpageflags = none ∨
      ∀ i < (pageCount psize start finish).toNat, ∀ bits,
        rangeWord sys psize start i = some bits → bits &&& pmPframeMask ≠ 0 →
          bits.getLsbD 63 = true := by
  obtain ⟨hlength,hentry⟩ := getInfoForRange_ok hsize h
  constructor
  · intro hattributed
    refine or_iff_not_imp_left.mpr fun hfile i hi bits hbits hpfn => ?_
    rw [← hlength] at hi
    have hget := List.getElem?_eq_getElem hi
    obtain ⟨bits',hbits',hdecode⟩ := hentry i _ hget
    obtain rfl := Option.some.inj (hbits.symm.trans hbits')
    obtain ⟨bits',file,hbits',hpresent,-⟩ :=
      hattributed.flags i _ hget (decode_ok hdecode hpfn hfile)
    obtain rfl := Option.some.inj (hbits.symm.trans hbits')
    exact hpresent
  · intro hcond
    have hpresent : ∀ i info, infos[i]? = some info → info.kpageflagsOk = true →
        ∃ bits file, rangeWord sys psize start i = some bits ∧ bits.getLsbD 63 = true ∧
          sys.kpageflags = some file ∧
          file (bits &&& pmPframeMask).toNat = some info.kpageflags := by
      intro i info hi hok
      obtain ⟨bits,hbits,hdecode⟩ := hentry i info hi
      obtain ⟨hpfn,file,hfile,hflags⟩ := decode_flags hdecode hok
      rcases hcond with hnone | hcond
      · rw [hnone] at hfile
        cases hfile
      · have hlt : i < infos.length := (List.getElem?_eq_some_iff.mp hi).1
        exact ⟨bits,file,hbits,hcond i (hlength ▸ hlt) bits hbits hpfn,hfile,hflags⟩
    refine ⟨hpresent,fun flagNum => ?_⟩
    rw [getFlagCount_available]
    split_ifs
    · rfl
    · refine List.countP_eq_zero.mpr fun info hinfo hok => ?_
      obtain ⟨hmem,habsent⟩ := List.mem_filter.mp hinfo
      obtain ⟨i,hi⟩ := List.getElem?_of_mem hmem
      obtain ⟨bits,hbits,hdecode⟩ := hentry i info hi
      obtain ⟨bits',file,hbits',hbit,-⟩ := hpresent i info hi hok
      obtain rfl := Option.some.inj (hbits.symm.trans hbits')
      rw [decode_present hdecode,hbit] at habsent
      cases habsent

/-- One page that was swapped out to offset 5, on a machine where the flags can be read. -/
def swappedPage : System where
  sysconfPageSize := 4096
  pagemap := some (fun _ => some 0x40000000000000a0)
  kpageflags := some (fun _ => some 0x400000)
  malloc := fun size => size < 2^47

/-- The page that holds no frame gets the flags of the frame with the number of its swap slot. -/
theorem swappedPage_attributed_wrong :
    getInfoForRange swappedPage 0x1000 0x2000 =
      .ok [⟨0xa0,false,false,false,true,false,true,0x400000⟩] ∧
    ¬ Attributed swappedPage 4096 0x1000 [⟨0xa0,false,false,false,true,false,true,0x400000⟩] := by
  refine ⟨rfl,fun h => ?_⟩
  have hcount := h.available 22
  simp [getFlagCount,countPage] at hcount

/-- The condition of the theorem for that page. -/
theorem attributed_iff_swappedPage :
    Attributed swappedPage 4096 0x1000 [⟨0xa0,false,false,false,true,false,true,0x400000⟩] ↔
      swappedPage.kpageflags = none ∨
      ∀ i < (pageCount 4096 0x1000 0x2000).toNat, ∀ bits,
        rangeWord swappedPage 4096 0x1000 i = some bits → bits &&& pmPframeMask ≠ 0 →
          bits.getLsbD 63 = true :=
  attributed_iff rfl rfl

end UarchBench.Pagemap
