import UarchBench.Base.Decimal
import UarchBench.Base.Numbered
import UarchBench.Memory.Pagemap
import UarchBench.Util.Split

/-! The table of the ratios of pages with a flag: a header and a row, whose totals are counted in
one loop over all flags. The row goes to two streams. -/
namespace UarchBench.Pagemap
open Base Util

structure Flag where
  flagNum : ℕ
  name : Text
  showDefault : Bool

/-- `FLAG_SHOW`. -/
def flagShow (flagNum : ℕ) (name : String) : Flag := ⟨flagNum,name.toList,true⟩

/-- `FLAG_HIDE`. -/
def flagHide (flagNum : ℕ) (name : String) : Flag := ⟨flagNum,name.toList,false⟩

/-- Which of the newer flags the headers of the kernel define. -/
structure KernelHeaders where
  balloon : Bool
  zeroPage : Bool
  idle : Bool

/-- `kpageflag_defs` up to the sentinel. -/
def kpageflagDefs (headers : KernelHeaders) : List Flag :=
  [flagShow 0 "LOCKED",flagHide 1 "ERROR",flagHide 2 "REFERENCED",flagHide 3 "UPTODATE",
   flagHide 4 "DIRTY",flagHide 5 "LRU",flagShow 6 "ACTIVE",flagShow 7 "SLAB",
   flagHide 8 "WRITEBACK",flagHide 9 "RECLAIM",flagShow 10 "BUDDY",flagShow 11 "MMAP",
   flagShow 12 "ANON",flagShow 13 "SWAPCACHE",flagShow 14 "SWAPBACKED",
   flagShow 15 "COMPOUND_HEAD",flagShow 16 "COMPOUND_TAIL",flagShow 17 "HUGE",
   flagShow 18 "UNEVICTABLE",flagShow 19 "HWPOISON",flagShow 20 "NOPAGE",flagShow 21 "KSM",
   flagShow 22 "THP"] ++
  (if headers.balloon then [flagShow 23 "BALLOON"] else []) ++
  (if headers.zeroPage then [flagShow 24 "ZERO_PAGE"] else []) ++
  (if headers.idle then [flagShow 25 "IDLE"] else [])

/-- The members of a page in `PAGEMAP_X`. -/
def pagemapX : List (PageInfo → Bool) :=
  [PageInfo.softdirty,PageInfo.exclusive,PageInfo.file,PageInfo.swapped,PageInfo.present]

/-- One call of `fprintf` or `printf`. -/
structure Write (F : Type) where
  file : F
  text : Text

/-- What the calls have written to a stream. -/
def written {F : Type} [DecidableEq F] (out : List (Write F)) (file : F) : Text :=
  (out.filter (fun w => w.file = file)).flatMap Write.text

section Printing
variable {F : Type} (headers : KernelHeaders) (stdout file : F) (infos : List PageInfo)

/-- `%4.4s` of the name. -/
def title (f : Flag) : Text := (f.name.take 4).leftpad 4 ' '

def fprintInfoHeader : List (Write F) :=
  [⟨file,"         PFN  sdirty   excl   file swappd presnt ".toList⟩] ++
  (kpageflagDefs headers).flatMap (fun f =>
    if f.showDefault then [⟨file,title f ++ [' ']⟩] else []) ++
  [⟨file,['\n']⟩]

/-- The locals of `fprint_ratios_noheader`. -/
structure RatioTotals where
  accum : List ℕ
  totalKpageOk : ℕ
  flagTotals : List ℕ

/-- The loop body; the index runs over all flags, shown or not. -/
def addPage (s : RatioTotals) (info : PageInfo) : RatioTotals :=
  let accum := s.accum.zipWith (fun a member => a+(member info).toNat) pagemapX
  if info.kpageflagsOk then
    { accum := accum
      totalKpageOk := s.totalKpageOk+1
      flagTotals := (kpageflagDefs headers).zipIdx.foldl (fun totals f =>
        totals.modify f.2 (·+(info.kpageflags &&& ((1 : Word) <<< f.1.flagNum) != 0).toNat))
        s.flagTotals }
  else {s with accum := accum}

/-- The totals behind the loop over the pages. -/
def ratioTotals : RatioTotals := infos.foldl (addPage headers) ⟨List.replicate pagemapX.length 0,0,
  List.replicate (kpageflagDefs headers).length 0⟩

/-- The quotient of two counts in double precision. -/
def ratio (a b : ℕ) : ℚ := roundDouble (roundDouble a/roundDouble b)

def fprintRatiosNoheader : List (Write F) :=
  let s := ratioTotals headers infos
  [⟨stdout,"----------".toList.leftpad 12 ' ' ++ [' ']⟩] ++
  s.accum.map (fun a => ⟨file,(fixed 4 (ratio a infos.length)).leftpad 7 ' '⟩) ++
  (if 0 < s.totalKpageOk then
    (kpageflagDefs headers).zipIdx.flatMap (fun f => if f.1.showDefault then
      [⟨file,' '::(fixed 2 (ratio (s.flagTotals.getD f.2 0) s.totalKpageOk)).leftpad 4 ' '⟩]
      else [])
  else []) ++
  [⟨file,['\n']⟩]

def fprintRatios : List (Write F) :=
  fprintInfoHeader headers file ++ fprintRatiosNoheader headers stdout file infos

end Printing

/-- The flags that the table shows. -/
def shownFlags (headers : KernelHeaders) : List Flag :=
  (kpageflagDefs headers).filter Flag.showDefault

/-- The ratio of the pages with a flag. -/
def flagRatio (infos : List PageInfo) (f : Flag) : ℚ :=
  ratio (getFlagCount infos f.flagNum).pagesSet (getFlagCount infos f.flagNum).pagesAvailable

/-- What the calls should have done: a header line and a row with the same columns in one stream,
whose counts are those of `get_flag_count`, and nothing in any other stream. The two loops agree on the
flags that are hidden, too. -/
structure RatioTable {F : Type} [DecidableEq F] (headers : KernelHeaders) (file : F)
    (infos : List PageInfo) (out : List (Write F)) : Prop where
  lines : ∃ header row, written out file = header ++ ['\n'] ++ (row ++ ['\n']) ∧
    '\n' ∉ header ∧ '\n' ∉ row ∧
    words ' ' header = ["PFN".toList,"sdirty".toList,"excl".toList,"file".toList,
      "swappd".toList,"presnt".toList] ++ (shownFlags headers).map (fun f => f.name.take 4) ∧
    words ' ' row = ["----------".toList] ++
      pagemapX.map (fun member => fixed 4 (ratio (infos.countP member) infos.length)) ++
      (shownFlags headers).map (fun f => fixed 2 (flagRatio infos f))
  only : ∀ w ∈ out, w.file = file
  counts : ∀ f ∈ kpageflagDefs headers,
    (getFlagCount infos f.flagNum).pagesSet ≤ (getFlagCount infos f.flagNum).pagesAvailable ∧
    (getFlagCount infos f.flagNum).pagesAvailable ≤ (getFlagCount infos f.flagNum).pagesTotal ∧
    (getFlagCount infos f.flagNum).pagesTotal = infos.length
  agree : (ratioTotals headers infos).flagTotals =
      (kpageflagDefs headers).map (fun f => (getFlagCount infos f.flagNum).pagesSet) ∧
    ∀ f ∈ kpageflagDefs headers,
      (getFlagCount infos f.flagNum).pagesAvailable = (ratioTotals headers infos).totalKpageOk

/-- The page is counted for the flag. -/
def Flag.setOn (f : Flag) (info : PageInfo) : Bool :=
  info.kpageflagsOk && info.kpageflags &&& ((1 : Word) <<< f.flagNum) != 0

lemma cast_bit (n : ℕ) : ((1 <<< n : ℕ) : Word) = (1 : Word) <<< n := by
  apply BitVec.eq_of_toNat_eq
  simp [BitVec.toNat_shiftLeft]

/-- For a single bit, both loops test the same. -/
lemma and_bit_eq_iff (x : Word) {n : ℕ} (hn : n < 64) :
    x &&& ((1 : Word) <<< n) = (1 : Word) <<< n ↔ x &&& ((1 : Word) <<< n) ≠ 0 := by
  have hbit : x &&& ((1 : Word) <<< n) = if x.getLsbD n then (1 : Word) <<< n else 0 :=
    BitVec.and_twoPow x n
  have hne : (1 : Word) <<< n ≠ 0 := by
    intro hzero
    have hget := congrArg (fun w => w.getLsbD n) hzero
    simp [hn] at hget
  rw [hbit]
  split_ifs with h
  · exact iff_of_true rfl hne
  · exact iff_of_false hne.symm (fun hzero => hzero rfl)

lemma foldl_countPage_set (flag : Word) (ret : FlagCount) (infos : List PageInfo) :
    (infos.foldl (countPage flag) ret).pagesSet = ret.pagesSet+
      infos.countP (fun info => info.kpageflagsOk && decide (info.kpageflags &&& flag = flag)) := by
  induction infos generalizing ret with
  | nil => rfl
  | cons info infos ih =>
    rw [List.foldl_cons,ih,List.countP_cons,countPage]
    cases info.kpageflagsOk with
    | false => rfl
    | true =>
      by_cases h : info.kpageflags &&& flag = flag
      · simp [h]; omega
      · simp [h]

lemma foldl_countPage_total (flag : Word) (ret : FlagCount) (infos : List PageInfo) :
    (infos.foldl (countPage flag) ret).pagesTotal = ret.pagesTotal := by
  induction infos generalizing ret with
  | nil => rfl
  | cons info infos ih =>
    rw [List.foldl_cons,ih,countPage]
    split_ifs <;> rfl

lemma getFlagCount_set (infos : List PageInfo) {f : Flag} (hf : f.flagNum < 64) :
    (getFlagCount infos f.flagNum).pagesSet = infos.countP f.setOn := by
  rw [getFlagCount,if_neg (by omega),foldl_countPage_set,Nat.zero_add,Int.toNat_natCast,cast_bit]
  refine List.countP_congr (fun info _ => ?_)
  rw [Flag.setOn,Bool.and_eq_true,Bool.and_eq_true,decide_eq_true_eq,bne_iff_ne,
    and_bit_eq_iff _ hf]

lemma getFlagCount_total (infos : List PageInfo) {f : Flag} (hf : f.flagNum < 64) :
    (getFlagCount infos f.flagNum).pagesTotal = infos.length := by
  rw [getFlagCount,if_neg (by omega),foldl_countPage_total]

/-- The totals for some pages. -/
def totalsOf (headers : KernelHeaders) (infos : List PageInfo) : RatioTotals :=
  ⟨pagemapX.map infos.countP,infos.countP PageInfo.kpageflagsOk,
    (kpageflagDefs headers).map (fun f => infos.countP f.setOn)⟩

lemma countP_concat (p : PageInfo → Bool) (infos : List PageInfo) (info : PageInfo) :
    (infos ++ [info]).countP p = infos.countP p+(p info).toNat := by
  rw [List.countP_append,List.countP_singleton]
  cases p info <;> rfl

/-- One trip counts one page more. -/
lemma addPage_totalsOf (headers : KernelHeaders) (done : List PageInfo) (info : PageInfo) :
    addPage headers (totalsOf headers done) info = totalsOf headers (done ++ [info]) := by
  have haccum : (pagemapX.map done.countP).zipWith (fun a member => a+(member info).toNat)
      pagemapX = pagemapX.map (done ++ [info]).countP := by
    rw [List.zipWith_map_left,List.zipWith_self]
    exact List.map_congr_left (fun member _ => (countP_concat member done info).symm)
  have hconcat : ∀ f : Flag, (done ++ [info]).countP f.setOn =
      done.countP f.setOn+(f.setOn info).toNat := fun f => countP_concat _ done info
  rw [addPage,totalsOf,totalsOf,haccum,countP_concat]
  cases hok : info.kpageflagsOk with
  | false =>
    have hoff : ∀ f : Flag, (f.setOn info).toNat = 0 := fun f => by rw [Flag.setOn,hok]; rfl
    simp [hconcat,hoff]
  | true =>
    have hon : ∀ f : Flag, f.setOn info = (info.kpageflags &&& ((1 : Word) <<< f.flagNum) != 0) :=
      fun f => by rw [Flag.setOn,hok,Bool.true_and]
    have hflags := foldl_modify (fun f : Flag =>
      (info.kpageflags &&& ((1 : Word) <<< f.flagNum) != 0).toNat) (kpageflagDefs headers) 0 []
      ((kpageflagDefs headers).map (fun f => done.countP f.setOn)) rfl (List.length_map _)
    rw [List.nil_append,List.nil_append,List.zipWith_map_left,List.zipWith_self] at hflags
    simp only [hconcat,hon,hflags,if_true,Bool.toNat_true]

theorem foldl_addPage (headers : KernelHeaders) (done infos : List PageInfo) :
    infos.foldl (addPage headers) (totalsOf headers done) = totalsOf headers (done ++ infos) := by
  induction infos generalizing done with
  | nil => rw [List.append_nil]; rfl
  | cons info infos ih =>
    rw [List.foldl_cons,addPage_totalsOf,ih,List.append_assoc]
    rfl

lemma ratioTotals_eq (headers : KernelHeaders) (infos : List PageInfo) :
    ratioTotals headers infos = totalsOf headers infos := by
  have hstart : (⟨List.replicate pagemapX.length 0,0,
      List.replicate (kpageflagDefs headers).length 0⟩ : RatioTotals) = totalsOf headers [] := by
    simp [totalsOf,List.map_const']
  rw [ratioTotals,hstart,foldl_addPage,List.nil_append]

lemma flags_wellFormed (headers : KernelHeaders) : ∀ f ∈ kpageflagDefs headers,
    f.flagNum < 64 ∧ ' ' ∉ f.name.take 4 ∧ '\n' ∉ f.name.take 4 ∧ f.name.take 4 ≠ [] := by
  obtain ⟨balloon,zeroPage,idle⟩ := headers
  cases balloon <;> cases zeroPage <;> cases idle <;> decide

/-- A column of the header with the blank behind it. -/
lemma title_padded {headers : KernelHeaders} {f : Flag} (hf : f ∈ kpageflagDefs headers) :
    Padded ' ' (title f) (f.name.take 4) := by
  obtain ⟨-,hblank,-,hne⟩ := flags_wellFormed headers f hf
  exact ⟨⟨_,rfl⟩,hblank,hne⟩

/-- The columns of the header in front of the flags, with the blanks in front of each. -/
def headerFields : List (ℕ × Text) :=
  [(9,"PFN".toList),(1,"sdirty".toList),(2,"excl".toList),(2,"file".toList),(0,"swappd".toList),
   (0,"presnt".toList)]

/-- The text of these columns, with the blank behind each. -/
def headerFieldsText : Text :=
  headerFields.flatMap (fun t => (List.replicate t.1 ' ' ++ t.2) ++ [' '])

lemma headerFieldsText_eq :
    "         PFN  sdirty   excl   file swappd presnt ".toList = headerFieldsText := by
  decide +kernel

section Lines
variable {F : Type} (headers : KernelHeaders) (stdout file : F) {infos : List PageInfo}

lemma fprintInfoHeader_eq : fprintInfoHeader headers file = [⟨file,headerFieldsText⟩] ++
      (shownFlags headers).map (fun f => ⟨file,title f ++ [' ']⟩) ++ [⟨file,['\n']⟩] := by
  have hflags := flatMap_if Flag.showDefault (fun f => (⟨file,title f ++ [' ']⟩ : Write F))
    (kpageflagDefs headers)
  unfold fprintInfoHeader
  rw [headerFieldsText_eq,hflags,shownFlags]

/-- The row prints the counts of the flags that are shown. -/
lemma fprintRatiosNoheader_eq (hok : ∃ info ∈ infos, info.kpageflagsOk = true) :
    fprintRatiosNoheader headers stdout file infos =
      [⟨stdout,"----------".toList.leftpad 12 ' ' ++ [' ']⟩] ++
      pagemapX.map (fun member =>
        ⟨file,(fixed 4 (ratio (infos.countP member) infos.length)).leftpad 7 ' '⟩) ++
      (shownFlags headers).map (fun f =>
        ⟨file,' '::(fixed 2 (flagRatio infos f)).leftpad 4 ' '⟩) ++ [⟨file,['\n']⟩] := by
  have hpos : 0 < infos.countP PageInfo.kpageflagsOk := List.countP_pos_iff.mpr hok
  have hflags : (kpageflagDefs headers).zipIdx.flatMap (fun f => if f.1.showDefault then
      [(⟨file,' '::(fixed 2 (ratio ((totalsOf headers infos).flagTotals.getD f.2 0)
        (totalsOf headers infos).totalKpageOk)).leftpad 4 ' '⟩ : Write F)] else []) =
      (shownFlags headers).map (fun f =>
        ⟨file,' '::(fixed 2 (flagRatio infos f)).leftpad 4 ' '⟩) := by
    refine flatMap_zipIdx_if Flag.showDefault (fun i f hf => ?_)
    obtain ⟨hnum,-⟩ := flags_wellFormed headers f (List.mem_of_getElem? hf)
    have hget : (totalsOf headers infos).flagTotals.getD i 0 = infos.countP f.setOn := by
      rw [totalsOf,List.getD_eq_getElem?_getD,List.getElem?_map,hf]
      rfl
    have havailable : (getFlagCount infos f.flagNum).pagesAvailable =
        infos.countP PageInfo.kpageflagsOk := by
      rw [getFlagCount_available,if_neg (by omega)]
    rw [hget,flagRatio,getFlagCount_set infos hnum,havailable]
    rfl
  rw [fprintRatiosNoheader,ratioTotals_eq]
  simp only [hflags]
  rw [if_pos (show 0 < (totalsOf headers infos).totalKpageOk from hpos),totalsOf,List.map_map]
  rfl

end Lines

/-- The header without its end of line. -/
def headerLine (headers : KernelHeaders) : Text :=
  headerFieldsText ++ (shownFlags headers).flatMap (fun f => title f ++ [' '])

/-- The row without its end of line. -/
def rowLine (headers : KernelHeaders) (infos : List PageInfo) : Text :=
  "----------".toList.leftpad 12 ' ' ++ ' '::(pagemapX.flatMap (fun member =>
      (fixed 4 (ratio (infos.countP member) infos.length)).leftpad 7 ' ') ++
    (shownFlags headers).flatMap (fun f => ' '::(fixed 2 (flagRatio infos f)).leftpad 4 ' '))

lemma headerFields_padded : ∀ t ∈ headerFields,
    Padded ' ' (List.replicate t.1 ' ' ++ t.2) t.2 := by
  have hnames : ∀ t ∈ headerFields, ' ' ∉ t.2 ∧ t.2 ≠ [] := by decide
  exact fun t ht => ⟨⟨t.1,rfl⟩,(hnames t ht).1,(hnames t ht).2⟩

lemma shownFlags_mem {headers : KernelHeaders} {f : Flag} (hf : f ∈ shownFlags headers) :
    f ∈ kpageflagDefs headers := List.mem_of_mem_filter hf

lemma words_headerLine (headers : KernelHeaders) : words ' ' (headerLine headers) =
    headerFields.map Prod.snd ++ (shownFlags headers).map (fun f => f.name.take 4) := by
  have hflags := words_trailing
    (fun f (hf : f ∈ shownFlags headers) => title_padded (shownFlags_mem hf)) []
  rw [List.append_nil,words_nil,List.append_nil] at hflags
  rw [headerLine,headerFieldsText,words_trailing headerFields_padded,hflags]

/-- A ratio of two counts is far below ten. -/
lemma ratio_le {a b : ℕ} (h : a ≤ b) (hb : 0 < b) : ratio a b ≤ 13/6 := by
  obtain ⟨ha,ha'⟩ := roundDouble_nat a
  obtain ⟨hb',-⟩ := roundDouble_nat b
  have hle : (a : ℚ) ≤ b := by exact_mod_cast h
  have hnonneg : (0 : ℚ) ≤ a := a.cast_nonneg
  have hpos : (0 : ℚ) < b := by exact_mod_cast hb
  have hden : 0 < roundDouble b := by linarith
  have hquot : roundDouble a/roundDouble b ≤ 5/3 := by
    rw [div_le_iff₀ hden]
    linarith
  have hquot' : 0 ≤ roundDouble a/roundDouble b := div_nonneg (by linarith) hden.le
  have hround := roundDouble_le_add_half (x := roundDouble a/roundDouble b) (by
    rw [abs_of_nonneg hquot']
    linarith)
  rw [ratio]
  linarith

/-- The ratio takes six characters, so a blank is in front of it. -/
lemma accum_padded {a b : ℕ} (h : a ≤ b) (hb : 0 < b) :
    Padded ' ' ((fixed 4 (ratio a b)).leftpad 7 ' ') (fixed 4 (ratio a b)) ∧
      Breaks ' ' ((fixed 4 (ratio a b)).leftpad 7 ' ') := by
  have hdigits : halfEven (ratio a b*10^4) < 10*10^4 := by
    have hnear := (abs_le.mp (abs_halfEven_sub_le (ratio a b*10^4))).2
    have hratio := ratio_le h hb
    have hcast : (halfEven (ratio a b*10^4) : ℚ) < (10*10^4 : ℤ) := calc
      (halfEven (ratio a b*10^4) : ℚ) ≤ ratio a b*10^4+1/2 := sub_le_iff_le_add'.mp hnear
      _ ≤ 13/6*10^4+1/2 := by gcongr
      _ < (10*10^4 : ℤ) := by norm_num
    exact_mod_cast hcast
  have hlen := length_fixed_le (x := ratio a b) (by decide) hdigits
  refine ⟨⟨⟨_,rfl⟩,not_mem_fixed (by decide) (by decide) _ _,fixed_ne_nil _ _⟩,Or.inr ?_⟩
  obtain ⟨k,hk⟩ : ∃ k, 7-(fixed 4 (ratio a b)).length = k+1 :=
    ⟨6-(fixed 4 (ratio a b)).length,by omega⟩
  rw [List.leftpad,hk]
  exact ⟨_,rfl⟩

lemma words_rowLine (headers : KernelHeaders) {infos : List PageInfo} (hne : infos ≠ []) :
    words ' ' (rowLine headers infos) = ["----------".toList] ++
      pagemapX.map (fun member => fixed 4 (ratio (infos.countP member) infos.length)) ++
      (shownFlags headers).map (fun f => fixed 2 (flagRatio infos f)) := by
  have hcolumn : ∀ f ∈ shownFlags headers,
      Padded ' ' (' '::(fixed 2 (flagRatio infos f)).leftpad 4 ' ') (fixed 2 (flagRatio infos f)) ∧
        Breaks ' ' (' '::(fixed 2 (flagRatio infos f)).leftpad 4 ' ') := fun f _ =>
    ⟨⟨⟨_+1,rfl⟩,not_mem_fixed (by decide) (by decide) _ _,fixed_ne_nil _ _⟩,Or.inr ⟨_,rfl⟩⟩
  have hflags := words_leading hcolumn (Or.inl rfl)
  have hpos : 0 < infos.length := List.length_pos_iff.mpr hne
  have haccum := words_leading (l := pagemapX)
    (fun member _ => accum_padded (List.countP_le_length (p := member)) hpos) hflags.2
  have hdashes : Padded ' ' ("----------".toList.leftpad 12 ' ') "----------".toList :=
    ⟨⟨2,rfl⟩,by decide,by decide⟩
  rw [List.append_nil,words_nil,List.append_nil] at hflags
  rw [List.append_nil] at haccum
  rw [rowLine,words_padded hdashes (Or.inr ⟨_,rfl⟩),words_blank,haccum.1,hflags.1]
  rfl

lemma not_mem_leftpad {c : Char} (hc : c ≠ ' ') {n : ℕ} {s : Text} (h : c ∉ s) :
    c ∉ s.leftpad n ' ' := by
  rw [List.leftpad,List.mem_append]
  rintro (hmem | hmem)
  · exact hc (List.eq_of_mem_replicate hmem)
  · exact h hmem

lemma newline_not_mem_headerLine (headers : KernelHeaders) : '\n' ∉ headerLine headers := by
  have hfields : '\n' ∉ headerFieldsText := by decide +kernel
  rw [headerLine,List.mem_append]
  rintro (h | h)
  · exact hfields h
  · obtain ⟨f,hf,h⟩ := List.mem_flatMap.mp h
    obtain ⟨-,-,hname,-⟩ := flags_wellFormed headers f (shownFlags_mem hf)
    rcases List.mem_append.mp h with h | h
    · exact not_mem_leftpad (by decide) hname h
    · exact absurd h (by decide)

lemma newline_not_mem_rowLine (headers : KernelHeaders) (infos : List PageInfo) :
    '\n' ∉ rowLine headers infos := by
  have hfixed : ∀ precision x n, '\n' ∉ (fixed precision x).leftpad n ' ' := fun precision x n =>
    not_mem_leftpad (by decide) (not_mem_fixed (by decide) (by decide) precision x)
  have hdashes : '\n' ∉ "----------".toList.leftpad 12 ' ' :=
    not_mem_leftpad (by decide) (by decide)
  rw [rowLine,List.mem_append,List.mem_cons,List.mem_append]
  rintro (h | h | h | h)
  · exact hdashes h
  · cases h
  · obtain ⟨member,-,h⟩ := List.mem_flatMap.mp h
    exact hfixed _ _ _ h
  · obtain ⟨f,-,h⟩ := List.mem_flatMap.mp h
    rcases List.mem_cons.mp h with h | h
    · cases h
    · exact hfixed _ _ _ h

/-- With one stream for everything, both lines arrive there. -/
lemma written_fprintRatios {F : Type} [DecidableEq F] (headers : KernelHeaders) (file : F)
    {infos : List PageInfo} (hok : ∃ info ∈ infos, info.kpageflagsOk = true) :
    (∀ w ∈ fprintRatios headers file file infos, w.file = file) ∧
    written (fprintRatios headers file file infos) file =
      headerLine headers ++ ['\n'] ++ (rowLine headers infos ++ ['\n']) := by
  have hall : ∀ w ∈ fprintRatios headers file file infos, w.file = file := by
    rw [fprintRatios,fprintInfoHeader_eq,fprintRatiosNoheader_eq headers file file hok]
    intro w hw
    simp only [List.mem_append,List.mem_singleton,List.mem_map] at hw
    rcases hw with ((rfl | ⟨f,-,rfl⟩) | rfl) | (((rfl | ⟨member,-,rfl⟩) | ⟨f,-,rfl⟩) | rfl) <;> rfl
  refine ⟨hall,?_⟩
  rw [written,List.filter_eq_self.mpr (fun w hw => decide_eq_true (hall w hw)),fprintRatios,
    fprintInfoHeader_eq,fprintRatiosNoheader_eq headers file file hok]
  simp only [List.flatMap_append,List.flatMap_cons,List.flatMap_nil,List.flatMap_map,headerLine,
    rowLine,List.append_assoc,List.cons_append,List.nil_append,List.append_nil]

/-- The first column of the row goes to the standard output. -/
lemma dashes_mem {F : Type} (headers : KernelHeaders) (stdout file : F) {infos : List PageInfo}
    (hok : ∃ info ∈ infos, info.kpageflagsOk = true) :
    ⟨stdout,"----------".toList.leftpad 12 ' ' ++ [' ']⟩ ∈
      fprintRatios headers stdout file infos := by
  rw [fprintRatios,fprintRatiosNoheader_eq headers stdout file hok]
  exact List.mem_append_right _ (List.mem_append_left _ (List.mem_append_left _
    (List.mem_append_left _ (List.mem_singleton.mpr rfl))))

lemma flag_counts (headers : KernelHeaders) (infos : List PageInfo) :
    ∀ f ∈ kpageflagDefs headers,
      (getFlagCount infos f.flagNum).pagesSet ≤ (getFlagCount infos f.flagNum).pagesAvailable ∧
      (getFlagCount infos f.flagNum).pagesAvailable ≤ (getFlagCount infos f.flagNum).pagesTotal ∧
      (getFlagCount infos f.flagNum).pagesTotal = infos.length := by
  intro f hf
  obtain ⟨hnum,-⟩ := flags_wellFormed headers f hf
  rw [getFlagCount_set infos hnum,getFlagCount_total infos hnum,getFlagCount_available,
    if_neg (by omega)]
  refine ⟨List.countP_mono_left (fun info _ hset => ?_),List.countP_le_length,rfl⟩
  rw [Flag.setOn,Bool.and_eq_true] at hset
  exact hset.1

/-- The loop over all flags counts what `get_flag_count` does for each of them. -/
lemma totals_agree (headers : KernelHeaders) (infos : List PageInfo) :
    (ratioTotals headers infos).flagTotals =
        (kpageflagDefs headers).map (fun f => (getFlagCount infos f.flagNum).pagesSet) ∧
      ∀ f ∈ kpageflagDefs headers,
        (getFlagCount infos f.flagNum).pagesAvailable = (ratioTotals headers infos).totalKpageOk := by
  rw [ratioTotals_eq]
  refine ⟨List.map_congr_left (fun f hf => ?_),fun f hf => ?_⟩
  · obtain ⟨hnum,-⟩ := flags_wellFormed headers f hf
    exact (getFlagCount_set infos hnum).symm
  · obtain ⟨hnum,-⟩ := flags_wellFormed headers f hf
    rw [getFlagCount_available,if_neg (by omega)]
    rfl

/-- The table goes to the stream that it is meant for, with all its columns and nothing elsewhere,
exactly if that stream is the standard output, to which the first column always goes. -/
theorem fprintRatios_iff {F : Type} [DecidableEq F] (headers : KernelHeaders) (stdout file : F)
    {infos : List PageInfo} (hok : ∃ info ∈ infos, info.kpageflagsOk = true) :
    RatioTable headers file infos (fprintRatios headers stdout file infos) ↔ file = stdout := by
  have hne : infos ≠ [] := by
    obtain ⟨info,hinfo,-⟩ := hok
    exact List.ne_nil_of_mem hinfo
  constructor
  · exact fun h => (h.only _ (dashes_mem headers stdout file hok)).symm
  · rintro rfl
    obtain ⟨honly,hwritten⟩ := written_fprintRatios headers file hok
    exact ⟨⟨headerLine headers,rowLine headers infos,hwritten,
      newline_not_mem_headerLine headers,newline_not_mem_rowLine headers infos,
      words_headerLine headers,words_rowLine headers hne⟩,honly,flag_counts headers infos,
      totals_agree headers infos⟩

/-- A page with flags. -/
def hugePage : PageInfo := ⟨5,false,false,false,false,true,true,0x400000⟩

theorem fprintRatios_stdout :
    RatioTable ⟨true,true,true⟩ 1 [hugePage] (fprintRatios ⟨true,true,true⟩ 1 1 [hugePage]) ↔
      1 = 1 :=
  fprintRatios_iff ⟨true,true,true⟩ 1 1 ⟨hugePage,List.mem_cons_self,rfl⟩

/-- A file other than the standard output, which gets the row without its first column. -/
theorem fprintRatios_file :
    ¬ RatioTable ⟨true,true,true⟩ 2 [hugePage] (fprintRatios ⟨true,true,true⟩ 1 2 [hugePage]) :=
  fun h => absurd (h.only _ (dashes_mem ⟨true,true,true⟩ 1 2 ⟨hugePage,List.mem_cons_self,rfl⟩))
    (by decide)

end UarchBench.Pagemap
