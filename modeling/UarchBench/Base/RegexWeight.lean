import Mathlib.Algebra.BigOperators.Group.List.Basic
import Mathlib.Algebra.Order.Ring.Nat
import UarchBench.Base.RegexSyntax

/-! Lighter matches. Assertions see only whether there is a neighbouring character and whether it
can be part of a name, so what an expression consumes may be replaced by characters that look the
same and weigh less. How light a match can become is read off the tokens. -/
namespace UarchBench.Base

/-- What an assertion sees of a neighbouring character is the same. -/
def Alike (a b : Option Char) : Prop := a.map isWordChar = b.map isWordChar

lemma Alike.append {u u' v v' : List Char} (hu : Alike u.head? u'.head?)
    (hv : Alike v.head? v'.head?) : Alike (u ++ v).head? (u' ++ v').head? := by
  cases u with
  | nil =>
    cases u' with
    | nil => exact hv
    | cons c u' => simp [Alike] at hu
  | cons c u =>
    cases u' with
    | nil => simp [Alike] at hu
    | cons c' u' => exact hu

lemma Alike.or {a a' b b' : Option Char} (ha : Alike a a') (hb : Alike b b') :
    Alike (a.or b) (a'.or b') := by
  cases a with
  | none =>
    cases a' with
    | none => exact hb
    | some c => simp [Alike] at ha
  | some c =>
    cases a' with
    | none => simp [Alike] at ha
    | some c' => exact ha

lemma next_suffix {chars : Char → Bool} {s t : Cursor} (h : t ∈ s.next chars) :
    t.rest <:+ s.rest := by
  obtain ⟨c,-,hrest,-⟩ := Cursor.mem_next.mp h
  exact ⟨[c],hrest.symm⟩

lemma repeated_suffix {body : Cursor → List Cursor}
    (hbody : ∀ {s t}, t ∈ body s → t.rest <:+ s.rest) (fuel : ℕ) {s t : Cursor}
    (h : t ∈ repeated body fuel s) : t.rest <:+ s.rest := by
  induction fuel generalizing s with
  | zero => rw [List.mem_singleton.mp h]
  | succ fuel ih =>
    obtain ⟨m,hm,-,ht⟩ | rfl := mem_repeated_succ.mp h
    · exact (ih ht).trans (hbody hm)
    · exact List.suffix_rfl

/-- A match takes from the front of what is left. -/
lemma Regex.run_suffix (r : Regex) {s t : Cursor} (h : t ∈ r.run s) : t.rest <:+ s.rest := by
  induction r generalizing s t with
  | empty => rw [List.mem_singleton.mp h]
  | set chars => exact next_suffix h
  | atStart | atEnd | boundary =>
    rw [Regex.run] at h
    split_ifs at h
    · rw [List.mem_singleton.mp h]
    · simp at h
  | seq a b iha ihb =>
    obtain ⟨m,hm,ht⟩ := List.mem_flatMap.mp h
    exact (ihb ht).trans (iha hm)
  | alt a b iha ihb => exact (List.mem_append.mp h).elim iha ihb
  | star a ih => exact repeated_suffix ih _ h

section Weight
variable (weight : Char → ℕ) (good : Char → Prop)

def weightOf (word : List Char) : ℕ := (word.map weight).sum

lemma weightOf_append (u v : List Char) :
    weightOf weight (u ++ v) = weightOf weight u+weightOf weight v := by
  rw [weightOf,List.map_append,List.sum_append]
  rfl

lemma weightOf_cons (c : Char) (u : List Char) :
    weightOf weight (c::u) = weight c+weightOf weight u := by
  rw [weightOf,List.map_cons,List.sum_cons]
  rfl

/-- Every match of good characters can be exchanged, before anything that looks like what follows
it, for a match of at most this weight. -/
def Lightens (r : Regex) (k : ℕ) : Prop :=
  ∀ s t, t ∈ r.run s → (∀ c ∈ s.rest, good c) → ∀ after, Alike t.rest.head? after.head? →
    ∃ word, weightOf weight word ≤ k ∧ (∀ c ∈ word, good c) ∧
      Alike s.rest.head? (word ++ after).head? ∧
      ∀ prev, Alike s.prev prev →
        ∃ t' ∈ r.run ⟨prev,word ++ after⟩, t'.rest = after ∧ Alike t.prev t'.prev

variable {weight good}

lemma Lightens.mono {r : Regex} {j k : ℕ} (h : Lightens weight good r j) (hle : j ≤ k) :
    Lightens weight good r k := by
  intro s t ht hgood after hafter
  obtain ⟨word,hweight,hword⟩ := h s t ht hgood after hafter
  exact ⟨word,hweight.trans hle,hword⟩

lemma empty_lightens : Lightens weight good .empty 0 := by
  intro s t ht hgood after hafter
  rw [Regex.run,List.mem_singleton] at ht
  subst ht
  exact ⟨[],le_rfl,List.forall_mem_nil _,hafter,fun prev hprev =>
    ⟨_,List.mem_singleton_self _,rfl,hprev⟩⟩

/-- An expression that only looks at the characters around a position. -/
lemma assertion_lightens {r : Regex} (test : Option Bool → Option Bool → Bool)
    (h : ∀ s : Cursor, r.run s =
      if test (s.prev.map isWordChar) (s.rest.head?.map isWordChar) then [s] else []) :
    Lightens weight good r 0 := by
  intro s t ht hgood after hafter
  rw [h] at ht
  split_ifs at ht with htest
  · rw [List.mem_singleton] at ht
    subst ht
    refine ⟨[],le_rfl,List.forall_mem_nil _,hafter,fun prev hprev => ⟨⟨prev,after⟩,?_,rfl,hprev⟩⟩
    rw [hprev,hafter] at htest
    rw [List.nil_append,h,if_pos htest]
    exact List.mem_singleton_self _
  · simp at ht

lemma atStart_lightens : Lightens weight good .atStart 0 :=
  assertion_lightens (fun prev _ => prev.isNone) (fun s => by
    rw [Regex.run,Option.isNone_map])

lemma atEnd_lightens : Lightens weight good .atEnd 0 :=
  assertion_lightens (fun _ next => next.isNone) (fun s => by
    rw [Regex.run,Option.isNone_map]
    cases s.rest <;> rfl)

lemma boundary_lightens (negated : Bool) : Lightens weight good (.boundary negated) 0 :=
  assertion_lightens (fun prev next => ((prev.any id) != (next.any id)) != negated) (fun s => by
    rw [Regex.run,Option.any_map,Option.any_map]
    rfl)

lemma seq_lightens {a b : Regex} {j k : ℕ} (ha : Lightens weight good a j)
    (hb : Lightens weight good b k) : Lightens weight good (.seq a b) (j+k) := by
  intro s t ht hgood after hafter
  obtain ⟨m,hm,ht⟩ := List.mem_flatMap.mp ht
  obtain ⟨v,hvweight,hvgood,hvhead,hv⟩ :=
    hb m t ht (fun c hc => hgood c ((a.run_suffix hm).subset hc)) after hafter
  obtain ⟨u,huweight,hugood,huhead,hu⟩ := ha s m hm hgood (v ++ after) hvhead
  refine ⟨u ++ v,?_,?_,?_,fun prev hprev => ?_⟩
  · rw [weightOf_append]
    exact Nat.add_le_add huweight hvweight
  · intro c hc
    exact (List.mem_append.mp hc).elim (hugood c) (hvgood c)
  · rw [List.append_assoc]
    exact huhead
  · obtain ⟨m',hm',hmrest,hmprev⟩ := hu prev hprev
    obtain ⟨t',ht',htrest,htprev⟩ := hv m'.prev hmprev
    rw [List.append_assoc]
    refine ⟨t',List.mem_flatMap.mpr ⟨m',hm',?_⟩,htrest,htprev⟩
    rwa [← hmrest] at ht'

lemma alt_lightens {a b : Regex} {j k : ℕ} (ha : Lightens weight good a j)
    (hb : Lightens weight good b k) : Lightens weight good (.alt a b) (j+k) := by
  intro s t ht hgood after hafter
  rcases List.mem_append.mp ht with ht | ht
  · obtain ⟨word,hweight,hwgood,hhead,hword⟩ :=
      ha.mono (Nat.le_add_right j k) s t ht hgood after hafter
    refine ⟨word,hweight,hwgood,hhead,fun prev hprev => ?_⟩
    obtain ⟨t',ht',hrest⟩ := hword prev hprev
    exact ⟨t',List.mem_append_left _ ht',hrest⟩
  · obtain ⟨word,hweight,hwgood,hhead,hword⟩ :=
      hb.mono (Nat.le_add_left k j) s t ht hgood after hafter
    refine ⟨word,hweight,hwgood,hhead,fun prev hprev => ?_⟩
    obtain ⟨t',ht',hrest⟩ := hword prev hprev
    exact ⟨t',List.mem_append_right _ ht',hrest⟩

variable (weight good) in
/-- A good character without weight that looks like every weighty one. -/
structure Spare (spare : Char) : Prop where
  good : good spare
  light : weight spare = 0
  alike : ∀ c, weight c ≠ 0 → isWordChar c = isWordChar spare

variable (weight) in
/-- The spare character belongs to the set, or no character of the set weighs more than `k`. -/
def LightSet (spare : Char) (chars : Char → Bool) (k : ℕ) : Prop :=
  chars spare = true ∨ ∀ c, chars c = true → weight c ≤ k

variable {spare : Char} {chars : Char → Bool} {k : ℕ}

/-- A character of a set that contains the spare one can be taken without weight. -/
lemma exists_weightless (hspare : Spare weight good spare) (hset : chars spare = true) {c : Char}
    (hc : chars c = true) (hgood : good c) :
    ∃ d, chars d = true ∧ good d ∧ weight d = 0 ∧ isWordChar d = isWordChar c := by
  by_cases hw : weight c = 0
  · exact ⟨c,hc,hgood,hw,rfl⟩
  · exact ⟨spare,hset,hspare.good,hspare.light,(hspare.alike c hw).symm⟩

lemma set_lightens (hspare : Spare weight good spare) (hset : LightSet weight spare chars k) :
    Lightens weight good (.set chars) k := by
  intro s t ht hgood after hafter
  obtain ⟨c,hc,hrest,hprev⟩ := Cursor.mem_next.mp ht
  have hgoodc : good c := hgood c (hrest ▸ List.mem_cons_self)
  obtain ⟨d,hd,hgoodd,hweight,hword⟩ : ∃ d, chars d = true ∧ good d ∧ weight d ≤ k ∧
      isWordChar d = isWordChar c := by
    rcases hset with hset | hset
    · obtain ⟨d,hd,hgoodd,hzero,hword⟩ := exists_weightless hspare hset hc hgoodc
      exact ⟨d,hd,hgoodd,by omega,hword⟩
    · exact ⟨c,hc,hgoodc,hset c hc,rfl⟩
  refine ⟨[d],by simpa [weightOf] using hweight,by simpa using hgoodd,?_,fun prev' _ => ?_⟩
  · simp [Alike,hrest,hword]
  · exact ⟨⟨some d,after⟩,Cursor.mem_next.mpr ⟨d,hd,rfl,rfl⟩,rfl,by simp [Alike,hprev,hword]⟩

lemma getLast?_cons_or (c : Char) (u : List Char) (prev : Option Char) :
    (c::u).getLast?.or prev = u.getLast?.or (some c) := by
  rw [List.getLast?_cons]
  cases u.getLast? <;> rfl

/-- The repetition of a set takes any number of its characters. -/
lemma mem_repeated_set (fuel : ℕ) (s t : Cursor) :
    t ∈ repeated (Regex.set chars).run fuel s ↔ ∃ u : List Char, u.length ≤ fuel ∧
      s.rest = u ++ t.rest ∧ (∀ c ∈ u, chars c = true) ∧ t.prev = u.getLast?.or s.prev := by
  have hnone : ∀ n s, t = s → ∃ u : List Char, u.length ≤ n ∧ s.rest = u ++ t.rest ∧
      (∀ c ∈ u, chars c = true) ∧ t.prev = u.getLast?.or s.prev := by
    rintro n s rfl
    exact ⟨[],Nat.zero_le n,rfl,List.forall_mem_nil _,rfl⟩
  induction fuel generalizing s with
  | zero =>
    rw [repeated,List.mem_singleton]
    refine ⟨hnone 0 s,?_⟩
    rintro ⟨u,hlen,hrest,-,hprev⟩
    obtain rfl : u = [] := List.length_eq_zero_iff.mp (Nat.le_zero.mp hlen)
    exact Cursor.ext hprev hrest.symm
  | succ fuel ih =>
    rw [mem_repeated_succ]
    constructor
    · rintro (⟨m,hm,-,ht⟩ | rfl)
      · obtain ⟨c,hc,hrest,hmprev⟩ := Cursor.mem_next.mp hm
        obtain ⟨u,hlen,hmrest,hu,hprev⟩ := (ih m).mp ht
        refine ⟨c::u,by simpa using hlen,by rw [hrest,hmrest]; rfl,
          List.forall_mem_cons.mpr ⟨hc,hu⟩,?_⟩
        rw [hprev,hmprev,getLast?_cons_or]
      · exact hnone _ _ rfl
    · rintro ⟨u,hlen,hrest,hu,hprev⟩
      cases u with
      | nil => exact Or.inr (Cursor.ext hprev hrest.symm)
      | cons c u =>
        rw [List.forall_mem_cons] at hu
        refine Or.inl ⟨⟨some c,u ++ t.rest⟩,Cursor.mem_next.mpr ⟨c,hu.1,hrest,rfl⟩,?_,
          (ih _).mpr ⟨u,by simpa using hlen,rfl,hu.2,?_⟩⟩
        · simp [hrest]
        · rw [hprev,getLast?_cons_or]

/-- The characters of a whole word can be taken without weight. -/
lemma exists_weightless_word (hspare : Spare weight good spare) (hset : chars spare = true)
    (u : List Char) (hu : ∀ c ∈ u, chars c = true) (hgood : ∀ c ∈ u, good c) :
    ∃ word : List Char, (∀ c ∈ word, chars c = true) ∧ (∀ c ∈ word, good c) ∧
      weightOf weight word = 0 ∧ word.map isWordChar = u.map isWordChar := by
  induction u with
  | nil => exact ⟨[],List.forall_mem_nil _,List.forall_mem_nil _,rfl,rfl⟩
  | cons c u ih =>
    rw [List.forall_mem_cons] at hu hgood
    obtain ⟨d,hd,hgoodd,hzero,hword⟩ := exists_weightless hspare hset hu.1 hgood.1
    obtain ⟨word,hwset,hwgood,hwzero,hmap⟩ := ih hu.2 hgood.2
    refine ⟨d::word,List.forall_mem_cons.mpr ⟨hd,hwset⟩,List.forall_mem_cons.mpr ⟨hgoodd,hwgood⟩,
      ?_,?_⟩
    · rw [weightOf_cons,hzero,hwzero]
    · rw [List.map_cons,List.map_cons,hword,hmap]

/-- Of light characters the first and the last one are enough. -/
lemma exists_short_word (hset : ∀ c, chars c = true → weight c ≤ k) (u : List Char)
    (hu : ∀ c ∈ u, chars c = true) :
    ∃ word : List Char, (∀ c ∈ word, c ∈ u) ∧ weightOf weight word ≤ 2*k ∧
      word.head? = u.head? ∧ word.getLast? = u.getLast? := by
  match u with
  | [] => exact ⟨[],List.forall_mem_nil _,Nat.zero_le _,rfl,rfl⟩
  | [c] =>
    have hc := hset c (hu c List.mem_cons_self)
    refine ⟨[c],fun _ h => h,?_,rfl,rfl⟩
    rw [weightOf_cons,weightOf,List.map_nil,List.sum_nil]
    omega
  | c::d::u =>
    have hlast : (d::u).getLast (List.cons_ne_nil d u) ∈ c::d::u :=
      List.mem_cons_of_mem c (List.getLast_mem _)
    have hc := hset c (hu c List.mem_cons_self)
    have hd := hset _ (hu _ hlast)
    refine ⟨[c,(d::u).getLast (List.cons_ne_nil d u)],?_,?_,rfl,?_⟩
    · simp only [List.forall_mem_cons]
      exact ⟨List.mem_cons_self,hlast,List.forall_mem_nil _⟩
    · rw [weightOf_cons,weightOf_cons,weightOf,List.map_nil,List.sum_nil]
      omega
    · rw [List.getLast?_cons_cons,List.getLast?_cons_cons,
        List.getLast?_eq_some_getLast (List.cons_ne_nil d u)]
      rfl

/-- Characters of a set can be exchanged for others of at most twice its weight that look the same
from both sides. -/
lemma exists_light_word (hspare : Spare weight good spare) (hset : LightSet weight spare chars k)
    (u : List Char) (hu : ∀ c ∈ u, chars c = true) (hgood : ∀ c ∈ u, good c) :
    ∃ word : List Char, (∀ c ∈ word, chars c = true) ∧ (∀ c ∈ word, good c) ∧
      weightOf weight word ≤ 2*k ∧ Alike u.head? word.head? ∧ Alike u.getLast? word.getLast? := by
  rcases hset with hset | hset
  · obtain ⟨word,hword,hwgood,hzero,hmap⟩ := exists_weightless_word hspare hset u hu hgood
    refine ⟨word,hword,hwgood,by omega,?_,?_⟩
    · rw [Alike,← List.head?_map,← List.head?_map,hmap]
    · rw [Alike,← List.getLast?_map,← List.getLast?_map,hmap]
  · obtain ⟨word,hsub,hweight,hhead,hlast⟩ := exists_short_word hset u hu
    exact ⟨word,fun c hc => hu c (hsub c hc),fun c hc => hgood c (hsub c hc),hweight,
      congrArg _ hhead.symm,congrArg _ hlast.symm⟩

lemma star_lightens (hspare : Spare weight good spare) (hset : LightSet weight spare chars k) :
    Lightens weight good (.star (.set chars)) (2*k) := by
  intro s t ht hgood after hafter
  obtain ⟨u,-,hrest,hu,hprev⟩ := (mem_repeated_set _ s t).mp ht
  obtain ⟨word,hword,hwgood,hweight,hhead,hlast⟩ := exists_light_word hspare hset u hu
    (fun c hc => hgood c (hrest ▸ List.mem_append_left _ hc))
  refine ⟨word,hweight,hwgood,by rw [hrest]; exact hhead.append hafter,fun prev hprev' => ?_⟩
  refine ⟨⟨word.getLast?.or prev,after⟩,(mem_repeated_set _ _ _).mpr
    ⟨word,?_,rfl,hword,rfl⟩,rfl,?_⟩
  · rw [List.length_append]
    exact Nat.le_add_right _ _
  · rw [hprev]
    exact hlast.or hprev'

/-- The tokens that match nothing themselves. -/
def Structural : Token → Prop
  | .boundary _ | .atStart | .atEnd | .alt | .openParen | .closeParen => True
  | .set _ | .star | .plus | .opt => False

variable (weight) in
/-- Tokens with quantifiers after sets only, and the weight that their sets add up to. -/
inductive LightTokens (spare : Char) : List Token → ℕ → Prop where
  | nil : LightTokens spare [] 0
  | set {chars : Char → Bool} {k j : ℕ} {ts : List Token} (hset : LightSet weight spare chars k)
      (hts : LightTokens spare ts j) : LightTokens spare (.set chars::ts) (k+j)
  | star {chars : Char → Bool} {k j : ℕ} {ts : List Token} (hset : LightSet weight spare chars k)
      (hts : LightTokens spare ts j) : LightTokens spare (.set chars::.star::ts) (2*k+j)
  | plus {chars : Char → Bool} {k j : ℕ} {ts : List Token} (hset : LightSet weight spare chars k)
      (hts : LightTokens spare ts j) : LightTokens spare (.set chars::.plus::ts) (3*k+j)
  | opt {chars : Char → Bool} {k j : ℕ} {ts : List Token} (hset : LightSet weight spare chars k)
      (hts : LightTokens spare ts j) : LightTokens spare (.set chars::.opt::ts) (k+j)
  | structural {t : Token} {j : ℕ} {ts : List Token} (ht : Structural t)
      (hts : LightTokens spare ts j) : LightTokens spare (t::ts) j

lemma LightTokens.quantified {ts : List Token} {j : ℕ} (h : LightTokens weight spare ts j)
    (a : Regex) : quantified a ts = (a,ts) := by
  cases h with
  | nil | set | star | plus | opt => rfl
  | @structural t _ _ ht => cases t <;> first | rfl | exact absurd ht id

lemma LightTokens.tail {t : Token} {ts : List Token} {j : ℕ}
    (h : LightTokens weight spare (t::ts) j) (ht : Structural t) :
    LightTokens weight spare ts j := by
  cases h with
  | set | star | plus | opt => exact absurd ht id
  | structural _ hts => exact hts

variable (weight good) in
/-- A parse that takes what it needs of the weight and leaves the rest to the remaining tokens. -/
def SplitsWeight (spare : Char) (k : ℕ) (r : Regex) (rest : List Token) : Prop :=
  ∃ i j, i+j ≤ k ∧ Lightens weight good r i ∧ LightTokens weight spare rest j

lemma SplitsWeight.seq {a b : Regex} {rest : List Token} {i k : ℕ} (ha : Lightens weight good a i)
    (hb : SplitsWeight weight good spare k b rest) :
    SplitsWeight weight good spare (i+k) (.seq a b) rest := by
  obtain ⟨j,l,hle,hb,hrest⟩ := hb
  exact ⟨i+j,l,by omega,seq_lightens ha hb,hrest⟩

variable (weight good) in
/-- What a parser makes of tokens has matches of their weight. -/
def ParsesLight (spare : Char) (parse : List Token → Except RegexError (Regex × List Token)) :
    Prop :=
  ∀ {ts k r rest}, LightTokens weight spare ts k → parse ts = .ok (r,rest) →
    SplitsWeight weight good spare k r rest

/-- An atom is followed by the rest of its alternative. -/
lemma ParsesLight.atom {parse : List Token → Except RegexError (Regex × List Token)}
    (hparse : ParsesLight weight good spare parse) {a r : Regex} {ts rest : List Token} {i k : ℕ}
    (ha : Lightens weight good a i) (hts : LightTokens weight spare ts k)
    (h : (do
      let (b,rest) ← parse ts
      return (.seq a b,rest)) = Except.ok (r,rest)) :
    SplitsWeight weight good spare (i+k) r rest := by
  obtain ⟨⟨b,rest'⟩,hb,h⟩ := bind_eq_ok.mp h
  cases h
  exact .seq ha (hparse hts hb)

lemma disjunction_parsesLight {fuel : ℕ}
    (hdisjunction : ParsesLight weight good spare (parseDisjunction fuel))
    (halternative : ParsesLight weight good spare (parseAlternative fuel)) :
    ParsesLight weight good spare (parseDisjunction (fuel+1)) := by
  intro ts k r rest hts h
  obtain ⟨⟨a,ts'⟩,ha,h⟩ := bind_eq_ok.mp h
  obtain ⟨i,j,hle,hlighta,hts'⟩ := halternative hts ha
  cases ts' with
  | nil =>
    cases h
    exact ⟨i,j,hle,hlighta,hts'⟩
  | cons t ts' =>
    cases t with
    | alt =>
      obtain ⟨⟨b,ts''⟩,hb,h⟩ := bind_eq_ok.mp h
      cases h
      obtain ⟨i',j',hle',hlightb,hrest⟩ := hdisjunction (hts'.tail trivial) hb
      exact ⟨i+i',j',by omega,alt_lightens hlighta hlightb,hrest⟩
    | _ =>
      cases h
      exact ⟨i,j,hle,hlighta,hts'⟩

/-- A group is closed before the rest of its alternative. -/
lemma group_parsesLight {fuel : ℕ}
    (hdisjunction : ParsesLight weight good spare (parseDisjunction fuel))
    (halternative : ParsesLight weight good spare (parseAlternative fuel)) {ts rest : List Token}
    {r : Regex} {k : ℕ} (hts : LightTokens weight spare ts k)
    (h : parseAlternative (fuel+1) (.openParen::ts) = .ok (r,rest)) :
    SplitsWeight weight good spare k r rest := by
  obtain ⟨⟨a,ts'⟩,ha,h⟩ := bind_eq_ok.mp h
  obtain ⟨i,j,hle,hlighta,hts'⟩ := hdisjunction hts ha
  match ts',h with
  | .closeParen::ts',h =>
    have hclosed := hts'.tail trivial
    simp only [hclosed.quantified] at h
    obtain ⟨i',j',hle',hlight,hrest⟩ := halternative.atom hlighta hclosed h
    exact ⟨i',j',by omega,hlight,hrest⟩

lemma structural_parsesLight {fuel : ℕ}
    (hdisjunction : ParsesLight weight good spare (parseDisjunction fuel))
    (halternative : ParsesLight weight good spare (parseAlternative fuel)) {t : Token}
    (ht : Structural t) {ts rest : List Token} {r : Regex} {k : ℕ}
    (hts : LightTokens weight spare ts k)
    (h : parseAlternative (fuel+1) (t::ts) = .ok (r,rest)) :
    SplitsWeight weight good spare k r rest := by
  rw [← Nat.zero_add k]
  cases t with
  | set | star | plus | opt => exact absurd ht id
  | boundary negated => exact halternative.atom (boundary_lightens negated) hts h
  | atStart => exact halternative.atom atStart_lightens hts h
  | atEnd => exact halternative.atom atEnd_lightens hts h
  | alt | closeParen =>
    cases h
    exact ⟨0,k,le_rfl,empty_lightens,.structural trivial hts⟩
  | openParen =>
    rw [Nat.zero_add]
    exact group_parsesLight hdisjunction halternative hts h

lemma alternative_parsesLight (hspare : Spare weight good spare) {fuel : ℕ}
    (hdisjunction : ParsesLight weight good spare (parseDisjunction fuel))
    (halternative : ParsesLight weight good spare (parseAlternative fuel)) :
    ParsesLight weight good spare (parseAlternative (fuel+1)) := by
  intro ts k r rest hts h
  cases hts with
  | nil =>
    cases h
    exact ⟨0,0,le_rfl,empty_lightens,.nil⟩
  | set hset hts =>
    rw [parseAlternative,hts.quantified] at h
    exact halternative.atom (set_lightens hspare hset) hts h
  | star hset hts => exact halternative.atom (star_lightens hspare hset) hts h
  | plus hset hts =>
    have hplus := seq_lightens (set_lightens hspare hset) (star_lightens hspare hset)
    exact halternative.atom (hplus.mono (by omega)) hts h
  | opt hset hts =>
    exact halternative.atom (alt_lightens (set_lightens hspare hset) empty_lightens) hts h
  | structural ht hts => exact structural_parsesLight hdisjunction halternative ht hts h

/-- What the two parsers make of tokens has matches of their weight. -/
theorem parse_splitsWeight (hspare : Spare weight good spare) (fuel : ℕ) :
    ParsesLight weight good spare (parseDisjunction fuel) ∧
    ParsesLight weight good spare (parseAlternative fuel) := by
  induction fuel with
  | zero => exact ⟨fun _ h => (nomatch h),fun _ h => (nomatch h)⟩
  | succ fuel ih =>
    exact ⟨disjunction_parsesLight ih.1 ih.2,alternative_parsesLight hspare ih.1 ih.2⟩

/-- A match of a whole text gives a match of a whole text of at most the weight. -/
theorem regexMatch_lightens {r : Regex} {k : ℕ} (h : Lightens weight good r k) {text : List Char}
    (hmatch : regexMatch r text = true) (hgood : ∀ c ∈ text, good c) :
    ∃ word, weightOf weight word ≤ k ∧ (∀ c ∈ word, good c) ∧ regexMatch r word = true := by
  obtain ⟨t,ht,hend⟩ := List.any_eq_true.mp hmatch
  rw [List.isEmpty_iff] at hend
  obtain ⟨word,hweight,hwgood,-,hword⟩ := h _ t ht hgood [] (by rw [hend]; rfl)
  obtain ⟨t',ht',hrest,-⟩ := hword none rfl
  rw [List.append_nil] at ht'
  exact ⟨word,hweight,hwgood,List.any_eq_true.mpr ⟨t',ht',by rw [hrest]; rfl⟩⟩

end Weight
end UarchBench.Base
