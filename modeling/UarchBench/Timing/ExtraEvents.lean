import UarchBench.Perf.Pfm4Events
import UarchBench.Timing.Libpfc

/-! The extra events of the libpfc timer, from the text of the command line to the slots of the
hardware, with what is written about those that are not recorded. -/
namespace UarchBench.ExtraEvents
open Base Util Libpfc Perf.Pfm4

/-- What the library fills in for an event, with the `count` codes. -/
structure Encoding where
  fstr : Text
  idx : ℤ
  codes : List UInt64

structure Encoder extends Pfm where
  getOsEventEncoding : Text → Except ℤ Encoding

/-- `Context::out` and `Context::err`, which `main` makes the same stream. -/
inductive Stream
  | out | err
  deriving DecidableEq, Repr

structure Message where
  stream : Stream
  text : Text
  deriving DecidableEq, Repr

/-- The messages so far, with `all_codes`. -/
structure Parsed where
  messages : List Message
  allCodes : List PmuEvent

def Parsed.write (s : Parsed) (m : Message) : Parsed := { s with messages := s.messages ++ [m] }

def warning (before event after : Text) : Message := ⟨.err,before ++ event ++ after⟩

def unresolved (event : Text) (reason : String) : Message := warning
  "WARNING: Event '".toList event ("' could not be resolved and will be ignored. Reason: ".toList ++
    reason.toList ++ "\n\tUse --list-events to list available events.\n".toList)

def withoutCodes (event : Text) : Message := warning
  "WARNING: Event '".toList event "' didn't have any codes and will be ignored.\n".toList

def withoutInfo (event : Text) : Message := warning
  "WARNING: Couldn't get event_info for '".toList event
    "' - this event will be ignored.\n".toList

def perfEventsBased (event : Text) : Message := warning
  "WARNING: Event '".toList event
    "' is a perf_events-based event which aren't supported and will be ignored.\n".toList

def multipleCodes (event : Text) : Message := warning
  "WARNING: MULTIPLE CODES FOR '".toList event "'\n".toList

/-- This one is about the name that the library gave. -/
def tooMany (e : PmuEvent) : Message := warning
  "Too many events requested, event ".toList e.fullName " won't be recorded\n".toList

lemma warning_names (before event after : Text) : event <:+: (warning before event after).text :=
  List.infix_append before event after

def resolvedTo (event : Text) (e : PmuEvent) : Message := ⟨.out,
  "Event '".toList ++ event ++ "' resolved to '".toList ++ e.fullName ++
    ", short name: '".toList ++ e.shortName ++ "' with code 0x".toList ++
    Nat.toDigits 16 e.code.toNat ++ "\n".toList⟩

section Parse
variable (E : Encoder)

/-- The body of the loop over the codes of an event. -/
def addCode (event name : Text) (s : Parsed) (code : UInt64 × ℕ) : Parsed :=
  let e := PmuEvent.new name code.1
  let s : Parsed := ⟨s.messages ++ [resolvedTo event e],s.allCodes ++ [e]⟩
  if code.2 = 1 then s.write (multipleCodes event) else s

/-- The body of the loop over the pieces of the list. -/
def parseEvent (s : Parsed) (event : Text) : Parsed :=
  if event = [] then s
  else
    match E.getOsEventEncoding event with
    | .error ret => s.write (unresolved event (E.strerror ret))
    | .ok encodeInfo =>
      if encodeInfo.codes.length < 1 then s.write (withoutCodes event)
      else
        match E.getEventInfo encodeInfo.idx with
        | .error _ => s.write (withoutInfo event)
        | .ok einfo =>
          if isSupportedPMU E.toPfm einfo.pmu = false then s.write (perfEventsBased event)
          else encodeInfo.codes.zipIdx.foldl (addCode event encodeInfo.fstr) s

/-- The `init` in front, which does nothing the second time. -/
def initPfm (isInit : Bool) : Except PfmError (List Message) :=
  if isInit then .ok []
  else
    match E.pfmInitialize with
    | .error ret => .error (.runtimeError
        ("libpfm4 init failed (" ++ toString ret ++ "): " ++ E.strerror ret))
    | .ok _ => .ok [⟨.out,"libpfm4 initialized successfully\n".toList⟩]

def parseExtraEvents (isInit : Bool) (eventList : Text) : Except PfmError Parsed :=
  (initPfm E isInit).map (fun messages =>
    ((splitOnString eventList [',']).getD []).foldl (parseEvent E) ⟨messages,[]⟩)

end Parse

inductive InitFailure
  | pfm (e : PfmError)
  | pfc (e : Libpfc.Failure)
  deriving DecidableEq, Repr

/-- The loop that gives slots to the first events and warns about the others. -/
def keepOrWarn (s : (List PmuEvent × ℕ) × List Message) (event : PmuEvent) :
    (List PmuEvent × ℕ) × List Message :=
  (keepEvent s.1 event,if gpCounters ≤ s.1.2 then s.2 ++ [tooMany event] else s.2)

/-- `LibpfcTimer::init` with the text of the option, and what it writes. -/
def timerInit (L : Library) (E : Encoder) (isInit : Bool) (extraEvents : Text) :
    List Message × Except InitFailure (LibpfcTimer × Cfg) :=
  if L.pfcInit ≠ 0 then ([],(Libpfc.init L []).mapError .pfc)
  else
    match parseExtraEvents E isInit extraEvents with
    | .error e => ([],.error (.pfm e))
    | .ok parsed =>
      let kept := parsed.allCodes.foldl keepOrWarn (([cyclesEvent L],0),parsed.messages)
      match Libpfc.init L parsed.allCodes with
      | .error e => (kept.2,.error (.pfc e))
      | .ok r => (kept.2 ++ [⟨.out,"libpfc timer init OK\n".toList⟩],.ok r)

section Loops
variable (E : Encoder)

/-- The messages about the codes of an event, from some index on. -/
def codeMessages (event name : Text) (codes : List UInt64) (index : ℕ) : List Message :=
  (codes.zipIdx index).flatMap (fun code => resolvedTo event (PmuEvent.new name code.1)::
    if code.2 = 1 then [multipleCodes event] else [])

lemma foldl_addCode (event name : Text) (codes : List UInt64) (index : ℕ) (s : Parsed) :
    (codes.zipIdx index).foldl (addCode event name) s =
      ⟨s.messages ++ codeMessages event name codes index,
        s.allCodes ++ codes.map (fun code => PmuEvent.new name code)⟩ := by
  induction codes generalizing s index with
  | nil => simp [codeMessages]
  | cons code codes ih =>
    rw [List.zipIdx_cons,List.foldl_cons,ih,codeMessages,codeMessages,List.zipIdx_cons,
      List.flatMap_cons]
    by_cases hindex : index = 1
    · simp [addCode,Parsed.write,hindex]
    · simp [addCode,hindex]

/-- The event that a piece stands for, if the timer can use it. -/
def encoded (event : Text) : Except Message Encoding :=
  match E.getOsEventEncoding event with
  | .error ret => .error (unresolved event (E.strerror ret))
  | .ok encodeInfo =>
    if encodeInfo.codes = [] then .error (withoutCodes event)
    else
      match E.getEventInfo encodeInfo.idx with
      | .error _ => .error (withoutInfo event)
      | .ok einfo =>
        if isSupportedPMU E.toPfm einfo.pmu then .ok encodeInfo
        else .error (perfEventsBased event)

def resolve (event : Text) : List PmuEvent :=
  match encoded E event with
  | .error _ => []
  | .ok info => info.codes.map (fun code => PmuEvent.new info.fstr code)

/-- What is written about a piece. -/
def said (event : Text) : List Message :=
  match encoded E event with
  | .error m => [m]
  | .ok info => codeMessages event info.fstr info.codes 0

lemma parseEvent_eq {event : Text} (h : event ≠ []) (s : Parsed) :
    parseEvent E s event = ⟨s.messages ++ said E event,s.allCodes ++ resolve E event⟩ := by
  rw [parseEvent,if_neg h,said,resolve,encoded]
  cases E.getOsEventEncoding event with
  | error ret => simp [Parsed.write]
  | ok info =>
    by_cases hcodes : info.codes = []
    · simp [Parsed.write,hcodes]
    · have hlen : ¬ info.codes.length < 1 := by
        rw [Nat.lt_one_iff,List.length_eq_zero_iff]
        exact hcodes
      cases hinfo : E.getEventInfo info.idx with
      | error ret => simp [Parsed.write,hcodes,hlen,hinfo]
      | ok einfo =>
        cases hpmu : isSupportedPMU E.toPfm einfo.pmu with
        | false => simp [Parsed.write,hcodes,hlen,hinfo,hpmu]
        | true => simp [hcodes,hlen,hinfo,hpmu,foldl_addCode]

/-- The pieces that are looked up. -/
def requested (eventList : Text) : List Text :=
  (eventList.splitOn ',').filter (fun event => event ≠ [])

lemma foldl_parseEvent (pieces : List Text) (s : Parsed) :
    pieces.foldl (parseEvent E) s =
      ⟨s.messages ++ (pieces.filter (fun event => event ≠ [])).flatMap (said E),
        s.allCodes ++ (pieces.filter (fun event => event ≠ [])).flatMap (resolve E)⟩ := by
  induction pieces generalizing s with
  | nil => simp
  | cons event pieces ih =>
    rw [List.foldl_cons,ih]
    by_cases h : event = []
    · rw [parseEvent,if_pos h]
      simp [h]
    · rw [parseEvent_eq E h]
      simp [h]

lemma foldl_keepOrWarn (events : List PmuEvent) (all : List PmuEvent) (ecount : ℕ)
    (messages : List Message) :
    (events.foldl keepOrWarn ((all,ecount),messages)).2 =
      messages ++ (events.drop (gpCounters-ecount)).map tooMany := by
  induction events generalizing all ecount messages with
  | nil => simp
  | cons e events ih =>
    rw [List.foldl_cons,keepOrWarn,keepEvent]
    by_cases hfull : gpCounters ≤ ecount
    · rw [if_pos hfull,if_pos hfull,ih,Nat.sub_eq_zero_of_le hfull]
      simp
    · rw [if_neg hfull,if_neg hfull,ih,
        show gpCounters-ecount = gpCounters-(ecount+1)+1 by omega,List.drop_succ_cons]

end Loops

section Account
variable {E : Encoder}

lemma init_allEvents {L : Library} {events : List PmuEvent} {timer : LibpfcTimer} {cfg : Cfg}
    (h : Libpfc.init L events = .ok (timer,cfg)) :
    timer.allEvents = cyclesEvent L::slotted 0 (events.take gpCounters) := by
  have hkept := foldl_keepEvent events [cyclesEvent L] 0
  simp only [Libpfc.init] at h
  split_ifs at h
  obtain ⟨rfl,-⟩ := Prod.mk.inj (Except.ok.inj h)
  exact hkept

/-- The events of a text, in order. -/
def resolved (E : Encoder) (extraEvents : Text) : List PmuEvent :=
  (requested extraEvents).flatMap (resolve E)

lemma initPfm_out {isInit : Bool} {messages : List Message}
    (h : initPfm E isInit = .ok messages) : ∀ m ∈ messages, m.stream = .out := by
  rw [initPfm] at h
  split_ifs at h
  · simp [← Except.ok.inj h]
  · split at h
    · cases h
    · simp [← Except.ok.inj h]

/-- A timer that is initialised: its events and all messages, in order. -/
lemma timerInit_ok {L : Library} {isInit : Bool} {extraEvents : Text} {messages : List Message}
    {timer : LibpfcTimer} {cfg : Cfg}
    (h : timerInit L E isInit extraEvents = (messages,.ok (timer,cfg))) :
    timer.allEvents = cyclesEvent L::slotted 0 ((resolved E extraEvents).take gpCounters) ∧
      ∃ front, initPfm E isInit = .ok front ∧
        messages = front ++ (requested extraEvents).flatMap (said E) ++
          ((resolved E extraEvents).drop gpCounters).map tooMany ++
            [⟨.out,"libpfc timer init OK\n".toList⟩] := by
  rw [timerInit] at h
  split_ifs at h with hpfc
  · simp [Libpfc.init,hpfc,Except.mapError] at h
  cases hinit : initPfm E isInit with
  | error e => simp [parseExtraEvents,hinit,Except.map] at h
  | ok front =>
    have hparsed : parseExtraEvents E isInit extraEvents = .ok
        ⟨front ++ (requested extraEvents).flatMap (said E),resolved E extraEvents⟩ := by
      rw [parseExtraEvents,hinit,Except.map,splitOnString_char,Option.getD_some,foldl_parseEvent]
      rfl
    rw [hparsed] at h
    dsimp only at h
    cases hlib : Libpfc.init L (resolved E extraEvents) with
    | error e => simp [hlib] at h
    | ok r =>
      rw [hlib,foldl_keepOrWarn] at h
      obtain ⟨rfl,hr⟩ := Prod.mk.inj h
      obtain rfl := Except.ok.inj hr
      exact ⟨init_allEvents hlib,front,rfl,rfl⟩

lemma encoded_error {event : Text} {m : Message} (h : encoded E event = .error m) :
    m.stream = .err ∧ event <:+: m.text := by
  rw [encoded] at h
  split at h
  · cases h
    exact ⟨rfl,warning_names ..⟩
  · split_ifs at h
    · cases h
      exact ⟨rfl,warning_names ..⟩
    · split at h
      · cases h
        exact ⟨rfl,warning_names ..⟩
      · split_ifs at h
        cases h
        exact ⟨rfl,warning_names ..⟩

lemma encoded_ok {event : Text} {info : Encoding} (h : encoded E event = .ok info) :
    E.getOsEventEncoding event = .ok info ∧ info.codes ≠ [] := by
  rw [encoded] at h
  split at h
  · cases h
  · split_ifs at h with hcodes
    split at h
    · cases h
    · split_ifs at h
      cases h
      exact ⟨by assumption,hcodes⟩

def warnings (messages : List Message) : List Message :=
  messages.filter (fun m => m.stream = .err)

lemma warnings_append (messages messages' : List Message) :
    warnings (messages ++ messages') = warnings messages ++ warnings messages' :=
  List.filter_append messages messages'

lemma warnings_eq_nil {messages : List Message} (h : ∀ m ∈ messages, m.stream = .out) :
    warnings messages = [] := by
  refine List.filter_eq_nil_iff.mpr (fun m hm => ?_)
  rw [h m hm]
  decide

/-- The second code is the one that is warned about. -/
lemma warnings_codeMessages (event name : Text) (codes : List UInt64) (index : ℕ) :
    warnings (codeMessages event name codes index) =
      if index ≤ 1 ∧ 1 < index+codes.length then [multipleCodes event] else [] := by
  induction codes generalizing index with
  | nil =>
    rw [if_neg (by simp)]
    rfl
  | cons code codes ih =>
    have hcons : codeMessages event name (code::codes) index =
        (resolvedTo event (PmuEvent.new name code)::if index = 1 then [multipleCodes event] else []) ++
          codeMessages event name codes (index+1) := rfl
    rw [hcons,warnings_append,ih,List.length_cons]
    by_cases hindex : index = 1
    · rw [if_pos hindex,if_neg (by omega),if_pos (by omega)]
      rfl
    · have hiff : index+1 ≤ 1 ∧ 1 < index+1+codes.length ↔
          index ≤ 1 ∧ 1 < index+(codes.length+1) := by omega
      rw [if_neg hindex,if_congr hiff rfl rfl]
      rfl

/-- What a piece is warned about: that it is ignored, or that it has several codes. -/
def WarnedAbout (E : Encoder) (event : Text) : Prop :=
  match resolve E event with
  | [] => ∃ m, warnings (said E event) = [m] ∧ event <:+: m.text
  | [_] => warnings (said E event) = []
  | _::_::_ => warnings (said E event) = [multipleCodes event]

lemma said_warnings (event : Text) : WarnedAbout E event := by
  rw [WarnedAbout,resolve,said]
  cases henc : encoded E event with
  | error m =>
    obtain ⟨herr,hnames⟩ := encoded_error henc
    exact ⟨m,List.filter_cons_of_pos (by simp [herr]),hnames⟩
  | ok info =>
    obtain ⟨-,hne⟩ := encoded_ok henc
    dsimp only
    rw [warnings_codeMessages]
    match hcodes : info.codes with
    | [] => exact absurd hcodes hne
    | [code] => rfl
    | code::code'::codes => exact if_pos ⟨Nat.zero_le 1,by simp⟩

/-- Without a warning a piece has one code. -/
lemma resolve_of_quiet {event : Text} (h : warnings (said E event) = []) :
    ∃ info code, E.getOsEventEncoding event = .ok info ∧ info.codes = [code] ∧
      resolve E event = [PmuEvent.new info.fstr code] := by
  have hwarned := said_warnings (E := E) event
  rw [WarnedAbout,h] at hwarned
  cases henc : encoded E event with
  | error m => simp [resolve,henc] at hwarned
  | ok info =>
    obtain ⟨hok,hne⟩ := encoded_ok henc
    match hcodes : info.codes with
    | [] => exact absurd hcodes hne
    | [code] => exact ⟨info,code,hok,hcodes,by simp [resolve,henc,hcodes]⟩
    | code::code'::codes => simp [resolve,henc,hcodes] at hwarned

/-- The events of pieces that all have one code. -/
lemma flatMap_resolve {pieces : List Text} (default : PmuEvent)
    (h : ∀ event ∈ pieces, ∃ e, resolve E event = [e]) :
    pieces.flatMap (resolve E) = pieces.map (fun event => (resolve E event).headD default) := by
  rw [← List.flatMap_pure_eq_map]
  refine List.flatMap_congr (fun event hevent => ?_)
  obtain ⟨e,he⟩ := h event hevent
  rw [Function.comp_apply,he]
  rfl

lemma getElem?_slotted (ecount : ℕ) (events : List PmuEvent) (i : ℕ) :
    (slotted ecount events)[i]? = events[i]?.map
      (fun e => { e with slot := UInt32.ofNat (fixedCounters+(ecount+i)) }) :=
  List.getElem?_mapIdx

section Outcome
variable {L : Library} {extraEvents : Text} {messages : List Message} {timer : LibpfcTimer}

/-- An event has its place among all events of the text. -/
lemma getElem?_resolved {earlier later : List Text} {event : Text}
    (h : requested extraEvents = earlier ++ event::later) {k : ℕ} {e : PmuEvent}
    (hk : (resolve E event)[k]? = some e) :
    (resolved E extraEvents)[(earlier.flatMap (resolve E)).length+k]? = some e := by
  obtain ⟨hlt,-⟩ := List.getElem?_eq_some_iff.mp hk
  rw [resolved,h,List.flatMap_append,List.flatMap_cons,List.getElem?_append_right (Nat.le_add_right _ _),
    Nat.add_sub_cancel_left,List.getElem?_append_left hlt,hk]

/-- Without a warning the pieces are recorded one by one. -/
lemma recorded_quiet (hevents : timer.allEvents =
      cyclesEvent L::slotted 0 ((resolved E extraEvents).take gpCounters))
    (hpieces : (requested extraEvents).flatMap (fun event => warnings (said E event)) = [])
    (hdrop : (resolved E extraEvents).drop gpCounters = []) :
    timer.allEvents.length = (requested extraEvents).length+1 ∧
      ∀ i event, (requested extraEvents)[i]? = some event → ∃ info code,
        E.getOsEventEncoding event = .ok info ∧ info.codes = [code] ∧ timer.allEvents[i+1]? =
          some (PmuEvent.new info.fstr code (UInt32.ofNat (fixedCounters+i))) := by
  have hone : ∀ event ∈ requested extraEvents, ∃ info code,
      E.getOsEventEncoding event = .ok info ∧ info.codes = [code] ∧
        resolve E event = [PmuEvent.new info.fstr code] := fun event hevent =>
    resolve_of_quiet (List.flatMap_eq_nil_iff.mp hpieces event hevent)
  have hmap : resolved E extraEvents = (requested extraEvents).map
      (fun event => (resolve E event).headD (cyclesEvent L)) := by
    refine flatMap_resolve _ (fun event hevent => ?_)
    obtain ⟨info,code,-,-,he⟩ := hone event hevent
    exact ⟨_,he⟩
  have htake : (resolved E extraEvents).take gpCounters = resolved E extraEvents :=
    List.take_of_length_le (List.drop_eq_nil_iff.mp hdrop)
  rw [htake] at hevents
  refine ⟨?_,fun i event hi => ?_⟩
  · rw [hevents,List.length_cons,slotted,List.length_mapIdx,hmap,List.length_map]
  · obtain ⟨info,code,hok,hcodes,he⟩ := hone event (List.mem_of_getElem? hi)
    refine ⟨info,code,hok,hcodes,?_⟩
    rw [hevents,List.getElem?_cons_succ,getElem?_slotted,hmap,List.getElem?_map,hi,
      Option.map_some,Option.map_some,he,Nat.zero_add]
    rfl

end Outcome

/-- What becomes of the pieces of a text, each at its place, and all warnings in order. -/
structure Accounted (L : Library) (E : Encoder) (extraEvents : Text) (messages : List Message)
    (timer : LibpfcTimer) : Prop where
  events : timer.allEvents = cyclesEvent L::slotted 0 ((resolved E extraEvents).take gpCounters)
  placed : ∀ earlier event later, requested extraEvents = earlier ++ event::later →
    ∀ k e, (resolve E event)[k]? = some e →
      let place := (earlier.flatMap (resolve E)).length+k
      if place < gpCounters then
        timer.allEvents[place+1]? = some { e with slot := UInt32.ofNat (fixedCounters+place) }
      else ((resolved E extraEvents).drop gpCounters)[place-gpCounters]? = some e
  warned : warnings messages =
    (requested extraEvents).flatMap (fun event => warnings (said E event)) ++
      ((resolved E extraEvents).drop gpCounters).map tooMany
  about : ∀ event ∈ requested extraEvents, WarnedAbout E event
  quiet : warnings messages = [] →
    timer.allEvents.length = (requested extraEvents).length+1 ∧
    ∀ i event, (requested extraEvents)[i]? = some event → ∃ info code,
      E.getOsEventEncoding event = .ok info ∧ info.codes = [code] ∧ timer.allEvents[i+1]? =
        some (PmuEvent.new info.fstr code (UInt32.ofNat (fixedCounters+i)))

/-- After a successful initialisation with any text, the recorded events are those of the pieces
between the commas, in order, as far as there are counters. The warnings are one for each piece that is
ignored or has several codes, which names it, and then one for each event behind the last counter, with
the name that the library gave; without any each piece is recorded, with one code and in the slot of its
place. -/
theorem extraEvents_accounted (L : Library) (E : Encoder) (isInit : Bool) (extraEvents : Text)
    (messages : List Message) (timer : LibpfcTimer) (cfg : Cfg)
    (h : timerInit L E isInit extraEvents = (messages,.ok (timer,cfg))) :
    Accounted L E extraEvents messages timer := by
  obtain ⟨hevents,front,hfront,rfl⟩ := timerInit_ok h
  have hdropped : warnings (((resolved E extraEvents).drop gpCounters).map tooMany) =
      ((resolved E extraEvents).drop gpCounters).map tooMany :=
    List.filter_eq_self.mpr (fun m hm => by
      obtain ⟨e,-,rfl⟩ := List.mem_map.mp hm
      rfl)
  have hwarned : warnings (front ++ (requested extraEvents).flatMap (said E) ++
      ((resolved E extraEvents).drop gpCounters).map tooMany ++
        [⟨.out,"libpfc timer init OK\n".toList⟩]) =
      (requested extraEvents).flatMap (fun event => warnings (said E event)) ++
        ((resolved E extraEvents).drop gpCounters).map tooMany := by
    rw [warnings_append,warnings_append,warnings_append,warnings_eq_nil (initPfm_out hfront),hdropped,
      warnings,List.filter_flatMap]
    exact List.append_nil _
  refine ⟨hevents,fun earlier event later hsplit k e hk => ?_,hwarned,fun event _ => said_warnings event,
    fun hquiet => ?_⟩
  · have hplace := getElem?_resolved hsplit hk
    dsimp only
    split_ifs with hlt
    · rw [hevents,List.getElem?_cons_succ,getElem?_slotted,List.getElem?_take_of_lt hlt,hplace,
        Option.map_some,Nat.zero_add]
    · rw [List.getElem?_drop,Nat.add_sub_cancel' (not_lt.mp hlt)]
      exact hplace
  · rw [hwarned] at hquiet
    obtain ⟨hpieces,hdrop⟩ := List.append_eq_nil_iff.mp hquiet
    exact recorded_quiet hevents hpieces (List.map_eq_nil_iff.mp hdrop)

/-- A library that knows one event. -/
def oneEvent : Encoder where
  perfEvent := 51
  perfEventRaw := 75
  attrUmask := 0
  pmus := []
  pfmInitialize := .ok ()
  strerror := fun _ => "event not found"
  getPmuInfo := fun _ => .error (-4)
  getEventNext := fun _ => -1
  getEventInfo := fun idx => .ok ⟨"LOADS",idx,110,0⟩
  getEventAttrInfo := fun _ _ => .error (-4)
  getOsEventEncoding event :=
    if event = "LOADS".toList then .ok ⟨"skl::LOADS".toList,1,[0x1d1]⟩ else .error (-4)

theorem extraEvents_accounted_unknown : ∃ messages timer cfg,
    timerInit clockAtOne oneEvent false "LOADS,,STORES".toList = (messages,.ok (timer,cfg)) ∧
      Accounted clockAtOne oneEvent "LOADS,,STORES".toList messages timer :=
  ⟨_,_,_,rfl,extraEvents_accounted clockAtOne oneEvent false "LOADS,,STORES".toList _ _ _ rfl⟩

end Account

end UarchBench.ExtraEvents
