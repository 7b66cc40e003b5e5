import Mt5Open.Client.TickRange

/-!
# Bars of a range

The pages of `Client::bars`.  Each page is asked for with the time it ends at, and the next
one ends before its oldest bar.  `BarTalk` says what the requests are, and `bars_complete`
which bars a result holds: of each time in the range that was received, the last bar.
-/

namespace Mt5Open.Native.Client

open Lib
open Bars (Bar BarHistory)

/-- The bars of a response. -/
def barsOf (groups : List BarHistory) : List Bar := groups.flatMap (·.bars)

/-- The time of the oldest bar of a response, or the time before if that is earlier. -/
def oldestOf (before : Int) (groups : List BarHistory) : Int :=
  ((barsOf groups).map (·.time)).foldl min before

/-- The requests for pages, each with the time that it ends at, and what came back. -/
abbrev BarLog := List (Int × Bytes × Result (List BarHistory))

/-- The bars of all the responses. -/
def received (log : BarLog) : List Bar := (replies (log.map Prod.snd)).flatMap barsOf

/-- The requests for the pages of a range.  The first one ends right before the end of the
range, and there is another one only behind a page that starts inside the range. -/
structure BarTalk (symbol : String) (fromTime toTime : Int) (log : BarLog) : Prop where
  count : log.length ≤ 256
  start : ∀ e ∈ log.head?, e.1 = toTime - 1
  before : (log.map Prod.fst).Pairwise (· > ·)
  request : ∀ e ∈ log, ∃ year month day, date e.1 = .ok (year, month, day) ∧
    barMonthRequest symbol year month day = .ok e.2.1
  progress : log.IsChain fun e f => ∃ groups, e.2.2 = .ok groups ∧
    (∀ group ∈ groups, group.symbol = symbol) ∧ f.1 = oldestOf e.1 groups - 1 ∧
    fromTime < oldestOf e.1 groups ∧ oldestOf e.1 groups < e.1

/-- The last page has no bars or reaches back to the start of the range. -/
def BarEnd (symbol : String) (fromTime : Int) (log : BarLog) : Prop :=
  ∃ front before payload groups, log = front ++ [(before, payload, .ok groups)] ∧
    (∀ group ∈ groups, group.symbol = symbol) ∧
    (barsOf groups = [] ∨ oldestOf before groups ≤ fromTime)

/-! ## A page -/

section Page

variable {symbol : String} {fromTime toTime : Int}

/-- The bars in the range. -/
def within (fromTime toTime : Int) (bars : List Bar) : List Bar :=
  bars.filter fun bar => fromTime ≤ bar.time ∧ bar.time < toTime

theorem foldl_scanBar (bars : List Bar) (scan : BarScan) :
    bars.foldl (scanBar fromTime toTime) scan =
      { bars := scan.bars.insertAll (within fromTime toTime bars)
        oldest := (bars.map (·.time)).foldl min scan.oldest
        found := scan.found || !bars.isEmpty } := by
  induction bars generalizing scan with
  | nil => simp [within, Keyed.insertAll]
  | cons bar bars ih =>
    rw [List.foldl_cons, ih]
    by_cases h : fromTime ≤ bar.time ∧ bar.time < toTime
    · simp [scanBar, within, h, Keyed.insertAll]
    · simp [scanBar, within, h, Keyed.insertAll]

theorem scanGroup_eq_ok {group : BarHistory} {scan result : BarScan} :
    scanGroup symbol fromTime toTime scan group = .ok result ↔
      group.symbol = symbol ∧ result = group.bars.foldl (scanBar fromTime toTime) scan := by
  unfold scanGroup
  by_cases h : group.symbol = symbol
  · rw [if_neg (not_not_intro h), and_iff_right h]
    exact (Except.ok.injEq _ _).to_iff.trans eq_comm
  · rw [if_pos h]
    exact ⟨nofun, fun hresult => absurd hresult.1 h⟩

/-- A page is read when all its groups are for the symbol. -/
theorem foldlM_scanGroup {groups : List BarHistory} {scan result : BarScan} :
    groups.foldlM (scanGroup symbol fromTime toTime) scan = .ok result ↔
      (∀ group ∈ groups, group.symbol = symbol) ∧
        result = (barsOf groups).foldl (scanBar fromTime toTime) scan := by
  induction groups generalizing scan with
  | nil =>
    rw [List.foldlM_nil, and_iff_right nofun]
    exact (Except.ok.injEq _ _).to_iff.trans eq_comm
  | cons group groups ih =>
    rw [List.foldlM_cons, except_bind_eq_ok, List.forall_mem_cons, barsOf, List.flatMap_cons,
      List.foldl_append, ← barsOf]
    constructor
    · intro ⟨next, hgroup, hgroups⟩
      obtain ⟨hsymbol, rfl⟩ := scanGroup_eq_ok.mp hgroup
      obtain ⟨hsymbols, hresult⟩ := ih.mp hgroups
      exact ⟨⟨hsymbol, hsymbols⟩, hresult⟩
    · intro ⟨⟨hsymbol, hsymbols⟩, hresult⟩
      exact ⟨_, scanGroup_eq_ok.mpr ⟨hsymbol, rfl⟩, ih.mpr ⟨hsymbols, hresult⟩⟩

/-- What a page can do: it is for the symbol, and either ends the pages or is followed by
one that ends before its oldest bar. -/
theorem barRounds_next {page : BarPage} {groups : List BarHistory}
    {outcome : BarPage ⊕ List Bar}
    (h : (barRounds symbol fromTime toTime).next page groups = .ok outcome) :
    (∀ group ∈ groups, group.symbol = symbol) ∧
      (outcome = .inr (page.bars.insertAll (within fromTime toTime (barsOf groups))).items ∧
          (barsOf groups = [] ∨ oldestOf page.before groups ≤ fromTime) ∨
        outcome = .inl ⟨oldestOf page.before groups - 1,
            page.bars.insertAll (within fromTime toTime (barsOf groups))⟩ ∧
          fromTime < oldestOf page.before groups ∧ oldestOf page.before groups < page.before) := by
  obtain ⟨scan, hscan, h⟩ := except_bind_eq_ok.mp h
  obtain ⟨hsymbols, rfl⟩ := foldlM_scanGroup.mp hscan
  refine ⟨hsymbols, ?_⟩
  rw [foldl_scanBar] at h
  dsimp only at h
  rw [← oldestOf] at h
  split at h
  · rename_i hend
    cases h
    refine .inl ⟨rfl, ?_⟩
    simpa using hend
  · rename_i hend
    split at h
    · cases h
    · rename_i hprogress
      cases h
      have hinside : ¬oldestOf page.before groups ≤ fromTime := fun hle => hend (.inr hle)
      exact .inr ⟨rfl, by omega, by omega⟩

end Page

/-! ## The pages of a range -/

section Talk

variable {symbol : String} {fromTime toTime : Int}

/-- What is kept after responses. -/
def keptAfter (fromTime toTime : Int) (responses : List (List BarHistory)) : Keyed Bar.time :=
  (Keyed.empty Bar.time).insertAll (within fromTime toTime (responses.flatMap barsOf))

theorem keptAfter_concat (responses : List (List BarHistory)) (groups : List BarHistory) :
    keptAfter fromTime toTime (responses ++ [groups]) =
      (keptAfter fromTime toTime responses).insertAll (within fromTime toTime (barsOf groups)) := by
  rw [keptAfter, keptAfter, List.flatMap_append, List.flatMap_singleton, within, List.filter_append,
    Keyed.insertAll, List.foldl_append]
  rfl

/-- The pages keep what has been received. -/
theorem barRounds_keeps (responses : List (List BarHistory)) (page : BarPage)
    (groups : List BarHistory) (next : BarPage)
    (hpage : page.bars = keptAfter fromTime toTime responses)
    (h : (barRounds symbol fromTime toTime).next page groups = .ok (.inl next)) :
    next.bars = keptAfter fromTime toTime (responses ++ [groups]) := by
  obtain ⟨-, ⟨hend, -⟩ | ⟨hnext, -⟩⟩ := barRounds_next h
  · cases hend
  · cases hnext
    rw [keptAfter_concat, hpage]

/-- The exchanges, without the bars that were kept. -/
def logOf (exchanges : List (Exchange ProtocolError BarPage Bytes (List BarHistory))) : BarLog :=
  exchanges.map fun e => (e.known.before, e.call)

theorem map_snd_logOf (exchanges : List (Exchange ProtocolError BarPage Bytes (List BarHistory))) :
    (logOf exchanges).map Prod.snd = exchanges.map Exchange.call := by
  rw [logOf, List.map_map]
  rfl

/-- The requests of a course. -/
theorem barTalk_of_course {start : BarPage} {result : Result (List Bar)}
    {exchanges : List (Exchange ProtocolError BarPage Bytes (List BarHistory))}
    (hstart : start.before = toTime - 1)
    (h : (barRounds symbol fromTime toTime).Course 256 start exchanges result) :
    BarTalk symbol fromTime toTime (logOf exchanges) := by
  have hchain : (logOf exchanges).IsChain fun e f => ∃ groups, e.2.2 = .ok groups ∧
      (∀ group ∈ groups, group.symbol = symbol) ∧ f.1 = oldestOf e.1 groups - 1 ∧
      fromTime < oldestOf e.1 groups ∧ oldestOf e.1 groups < e.1 := by
    rw [logOf, List.isChain_map]
    refine h.chain.imp fun e f => ?_
    intro ⟨groups, hreply, hnext⟩
    obtain ⟨hsymbols, ⟨hend, -⟩ | ⟨hpage, hinside, hprogress⟩⟩ := barRounds_next hnext
    · cases hend
    · exact ⟨groups, hreply, hsymbols, congrArg BarPage.before (Sum.inl.inj hpage), hinside,
        hprogress⟩
  refine ⟨?_, ?_, ?_, ?_, hchain⟩
  · rw [logOf, List.length_map]
    exact h.length_le
  · intro e he
    cases exchanges with
    | nil => cases he
    | cons first rest =>
      cases he
      show first.known.before = toTime - 1
      rw [h.known_head, hstart]
  · have hbefore : ((logOf exchanges).map Prod.fst).IsChain (· > ·) := by
      rw [List.isChain_map]
      refine hchain.imp fun e f => ?_
      intro ⟨groups, _, _, hnext, _, hprogress⟩
      show f.1 < e.1
      omega
    exact List.isChain_iff_pairwise.mp hbefore
  · intro e he
    obtain ⟨exchange, hexchange, rfl⟩ := List.mem_map.mp he
    obtain ⟨front, back, hsplit⟩ := List.append_of_mem hexchange
    have hhistory := h.history (P := fun _ _ => True) (fun _ _ _ _ _ _ => trivial) trivial hsplit
    obtain ⟨⟨year, month, day⟩, hdate, hbody⟩ := except_bind_eq_ok.mp hhistory.2
    exact ⟨year, month, day, hdate, hbody⟩

/-- The pages of a course with a result. -/
theorem barEnd_of_course {start : BarPage} {out : List Bar}
    {exchanges : List (Exchange ProtocolError BarPage Bytes (List BarHistory))}
    (hstart : start.bars = .empty Bar.time)
    (h : (barRounds symbol fromTime toTime).Course 256 start exchanges (.ok out)) :
    BarEnd symbol fromTime (logOf exchanges) ∧
      out = ((Keyed.empty Bar.time).insertAll
        (within fromTime toTime (received (logOf exchanges)))).items := by
  obtain ⟨front, e, groups, rfl, hreply, hnext⟩ := h.last
  obtain ⟨hkept, -⟩ := h.history barRounds_keeps hstart rfl
  obtain ⟨hsymbols, ⟨hend, hlast⟩ | ⟨hpage, -⟩⟩ := barRounds_next hnext
  · cases hend
    constructor
    · refine ⟨logOf front, e.known.before, e.request, groups, ?_, hsymbols, hlast⟩
      rw [logOf, List.map_append, List.map_singleton, Exchange.call, hreply]
      rfl
    · rw [hkept, ← keptAfter_concat, keptAfter, received, map_snd_logOf, List.map_append,
        List.map_singleton, Exchange.call, hreply, replies_concat]
  · cases hpage

/-- What is kept is the last bar of each time in the range. -/
theorem mem_kept {items : List Bar} {bar : Bar} :
    bar ∈ ((Keyed.empty Bar.time).insertAll (within fromTime toTime items)).items ↔
      (fromTime ≤ bar.time ∧ bar.time < toTime) ∧ lastOf Bar.time items bar.time = some bar := by
  rw [mem_insertAll_iff_lastOf]
  by_cases h : fromTime ≤ bar.time ∧ bar.time < toTime
  · rw [within, lastOf_filter, and_iff_right h]
    intro other _ htime
    rw [htime]
    exact decide_eq_true h
  · refine iff_of_false (fun hlast => h ?_) fun hin => h hin.1
    exact of_decide_eq_true (List.mem_filter.mp (mem_of_lastOf hlast)).2

end Talk

/-! ## A range -/

section Range

variable {σ : Type} (link : Link σ) (decode : Bytes → Result (List BarHistory)) (symbol : String)
  {fromTime toTime : Int}

/-- The requests are at most 256, each one for a page that ends before the one before it.
A result has one bar for each time in the range that was received, the last one, in the
order of the times. -/
theorem bars_complete (hrange : fromTime < toTime) (s : σ) :
    ∃ log, Calls (fetch link decode 102) s (log.map Prod.snd)
        (bars link decode symbol fromTime toTime s).2 ∧
      BarTalk symbol fromTime toTime log ∧
      ∀ out, (bars link decode symbol fromTime toTime s).1 = .ok out →
        BarEnd symbol fromTime log ∧
        out.Pairwise (fun a b => a.time < b.time) ∧
        (∀ bar, bar ∈ out ↔ (fromTime ≤ bar.time ∧ bar.time < toTime) ∧
          lastOf Bar.time (received log) bar.time = some bar) ∧
        ∀ time, (∃ bar ∈ out, bar.time = time) ↔
          (fromTime ≤ time ∧ time < toTime) ∧ ∃ bar ∈ received log, bar.time = time := by
  unfold bars
  rw [Act.get_bind]
  cases link.symbol s symbol with
  | error e =>
    exact ⟨[], .nil s, ⟨Nat.zero_le _, nofun, .nil, nofun, .nil⟩, nofun⟩
  | ok found =>
    rw [Act.ofExcept_bind_of_ok rfl, if_neg (Int.not_le.mpr hrange)]
    obtain ⟨exchanges, hcourse, hcalls⟩ := Rounds.run_course (barRounds symbol fromTime toTime)
      (fetch link decode 102) 256 ⟨toTime - 1, .empty Bar.time⟩ s
    refine ⟨logOf exchanges, ?_, barTalk_of_course rfl hcourse, ?_⟩
    · rw [map_snd_logOf]
      exact hcalls
    · intro out hout
      rw [hout] at hcourse
      obtain ⟨hend, rfl⟩ := barEnd_of_course rfl hcourse
      refine ⟨hend, Keyed.sorted _, fun bar => mem_kept, fun time => ?_⟩
      constructor
      · rintro ⟨bar, hbar, rfl⟩
        obtain ⟨hin, hlast⟩ := mem_kept.mp hbar
        exact ⟨hin, bar, mem_of_lastOf hlast, rfl⟩
      · rintro ⟨hin, bar, hbar, rfl⟩
        obtain ⟨last, hlast, htime⟩ := exists_lastOf (List.mem_map_of_mem (f := Bar.time) hbar)
        exact ⟨last, mem_kept.mpr ⟨htime ▸ hin, htime ▸ hlast⟩, htime⟩

end Range

/-! ## A sample -/

/-- A bar at a time, with its ticks. -/
def sampleBar (time : Int) (tickVolume : Nat) : Bar where
  time := time
  opening := .zero
  high := .zero
  low := .zero
  close := .zero
  tickVolume := tickVolume
  realVolume := 0
  spread := 0

/-- Two pages.  The second one has a bar of the first one again, and bars on both sides of
the start of the range. -/
def samplePages : Bytes → Result (List BarHistory)
  | [9] => .ok [{ symbol := "EURUSD", bars := [sampleBar 240 1, sampleBar 180 2] }]
  | _ => .ok [{ symbol := "EURUSD", bars := [sampleBar 60 3, sampleBar 180 4, sampleBar 120 5] }]

/-- The range starts at the second bar, and the later one of two bars at a time is kept. -/
theorem bars_complete_sample :
    ∃ log, Calls (fetch sampleLink samplePages 102) [[9], [0]] (log.map Prod.snd) [] ∧
      BarTalk "EURUSD" 120 240 log ∧ BarEnd "EURUSD" 120 log ∧
      (bars sampleLink samplePages "EURUSD" 120 240 [[9], [0]]).1 =
        .ok [sampleBar 120 5, sampleBar 180 4] ∧
      lastOf Bar.time (received log) 180 = some (sampleBar 180 4) := by
  have hout : (bars sampleLink samplePages "EURUSD" 120 240 [[9], [0]]).1 =
      .ok [sampleBar 120 5, sampleBar 180 4] := by decide +kernel
  have hreplies : (bars sampleLink samplePages "EURUSD" 120 240 [[9], [0]]).2 = [] := by
    decide +kernel
  obtain ⟨log, hcalls, htalk, hresult⟩ :=
    bars_complete sampleLink samplePages "EURUSD" (show (120 : Int) < 240 by decide) [[9], [0]]
  rw [hreplies] at hcalls
  obtain ⟨hend, -, hlast, -⟩ := hresult _ hout
  exact ⟨log, hcalls, htalk, hend, hout, ((hlast (sampleBar 180 4)).mp (by simp)).2⟩

end Mt5Open.Native.Client
