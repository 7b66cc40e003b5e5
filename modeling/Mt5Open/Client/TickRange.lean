import Mt5Open.Client.History
import Mt5Open.Native.Margin

/-!
# Ticks of a range

The requests and responses of `Client::ticks`, day by day.  `DayTalk` says what the requests
of a day are, and `DayTicks` which ticks a day ends with: those of the last version of each
container and of the trailing containers, carried forward and cut to the day and the range.

`tickRounds_next` says what a response can do.  `ticksOfDay_talk` is about one day,
`ticksOfDays_talk` about days in a row, and `ticks_complete` about a range.
-/

namespace Mt5Open.Native.Client

open Lib
open Ticks (TickCache TickContainer TickHistory HistoricalTick materializeTicks)

/-- The requests of a day, with what came back. -/
abbrev TickLog := List (Bytes × Result TickHistory)

/-- The containers that are held after responses: the last version of each date, in the
order in which the dates first came. -/
def heldAfter (responses : List TickHistory) : List TickContainer :=
  lastVersions (·.cache.date) (responses.flatMap (·.containers))

/-- The containers of responses by date, the last version of each. -/
def byDate (responses : List TickHistory) : List TickContainer :=
  ((Keyed.empty fun c : TickContainer => c.cache.date).insertAll
    (responses.flatMap (·.containers))).items

/-- The requests of a day: each one carries the tokens of what is held, and there is another
one only if a response announces more and has changed a token. -/
structure DayTalk (symbol : String) (day : Int) (log : TickLog) : Prop where
  count : log.length ≤ 64
  request : ∀ front payload reply back, log = front ++ (payload, reply) :: back →
    ∃ year month dayOfMonth, date (day * 86400) = .ok (year, month, dayOfMonth) ∧
      makeCachedTickHistoryRequest symbol year month dayOfMonth 0
        (tokens (heldAfter (replies front))) = .ok payload
  progress : ∀ front payload reply back, log = front ++ (payload, reply) :: back → back ≠ [] →
    ∃ response, reply = .ok response ∧ response.symbol = symbol ∧ response.more = true ∧
      tokens (heldAfter (replies front ++ [response])) ≠ tokens (heldAfter (replies front))

/-- The ticks that a day ends with. -/
def DayTicks (symbol : String) (fromMs toMs day : Int) (log : TickLog)
    (rows : List HistoricalTick) : Prop :=
  ∃ front payload final all, log = front ++ [(payload, .ok final)] ∧
    final.symbol = symbol ∧ final.more = false ∧
    materializeTicks ((byDate (replies front ++ [final]) ++ final.trailing).flatMap (·.ticks)) =
      .ok all ∧
    rows = all.filter fun r => fromMs ≤ r.timeMs ∧ r.timeMs < toMs ∧ r.timeMs / 86400000 = day

/-- The requests of days in a row: all but the last day have come to their end. -/
structure DaysTalk (symbol : String) (fromMs toMs : Int) (days : List Int)
    (talks : List (Int × TickLog)) : Prop where
  days : talks.map Prod.fst <+: days
  talk : ∀ d ∈ talks, DayTalk symbol d.1 d.2
  ended : ∀ d ∈ talks.dropLast, ∃ rows, DayTicks symbol fromMs toMs d.1 d.2 rows

/-- The ticks of days that have all come to their end. -/
structure DaysTicks (symbol : String) (fromMs toMs : Int) (days : List Int)
    (talks : List (Int × TickLog)) (rows : List (List HistoricalTick)) : Prop where
  days : talks.map Prod.fst = days
  ticks : List.Forall₂ (fun d => DayTicks symbol fromMs toMs d.1 d.2) talks rows

theorem DayTalk.nil (symbol : String) (day : Int) : DayTalk symbol day [] where
  count := Nat.zero_le _
  request front _ _ _ hlog := by cases front <;> cases hlog
  progress front _ _ _ hlog := by cases front <;> cases hlog

theorem DaysTalk.nil (symbol : String) (fromMs toMs : Int) (days : List Int) :
    DaysTalk symbol fromMs toMs days [] := ⟨List.nil_prefix, nofun, nofun⟩

/-! ## A response -/

section Response

variable {symbol : String} {year month day : Int} {cached : List TickContainer}
  {response : TickHistory}

/-- The containers that are held after one more response. -/
def holding (cached : List TickContainer) (response : TickHistory) : List TickContainer :=
  response.containers.foldl (fun held c => supersede (·.cache.date) c held) cached

/-- What a response can do: it is for the symbol, and either announces more and changes a
token or ends the day. -/
theorem tickRounds_next {outcome : List TickContainer ⊕ (List TickContainer × TickHistory)}
    (h : (tickRounds symbol year month day).next cached response = .ok outcome) :
    response.symbol = symbol ∧
      (outcome = .inl (holding cached response) ∧ response.more = true ∧
          tokens cached ≠ tokens (holding cached response) ∨
        outcome = .inr (holding cached response, response) ∧ response.more = false) := by
  simp only [tickRounds] at h
  rw [← holding] at h
  split at h
  · cases h
  · rename_i hsymbol
    refine ⟨Decidable.not_not.mp hsymbol, ?_⟩
    split at h
    · cases h
    · split at h
      · rename_i hmore
        split at h
        · cases h
        · rename_i hchanged
          cases h
          exact .inl ⟨rfl, hmore, hchanged⟩
      · rename_i hmore
        cases h
        exact .inr ⟨rfl, Bool.eq_false_iff.mpr hmore⟩

theorem heldAfter_concat (responses : List TickHistory) (response : TickHistory) :
    heldAfter (responses ++ [response]) = holding (heldAfter responses) response := by
  rw [heldAfter, heldAfter, List.flatMap_append, List.flatMap_singleton, holding,
    foldl_supersede_lastVersions]

theorem sortByKey_heldAfter (responses : List TickHistory) :
    sortByKey (·.cache.date) (heldAfter responses) = byDate responses :=
  sortByKey_lastVersions _

end Response

theorem ticksWithin_eq_ok {fromMs toMs day : Int} {containers : List TickContainer}
    {rows : List HistoricalTick} :
    ticksWithin fromMs toMs day containers = .ok rows ↔
      ∃ all, materializeTicks (containers.flatMap (·.ticks)) = .ok all ∧
        rows = all.filter fun r =>
          fromMs ≤ r.timeMs ∧ r.timeMs < toMs ∧ r.timeMs / 86400000 = day := by
  rw [ticksWithin, except_bind_eq_ok]
  refine exists_congr fun all => and_congr_right fun _ => ?_
  exact (Except.ok.injEq _ _).to_iff.trans eq_comm

/-! ## A day -/

section Talk

variable {σ : Type} (link : Link σ) (decode : Bytes → Result TickHistory) (symbol : String)
  (fromMs toMs : Int)

/-- The responses of a day. -/
theorem tickRounds_talk {day year month dayOfMonth : Int}
    (hdate : date (day * 86400) = .ok (year, month, dayOfMonth)) (s : σ) :
    ∃ log, Calls (fetch link decode 105) s log
        ((tickRounds symbol year month dayOfMonth).run (fetch link decode 105) 64 [] s).2 ∧
      DayTalk symbol day log ∧
      ∀ cached final,
        ((tickRounds symbol year month dayOfMonth).run (fetch link decode 105) 64 [] s).1 =
          .ok (cached, final) →
        ∃ front payload, log = front ++ [(payload, .ok final)] ∧ final.symbol = symbol ∧
          final.more = false ∧ cached = heldAfter (replies front ++ [final]) := by
  obtain ⟨log, hcourse, hcalls⟩ :=
    Rounds.run_course (tickRounds symbol year month dayOfMonth) (fetch link decode 105) 64 [] s
  have keeps : ∀ (as : List TickHistory) u a v, u = heldAfter as →
      (tickRounds symbol year month dayOfMonth).next u a = .ok (.inl v) →
      v = heldAfter (as ++ [a]) := by
    intro as u a v hu hnext
    obtain ⟨-, ⟨hv, -⟩ | ⟨hend, -⟩⟩ := tickRounds_next hnext
    · rw [Sum.inl.inj hv, hu, heldAfter_concat]
    · cases hend
  refine ⟨log.map Exchange.call, hcalls, ⟨?_, ?_, ?_⟩, ?_⟩
  · rw [List.length_map]
    exact hcourse.length_le
  · intro front payload reply back hlog
    obtain ⟨known, rfl, hrequest, -⟩ := hcourse.at_call keeps rfl hlog
    exact ⟨year, month, dayOfMonth, hdate, hrequest⟩
  · intro front payload reply back hlog hback
    obtain ⟨known, rfl, -, hgoesOn⟩ := hcourse.at_call keeps rfl hlog
    obtain ⟨response, held, rfl, hnext⟩ := hgoesOn hback
    obtain ⟨hsymbol, ⟨-, hmore, hchanged⟩ | ⟨hend, -⟩⟩ := tickRounds_next hnext
    · refine ⟨response, rfl, hsymbol, hmore, ?_⟩
      rw [heldAfter_concat]
      exact Ne.symm hchanged
    · cases hend
  · intro cached final hresult
    rw [hresult] at hcourse
    obtain ⟨front, payload, response, known, hlog, rfl, hnext⟩ := hcourse.at_end keeps rfl
    obtain ⟨hsymbol, ⟨hgoesOn, -⟩ | ⟨hend, hmore⟩⟩ := tickRounds_next hnext
    · cases hgoesOn
    · cases hend
      exact ⟨front, payload, hlog, hsymbol, hmore, (heldAfter_concat _ _).symm⟩

/-- A day: its requests, and its ticks behind those of the days before. -/
theorem ticksOfDay_talk (day : Int) (output : List HistoricalTick) (s : σ) :
    ∃ log, Calls (fetch link decode 105) s log
        (ticksOfDay link decode symbol fromMs toMs day output s).2 ∧
      DayTalk symbol day log ∧
      ∀ out, (ticksOfDay link decode symbol fromMs toMs day output s).1 = .ok out →
        ∃ rows, DayTicks symbol fromMs toMs day log rows ∧ out = output ++ rows := by
  unfold ticksOfDay
  cases hdate : date (day * 86400) with
  | error e =>
    rw [Act.ofExcept_bind_of_error rfl]
    exact ⟨[], .nil s, .nil symbol day, nofun⟩
  | ok civil =>
    obtain ⟨year, month, dayOfMonth⟩ := civil
    rw [Act.ofExcept_bind_of_ok rfl]
    obtain ⟨log, hcalls, htalk, hends⟩ := tickRounds_talk link decode symbol hdate s
    refine ⟨log, ?_⟩
    dsimp only
    rcases hrun : (tickRounds symbol year month dayOfMonth).run (fetch link decode 105) 64 [] s
      with ⟨e | ⟨cached, final⟩, t⟩
    · rw [Act.bind_of_error hrun]
      rw [hrun] at hcalls
      exact ⟨hcalls, htalk, nofun⟩
    · rw [Act.bind_of_ok hrun]
      rw [hrun] at hcalls hends
      obtain ⟨front, payload, rfl, hsymbol, hmore, rfl⟩ := hends cached final rfl
      rw [sortByKey_heldAfter]
      cases hrows : ticksWithin fromMs toMs day
          (byDate (replies front ++ [final]) ++ final.trailing) with
      | error e => exact ⟨hcalls, htalk, nofun⟩
      | ok rows =>
        rw [Act.ofExcept_bind_of_ok rfl]
        split
        · exact ⟨hcalls, htalk, nofun⟩
        · refine ⟨hcalls, htalk, ?_⟩
          intro out hout
          cases hout
          obtain ⟨all, hall, hcut⟩ := ticksWithin_eq_ok.mp hrows
          exact ⟨rows, ⟨front, payload, final, all, rfl, hsymbol, hmore, hall, hcut⟩, rfl⟩

/-- Days in a row. -/
theorem ticksOfDays_talk (days : List Int) (output : List HistoricalTick) (s : σ) :
    ∃ talks, Calls (fetch link decode 105) s (talks.flatMap Prod.snd)
        (ticksOfDays link decode symbol fromMs toMs days output s).2 ∧
      DaysTalk symbol fromMs toMs days talks ∧
      ∀ out, (ticksOfDays link decode symbol fromMs toMs days output s).1 = .ok out →
        ∃ rows, DaysTicks symbol fromMs toMs days talks rows ∧ out = output ++ rows.flatten := by
  induction days generalizing output s with
  | nil =>
    refine ⟨[], .nil s, .nil .., fun out hout => ⟨[], ⟨rfl, .nil⟩, ?_⟩⟩
    cases hout
    exact (List.append_nil _).symm
  | cons day days ih =>
    rw [ticksOfDays]
    obtain ⟨log, hcalls, htalk, hday⟩ := ticksOfDay_talk link decode symbol fromMs toMs day output s
    rcases hrun : ticksOfDay link decode symbol fromMs toMs day output s with ⟨e | out, t⟩
    · rw [Act.bind_of_error hrun]
      rw [hrun] at hcalls
      refine ⟨[(day, log)], ?_, ⟨?_, ?_, nofun⟩, nofun⟩
      · simpa using hcalls
      · exact List.cons_prefix_cons.mpr ⟨rfl, List.nil_prefix⟩
      · intro d hd
        rw [List.mem_singleton.mp hd]
        exact htalk
    · rw [Act.bind_of_ok hrun]
      rw [hrun] at hcalls hday
      obtain ⟨rows, hrows, rfl⟩ := hday out rfl
      obtain ⟨talks, hrest, htalks, hresult⟩ := ih (output ++ rows) t
      refine ⟨(day, log) :: talks, hcalls.append hrest, ⟨?_, ?_, ?_⟩, ?_⟩
      · exact List.cons_prefix_cons.mpr ⟨rfl, htalks.days⟩
      · exact List.forall_mem_cons.mpr ⟨htalk, htalks.talk⟩
      · intro d hd
        cases talks with
        | nil => cases hd
        | cons next talks =>
          rcases List.mem_cons.mp hd with rfl | hd
          · exact ⟨rows, hrows⟩
          · exact htalks.ended d hd
      · intro out hout
        obtain ⟨others, hothers, rfl⟩ := hresult out hout
        refine ⟨rows :: others, ⟨?_, .cons hrows hothers.ticks⟩, ?_⟩
        · rw [List.map_cons, hothers.days]
        · rw [List.flatten_cons, List.append_assoc]

end Talk

/-! ## A range -/

/-- A day whose last response announces more has not come to its end. -/
theorem not_dayTicks_of_more {symbol : String} {fromMs toMs day : Int} {front : TickLog}
    {payload : Bytes} {response : TickHistory} {rows : List HistoricalTick}
    (hmore : response.more = true) :
    ¬DayTicks symbol fromMs toMs day (front ++ [(payload, .ok response)]) rows := by
  rintro ⟨_, _, final, _, hlog, -, hfinal, -⟩
  obtain ⟨-, hlast⟩ := List.append_inj' hlog rfl
  cases hlast
  rw [hmore] at hfinal
  cases hfinal

section Range

variable {σ : Type} (link : Link σ) (decode : Bytes → Result TickHistory) (symbol : String)
  {fromMs toMs : Int}

/-- The days of a range, and the ticks that they end with. -/
theorem ticks_talk (hrange : fromMs < toMs) (s : σ) :
    ∃ talks, Calls (fetch link decode 105) s (talks.flatMap Prod.snd)
        (ticks link decode symbol fromMs toMs s).2 ∧
      DaysTalk symbol fromMs toMs (daysOf fromMs toMs) talks ∧
      ∀ out, (ticks link decode symbol fromMs toMs s).1 = .ok out →
        ∃ rows, DaysTicks symbol fromMs toMs (daysOf fromMs toMs) talks rows ∧
          StablySorted HistoricalTick.timeMs rows.flatten out := by
  unfold ticks
  rw [Act.get_bind]
  cases link.symbol s symbol with
  | error e => exact ⟨[], .nil s, .nil .., nofun⟩
  | ok found =>
    rw [Act.ofExcept_bind_of_ok rfl, if_neg (Int.not_le.mpr hrange)]
    cases date (fromMs / 1000) with
    | error e => exact ⟨[], .nil s, .nil .., nofun⟩
    | ok first =>
      rw [Act.ofExcept_bind_of_ok rfl]
      cases date ((toMs - 1) / 1000) with
      | error e => exact ⟨[], .nil s, .nil .., nofun⟩
      | ok last =>
        rw [Act.ofExcept_bind_of_ok rfl]
        split
        · exact ⟨[], .nil s, .nil .., nofun⟩
        · obtain ⟨talks, hcalls, htalks, hresult⟩ :=
            ticksOfDays_talk link decode symbol fromMs toMs (daysOf fromMs toMs) [] s
          rcases hrun : ticksOfDays link decode symbol fromMs toMs (daysOf fromMs toMs) [] s
            with ⟨e | output, t⟩
          · rw [Act.bind_of_error hrun]
            rw [hrun] at hcalls
            exact ⟨talks, hcalls, htalks, nofun⟩
          · rw [Act.bind_of_ok hrun]
            rw [hrun] at hcalls hresult
            obtain ⟨rows, hrows, rfl⟩ := hresult output rfl
            refine ⟨talks, hcalls, htalks, fun out hout => ⟨rows, hrows, ?_⟩⟩
            cases hout
            exact sortByKey_stablySorted _ _

/-- The requests are sent day by day, at most 64 for each, and carry the tokens of what is
held.  A response that announces more and changes no token is the last one, and there is no
result.  The ticks of a result are those of the days, sorted stably by their time. -/
theorem ticks_complete (hrange : fromMs < toMs) (s : σ) :
    ∃ talks, Calls (fetch link decode 105) s (talks.flatMap Prod.snd)
        (ticks link decode symbol fromMs toMs s).2 ∧
      DaysTalk symbol fromMs toMs (daysOf fromMs toMs) talks ∧
      (∀ d ∈ talks, ∀ front payload response back,
        d.2 = front ++ (payload, .ok response) :: back → response.more = true →
        tokens (heldAfter (replies front ++ [response])) = tokens (heldAfter (replies front)) →
        back = [] ∧ talks.getLast? = some d ∧
          ∃ e, (ticks link decode symbol fromMs toMs s).1 = .error e) ∧
      ∀ out, (ticks link decode symbol fromMs toMs s).1 = .ok out →
        ∃ rows, DaysTicks symbol fromMs toMs (daysOf fromMs toMs) talks rows ∧
          StablySorted HistoricalTick.timeMs rows.flatten out := by
  obtain ⟨talks, hcalls, htalks, hresult⟩ := ticks_talk link decode symbol hrange s
  refine ⟨talks, hcalls, htalks, ?_, hresult⟩
  intro d hd front payload response back hlog hmore hsame
  have hlast : back = [] := by
    by_contra hback
    obtain ⟨_, hreply, -, -, hchanged⟩ := (htalks.talk d hd).progress _ _ _ _ hlog hback
    cases hreply
    exact hchanged hsame
  subst hlast
  have hopen : ¬∃ rows, DayTicks symbol fromMs toMs d.1 d.2 rows := by
    rw [hlog]
    exact fun ⟨rows, hrows⟩ => not_dayTicks_of_more hmore hrows
  refine ⟨rfl, ?_, ?_⟩
  · rcases List.eq_nil_or_concat talks with rfl | ⟨before, last, rfl⟩
    · cases hd
    · have hended := htalks.ended
      rw [List.concat_eq_append, List.dropLast_concat] at hended
      rw [List.concat_eq_append] at hd ⊢
      rw [List.getLast?_concat]
      rcases List.mem_append.mp hd with hbefore | hd
      · exact absurd (hended d hbefore) hopen
      · rw [List.mem_singleton.mp hd]
  · cases hout : (ticks link decode symbol fromMs toMs s).1 with
    | error e => exact ⟨e, rfl⟩
    | ok out =>
      obtain ⟨rows, hrows, -⟩ := hresult out hout
      have hended : ∀ d ∈ talks, ∃ rows, DayTicks symbol fromMs toMs d.1 d.2 rows :=
        ((List.forall₂_and_left _ _).mp (hrows.ticks.imp fun d rows h => ⟨⟨rows, h⟩, h⟩)).1
      exact absurd (hended d hd) hopen

end Range

/-! ## A sample -/

/-- Replies to come, one for each request. -/
def sampleLink : Link (List Bytes) where
  symbol _ _ := .ok Margin.sampleSymbol
  request command _ := fun
    | [] => (reject "request deadline exceeded", [])
    | payload :: rest => (.ok { command, sequence := 0, payload, fragments := 1 }, rest)

/-- A container whose ticks have these times and flags. -/
def sampleContainer (date : Nat) (ticks : List (Int × Int)) : TickContainer where
  cache := { date, time := 0, size := ticks.length, flags := 0, crc := 0 }
  ticks := ticks.map fun tick => { timeMs := some tick.1, auxiliary64 := some tick.2 }
  extensions := []

/-- A response that announces more, and one that replaces its container. -/
def sampleResponses : Bytes → Result TickHistory
  | [14] => .ok {
      symbol := "EURUSD", more := true
      containers := [sampleContainer 5 [(900, 1)]], trailing := [] }
  | _ => .ok {
      symbol := "EURUSD", more := false
      containers := [sampleContainer 5 [(1000, 2), (1000, 3)], sampleContainer 3 [(1500, 4)]]
      trailing := [sampleContainer 9 [(1000, 5)]] }

/-- The three ticks at one millisecond stay in the order of the containers. -/
theorem ticks_complete_sample :
    ∃ talks rows out, Calls (fetch sampleLink sampleResponses 105) [[14], [0]]
        (talks.flatMap Prod.snd) [] ∧
      DaysTalk "EURUSD" 0 2000 [0] talks ∧ DaysTicks "EURUSD" 0 2000 [0] talks rows ∧
      StablySorted HistoricalTick.timeMs rows.flatten out ∧
      out.map (·.flags) = [2, 3, 5, 4] := by
  have hflags : (ticks sampleLink sampleResponses "EURUSD" 0 2000 [[14], [0]]).1.map
      (fun out => out.map (·.flags)) = .ok [2, 3, 5, 4] := by decide +kernel
  have hreplies : (ticks sampleLink sampleResponses "EURUSD" 0 2000 [[14], [0]]).2 = [] := by
    decide +kernel
  obtain ⟨talks, hcalls, htalks, -, hresult⟩ :=
    ticks_complete sampleLink sampleResponses "EURUSD" (show (0 : Int) < 2000 by decide)
      [[14], [0]]
  rw [hreplies] at hcalls
  cases hout : (ticks sampleLink sampleResponses "EURUSD" 0 2000 [[14], [0]]).1 with
  | error e =>
    rw [hout] at hflags
    cases hflags
  | ok out =>
    rw [hout] at hflags
    obtain ⟨rows, hrows, hsorted⟩ := hresult out hout
    exact ⟨talks, rows, out, hcalls, htalks, hrows, hsorted, Except.ok.inj hflags⟩

end Mt5Open.Native.Client
