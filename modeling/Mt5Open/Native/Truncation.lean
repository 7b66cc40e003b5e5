import Mt5Open.Native.Bars
import Mt5Open.Native.Placement
import Mt5Open.Native.TickHistory

/-!
# Truncated histories

No reader of a history looks at how many bytes there are behind those that it takes.  The
front of an accepted history is therefore an error, unless a reply of bars or a trailing
container of ticks begins where it ends.  Then the items in front of it are the history.

`history_truncated` says so for both kinds of history.
-/

namespace Mt5Open.Native

open Lib

namespace Bars

open Decoder

section Reading

variable {P : Bytes → Prop} {R : Bytes → Bytes → Prop}
  (htake : ∀ size, Carries P R (Reader.take size)) (ratio : Int → Nat → F64)

include htake

theorem carries_u16 : Carries P R Reader.u16 := (htake 2).bind fun _ => .pure _

theorem carries_containerBars (h : Record 129) : Carries P R (containerBars ratio h) :=
  (Carries.raise _).ite ((Carries.raise _).ite
    ((htake _).bind fun _ => (Carries.ofResult _).bind fun _ => .ofResult _))

theorem carries_container (symbol : String) : Carries P R (container ratio symbol) :=
  (htake 129).bind fun _ => (Carries.ofResult _).bind fun h =>
    (Carries.raise _).ite (carries_containerBars htake ratio h)

theorem carries_containerCount (subtype : UInt8) (status : Int) :
    Carries P R (containerCount subtype status) := by
  have hu16 := carries_u16 htake
  refine (hu16.bind fun n => .pure _).ite ((Carries.pure _).ite (Carries.ite ?_ (.raise _)))
  exact hu16.bind fun skipped => hu16.bind fun mode => (Carries.raise _).ite (.pure _)

/-- A reply is read from the bytes that it takes. -/
theorem carries_reply : Carries P R (reply ratio) := by
  refine ((htake 1).bind fun _ => .pure _).bind fun subtype => ?_
  refine (htake 64).bind fun name => (Carries.ofResult _).bind fun r => ?_
  refine ((htake 4).bind fun _ => .pure _).bind fun status => ?_
  refine (carries_containerCount htake subtype status).bind fun containers => ?_
  exact ((carries_container htake ratio _).times containers).bind fun bars => .pure _

end Reading

section Truncated

variable {ratio : Int → Nat → F64} {bytes front more : Bytes} {histories : List BarHistory}

/-- The reply with this index begins at this position of the bytes. -/
def ReplyBegins (ratio : Int → Nat → F64) (bytes : Bytes) (histories : List BarHistory)
    (k position : Nat) : Prop :=
  k < histories.length ∧ ∃ rest, times (reply ratio) k bytes = .ok (histories.take k, rest) ∧
    position + rest.length = bytes.length

/-- Every reply begins somewhere. -/
theorem exists_replyBegins (h : decodeBarHistory ratio bytes = .ok histories) {k : Nat}
    (hk : k < histories.length) : ∃ position < bytes.length,
      ReplyBegins ratio bytes histories k position := by
  have hrun := (decodeBarHistory_eq_ok ratio).mp h
  obtain ⟨m, hm⟩ := Nat.exists_eq_add_of_lt hk
  rw [hm, Nat.add_assoc] at hrun
  obtain ⟨first, others, rest, hsplit, hfirst, hothers⟩ := times_append_eq_ok.mp hrun
  have hlength := length_of_times hfirst
  have htake : first = histories.take k := by rw [hsplit, ← hlength, List.take_left]
  obtain ⟨history, -, t, -, hreply, -⟩ := times_succ_eq_ok.mp hothers
  have hpos := reply_shorter ratio hreply
  have hshorter := (Shrinks.times (shrinks_reply ratio) k) _ _ _ hfirst
  exact ⟨bytes.length - rest.length, by omega, hk, rest, htake ▸ hfirst, by omega⟩

/-- In front of a reply, the replies in front of it are read. -/
theorem decodeBarHistory_of_begins (hmore : bytes = front ++ more) {k : Nat}
    (hbegins : ReplyBegins ratio bytes histories k front.length) :
    decodeBarHistory ratio front = .ok (histories.take k) := by
  obtain ⟨hk, rest, hrun, hposition⟩ := hbegins
  rw [hmore, List.length_append, Nat.add_left_cancel_iff] at hposition
  obtain ⟨-, hshares⟩ := ((carries_reply Reader.Shares.carries_take ratio).times k) _ _ _ hrun
    (Nat.le_of_eq hposition.symm)
  obtain ⟨left, hfront, shared, hrest, rfl⟩ :=
    hshares front ⟨front, hmore, (List.append_nil _).symm⟩
  have hshared : shared = [] := by
    have hlength := congrArg List.length hrest
    rw [List.length_append] at hlength
    exact List.length_eq_zero_iff.mp (by omega)
  rw [hshared] at hfront
  rw [decodeBarHistory_eq_ok, List.length_take_of_le (Nat.le_of_lt hk)]
  exact hfront

/-- What is accepted ends in front of a reply. -/
theorem begins_of_decodeBarHistory (h : decodeBarHistory ratio bytes = .ok histories)
    (hmore : bytes = front ++ more) (hne : more ≠ []) {others : List BarHistory}
    (hfront : decodeBarHistory ratio front = .ok others) :
    ReplyBegins ratio bytes histories others.length front.length := by
  have hrun := (decodeBarHistory_eq_ok ratio).mp h
  have hshort := (decodeBarHistory_eq_ok ratio).mp hfront
  obtain ⟨-, hshares⟩ := ((carries_reply Reader.Shares.carries_take ratio).times _) _ _ _ hshort
    (Nat.le_refl _)
  obtain ⟨left, hread, shared, hshared, rfl⟩ :=
    hshares bytes ⟨front, (List.append_nil _).symm, hmore⟩
  obtain ⟨rfl, -⟩ := List.append_eq_nil_iff.mp hshared.symm
  rw [List.nil_append] at hread
  rcases Nat.lt_or_ge others.length histories.length with hlt | hge
  · obtain ⟨htake, -⟩ := times_take (Nat.le_of_lt hlt) hrun hread
    refine ⟨hlt, more, htake ▸ hread, ?_⟩
    rw [hmore, List.length_append]
  · -- The bytes end behind all of the replies, and something is left.
    obtain ⟨-, hrest⟩ := times_take hge hread hrun
    have hle := (Shrinks.times (shrinks_reply ratio) _) _ _ _ hrest
    exact absurd (List.length_eq_zero_iff.mp (Nat.le_zero.mp hle)) hne

end Truncated

end Bars

namespace Ticks

open Decoder History

/-! ## Ticks -/

section Reading

/-- The readers stand at one place in strings that begin with `shared`, with one budget. -/
structure TickReader.Shares (shared back back' : Bytes) (s s' : TickReader) : Prop where
  reader : s.reader.Shares shared back back' s'.reader
  budget_eq : s'.budget = s.budget

/-- The reader stands in the first bytes. -/
def TickReader.Within (shared : Bytes) (s : TickReader) : Prop :=
  s.reader.position ≤ shared.length

variable {shared back back' : Bytes} {α : Type}

theorem carries_scan {x : Scan α}
    (hx : Carries (fun r => r.position ≤ shared.length) (ByteReader.Shares shared back back') x) :
    Carries (TickReader.Within shared) (TickReader.Shares shared back back') (scan x) := by
  intro s a t h hwithin
  unfold scan at h ⊢
  split at h
  · cases h
  · rename_i b reader hrun
    cases Except.ok.inj h
    obtain ⟨hstart, hshares⟩ := hx _ _ _ hrun hwithin
    refine ⟨hstart, fun s' hs => ?_⟩
    obtain ⟨reader', hrun', hreader⟩ := hshares s'.reader hs.reader
    refine ⟨{ s' with reader := reader' }, ?_, hreader, hs.budget_eq⟩
    rw [hrun']

theorem carries_scan_take (size : Nat) :
    Carries (TickReader.Within shared) (TickReader.Shares shared back back')
      (scan (ByteReader.take size)) :=
  carries_scan (ByteReader.Shares.carries_take size)

variable (flate2 : Flate2) (ratio : Int → Nat → F64)

theorem carries_group (hour : Option Nat) :
    Carries (TickReader.Within shared) (TickReader.Shares shared back back')
      (group flate2 hour) := by
  refine Carries.get (fun s s' hs => by rw [hs.budget_eq]) fun s => ?_
  refine (carries_scan (carries_readColumnGroupLimited ByteReader.Shares.carries_take _ _ _)).bind
    fun g => ?_
  refine (Carries.ofResult _).bind fun ticks => (Carries.ofResult _).bind fun bytes => ?_
  exact Carries.modify (fun _ h => h) (fun _ _ hs => ⟨hs.reader, rfl⟩) (Carries.pure _)

theorem carries_hours (indices : Record (24 * 16)) (list : List (Fin 24)) :
    Carries (TickReader.Within shared) (TickReader.Shares shared back back')
      (hours flate2 indices list) := by
  induction list with
  | nil => exact Carries.pure _
  | cons hour list ih =>
    rw [hours]
    refine Carries.ite ?_ ih
    exact (carries_group flate2 _).bind fun p => ih.bind fun q => Carries.pure _

theorem carries_containerTicks (h : Record 115) :
    Carries (TickReader.Within shared) (TickReader.Shares shared back back')
      (containerTicks flate2 ratio h) := by
  refine Carries.ite ((carries_scan_take _).bind fun indices => carries_hours flate2 _ _) ?_
  refine Carries.ite (carries_group flate2 none) (Carries.ite (Carries.raise _) ?_)
  refine (carries_scan_take _).bind fun data => (Carries.ofResult _).bind fun ticks => ?_
  refine Carries.get (fun s s' hs => by rw [hs.budget_eq]) fun s => ?_
  refine (Carries.ofResult _).bind fun left => ?_
  exact Carries.modify (fun _ h => h) (fun _ _ hs => ⟨hs.reader, rfl⟩) (Carries.pure _)

/-- A container is read from the bytes that it takes and from the budget. -/
theorem carries_container (symbol : String) :
    Carries (TickReader.Within shared) (TickReader.Shares shared back back')
      (container flate2 ratio symbol) := by
  refine (carries_scan_take 115).bind fun h => ?_
  refine Carries.get (fun s s' hs => by rw [hs.budget_eq]) fun s => ?_
  refine Carries.ite (Carries.raise _) (Carries.ite (Carries.raise _) ?_)
  refine Carries.get (fun s s' hs => by rw [hs.reader.position_eq]) fun s => ?_
  refine (carries_containerTicks flate2 ratio h).bind fun p => ?_
  refine Carries.get (fun s s' hs => by rw [hs.reader.position_eq]) fun s => ?_
  refine (Carries.ofResult _).bind fun read => (Carries.ofResult _).bind fun consumed => ?_
  exact (Carries.raise _).ite ((Carries.raise _).ite (Carries.pure _))

end Reading

section Containers

variable (flate2 : Flate2) (ratio : Int → Nat → F64)

/-- The counted containers and `k` of the others, with what stands before them. -/
def containersThrough (k : Nat) : TickScan ((String × Bool × Nat) × List TickContainer) := do
  let p ← preamble
  let containers ← Decoder.times (container flate2 ratio p.1) (p.2.2 + k)
  return (p, containers)

variable {flate2 ratio}

theorem containersThrough_eq_ok {k : Nat} {s t : TickReader} {p : String × Bool × Nat}
    {containers : List TickContainer} :
    containersThrough flate2 ratio k s = .ok ((p, containers), t) ↔
      ∃ u, preamble s = .ok (p, u) ∧
        Decoder.times (container flate2 ratio p.1) (p.2.2 + k) u = .ok (containers, t) := by
  constructor
  · intro h
    obtain ⟨q, u, hpreamble, hrest⟩ := bind_eq_ok.mp h
    obtain ⟨all, v, hcontainers, hpure⟩ := bind_eq_ok.mp hrest
    obtain ⟨hpair, rfl⟩ := pure_eq_ok.mp hpure
    cases hpair
    exact ⟨u, hpreamble, hcontainers⟩
  · rintro ⟨u, hpreamble, hcontainers⟩
    exact bind_eq_ok.mpr ⟨p, u, hpreamble, bind_eq_ok.mpr ⟨containers, t, hcontainers, rfl⟩⟩

theorem carries_containersThrough {shared back back' : Bytes} (k : Nat) :
    Carries (TickReader.Within shared) (TickReader.Shares shared back back')
      (containersThrough flate2 ratio k) := by
  refine Carries.bind ?_ fun p =>
    ((carries_container flate2 ratio _).times _).bind fun containers => Carries.pure _
  refine (carries_scan_take 4).bind fun status => Carries.ite (Carries.raise _) ?_
  refine (carries_scan_take 1).bind fun kind => Carries.ite (Carries.raise _) ?_
  refine (carries_scan_take 64).bind fun symbol => (carries_scan_take 16).bind fun reserved => ?_
  exact (carries_scan_take 4).bind fun count => (Carries.raise _).ite (Carries.pure _)

/-- A container stands in front of the end of the bytes. -/
theorem container_before_end {symbol : String} {s t : TickReader} {c : TickContainer}
    (h : container flate2 ratio symbol s = .ok (c, t)) :
    s.reader.position < s.reader.data.length := by
  obtain ⟨header, u, hheader, -⟩ := bind_eq_ok.mp h
  obtain ⟨-, -, hend⟩ := (take_yields 115 s).ok hheader
  omega

/-- When the bytes end behind the trailing containers, these are all that there are. -/
theorem trailingContainers_eq_ok {symbol : String} {n : Nat} {s t : TickReader}
    {trailing : List TickContainer} (hend : t.reader.data.length ≤ t.reader.position) :
    trailingContainers flate2 ratio symbol n s = .ok (trailing, t) ↔
      trailing.length ≤ n ∧
        Decoder.times (container flate2 ratio symbol) trailing.length s = .ok (trailing, t) := by
  induction n generalizing s trailing with
  | zero =>
    constructor
    · intro h
      obtain ⟨rfl, rfl⟩ := pure_eq_ok.mp h
      exact ⟨Nat.le_refl 0, rfl⟩
    · rintro ⟨hlength, hrun⟩
      rw [List.length_eq_zero_iff.mp (Nat.le_zero.mp hlength)] at hrun ⊢
      exact hrun
  | succ n ih =>
    have hround : trailingContainers flate2 ratio symbol (n + 1) s =
        if s.reader.position < s.reader.data.length then
          (do
            let c ← container flate2 ratio symbol
            let rest ← trailingContainers flate2 ratio symbol n
            return c :: rest : TickScan (List TickContainer)) s
        else trailingContainers flate2 ratio symbol n s := by
      rw [trailingContainers]
      exact apply_ite (fun x : TickScan (List TickContainer) => x s) _ _ _
    rw [hround]
    constructor
    · intro h
      split at h
      · obtain ⟨c, u, hc, hothers⟩ := bind_eq_ok.mp h
        obtain ⟨rest, v, hrest, hpure⟩ := bind_eq_ok.mp hothers
        obtain ⟨rfl, rfl⟩ := pure_eq_ok.mp hpure
        obtain ⟨hlength, hrun⟩ := ih.mp hrest
        exact ⟨Nat.succ_le_succ hlength, times_succ_eq_ok.mpr ⟨c, rest, u, rfl, hc, hrun⟩⟩
      · obtain ⟨hlength, hrun⟩ := ih.mp h
        exact ⟨Nat.le_succ_of_le hlength, hrun⟩
    · rintro ⟨hlength, hrun⟩
      cases trailing with
      | nil =>
        obtain ⟨-, rfl⟩ := pure_eq_ok.mp hrun
        rw [if_neg (Nat.not_lt.mpr hend)]
        exact ih.mpr ⟨Nat.zero_le n, rfl⟩
      | cons c rest =>
        obtain ⟨first, others, u, hcons, hc, hothers⟩ := times_succ_eq_ok.mp hrun
        cases hcons
        rw [if_pos (container_before_end hc)]
        have hrest := ih.mpr ⟨Nat.le_of_succ_le_succ hlength, hothers⟩
        exact bind_eq_ok.mpr ⟨c, u, hc, bind_eq_ok.mpr ⟨rest, t, hrest, rfl⟩⟩

end Containers

section Truncated

variable {flate2 : Flate2} {ratio : Int → Nat → F64} {bytes front more : Bytes}
  {history : TickHistory}

/-- The reader and the budget in front of a response. -/
def TickReader.start (bytes : Bytes) : TickReader where
  reader := .new bytes
  budget := { ticks := MAX_TICKS, bytes := MAX_EXPANSION }

/-- The containers of a history that stand in front of a trailing one, with what stands
before them. -/
def TickHistory.through (history : TickHistory) (k : Nat) :
    (String × Bool × Nat) × List TickContainer :=
  ((history.symbol, history.more, history.containers.length),
    history.containers ++ history.trailing.take k)

theorem end_eq_ok {all : TickHistory} {s t : TickReader} :
    (do
      let r := (← get).reader
      if r.position ≠ r.data.length then fail "trailing tick history bytes"
      else return all : TickScan TickHistory) s = .ok (history, t) ↔
      s = t ∧ t.reader.position = t.reader.data.length ∧ all = history := by
  have hround : (do
      let r := (← get).reader
      if r.position ≠ r.data.length then fail "trailing tick history bytes"
      else return all : TickScan TickHistory) s =
        if s.reader.position ≠ s.reader.data.length then
          .error (.rejected ⟨"trailing tick history bytes"⟩)
        else .ok (all, s) := apply_ite (fun x : TickScan TickHistory => x s) _ _ _
  rw [hround]
  split
  · rename_i hend
    refine ⟨nofun, ?_⟩
    rintro ⟨rfl, hend', -⟩
    exact absurd hend' hend
  · rename_i hend
    rw [Decidable.not_not] at hend
    constructor
    · intro h
      cases Except.ok.inj h
      exact ⟨rfl, hend, rfl⟩
    · rintro ⟨rfl, -, rfl⟩
      rfl

theorem containersOf_eq_ok {p : String × Bool × Nat} {s t : TickReader} :
    containersOf flate2 ratio p s = .ok (history, t) ↔
      p = (history.symbol, history.more, history.containers.length) ∧
        history.trailing.length ≤ 2 ∧ t.reader.position = t.reader.data.length ∧
        Decoder.times (container flate2 ratio p.1) (p.2.2 + history.trailing.length) s =
          .ok (history.containers ++ history.trailing, t) := by
  constructor
  · intro h
    obtain ⟨containers, u, hcontainers, hrest⟩ := bind_eq_ok.mp h
    obtain ⟨trailing, v, htrailing, hlast⟩ := bind_eq_ok.mp hrest
    obtain ⟨rfl, hend, rfl⟩ := end_eq_ok.mp hlast
    obtain ⟨hlength, hrun⟩ := (trailingContainers_eq_ok (Nat.le_of_eq hend.symm)).mp htrailing
    have hcount := length_of_times hcontainers
    exact ⟨by rw [hcount], hlength, hend,
      times_append_eq_ok.mpr ⟨containers, trailing, u, rfl, hcontainers, hrun⟩⟩
  · rintro ⟨rfl, hlength, hend, hrun⟩
    obtain ⟨first, others, u, hsplit, hfirst, hothers⟩ := times_append_eq_ok.mp hrun
    obtain ⟨rfl, rfl⟩ := List.append_inj hsplit (length_of_times hfirst).symm
    have htrailing := (trailingContainers_eq_ok (n := 2) (Nat.le_of_eq hend.symm)).mpr
      ⟨hlength, hothers⟩
    exact bind_eq_ok.mpr ⟨_, u, hfirst, bind_eq_ok.mpr ⟨_, t, htrailing,
      end_eq_ok.mpr ⟨rfl, hend, rfl⟩⟩⟩

/-- The reader keeps its bytes. -/
theorem containersThrough_data (hwrites : flate2.WritesWithin) {k : Nat} {s t : TickReader}
    {p : (String × Bool × Nat) × List TickContainer}
    (h : containersThrough flate2 ratio k s = .ok (p, t)) : t.reader.data = s.reader.data := by
  obtain ⟨u, hpreamble, hcontainers⟩ := containersThrough_eq_ok.mp h
  obtain ⟨groups, hread⟩ := (containers_yields hwrites _ _ u).ok hcontainers
  obtain ⟨rfl, -⟩ := (preamble_yields s).ok hpreamble
  exact hread.ahead.1

/-- The containers of an accepted history fill its bytes. -/
theorem decodeTickHistory_eq_ok (hwrites : flate2.WritesWithin) :
    decodeTickHistory flate2 ratio bytes = .ok history ↔
      history.trailing.length ≤ 2 ∧ ∃ t, t.reader.position = bytes.length ∧
        containersThrough flate2 ratio history.trailing.length (.start bytes) =
          .ok (history.through history.trailing.length, t) := by
  rw [TickHistory.through, List.take_length]
  constructor
  · intro h
    obtain ⟨⟨result, t⟩, hrun, hresult⟩ := except_bind_eq_ok.mp h
    cases Except.ok.inj hresult
    rw [tickHistory_eq] at hrun
    obtain ⟨p, u, hpreamble, hrest⟩ := bind_eq_ok.mp hrun
    obtain ⟨rfl, hlength, hend, hcontainers⟩ := containersOf_eq_ok.mp hrest
    have hthrough := containersThrough_eq_ok.mpr ⟨u, hpreamble, hcontainers⟩
    refine ⟨hlength, t, ?_, hthrough⟩
    rw [hend, containersThrough_data hwrites hthrough]
    rfl
  · rintro ⟨hlength, t, hend, hthrough⟩
    obtain ⟨u, hpreamble, hcontainers⟩ := containersThrough_eq_ok.mp hthrough
    have hdata := containersThrough_data hwrites hthrough
    refine except_bind_eq_ok.mpr ⟨(history, t), ?_, rfl⟩
    rw [tickHistory_eq]
    refine bind_eq_ok.mpr ⟨_, u, hpreamble, containersOf_eq_ok.mpr ⟨rfl, hlength, ?_, hcontainers⟩⟩
    rw [hend, hdata]
    rfl

/-- The trailing container with this index begins at this position of the bytes: the
containers in front of it are read up to there. -/
def TrailingBegins (flate2 : Flate2) (ratio : Int → Nat → F64) (bytes : Bytes)
    (history : TickHistory) (k position : Nat) : Prop :=
  k < history.trailing.length ∧ ∃ t, t.reader.position = position ∧
    containersThrough flate2 ratio k (.start bytes) = .ok (history.through k, t)

/-- Every trailing container begins somewhere. -/
theorem exists_trailingBegins (hwrites : flate2.WritesWithin)
    (h : decodeTickHistory flate2 ratio bytes = .ok history) {k : Nat}
    (hk : k < history.trailing.length) :
    ∃ position < bytes.length, TrailingBegins flate2 ratio bytes history k position := by
  obtain ⟨-, t, -, hthrough⟩ := (decodeTickHistory_eq_ok hwrites).mp h
  obtain ⟨u, hpreamble, hrun⟩ := containersThrough_eq_ok.mp hthrough
  obtain ⟨m, hm⟩ := Nat.exists_eq_add_of_lt hk
  rw [List.take_length] at hrun
  rw [hm, Nat.add_assoc, ← Nat.add_assoc] at hrun
  obtain ⟨first, others, v, hsplit, hfirst, hothers⟩ := times_append_eq_ok.mp hrun
  have hbegins : containersThrough flate2 ratio k (.start bytes) = .ok (history.through k, v) := by
    refine containersThrough_eq_ok.mpr ⟨u, hpreamble, ?_⟩
    have hlength := length_of_times hfirst
    have htake : first = history.containers ++ history.trailing.take k := by
      rw [← @List.take_left _ first others, ← hsplit, hlength,
        List.take_length_add_append]
    show Decoder.times (container flate2 ratio history.symbol) (history.containers.length + k) u =
      .ok (history.containers ++ history.trailing.take k, v)
    rw [← htake]
    exact hfirst
  obtain ⟨c, rest, w, -, hc, -⟩ := times_succ_eq_ok.mp hothers
  have hend := container_before_end hc
  rw [containersThrough_data hwrites hbegins] at hend
  exact ⟨v.reader.position, hend, hk, v, rfl, hbegins⟩

/-- In front of a trailing container, the containers in front of it are read. -/
theorem decodeTickHistory_of_begins (hwrites : flate2.WritesWithin) (hmore : bytes = front ++ more)
    (h : decodeTickHistory flate2 ratio bytes = .ok history) {k : Nat}
    (hbegins : TrailingBegins flate2 ratio bytes history k front.length) :
    decodeTickHistory flate2 ratio front =
      .ok { history with trailing := history.trailing.take k } := by
  obtain ⟨hk, t, hposition, hrun⟩ := hbegins
  obtain ⟨hlength, -⟩ := (decodeTickHistory_eq_ok hwrites).mp h
  obtain ⟨-, hshares⟩ := @carries_containersThrough flate2 ratio front more [] k _ _ _ hrun
    (Nat.le_of_eq hposition)
  obtain ⟨t', hfront, hstands⟩ :=
    hshares (.start front) ⟨⟨hmore, (List.append_nil _).symm, rfl⟩, rfl⟩
  have htake : (history.trailing.take k).length = k := List.length_take_of_le (Nat.le_of_lt hk)
  refine (decodeTickHistory_eq_ok hwrites).mpr ⟨?_, t', ?_, ?_⟩
  · dsimp only
    omega
  · rw [hstands.reader.position_eq, hposition]
  · rw [TickHistory.through]
    dsimp only
    rw [List.take_length, htake]
    exact hfront

/-- What is accepted ends in front of a trailing container. -/
theorem begins_of_decodeTickHistory (hwrites : flate2.WritesWithin)
    (h : decodeTickHistory flate2 ratio bytes = .ok history) (hmore : bytes = front ++ more)
    (hne : more ≠ []) {other : TickHistory}
    (hfront : decodeTickHistory flate2 ratio front = .ok other) :
    TrailingBegins flate2 ratio bytes history other.trailing.length front.length := by
  obtain ⟨-, t, hend, hlong⟩ := (decodeTickHistory_eq_ok hwrites).mp h
  obtain ⟨-, u, hposition, hshort⟩ := (decodeTickHistory_eq_ok hwrites).mp hfront
  obtain ⟨-, hshares⟩ := @carries_containersThrough flate2 ratio front [] more _ _ _ _ hshort
    (Nat.le_of_eq hposition)
  obtain ⟨u', hread, hstands⟩ :=
    hshares (.start bytes) ⟨⟨(List.append_nil _).symm, hmore, rfl⟩, rfl⟩
  have hposition' := hstands.reader.position_eq.trans hposition
  have hpos := List.length_pos_iff.mpr hne
  have hlength := congrArg List.length hmore
  rw [List.length_append] at hlength
  -- Both runs have read the same preamble.
  obtain ⟨v, hpreamble, hcontainers⟩ := containersThrough_eq_ok.mp hlong
  obtain ⟨w, hpreamble', hcontainers'⟩ := containersThrough_eq_ok.mp hread
  rw [hpreamble] at hpreamble'
  obtain ⟨hbefore, rfl⟩ := Prod.mk.inj (Except.ok.inj hpreamble')
  rw [← hbefore] at hcontainers'
  rcases Nat.lt_or_ge other.trailing.length history.trailing.length with hlt | hge
  · obtain ⟨htake, -⟩ := times_take (Nat.add_le_add_left (Nat.le_of_lt hlt) _) hcontainers
      hcontainers'
    have hsame : other.through other.trailing.length = history.through other.trailing.length := by
      refine Prod.ext hbefore.symm (htake.trans ?_)
      simp only [TickHistory.through, List.take_length, List.take_length_add_append]
    exact ⟨hlt, u', hposition', hsame ▸ hread⟩
  · -- The bytes end behind all of the containers, and something is left.
    obtain ⟨-, hrest⟩ := times_take (Nat.add_le_add_left hge _) hcontainers' hcontainers
    obtain ⟨groups, hahead⟩ := (containers_yields hwrites _ _ _).ok hrest
    have hle := hahead.ahead.2.1
    omega

end Truncated

end Ticks

section Main

open Bars Ticks
open History (storedFlate2)

variable {flate2 : Flate2}

/-- A history is not cut without an error, unless it is cut in front of an item that can
be left out: a trailing container of ticks, or a reply of bars. -/
theorem history_truncated (hwrites : flate2.WritesWithin) (ratio : Int → Nat → F64)
    (bytes : Bytes) :
    (∀ history, decodeTickHistory flate2 ratio bytes = .ok history →
      (∀ k < history.trailing.length, ∃ position < bytes.length,
        TrailingBegins flate2 ratio bytes history k position) ∧
      ∀ front, front <+: bytes → front ≠ bytes →
        (∀ k, TrailingBegins flate2 ratio bytes history k front.length →
          decodeTickHistory flate2 ratio front =
            .ok { history with trailing := history.trailing.take k }) ∧
        ((∀ k, ¬TrailingBegins flate2 ratio bytes history k front.length) →
          ∃ e, decodeTickHistory flate2 ratio front = .error (.rejected e))) ∧
    ∀ histories, decodeBarHistory ratio bytes = .ok histories →
      (∀ k < histories.length, ∃ position < bytes.length,
        ReplyBegins ratio bytes histories k position) ∧
      ∀ front, front <+: bytes → front ≠ bytes →
        (∀ k, ReplyBegins ratio bytes histories k front.length →
          decodeBarHistory ratio front = .ok (histories.take k)) ∧
        ((∀ k, ¬ReplyBegins ratio bytes histories k front.length) →
          ∃ e, decodeBarHistory ratio front = .error e) := by
  constructor
  · intro history h
    refine ⟨fun k hk => exists_trailingBegins hwrites h hk, ?_⟩
    rintro front ⟨more, hmore⟩ hne
    refine ⟨fun k hbegins => decodeTickHistory_of_begins hwrites hmore.symm h hbegins,
      fun hnone => ?_⟩
    cases hfront : decodeTickHistory flate2 ratio front with
    | ok other =>
      have hleft : more ≠ [] := fun hnil => hne (by rw [← hmore, hnil, List.append_nil])
      exact absurd (begins_of_decodeTickHistory hwrites h hmore.symm hleft hfront) (hnone _)
    | error fault =>
      cases fault with
      | rejected e => exact ⟨e, rfl⟩
      | panicked => exact absurd hfront (decodeTickHistory_ne_panicked hwrites front)
  · intro histories h
    refine ⟨fun k hk => exists_replyBegins h hk, ?_⟩
    rintro front ⟨more, hmore⟩ hne
    refine ⟨fun k hbegins => decodeBarHistory_of_begins hmore.symm hbegins, fun hnone => ?_⟩
    cases hfront : decodeBarHistory ratio front with
    | ok others =>
      have hleft : more ≠ [] := fun hnil => hne (by rw [← hmore, hnil, List.append_nil])
      exact absurd (begins_of_decodeBarHistory h hmore.symm hleft hfront) (hnone _)
    | error e => exact ⟨e, rfl⟩

/-- Two replies without bars. -/
def sampleReplies : Bytes :=
  let reply := 14 :: List.replicate 64 0 ++ [1, 0, 0, 0]
  reply ++ reply

theorem history_truncated_sample :
    ∃ history histories,
      decodeTickHistory storedFlate2 (fun _ _ => .zero) sampleResponse = .ok history ∧
      history.trailing.length = 1 ∧
      decodeTickHistory storedFlate2 (fun _ _ => .zero)
        (sampleResponse.take (PREAMBLE + sampleContainer.length)) =
          .ok { history with trailing := [] } ∧
      (∃ e, decodeTickHistory storedFlate2 (fun _ _ => .zero) (sampleResponse.take 120) =
        .error (.rejected e)) ∧
      decodeBarHistory (fun _ _ => .zero) sampleReplies = .ok histories ∧
      decodeBarHistory (fun _ _ => .zero) (sampleReplies.take 69) = .ok (histories.take 1) ∧
      ∃ e, decodeBarHistory (fun _ _ => .zero) (sampleReplies.take 70) = .error e := by
  have hwrites := storedFlate2_writesWithin
  obtain ⟨hticks, -⟩ := history_truncated hwrites (fun _ _ => .zero) sampleResponse
  obtain ⟨-, hbars⟩ := history_truncated hwrites (fun _ _ => .zero) sampleReplies
  have htrailing : ((decodeTickHistory storedFlate2 (fun _ _ => .zero) sampleResponse).map
      fun history => history.trailing.length) = .ok 1 := by decide +kernel
  have hposition : ((containersThrough storedFlate2 (fun _ _ => .zero) 0
      (.start sampleResponse)).map fun p => p.2.reader.position) =
        .ok (PREAMBLE + sampleContainer.length) := by decide +kernel
  have hreplies : ((decodeBarHistory (fun _ _ => .zero) sampleReplies).map List.length) =
      .ok 2 := by decide +kernel
  cases hrun : decodeTickHistory storedFlate2 (fun _ _ => .zero) sampleResponse with
  | error fault =>
    rw [hrun] at htrailing
    cases htrailing
  | ok history =>
    cases hrun' : decodeBarHistory (fun _ _ => .zero) sampleReplies with
    | error e =>
      rw [hrun'] at hreplies
      cases hreplies
    | ok histories =>
      rw [hrun] at htrailing
      rw [hrun'] at hreplies
      have hlength : history.trailing.length = 1 := Except.ok.inj htrailing
      obtain ⟨hexists, hcut⟩ := hticks history hrun
      -- The trailing container begins behind the counted one.
      have hplace : ∀ k position, TrailingBegins storedFlate2 (fun _ _ => .zero) sampleResponse
          history k position → k = 0 ∧ position = PREAMBLE + sampleContainer.length := by
        rintro k position ⟨hk, t, ht, hthrough⟩
        obtain rfl : k = 0 := by omega
        rw [hthrough] at hposition
        exact ⟨rfl, ht.symm.trans (Except.ok.inj hposition)⟩
      have hreply : ((Decoder.times (reply fun _ _ => .zero) 1 sampleReplies).map
          fun p => p.2.length) = .ok 69 := by decide +kernel
      have hcount : histories.length = 2 := Except.ok.inj hreplies
      obtain ⟨hbegins, hcut'⟩ := hbars histories hrun'
      have hplace' : ∀ k position, ReplyBegins (fun _ _ => .zero) sampleReplies histories k
          position → position = 69 * k := by
        rintro k position ⟨hk, rest, hread, hrest⟩
        have hsize : sampleReplies.length = 138 := by decide +kernel
        obtain rfl | rfl : k = 0 ∨ k = 1 := by omega
        · obtain ⟨-, rfl⟩ := Decoder.pure_eq_ok.mp hread
          omega
        · rw [hread] at hreply
          have hleft : rest.length = 69 := Except.ok.inj hreply
          omega
      refine ⟨history, histories, rfl, hlength, ?_, ?_, rfl, ?_, ?_⟩
      · obtain ⟨position, -, hfirst⟩ := hexists 0 (by omega)
        rw [(hplace 0 position hfirst).2] at hfirst
        refine (hcut _ (List.take_prefix _ _) (by decide +kernel)).1 0 ?_
        rw [List.length_take_of_le (by decide +kernel)]
        exact hfirst
      · refine (hcut _ (List.take_prefix _ _) (by decide +kernel)).2 fun k hk => ?_
        exact absurd (hplace k _ hk).2 (by decide +kernel)
      · obtain ⟨position, -, hsecond⟩ := hbegins 1 (by omega)
        rw [hplace' 1 position hsecond] at hsecond
        refine (hcut' _ (List.take_prefix _ _) (by decide +kernel)).1 1 ?_
        rw [List.length_take_of_le (by decide +kernel)]
        exact hsecond
      · refine (hcut' _ (List.take_prefix _ _) (by decide +kernel)).2 fun k hk => ?_
        have hplace := hplace' k _ hk
        rw [List.length_take_of_le (by decide +kernel)] at hplace
        omega

end Main

end Mt5Open.Native
