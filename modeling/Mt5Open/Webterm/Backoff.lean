import Mt5Open.Lib.Run
import Mt5Open.Webterm.Ticket
import Mathlib.Data.Finset.Basic

/-!
# Dialling again

`Session::client` dials when there is no live connection.  A refused login backs off, from five
seconds up to five minutes, and a call that comes before the wait is over is turned away without
a dial.

The lock of `Live` is held from the look at the connection to the end of the dial, so a call is
one step.  Between calls the connection can close, and `Session::reconnect` can drop it whenever
a snapshot has found it old.  The clock is in milliseconds and never goes back.

`log` are the attempts to dial, the last one first, which the code does not keep.
`dials_spaced` says how far apart they are.
-/

namespace Mt5Open.Webterm.Backoff

open Lib Lib.Run Ticket

/-! ## The step relation -/

/-- Seconds to wait after the nth consecutive failed dial. -/
def RECONNECT_BACKOFF : List Nat := [5, 15, 30, 60, 120, 300]

/-- The seconds to wait after so many failed dials in a row. -/
def waitAfter (failures : Nat) : Nat :=
  (RECONNECT_BACKOFF[failures - 1]?).getD (RECONNECT_BACKOFF.getLastD 0)

/-- An attempt to dial, from the look at the clock to its end. -/
structure Attempt where
  start : Nat
  finish : Nat
  ok : Bool

/-- `Session`, with the connections that it went through. -/
structure State where
  now : Nat
  client : Option Nat
  generation : Nat
  closed : Finset Nat
  openedAt : Option Nat
  failures : Nat
  waitUntil : Option Nat
  log : List Attempt

/-- `Session::new`. -/
def State.init : State where
  now := 0
  client := none
  generation := 0
  closed := ∅
  openedAt := none
  failures := 0
  waitUntil := none
  log := []

/-- What a call is told that comes before the wait is over. -/
def waitingText (left failures : Nat) : String :=
  s!"waiting {left}s before dialling again after {failures} failed logins"

namespace State

/-- The head of `Session::client`: a dead connection is dropped. -/
def dropClosed (s : State) : State :=
  if s.client.any fun c => c ∈ s.closed then { s with client := none } else s

/-- `Client::connect` and what `Session::client` does with its result. -/
def dial (s : State) (start finish : Nat) (outcome : Except String Unit) :
    Except SessionError Nat × State :=
  match outcome with
  | .ok () =>
    let c := s.generation + 1
    (.ok c,
      { s with
        now := finish
        client := some c
        generation := c
        openedAt := some finish
        failures := 0
        waitUntil := none
        log := ⟨start, finish, true⟩ :: s.log })
  | .error e =>
    let failures := min (s.failures + 1) (2 ^ 32 - 1)
    let wait := waitAfter failures
    (.error (.unavailable s!"{e}; next attempt in {wait}s"),
      { s with
        now := finish
        failures
        waitUntil := some (finish + wait * 1000)
        log := ⟨start, finish, false⟩ :: s.log })

/-- The answer to a call that comes before the wait is over. -/
def waiting (s : State) (start stop : Nat) : SessionError :=
  .unavailable (waitingText ((stop - start) / 1000) s.failures)

/-- `Session::client`, from the instant `start` on. -/
def callClient (s : State) (start finish : Nat) (outcome : Except String Unit) :
    Except SessionError Nat × State :=
  let s := { s with now := start }.dropClosed
  match s.client with
  | some c => (.ok c, s)
  | none =>
    match s.waitUntil with
    | some stop =>
      if start < stop then (.error (s.waiting start stop), s) else s.dial start finish outcome
    | none => s.dial start finish outcome

end State

/-- The atomic steps.  `drop` is the head of `Session::reconnect`. -/
inductive Label
  | client (start finish : Nat) (outcome : Except String Unit)
  | drop
  | closes (c : Nat)

def step (s : State) : Label → Option State
  | .client start finish outcome =>
    if s.now ≤ start ∧ start ≤ finish then some (s.callClient start finish outcome).2 else none
  | .drop => some { s with client := none }
  | .closes c => some { s with closed := insert c s.closed }

/-! ## Attempts -/

/-- How many of the last attempts failed in a row. -/
def streak : List Attempt → Nat
  | [] => 0
  | a :: log => if a.ok then 0 else streak log + 1

/-- The first instant at which the next attempt may start. -/
def earliest : List Attempt → Nat
  | [] => 0
  | a :: log => if a.ok then a.finish else a.finish + waitAfter (streak (a :: log)) * 1000

/-- Each attempt waits for those before it. -/
def Spaced : List Attempt → Prop
  | [] => True
  | a :: log => earliest log ≤ a.start ∧ a.start ≤ a.finish ∧ Spaced log

/-- When the first attempt of the last failures in a row started. -/
def opening : List Attempt → Nat
  | [] => 0
  | a :: log => if streak log = 0 then a.start else opening log

/-- The seconds that so many attempts in a row have waited between them. -/
def waited : Nat → Nat
  | 0 => 0
  | n + 1 => waited n + if n = 0 then 0 else waitAfter n

theorem streak_of_ok {a : Attempt} (h : a.ok = true) (log : List Attempt) :
    streak (a :: log) = 0 := by
  simp [streak, h]

theorem streak_of_not_ok {a : Attempt} (h : a.ok = false) (log : List Attempt) :
    streak (a :: log) = streak log + 1 := by
  simp [streak, h]

theorem earliest_of_not_ok {a : Attempt} (h : a.ok = false) (log : List Attempt) :
    earliest (a :: log) = a.finish + waitAfter (streak log + 1) * 1000 := by
  simp [earliest, streak, h]

/-- The wait does not grow any more behind the sixth failure. -/
theorem waitAfter_of_le {n : Nat} (h : 6 ≤ n) : waitAfter n = 300 := by
  unfold waitAfter
  by_cases hsix : n = 6
  · subst hsix
    rfl
  · have hnone : RECONNECT_BACKOFF[n - 1]? = none := by
      apply List.getElem?_eq_none
      show 6 ≤ n - 1
      omega
    rw [hnone]
    rfl

/-- The counter is 32 bits wide, and the wait does not see where it stops. -/
theorem waitAfter_min (n : Nat) : waitAfter (min n (2 ^ 32 - 1)) = waitAfter n := by
  by_cases h : n ≤ 2 ^ 32 - 1
  · rw [Nat.min_eq_left h]
  · rw [waitAfter_of_le (by omega), waitAfter_of_le (by omega)]

theorem waited_of_le (n : Nat) : waited (n + 6) = 230 + 300 * n := by
  induction n with
  | zero => rfl
  | succ n ih =>
    rw [show n + 1 + 6 = n + 6 + 1 by omega, waited, ih, if_neg (by omega),
      waitAfter_of_le (by omega)]
    omega

/-- The attempts since the first failure have waited for each other. -/
theorem opening_le {a : Attempt} {log : List Attempt} (h : Spaced (a :: log))
    (hfailed : a.ok = false) :
    opening (a :: log) + waited (streak (a :: log)) * 1000 ≤ a.start := by
  induction log generalizing a with
  | nil =>
    rw [streak_of_not_ok hfailed]
    simp [opening, streak, waited]
  | cons b log ih =>
    obtain ⟨hstart, -, hrest⟩ := h
    rw [streak_of_not_ok hfailed, opening]
    cases hb : b.ok with
    | true =>
      rw [streak_of_ok hb, if_pos rfl, waited, if_pos rfl]
      exact Nat.le_refl _
    | false =>
      have hopening := ih hrest hb
      rw [earliest_of_not_ok hb] at hstart
      obtain ⟨-, hfinish, -⟩ := hrest
      rw [streak_of_not_ok hb] at hopening ⊢
      rw [if_neg (Nat.succ_ne_zero _), waited, if_neg (Nat.succ_ne_zero _), Nat.add_mul,
        ← Nat.add_assoc]
      calc opening (b :: log) + waited (streak log + 1) * 1000 + waitAfter (streak log + 1) * 1000
          ≤ b.start + waitAfter (streak log + 1) * 1000 := Nat.add_le_add_right hopening _
        _ ≤ b.finish + waitAfter (streak log + 1) * 1000 := Nat.add_le_add_right hfinish _
        _ ≤ a.start := hstart

/-! ## Runs -/

/-- What the session keeps of its attempts. -/
structure Backed (s : State) : Prop where
  spaced : Spaced s.log
  past : ∀ a ∈ s.log.head?, a.finish ≤ s.now
  failures : s.failures = min (streak s.log) (2 ^ 32 - 1)
  wait : s.waitUntil = if streak s.log = 0 then none else some (earliest s.log)
  client : streak s.log ≠ 0 → s.client = none
  generation : s.generation = (s.log.filter Attempt.ok).length

theorem Backed.init : Backed .init where
  spaced := trivial
  past := by simp [State.init]
  failures := rfl
  wait := rfl
  client := fun _ => rfl
  generation := rfl

/-- A dial may start when the wait is over. -/
theorem Backed.earliest_le {s : State} (h : Backed s) {start : Nat} (hnow : s.now ≤ start)
    (hwait : ∀ stop, s.waitUntil = some stop → stop ≤ start) : earliest s.log ≤ start := by
  have hpast := h.past
  have hstop := h.wait
  cases hlog : s.log with
  | nil => exact Nat.zero_le _
  | cons a log =>
    rw [hlog] at hpast hstop
    cases ha : a.ok with
    | true =>
      have := hpast a rfl
      simp only [earliest, ha, if_true]
      omega
    | false =>
      rw [if_neg (by rw [streak_of_not_ok ha]; omega)] at hstop
      exact hwait _ hstop

theorem Backed.dial {s : State} (h : Backed s) {start finish : Nat}
    (hstart : earliest s.log ≤ start) (hfinish : start ≤ finish) (hclient : s.client = none)
    (outcome : Except String Unit) : Backed (s.dial start finish outcome).2 := by
  cases outcome with
  | ok done =>
    refine ⟨⟨hstart, hfinish, h.spaced⟩, ?_, rfl, rfl, ?_, ?_⟩
    · intro a ha
      cases ha
      exact Nat.le_refl _
    · intro hstreak
      exact absurd rfl hstreak
    · show s.generation + 1 = _
      rw [h.generation]
      rfl
  | error e =>
    have hcount : min (s.failures + 1) (2 ^ 32 - 1) = min (streak s.log + 1) (2 ^ 32 - 1) := by
      rw [h.failures]
      omega
    refine ⟨⟨hstart, hfinish, h.spaced⟩, ?_, hcount, ?_, fun _ => hclient, h.generation⟩
    · intro a ha
      cases ha
      exact Nat.le_refl _
    · show some (finish + waitAfter (min (s.failures + 1) (2 ^ 32 - 1)) * 1000) = _
      rw [hcount, waitAfter_min]
      rfl

theorem Backed.dropClosed {s : State} (h : Backed s) {start : Nat} (hstart : s.now ≤ start) :
    Backed ({ s with now := start } : State).dropClosed := by
  have hpast : ∀ a ∈ s.log.head?, a.finish ≤ start := by
    intro a ha
    have := h.past a ha
    omega
  unfold State.dropClosed
  split
  · exact ⟨h.spaced, hpast, h.failures, h.wait, fun _ => rfl, h.generation⟩
  · exact ⟨h.spaced, hpast, h.failures, h.wait, h.client, h.generation⟩

theorem dropClosed_now (s : State) : s.dropClosed.now = s.now := by
  unfold State.dropClosed
  split <;> rfl

theorem Backed.callClient {s : State} (h : Backed s) {start finish : Nat} (hstart : s.now ≤ start)
    (hfinish : start ≤ finish) (outcome : Except String Unit) :
    Backed (s.callClient start finish outcome).2 := by
  have hdropped := h.dropClosed hstart
  have hnow : ({ s with now := start } : State).dropClosed.now ≤ start :=
    Nat.le_of_eq (dropClosed_now _)
  unfold State.callClient
  generalize ({ s with now := start } : State).dropClosed = d at hdropped hnow
  cases hclient : d.client with
  | some c =>
    simp only [hclient]
    exact hdropped
  | none =>
    cases hwait : d.waitUntil with
    | none =>
      simp only [hclient, hwait]
      refine hdropped.dial (hdropped.earliest_le hnow ?_) hfinish hclient outcome
      intro stop hstop
      rw [hwait] at hstop
      cases hstop
    | some stop =>
      simp only [hclient, hwait]
      split
      · exact hdropped
      · rename_i hover
        refine hdropped.dial (hdropped.earliest_le hnow ?_) hfinish hclient outcome
        intro other hother
        rw [hwait] at hother
        cases hother
        omega

theorem Backed.step {s t : State} {a : Label} (h : Backed s) (hstep : step s a = some t) :
    Backed t := by
  cases a with
  | client start finish outcome =>
    simp only [Backoff.step] at hstep
    split at hstep
    · rename_i htimes
      cases hstep
      exact h.callClient htimes.1 htimes.2 outcome
    · cases hstep
  | drop =>
    cases hstep
    exact ⟨h.spaced, h.past, h.failures, h.wait, fun _ => rfl, h.generation⟩
  | closes c =>
    cases hstep
    exact ⟨h.spaced, h.past, h.failures, h.wait, h.client, h.generation⟩

/-- A call before the wait is over does not dial, and says how long is left. -/
theorem Backed.callClient_waiting {s : State} (h : Backed s) {start : Nat} (hnow : s.now ≤ start)
    (hearly : start < earliest s.log) (finish : Nat) (outcome : Except String Unit) :
    s.callClient start finish outcome =
      (.error (s.waiting start (earliest s.log)), { s with now := start }) := by
  have hstreak : streak s.log ≠ 0 := by
    have hpast := h.past
    cases hlog : s.log with
    | nil =>
      rw [hlog] at hearly
      exact absurd hearly (Nat.not_lt_zero _)
    | cons a log =>
      rw [hlog] at hearly hpast
      cases ha : a.ok with
      | true =>
        have := hpast a rfl
        simp only [earliest, ha, if_true] at hearly
        omega
      | false =>
        rw [streak_of_not_ok ha]
        exact Nat.succ_ne_zero _
  have hclient := h.client hstreak
  have hwait := h.wait
  rw [if_neg hstreak] at hwait
  have hsame : ({ s with now := start } : State).dropClosed = { s with now := start } := by
    simp [State.dropClosed, hclient]
  unfold State.callClient
  rw [hsame]
  simp only [hclient, hwait, if_pos hearly]
  rfl

/-- However calls, losses and redials follow each other: an attempt to dial waits for the
attempts before it, so that the nth failure in a row, from the sixth on, comes at least 230 seconds
and 300 more for each behind the first one.  Until the wait is over every call is turned away with
what is left of it and with the number of failures, and nothing is dialled.  Each connection
comes from one attempt. -/
theorem dials_spaced {schedule : List Label} {s : State}
    (hrun : exec step .init schedule = some s) :
    Spaced s.log ∧
    (∀ a log, s.log = a :: log → 6 ≤ streak s.log →
      opening s.log + (230 + 300 * (streak s.log - 6)) * 1000 ≤ a.start) ∧
    (∀ start finish outcome, s.now ≤ start → start < earliest s.log →
      s.callClient start finish outcome =
        (.error (.unavailable (waitingText ((earliest s.log - start) / 1000)
          (min (streak s.log) (2 ^ 32 - 1)))), { s with now := start })) ∧
    s.generation = (s.log.filter Attempt.ok).length := by
  have hbacked : Backed s := exec_invariant (fun _ _ _ h hstep => h.step hstep) .init hrun
  refine ⟨hbacked.spaced, ?_, ?_, hbacked.generation⟩
  · intro a log hlog hsix
    have hspaced := hbacked.spaced
    rw [hlog] at hspaced hsix ⊢
    have hfailed : a.ok = false := by
      cases ha : a.ok with
      | true =>
        rw [streak_of_ok ha] at hsix
        omega
      | false => rfl
    have hopening := opening_le hspaced hfailed
    obtain ⟨n, hn⟩ := Nat.exists_eq_add_of_le' hsix
    rw [hn, waited_of_le] at hopening
    rw [hn, Nat.add_sub_cancel]
    exact hopening
  · intro start finish outcome hnow hearly
    rw [hbacked.callClient_waiting hnow hearly, State.waiting, hbacked.failures]

/-- Six refused logins, each as early as it may be, and a call in between that is turned away. -/
def sampleSchedule : List Label :=
  [.client 0 0 (.error "refused"), .client 5000 5000 (.error "refused"),
    .client 6000 6000 (.ok ()), .client 20000 20000 (.error "refused"),
    .client 50000 50000 (.error "refused"), .client 110000 110000 (.error "refused"),
    .client 230000 230000 (.error "refused")]

theorem dials_spaced_sampleSchedule :
    ∃ s, exec step .init sampleSchedule = some s ∧
      s.log.map Attempt.start = [230000, 110000, 50000, 20000, 5000, 0] ∧
      (s.callClient 240000 240000 (.ok ())).1 =
        .error (.unavailable "waiting 290s before dialling again after 6 failed logins") := by
  have hdials : (exec step .init sampleSchedule).map (fun s =>
      (s.log.map Attempt.start, s.now, earliest s.log, streak s.log)) =
        some ([230000, 110000, 50000, 20000, 5000, 0], 230000, 530000, 6) := by
    decide +kernel
  obtain ⟨s, hrun, hs⟩ := Option.map_eq_some_iff.mp hdials
  simp only [Prod.mk.injEq] at hs
  obtain ⟨hlog, hnow, hearliest, hstreak⟩ := hs
  refine ⟨s, hrun, hlog, ?_⟩
  rw [(dials_spaced hrun).2.2.1 240000 240000 (.ok ()) (by omega) (by omega), hearliest, hstreak]
  rfl

end Mt5Open.Webterm.Backoff
