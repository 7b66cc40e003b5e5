import Mt5Open.Webterm.Correlation

/-!
# Requests and the end of the reader task

When the socket is gone, the reader task sets `closed`, clears `pending` and is done.  A
request looks at `closed` before it inserts its waiter, so it can find the flag down and insert
its waiter behind the clearing.

`Settled` says that no caller waits for a reader that has ended.  `settled_iff` shows that a
run keeps to it exactly when no waiter is inserted behind the clearing, and `mem_pending_of_exec`
that a waiter that is inserted there is never taken away.
-/

namespace Mt5Open.Webterm.Closing

open Lib Lib.Run Request

/-- The state that the tasks share, and whether the reader task has ended. -/
structure Session where
  shared : State
  ended : Bool

def Session.init : Session := ⟨.init, false⟩

/-- A step of the tasks.  The reader clears `pending` once and is done. -/
def step (s : Session) (label : Label) : Option Session :=
  if label = .readerClear ∧ s.ended then none
  else (Request.step s.shared label).map fun t => ⟨t, s.ended || label = .readerClear⟩

/-- A call that holds a receiver that nobody has answered or cancelled. -/
def Pends (call : Call) : Prop :=
  (call.phase = .inserted ∨ call.phase = .waiting) ∧ call.rx = .empty

/-- Once the reader has ended, nothing is pending and nobody waits for it. -/
def Settled (s : Session) : Prop :=
  s.ended = true → s.shared.pending = ∅ ∧ ∀ call ∈ s.shared.calls, ¬ Pends call

/-- No waiter is inserted once the reader has ended. -/
def Guard (s : Session) : Label → Prop
  | .insert _ => s.ended = false
  | _ => True

instance (s : Session) (label : Label) : Decidable (Guard s label) :=
  match label with
  | .insert _ => inferInstanceAs (Decidable (s.ended = false))
  | .request _ _ | .enqueue _ _ | .finish _ | .timeout _ | .answer _ _ _ | .deliver | .writerEnd
  | .readerEnd | .readerClear => isTrue trivial

theorem guard_iff {s : Session} {label : Label} :
    Guard s label ↔ ∀ i, label = .insert i → s.ended = false := by
  cases label with
  | insert i => exact ⟨fun h _ _ => h, fun h => h i rfl⟩
  | _ => exact iff_of_true trivial nofun

/-! ## The invariant -/

/-- A call that pends is the one of its id in `pending`. -/
def Owned (s : State) : Prop :=
  ∀ i call, s.calls[i]? = some call → Pends call → s.pending.lookup call.cmd = some i

structure Inv (s : Session) : Prop where
  closed : s.ended = true → s.shared.closed = true
  owned : s.ended = false → Owned s.shared

theorem inv_init : Inv .init where
  closed h := nomatch h
  owned _ _ _ hcall _ := nomatch hcall

theorem not_pends_of_finished {call : Call} {result : Except Error Delivered}
    (h : call.phase = .finished result) : ¬ Pends call := by
  intro hpends
  rcases hpends.1 with hphase | hphase
  · rw [h] at hphase
    cases hphase
  · rw [h] at hphase
    cases hphase

theorem not_pends_of_checked {call : Call} (h : call.phase = .checked) : ¬ Pends call := by
  intro hpends
  rcases hpends.1 with hphase | hphase
  · rw [h] at hphase
    cases hphase
  · rw [h] at hphase
    cases hphase

/-- A new call has no waiter yet. -/
theorem calls_request (s : State) (cmd : UInt16) (payload : Bytes) :
    ∃ call, (s.request cmd payload).calls = s.calls ++ [call] ∧ ¬ Pends call := by
  refine ⟨_, rfl, ?_⟩
  by_cases hclosed : s.closed
  · exact not_pends_of_finished (if_pos hclosed)
  · exact not_pends_of_checked (if_neg hclosed)

/-- Nothing is inserted or removed, and whoever pends did so before. -/
structure Calm (s t : State) : Prop where
  closed : s.closed = true → t.closed = true
  pending : t.pending = s.pending
  pends : ∀ (i : Nat) (call : Call), t.calls[i]? = some call → Pends call →
    ∃ old : Call, s.calls[i]? = some old ∧ Pends old ∧ old.cmd = call.cmd

theorem Calm.of_calls {s t : State} (hclosed : s.closed = true → t.closed = true)
    (hpending : t.pending = s.pending) (hcalls : t.calls = s.calls) : Calm s t where
  closed := hclosed
  pending := hpending
  pends _ call hcall hpends := ⟨call, hcalls ▸ hcall, hpends, rfl⟩

theorem Calm.owned {s t : State} (h : Calm s t) (howned : Owned s) : Owned t := by
  intro i call hcall hpends
  obtain ⟨old, hold, hpended, hcmd⟩ := h.pends i call hcall hpends
  rw [h.pending, ← hcmd]
  exact howned i old hold hpended

theorem Calm.not_pends {s t : State} (h : Calm s t) (hnone : ∀ call ∈ s.calls, ¬ Pends call) :
    ∀ call ∈ t.calls, ¬ Pends call := by
  intro call hcall hpends
  obtain ⟨i, hi⟩ := List.mem_iff_getElem?.mp hcall
  obtain ⟨old, hold, hpended, -⟩ := h.pends i call hi hpends
  exact hnone old (List.mem_of_getElem? hold) hpended

theorem calm_request (s : State) (cmd : UInt16) (payload : Bytes) :
    Calm s (s.request cmd payload) where
  closed h := h
  pending := rfl
  pends := by
    intro i call hcall hpends
    obtain ⟨new, hcalls, hnew⟩ := calls_request s cmd payload
    rw [hcalls, List.getElem?_append] at hcall
    split at hcall
    · exact ⟨call, hcall, hpends, rfl⟩
    · have hmem := List.mem_of_getElem? hcall
      rw [List.mem_singleton.mp hmem] at hpends
      exact absurd hpends hnew

/-- A call that changes its phase, and that pends only if it did before. -/
theorem calm_modifyCall {s : State} {i : Nat} {f : Call → Call}
    (hcmd : ∀ call, (f call).cmd = call.cmd)
    (hf : ∀ call, s.calls[i]? = some call → Pends (f call) → Pends call) :
    Calm s (s.modifyCall i f) where
  closed h := h
  pending := rfl
  pends := by
    intro k call hcall hpends
    obtain ⟨old, hold, hnew⟩ := modifyCall_getElem?_eq_some.mp hcall
    by_cases hik : i = k
    · rw [if_pos hik] at hnew
      rw [hnew] at hpends ⊢
      exact ⟨old, hold, hf old (hik ▸ hold) hpends, (hcmd old).symm⟩
    · rw [if_neg hik] at hnew
      rw [hnew] at hpends ⊢
      exact ⟨old, hold, hpends, rfl⟩

theorem calm_finished (s : State) (i : Nat) (result : Except Error Delivered) :
    Calm s (s.modifyCall i fun call => { call with phase := .finished result }) :=
  calm_modifyCall (fun _ => rfl) fun _ _ hpends => absurd hpends (not_pends_of_finished rfl)

theorem calm_enqueue {s : State} {i : Nat} {call : Call} (random : UInt16)
    (hcall : s.calls[i]? = some call) (hphase : call.phase = .inserted) :
    Calm s (s.enqueue i call random) := by
  unfold State.enqueue
  split
  · have hmodified : Calm s (s.modifyCall i fun call => { call with phase := .waiting }) := by
      refine calm_modifyCall (fun _ => rfl) fun old hold hpends => ⟨Or.inl ?_, hpends.2⟩
      rw [← Option.some.inj (hcall.symm.trans hold)]
      exact hphase
    exact ⟨hmodified.closed, hmodified.pending, hmodified.pends⟩
  · exact calm_finished s i _

/-- The new waiter is in `pending`, and the one it replaces is dropped. -/
theorem owned_insert {s : State} (h : Owned s) {i : Nat} {call : Call}
    (hcall : s.calls[i]? = some call) : Owned (s.insert i call) := by
  intro k new hnew hpends
  obtain ⟨old, hold, heq⟩ := insert_getElem?_eq_some.mp hnew
  rw [insert_pending]
  by_cases hik : i = k
  · rw [if_pos hik] at heq
    obtain rfl : call = old := Option.some.inj (hcall.symm.trans (hik ▸ hold))
    rw [heq, ← hik]
    exact AList.lookup_insert _
  · rw [if_neg hik] at heq
    by_cases hreplaced : s.pending.lookup call.cmd = some k
    · rw [if_pos hreplaced] at heq
      rw [heq] at hpends
      cases hpends.2
    · rw [if_neg hreplaced] at heq
      rw [heq] at hpends ⊢
      have howned := h k old hold hpends
      have hne : old.cmd ≠ call.cmd := by
        intro hcmd
        rw [hcmd] at howned
        exact hreplaced howned
      rw [AList.lookup_insert_ne hne]
      exact howned

/-- The reader takes the waiter of the id that a frame has, and answers it. -/
theorem owned_deliver {s : State} (h : Owned s) (request : Nat) (frame : Frame) :
    Owned (s.deliver request frame) := by
  unfold State.deliver
  cases hlookup : s.pending.lookup frame.cmdId with
  | none => exact h
  | some j =>
    -- Whoever pends for another id is still found.
    have hother : ∀ k old, s.calls[k]? = some old → Pends old → k ≠ j →
        (s.pending.erase frame.cmdId).lookup old.cmd = some k := by
      intro k old hold hpends hkj
      have howned := h k old hold hpends
      have hne : old.cmd ≠ frame.cmdId := by
        intro hcmd
        rw [hcmd, hlookup] at howned
        exact hkj (Option.some.inj howned).symm
      rw [AList.lookup_erase_ne hne]
      exact howned
    simp only
    split
    · intro k new hnew hpends
      obtain ⟨old, hold, heq⟩ := modifyCall_getElem?_eq_some.mp hnew
      by_cases hjk : j = k
      · rw [if_pos hjk] at heq
        rw [heq] at hpends
        cases hpends.2
      · rw [if_neg hjk] at heq
        rw [heq] at hpends ⊢
        exact hother k old hold hpends (Ne.symm hjk)
    · rename_i hgone
      intro k call hcall hpends
      refine hother k call hcall hpends ?_
      intro hkj
      -- The caller that has gone does not pend.
      rw [hkj] at hcall
      rw [hcall, Option.any_some, Bool.not_eq_true', Bool.not_eq_false] at hgone
      unfold Call.isFinished at hgone
      split at hgone
      · rename_i hphase
        exact not_pends_of_finished hphase hpends
      · cases hgone

/-- The reader cancels everybody that pends. -/
theorem settled_readerClear {s : State} (h : Owned s) :
    s.readerClear.pending = ∅ ∧ ∀ call ∈ s.readerClear.calls, ¬ Pends call := by
  refine ⟨rfl, ?_⟩
  intro call hcall hpends
  obtain ⟨i, hi⟩ := List.mem_iff_getElem?.mp hcall
  rw [State.readerClear, List.getElem?_mapIdx] at hi
  obtain ⟨old, hold, heq⟩ := Option.map_eq_some_iff.mp hi
  by_cases hpending : (⟨old.cmd, i⟩ : Σ _ : UInt16, Nat) ∈ s.pending.entries
  · rw [if_pos hpending] at heq
    rw [← heq] at hpends
    cases hpends.2
  · rw [if_neg hpending] at heq
    rw [← heq] at hpends
    exact hpending (AList.mem_lookup_iff.mp (h i old hold hpends))

/-! ## Steps -/

/-- A step, seen from the tasks. -/
theorem step_eq_some {s t : Session} {label : Label} (h : step s label = some t) :
    Request.step s.shared label = some t.shared ∧
      ((label = .readerClear ∧ s.ended = false ∧ t.ended = true) ∨
        (label ≠ .readerClear ∧ t.ended = s.ended)) := by
  unfold step at h
  split at h
  · cases h
  · rename_i honce
    obtain ⟨u, hu, ht⟩ := Option.map_eq_some_iff.mp h
    rw [← ht]
    refine ⟨hu, ?_⟩
    by_cases hclear : label = .readerClear
    · have hended : s.ended = false := by
        cases hended : s.ended with
        | false => rfl
        | true => exact absurd ⟨hclear, hended⟩ honce
      exact Or.inl ⟨hclear, hended, by simp [hclear]⟩
    · exact Or.inr ⟨hclear, by simp [hclear]⟩

/-- What a step does to `pending` and to the calls that pend. -/
inductive Effect (s : State) : Label → State → Prop
  | insert (i : Nat) (call : Call) (hcall : s.calls[i]? = some call) :
    Effect s (.insert i) (s.insert i call)
  | clear : Effect s .readerClear s.readerClear
  | deliver (u : State) (hcalm : Calm s u) (hopen : s.closed = false) (request : Nat)
    (frame : Frame) : Effect s .deliver (u.deliver request frame)
  | calm {label : Label} {t : State} (hinsert : ∀ i, label ≠ .insert i) (hcalm : Calm s t) :
    Effect s label t

theorem effect_of_step {s t : State} {label : Label} (h : Request.step s label = some t) :
    Effect s label t := by
  cases label with
  | request cmd payload =>
    cases h
    exact .calm (fun _ => Label.noConfusion) (calm_request s cmd payload)
  | insert i =>
    simp only [Request.step] at h
    split at h
    · rename_i call hcall
      rw [Option.ite_none_right_eq_some] at h
      cases h.2
      exact .insert i call hcall
    · cases h
  | enqueue i random =>
    simp only [Request.step] at h
    split at h
    · rename_i call hcall
      rw [Option.ite_none_right_eq_some] at h
      cases h.2
      exact .calm (fun _ => Label.noConfusion) (calm_enqueue random hcall h.1)
    · cases h
  | finish i =>
    simp only [Request.step] at h
    split at h
    · cases h
      exact .calm (fun _ => Label.noConfusion) (calm_finished s i _)
    · cases h
      exact .calm (fun _ => Label.noConfusion) (calm_finished s i _)
    · cases h
  | timeout i =>
    simp only [Request.step] at h
    split at h
    · rw [Option.ite_none_right_eq_some] at h
      cases h.2
      exact .calm (fun _ => Label.noConfusion) (calm_finished s i _)
    · cases h
  | answer tag resCode body =>
    simp only [Request.step] at h
    split at h
    · cases h
      exact .calm (fun _ => Label.noConfusion) (.of_calls id rfl rfl)
    · cases h
  | deliver =>
    have hread : ∀ rest, Calm s { s with inbound := rest } := fun _ => .of_calls id rfl rfl
    simp only [Request.step] at h
    split at h
    · split at h
      · cases h
      · rename_i hopen
        split at h
        · cases h
          exact .deliver _ (hread _) (Bool.eq_false_of_not_eq_true hopen) _ _
        · cases h
          exact .calm (fun _ => Label.noConfusion) (.of_calls id rfl rfl)
    · cases h
  | writerEnd =>
    cases h
    exact .calm (fun _ => Label.noConfusion) (.of_calls id rfl rfl)
  | readerEnd =>
    cases h
    exact .calm (fun _ => Label.noConfusion) (.of_calls (fun _ => rfl) rfl rfl)
  | readerClear =>
    simp only [Request.step] at h
    rw [Option.ite_none_right_eq_some] at h
    cases h.2
    exact .clear

/-- The flag stays up. -/
theorem closed_of_effect {s t : State} {label : Label} (h : Effect s label t)
    (hclosed : s.closed = true) : t.closed = true := by
  cases h with
  | insert i call hcall =>
    obtain ⟨-, -, -, -, hsame, -⟩ := insert_frame s i call
    rw [hsame]
    exact hclosed
  | clear => exact hclosed
  | deliver u hcalm hopen request frame =>
    rw [hopen] at hclosed
    cases hclosed
  | calm hinsert hcalm => exact hcalm.closed hclosed

theorem owned_of_effect {s t : State} {label : Label} (h : Effect s label t)
    (hclear : label ≠ .readerClear) (howned : Owned s) : Owned t := by
  cases h with
  | insert i call hcall => exact owned_insert howned hcall
  | clear => exact absurd rfl hclear
  | deliver u hcalm hopen request frame => exact owned_deliver (hcalm.owned howned) request frame
  | calm hinsert hcalm => exact hcalm.owned howned

theorem Inv.step {s t : Session} {label : Label} (hinv : Inv s) (h : step s label = some t) :
    Inv t := by
  obtain ⟨hstep, hended⟩ := step_eq_some h
  have heffect := effect_of_step hstep
  refine ⟨?_, ?_⟩
  · intro ht
    rcases hended with ⟨hclear, -, -⟩ | ⟨-, hsame⟩
    · rw [hclear, Request.step, Option.ite_none_right_eq_some] at hstep
      exact closed_of_effect heffect hstep.1
    · exact closed_of_effect heffect (hinv.closed (hsame ▸ ht))
  · intro ht
    rcases hended with ⟨-, -, hcleared⟩ | ⟨hclear, hsame⟩
    · rw [hcleared] at ht
      cases ht
    · exact owned_of_effect heffect hclear (hinv.owned (hsame ▸ ht))

/-- Behind the end of the reader, the insertions are what makes a call pend. -/
theorem settled_of_effect {s t : State} {label : Label} (h : Effect s label t)
    (hclear : label ≠ .readerClear) (hclosed : s.closed = true)
    (hsettled : s.pending = ∅ ∧ ∀ call ∈ s.calls, ¬ Pends call) :
    (t.pending = ∅ ∧ ∀ call ∈ t.calls, ¬ Pends call) ↔ ∀ i, label ≠ .insert i := by
  cases h with
  | insert i call hcall =>
    refine iff_of_false ?_ fun hall => hall i rfl
    intro hempty
    have hlookup := AList.lookup_insert (b := i) (a := call.cmd) s.pending
    rw [← insert_pending, hempty.1] at hlookup
    cases hlookup
  | clear => exact absurd rfl hclear
  | deliver u hcalm hopen request frame =>
    rw [hopen] at hclosed
    cases hclosed
  | calm hinsert hcalm =>
    refine iff_of_true ⟨?_, hcalm.not_pends hsettled.2⟩ hinsert
    rw [hcalm.pending]
    exact hsettled.1

/-- A step out of a state where nobody waits in vain leads to one exactly when it meets the
guard. -/
theorem settled_step {s t : Session} {label : Label} (hinv : Inv s) (hsettled : Settled s)
    (h : step s label = some t) : Settled t ↔ Guard s label := by
  obtain ⟨hstep, hended⟩ := step_eq_some h
  rcases hended with ⟨hclear, hbefore, hafter⟩ | ⟨hclear, hsame⟩
  · rw [hclear] at hstep ⊢
    rw [Request.step, Option.ite_none_right_eq_some] at hstep
    refine iff_of_true (fun _ => ?_) trivial
    rw [← Option.some.inj hstep.2]
    exact settled_readerClear (hinv.owned hbefore)
  · rw [guard_iff]
    cases hs : s.ended with
    | false =>
      refine iff_of_true ?_ fun _ _ => rfl
      intro ht
      rw [hsame, hs] at ht
      cases ht
    | true =>
      have hrest := settled_of_effect (effect_of_step hstep) hclear (hinv.closed hs) (hsettled hs)
      constructor
      · intro ht i hi
        exact absurd hi (hrest.mp (ht (hsame.trans hs)) i)
      · intro hguard _
        exact hrest.mpr fun i hi => Bool.noConfusion (hguard i hi)

/-! ## Runs -/

/-- A run leaves nobody waiting for a reader that has ended exactly when no waiter is inserted
behind the end of the reader. -/
theorem settled_iff {labels : List Label} {s : Session} (hrun : exec step .init labels = some s) :
    Throughout step Settled .init labels ↔ StepsMeet step Guard .init labels := by
  have hkeep : ∀ s label t, Inv s → step s label = some t → Inv t :=
    fun _ _ _ hinv h => hinv.step h
  have hdecide : ∀ s label t, Inv s → Settled s → step s label = some t →
      (Settled t ↔ Guard s label) := fun _ _ _ hinv h hstep => settled_step hinv h hstep
  have hinit : Settled .init := fun h => nomatch h
  exact stepsMeet_iff hkeep hdecide inv_init hinit hrun

/-- A request, and another one that finds the flag up. -/
theorem settled_iff_run :
    Throughout step Settled .init
      [.request 3 [], .insert 0, .readerEnd, .enqueue 0 7, .request 3 [], .readerClear,
        .finish 0] := by
  obtain ⟨s, hrun⟩ := Option.isSome_iff_exists.mp (by decide : Option.isSome (exec step .init
    [.request 3 [], .insert 0, .readerEnd, .enqueue 0 7, .request 3 [], .readerClear,
      .finish 0]))
  exact (settled_iff hrun).mpr (by decide)

/-- Behind the end of the reader, nothing is taken out of `pending`. -/
theorem mem_pending_of_exec {labels : List Label} {s t : Session} {cmd : UInt16}
    (hinv : Inv s) (hended : s.ended = true) (hcmd : cmd ∈ s.shared.pending)
    (hrun : exec step s labels = some t) : cmd ∈ t.shared.pending := by
  have hstep : ∀ (u : Session) label v, Inv u ∧ u.ended = true ∧ cmd ∈ u.shared.pending →
      step u label = some v → Inv v ∧ v.ended = true ∧ cmd ∈ v.shared.pending := by
    intro u label v ⟨hinv, hended, hcmd⟩ h
    obtain ⟨hstep, hcases⟩ := step_eq_some h
    rcases hcases with ⟨-, hopen, -⟩ | ⟨hclear, hsame⟩
    · rw [hopen] at hended
      cases hended
    · refine ⟨hinv.step h, hsame.trans hended, ?_⟩
      have heffect := effect_of_step hstep
      generalize v.shared = w at heffect ⊢
      cases heffect with
      | insert i call hcall =>
        rw [insert_pending, AList.mem_insert]
        exact Or.inr hcmd
      | clear => exact absurd rfl hclear
      | deliver u hcalm hopen request frame =>
        rw [hinv.closed hended] at hopen
        cases hopen
      | calm hinsert hcalm =>
        rw [hcalm.pending]
        exact hcmd
  exact (exec_invariant hstep ⟨hinv, hended, hcmd⟩ hrun).2.2

/-- A request finds the flag down, the reader ends, and the request inserts its waiter and sends
its command.  It waits, and its waiter stays. -/
theorem not_settled_run :
    ¬ ∀ labels s, exec step .init labels = some s → Settled s := by
  intro h
  have hrun : (exec step .init
      [.request 3 [], .readerEnd, .readerClear, .insert 0, .enqueue 0 7]).map
        (fun s => (s.ended, s.shared.pending.lookup 3)) = some (true, some 0) := by decide
  obtain ⟨s, hexec, hstate⟩ := Option.map_eq_some_iff.mp hrun
  obtain ⟨hended, hpending⟩ := Prod.mk.inj hstate
  have hempty := (h _ s hexec hended).1
  rw [hempty] at hpending
  cases hpending

end Mt5Open.Webterm.Closing
