import TileWalk.Proofs.Campaign.Request

/-!
What a campaign says of its progress. It is complete, and the next level is unlocked, exactly by
what was reported since the last load, whatever its caller had collected before and still holds
(`progress_tells_history`).
-/

namespace TileWalk

/-- A request, and the events that its caller holds when it is made. -/
structure Call where
  request : Request
  held : List Event

namespace Campaign

/-- Passes an action on to the session, with its events added at the end of those that are held.
Only what was added counts as a victory of this action. -/
def applyOnto (c : Campaign) (held : List Event) (action : Action) : Campaign × List Event :=
  match action with
  | .load _ => (c, held)
  | action =>
    let step := c.session.apply action
    let events := held ++ step.report.events
    let unlocked := if .victory ∈ events.drop held.length then !c.complete else c.unlocked
    ({ c with session := step.state, unlocked }, events)

/-- What comes of a request, whether a level was loaded, and the events that are held then. -/
def serveOnto (c : Campaign) (held : List Event) : Request → (Bool × Campaign) × List Event
  | .enter index =>
    let step := c.loadIndex index
    (step.state, held ++ step.report.events)
  | .moveOn =>
    let step := c.moveOn
    (step.state, held ++ step.report.events)
  | .act action =>
    let (after, events) := c.applyOnto held action
    ((false, after), events)

/-- The events that a call adds to those that are held. -/
def added (c : Campaign) (call : Call) : List Event :=
  (c.serveOnto call.held call.request).2.drop call.held.length

/-- The campaign after some calls, and the events added since its last load; `since` are those from
before the calls. -/
def history (c : Campaign) (since : List Event) : List Call → Campaign × List Event
  | [] => (c, since)
  | call :: calls =>
    let served := (c.serveOnto call.held call.request).1
    served.2.history (if served.1 then c.added call else since ++ c.added call) calls

variable {c : Campaign} {since : List Event}

theorem applyOnto_eq (c : Campaign) (held : List Event) (action : Action) :
    c.applyOnto held action = ((c.apply action).state, held ++ (c.apply action).report.events) := by
  cases action with
  | load level => simp [applyOnto, apply]
  | _ =>
    simp only [applyOnto, List.drop_left]
    rfl

/-- What is held when a request is made has no part in what comes of it. -/
theorem serveOnto_eq (c : Campaign) (held : List Event) (request : Request) :
    c.serveOnto held request =
      ((c.serve request).state, held ++ (c.serve request).report.events) := by
  cases request with
  | act action =>
    simp only [serveOnto, applyOnto_eq]
    rfl
  | _ => rfl

theorem added_eq (c : Campaign) (call : Call) :
    c.added call = (c.serve call.request).report.events := by
  rw [added, serveOnto_eq, List.drop_left]

theorem history_cons (call : Call) (calls : List Call) :
    c.history since (call :: calls) =
      (c.serve call.request).state.2.history
        (if (c.serve call.request).state.1 then (c.serve call.request).report.events
          else since ++ (c.serve call.request).report.events) calls := by
  rw [history, serveOnto_eq, added_eq]

theorem history_fst (calls : List Call) :
    (c.history since calls).1 = (c.serveAll (calls.map Call.request)).state := by
  induction calls generalizing c since with
  | nil => rfl
  | cons call calls ih =>
    rw [history_cons, ih]
    rfl

/-! ### Progress through requests -/

/-- What a campaign says of its progress is what happened since its last load. -/
structure Tells (c : Campaign) (since : List Event) : Prop where
  complete : since.count .complete = if c.complete then 1 else 0
  unlocked : c.unlocked = true ↔ c.complete = false ∧ .victory ∈ since

theorem Tells.complete_iff (h : c.Tells since) : c.complete = true ↔ .complete ∈ since := by
  rw [← List.count_pos_iff, h.complete]
  cases c.complete <;> simp

theorem Served.tells {request : Request} {step : Step (Bool × Campaign)}
    (h : c.Served request step) (hc : c.Tells since) :
    step.state.2.Tells
      (if step.state.1 then step.report.events else since ++ step.report.events) := by
  cases h with
  | declined request notes =>
    rw [if_neg Bool.false_ne_true, List.append_nil]
    exact hc
  | @entered _ index key level hkey hlevel =>
    -- a load starts over: neither a victory nor a completion is among its own events
    show (c.onIndex _ index).Tells (c.session.apply (.load level)).report.events
    exact ⟨List.count_eq_zero.mpr (c.session.complete_not_mem_apply _),
      by simp [onIndex, c.session.victory_not_mem_load level]⟩
  | completed hopen hlast =>
    have hnone := hc.complete
    rw [hopen, if_neg Bool.false_ne_true] at hnone
    rw [if_neg Bool.false_ne_true]
    exact ⟨by simp [Campaign.completed, hnone], by simp [Campaign.completed]⟩
  | @acted action haction =>
    have hsame := List.count_eq_zero.mpr (c.session.complete_not_mem_apply action)
    show (c.follow (c.session.apply action)).state.Tells
      (since ++ (c.session.apply action).report.events)
    refine ⟨?_, ?_⟩
    · rw [List.count_append, hsame]
      exact hc.complete
    · have hunlocked := hc.unlocked
      by_cases hvictory : .victory ∈ (c.session.apply action).report.events
      · simp [follow, hvictory]
      · simpa [follow, hvictory] using hunlocked

theorem Tells.history (h : c.Tells since) (calls : List Call) :
    (c.history since calls).1.Tells (c.history since calls).2 := by
  induction calls generalizing c since with
  | nil => exact h
  | cons call calls ih =>
    rw [history_cons]
    exact ih ((c.serve_served call.request).tells h)

theorem complete_not_mem_loadIndex (c : Campaign) (index : Nat) :
    .complete ∉ (c.loadIndex index).report.events := by
  unfold loadIndex
  split
  · exact List.not_mem_nil
  · split
    · exact List.not_mem_nil
    · next level hlevel => exact c.session.complete_not_mem_apply (.load level)

/-- No index of a level comes after the one that is loaded. -/
def AtLast (c : Campaign) : Prop :=
  ∀ index < c.size, ∃ current, c.loaded = some current ∧ index ≤ current

theorem atLast_iff (c : Campaign) : c.AtLast ↔ c.size ≤ c.nextIndex := by
  unfold AtLast
  cases hloaded : c.loaded with
  | none =>
    have hnext : c.nextIndex = 0 := by rw [nextIndex, hloaded]
    constructor
    · intro h
      by_contra hsize
      obtain ⟨current, hcurrent, -⟩ := h 0 (by omega)
      contradiction
    · intro h index hindex
      omega
  | some current =>
    have hnext : c.nextIndex = current + 1 := by rw [nextIndex, hloaded]
    constructor
    · intro h
      by_contra hsize
      obtain ⟨_, hcurrent, hle⟩ := h (current + 1) (by omega)
      obtain rfl := Option.some.inj hcurrent
      omega
    · intro h index hindex
      exact ⟨current, rfl, by omega⟩

theorem complete_mem_moveOn_iff (c : Campaign) :
    .complete ∈ c.moveOn.report.events ↔ c.complete = false ∧ c.AtLast := by
  rw [atLast_iff]
  unfold moveOn
  split
  · next hcomplete => simp [hcomplete]
  · next hopen =>
    split
    · next hnext =>
      have hnone := c.complete_not_mem_loadIndex c.nextIndex
      constructor
      · intro hmem
        contradiction
      · rintro ⟨-, hle⟩
        omega
    · next hnext => simp [hopen, Nat.le_of_not_lt hnext]

/-- A campaign is complete exactly if a completion was reported since its last load, and none is
reported twice. The next level is unlocked exactly if a victory was reported since the last load and
the campaign is not complete. Moving on reports a completion exactly if the campaign is not complete
and no level follows. A caller that holds events when it makes a request gets those of the request
behind them, and they have no part in it. -/
theorem progress_tells_history (source : LevelSource) (pacing : Pacing) (calls : List Call) :
    let begun := ofSource source (.ofPacing pacing)
    let c := (begun.history [] calls).1
    let since := (begun.history [] calls).2
    (c.complete = true ↔ .complete ∈ since) ∧
      since.count .complete ≤ 1 ∧
      (c.unlocked = true ↔ c.complete = false ∧ .victory ∈ since) ∧
      (∀ held, .complete ∈ c.added ⟨.moveOn, held⟩ ↔
        c.complete = false ∧
          ∀ index < c.size, ∃ current, c.loaded = some current ∧ index ≤ current) ∧
      c = (begun.serveAll (calls.map Call.request)).state ∧
      ∀ request held,
        c.serveOnto held request =
          ((c.serve request).state, held ++ (c.serve request).report.events) := by
  dsimp only
  have hbegun : (ofSource source (.ofPacing pacing)).Tells [] := ⟨rfl, by simp [ofSource]⟩
  have htells := hbegun.history calls
  refine ⟨htells.complete_iff, ?_, htells.unlocked, fun held => ?_, history_fst calls,
    fun request held => serveOnto_eq _ held request⟩
  · rw [htells.complete]
    split <;> omega
  · rw [added_eq]
    exact complete_mem_moveOn_iff _

/-- One level, on which a step ahead wins. -/
def doorstep : LevelSource where
  keys := ["doorstep"]
  level? _ := some ⟨[[.path .grey, .goal]], ⟨0, 0, .right⟩, .const 1, .const true, "a doorstep"⟩

/-- A win, a completion and another win, while the caller holds a victory of long ago. -/
def twiceWon : List Call :=
  [.moveOn, .act (.add ⟨.move .forward, none⟩ .firstOpen), .act .start,
    .act (.tick (.ofMillis 300)), .moveOn, .act .reset,
    .act (.add ⟨.move .forward, none⟩ .firstOpen), .act .start, .act (.tick (.ofMillis 300)),
    .moveOn].map fun request => ⟨request, [.victory, .complete]⟩

theorem twiceWon_tells :
    let after := (ofSource doorstep (.ofPacing .standard)).history [] twiceWon
    after.2.count .victory = 2 ∧ after.2.count .complete = 1 ∧
      after.1.complete = true ∧ after.1.unlocked = false ∧
      .complete ∉ after.1.added ⟨.moveOn, []⟩ := by
  dsimp only
  obtain ⟨hcomplete, hcount, hunlocked, hmoved, -, -⟩ :=
    progress_tells_history doorstep .standard twiceWon
  have hend := hcomplete.mpr (by decide)
  refine ⟨by decide, by decide, hend, ?_, ?_⟩
  · rw [← Bool.not_eq_true, hunlocked, hend]
    simp
  · rw [hmoved, hend]
    simp

end Campaign

end TileWalk
