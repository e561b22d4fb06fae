import OakBarrels.Link.Transparent
import Mathlib.Data.Prod.Lex

/-!
# Calls return

However the reads of the two ends are ordered, a call that is awaited returns while the connection is
open, and a station whose host is gone serves what was sent and leaves.
-/

open Octets Binary64

namespace OakBarrels

open Json Protocol
open Client (Call Invocation Result Reader Writer Convert)

namespace Link

variable {c : Convert} {σ : Type} {reader : Reader c} {writer : Writer c}
  {unrepresentable : Unrepresentable} {backend : EngineBackend σ} {Good : World σ → Prop} {engine : σ}
  {s t : Link c σ}

/-! ## What the two ends do by themselves -/

/-- The station reads, or finds its end, or the host reads, or finds its end. -/
theorem moves_cases (hmoves : Moves reader writer unrepresentable backend s t) :
    (∃ chunk, s.stationReads unrepresentable backend chunk = some t) ∨ s.stationEnds = some t ∨
      (∃ count, s.hostReads reader count = some t) ∨ s.hostDone = some t := by
  obtain ⟨move, hinternal, hstep⟩ := hmoves
  cases move with
  | stationReads chunk => exact .inl ⟨chunk, hstep⟩
  | stationEnds => exact .inr (.inl hstep)
  | hostReads count => exact .inr (.inr (.inl ⟨count, hstep⟩))
  | hostDone => exact .inr (.inr (.inr hstep))
  | _ => cases hinternal

theorem stationReads_spec {chunk : Chunk} (hstep : s.stationReads unrepresentable backend chunk = some t) :
    t.closed = s.closed ∧ t.relay = s.relay ∧ t.toStation.length < s.toStation.length := by
  unfold stationReads at hstep
  split at hstep
  · cases hstep
  · rename_i hguard
    rw [not_or, not_not] at hguard
    have hle := hguard.2.length_le
    have hpos := List.length_pos_iff.mpr chunk.nonempty
    cases hstep
    refine ⟨rfl, rfl, ?_⟩
    simp only [List.length_drop]
    omega

theorem stationEnds_spec (hstep : s.stationEnds = some t) :
    s.closed = true ∧ t = { s with exit := some 0 } := by
  unfold stationEnds at hstep
  split at hstep
  · cases hstep
  · rename_i hguard
    simp only [not_or, Bool.not_eq_false] at hguard
    cases hstep
    exact ⟨hguard.2.1, rfl⟩

theorem hostReads_spec {count : Nat} (hstep : s.hostReads reader count = some t) :
    s.closed = false ∧ t.closed = false ∧ t.toStation = s.toStation ∧
      t.toHost.length < s.toHost.length := by
  unfold hostReads at hstep
  split at hstep
  · cases hstep
  · rename_i hguard
    simp only [not_or, not_lt, Bool.not_eq_true] at hguard
    cases hstep
    refine ⟨hguard.1, hguard.1, rfl, ?_⟩
    simp only [List.length_drop]
    omega

theorem hostDone_spec (hstep : s.hostDone = some t) :
    s.closed = false ∧ t.closed = false ∧ t.relay.waiter = none := by
  unfold hostDone at hstep
  split at hstep
  · cases hstep
  · rename_i hguard
    simp only [not_or, Bool.not_eq_true] at hguard
    obtain ⟨hopen, -, -, hfailure⟩ := hguard
    have hlive : s.relay.failure = none := by simpa using hfailure
    cases hstep
    refine ⟨hopen, hopen, ?_⟩
    unfold Client.Relay.fail
    rw [hlive]
    cases hwaits : s.relay.waiter with
    | none => simp
    | some call => simp [Client.Relay.settle]

theorem moves_closed (hmoves : Moves reader writer unrepresentable backend s t) :
    t.closed = s.closed := by
  rcases moves_cases hmoves with ⟨chunk, hreads⟩ | hends | ⟨count, hreads⟩ | hdone
  · exact (stationReads_spec hreads).1
  · rw [(stationEnds_spec hends).2]
  · have hspec := hostReads_spec hreads
    rw [hspec.1, hspec.2.1]
  · have hspec := hostDone_spec hdone
    rw [hspec.1, hspec.2.1]

theorem moves_invocations (hmoves : Moves reader writer unrepresentable backend s t) :
    t.invocations = s.invocations := by
  obtain ⟨move, hinternal, hstep⟩ := hmoves
  rcases step_invocations move hstep with hsame | ⟨i, rfl, -⟩
  · exact hsame
  · cases hinternal

/-! ## What stays -/

/-- A link with these calls that both ends can take, open or closed. -/
structure Settling (reader : Reader c) (writer : Writer c) (unrepresentable : Unrepresentable)
    (backend : EngineBackend σ) (Good : World σ → Prop) (engine : σ) (invocations : List Invocation)
    (closed : Bool) (s : Link c σ) : Prop where
  linked : Linked reader writer backend Good engine s
  fit : ∀ i ∈ s.invocations, Fit writer unrepresentable i
  invocations : s.invocations = invocations
  closed : s.closed = closed

theorem Settling.moves {invocations : List Invocation} {closed : Bool}
    (hpresentable : Presentable unrepresentable backend Good) (hdocumented : reader.Documented)
    (h : Settling reader writer unrepresentable backend Good engine invocations closed s)
    (hmoves : Moves reader writer unrepresentable backend s t) :
    Settling reader writer unrepresentable backend Good engine invocations closed t := by
  have hinvocations := moves_invocations hmoves
  have hclosed := moves_closed hmoves
  obtain ⟨move, hinternal, hstep⟩ := hmoves
  have hmove : move ≠ .timeout := by
    rintro rfl
    cases hinternal
  exact ⟨step_linked hpresentable hdocumented h.linked h.fit move hmove hstep,
    by rw [hinvocations]; exact h.fit, hinvocations.trans h.invocations, hclosed.trans h.closed⟩

theorem Run.settling {moves : List Move} {transcript : Bool}
    (hrun : Run reader writer unrepresentable backend moves (start engine transcript) t)
    (hpresentable : Presentable unrepresentable backend Good) (hdocumented : reader.Documented)
    (hgood : Good (.fresh engine transcript)) :
    Settling reader writer unrepresentable backend Good engine t.invocations t.closed t := by
  obtain ⟨hlinked, hfit⟩ := hrun.linked hpresentable hdocumented (start_linked transcript hgood)
    (by simp [start])
  exact ⟨hlinked, hfit, rfl, rfl⟩

/-! ## Something is always possible -/

theorem exists_moves (move : Move) (hinternal : move.isInternal = true)
    (hpossible : s.step reader writer unrepresentable backend move ≠ none) :
    ∃ t, Moves reader writer unrepresentable backend s t := by
  obtain ⟨t, hstep⟩ := Option.ne_none_iff_exists'.mp hpossible
  exact ⟨t, move, hinternal, hstep⟩

/-- A station that has not returned can read what there is. -/
theorem exists_stationReads (hexit : s.exit = none) (hmore : s.toStation ≠ []) :
    ∃ t, Moves reader writer unrepresentable backend s t := by
  obtain ⟨first, rest, hbytes⟩ := List.exists_cons_of_ne_nil hmore
  let chunk : Chunk := ⟨[first], by simp, by simp [kMaxIoChunk]⟩
  have hpart : chunk.data <+: s.toStation := by
    rw [hbytes]
    exact ⟨rest, rfl⟩
  refine exists_moves (.stationReads chunk) rfl ?_
  unfold step stationReads
  simp [hexit, hpart]

theorem exists_stationEnds (hexit : s.exit = none) (hclosed : s.closed = true)
    (hnone : s.toStation = []) : ∃ t, Moves reader writer unrepresentable backend s t := by
  refine exists_moves .stationEnds rfl ?_
  unfold step stationEnds
  simp [hexit, hclosed, hnone]

theorem exists_hostReads (hopen : s.closed = false) (hmore : s.toHost ≠ []) :
    ∃ t, Moves reader writer unrepresentable backend s t := by
  have hpos := List.length_pos_iff.mpr hmore
  refine exists_moves (.hostReads 1) rfl ?_
  unfold step hostReads
  simp [hopen, hmore]

theorem exists_hostDone {code : Nat} (hopen : s.closed = false) (hexit : s.exit = some code)
    (hnone : s.toHost = []) (hlive : s.relay.failure = none) :
    ∃ t, Moves reader writer unrepresentable backend s t := by
  refine exists_moves .hostDone rfl ?_
  unfold step hostDone
  simp [hopen, hexit, hnone, hlive]

/-- While a call is awaited something is under way, or the host can find the station gone. -/
theorem Linked.awaited_moves (h : Linked reader writer backend Good engine s) (hopen : s.closed = false)
    (hwaits : s.relay.waiter ≠ none) : ∃ t, Moves reader writer unrepresentable backend s t := by
  cases h with
  | idle _ hnone => exact absurd hnone hwaits
  | gone _ hnone => exact absurd hnone hwaits
  | asking before i buffer _ _ _ _ _ _ hexit _ hcut hshort hfits =>
    refine exists_stationReads hexit fun hnone => ?_
    rw [hnone, List.append_nil] at hcut
    exact not_short_whole hfits hcut hshort
  | answering before i reply _ _ _ _ _ _ hcut hshort hpresented =>
    refine exists_hostReads hopen fun hnone => ?_
    rw [hnone, List.append_nil] at hcut
    exact not_short_whole hpresented.fits hcut hshort
  | lost before i _ _ _ hlive _ htoHost hexit => exact exists_hostDone hopen hexit htoHost hlive

/-! ## What is left in the end -/

/-- With no call awaited every call has returned. -/
theorem Linked.returned (h : Linked reader writer backend Good engine s)
    (hnone : s.relay.waiter = none) :
    s.results reader = Service.results backend (.start engine) s.invocations ∧
      s.station.world.service = served backend engine s.invocations := by
  cases h with
  | idle hsynced => exact ⟨hsynced.results, hsynced.service⟩
  | gone hsynced => exact ⟨hsynced.results, hsynced.service⟩
  | asking _ i _ _ _ hwaits => simp [hwaits] at hnone
  | answering _ i _ _ _ hwaits => simp [hwaits] at hnone
  | lost _ i _ _ hwaits => simp [hwaits] at hnone

/-- A station that has returned has served every call. -/
theorem Linked.exited (h : Linked reader writer backend Good engine s) {code : Nat}
    (hexit : s.exit = some code) : s.station.world.service = served backend engine s.invocations := by
  cases h with
  | idle hsynced => exact hsynced.service
  | gone hsynced => exact hsynced.service
  | answering _ _ _ hsynced => exact hsynced.service
  | asking _ _ _ _ _ _ _ _ _ hrunning => simp [hrunning] at hexit
  | lost before i hsynced hlast _ _ _ _ _ hover =>
    rw [hlast, served_concat, hsynced.over hover i]
    exact hsynced.service

/-! ## Every call returns -/

section

variable {moves : List Move} {transcript : Bool} {run : Nat → Link c σ}

/-- **Calls return.** From every state that such a run comes to with the connection open, and in whatever
order the two ends go on, the calls all return what the service returns. -/
theorem calls_return (hpresentable : Presentable unrepresentable backend Good)
    (hdocumented : reader.Documented) (hgood : Good (.fresh engine transcript))
    (hrun : Run reader writer unrepresentable backend moves (start engine transcript) (run 0))
    (hopen : (run 0).closed = false)
    (hmaximal : Runs.Maximal (Moves reader writer unrepresentable backend) run) :
    ∃ n, (run n).relay.waiter = none ∧ (run n).invocations = (run 0).invocations ∧
      (run n).results reader = Service.results backend (.start engine) (run 0).invocations ∧
      (run n).station.world.service = served backend engine (run 0).invocations := by
  let Inv := Settling reader writer unrepresentable backend Good engine (run 0).invocations false
  have hstart : Inv (run 0) := by
    have hsettling := hrun.settling hpresentable hdocumented hgood
    rw [hopen] at hsettling
    exact hsettling
  have hkept : ∀ s t, Inv s → Moves reader writer unrepresentable backend s t → Inv t :=
    fun _ _ hinv hmoves => hinv.moves hpresentable hdocumented hmoves
  have hlower : ∀ s t, Inv s → ¬ s.relay.waiter = none → Moves reader writer unrepresentable backend s t →
      t.relay.waiter = none ∨ toLex (t.toStation.length, t.toHost.length)
        < toLex (s.toStation.length, s.toHost.length) := by
    intro s t hinv _ hmoves
    rcases moves_cases hmoves with ⟨chunk, hreads⟩ | hends | ⟨count, hreads⟩ | hdone
    · exact .inr (Prod.Lex.toLex_lt_toLex.mpr (.inl (stationReads_spec hreads).2.2))
    · have hclosed := (stationEnds_spec hends).1
      rw [hinv.closed] at hclosed
      cases hclosed
    · obtain ⟨-, -, hsame, hless⟩ := hostReads_spec hreads
      exact .inr (Prod.Lex.toLex_lt_toLex.mpr (.inr ⟨by rw [hsame], hless⟩))
    · exact .inl (hostDone_spec hdone).2.2
  obtain ⟨n, hnone⟩ := hmaximal.eventually _ hstart hkept hlower
    fun s hinv hwaits => hinv.linked.awaited_moves hinv.closed hwaits
  have hinv := hmaximal.invariant hstart hkept n
  obtain ⟨hresults, hservice⟩ := hinv.linked.returned hnone
  rw [hinv.invocations] at hresults hservice
  exact ⟨n, hnone, hinv.invocations, hresults, hservice⟩

/-- A run that begins where a negotiation was sent. -/
theorem exists_sent (moves : List Move) (hfit : ∀ i, .invoke i ∈ moves → i = .negotiate {1})
    (huntimed : .timeout ∉ moves) (closed : Bool)
    (hsent : (moves.foldlM (step asciiReader asciiWriter (fun _ => Int64.minValue) nullBackend)
      (start () false)).any (fun t => t.closed = closed) = true) :
    ∃ run : Nat → Link Client.asciiConvert Unit,
      Run asciiReader asciiWriter (fun _ => Int64.minValue) nullBackend moves (start () false) (run 0) ∧
        (run 0).closed = closed ∧
        Runs.Maximal (Moves asciiReader asciiWriter (fun _ => Int64.minValue) nullBackend) run := by
  obtain ⟨t, hsteps, hclosed⟩ := (Option.any_eq_true _ _).mp hsent
  obtain ⟨run, rfl, hmaximal⟩ := Runs.exists_maximal
    (Moves asciiReader asciiWriter (fun _ => Int64.minValue) nullBackend) t
  refine ⟨run, ⟨hsteps, huntimed, fun i hi => ?_⟩, by simpa using hclosed, hmaximal⟩
  rw [hfit i hi]
  exact hello_fit

theorem calls_return_negotiation : ∃ run : Nat → Link Client.asciiConvert Unit,
    Runs.Maximal (Moves asciiReader asciiWriter (fun _ => Int64.minValue) nullBackend) run ∧
      ∃ n, (run n).relay.waiter = none ∧ (run n).results asciiReader
        = Service.results nullBackend (.start ()) (run 0).invocations := by
  obtain ⟨run, hrun, hopen, hmaximal⟩ := exists_sent [.invoke (.negotiate {1})] (by simp) (by simp)
    false (by decide +kernel)
  obtain ⟨n, hnone, -, hresults, -⟩ := calls_return (null_presentable _) asciiReader_documented trivial
    hrun hopen hmaximal
  exact ⟨run, hmaximal, n, hnone, hresults⟩

/-- **Nothing that was sent is lost.** From every state that such a run comes to with the connection closed
by the host, and in whatever order it goes on, the station serves every call that was sent and leaves
with zero. -/
theorem station_leaves (hpresentable : Presentable unrepresentable backend Good)
    (hdocumented : reader.Documented) (hgood : Good (.fresh engine transcript))
    (hrun : Run reader writer unrepresentable backend moves (start engine transcript) (run 0))
    (hclosed : (run 0).closed = true)
    (hmaximal : Runs.Maximal (Moves reader writer unrepresentable backend) run) :
    ∃ n, (run n).exit = some 0 ∧
      (run n).station.world.service = served backend engine (run 0).invocations := by
  let Inv := Settling reader writer unrepresentable backend Good engine (run 0).invocations true
  have hstart : Inv (run 0) := by
    have hsettling := hrun.settling hpresentable hdocumented hgood
    rw [hclosed] at hsettling
    exact hsettling
  have hkept : ∀ s t, Inv s → Moves reader writer unrepresentable backend s t → Inv t :=
    fun _ _ hinv hmoves => hinv.moves hpresentable hdocumented hmoves
  have hlower : ∀ s t, Inv s → ¬ s.exit = some 0 → Moves reader writer unrepresentable backend s t →
      t.exit = some 0 ∨ t.toStation.length < s.toStation.length := by
    intro s t hinv _ hmoves
    rcases moves_cases hmoves with ⟨chunk, hreads⟩ | hends | ⟨count, hreads⟩ | hdone
    · exact .inr (stationReads_spec hreads).2.2
    · rw [(stationEnds_spec hends).2]
      exact .inl rfl
    · have hopen := (hostReads_spec hreads).1
      rw [hinv.closed] at hopen
      cases hopen
    · have hopen := (hostDone_spec hdone).1
      rw [hinv.closed] at hopen
      cases hopen
  have hpossible : ∀ s, Inv s → ¬ s.exit = some 0 →
      ∃ t, Moves reader writer unrepresentable backend s t := by
    intro s hinv hexit
    have hrunning : s.exit = none := hinv.linked.transparent.exit.resolve_right hexit
    by_cases hnone : s.toStation = []
    · exact exists_stationEnds hrunning hinv.closed hnone
    · exact exists_stationReads hrunning hnone
  obtain ⟨n, hexit⟩ := hmaximal.eventually _ hstart hkept hlower hpossible
  have hinv := hmaximal.invariant hstart hkept n
  have hservice := hinv.linked.exited hexit
  rw [hinv.invocations] at hservice
  exact ⟨n, hexit, hservice⟩

theorem station_leaves_negotiation : ∃ run : Nat → Link Client.asciiConvert Unit,
    Runs.Maximal (Moves asciiReader asciiWriter (fun _ => Int64.minValue) nullBackend) run ∧
      ∃ n, (run n).exit = some 0 ∧
        (run n).station.world.service = served nullBackend () (run 0).invocations := by
  obtain ⟨run, hrun, hclosed, hmaximal⟩ := exists_sent [.invoke (.negotiate {1}), .dispose] (by simp)
    (by simp) true (by decide +kernel)
  obtain ⟨n, hexit, hservice⟩ := station_leaves (null_presentable _) asciiReader_documented trivial hrun
    hclosed hmaximal
  exact ⟨run, hmaximal, n, hexit, hservice⟩

end

end Link

end OakBarrels
