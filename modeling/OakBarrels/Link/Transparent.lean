import OakBarrels.Link.Presentable
import OakBarrels.Link.System
import OakBarrels.Lib.Maximal
import OakBarrels.StationLaws

/-!
# The link is transparent

Between a host and its station at most one request or one reply is under way, in whatever pieces. So
a call returns what the service returns, whatever the order of the reads on both sides.
-/

open Octets Binary64

namespace OakBarrels

open Json Protocol
open Client (Call Invocation Result Reader Writer Convert)

/-! ## A frame in two pieces -/

theorem splits_one {wire : Frame} (hfits : wire.Fits) : Splits wire.encoded [wire] [] .none := by
  have h := @splits_encodeAll [wire] (by simpa using hfits)
  simpa [encodeAll] using h

theorem short_of_cut {wire : Frame} {part more : Bytes} (hfits : wire.Fits)
    (hcut : part ++ more = wire.encoded) (hmore : more ≠ []) : Short part := by
  have hwhole : Splits (part ++ more) [wire] [] .none := by
    rw [hcut]
    exact splits_one hfits
  obtain ⟨frames, rest, e, hsplit⟩ := exists_splits part
  obtain rfl : e = .none := by
    by_contra he
    exact he ((hsplit.append_refused he more).unique hwhole).2.2
  cases frames with
  | nil =>
    have hrest : part = rest := by simpa [encodeAll] using hsplit.stream_eq
    exact hrest ▸ hsplit.short
  | cons frame frames =>
    obtain ⟨others, rest', e', hothers⟩ := exists_splits (rest ++ more)
    obtain ⟨hframes, hrest, -⟩ := (hsplit.append hothers).unique hwhole
    simp only [List.cons_append, List.cons.injEq, List.append_eq_nil_iff] at hframes
    have hnone : rest ++ more = [] := by
      rw [hothers.stream_eq, hframes.2.2, hrest]
      rfl
    exact absurd (List.append_eq_nil_iff.mp hnone).2 hmore

theorem splits_short {part : Bytes} (h : Short part) : Splits part [] part .none :=
  ⟨by simp [encodeAll], by simp, .inl ⟨rfl, h⟩⟩

namespace Station

variable {σ : Type} {unrepresentable : Unrepresentable} {backend : EngineBackend σ} {w : World σ}
  {handed : List Frame} {buffer : Bytes} {chunk : Chunk}

theorem feed_live (buffer : Bytes) (chunk : Chunk) :
    FrameDecoder.feed ⟨buffer, .none⟩ chunk.data = ⟨buffer ++ chunk.data, .none⟩ := by
  simp [FrameDecoder.feed, FrameDecoder.failed, chunk.nonempty]

/-- A read that leaves the request incomplete. -/
theorem turn_part (hshort : Short (buffer ++ chunk.data)) :
    turn unrepresentable backend ⟨⟨buffer, .none⟩, w, handed⟩ chunk
      = (⟨⟨buffer ++ chunk.data, .none⟩, w, handed⟩, none) := by
  obtain ⟨decoder, hdrain, -, hdecoder⟩ :=
    drain_splits unrepresentable backend w handed (splits_short hshort)
  obtain rfl := hdecoder rfl
  unfold turn
  simp only [feed_live, hdrain]
  simp [serve, FrameDecoder.failed]

theorem serve_one (wire : Frame) : serve unrepresentable backend w [wire]
    = ((w.handle unrepresentable backend wire).1, (w.handle unrepresentable backend wire).2,
      [wire]) := by
  generalize hr : w.handle unrepresentable backend wire = r
  obtain ⟨open', w'⟩ := r
  unfold serve
  rw [hr]
  cases open' <;> rfl

/-- A read that completes it. -/
theorem turn_whole (unrepresentable : Unrepresentable) (backend : EngineBackend σ) (w : World σ)
    (handed : List Frame) {wire : Frame} (hfits : wire.Fits)
    (hwhole : buffer ++ chunk.data = wire.encoded) :
    let r := w.handle unrepresentable backend wire
    ∃ decoder handed', turn unrepresentable backend ⟨⟨buffer, .none⟩, w, handed⟩ chunk
        = (⟨decoder, r.2, handed'⟩, if r.1 then none else some 0) ∧
      (r.1 = true → decoder = .fresh) := by
  obtain ⟨decoder, hdrain, hfailed, hdecoder⟩ :=
    drain_splits unrepresentable backend w handed (splits_one hfits)
  rw [serve_one] at hdrain hfailed hdecoder
  refine ⟨decoder, handed ++ [wire], ?_, hdecoder⟩
  have hlive : decoder.failed = false := by simpa using hfailed
  unfold turn
  simp only [feed_live, hwhole, hdrain, hlive, Bool.false_eq_true, if_false]
  split <;> rfl

end Station

namespace Link

variable {c : Convert} {σ : Type} (reader : Reader c) (writer : Writer c)
  (backend : EngineBackend σ) (Good : World σ → Prop) (engine : σ)

/-- The service once these calls are served. -/
def served (invocations : List Invocation) : Service σ :=
  Runs.final (Service.serve backend) (.start engine) invocations

/-- The session has served some of the calls, and some have returned. -/
structure Synced (done returned : List Invocation) (s : Link c σ) : Prop where
  good : Good s.station.world
  service : s.station.world.service = served backend engine done
  queued : s.relay.queued = []
  count : s.relay.outcomes.length = returned.length
  results : s.results reader = Service.results backend (.start engine) returned
  exit : s.exit = none ∧ s.station.world.session.finished = false ∨
    s.exit = some 0 ∧ (s.station.world.session.finished = true ∨ s.closed = true)

/-- Nothing is under way; a request is; its reply is; a request that nobody will read is; or the host
knows that the station is gone. -/
inductive Linked (s : Link c σ) : Prop
  | idle : Synced reader backend Good engine s.invocations s.invocations s →
      s.relay.waiter = none → s.relay.failure = none → s.relay.decoder = ⟨[]⟩ → s.toHost = [] →
      s.toStation = [] → (s.exit = none → s.station.decoder = .fresh) → Linked s
  | asking (before : List Invocation) (i : Invocation) (buffer : Bytes) :
      Synced reader backend Good engine before before s → s.invocations = before ++ [i] →
      s.relay.waiter = some i.call → s.relay.failure = none → s.relay.decoder = ⟨[]⟩ →
      s.toHost = [] → s.exit = none → s.station.decoder = ⟨buffer, .none⟩ →
      buffer ++ s.toStation = (i.frame writer).wire.encoded → Short buffer →
      (i.frame writer).wire.Fits → Linked s
  | answering (before : List Invocation) (i : Invocation) (reply : Reply) :
      Synced reader backend Good engine s.invocations before s → s.invocations = before ++ [i] →
      s.relay.waiter = some i.call → s.relay.failure = none → s.toStation = [] →
      (s.exit = none → s.station.decoder = .fresh) →
      s.relay.decoder.buffer ++ s.toHost = reply.frame.encoded → Short s.relay.decoder.buffer →
      reply.Presented → Yields i.call reply ((served backend engine before).serve backend i).2 →
      Linked s
  | lost (before : List Invocation) (i : Invocation) :
      Synced reader backend Good engine before before s → s.invocations = before ++ [i] →
      s.relay.waiter = some i.call → s.relay.failure = none → s.relay.decoder = ⟨[]⟩ →
      s.toHost = [] → s.exit = some 0 → s.station.world.session.finished = true → Linked s
  | gone : Synced reader backend Good engine s.invocations s.invocations s →
      s.relay.waiter = none → s.relay.failure = some .relayClosed → s.toHost = [] →
      s.exit = some 0 → Linked s

variable {reader writer backend Good engine} {s t : Link c σ}

theorem results_concat (before : List Invocation) (i : Invocation) :
    Service.results backend (.start engine) (before ++ [i])
      = Service.results backend (.start engine) before
        ++ [((served backend engine before).serve backend i).2] := by
  unfold Service.results served
  rw [Runs.trace_concat, List.map_append]
  rfl

theorem served_concat (before : List Invocation) (i : Invocation) :
    served backend engine (before ++ [i]) = ((served backend engine before).serve backend i).1 :=
  Runs.final_concat ..

theorem results_sent {before : List Invocation} (i : Invocation) (h : s.invocations = before)
    (hcount : s.relay.outcomes.length = before.length) (relay : Client.Relay c)
    (houtcomes : relay.outcomes = s.relay.outcomes) (toStation : Bytes) :
    results reader { s with relay, toStation, invocations := s.invocations ++ [i] }
      = s.results reader := by
  unfold results
  simp only [houtcomes, h]
  rw [← List.append_nil s.relay.outcomes, List.zipWith_append hcount.symm, List.append_nil]
  simp

theorem results_returned {before : List Invocation} {i : Invocation}
    (h : s.invocations = before ++ [i]) (hcount : s.relay.outcomes.length = before.length)
    {outcome : Client.Outcome c} (hinvocations : t.invocations = s.invocations)
    (houtcomes : t.relay.outcomes = s.relay.outcomes ++ [outcome]) :
    t.results reader = s.results reader ++ [outcome.result reader i.call] := by
  have hbefore : s.results reader = List.zipWith (fun invocation outcome =>
      outcome.result reader invocation.call) before s.relay.outcomes := by
    unfold results
    rw [h, ← List.append_nil s.relay.outcomes, List.zipWith_append hcount.symm]
    simp
  rw [hbefore]
  unfold results
  rw [hinvocations, houtcomes, h, List.zipWith_append hcount.symm]
  rfl

/-! ## Each move -/

/-- A request that is sent is the frame of its call; and nothing else changes where none is. -/
theorem request_cases (fields : Client.Fields c) {r : Client.Relay c} (hqueued : r.queued = [])
    (call : Call) (frame : Client.Frame c) :
    (r.request fields call frame false = (r, none)) ∨
      r.failure = none ∧ frame.wire.Fits ∧ r.request fields call frame false
        = ({ r with sent := r.sent + 1, waiter := some call }, some frame.wire.encoded) := by
  unfold Client.Relay.request
  cases hfailure : r.failure with
  | some failure => exact .inl rfl
  | none =>
    by_cases hfits : frame.wire.Fits
    · refine .inr ⟨rfl, hfits, ?_⟩
      rw [Client.encode_of_fits frame hfits]
      simp [hqueued]
    · refine .inl ?_
      have hnone : frame.encode = none := by
        rw [Client.encode_eq_none]
        unfold Frame.Fits Client.Frame.wire at hfits
        simp only at hfits
        omega
      rw [hnone]
      rfl

/-- What a call leaves of the service: the one before it, where the session is over. -/
theorem Synced.over {before : List Invocation} (h : Synced reader backend Good engine before before s)
    (hover : s.station.world.session.finished = true) (i : Invocation) :
    (served backend engine before).serve backend i = (served backend engine before,
      if i.call = .shutdown then .done else .failed .relayClosed) := by
  have hphase : (served backend engine before).phase = .over := by
    rw [← h.service]
    simp [World.service, hover]
  unfold Service.serve
  rw [hphase]

theorem Linked.invoke (h : Linked reader writer backend Good engine s) (i : Invocation)
    (hstep : s.invoke reader writer i = some t) : Linked reader writer backend Good engine t := by
  unfold Link.invoke at hstep
  split at hstep
  · cases hstep
  rename_i hguard
  rw [not_or] at hguard
  obtain ⟨hopen, hwaiter⟩ := hguard
  cases h with
  | idle hsynced hnone hfailure hdecoder htoHost htoStation hfresh =>
    rcases request_cases reader.toFields hsynced.queued i.call (i.frame writer) with
      hthrown | ⟨-, hfits, hsent⟩
    · rw [hthrown] at hstep
      cases hstep
      exact .idle hsynced hnone hfailure hdecoder htoHost htoStation hfresh
    · rw [hsent] at hstep
      cases hstep
      have hsynced' : Synced reader backend Good engine s.invocations s.invocations
          { s with
            relay := { s.relay with sent := s.relay.sent + 1, waiter := some i.call }
            toStation := s.toStation ++ (i.frame writer).wire.encoded
            invocations := s.invocations ++ [i] } :=
        ⟨hsynced.good, hsynced.service, hsynced.queued, hsynced.count,
          (results_sent i rfl hsynced.count
            { s.relay with sent := s.relay.sent + 1, waiter := some i.call } rfl _).trans
            hsynced.results, hsynced.exit⟩
      rcases hsynced.exit with ⟨hrunning, -⟩ | ⟨hexit, hover⟩
      · refine .asking s.invocations i [] hsynced' rfl rfl hfailure hdecoder htoHost hrunning
          (hfresh hrunning) ?_ (.inl (by decide)) hfits
        simp [htoStation]
      · exact .lost s.invocations i hsynced' rfl rfl hfailure hdecoder htoHost hexit
          (hover.resolve_right hopen)
  | gone hsynced hnone hfailure htoHost hexit =>
    rcases request_cases reader.toFields hsynced.queued i.call (i.frame writer) with
      hthrown | ⟨hlive, -, -⟩
    · rw [hthrown] at hstep
      cases hstep
      exact .gone hsynced hnone hfailure htoHost hexit
    · rw [hfailure] at hlive
      cases hlive
  | asking before i' buffer _ _ hwaits => simp [hwaits] at hwaiter
  | answering before i' reply _ _ hwaits => simp [hwaits] at hwaiter
  | lost before i' _ _ hwaits => simp [hwaits] at hwaiter

section

variable {unrepresentable : Unrepresentable} (hpresentable : Presentable unrepresentable backend Good)

/-- What is asked of the two ends for a call: `jsonEncode` writes its map, and the station reads it as it
was meant. -/
structure Fit (writer : Writer c) (unrepresentable : Unrepresentable) (i : Invocation) : Prop where
  writes : writer.Writes i.payload
  sound : i.Sound unrepresentable

include hpresentable

theorem Linked.stationReads (h : Linked reader writer backend Good engine s)
    (hfit : ∀ i ∈ s.invocations, Fit writer unrepresentable i) (chunk : Chunk)
    (hstep : s.stationReads unrepresentable backend chunk = some t) :
    Linked reader writer backend Good engine t := by
  unfold Link.stationReads at hstep
  split at hstep
  · cases hstep
  rename_i hguard
  rw [not_or, not_not] at hguard
  obtain ⟨hrunning, rest, hrest⟩ := hguard
  have hnonempty : s.toStation ≠ [] := by
    intro hnil
    rw [hnil, List.append_eq_nil_iff] at hrest
    exact chunk.nonempty hrest.1
  have hdrop : s.toStation.drop chunk.data.length = rest := by
    rw [← hrest, List.drop_left]
  cases h with
  | asking before i buffer hsynced hlast hwaits hfailure hdecoder htoHost hexit hstation hcut hshort
      hfits =>
    have hcut' : buffer ++ chunk.data ++ rest = (i.frame writer).wire.encoded := by
      rw [List.append_assoc, hrest, hcut]
    have hworld : s.station = ⟨⟨buffer, .none⟩, s.station.world, s.station.handed⟩ := by
      rw [← hstation]
    by_cases hmore : rest = []
    · rw [hmore, List.append_nil] at hcut'
      have hlive : s.station.world.session.finished = false := by
        rcases hsynced.exit with ⟨-, hlive⟩ | ⟨hsome, -⟩
        · exact hlive
        · rw [hexit] at hsome
          cases hsome
      have hasked := hfit i (by simp [hlast])
      have hserves := World.handle_serves backend unrepresentable s.station.world hlive hasked.writes
        hasked.sound
      have hobeys : World.Obeys unrepresentable (i.frame writer).wire s.station.world
          (s.station.world.handle unrepresentable backend (i.frame writer).wire) :=
        World.handle_obeys backend hlive (i.frame writer).wire
      have hover := hobeys.finished
      have hgood := hpresentable.kept s.station.world (i.frame writer).wire hsynced.good
      obtain ⟨decoder, handed', hturn, hfresh⟩ := Station.turn_whole unrepresentable backend
        s.station.world s.station.handed hfits hcut'
      obtain ⟨⟨calls, reply, hemitted, hreplies, hyields⟩, hservice⟩ := hserves
      rw [hsynced.service] at hyields hservice
      have hwritten := Client.written_of_emitted hemitted
      generalize s.station.world.handle unrepresentable backend (i.frame writer).wire = r at *
      obtain ⟨open', w'⟩ := r
      rw [hworld, hturn] at hstep
      cases hstep
      refine .answering before i reply
        ⟨hgood, ?_, hsynced.queued, hsynced.count, hsynced.results, ?_⟩ hlast hwaits hfailure ?_ ?_ ?_ ?_
        (hpresentable.presented _ _ reply hsynced.good hreplies) hyields
      · rw [hlast, served_concat]
        exact hservice
      · cases open' with
        | true => exact .inl ⟨rfl, by simpa using hover⟩
        | false => exact .inr ⟨rfl, .inl (hover.mp rfl)⟩
      · rw [hdrop, hmore]
      · intro hlive
        cases open' with
        | true => exact hfresh rfl
        | false => cases hlive
      · simp [hdecoder, htoHost, hwritten]
      · rw [hdecoder]
        exact .inl (by decide)
    · rw [hworld, Station.turn_part (short_of_cut hfits hcut' hmore)] at hstep
      cases hstep
      refine .asking before i (buffer ++ chunk.data)
        ⟨hsynced.good, hsynced.service, hsynced.queued, hsynced.count, hsynced.results, ?_⟩ hlast hwaits
        hfailure hdecoder ?_ rfl rfl ?_ (short_of_cut hfits hcut' hmore) hfits
      · rcases hsynced.exit with ⟨-, hlive⟩ | ⟨hsome, -⟩
        · exact .inl ⟨rfl, hlive⟩
        · rw [hexit] at hsome
          cases hsome
      · simp [htoHost, Client.written]
      · simpa [hdrop] using hcut'
  | idle _ _ _ _ _ htoStation => exact absurd htoStation hnonempty
  | answering _ _ _ _ _ _ _ htoStation => exact absurd htoStation hnonempty
  | lost _ _ _ _ _ _ _ _ hexit => simp [hexit] at hrunning
  | gone _ _ _ _ hexit => simp [hexit] at hrunning

end

theorem not_short_whole {wire : Frame} {buffer : Bytes} (hfits : wire.Fits)
    (h : buffer = wire.encoded) : ¬ Short buffer := by
  have hlong := not_short_encoded wire hfits []
  rwa [List.append_nil, ← h] at hlong

theorem Synced.ended {done returned : List Invocation}
    (h : Synced reader backend Good engine done returned s) (hclosed : s.closed = true) :
    Synced reader backend Good engine done returned { s with exit := some 0 } :=
  ⟨h.good, h.service, h.queued, h.count, h.results, .inr ⟨rfl, .inr hclosed⟩⟩

theorem Linked.stationEnds (h : Linked reader writer backend Good engine s)
    (hstep : s.stationEnds = some t) : Linked reader writer backend Good engine t := by
  unfold Link.stationEnds at hstep
  split at hstep
  · cases hstep
  rename_i hguard
  simp only [not_or, Bool.not_eq_false, not_not] at hguard
  obtain ⟨hrunning, hclosed, htoStation⟩ := hguard
  cases hstep
  cases h with
  | idle hsynced hwaits hfailure hdecoder htoHost _ _ =>
    exact .idle (hsynced.ended hclosed) hwaits hfailure hdecoder htoHost htoStation nofun
  | asking before i buffer _ _ _ _ _ _ _ _ hcut hshort hfits =>
    rw [htoStation, List.append_nil] at hcut
    exact absurd hshort (not_short_whole hfits hcut)
  | answering before i reply hsynced hlast hwaits hfailure _ _ hcut hshort hpresented hyields =>
    exact .answering before i reply (hsynced.ended hclosed) hlast hwaits hfailure htoStation nofun
      hcut hshort hpresented hyields
  | lost _ _ _ _ _ _ _ _ hexit => simp [hexit] at hrunning
  | gone _ _ _ _ hexit => simp [hexit] at hrunning

theorem Linked.dispose (h : Linked reader writer backend Good engine s)
    (hstep : s.dispose = some t) : Linked reader writer backend Good engine t := by
  unfold Link.dispose at hstep
  split at hstep
  · cases hstep
  cases hstep
  have hkept : ∀ {done returned : List Invocation},
      Synced reader backend Good engine done returned s →
      Synced reader backend Good engine done returned { s with closed := true } := by
    intro done returned h
    refine ⟨h.good, h.service, h.queued, h.count, h.results, ?_⟩
    exact h.exit.imp_right fun ⟨hexit, hover⟩ => ⟨hexit, .inr rfl⟩
  cases h with
  | idle hsynced hwaits hfailure hdecoder htoHost htoStation hfresh =>
    exact .idle (hkept hsynced) hwaits hfailure hdecoder htoHost htoStation hfresh
  | asking before i buffer hsynced hlast hwaits hfailure hdecoder htoHost hexit hstation hcut hshort
      hfits =>
    exact .asking before i buffer (hkept hsynced) hlast hwaits hfailure hdecoder htoHost hexit hstation
      hcut hshort hfits
  | answering before i reply hsynced hlast hwaits hfailure htoStation hfresh hcut hshort hpresented
      hyields =>
    exact .answering before i reply (hkept hsynced) hlast hwaits hfailure htoStation hfresh hcut
      hshort hpresented hyields
  | lost before i hsynced hlast hwaits hfailure hdecoder htoHost hexit hover =>
    exact .lost before i (hkept hsynced) hlast hwaits hfailure hdecoder htoHost hexit hover
  | gone hsynced hwaits hfailure htoHost hexit =>
    exact .gone (hkept hsynced) hwaits hfailure htoHost hexit

/-- A call returns: its outcome is the next, and it gives the result of the service. -/
theorem Synced.return {before : List Invocation} {i : Invocation} {done : List Invocation}
    {outcome : Client.Outcome c} (h : Synced reader backend Good engine done before s)
    (hlast : s.invocations = before ++ [i])
    (hresult : outcome.result reader i.call = ((served backend engine before).serve backend i).2)
    (relay : Client.Relay c) (hqueued : relay.queued = s.relay.queued)
    (houtcomes : relay.outcomes = s.relay.outcomes ++ [outcome]) (toHost : Bytes) :
    Synced reader backend Good engine done s.invocations { s with relay, toHost } := by
  refine ⟨h.good, h.service, hqueued.trans h.queued, ?_, ?_, h.exit⟩
  · simp [houtcomes, h.count, hlast]
  · have hreturned : Link.results reader { s with relay, toHost }
        = s.results reader ++ [outcome.result reader i.call] :=
      results_returned hlast h.count rfl houtcomes
    rw [hreturned, h.results, hresult, hlast, results_concat]

theorem Linked.hostReads (hdocumented : reader.Documented)
    (h : Linked reader writer backend Good engine s) (count : Nat)
    (hstep : s.hostReads reader count = some t) : Linked reader writer backend Good engine t := by
  unfold Link.hostReads at hstep
  split at hstep
  · cases hstep
  rename_i hguard
  simp only [not_or, not_lt] at hguard
  obtain ⟨-, hpos, hle⟩ := hguard
  have hnonempty : s.toHost ≠ [] := by
    intro hnil
    rw [hnil] at hle
    exact hpos (Nat.le_zero.mp hle)
  cases hstep
  cases h with
  | answering before i reply hsynced hlast hwaits hfailure htoStation hfresh hcut hshort hpresented
      hyields =>
    have hcut' : s.relay.decoder.buffer ++ s.toHost.take count ++ s.toHost.drop count
        = reply.frame.encoded := by
      rw [List.append_assoc, List.take_append_drop, hcut]
    by_cases hmore : s.toHost.drop count = []
    · rw [hmore, List.append_nil] at hcut'
      obtain ⟨response, hreads, hfinds⟩ := hpresented.reads hdocumented
      have hadd := Client.add_live (.cons hreads .nil) (hcut' ▸ splits_one hpresented.fits)
      have hrelay : s.relay.onBytes reader.toFields (s.toHost.take count)
          = { s.relay with decoder := ⟨[]⟩, arrived := s.relay.arrived + 1 }.complete reader.toFields
              i.call (s.relay.arrived + 1) response := by
        unfold Client.Relay.onBytes
        rw [show s.relay.decoder = ⟨s.relay.decoder.buffer⟩ from rfl, hadd]
        simp only [List.foldl_cons, List.foldl_nil, Client.Relay.deliver, hwaits]
      have hresult := hyields.result hpresented hreads.1 hfinds (s.relay.arrived + 1)
      have hreturned := hsynced.return hlast hresult
        (s.relay.onBytes reader.toFields (s.toHost.take count)) (by rw [hrelay]; rfl)
        (by rw [hrelay]; rfl) (s.toHost.drop count)
      refine .idle hreturned ?_ ?_ ?_ hmore htoStation hfresh
      · rw [hrelay]
        rfl
      · rw [hrelay]
        exact hfailure
      · rw [hrelay]
        rfl
    · have hpart := short_of_cut hpresented.fits hcut' hmore
      have hadd := Client.add_live (c := c) .nil (splits_short hpart)
      have hrelay : s.relay.onBytes reader.toFields (s.toHost.take count)
          = { s.relay with decoder := ⟨s.relay.decoder.buffer ++ s.toHost.take count⟩ } := by
        unfold Client.Relay.onBytes
        rw [show s.relay.decoder = ⟨s.relay.decoder.buffer⟩ from rfl, hadd]
        rfl
      rw [hrelay]
      exact .answering before i reply
        ⟨hsynced.good, hsynced.service, hsynced.queued, hsynced.count, hsynced.results, hsynced.exit⟩
        hlast hwaits hfailure htoStation hfresh hcut' hpart hpresented hyields
  | idle _ _ _ _ htoHost => exact absurd htoHost hnonempty
  | asking _ _ _ _ _ _ _ _ htoHost => exact absurd htoHost hnonempty
  | lost _ _ _ _ _ _ _ htoHost => exact absurd htoHost hnonempty
  | gone _ _ _ htoHost => exact absurd htoHost hnonempty

theorem Linked.hostDone (h : Linked reader writer backend Good engine s)
    (hstep : s.hostDone = some t) : Linked reader writer backend Good engine t := by
  unfold Link.hostDone at hstep
  split at hstep
  · cases hstep
  rename_i hguard
  simp only [not_or, not_not] at hguard
  obtain ⟨hopen, hexit, htoHost, hfailure⟩ := hguard
  have hlive : s.relay.failure = none := by simpa using hfailure
  cases hstep
  cases h with
  | idle hsynced hwaits _ _ _ _ _ =>
    have hrelay : s.relay.fail .relayClosed = { s.relay with failure := some .relayClosed } := by
      unfold Client.Relay.fail
      simp only [hlive, hwaits]
    have hcode : s.exit = some 0 := by
      rcases hsynced.exit with ⟨hnone, -⟩ | ⟨hcode, -⟩
      · exact absurd hnone hexit
      · exact hcode
    rw [hrelay]
    exact .gone
      ⟨hsynced.good, hsynced.service, hsynced.queued, hsynced.count, hsynced.results, hsynced.exit⟩
      hwaits rfl htoHost hcode
  | lost before i hsynced hlast hwaits _ _ _ hcode hover =>
    have hrelay : s.relay.fail .relayClosed
        = { s.relay with failure := some .relayClosed }.settle (.failed .relayClosed) := by
      unfold Client.Relay.fail
      simp only [hlive, hwaits]
    have hserved := hsynced.over hover i
    have hresult : (Client.Outcome.failed .relayClosed : Client.Outcome c).result reader i.call
        = ((served backend engine before).serve backend i).2 := by
      rw [hserved]
      rfl
    have hreturned := hsynced.return hlast hresult (s.relay.fail .relayClosed) (by rw [hrelay]; rfl)
      (by rw [hrelay]; rfl) s.toHost
    have hsame : served backend engine s.invocations = served backend engine before := by
      rw [hlast, served_concat, hserved]
    refine .gone ⟨hreturned.good, ?_, hreturned.queued, hreturned.count, hreturned.results,
      hreturned.exit⟩ ?_ ?_ htoHost hcode
    · exact hreturned.service.trans hsame.symm
    · rw [hrelay]
      rfl
    · rw [hrelay]
      rfl
  | asking _ _ _ _ _ _ _ _ _ hrunning => exact absurd hrunning hexit
  | answering _ _ reply _ _ _ _ _ _ hcut hshort hpresented _ =>
    rw [htoHost, List.append_nil] at hcut
    exact absurd hshort (not_short_whole hpresented.fits hcut)
  | gone _ _ hfailed => simp [hfailed] at hfailure

/-! ## Every run -/

theorem start_linked (transcript : Bool) (hgood : Good (.fresh engine transcript)) :
    Linked reader writer backend Good engine (start engine transcript) :=
  .idle ⟨hgood, rfl, rfl, rfl, rfl, .inl ⟨rfl, rfl⟩⟩ rfl rfl rfl rfl rfl fun _ => rfl

section

variable {unrepresentable : Unrepresentable}

theorem step_linked (hpresentable : Presentable unrepresentable backend Good)
    (hdocumented : reader.Documented) (h : Linked reader writer backend Good engine s)
    (hfit : ∀ i ∈ s.invocations, Fit writer unrepresentable i) (move : Move) (hmove : move ≠ .timeout)
    (hstep : s.step reader writer unrepresentable backend move = some t) :
    Linked reader writer backend Good engine t := by
  cases move with
  | invoke i => exact h.invoke i hstep
  | stationReads chunk => exact h.stationReads hpresentable hfit chunk hstep
  | stationEnds => exact h.stationEnds hstep
  | hostReads count => exact h.hostReads hdocumented count hstep
  | hostDone => exact h.hostDone hstep
  | timeout => exact absurd rfl hmove
  | dispose => exact h.dispose hstep

/-- Only a call is added to the calls. -/
theorem step_invocations (move : Move)
    (hstep : s.step reader writer unrepresentable backend move = some t) :
    t.invocations = s.invocations ∨ ∃ i, move = .invoke i ∧ t.invocations = s.invocations ++ [i] := by
  cases move with
  | invoke i =>
    simp only [step, Link.invoke] at hstep
    split at hstep
    · cases hstep
    · split at hstep
      · cases hstep
        exact .inl rfl
      · cases hstep
        exact .inr ⟨i, rfl, rfl⟩
  | stationReads chunk =>
    simp only [step, Link.stationReads] at hstep
    split at hstep
    · cases hstep
    · cases hstep
      exact .inl rfl
  | stationEnds =>
    simp only [step, Link.stationEnds] at hstep
    split at hstep <;> cases hstep
    exact .inl rfl
  | hostReads count =>
    simp only [step, Link.hostReads] at hstep
    split at hstep <;> cases hstep
    exact .inl rfl
  | hostDone =>
    simp only [step, Link.hostDone] at hstep
    split at hstep <;> cases hstep
    exact .inl rfl
  | timeout =>
    simp only [step, Link.timeout] at hstep
    split at hstep <;> cases hstep
    exact .inl rfl
  | dispose =>
    simp only [step, Link.dispose] at hstep
    split at hstep <;> cases hstep
    exact .inl rfl

/-- A run in which no timer fires, of calls that both ends can take: none is nested deeper than the
station reads, a handle is a number that a double has, and the station narrows no revision to 1 that is
another. -/
structure Run (reader : Reader c) (writer : Writer c) (unrepresentable : Unrepresentable)
    (backend : EngineBackend σ) (moves : List Move) (s t : Link c σ) : Prop where
  steps : moves.foldlM (step reader writer unrepresentable backend) s = some t
  untimed : .timeout ∉ moves
  fit : ∀ i, .invoke i ∈ moves → Fit writer unrepresentable i

theorem Run.linked {moves : List Move} (hrun : Run reader writer unrepresentable backend moves s t)
    (hpresentable : Presentable unrepresentable backend Good) (hdocumented : reader.Documented)
    (h : Linked reader writer backend Good engine s)
    (hfit : ∀ i ∈ s.invocations, Fit writer unrepresentable i) :
    Linked reader writer backend Good engine t ∧ ∀ i ∈ t.invocations, Fit writer unrepresentable i := by
  let Inv := fun s => Linked reader writer backend Good engine s ∧
    ∀ i ∈ s.invocations, Fit writer unrepresentable i
  refine @Runs.run_invariant _ _ _ Inv _ _ _ ?_ hrun.steps ⟨h, hfit⟩
  rintro s move t hmem ⟨hlinked, hfit⟩ hstep
  have hmove : move ≠ .timeout := by
    rintro rfl
    exact hrun.untimed hmem
  refine ⟨step_linked hpresentable hdocumented hlinked hfit move hmove hstep, ?_⟩
  rcases step_invocations move hstep with hsame | ⟨i, rfl, hadded⟩
  · rw [hsame]
    exact hfit
  · rw [hadded]
    simpa [or_imp, forall_and] using ⟨hfit, hrun.fit i hmem⟩

/-! ## The station alone -/

/-- The station reads, or finds its end, or is not touched. -/
theorem station_cases (move : Move)
    (hstep : s.step reader writer unrepresentable backend move = some t) :
    (∃ chunk, move = .stationReads chunk ∧ s.exit = none ∧
      s.station.turn unrepresentable backend chunk = (t.station, t.exit)) ∨
    (move = .stationEnds ∧ s.exit = none ∧ t.station = s.station ∧ t.exit = some 0) ∨
    move.chunk? = none ∧ t.station = s.station ∧ t.exit = s.exit := by
  cases move with
  | invoke i =>
    simp only [step, Link.invoke] at hstep
    split at hstep
    · cases hstep
    · split at hstep <;> cases hstep <;> exact .inr (.inr ⟨rfl, rfl, rfl⟩)
  | stationReads chunk =>
    simp only [step, Link.stationReads] at hstep
    split at hstep <;> cases hstep
    rename_i hguard
    exact .inl ⟨chunk, rfl, by simpa using (not_or.mp hguard).1, rfl⟩
  | stationEnds =>
    simp only [step, Link.stationEnds] at hstep
    split at hstep <;> cases hstep
    rename_i hguard
    exact .inr (.inl ⟨rfl, by simpa using (not_or.mp hguard).1, rfl, rfl⟩)
  | hostReads count =>
    simp only [step, Link.hostReads] at hstep
    split at hstep <;> cases hstep
    exact .inr (.inr ⟨rfl, rfl, rfl⟩)
  | hostDone =>
    simp only [step, Link.hostDone] at hstep
    split at hstep <;> cases hstep
    exact .inr (.inr ⟨rfl, rfl, rfl⟩)
  | timeout =>
    simp only [step, Link.timeout] at hstep
    split at hstep <;> cases hstep
    exact .inr (.inr ⟨rfl, rfl, rfl⟩)
  | dispose =>
    simp only [step, Link.dispose] at hstep
    split at hstep <;> cases hstep
    exact .inr (.inr ⟨rfl, rfl, rfl⟩)

/-- A station that has returned does nothing more. -/
theorem run_exited {moves : List Move} (hexit : s.exit.isSome = true)
    (hrun : moves.foldlM (step reader writer unrepresentable backend) s = some t) :
    t.station = s.station ∧ t.exit = s.exit ∧ moves.filterMap Move.chunk? = [] := by
  induction moves generalizing s with
  | nil =>
    obtain rfl : s = t := by simpa using hrun
    exact ⟨rfl, rfl, rfl⟩
  | cons move rest ih =>
    obtain ⟨u, hu, hrest⟩ := Runs.run_cons.mp hrun
    rcases station_cases move hu with ⟨_, -, hnone, -⟩ | ⟨-, hnone, -⟩ | ⟨hchunk, hstation, hsame⟩
    · simp [hnone] at hexit
    · simp [hnone] at hexit
    · obtain ⟨hstation', hsame', hchunks⟩ := ih (by rw [hsame]; exact hexit) hrest
      refine ⟨hstation'.trans hstation, hsame'.trans hsame, ?_⟩
      rw [List.filterMap_cons, hchunk]
      exact hchunks

/-- The station of a link that has returned has gone through its loop over the reads. -/
theorem run_loop {moves : List Move} {code : Nat} (hrunning : s.exit = none)
    (hrun : moves.foldlM (step reader writer unrepresentable backend) s = some t)
    (hexit : t.exit = some code) :
    Station.loop unrepresentable backend (moves.filterMap Move.chunk?) .closed s.station
      = (t.station, code) := by
  induction moves generalizing s with
  | nil =>
    obtain rfl : s = t := by simpa using hrun
    rw [hrunning] at hexit
    cases hexit
  | cons move rest ih =>
    obtain ⟨u, hu, hrest⟩ := Runs.run_cons.mp hrun
    rcases station_cases move hu with ⟨chunk, rfl, -, hturn⟩ | ⟨rfl, -, hstation, hcode⟩ |
      ⟨hchunk, hstation, hsame⟩
    · rw [List.filterMap_cons, Move.chunk?, Station.loop_cons, hturn]
      cases hcode : u.exit with
      | none => exact ih hcode hrest
      | some code' =>
        obtain ⟨hstation, hsame, -⟩ := run_exited (by rw [hcode]; rfl) hrest
        rw [hsame, hcode] at hexit
        cases hexit
        rw [hstation]
        rfl
    · obtain ⟨hstation', hsame, hchunks⟩ := run_exited (by rw [hcode]; rfl) hrest
      rw [hsame, hcode] at hexit
      cases hexit
      rw [List.filterMap_cons, show Move.stationEnds.chunk? = none from rfl, hchunks, hstation',
        hstation]
      rfl
    · rw [List.filterMap_cons, hchunk, ← hstation]
      exact ih (hsame.trans hrunning) hrest

/-! ## What a host sees -/

/-- The calls that have returned have returned what the service returns, all but the one that is
awaited; with none awaited the engine is where the service leaves it. -/
structure Transparent (reader : Reader c) (backend : EngineBackend σ) (engine : σ) (s : Link c σ) :
    Prop where
  returned : s.results reader <+: Service.results backend (.start engine) s.invocations
  awaited : s.invocations.length ≤ (s.results reader).length + if s.relay.waiter.isSome then 1 else 0
  engine : s.relay.waiter = none → s.station.world.service = served backend engine s.invocations
  failure : s.relay.failure = none ∨ s.relay.failure = some .relayClosed
  exit : s.exit = none ∨ s.exit = some 0

theorem results_length (h : s.relay.outcomes.length ≤ s.invocations.length) :
    (s.results reader).length = s.relay.outcomes.length := by
  unfold results
  rw [List.length_zipWith, Nat.min_eq_right h]

theorem Linked.transparent (h : Linked reader writer backend Good engine s) :
    Transparent reader backend engine s := by
  have hexit : ∀ {done returned : List Invocation},
      Synced reader backend Good engine done returned s → s.exit = none ∨ s.exit = some 0 :=
    fun h => h.exit.imp (fun h => h.1) fun h => h.1
  have hbefore : ∀ {before done : List Invocation} {i : Invocation}, s.invocations = before ++ [i] →
      s.relay.waiter = some i.call → Synced reader backend Good engine done before s →
      s.relay.failure = none → Transparent reader backend engine s := by
    intro before done i hlast hwaits hsynced hfailure
    refine ⟨?_, ?_, fun hnone => ?_, .inl hfailure, hexit hsynced⟩
    · rw [hsynced.results, hlast, results_concat]
      exact List.prefix_append ..
    · rw [results_length (by simp [hsynced.count, hlast]), hsynced.count, hlast, hwaits]
      simp
    · rw [hwaits] at hnone
      cases hnone
  have hall : ∀ failure, s.relay.failure = failure → (failure = none ∨ failure = some .relayClosed) →
      Synced reader backend Good engine s.invocations s.invocations s →
      Transparent reader backend engine s := by
    intro failure hfailure hkind hsynced
    refine ⟨by rw [hsynced.results], ?_, fun _ => hsynced.service, hfailure ▸ hkind, hexit hsynced⟩
    rw [results_length (by rw [hsynced.count]), hsynced.count]
    omega
  cases h with
  | idle hsynced _ hfailure => exact hall none hfailure (.inl rfl) hsynced
  | gone hsynced _ hfailure => exact hall _ hfailure (.inr rfl) hsynced
  | asking before i buffer hsynced hlast hwaits hfailure => exact hbefore hlast hwaits hsynced hfailure
  | answering before i reply hsynced hlast hwaits hfailure =>
    exact hbefore hlast hwaits hsynced hfailure
  | lost before i hsynced hlast hwaits hfailure => exact hbefore hlast hwaits hsynced hfailure

/-- **The link is transparent.** In every run of calls that both ends can take, each awaited before the
next, of reads on both sides and of ends of the connection, over an engine whose replies can be read,
each call that has returned has returned what the service returns, in its order; at most one is awaited;
the engine has been asked what the service asks it, and the station that has returned is the one that
its loop leaves. -/
theorem run_transparent (hpresentable : Presentable unrepresentable backend Good)
    (hdocumented : reader.Documented) (transcript : Bool) (hgood : Good (.fresh engine transcript))
    {moves : List Move}
    (hrun : Run reader writer unrepresentable backend moves (start engine transcript) t) :
    Transparent reader backend engine t ∧ ∀ code, t.exit = some code →
      Station.loop unrepresentable backend (moves.filterMap Move.chunk?) .closed
        (.fresh engine transcript) = (t.station, code) := by
  have hlinked := hrun.linked hpresentable hdocumented (start_linked transcript hgood) (by simp [start])
  exact ⟨hlinked.1.transparent, fun code hexit => run_loop rfl hrun.steps hexit⟩

end

def helloBytes : Bytes := encodeFrame .hello (ascii "\x7b\"revisions\":[1]\x7d")

/-- An offer that the station reads in two pieces. -/
def helloMoves : List Move :=
  [.invoke (.negotiate {1}), .stationReads ⟨helloBytes.take 7, by decide, by decide⟩,
    .stationReads ⟨helloBytes.drop 7, by decide, by decide⟩, .hostReads 33]

def farewellMoves : List Move :=
  helloMoves ++ [.invoke .shutdown, .stationReads ⟨encodeFrame .bye [], by decide, by decide⟩,
      .hostReads 5,
      .hostDone]

theorem hello_fit : Fit asciiWriter (fun _ => Int64.minValue) (.negotiate {1}) := by
  have hpayload : (Invocation.negotiate {1}).payload
      = [(ascii "revisions", .list ([1].map .int))] := by
    simp [Invocation.payload, Invocation.ascending]
  refine ⟨?_, ?_, ?_, ?_⟩
  · rw [hpayload]
    exact asciiWriter_writes_hello (by decide +kernel)
  · rw [hpayload]
    decide
  · intro revisions h
    cases h
    exact .inl (by simp)
  · simp [hpayload]

theorem farewell_fit : Fit asciiWriter (fun _ => Int64.minValue) .shutdown :=
  ⟨asciiWriter_writes_nil, by decide, nofun, by simp [Invocation.payload]⟩

theorem run_transparent_farewell : ∃ t : Link Client.asciiConvert Unit,
    t.results asciiReader = [.revision 1, .done] ∧ Transparent asciiReader nullBackend () t ∧
      Station.loop (fun _ => Int64.minValue) nullBackend (farewellMoves.filterMap Move.chunk?) .closed
        (.fresh () false) = (t.station, 0) := by
  have hends : (farewellMoves.foldlM
      (step asciiReader asciiWriter (fun _ => Int64.minValue) nullBackend) (start () false)).any
        (fun t => t.exit = some 0 ∧ t.results asciiReader = [.revision 1, .done]) = true := by
    decide +kernel
  obtain ⟨t, hsteps, hend⟩ := (Option.any_eq_true _ _).mp hends
  have hend' : t.exit = some 0 ∧ t.results asciiReader = [.revision 1, .done] := by simpa using hend
  have hrun : Run asciiReader asciiWriter (fun _ => Int64.minValue) nullBackend farewellMoves
      (start () false) t := by
    refine ⟨hsteps, by simp [farewellMoves, helloMoves], fun i hi => ?_⟩
    obtain rfl | rfl : i = .negotiate {1} ∨ i = .shutdown := by
      simpa [farewellMoves, helloMoves] using hi
    · exact hello_fit
    · exact farewell_fit
  obtain ⟨htransparent, hloop⟩ := run_transparent (null_presentable _) asciiReader_documented false
    trivial hrun
  exact ⟨t, hend'.2, htransparent, hloop 0 hend'.1⟩

end Link

end OakBarrels
