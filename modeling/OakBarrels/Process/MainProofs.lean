import OakBarrels.Link.System
import OakBarrels.Process.Main
import OakBarrels.StationLaws

/-!
# What the process holds and passes on

One spec for each function of `main`: what is open is what the live transports have, and what has come
in and gone out is what the station read and answered.
-/

open Octets Binary64

namespace OakBarrels.Process

open Json Protocol
open Dialogue (Turned spec_pure spec_loop)

/-! ## What the transports hold -/

namespace UnixSocketTransport

/-- It has its one connection and does not listen. -/
def IsConnected (t : UnixSocketTransport) : Prop :=
  ∃ fd, t = ⟨none, some fd, t.path⟩ ∧ t.path ≠ []

theorem IsConnected.path_ne {t : UnixSocketTransport} (h : t.IsConnected) : t.path ≠ [] := by
  obtain ⟨-, -, hpath⟩ := h
  exact hpath

theorem IsConnected.card {t : UnixSocketTransport} (h : t.IsConnected) : t.descriptors.card = 1 := by
  obtain ⟨fd, ht, -⟩ := h
  rw [ht]
  rfl

end UnixSocketTransport

/-- What a read has brought, what a write has given, and what was loaded. -/
def Ledger.traffic (ledger : Ledger) : List (Option Bytes) × List Bytes × Bytes :=
  (ledger.loaded, ledger.read, ledger.sent)

/-- What is open and which files are there is what these transports have, the lost ones of workers that
would not stop among them. -/
structure Owned (live lost : Multiset UnixSocketTransport) (ledger : Ledger) : Prop where
  connected : ∀ t ∈ live + lost, t.IsConnected
  opened : ledger.opened = (live + lost).bind (·.descriptors)
  bound : ledger.bound = (live + lost).map (·.path)
  stuck : ledger.stuck = lost.card

namespace Owned

variable {live lost : Multiset UnixSocketTransport} {t : UnixSocketTransport} {ledger after : Ledger}

theorem fresh : Owned 0 0 .fresh := ⟨by simp, rfl, rfl, rfl⟩

theorem of_live {live' : Multiset UnixSocketTransport} (h : Owned live lost ledger) (heq : live' = live) :
    Owned live' lost ledger := by
  rwa [heq]

theorem moved (h : Owned live lost ledger) (hopened : after.opened = ledger.opened)
    (hbound : after.bound = ledger.bound) (hstuck : after.stuck = ledger.stuck) :
    Owned live lost after :=
  ⟨h.connected, hopened.trans h.opened, hbound.trans h.bound, hstuck.trans h.stuck⟩

/-- Each transport has one thing open. -/
theorem card (h : Owned live lost ledger) : ledger.opened.card = live.card + lost.card := by
  have hone : (live + lost).map (fun t => t.descriptors.card) = (live + lost).map fun _ => 1 :=
    Multiset.map_congr rfl fun t ht => (h.connected t ht).card
  rw [h.opened, Multiset.card_bind]
  change ((live + lost).map fun t => t.descriptors.card).sum = _
  rw [hone, Multiset.map_const', Multiset.sum_replicate, Multiset.card_add, smul_eq_mul, mul_one]

/-- What a live transport has is open. -/
theorem opened_mem (h : Owned live lost ledger) (ht : t ∈ live) {fd : Nat} (hfd : fd ∈ t.descriptors) :
    fd ∈ ledger.opened := by
  rw [h.opened, Multiset.mem_bind]
  exact ⟨t, Multiset.mem_add.mpr (.inl ht), hfd⟩

end Owned

section

variable {live lost : Multiset UnixSocketTransport} {t : UnixSocketTransport} {ledger : Ledger}

/-- What is left after a transport is gone: what it had is given back. -/
theorem destroy_owned (h : Owned (t ::ₘ live) lost ledger) : Spec t.destroy ledger fun _ after =>
    Owned live lost after ∧ after.traffic = ledger.traffic := by
  have hopened := h.opened
  have hbound := h.bound
  rw [Multiset.cons_add, Multiset.cons_bind] at hopened
  rw [Multiset.cons_add, Multiset.map_cons] at hbound
  have ht := h.connected t (by simp)
  refine (UnixSocketTransport.destroy_spec ht.path_ne hopened hbound).mono ?_
  rintro _ _ rfl
  refine ⟨⟨fun t' ht' => h.connected t' ?_, rfl, rfl, h.stuck⟩, rfl⟩
  rw [Multiset.cons_add]
  exact Multiset.mem_cons_of_mem ht'

theorem destroyIf_owned {t? : Option UnixSocketTransport}
    (h : Owned ((t?.toList : Multiset UnixSocketTransport) + live) lost ledger) :
    Spec (destroyIf t?) ledger fun _ after =>
      Owned live lost after ∧ after.traffic = ledger.traffic := by
  cases t? with
  | none => exact spec_pure ⟨h.of_live (by simp), rfl⟩
  | some t => exact destroy_owned (h.of_live (by simp))

/-- A worker that would not stop keeps its transport. -/
def Disposed (t : UnixSocketTransport) (live lost : Multiset UnixSocketTransport) (ledger after : Ledger) :
    Prop :=
  (∃ lost' ≤ t ::ₘ lost, Owned live lost' after) ∧ after.traffic = ledger.traffic

theorem disposeBulk_owned (h : Owned (t ::ₘ live) lost ledger) :
    Spec (disposeBulk t) ledger fun _ after => Disposed t live lost ledger after := by
  refine .bind (spec_call trivial fun stopped => ?_)
  cases stopped with
  | true =>
    refine (destroy_owned h).mono ?_
    rintro _ after ⟨howned, htraffic⟩
    exact ⟨⟨lost, Multiset.le_cons_self lost t, howned⟩, htraffic⟩
  | false =>
    refine spec_pure ⟨⟨t ::ₘ lost, le_rfl, ?_⟩, rfl⟩
    have hmove : t ::ₘ live + lost = live + t ::ₘ lost := by
      rw [Multiset.cons_add, Multiset.add_cons]
    exact ⟨hmove ▸ h.connected, hmove ▸ h.opened, hmove ▸ h.bound, by
      rw [Multiset.card_cons, ← h.stuck]
      rfl⟩

/-! ## The endpoints -/

/-- An endpoint more, or everything as it was. -/
def Endpoint (name : Bytes) (live : Multiset UnixSocketTransport) (ledger : Ledger) :
    Except Bytes UnixSocketTransport → Ledger → Prop
  | .error _, after => Owned live 0 after ∧ after.traffic = ledger.traffic
  | .ok t, after => t.path = name ∧ Owned (t ::ₘ live) 0 after ∧ after.traffic = ledger.traffic

theorem openEndpoint_owned (h : Owned live 0 ledger) (sunPath : Nat) (name : Bytes) :
    Spec (openEndpoint sunPath name) ledger (Endpoint name live ledger) := by
  refine .bind ((UnixSocketTransport.prepare_spec sunPath name ledger).mono ?_)
  intro r after hprepared
  cases r with
  | error e =>
    change after = ledger at hprepared
    subst hprepared
    exact spec_pure ⟨h, rfl⟩
  | ok endpoint =>
    obtain ⟨hname, fd, rfl, rfl⟩ := hprepared
    refine .bind ((UnixSocketTransport.acceptOne_spec rfl (Multiset.mem_cons_self _ _)
      (Multiset.mem_cons_self _ _)).mono ?_)
    intro r after haccepted
    cases r with
    | error e =>
      change after = _ at haccepted
      subst haccepted
      have hopened : fd ::ₘ ledger.opened = {fd} + ledger.opened :=
        (Multiset.singleton_add fd ledger.opened).symm
      refine .bind ((UnixSocketTransport.destroy_spec hname hopened rfl).mono ?_)
      rintro _ _ rfl
      exact spec_pure ⟨h.moved rfl rfl rfl, rfl⟩
    | ok t =>
      obtain ⟨connection, rfl, rfl⟩ := haccepted
      refine spec_pure ⟨rfl, ⟨?_, ?_, ?_, h.stuck⟩, rfl⟩
      · intro t ht
        rw [Multiset.cons_add, Multiset.mem_cons] at ht
        rcases ht with rfl | ht
        · exact ⟨connection, rfl, hname⟩
        · exact h.connected t ht
      · rw [Multiset.cons_add, Multiset.cons_bind, ← h.opened]
        change (connection ::ₘ fd ::ₘ ledger.opened).erase fd = _
        rw [Multiset.cons_swap, Multiset.erase_cons_head]
        exact (Multiset.singleton_add connection ledger.opened).symm
      · rw [Multiset.cons_add, Multiset.map_cons, ← h.bound]

end

/-! ## The session -/

/-- What the transport of the session has. -/
def ControlTransport.owned : ControlTransport → Multiset UnixSocketTransport
  | .stdio => 0
  | .unixSocket t => {t}

theorem ControlTransport.ready {transport : ControlTransport} {live lost : Multiset UnixSocketTransport}
    {ledger : Ledger} (h : Owned live lost ledger) (howned : transport.owned ≤ live) :
    transport.Ready ledger := by
  cases transport with
  | stdio => trivial
  | unixSocket t =>
    have ht : t ∈ live := Multiset.mem_of_le howned (Multiset.mem_singleton_self t)
    obtain ⟨fd, heq, hpath⟩ := h.connected t (Multiset.mem_add.mpr (.inl ht))
    refine ⟨fd, heq, hpath, h.opened_mem ht ?_⟩
    rw [heq]
    exact Multiset.mem_singleton_self fd

/-- The frames given to the transport, and what each write came to. -/
theorem writeFrames_spec {transport : ControlTransport} {live lost : Multiset UnixSocketTransport}
    (howned : transport.owned ≤ live) (frames : List Bytes) {ledger : Ledger}
    (h : Owned live lost ledger) : Spec (writeFrames transport frames) ledger fun _ after =>
      ∃ writes : List Write, writes.map (·.bytes) = frames ∧ after = ledger.gave (received writes) := by
  induction frames generalizing ledger with
  | nil => exact spec_pure ⟨[], rfl, ledger.gave_nil.symm⟩
  | cons frame rest ih =>
    refine .bind ((ControlTransport.write_spec (ControlTransport.ready h howned) frame).mono ?_)
    rintro ok _ ⟨outcome, -, rfl⟩
    have hgiven : Owned live lost (ledger.gave outcome.delivered) := h.moved rfl rfl rfl
    refine (ih hgiven).mono ?_
    rintro _ _ ⟨writes, hwrites, rfl⟩
    refine ⟨⟨frame, outcome⟩ :: writes, by simp [hwrites], ?_⟩
    rw [Ledger.gave_gave]
    rfl

/-- One transport at most, and it is the one of this name. -/
def Alone (name : Bytes) (ts : Multiset UnixSocketTransport) : Prop :=
  ts.card ≤ 1 ∧ ∀ t ∈ ts, t.path = name

theorem Alone.of_le {name : Bytes} {ts ts' : Multiset UnixSocketTransport} (h : Alone name ts)
    (hle : ts' ≤ ts) : Alone name ts' :=
  ⟨(Multiset.card_le_card hle).trans h.1, fun t ht => h.2 t (Multiset.mem_of_le hle ht)⟩

theorem Alone.nil (name : Bytes) : Alone name 0 := ⟨Nat.zero_le 1, fun _ h => by simp at h⟩

section

variable {σ : Type}

/-- The state of a run of the session: who has what, that the audio endpoint is the only thing that can
have been lost, and that what came in and went out is the station's. -/
structure Course (bulkName : Bytes) (live : Multiset UnixSocketTransport) (loaded : List (Option Bytes))
    (read : List Bytes) (s : Serving σ) (lost : Multiset UnixSocketTransport) (writes : List Write)
    (ledger : Ledger) : Prop where
  owned : Owned ((s.audio.toList : Multiset UnixSocketTransport) + live) lost ledger
  once : Alone bulkName (s.audio.toList + lost)
  loaded : ledger.loaded = loaded
  read : ledger.read = read
  replied : writes.map (·.bytes) = s.station.world.replies
  sent : ledger.sent = received writes

/-- The session has come to such a state. -/
def Coursed (bulkName : Bytes) (live : Multiset UnixSocketTransport) (loaded : List (Option Bytes))
    (read : List Bytes) (s : Serving σ) (ledger : Ledger) : Prop :=
  ∃ lost writes, Course bulkName live loaded read s lost writes ledger

theorem newReplies_spec (unrepresentable : Unrepresentable) (backend : EngineBackend σ) (w : World σ)
    (frame : Frame) : (w.handle unrepresentable backend frame).2.replies =
      w.replies ++ newReplies w (w.handle unrepresentable backend frame).2 := by
  have hlog : ∃ events, (w.handle unrepresentable backend frame).2.log = w.log ++ events := by
    cases hlive : w.session.finished with
    | true => exact ⟨[], by rw [World.handle_finished backend hlive, List.append_nil]⟩
    | false =>
      obtain ⟨⟨_, _, ⟨events, hlog, -⟩, -⟩, -⟩ :=
        @World.handle_obeys _ _ unrepresentable backend hlive frame
      exact ⟨events, hlog⟩
  obtain ⟨events, hlog⟩ := hlog
  unfold newReplies World.replies
  rw [hlog, List.filterMap_append, List.drop_left]

variable {unrepresentable : Unrepresentable} {engine : Engine σ} {transport : ControlTransport}
  {bulkName : Bytes} {live : Multiset UnixSocketTransport} {loaded : List (Option Bytes)} {read : List Bytes}
  {s : Serving σ} {ledger : Ledger}

/-- Whoever has the audio endpoint, or that the worker keeps it. -/
theorem settleAudio_spec {audio : Option UnixSocketTransport} {lost : Multiset UnixSocketTransport}
    (howned : Owned ((audio.toList : Multiset UnixSocketTransport) + live) lost ledger)
    (honce : Alone bulkName (audio.toList + lost)) (b : σ) :
    Spec (settleAudio engine b audio) ledger fun audio after =>
      (∃ lost, Owned ((audio.toList : Multiset UnixSocketTransport) + live) lost after ∧
        Alone bulkName (audio.toList + lost)) ∧ after.traffic = ledger.traffic := by
  cases audio with
  | none => exact spec_pure ⟨⟨lost, howned, honce⟩, rfl⟩
  | some t =>
    unfold settleAudio
    simp only
    split
    · have hmine : Owned (t ::ₘ live) lost ledger := howned.of_live (by simp)
      refine .bind ((disposeBulk_owned hmine).mono ?_)
      rintro _ after ⟨⟨lost', hlost, howned'⟩, htraffic⟩
      exact spec_pure ⟨⟨lost', howned'.of_live (by simp), honce.of_le (by simpa using hlost)⟩, htraffic⟩
    · exact spec_pure ⟨⟨lost, howned, honce⟩, rfl⟩

/-- A frame handled: the station's own turn, and its replies on their way. -/
theorem handle_spec (htransport : transport.owned ≤ live) (h : Coursed bulkName live loaded read s ledger)
    (frame : Frame) : Spec (handle unrepresentable engine transport s frame) ledger fun r after =>
      r.1 = (s.station.world.handle unrepresentable engine.backend frame).1 ∧
      r.2.station = { s.station with
        world := (s.station.world.handle unrepresentable engine.backend frame).2
        handed := s.station.handed ++ [frame] } ∧
      Coursed bulkName live loaded read r.2 after := by
  obtain ⟨lost, writes, h⟩ := h
  refine .bind ((settleAudio_spec h.owned h.once _).mono ?_)
  rintro audio ledger₁ ⟨⟨lost', howned, honce⟩, htraffic⟩
  refine .bind ((writeFrames_spec (htransport.trans (Multiset.le_add_left _ _)) _ howned).mono ?_)
  rintro _ _ ⟨more, hmore, rfl⟩
  refine spec_pure ⟨rfl, rfl, lost', writes ++ more, howned.moved rfl rfl rfl, honce, ?_, ?_, ?_, ?_⟩
  · exact (congrArg (·.1) htraffic).trans h.loaded
  · exact (congrArg (·.2.1) htraffic).trans h.read
  · rw [List.map_append, h.replied, hmore]
    exact (newReplies_spec unrepresentable engine.backend s.station.world frame).symm
  · have hsent : ledger₁.sent = received writes := (congrArg (·.2.2) htraffic).trans h.sent
    change ledger₁.sent ++ received more = _
    rw [hsent]
    exact (List.flatMap_append ..).symm

/-- The inner loop is the station's. -/
theorem drainWithin_spec (htransport : transport.owned ≤ live) (turns : Nat) {s : Serving σ}
    {ledger : Ledger} (h : Coursed bulkName live loaded read s ledger) :
    Spec (drainWithin unrepresentable engine transport turns s) ledger fun r after =>
      (r.1, r.2.station) = Station.drainWithin unrepresentable engine.backend turns s.station ∧
      Coursed bulkName live loaded read r.2 after := by
  induction turns generalizing s ledger with
  | zero => exact spec_pure ⟨rfl, h⟩
  | succ turns ih =>
    unfold drainWithin Station.drainWithin
    rcases hnext : s.station.decoder.next with ⟨decoder, _ | frame⟩
    · obtain ⟨lost, writes, h⟩ := h
      exact spec_pure ⟨rfl, lost, writes, ⟨h.owned, h.once, h.loaded, h.read, h.replied, h.sent⟩⟩
    · have hfed : Coursed bulkName live loaded read { s with station := { s.station with decoder } }
          ledger := by
        obtain ⟨lost, writes, h⟩ := h
        exact ⟨lost, writes, ⟨h.owned, h.once, h.loaded, h.read, h.replied, h.sent⟩⟩
      simp only
      refine .bind ((handle_spec htransport hfed frame).mono ?_)
      rintro ⟨go, s'⟩ after ⟨hgo, hstation, hcourse⟩
      simp only at hgo hstation hcourse ⊢
      rw [hgo]
      rw [← hstation]
      split
      · exact ih hcourse
      · exact spec_pure ⟨rfl, hcourse⟩

theorem Coursed.took {chunk : Chunk} (h : Coursed bulkName live loaded read s ledger) :
    Coursed bulkName live loaded (read ++ [chunk.data]) s (ledger.took chunk.data) := by
  obtain ⟨lost, writes, h⟩ := h
  refine ⟨lost, writes, ⟨h.owned.moved rfl rfl rfl, h.once, h.loaded, ?_, h.replied, h.sent⟩⟩
  rw [← h.read]
  rfl

/-- After these chunks the station is where the process has it. -/
def Abreast (unrepresentable : Unrepresentable) (engine : Engine σ) (start : Station σ)
    (chunks : List Chunk) (s : Serving σ) : Prop :=
  ∀ rest ending, Station.loop unrepresentable engine.backend (chunks ++ rest) ending start =
    Station.loop unrepresentable engine.backend rest ending s.station

def Going (unrepresentable : Unrepresentable) (engine : Engine σ) (start : Station σ)
    (bulkName : Bytes) (live : Multiset UnixSocketTransport) (loaded : List (Option Bytes))
    (s : Serving σ) (ledger : Ledger) : Prop :=
  ∃ chunks : List Chunk, Coursed bulkName live loaded (chunks.map (·.data)) s ledger ∧
    Abreast unrepresentable engine start chunks s

/-- What a station makes of the chunks that have come. -/
def Gone (unrepresentable : Unrepresentable) (engine : Engine σ) (start : Station σ)
    (bulkName : Bytes) (live : Multiset UnixSocketTransport) (loaded : List (Option Bytes))
    (r : Serving σ × Nat) (ledger : Ledger) : Prop :=
  ∃ (chunks : List Chunk) (ending : Ending),
    Coursed bulkName live loaded (chunks.map (·.data)) r.1 ledger ∧
    Station.loop unrepresentable engine.backend chunks ending start = (r.1.station, r.2)

variable {start : Station σ}

theorem gone_of_abreast {chunks : List Chunk} (ending : Ending) {code : Nat}
    (hcourse : Coursed bulkName live loaded (chunks.map (·.data)) s ledger)
    (habreast : Abreast unrepresentable engine start chunks s)
    (hend : Station.loop unrepresentable engine.backend [] ending s.station = (s.station, code)) :
    Gone unrepresentable engine start bulkName live loaded (s, code) ledger := by
  refine ⟨chunks, ending, hcourse, ?_⟩
  have hloop := habreast [] ending
  rwa [List.append_nil, hend] at hloop

/-- What a read has brought is dealt with as the station deals with it. -/
theorem digest_spec (htransport : transport.owned ≤ live) {chunks : List Chunk} (chunk : Chunk)
    (hcourse : Coursed bulkName live loaded ((chunks ++ [chunk]).map (·.data)) s ledger)
    (habreast : Abreast unrepresentable engine start chunks s) :
    Spec (digest unrepresentable engine transport s chunk) ledger
      (Turned (m := monitor) (Going unrepresentable engine start bulkName live loaded)
        (Gone unrepresentable engine start bulkName live loaded)) := by
  have hfed : Coursed bulkName live loaded ((chunks ++ [chunk]).map (·.data))
      { s with station := { s.station with decoder := s.station.decoder.feed chunk.data } } ledger := by
    obtain ⟨lost, writes, h⟩ := hcourse
    exact ⟨lost, writes, ⟨h.owned, h.once, h.loaded, h.read, h.replied, h.sent⟩⟩
  refine .bind ((drainWithin_spec htransport _ hfed).mono ?_)
  rintro ⟨running, s'⟩ after ⟨hdrain, hcourse'⟩
  simp only at hdrain hcourse' ⊢
  have hturn : s.station.turn unrepresentable engine.backend chunk =
      if s'.station.decoder.failed then (s'.station, some 1)
      else if running then (s'.station, none) else (s'.station, some 0) := by
    unfold Station.turn Station.drain
    rw [← hdrain]
  have hloop : ∀ rest ending, Station.loop unrepresentable engine.backend (chunks ++ chunk :: rest) ending
      start = ((s.station.turn unrepresentable engine.backend chunk).2.map fun code =>
        ((s.station.turn unrepresentable engine.backend chunk).1, code)).getD
          (Station.loop unrepresentable engine.backend rest ending
            (s.station.turn unrepresentable engine.backend chunk).1) := by
    intro rest ending
    rw [habreast, Station.loop_cons]
  rw [hturn] at hloop
  split at hloop
  · rename_i hfailed
    rw [if_pos hfailed]
    exact spec_pure ⟨chunks ++ [chunk], .closed, hcourse', hloop [] .closed⟩
  · rename_i hfailed
    rw [if_neg hfailed]
    split at hloop
    · rename_i hrunning
      rw [if_pos hrunning]
      refine spec_pure ⟨chunks ++ [chunk], hcourse', fun rest ending => ?_⟩
      rw [List.append_assoc]
      exact hloop rest ending
    · rename_i hrunning
      rw [if_neg hrunning]
      exact spec_pure ⟨chunks ++ [chunk], .closed, hcourse', hloop [] .closed⟩

/-- One turn of the loop of `main`. -/
theorem serveTurn_spec (htransport : transport.owned ≤ live)
    (h : Going unrepresentable engine start bulkName live loaded s ledger) :
    Spec (serveTurn unrepresentable engine transport s) ledger
      (Turned (m := monitor) (Going unrepresentable engine start bulkName live loaded)
        (Gone unrepresentable engine start bulkName live loaded)) := by
  obtain ⟨chunks, hcourse, habreast⟩ := h
  have hready : transport.Ready ledger := by
    obtain ⟨lost, writes, h⟩ := hcourse
    exact ControlTransport.ready h.owned (htransport.trans (Multiset.le_add_left _ _))
  refine .bind ((ControlTransport.read_spec hready).mono ?_)
  rintro (ending | chunk) after hreceived
  · change after = ledger at hreceived
    subst hreceived
    cases ending with
    | closed => exact spec_pure (gone_of_abreast .closed hcourse habreast rfl)
    | failed => exact spec_pure (gone_of_abreast .failed hcourse habreast rfl)
  · change after = ledger.took chunk.data at hreceived
    subst hreceived
    refine digest_spec htransport chunk ?_ habreast
    rw [List.map_append]
    exact hcourse.took

theorem session_spec (htransport : transport.owned ≤ live) {s : Serving σ}
    (h : Coursed bulkName live loaded [] s ledger) :
    Spec (session unrepresentable engine transport s) ledger
      (Gone unrepresentable engine s.station bulkName live loaded) :=
  spec_loop (Going unrepresentable engine s.station bulkName live loaded) ⟨[], h, fun _ _ => rfl⟩
    fun _ _ h => serveTurn_spec htransport h

end

/-! ## The end of a session -/

/-- Everything is given back, but for a connection and the socket file of this name, which a worker
keeps that would not stop. -/
structure Released (bulkName : Bytes) (ledger : Ledger) : Prop where
  opened : ledger.opened.card = ledger.stuck
  bound : ledger.bound = Multiset.replicate ledger.stuck bulkName
  once : ledger.stuck ≤ 1

theorem Owned.released {bulkName : Bytes} {lost : Multiset UnixSocketTransport} {ledger : Ledger}
    (h : Owned 0 lost ledger) (honce : Alone bulkName lost) : Released bulkName ledger := by
  refine ⟨?_, ?_, h.stuck ▸ honce.1⟩
  · rw [h.card, h.stuck, Multiset.card_zero, zero_add]
  · rw [h.bound, zero_add, h.stuck, Multiset.map_congr rfl honce.2, Multiset.map_const']

theorem ControlTransport.destroy_owned {transport : ControlTransport}
    {lost : Multiset UnixSocketTransport} {ledger : Ledger} (h : Owned transport.owned lost ledger) :
    Spec transport.destroy ledger fun _ after =>
      Owned 0 lost after ∧ after.traffic = ledger.traffic := by
  cases transport with
  | stdio => exact spec_pure ⟨h, rfl⟩
  | unixSocket t => exact @Process.destroy_owned 0 lost t ledger h

section

variable {σ : Type} {engine : Engine σ} {bulkName : Bytes} {live lost : Multiset UnixSocketTransport}
  {s : Serving σ} {ledger : Ledger}

theorem releaseAudio_spec (h : Owned ((s.audio.toList : Multiset UnixSocketTransport) + live) lost ledger)
    (honce : Alone bulkName (s.audio.toList + lost)) :
    Spec (releaseAudio engine s) ledger fun _ after =>
      (∃ lost', Owned live lost' after ∧ Alone bulkName lost') ∧ after.traffic = ledger.traffic := by
  unfold releaseAudio
  cases haudio : s.audio with
  | none =>
    rw [haudio] at h honce
    exact spec_pure ⟨⟨lost, h.of_live (by simp), by simpa using honce⟩, rfl⟩
  | some t =>
    rw [haudio] at h honce
    have hmine : Owned (t ::ₘ live) lost ledger := h.of_live (by simp)
    simp only
    split
    · refine (disposeBulk_owned hmine).mono ?_
      rintro _ after ⟨⟨lost', hlost, howned⟩, htraffic⟩
      exact ⟨⟨lost', howned, honce.of_le (by simpa using hlost)⟩, htraffic⟩
    · refine (destroy_owned hmine).mono ?_
      rintro _ after ⟨howned, htraffic⟩
      exact ⟨⟨lost, howned, honce.of_le (Multiset.le_add_left _ _)⟩, htraffic⟩

/-- The reads and the writes of the process are those of a station over this backend, which ends with
the exit code. -/
def ServedBy (unrepresentable : Unrepresentable) (engine : Engine σ) (start : σ) (transcript : Bool)
    (code : Nat) (ledger : Ledger) : Prop :=
  ∃ (chunks : List Chunk) (ending : Ending) (s : Station σ) (writes : List Write),
    ledger.read = chunks.map (·.data) ∧
    Station.loop unrepresentable engine.backend chunks ending (.fresh start transcript) = (s, code) ∧
    writes.map (·.bytes) = s.world.replies ∧ ledger.sent = received writes

theorem serveSession_spec {unrepresentable : Unrepresentable} {start : σ} {transcript : Bool}
    {transport : ControlTransport} {spare given : Option UnixSocketTransport}
    (h : Owned ((given.toList : Multiset UnixSocketTransport) +
      ((spare.toList : Multiset UnixSocketTransport) + transport.owned)) 0 ledger)
    (honce : Alone bulkName given.toList) (hread : ledger.read = []) (hsent : ledger.sent = []) :
    Spec (serveSession unrepresentable engine start transcript transport spare given) ledger
      fun code after => Released bulkName after ∧ after.loaded = ledger.loaded ∧
        ServedBy unrepresentable engine start transcript code after := by
  have hcourse : Coursed bulkName ((spare.toList : Multiset UnixSocketTransport) + transport.owned)
      ledger.loaded [] (⟨.fresh start transcript, given⟩ : Serving σ) ledger :=
    ⟨0, [], ⟨h, by simpa using honce, rfl, hread, rfl, hsent⟩⟩
  refine .bind ((session_spec (Multiset.le_add_left _ _) hcourse).mono ?_)
  rintro ⟨s, code⟩ after ⟨chunks, ending, ⟨lost, writes, hcourse⟩, hloop⟩
  refine .bind ((releaseAudio_spec hcourse.owned hcourse.once).mono ?_)
  rintro _ after₁ ⟨⟨lost', howned₁, honce'⟩, htraffic₁⟩
  refine .bind ((destroyIf_owned howned₁).mono ?_)
  rintro _ after₂ ⟨howned₂, htraffic₂⟩
  refine .bind ((ControlTransport.destroy_owned howned₂).mono ?_)
  rintro _ after₃ ⟨howned₃, htraffic₃⟩
  have htraffic : after₃.traffic = after.traffic := htraffic₃.trans (htraffic₂.trans htraffic₁)
  refine spec_pure ⟨howned₃.released honce', ?_, chunks, ending, s.station, writes, ?_, hloop,
    hcourse.replied, ?_⟩
  · exact (congrArg (·.1) htraffic).trans hcourse.loaded
  · exact (congrArg (·.2.1) htraffic).trans hcourse.read
  · exact (congrArg (·.2.2) htraffic).trans hcourse.sent

end

/-! ## The process -/

/-- The session over the backend that the options ask for. -/
def Served (machine : Machine) (o : Options) (profiles : List Probe.Profile) (code : Nat)
    (ledger : Ledger) : Prop :=
  if o.searchRoots = [] then
    ServedBy machine.unrepresentable nullEngine () o.debugText code ledger
  else if profiles = [] then
    ServedBy machine.unrepresentable (discoveryEngine machine) (.create o.searchRoots {}) o.debugText
      code ledger
  else
    ServedBy machine.unrepresentable (probingEngine machine)
      ⟨.create o.searchRoots profiles (o.bulkName ≠ []) {}, 0⟩ o.debugText code ledger

/-- The profiles come from the file that is named, and only from there. -/
def Profiled (o : Options) (loaded : List (Option Bytes)) (profiles : List Probe.Profile) : Prop :=
  if o.profilePath = [] then loaded = [] ∧ profiles = []
  else ∃ text, loaded = [some text] ∧ Probe.parseProfiles text = some profiles

section

variable {ledger : Ledger}

theorem openEndpoint_map {α : Type} {live : Multiset UnixSocketTransport} (h : Owned live 0 ledger)
    (sunPath : Nat) (name : Bytes) (wrap : UnixSocketTransport → α)
    {post : Except Bytes α → Ledger → Prop}
    (hok : ∀ t after, t.path = name → Owned (t ::ₘ live) 0 after →
      after.traffic = ledger.traffic → post (.ok (wrap t)) after)
    (herror : ∀ e after, Owned live 0 after → after.traffic = ledger.traffic → post (.error e) after) :
    Spec (openEndpoint sunPath name >>= fun r => pure (r.map wrap)) ledger post := by
  refine .bind ((openEndpoint_owned h sunPath name).mono ?_)
  intro r after hendpoint
  cases r with
  | error e => exact spec_pure (herror e after hendpoint.1 hendpoint.2)
  | ok t => exact spec_pure (hok t after hendpoint.1 hendpoint.2.1 hendpoint.2.2)

/-- The transport of the session, or nothing. -/
def Controlled (ledger : Ledger) : Except Bytes ControlTransport → Ledger → Prop
  | .error _, after => Owned 0 0 after ∧ after.traffic = ledger.traffic
  | .ok transport, after => Owned transport.owned 0 after ∧ after.traffic = ledger.traffic

theorem openControl_spec (h : Owned 0 0 ledger) (sunPath : Nat) (o : Options) :
    Spec (openControl sunPath o) ledger (Controlled ledger) := by
  unfold openControl
  split
  · exact openEndpoint_map h sunPath o.listenPath _ (fun _ _ _ h ht => ⟨h, ht⟩) fun _ _ h ht => ⟨h, ht⟩
  · split
    · exact openEndpoint_map h sunPath o.pipeName _ (fun _ _ _ h ht => ⟨h, ht⟩) fun _ _ h ht => ⟨h, ht⟩
    · exact spec_pure ⟨h, rfl⟩

/-- The audio endpoint where one is named. -/
def Bulked (o : Options) (live : Multiset UnixSocketTransport) (ledger : Ledger) :
    Except Bytes (Option UnixSocketTransport) → Ledger → Prop
  | .error _, after => Owned live 0 after ∧ after.traffic = ledger.traffic
  | .ok audio, after => Owned ((audio.toList : Multiset UnixSocketTransport) + live) 0 after ∧
      after.traffic = ledger.traffic ∧ (audio.isSome = true ↔ o.bulkName ≠ []) ∧
      Alone o.bulkName audio.toList

theorem openBulk_spec {live : Multiset UnixSocketTransport} (h : Owned live 0 ledger) (sunPath : Nat)
    (o : Options) : Spec (openBulk sunPath o) ledger (Bulked o live ledger) := by
  unfold openBulk
  split
  · rename_i hname
    refine openEndpoint_map h sunPath o.bulkName some ?_ fun _ _ h ht => ⟨h, ht⟩
    exact fun t after hpath h ht => ⟨h.of_live (by simp), ht, by simpa using hname, by simp [Alone, hpath]⟩
  · rename_i hname
    exact spec_pure ⟨h.of_live (by simp), rfl, by simpa using hname, .nil _⟩

/-- What the profile of the options comes to, with nothing changed but what was loaded. -/
def Loaded (o : Options) (ledger : Ledger) : Option (List Probe.Profile) → Ledger → Prop
  | none, after => after = { ledger with loaded := after.loaded }
  | some profiles, after =>
    after = { ledger with loaded := after.loaded } ∧ Profiled o after.loaded profiles

theorem loadProfiles_spec (o : Options) (hloaded : ledger.loaded = []) :
    Spec (loadProfiles o.profilePath) ledger (Loaded o ledger) := by
  unfold loadProfiles
  split
  · rename_i hpath
    refine spec_pure ⟨rfl, ?_⟩
    unfold Profiled
    rw [if_pos hpath]
    exact ⟨hloaded, rfl⟩
  · rename_i hpath
    refine .bind (spec_call trivial fun contents => spec_pure ?_)
    cases hprofiles : contents.bind Probe.parseProfiles with
    | none => rfl
    | some profiles =>
      obtain ⟨text, rfl, hparse⟩ := Option.bind_eq_some_iff.mp hprofiles
      refine ⟨rfl, ?_⟩
      unfold Profiled
      rw [if_neg hpath]
      refine ⟨text, ?_, hparse⟩
      change ledger.loaded ++ [some text] = [some text]
      rw [hloaded, List.nil_append]

/-- The audio endpoint goes to a backend that probes, and else it waits for the end. -/
theorem serveOptions_spec (machine : Machine) (o : Options) (profiles : List Probe.Profile)
    {transport : ControlTransport} {audio : Option UnixSocketTransport}
    (h : Owned ((audio.toList : Multiset UnixSocketTransport) + transport.owned) 0 ledger)
    (haudio : audio.isSome = true ↔ o.bulkName ≠ []) (honce : Alone o.bulkName audio.toList)
    (hread : ledger.read = []) (hsent : ledger.sent = []) :
    Spec (serveOptions machine o profiles transport audio) ledger fun code after =>
      Released o.bulkName after ∧ after.loaded = ledger.loaded ∧ Served machine o profiles code after := by
  have hspare : Owned (((none : Option UnixSocketTransport).toList : Multiset UnixSocketTransport) +
      ((audio.toList : Multiset UnixSocketTransport) + transport.owned)) 0 ledger :=
    h.of_live (by simp)
  have hgiven : Owned ((audio.toList : Multiset UnixSocketTransport) +
      (((none : Option UnixSocketTransport).toList : Multiset UnixSocketTransport) + transport.owned)) 0
        ledger := h.of_live (by simp)
  have hsome : audio.isSome = decide (o.bulkName ≠ []) := by
    rw [Bool.eq_iff_iff, haudio, decide_eq_true_iff]
  unfold serveOptions Served
  split
  · exact serveSession_spec hspare (.nil _) hread hsent
  · split
    · exact serveSession_spec hspare (.nil _) hread hsent
    · rw [← hsome]
      exact serveSession_spec hgiven honce hread hsent

/-- It gives up before there is a session, or it serves one. -/
def Ended (machine : Machine) (o : Options) (code : Nat) (ledger : Ledger) : Prop :=
  (code = 2 ∧ ledger.read = [] ∧ ledger.sent = []) ∨
    code ≤ 1 ∧ ∃ profiles, Profiled o ledger.loaded profiles ∧ Served machine o profiles code ledger

theorem loop_code {σ : Type} (unrepresentable : Unrepresentable) (backend : EngineBackend σ)
    (chunks : List Chunk) (ending : Ending) (s : Station σ) :
    (Station.loop unrepresentable backend chunks ending s).2 ≤ 1 := by
  induction chunks generalizing s with
  | nil => cases ending <;> simp [Station.loop]
  | cons chunk rest ih =>
    simp only [Station.loop]
    split
    · exact le_rfl
    · split
      · exact ih _
      · exact Nat.zero_le 1

theorem Served.code_le {machine : Machine} {o : Options} {profiles : List Probe.Profile} {code : Nat}
    (h : Served machine o profiles code ledger) : code ≤ 1 := by
  have hserved : ∀ {σ : Type} {engine : Engine σ} {start : σ},
      ServedBy machine.unrepresentable engine start o.debugText code ledger → code ≤ 1 := by
    rintro σ engine start ⟨chunks, ending, s, -, -, hloop, -⟩
    have hcode := loop_code machine.unrepresentable engine.backend chunks ending
      (.fresh start o.debugText)
    rwa [hloop] at hcode
  unfold Served at h
  split at h
  · exact hserved h
  · split at h <;> exact hserved h

theorem serve_spec {machine : Machine} {arguments : List Bytes} {o : Options}
    (hserve : readArguments {} arguments = .serve o) :
    Spec (main machine arguments) .fresh fun code after =>
      Released o.bulkName after ∧ Ended machine o code after := by
  have hearly : ∀ {ledger after : Ledger}, Owned 0 0 after → ledger.read = [] → ledger.sent = [] →
      after.traffic = ledger.traffic → Released o.bulkName after ∧ Ended machine o 2 after := by
    intro ledger after howned hread hsent htraffic
    exact ⟨howned.released (.nil _), .inl ⟨rfl, (congrArg (·.2.1) htraffic).trans hread,
      (congrArg (·.2.2) htraffic).trans hsent⟩⟩
  unfold main
  rw [hserve]
  refine .bind ((openControl_spec .fresh machine.sunPath o).mono ?_)
  rintro (e | transport) ledger₁ hcontrolled
  · exact spec_pure (hearly hcontrolled.1 rfl rfl hcontrolled.2)
  obtain ⟨howned₁, htraffic₁⟩ := hcontrolled
  have hloaded₁ : ledger₁.loaded = [] := congrArg (·.1) htraffic₁
  have hread₁ : ledger₁.read = [] := congrArg (·.2.1) htraffic₁
  have hsent₁ : ledger₁.sent = [] := congrArg (·.2.2) htraffic₁
  refine .bind ((openBulk_spec howned₁ machine.sunPath o).mono ?_)
  rintro (e | audio) ledger₂ hbulked
  · refine .bind ((ControlTransport.destroy_owned hbulked.1).mono ?_)
    rintro _ after ⟨howned, htraffic⟩
    exact spec_pure (hearly howned hread₁ hsent₁ (htraffic.trans hbulked.2))
  obtain ⟨howned₂, htraffic₂, haudio, honce⟩ := hbulked
  have hloaded₂ : ledger₂.loaded = [] := (congrArg (·.1) htraffic₂).trans hloaded₁
  have hread₂ : ledger₂.read = [] := (congrArg (·.2.1) htraffic₂).trans hread₁
  have hsent₂ : ledger₂.sent = [] := (congrArg (·.2.2) htraffic₂).trans hsent₁
  refine .bind ((loadProfiles_spec o hloaded₂).mono ?_)
  rintro (_ | profiles) ledger₃ hprofiles
  · change ledger₃ = _ at hprofiles
    have howned₃ : Owned ((audio.toList : Multiset UnixSocketTransport) + transport.owned) 0 ledger₃ := by
      rw [hprofiles]
      exact howned₂.moved rfl rfl rfl
    refine .bind ((destroyIf_owned howned₃).mono ?_)
    rintro _ after ⟨howned, htraffic⟩
    refine .bind ((ControlTransport.destroy_owned howned).mono ?_)
    rintro _ after' ⟨howned', htraffic'⟩
    have hread₃ : ledger₃.read = [] := by rw [hprofiles]; exact hread₂
    have hsent₃ : ledger₃.sent = [] := by rw [hprofiles]; exact hsent₂
    exact spec_pure (hearly howned' hread₃ hsent₃ (htraffic'.trans htraffic))
  · obtain ⟨hledger, hprofiled⟩ := hprofiles
    have howned₃ : Owned ((audio.toList : Multiset UnixSocketTransport) + transport.owned) 0 ledger₃ := by
      rw [hledger]
      exact howned₂.moved rfl rfl rfl
    have hread₃ : ledger₃.read = [] := by rw [hledger]; exact hread₂
    have hsent₃ : ledger₃.sent = [] := by rw [hledger]; exact hsent₂
    refine (serveOptions_spec machine o profiles howned₃ haudio honce hread₃ hsent₃).mono ?_
    rintro code after ⟨hreleased, hloaded, hserved⟩
    refine ⟨hreleased, .inr ⟨hserved.code_le, profiles, ?_, hserved⟩⟩
    rw [hloaded]
    exact hprofiled

/-- The text is written, or the beginning of it, and that is all. -/
def Printed (text : Bytes) (ledger : Ledger) : Prop :=
  ∃ sent, sent <+: text ∧ ledger = Ledger.fresh.gave sent

theorem print_spec (text : Bytes) : Spec (print text) .fresh fun _ after => Printed text after := by
  refine .bind ((@send_spec .standard .fresh trivial text).mono ?_)
  rintro ok _ ⟨outcome, -, rfl⟩
  exact spec_pure ⟨_, outcome.delivered_le, rfl⟩

theorem Printed.released {text : Bytes} {ledger : Ledger} (h : Printed text ledger) :
    Released [] ledger := by
  obtain ⟨sent, -, rfl⟩ := h
  have howned : Owned 0 0 (Ledger.fresh.gave sent) := Owned.fresh.moved rfl rfl rfl
  exact howned.released (.nil [])

/-- The name of the audio endpoint, where the arguments ask for a session. -/
def Command.bulkName : Command → Bytes
  | .serve o => o.bulkName
  | _ => []

/-- What the arguments make the process come to. -/
def Command.Done (machine : Machine) : Command → Nat → Ledger → Prop
  | .help, code, ledger => code = 0 ∧ Printed kUsage ledger
  | .version, code, ledger =>
    code = 0 ∧ Printed (ascii "oak-barrels " ++ machine.version ++ ascii "\n") ledger
  | .refuse, code, ledger => code = 2 ∧ ledger = .fresh
  | .serve o, code, ledger => Ended machine o code ledger

theorem main_spec (machine : Machine) (arguments : List Bytes) :
    Spec (main machine arguments) .fresh fun code after =>
      Released (readArguments {} arguments).bulkName after ∧
        (readArguments {} arguments).Done machine code after := by
  have hprinted : ∀ text, Spec (print text >>= fun _ => pure 0) .fresh fun code after =>
      Released [] after ∧ code = 0 ∧ Printed text after := by
    intro text
    refine .bind ((print_spec text).mono fun _ after h => ?_)
    exact spec_pure ⟨h.released, rfl, h⟩
  cases hcommand : readArguments {} arguments with
  | help =>
    unfold main
    rw [hcommand]
    exact hprinted kUsage
  | version =>
    unfold main
    rw [hcommand]
    exact hprinted _
  | refuse =>
    unfold main
    rw [hcommand]
    exact spec_pure ⟨Owned.fresh.released (.nil []), rfl, rfl⟩
  | serve o => exact serve_spec hcommand

end

/-- **The process cleans up.** Whatever the system answers and whenever it is looked at, nothing was
used or closed that was not open and no file removed that was not made, and where the process has come
to its end nothing is open and no socket file is left, but for what the worker of the audio endpoint
keeps if it would not stop. -/
theorem main_releases (machine : Machine) (arguments : List Bytes) (env : Dialogue.Environment Answer)
    (answers : Nat) :
    ∃ ledger, monitor.Follows ((main machine arguments).run env ⟨[], answers⟩).2.said ledger ∧
      ∀ code, ((main machine arguments).run env ⟨[], answers⟩).1 = some code →
        Released (readArguments {} arguments).bulkName ledger := by
  obtain ⟨ledger, hfollows, hend⟩ := (main_spec machine arguments).whole env answers
  exact ⟨ledger, hfollows, fun code hcode => (hend code hcode).1⟩

/-- **The process is its station.** Where it ends it has done what its arguments ask for: a text and no
more, nothing at all, an attempt at a session, or a session, whose reads, replies and exit code are
those of a station over the backend that the search roots and the profile call for. -/
theorem main_serves (machine : Machine) (arguments : List Bytes) (env : Dialogue.Environment Answer)
    (answers : Nat) :
    ∃ ledger, monitor.Follows ((main machine arguments).run env ⟨[], answers⟩).2.said ledger ∧
      ∀ code, ((main machine arguments).run env ⟨[], answers⟩).1 = some code →
        (readArguments {} arguments).Done machine code ledger := by
  obtain ⟨ledger, hfollows, hend⟩ := (main_spec machine arguments).whole env answers
  exact ⟨ledger, hfollows, fun code hcode => (hend code hcode).2⟩

end OakBarrels.Process
