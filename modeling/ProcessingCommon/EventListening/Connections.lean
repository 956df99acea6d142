import ProcessingCommon.EventListening.Reception
import ProcessingCommon.EventListening.Store
import ProcessingCommon.Lib.WrappedClock

/-!
# The connections

What becomes of every peer that `mpLst` hands over. The listener works on its connections in
steps between which others pop; a tick of `process()` is one order of these steps. Beside them
runs a history, which only reads the results.
-/

namespace ProcessingCommon

namespace EventListening

open Transition (Reachable ofFun guarded)

/-- A peer taken from `ppPeerFd`. The number tells apart peers of one descriptor. -/
structure Peer where
  id : Nat
  peerFd : Nat
  time : Nat

def Peer.conn (p : Peer) : OpenEventConn := ⟨p.peerFd, millis p.time⟩

/-- How the listener gets rid of a peer. -/
inductive PeerFate
  /-- closed at once, as these were open -/
  | refused (others : List Peer)
  /-- closed at once, as there was no process for it -/
  | notCreated
  /-- repelled by `dataTimeoutsCheck` at this time -/
  | timedOut (time : Nat)
  /-- repelled by `dataReceive` after this read, with the number of its event -/
  | answered (read : Read) (event : Option Nat)

structure Service (V : Type) where
  mConnsOpen : List OpenEventConn
  store : System V
  peers : Custody Peer PeerFate
  /-- the time of the last `dataTimeoutsCheck` -/
  checked : Nat

/-- Of the tick, `connectionsAccept` reads the peer and whether a process is made for it. -/
inductive ServiceOp
  | connectionsAccept (t : Tick)
  | dataTimeoutsCheck
  | msgEnqueue (iter : Nat) (read : Read)
  | dequeueTimeoutsCheck
  | pop (refMsg : StdString)
  | wait (ms : Nat)

namespace Service

variable {V : Type} [JsonValue V] (jReader : List UInt8 → Option V)

def newPeer (peerFd : Nat) (s : Service V) : Peer :=
  ⟨s.peers.entered.length, peerFd, s.store.now⟩

def peerAccept (t : Tick) (s : Service V) : Custody Peer PeerFate :=
  match t.peerFd with
  | none => s.peers
  | some peerFd =>
    let p := s.newPeer peerFd
    let peers := s.peers.enter p
    if cNumOpenConnsMax ≤ s.mConnsOpen.length then
      peers.dismiss (fun q => q.id = p.id) fun _ => .refused s.peers.held
    else if t.created then peers
    else peers.dismiss (fun q => q.id = p.id) fun _ => .notCreated

/-- The number that an event gets in the store. -/
def eventId (read : Read) (s : Service V) : Option Nat :=
  (eventOf jReader read).map fun _ => s.store.history.entered.length

def step (s : Service V) : ServiceOp → Service V
  | .connectionsAccept t =>
    { s with
      mConnsOpen := connectionsAccept { t with msAccept := millis s.store.now } s.mConnsOpen
      peers := s.peerAccept t }
  | .dataTimeoutsCheck =>
    { s with
      mConnsOpen := dataTimeoutsCheck (millis s.store.now) s.mConnsOpen
      peers := s.peers.dismiss
        (fun p => ¬ millis s.store.now - millis p.time < cMsDelayDataMax)
        fun _ => .timedOut s.store.now
      checked := s.store.now }
  | .msgEnqueue iter read =>
    match s.mConnsOpen[iter]? with
    | none => s
    | some _ =>
      let r := EventListening.msgEnqueue jReader (millis s.store.now) read s.store.mEvents
      let store := EventListening.step jReader s.store (.msgEnqueue read)
      if r.success = .pending then { s with store := store }
      else
        { s with
          mConnsOpen := s.mConnsOpen.eraseIdx iter
          store := store
          peers := s.peers.dismiss (fun p => some p.id = s.peers.held[iter]?.map Peer.id)
            fun _ => .answered read (s.eventId jReader read) }
  | .dequeueTimeoutsCheck =>
    { s with store := EventListening.step jReader s.store .dequeueTimeoutsCheck }
  | .pop refMsg => { s with store := EventListening.step jReader s.store (.pop refMsg) }
  | .wait ms => { s with store := EventListening.step jReader s.store (.wait ms) }

def Start (s : Service V) : Prop :=
  s.mConnsOpen = [] ∧ EventListening.Start s.store ∧ s.peers = {} ∧ s.checked = s.store.now

/-- What is true of a peer and its fate. -/
def Met (peers : List Peer) (events : List (Event V)) (p : Peer) : PeerFate → Prop
  | .refused others =>
    others.length = cNumOpenConnsMax ∧ ∀ q ∈ others, q ∈ peers ∧ q.id < p.id
  | .notCreated => True
  | .timedOut time => p.time + cMsDelayDataMax.toNat ≤ time
  | .answered read event =>
    read ≠ .nothing ∧
      match eventOf jReader read with
      | none => event = none
      | some m => ∃ e ∈ events, event = some e.id ∧ (e.refMsg, e.msgEvent) = m ∧ p.time ≤ e.time

/-- The event that came from a peer. -/
def eventGiven : Peer × PeerFate → Option Nat
  | (_, .answered _ event) => event
  | _ => none

structure Ok (s : Service V) : Prop where
  balanced : s.peers.Balanced
  ids : s.peers.entered.map Peer.id = List.range s.peers.entered.length
  time : ∀ p ∈ s.peers.entered, p.time ≤ s.store.now
  held : s.mConnsOpen = s.peers.held.map Peer.conn
  length : s.mConnsOpen.length ≤ cNumOpenConnsMax
  met : ∀ x ∈ s.peers.left, Met jReader s.peers.entered s.store.history.entered x.1 x.2
  given : s.peers.left.filterMap eventGiven = List.range s.store.history.entered.length
  store : System.Ok jReader s.store

variable {jReader} {s : Service V} {p : Peer} {peers : List Peer} {events : List (Event V)}
  {fate : PeerFate} {iter : Nat} {read : Read} {t : Tick}

/-! ## The store beside the connections -/

theorem entered_pop (refMsg : StdString) (m : System V) :
    (EventListening.step jReader m (.pop refMsg)).history.entered = m.history.entered := by
  unfold EventListening.step
  dsimp only
  split <;> rfl

theorem now_step (m : System V) (op : Op) : m.now ≤ (EventListening.step jReader m op).now := by
  cases op with
  | msgEnqueue read =>
    unfold EventListening.step
    dsimp only
    split <;> exact Nat.le_refl _
  | pop refMsg =>
    unfold EventListening.step
    dsimp only
    split <;> exact Nat.le_refl _
  | dequeueTimeoutsCheck => exact Nat.le_refl _
  | wait ms => exact Nat.le_add_right _ _

/-- The event of a read, and nothing else, is added to the events. -/
theorem entered_msgEnqueue (jReader : List UInt8 → Option V) (m : System V) (read : Read) :
    (EventListening.step jReader m (.msgEnqueue read)).history.entered =
      m.history.entered ++ (eventOf jReader read).toList.map fun x =>
        ⟨m.history.entered.length, x.1, x.2, m.now⟩ := by
  have hevent := (msgEnqueue_event jReader (millis m.now) read m.mEvents).1
  unfold EventListening.step
  dsimp only
  rw [← hevent]
  split
  · next hnone => rw [hnone, Option.toList_none, List.map_nil, List.append_nil]
  · next hsome => rw [hsome]; rfl

/-! ## The peers that stay -/

theorem Met.append (h : Met jReader peers events p fate) (ps : List Peer) (es : List (Event V)) :
    Met jReader (peers ++ ps) (events ++ es) p fate := by
  cases fate with
  | refused others => exact ⟨h.1, fun q hq => ⟨List.mem_append_left _ (h.2 q hq).1, (h.2 q hq).2⟩⟩
  | notCreated => trivial
  | timedOut time => exact h
  | answered read event =>
    refine ⟨h.1, ?_⟩
    have hgiven := h.2
    split
    · next hnone => rwa [hnone] at hgiven
    · next m hsome =>
      rw [hsome] at hgiven
      obtain ⟨e, he, hrest⟩ := hgiven
      exact ⟨e, List.mem_append_left _ he, hrest⟩

theorem Ok.id_lt (h : s.Ok jReader) (hp : p ∈ s.peers.entered) :
    p.id < s.peers.entered.length := by
  have hid : p.id ∈ s.peers.entered.map Peer.id := List.mem_map_of_mem hp
  rw [h.ids] at hid
  exact List.mem_range.mp hid

theorem Ok.nodup (h : s.Ok jReader) : (s.peers.held.map Peer.id).Nodup := by
  have hentered : (s.peers.entered.map Peer.id).Nodup := h.ids ▸ List.nodup_range
  have hall := (h.balanced.map Peer.id).nodup_iff.mp hentered
  rw [List.map_append] at hall
  exact hall.of_append_left

theorem Ok.held_id_lt (h : s.Ok jReader) (hp : p ∈ s.peers.held) :
    p.id < s.peers.entered.length :=
  h.id_lt (h.balanced.entered_of_held hp)

theorem start_ok (h : s.Start) : s.Ok jReader := by
  obtain ⟨hconns, hstore, hpeers, -⟩ := h
  have hok : System.Ok jReader s.store := EventListening.start_ok hstore
  refine ⟨hpeers ▸ Custody.balanced_empty, hpeers ▸ rfl, ?_, hpeers ▸ hconns, ?_, ?_, ?_, hok⟩
  · rw [hpeers]
    exact fun p hp => nomatch hp
  · exact hconns ▸ Nat.zero_le _
  · rw [hpeers]
    exact fun x hx => nomatch hx
  · rw [hpeers, hstore.2]
    rfl

/-- The store goes on by itself. -/
theorem Ok.withStore (h : s.Ok jReader) {op : Op}
    (hsame : (EventListening.step jReader s.store op).history.entered = s.store.history.entered) :
    Ok jReader { s with store := EventListening.step jReader s.store op } where
  balanced := h.balanced
  ids := h.ids
  time p hp := Nat.le_trans (h.time p hp) (now_step s.store op)
  held := h.held
  length := h.length
  met x hx := by
    show Met jReader _ (EventListening.step jReader s.store op).history.entered _ _
    rw [hsame]
    exact h.met x hx
  given := by
    show _ = List.range (EventListening.step jReader s.store op).history.entered.length
    rw [hsame]
    exact h.given
  store := h.store.step op

theorem Ok.dataTimeoutsCheck (h : s.Ok jReader) :
    (s.step jReader .dataTimeoutsCheck).Ok jReader where
  balanced := h.balanced.dismiss
  ids := h.ids
  time := h.time
  held := by
    show EventListening.dataTimeoutsCheck _ s.mConnsOpen = (s.peers.held.filter _).map Peer.conn
    rw [dataTimeoutsCheck_eq, h.held, List.filter_map]
    simp only [decide_not, Bool.not_not]
    rfl
  length := by
    show (EventListening.dataTimeoutsCheck _ s.mConnsOpen).length ≤ _
    rw [dataTimeoutsCheck_eq]
    exact Nat.le_trans (List.length_filter_le _ _) h.length
  met x hx := by
    rcases Custody.mem_left_dismiss.mp hx with hx | ⟨p, hp, hlate, rfl⟩
    · exact h.met x hx
    · have htime := h.time p (h.balanced.entered_of_held hp)
      exact WrappedClock.le_of_over htime (of_decide_eq_true hlate)
  given := by
    show (s.peers.left ++ List.map _ _).filterMap eventGiven = _
    rw [List.filterMap_append, h.given, List.filterMap_map]
    exact (congrArg _ (List.filterMap_eq_nil_iff.mpr fun _ _ => rfl)).trans (List.append_nil _)
  store := h.store

theorem Ok.ids_enter (h : s.Ok jReader) (peerFd : Nat) :
    (s.peers.entered ++ [s.newPeer peerFd]).map Peer.id =
      List.range (s.peers.entered ++ [s.newPeer peerFd]).length := by
  rw [List.map_append, h.ids, List.length_append, List.length_singleton, List.range_succ]
  rfl

theorem Ok.time_enter (h : s.Ok jReader) (peerFd : Nat) :
    ∀ p ∈ s.peers.entered ++ [s.newPeer peerFd], p.time ≤ s.store.now := by
  intro p hp
  rcases List.mem_append.mp hp with hp | hp
  · exact h.time p hp
  · cases List.mem_singleton.mp hp
    exact Nat.le_refl _

theorem Ok.newPeer_not_held (h : s.Ok jReader) (peerFd : Nat) :
    (s.newPeer peerFd).id ∉ s.peers.held.map Peer.id := by
  intro hmem
  obtain ⟨p, hp, hid⟩ := List.mem_map.mp hmem
  exact absurd hid (Nat.ne_of_lt (h.held_id_lt hp))

/-- A peer becomes a connection. -/
theorem Ok.opened (h : s.Ok jReader) (peerFd : Nat)
    (hroom : s.mConnsOpen.length < cNumOpenConnsMax) :
    Ok jReader { s with
      mConnsOpen := s.mConnsOpen ++ [⟨peerFd, millis s.store.now⟩]
      peers := s.peers.enter (s.newPeer peerFd) } where
  balanced := h.balanced.enter _
  ids := h.ids_enter peerFd
  time := h.time_enter peerFd
  held := by
    rw [Custody.held_enter, List.map_append, ← h.held]
    rfl
  length := by
    rw [List.length_append, List.length_singleton]
    exact hroom
  met x hx := by
    have hmet := (h.met x hx).append [s.newPeer peerFd] []
    rwa [List.append_nil] at hmet
  given := h.given
  store := h.store

/-- A peer is closed at once. -/
theorem Ok.turnedAway (h : s.Ok jReader) (peerFd : Nat) {fate : PeerFate}
    (hmet : Met jReader s.peers.entered s.store.history.entered (s.newPeer peerFd) fate)
    (hnot : eventGiven (s.newPeer peerFd, fate) = none) :
    Ok jReader { s with
      peers := (s.peers.enter (s.newPeer peerFd)).dismiss
        (fun q => q.id = (s.newPeer peerFd).id) fun _ => fate } where
  balanced := (h.balanced.enter _).dismiss
  ids := h.ids_enter peerFd
  time := h.time_enter peerFd
  held := by
    rw [Custody.dismiss_enter (h.newPeer_not_held peerFd)]
    exact h.held
  length := h.length
  met x hx := by
    rw [Custody.dismiss_enter (h.newPeer_not_held peerFd)] at hx
    have hold : Met jReader s.peers.entered s.store.history.entered x.1 x.2 := by
      rcases List.mem_append.mp hx with hx | hx
      · exact h.met x hx
      · cases List.mem_singleton.mp hx
        exact hmet
    have hnext := hold.append [s.newPeer peerFd] []
    rwa [List.append_nil] at hnext
  given := by
    rw [Custody.dismiss_enter (h.newPeer_not_held peerFd)]
    show (s.peers.left ++ [_]).filterMap eventGiven = _
    rw [List.filterMap_append, h.given, List.filterMap_cons, hnot]
    exact List.append_nil _
  store := h.store

theorem Ok.connectionsAccept (h : s.Ok jReader) (t : Tick) :
    (s.step jReader (.connectionsAccept t)).Ok jReader := by
  unfold step EventListening.connectionsAccept peerAccept
  dsimp only
  cases t.peerFd with
  | none => exact h
  | some peerFd =>
    dsimp only
    split
    · next hfull =>
      have hlength : s.mConnsOpen.length = s.peers.held.length := by rw [h.held, List.length_map]
      have hmax := Nat.le_antisymm h.length hfull
      exact h.turnedAway peerFd ⟨hlength ▸ hmax, fun q hq =>
        ⟨h.balanced.entered_of_held hq, h.held_id_lt hq⟩⟩ rfl
    · next hroom =>
      split
      · exact h.opened peerFd (Nat.lt_of_not_le hroom)
      · exact h.turnedAway peerFd trivial rfl

/-- A connection has given something, or is lost. -/
theorem Ok.answered (h : s.Ok jReader) (hp : s.peers.held[iter]? = some p)
    (hread : read ≠ .nothing) :
    Ok jReader { s with
      mConnsOpen := s.mConnsOpen.eraseIdx iter
      store := EventListening.step jReader s.store (.msgEnqueue read)
      peers := s.peers.dismiss (fun q => q.id = p.id)
        fun _ => .answered read (s.eventId jReader read) } where
  balanced := h.balanced.dismiss
  ids := h.ids
  time q hq := Nat.le_trans (h.time q hq) (now_step s.store _)
  held := by
    show s.mConnsOpen.eraseIdx iter = (s.peers.held.filter _).map Peer.conn
    rw [(Custody.filter_key h.nodup hp).1, h.held, List.eraseIdx_map]
  length := Nat.le_trans (List.length_eraseIdx_le _ _) h.length
  met x hx := by
    show Met jReader s.peers.entered (EventListening.step jReader s.store _).history.entered _ _
    rw [entered_msgEnqueue]
    -- a peer that left before, and the one that leaves now
    rcases Custody.mem_left_dismiss.mp hx with hx | ⟨q, hq, -, rfl⟩
    · have hmet := (h.met x hx).append []
      rw [List.append_nil] at hmet
      exact hmet _
    · have htime := h.time q (h.balanced.entered_of_held hq)
      refine ⟨hread, ?_⟩
      unfold eventId
      split
      · next hnone => rw [hnone, Option.map_none]
      · next m hsome =>
        rw [hsome]
        exact ⟨_, List.mem_append_right _ List.mem_cons_self, rfl, rfl, htime⟩
  given := by
    show (s.peers.left ++ (s.peers.held.filter _).map _).filterMap eventGiven =
      List.range (EventListening.step jReader s.store _).history.entered.length
    rw [(Custody.filter_key h.nodup hp).2, List.filterMap_append, h.given, entered_msgEnqueue,
      List.length_append]
    show _ ++ [eventId jReader read s].reduceOption = _
    unfold eventId
    cases eventOf jReader read with
    | none => exact List.append_nil _
    | some m => exact List.range_succ.symm
  store := h.store.step (.msgEnqueue read)

theorem Ok.msgEnqueue (h : s.Ok jReader) (iter : Nat) (read : Read) :
    (s.step jReader (.msgEnqueue iter read)).Ok jReader := by
  have hlookup : s.mConnsOpen[iter]? = s.peers.held[iter]?.map Peer.conn := by
    rw [h.held, List.getElem?_map]
  unfold step
  cases hp : s.peers.held[iter]? with
  | none =>
    rw [hp, Option.map_none] at hlookup
    simp only [hlookup]
    exact h
  | some p =>
    rw [hp, Option.map_some] at hlookup
    have hpending := (msgEnqueue_event jReader (millis s.store.now) read s.store.mEvents).2
    simp only [hlookup, hp, hpending, Option.map_some, Option.some.injEq]
    split
    · next hnothing =>
      refine h.withStore ?_
      rw [entered_msgEnqueue, hnothing]
      exact List.append_nil _
    · next hread => exact h.answered hp hread

theorem Ok.step (h : s.Ok jReader) (op : ServiceOp) : (s.step jReader op).Ok jReader := by
  cases op with
  | connectionsAccept t => exact h.connectionsAccept t
  | dataTimeoutsCheck => exact h.dataTimeoutsCheck
  | msgEnqueue iter read => exact h.msgEnqueue iter read
  | dequeueTimeoutsCheck => exact h.withStore rfl
  | pop refMsg => exact h.withStore (entered_pop refMsg s.store)
  | wait ms => exact h.withStore rfl

theorem reachable_ok (h : Reachable Start (ofFun (step jReader)) s) : s.Ok jReader :=
  h.invariant (fun _ => start_ok) fun _ op _ hs hst => hst ▸ hs.step op

/-! ## A tick is such a run -/

/-- The entry of a peer in the log of the listener. -/
def logged (jReader : List UInt8 → Option V) :
    Peer × PeerFate → List (Nat × StdString × V)
  | (p, .answered read _) => (eventOf jReader read).toList.map (p.peerFd, ·)
  | _ => []

def log (jReader : List UInt8 → Option V) (s : Service V) : List (Nat × StdString × V) :=
  s.peers.left.flatMap (logged jReader)

def listener (jReader : List UInt8 → Option V) (s : Service V) : Listener V :=
  ⟨s.mConnsOpen, s.store.mEvents, s.log jReader⟩

/-- A run without a `pop`. -/
def Runs (jReader : List UInt8 → Option V) : Service V → Service V → Prop :=
  Relation.ReflTransGen fun s s' => ∃ op, (∀ refMsg, op ≠ .pop refMsg) ∧ s' = step jReader s op

theorem runs_step (jReader : List UInt8 → Option V) (s : Service V) (op : ServiceOp)
    (h : ∀ refMsg, op ≠ .pop refMsg) : Runs jReader s (s.step jReader op) :=
  .single ⟨op, h, rfl⟩

theorem Runs.ok {s' : Service V} (h : Runs jReader s s') (hok : s.Ok jReader) : s'.Ok jReader := by
  induction h with
  | refl => exact hok
  | tail _ hs ih =>
    obtain ⟨op, -, rfl⟩ := hs
    exact ih.step op

/-- The clock comes to show what it has to. -/
theorem runs_wait (jReader : List UInt8 → Option V) (s : Service V) (c : UInt32) :
    ∃ ms, millis (s.step jReader (.wait ms)).store.now = c ∧
      Runs jReader s (s.step jReader (.wait ms)) := by
  obtain ⟨ms, hms⟩ := WrappedClock.exists_wait s.store.now c
  exact ⟨ms, hms, runs_step jReader s _ nofun⟩

theorem log_accept (s : Service V) (t : Tick) (h : s.Ok jReader) :
    (s.step jReader (.connectionsAccept t)).log jReader = s.log jReader ∧
      (s.peerAccept t).entered.map Peer.peerFd =
        s.peers.entered.map Peer.peerFd ++ t.peerFd.toList := by
  unfold step log peerAccept
  dsimp only
  split
  · next hpeer => simp [hpeer]
  next peerFd hpeer =>
  split
  · rw [Custody.dismiss_enter (h.newPeer_not_held peerFd)]
    simp [hpeer, newPeer, logged]
  · split
    · simp [hpeer, newPeer, Custody.enter]
    · rw [Custody.dismiss_enter (h.newPeer_not_held peerFd)]
      simp [hpeer, newPeer, logged]

theorem mEvents_msgEnqueue (m : System V) (read : Read) :
    (EventListening.step jReader m (.msgEnqueue read)).mEvents =
      (EventListening.msgEnqueue jReader (millis m.now) read m.mEvents).mEvents := by
  unfold EventListening.step
  dsimp only
  split <;> rfl

/-- What the listener sees of a read. -/
theorem step_msgEnqueue {o : OpenEventConn} (h : s.Ok jReader) (ho : s.mConnsOpen[iter]? = some o)
    (read : Read) :
    (s.step jReader (.msgEnqueue iter read)).listener jReader =
        ⟨if read = .nothing then s.mConnsOpen else s.mConnsOpen.eraseIdx iter,
          (EventListening.msgEnqueue jReader (millis s.store.now) read s.store.mEvents).mEvents,
          s.log jReader ++ (eventOf jReader read).toList.map (o.pConn, ·)⟩ ∧
      (s.step jReader (.msgEnqueue iter read)).peers.entered = s.peers.entered := by
  have hpending := (msgEnqueue_event jReader (millis s.store.now) read s.store.mEvents).2
  rw [h.held, List.getElem?_map, Option.map_eq_some_iff] at ho
  obtain ⟨p, hp, rfl⟩ := ho
  have hlookup : s.mConnsOpen[iter]? = some p.conn := by
    rw [h.held, List.getElem?_map, hp, Option.map_some]
  unfold step
  simp only [hlookup, hp, hpending, Option.map_some, Option.some.injEq]
  split
  · next hnothing =>
    refine ⟨?_, rfl⟩
    rw [← mEvents_msgEnqueue, hnothing]
    simp [listener, log, eventOf]
  · refine ⟨?_, rfl⟩
    rw [← mEvents_msgEnqueue, listener, log]
    simp only [Custody.dismiss, (Custody.filter_key h.nodup hp).2, List.flatMap_append,
      List.map_cons, List.map_nil, List.flatMap_singleton]
    rfl

/-- The pass of `dataReceive` over the connections from `conns` on. -/
theorem dataReceive_runs (t : Tick) (seen : List OpenEventConn) {conns : List OpenEventConn}
    (h : s.Ok jReader) (hconns : s.mConnsOpen = seen ++ conns) :
    ∃ s', Runs jReader s s' ∧ s'.peers.entered = s.peers.entered ∧
      let l := dataReceive jReader t conns s.store.mEvents
      s'.listener jReader = ⟨seen ++ l.mConnsOpen, l.mEvents, s.log jReader ++ l.log⟩ := by
  induction conns generalizing s seen with
  | nil => exact ⟨s, .refl, rfl, by simp [listener, dataReceive, hconns]⟩
  | cons o conns ih =>
    -- the clock goes on to the time of this read, then the step at the place of `o` is made
    obtain ⟨ms, hclock, hwait⟩ := runs_wait jReader s (t.msEnqueue o.pConn)
    have hok := hwait.ok h
    have hat : (s.step jReader (.wait ms)).mConnsOpen[seen.length]? = some o := by
      show s.mConnsOpen[seen.length]? = some o
      rw [hconns, List.getElem?_append_right (Nat.le_refl _), Nat.sub_self]
      rfl
    have hread := runs_step jReader (s.step jReader (.wait ms))
      (.msgEnqueue seen.length (t.read o.pConn)) fun _ hop => ServiceOp.noConfusion hop
    obtain ⟨hlistener, hentered⟩ := step_msgEnqueue hok hat (t.read o.pConn)
    obtain ⟨hevent, hpending⟩ :=
      msgEnqueue_event jReader (t.msEnqueue o.pConn) (t.read o.pConn) s.store.mEvents
    generalize (s.step jReader (.wait ms)).step jReader _ = s₁ at hread hlistener hentered
    rw [hclock] at hlistener
    have hopen : s₁.mConnsOpen =
        if t.read o.pConn = .nothing then s.mConnsOpen else s.mConnsOpen.eraseIdx seen.length :=
      congrArg Listener.mConnsOpen hlistener
    have hmEvents : s₁.store.mEvents = (EventListening.msgEnqueue jReader (t.msEnqueue o.pConn)
        (t.read o.pConn) s.store.mEvents).mEvents := congrArg Listener.mEvents hlistener
    have hlog : s₁.log jReader =
        s.log jReader ++ (eventOf jReader (t.read o.pConn)).toList.map (o.pConn, ·) :=
      congrArg Listener.log hlistener
    have hrun : Runs jReader s s₁ := hwait.trans hread
    simp only [dataReceive, hpending, hevent]
    split
    · next hnothing =>
      rw [if_pos hnothing] at hopen
      -- the connection stays, so the place of the next one is one further
      have hrest : s₁.mConnsOpen = (seen ++ [o]) ++ conns := by
        rw [hopen, List.append_assoc]
        exact hconns
      obtain ⟨s₂, hruns, hsame, hseen⟩ := ih _ (hrun.ok h) hrest
      refine ⟨s₂, hrun.trans hruns, hsame.trans hentered, hseen.trans ?_⟩
      simp [hlog, hmEvents, hnothing, eventOf]
    · next hgiven =>
      rw [if_neg hgiven] at hopen
      -- the connection is gone, so the next one has come to its place
      have hrest : s₁.mConnsOpen = seen ++ conns := by
        rw [hopen, hconns, List.eraseIdx_append_of_length_le (Nat.le_refl _), Nat.sub_self]
        rfl
      obtain ⟨s₂, hruns, hsame, hseen⟩ := ih _ (hrun.ok h) hrest
      refine ⟨s₂, hrun.trans hruns, hsame.trans hentered, hseen.trans ?_⟩
      simp [hlog, hmEvents]

theorem connectionsAccept_runs (h : s.Ok jReader) (t : Tick) :
    ∃ s', Runs jReader s s' ∧
      s'.listener jReader = ⟨EventListening.connectionsAccept t s.mConnsOpen, s.store.mEvents,
        s.log jReader⟩ ∧
      s'.peers.entered.map Peer.peerFd =
        s.peers.entered.map Peer.peerFd ++ t.peerFd.toList := by
  obtain ⟨ms, hclock, hwait⟩ := runs_wait jReader s t.msAccept
  have hstep := runs_step jReader (s.step jReader (.wait ms)) (.connectionsAccept t) nofun
  obtain ⟨hlog, hpeers⟩ := log_accept (s.step jReader (.wait ms)) t (hwait.ok h)
  refine ⟨_, hwait.trans hstep, ?_, hpeers⟩
  rw [listener, hlog]
  show Listener.mk (EventListening.connectionsAccept { t with msAccept := millis _ } _) _ _ = _
  rw [hclock]
  rfl

theorem dataTimeoutsCheck_runs (jReader : List UInt8 → Option V) (s : Service V) (c : UInt32) :
    ∃ s', Runs jReader s s' ∧ s'.peers.entered = s.peers.entered ∧
      s'.listener jReader =
        ⟨EventListening.dataTimeoutsCheck c s.mConnsOpen, s.store.mEvents, s.log jReader⟩ := by
  obtain ⟨ms, hclock, hwait⟩ := runs_wait jReader s c
  have hstep := runs_step jReader (s.step jReader (.wait ms)) .dataTimeoutsCheck nofun
  refine ⟨_, hwait.trans hstep, rfl, ?_⟩
  rw [← hclock, listener, log, log]
  refine congrArg (Listener.mk _ _) ?_
  show (s.peers.left ++ List.map _ _).flatMap _ = _
  rw [List.flatMap_append, List.flatMap_map]
  exact (congrArg _ (List.flatMap_eq_nil_iff.mpr fun _ _ => rfl)).trans (List.append_nil _)

theorem dequeueTimeoutsCheck_runs (jReader : List UInt8 → Option V) (s : Service V)
    (c : UInt32) :
    ∃ s', Runs jReader s s' ∧ s'.peers.entered = s.peers.entered ∧
      s'.listener jReader =
        ⟨s.mConnsOpen, EventListening.dequeueTimeoutsCheck c s.store.mEvents, s.log jReader⟩ := by
  obtain ⟨ms, hclock, hwait⟩ := runs_wait jReader s c
  have hstep := runs_step jReader (s.step jReader (.wait ms)) .dequeueTimeoutsCheck nofun
  refine ⟨_, hwait.trans hstep, rfl, ?_⟩
  rw [← hclock]
  rfl

/-- A tick of `process()`, whatever its clock shows, is a run without a `pop`. -/
theorem process_runs (h : s.Ok jReader) (t : Tick) :
    ∃ s', Runs jReader s s' ∧ s'.listener jReader = process jReader t (s.listener jReader) ∧
      s'.peers.entered.map Peer.peerFd =
        s.peers.entered.map Peer.peerFd ++ t.peerFd.toList := by
  obtain ⟨s₁, hr₁, hl₁, hp₁⟩ := connectionsAccept_runs h t
  obtain ⟨s₂, hr₂, hp₂, hl₂⟩ := dataTimeoutsCheck_runs jReader s₁ t.msData
  obtain ⟨s₃, hr₃, hp₃, hl₃⟩ := dataReceive_runs t [] (hr₂.ok (hr₁.ok h))
    (List.nil_append s₂.mConnsOpen).symm
  obtain ⟨s₄, hr₄, hp₄, hl₄⟩ := dequeueTimeoutsCheck_runs jReader s₃ t.msDequeue
  refine ⟨s₄, hr₁.trans (hr₂.trans (hr₃.trans hr₄)), ?_, by rw [hp₄, hp₃, hp₂, hp₁]⟩
  injection hl₁ with hc₁ he₁ hg₁
  injection hl₂ with hc₂ he₂ hg₂
  injection hl₃ with hc₃ he₃ hg₃
  rw [hl₄, hc₃, he₃, hg₃, hc₂, he₂, hg₂, hc₁, he₁, hg₁]
  rfl

theorem Runs.reachable {s' : Service V} (h : Runs jReader s s')
    (hs : Reachable Start (ofFun (step jReader)) s) :
    Reachable Start (ofFun (step jReader)) s' := by
  induction h with
  | refl => exact hs
  | tail _ hstep ih =>
    obtain ⟨op, -, rfl⟩ := hstep
    exact ih.next rfl

/-- What the listener and the others call. -/
inductive Call
  | process (t : Tick)
  | pop (refMsg : StdString)

def Call.peerFd : Call → Option Nat
  | .process t => t.peerFd
  | .pop _ => none

def call (jReader : List UInt8 → Option V) (l : Listener V) : Call → Listener V
  | .process t => EventListening.process jReader t l
  | .pop refMsg => { l with mEvents := (EventListening.pop refMsg l.mEvents).2 }

theorem mEvents_pop (m : System V) (refMsg : StdString) :
    (EventListening.step jReader m (.pop refMsg)).mEvents =
      (EventListening.pop refMsg m.mEvents).2 := by
  unfold EventListening.step
  dsimp only
  split <;> rfl

/-- Every run of calls is one of the steps. -/
theorem calls_reachable (hs : Reachable Start (ofFun (step jReader)) s) (cs : List Call) :
    ∃ s', Reachable Start (ofFun (step jReader)) s' ∧
      s'.listener jReader = cs.foldl (call jReader) (s.listener jReader) ∧
      s'.peers.entered.map Peer.peerFd =
        s.peers.entered.map Peer.peerFd ++ cs.filterMap Call.peerFd := by
  induction cs generalizing s with
  | nil => exact ⟨s, hs, rfl, (List.append_nil _).symm⟩
  | cons c cs ih =>
    cases c with
    | process t =>
      obtain ⟨s₁, hrun, hlistener, hpeers⟩ := process_runs (reachable_ok hs) t
      obtain ⟨s', hs', hl', hp'⟩ := ih (hrun.reachable hs)
      refine ⟨s', hs', hl'.trans (by rw [hlistener]; rfl), hp'.trans ?_⟩
      rw [hpeers, List.append_assoc, List.filterMap_cons, Call.peerFd]
      cases t.peerFd <;> rfl
    | pop refMsg =>
      obtain ⟨s', hs', hl', hp'⟩ := ih (hs.next (i := .pop refMsg) rfl)
      refine ⟨s', hs', hl'.trans ?_, hp'⟩
      refine congrArg (cs.foldl _) ?_
      show Listener.mk s.mConnsOpen (EventListening.step _ _ _).mEvents (s.log jReader) = _
      rw [mEvents_pop]
      rfl

/-! ## The account -/

/-- Every peer is open or has one fate, and the fates are as they should be; the events are those of
the peers, and `mEvents` has those that did not leave it. -/
structure Accounted (jReader : List UInt8 → Option V) (s : Service V) : Prop where
  once : s.peers.entered.Perm (s.peers.held ++ s.peers.left.map Prod.fst)
  distinct : (s.peers.held ++ s.peers.left.map Prod.fst).Nodup
  opened : s.mConnsOpen = s.peers.held.map Peer.conn
  limit : s.mConnsOpen.length ≤ 10
  refused : ∀ p others, (p, .refused others) ∈ s.peers.left →
    others.length = 10 ∧ ∀ q ∈ others, q ∈ s.peers.entered ∧ q.id < p.id
  timedOut : ∀ p time, (p, .timedOut time) ∈ s.peers.left → p.time + 300 ≤ time
  answered : ∀ p read event, (p, .answered read event) ∈ s.peers.left → read ≠ .nothing ∧
    (eventOf jReader read = none → event = none) ∧
    ∀ m, eventOf jReader read = some m → ∃ e ∈ s.store.history.entered,
      event = some e.id ∧ (e.refMsg, e.msgEvent) = m ∧ p.time ≤ e.time
  events : s.peers.left.filterMap eventGiven = s.store.history.entered.map Event.id
  waiting : s.store.history.entered.Perm
    (s.store.history.held ++ s.store.history.left.map Prod.fst)
  stored : ∀ e ∈ s.store.history.held, s.store.mEvents.lookup e.refMsg = some e.stored
  found : ∀ refMsg v, s.store.mEvents.lookup refMsg = some v →
    ∃ e ∈ s.store.history.held, e.refMsg = refMsg ∧ v = e.stored

theorem Ok.accounted (h : s.Ok jReader) : s.Accounted jReader where
  once := h.balanced
  distinct := by
    refine h.balanced.nodup (List.Nodup.of_map Peer.id ?_)
    rw [h.ids]
    exact List.nodup_range
  opened := h.held
  limit := h.length
  refused p others hx := h.met _ hx
  timedOut p time hx := h.met _ hx
  answered p read event hx := by
    obtain ⟨hread, hmet⟩ := h.met _ hx
    refine ⟨hread, fun hnone => ?_, fun m hsome => ?_⟩
    · rwa [hnone] at hmet
    · rwa [hsome] at hmet
  events := h.given.trans h.store.ids.symm
  waiting := h.store.balanced
  stored := h.store.held
  found refMsg v hv := by
    obtain ⟨e, he, rfl⟩ := h.store.owned refMsg v hv
    exact ⟨e, he, rfl, Option.some.inj (hv.symm.trans (h.store.held e he))⟩

/-- In every run of the listener, with pops at any moment: every peer is a connection or has been
dismissed, each once. At most ten are open, one is refused while ten are, one times out not before
300 ms, and one that gives something or is lost is dismissed with the event in what was read. The
events enqueued are those of the peers, one by one, and those that did not leave are in `mEvents`.
The runs of `process()` and `pop()` are such runs. -/
theorem connections_accounted (jReader : List UInt8 → Option V) :
    (∀ s, Reachable Start (ofFun (step jReader)) s → s.Accounted jReader) ∧
      ∀ cs : List Call, ∃ s, Reachable Start (ofFun (step jReader)) s ∧
        s.listener jReader = cs.foldl (call jReader) ⟨[], ∅, []⟩ ∧
        s.peers.entered.map Peer.peerFd = cs.filterMap Call.peerFd := by
  refine ⟨fun s h => (reachable_ok h).accounted, fun cs => ?_⟩
  have hstart : Reachable Start (ofFun (step jReader)) ⟨[], ⟨∅, 0, {}⟩, {}, 0⟩ :=
    .start ⟨rfl, ⟨rfl, rfl⟩, rfl, rfl⟩
  exact calls_reachable hstart cs

/-- A tick in which a peer comes. -/
def peerTick (peerFd : Nat) : Tick := tickOf (some peerFd) 0 .nothing

/-- The last one of eleven peers is refused. -/
theorem connections_accounted_eleven : ∃ s, Reachable Start (ofFun (step readerA)) s ∧
    s.mConnsOpen.length = 10 ∧ s.peers.left.length = 1 ∧ s.Accounted readerA := by
  have hstart : Reachable Start (ofFun (step readerA)) ⟨[], ⟨∅, 0, {}⟩, {}, 0⟩ :=
    .start ⟨rfl, ⟨rfl, rfl⟩, rfl, rfl⟩
  have hrun := hstart.foldl
    ((List.range 11).map fun peerFd => .connectionsAccept (peerTick peerFd))
  exact ⟨_, hrun, rfl, rfl, (connections_accounted readerA).1 _ hrun⟩

/-! ## The age of a connection -/

/-- The clock is not left alone for a turn. -/
def Watched (s : Service V) (op : ServiceOp) : Prop :=
  op = .dataTimeoutsCheck → s.store.now + cMsDelayDataMax.toNat ≤ s.checked + 2 ^ 32

structure Young (s : Service V) : Prop where
  checked : s.checked ≤ s.store.now
  held : ∀ p ∈ s.peers.held, p.time ≤ s.checked → s.checked < p.time + cMsDelayDataMax.toNat

omit [JsonValue V] in
theorem Young.start (h : s.Start) : s.Young := by
  obtain ⟨-, -, hpeers, hchecked⟩ := h
  refine ⟨Nat.le_of_eq hchecked, fun p hp => ?_⟩
  rw [hpeers] at hp
  cases hp

omit [JsonValue V] in
/-- Between the checks connections come and go. -/
theorem Young.of_held {s' : Service V} (h : s.Young) (hchecked : s'.checked = s.checked)
    (hnow : s.store.now ≤ s'.store.now)
    (hheld : ∀ p ∈ s'.peers.held, p ∈ s.peers.held ∨ p.time = s.store.now) : s'.Young := by
  refine ⟨hchecked ▸ Nat.le_trans h.checked hnow, fun p hp hle => ?_⟩
  rw [hchecked] at hle ⊢
  rcases hheld p hp with hold | hnew
  · exact h.held p hold hle
  · have hc := h.checked
    rw [hnew]
    exact Nat.lt_of_le_of_lt hc (Nat.lt_add_of_pos_right (by decide))

theorem Young.dataTimeoutsCheck (h : s.Young) (hok : s.Ok jReader)
    (hwatched : s.Watched .dataTimeoutsCheck) : (s.step jReader .dataTimeoutsCheck).Young := by
  refine ⟨Nat.le_refl _, fun p hp _ => ?_⟩
  obtain ⟨hp, hwaits⟩ := Custody.mem_held_dismiss.mp hp
  have htime := hok.time p (hok.balanced.entered_of_held hp)
  exact (WrappedClock.waits_iff_of_seen htime (h.held p hp) (hwatched rfl)).mp
    (not_not.mp (of_decide_eq_false hwaits))

omit [JsonValue V] in
theorem held_peerAccept {q : Peer} (hq : q ∈ (s.peerAccept t).held) :
    q ∈ s.peers.held ∨ q.time = s.store.now := by
  have henter : ∀ fd, q ∈ (s.peers.enter (s.newPeer fd)).held →
      q ∈ s.peers.held ∨ q.time = s.store.now := by
    intro fd hq
    rcases List.mem_append.mp hq with hq | hq
    · exact .inl hq
    · cases List.mem_singleton.mp hq
      exact .inr rfl
  unfold peerAccept at hq
  split at hq
  · exact .inl hq
  · dsimp only at hq
    split at hq
    · exact henter _ (Custody.mem_held_dismiss.mp hq).1
    · split at hq
      · exact henter _ hq
      · exact henter _ (Custody.mem_held_dismiss.mp hq).1

theorem Young.msgEnqueue (h : s.Young) (iter : Nat) (read : Read) :
    (s.step jReader (.msgEnqueue iter read)).Young := by
  unfold step
  dsimp only
  split
  · exact h
  · split
    · exact h.of_held rfl (now_step s.store _) fun p hp => .inl hp
    · exact h.of_held rfl (now_step s.store _) fun p hp =>
        .inl (Custody.mem_held_dismiss.mp hp).1

theorem Young.step (h : s.Young) (hok : s.Ok jReader) {op : ServiceOp} (hwatched : s.Watched op) :
    (s.step jReader op).Young := by
  cases op with
  | connectionsAccept t => exact h.of_held rfl (Nat.le_refl _) fun p hp => held_peerAccept hp
  | dataTimeoutsCheck => exact h.dataTimeoutsCheck hok hwatched
  | msgEnqueue iter read => exact h.msgEnqueue iter read
  | dequeueTimeoutsCheck => exact h.of_held rfl (now_step s.store _) fun p hp => .inl hp
  | pop refMsg => exact h.of_held rfl (now_step s.store _) fun p hp => .inl hp
  | wait ms => exact h.of_held rfl (now_step s.store _) fun p hp => .inl hp

/-- A connection is open until the first check from 300 ms on, and not longer: what is open was
not 300 ms old at the last check, and what has timed out was. -/
theorem connections_in_time (h : Reachable Start (guarded Watched (ofFun (step jReader))) s) :
    (∀ p ∈ s.peers.held, p.time ≤ s.checked → s.checked < p.time + 300) ∧
      ∀ p time, (p, .timedOut time) ∈ s.peers.left → p.time + 300 ≤ time := by
  have hinv : s.Ok jReader ∧ s.Young := by
    refine h.invariant (P := fun s => s.Ok jReader ∧ s.Young)
      (fun s hs => ⟨start_ok hs, .start hs⟩) fun s op t hs hst => ?_
    obtain ⟨hwatched, rfl⟩ := hst
    exact ⟨hs.1.step op, hs.2.step hs.1 hwatched⟩
  exact ⟨hinv.2.held, hinv.1.accounted.timedOut⟩

/-- The first peer gives a message, the second one nothing for 300 ms. -/
theorem connections_in_time_two : ∃ s,
    Reachable Start (guarded Watched (ofFun (step readerA))) s ∧
      s.mConnsOpen = [] ∧ s.peers.left = [
        (⟨0, 5, 0⟩, .answered (.data eventA) (some 0)), (⟨1, 6, 100⟩, .timedOut 400)] ∧
      ∀ p time, (p, .timedOut time) ∈ s.peers.left → p.time + 300 ≤ time := by
  have hstart : Reachable Start (guarded Watched (ofFun (step readerA)))
      ⟨[], ⟨∅, 0, {}⟩, {}, 0⟩ := .start ⟨rfl, ⟨rfl, rfl⟩, rfl, rfl⟩
  have hrun := (((((hstart.apply (.connectionsAccept (peerTick 5)) nofun).apply
    (.msgEnqueue 0 (.data eventA)) nofun).apply (.wait 100) nofun).apply
    (.connectionsAccept (peerTick 6)) nofun).apply (.wait 300) nofun).apply
    .dataTimeoutsCheck (fun _ => by decide)
  exact ⟨_, hrun, rfl, rfl, (connections_in_time hrun).2⟩

end Service

end EventListening

end ProcessingCommon
