import ProcessingCommon.EventListening.Store

/-!
# The reception of a message

What the listener makes of the bytes of one connection, in whatever pieces they come, while any
other connections are served: the first piece that comes is the message. The log of the listener
says what was enqueued, and the store gets exactly that.
-/

namespace ProcessingCommon

namespace EventListening

variable {V : Type} [JsonValue V] {jReader : List UInt8 → Option V} {t : Tick} {ts : List Tick}
  {l : Listener V} {conns : List OpenEventConn} {mEvents : Events V} {c : Nat} {ms : UInt32}
  {reads : List Read} {refMsg : StdString} {msgEvent : V} {log : List (Nat × StdString × V)}

/-- The entries of connection `c`. -/
def connOf (c : Nat) (conns : List OpenEventConn) : List OpenEventConn :=
  conns.filter fun o => o.pConn = c

def logOf (c : Nat) (l : Listener V) : List (Nat × StdString × V) :=
  l.log.filter fun e => e.1 = c

/-- The event in what was read. -/
def eventOf (jReader : List UInt8 → Option V) : Read → Option (StdString × V)
  | .data buf => msgParse jReader buf
  | _ => none

/-! ## One tick -/

/-- Whether an event is enqueued does not depend on the others. -/
theorem msgEnqueue_event (jReader : List UInt8 → Option V) (millis : UInt32) (read : Read)
    (mEvents : Events V) :
    (msgEnqueue jReader millis read mEvents).event = eventOf jReader read ∧
      ((msgEnqueue jReader millis read mEvents).success = .pending ↔ read = .nothing) := by
  cases read with
  | data buf =>
    cases hparse : msgParse jReader buf with
    | none => simp [msgEnqueue, eventOf, hparse]
    | some m => simp [msgEnqueue, eventOf, hparse]
  | _ => simp [msgEnqueue, eventOf]

theorem connOf_accept (h : t.peerFd ≠ some c) :
    connOf c (connectionsAccept t conns) = connOf c conns := by
  unfold connectionsAccept
  split
  · rfl
  · next peerFd hpeer =>
    have hne : peerFd ≠ c := fun he => h (he ▸ hpeer)
    split
    · rfl
    · split
      · simp [connOf, hne]
      · rfl

theorem dataTimeoutsCheck_eq (cur : UInt32) (conns : List OpenEventConn) :
    dataTimeoutsCheck cur conns =
      conns.filter fun o => cur - o.msStart < cMsDelayDataMax := by
  induction conns with
  | nil => rfl
  | cons o conns ih =>
    rw [dataTimeoutsCheck, List.filter_cons, ih]
    simp only [decide_eq_true_eq]

theorem connOf_timeouts (cur : UInt32) (conns : List OpenEventConn) :
    connOf c (dataTimeoutsCheck cur conns) =
      (connOf c conns).filter fun o => cur - o.msStart < cMsDelayDataMax := by
  rw [dataTimeoutsCheck_eq, connOf, connOf, List.filter_filter, List.filter_filter]
  exact List.filter_congr fun o _ => Bool.and_comm _ _

theorem connOf_cons {o : OpenEventConn} :
    connOf c (o :: conns) = if o.pConn = c then o :: connOf c conns else connOf c conns := by
  rw [connOf, List.filter_cons]
  simp only [decide_eq_true_eq]
  rfl

/-- The connection is kept as long as nothing comes. -/
theorem connOf_receive :
    connOf c (dataReceive jReader t conns mEvents).mConnsOpen =
      if t.read c = .nothing then connOf c conns else [] := by
  induction conns generalizing mEvents with
  | nil => simp [dataReceive, connOf]
  | cons o conns ih =>
    have hpend := (msgEnqueue_event jReader (t.msEnqueue o.pConn) (t.read o.pConn) mEvents).2
    simp only [dataReceive, hpend, connOf_cons]
    by_cases ho : o.pConn = c
    · rw [ho, if_pos rfl]
      split
      · next hr => simp only [connOf_cons, if_pos ho, ih, if_pos hr]
      · next hr => simp only [ih, if_neg hr]
    · rw [if_neg ho]
      split
      · rw [connOf_cons, if_neg ho, ih]
      · exact ih

omit [JsonValue V] in
/-- What a connection adds to the log is its own. -/
theorem logOf_append {d : Nat} {event : Option (StdString × V)} :
    logOf c { l with log := event.toList.map (d, ·) ++ l.log } =
      (if d = c then event.toList.map (c, ·) else []) ++ logOf c l := by
  rw [logOf, List.filter_append]
  refine congrArg (· ++ _) ?_
  cases event with
  | none => simp
  | some e => by_cases hd : d = c <;> simp [hd]

theorem logOf_receive :
    logOf c (dataReceive jReader t conns mEvents) =
      (connOf c conns).flatMap fun _ => (eventOf jReader (t.read c)).toList.map (c, ·) := by
  induction conns generalizing mEvents with
  | nil => rfl
  | cons o conns ih =>
    obtain ⟨hevent, hpend⟩ :=
      msgEnqueue_event jReader (t.msEnqueue o.pConn) (t.read o.pConn) mEvents
    simp only [dataReceive, hpend, hevent, connOf_cons]
    split
    · next hr =>
      split
      · next ho =>
        rw [ho] at hr
        rw [List.flatMap_cons, hr]
        exact ih.trans (by rw [hr]; rfl)
      · exact ih
    · rw [logOf_append, ih]
      split
      · next ho => rw [List.flatMap_cons, ho]
      · rfl

/-- A tick of an open connection: it stays if nothing comes, and what comes is taken as its
event. -/
theorem process_open (jReader : List UInt8 → Option V)
    (hopen : connOf c (connectionsAccept t l.mConnsOpen) = [⟨c, ms⟩])
    (htime : t.msData - ms < cMsDelayDataMax) :
    connOf c (process jReader t l).mConnsOpen = (if t.read c = .nothing then [⟨c, ms⟩] else []) ∧
      logOf c (process jReader t l) =
        logOf c l ++ (eventOf jReader (t.read c)).toList.map (c, ·) := by
  have hstay : connOf c (dataTimeoutsCheck t.msData (connectionsAccept t l.mConnsOpen)) =
      [⟨c, ms⟩] := by
    rw [connOf_timeouts, hopen]
    simp [htime]
  refine ⟨?_, ?_⟩
  · show connOf c (dataReceive _ _ _ _).mConnsOpen = _
    rw [connOf_receive, hstay]
  · show (l.log ++ (dataReceive _ _ _ _).log).filter _ = _
    rw [List.filter_append]
    show _ ++ logOf c (dataReceive _ _ _ _) = _
    rw [logOf_receive, hstay]
    simp [logOf]

/-- A connection that is gone adds nothing. -/
theorem process_gone (jReader : List UInt8 → Option V)
    (hgone : connOf c l.mConnsOpen = []) (hpeer : t.peerFd ≠ some c) :
    connOf c (process jReader t l).mConnsOpen = [] ∧
      logOf c (process jReader t l) = logOf c l := by
  have hnone : connOf c (dataTimeoutsCheck t.msData (connectionsAccept t l.mConnsOpen)) = [] := by
    rw [connOf_timeouts, connOf_accept hpeer, hgone]
    rfl
  refine ⟨?_, ?_⟩
  · show connOf c (dataReceive _ _ _ _).mConnsOpen = _
    rw [connOf_receive, hnone, ite_self]
  · show (l.log ++ (dataReceive _ _ _ _).log).filter _ = _
    rw [List.filter_append]
    show _ ++ logOf c (dataReceive _ _ _ _) = _
    rw [logOf_receive, hnone]
    simp [logOf]

/-! ## The store in one tick -/

/-- What was logged in this tick goes into the store in this order. -/
def enqueueAll (t : Tick) (log : List (Nat × StdString × V)) (mEvents : Events V) : Events V :=
  log.foldl (fun mEvents x => mEvents.insert x.2.1 (stamped (t.msEnqueue x.1) x.2.2)) mEvents

/-- The store gets what is logged, and nothing else. -/
theorem mEvents_receive :
    (dataReceive jReader t conns mEvents).mEvents =
      enqueueAll t (dataReceive jReader t conns mEvents).log mEvents := by
  induction conns generalizing mEvents with
  | nil => rfl
  | cons o conns ih =>
    unfold dataReceive
    cases t.read o.pConn with
    | data buf =>
      cases hparse : msgParse jReader buf with
      | none =>
        simp only [msgEnqueue, hparse]
        exact ih
      | some m =>
        simp only [msgEnqueue, hparse]
        exact ih
    | _ => exact ih

/-- Every entry is the event of its own connection. -/
theorem mem_log_receive {x : Nat × StdString × V}
    (hx : x ∈ (dataReceive jReader t conns mEvents).log) :
    eventOf jReader (t.read x.1) = some x.2 := by
  have hof : x ∈ logOf x.1 (dataReceive jReader t conns mEvents) :=
    List.mem_filter.mpr ⟨hx, decide_eq_true rfl⟩
  rw [logOf_receive] at hof
  obtain ⟨-, -, hx⟩ := List.mem_flatMap.mp hof
  obtain ⟨y, hy, heq⟩ := List.mem_map.mp hx
  rw [← heq]
  exact Option.mem_toList.mp hy

theorem lookup_enqueueAll_of_ne (h : ∀ x ∈ log, x.2.1 ≠ refMsg) :
    (enqueueAll t log mEvents).lookup refMsg = mEvents.lookup refMsg := by
  induction log generalizing mEvents with
  | nil => rfl
  | cons x log ih =>
    rw [List.forall_mem_cons] at h
    refine (ih h.2).trans ?_
    exact AList.lookup_insert_ne (Ne.symm h.1)

/-- The event of a connection is in the store if it is the only one of its reference. -/
theorem lookup_enqueueAll (hc : log.filter (fun x => x.1 = c) = [(c, refMsg, msgEvent)])
    (hother : ∀ x ∈ log, x.1 ≠ c → x.2.1 ≠ refMsg) :
    (enqueueAll t log mEvents).lookup refMsg = some (stamped (t.msEnqueue c) msgEvent) := by
  induction log generalizing mEvents with
  | nil => cases hc
  | cons x log ih =>
    rw [List.forall_mem_cons] at hother
    by_cases hx : x.1 = c
    · rw [List.filter_cons, if_pos (decide_eq_true hx), List.cons.injEq] at hc
      obtain ⟨rfl, hrest⟩ := hc
      -- no entry of `c` is left, and those of the others have other references
      refine (lookup_enqueueAll_of_ne fun y hy => hother.2 y hy fun hyc => ?_).trans
        (AList.lookup_insert _)
      exact List.filter_eq_nil_iff.mp hrest y hy (decide_eq_true hyc)
    · rw [List.filter_cons, if_neg (by simpa using hx)] at hc
      exact ih hc hother.2

theorem process_stores (jReader : List UInt8 → Option V) (t : Tick) (l : Listener V) :
    ∃ log, (process jReader t l).log = l.log ++ log ∧
      (process jReader t l).mEvents =
        dequeueTimeoutsCheck t.msDequeue (enqueueAll t log l.mEvents) :=
  ⟨_, rfl, congrArg (dequeueTimeoutsCheck t.msDequeue) mEvents_receive⟩

/-- A tick in which an open connection gives an event, no other one gives one of its reference,
and the check of the store comes soon. -/
theorem process_lookup [LawfulJsonValue V]
    (hopen : connOf c (connectionsAccept t l.mConnsOpen) = [⟨c, ms⟩])
    (htime : t.msData - ms < cMsDelayDataMax)
    (hevent : eventOf jReader (t.read c) = some (refMsg, msgEvent))
    (hother : ∀ d ≠ c, ∀ x, eventOf jReader (t.read d) = some x → x.1 ≠ refMsg)
    (hsoon : t.msDequeue - t.msEnqueue c < cMsDelayDequeueMax) :
    (process jReader t l).mEvents.lookup refMsg =
      some (stamped (t.msEnqueue c) msgEvent) := by
  have hstay : connOf c (dataTimeoutsCheck t.msData (connectionsAccept t l.mConnsOpen)) =
      [⟨c, ms⟩] := by
    rw [connOf_timeouts, hopen]
    simp [htime]
  have hobject : JsonValue.isObject msgEvent = true := by
    cases hr : t.read c with
    | data buf =>
      rw [hr] at hevent
      exact msgParse_isObject hevent
    | _ =>
      rw [hr] at hevent
      cases hevent
  -- it is young enough for the check of the store, so the question is what the reads have stored
  refine lookup_dequeue.mpr ⟨?_, by rw [enqueuedAt_stamped _ hobject]; exact hsoon⟩
  rw [mEvents_receive]
  refine lookup_enqueueAll ?_ fun x hx hne => hother x.1 hne x.2 (mem_log_receive hx)
  refine logOf_receive.trans ?_
  rw [hstay, hevent]
  rfl

/-! ## Any number of ticks -/

def run (jReader : List UInt8 → Option V) (ts : List Tick) (l : Listener V) : Listener V :=
  ts.foldl (fun l t => process jReader t l) l

def Read.bytes : Read → List UInt8
  | .data buf => buf
  | _ => []

/-- What a read may give while the connection lasts. -/
def Read.Piece : Read → Prop
  | .nothing => True
  | .lost => False
  | .data buf => buf ≠ [] ∧ buf.length ≤ lenReq

instance : (r : Read) → Decidable r.Piece
  | .nothing => inferInstanceAs (Decidable True)
  | .lost => inferInstanceAs (Decidable False)
  | .data _ => inferInstanceAs (Decidable (_ ∧ _))

/-- The reads give the message in pieces, with empty reads between them. -/
structure Segments (m : List UInt8) (reads : List Read) : Prop where
  piece : ∀ r ∈ reads, r.Piece
  bytes : (reads.map Read.bytes).flatten = m

/-- The first piece. -/
def firstData : List Read → Option (List UInt8)
  | [] => none
  | .data buf :: _ => some buf
  | _ :: reads => firstData reads

theorem firstData_prefix {buf m : List UInt8} (h : Segments m reads)
    (hbuf : firstData reads = some buf) : buf <+: m ∧ .data buf ∈ reads := by
  have hbytes := h.bytes
  clear h
  induction reads generalizing m with
  | nil => cases hbuf
  | cons r reads ih =>
    cases r with
    | data b =>
      cases hbuf
      exact ⟨⟨_, hbytes⟩, List.mem_cons_self⟩
    | _ =>
      obtain ⟨hpre, hmem⟩ := ih hbuf hbytes
      exact ⟨hpre, List.mem_cons_of_mem _ hmem⟩

theorem run_gone (jReader : List UInt8 → Option V)
    (hgone : connOf c l.mConnsOpen = []) (hpeer : ∀ t ∈ ts, t.peerFd ≠ some c) :
    connOf c (run jReader ts l).mConnsOpen = [] ∧ logOf c (run jReader ts l) = logOf c l := by
  induction ts generalizing l with
  | nil => exact ⟨hgone, rfl⟩
  | cons t ts ih =>
    obtain ⟨hconn, hlog⟩ := process_gone jReader hgone (hpeer t List.mem_cons_self)
    obtain ⟨hconn', hlog'⟩ := ih hconn fun t ht => hpeer t (List.mem_cons_of_mem _ ht)
    exact ⟨hconn', hlog'.trans hlog⟩

/-- The event of the first piece is all that is enqueued for a connection, which is then closed. -/
def Received (jReader : List UInt8 → Option V) (c : Nat) (ms : UInt32) (ts : List Tick)
    (l : Listener V) : Prop :=
  let first := firstData (ts.map fun t => t.read c)
  connOf c (run jReader ts l).mConnsOpen = (if first = none then [⟨c, ms⟩] else []) ∧
    logOf c (run jReader ts l) =
      logOf c l ++ (first.bind (msgParse jReader)).toList.map (c, ·)

/-- In every tick the store gets what is logged, in this order, and then loses what is too old. -/
def Stores (jReader : List UInt8 → Option V) (ts : List Tick) (l : Listener V) : Prop :=
  ∀ before u after, ts = before ++ u :: after → ∃ log,
    (run jReader (before ++ [u]) l).log = (run jReader before l).log ++ log ∧
      (run jReader (before ++ [u]) l).mEvents =
        dequeueTimeoutsCheck u.msDequeue (enqueueAll u log (run jReader before l).mEvents)

/-- After the tick of the first piece its event is found under its reference, unless another
connection has given one of this reference or the check of the store came late. -/
def Stored (jReader : List UInt8 → Option V) (c : Nat) (ts : List Tick) (l : Listener V) : Prop :=
  ∀ before u after buf refMsg msgEvent, ts = before ++ u :: after →
    (∀ v ∈ before, v.read c = .nothing) → u.read c = .data buf →
    msgParse jReader buf = some (refMsg, msgEvent) →
    (∀ d ≠ c, ∀ x, eventOf jReader (u.read d) = some x → x.1 ≠ refMsg) →
    u.msDequeue - u.msEnqueue c < cMsDelayDequeueMax →
    (run jReader (before ++ [u]) l).mEvents.lookup refMsg =
      some (stamped (u.msEnqueue c) msgEvent)

theorem run_concat (before : List Tick) (u : Tick) :
    run jReader (before ++ [u]) l = process jReader u (run jReader before l) :=
  List.foldl_concat ..

theorem run_stores (jReader : List UInt8 → Option V) (ts : List Tick) (l : Listener V) :
    Stores jReader ts l := by
  intro before u after _
  rw [run_concat]
  exact process_stores jReader u _

theorem firstData_nothing (h : ∀ r ∈ reads, r = .nothing) : firstData reads = none := by
  induction reads with
  | nil => rfl
  | cons r reads ih =>
    rw [List.forall_mem_cons] at h
    rw [h.1]
    exact ih h.2

theorem run_cons (hopen : connOf c (connectionsAccept t l.mConnsOpen) = [⟨c, ms⟩])
    (htime : t.msData - ms < cMsDelayDataMax) (hkept : t.read c ≠ .lost)
    (hpeer : ∀ u ∈ ts, u.peerFd ≠ some c)
    (hrest : ∀ l', connOf c l'.mConnsOpen = [⟨c, ms⟩] → Received jReader c ms ts l') :
    Received jReader c ms (t :: ts) l := by
  obtain ⟨hconn, hlog⟩ := process_open jReader hopen htime
  cases hr : t.read c with
  | nothing =>
    rw [hr] at hconn hlog
    obtain ⟨hconn', hlog'⟩ := hrest _ hconn
    simp only [Received, List.map_cons, hr, firstData]
    refine ⟨hconn', hlog'.trans ?_⟩
    rw [hlog]
    simp [eventOf]
  | lost => exact absurd hr hkept
  | data buf =>
    rw [hr] at hconn hlog
    obtain ⟨hconn', hlog'⟩ := run_gone jReader hconn hpeer
    simp only [Received, List.map_cons, hr, firstData]
    exact ⟨hconn', hlog'.trans hlog⟩

theorem run_open (hopen : connOf c l.mConnsOpen = [⟨c, ms⟩])
    (hpeer : ∀ u ∈ ts, u.peerFd ≠ some c) (htime : ∀ u ∈ ts, u.msData - ms < cMsDelayDataMax)
    (hkept : ∀ u ∈ ts, u.read c ≠ .lost) : Received jReader c ms ts l := by
  induction ts generalizing l with
  | nil =>
    refine ⟨hopen, ?_⟩
    simp [run, firstData]
  | cons t ts ih =>
    rw [List.forall_mem_cons] at hpeer htime hkept
    have haccept : connOf c (connectionsAccept t l.mConnsOpen) = [⟨c, ms⟩] :=
      (connOf_accept hpeer.1).trans hopen
    exact run_cons haccept htime.1 hkept.1 hpeer.2 fun l' hl' => ih hl' hpeer.2 htime.2 hkept.2

/-- The ticks from the one on in which the connection is accepted or open. -/
theorem run_received (hopen : connOf c (connectionsAccept t l.mConnsOpen) = [⟨c, ms⟩])
    (hpeer : ∀ u ∈ ts, u.peerFd ≠ some c)
    (htime : ∀ u ∈ t :: ts, u.msData - ms < cMsDelayDataMax)
    (hkept : ∀ u ∈ t :: ts, u.read c ≠ .lost) : Received jReader c ms (t :: ts) l := by
  rw [List.forall_mem_cons] at htime hkept
  exact run_cons hopen htime.1 hkept.1 hpeer fun l' hl' => run_open hl' hpeer htime.2 hkept.2

/-- As long as nothing came the connection is open. -/
theorem run_stored [LawfulJsonValue V]
    (hopen : connOf c (connectionsAccept t l.mConnsOpen) = [⟨c, ms⟩])
    (hpeer : ∀ u ∈ ts, u.peerFd ≠ some c)
    (htime : ∀ u ∈ t :: ts, u.msData - ms < cMsDelayDataMax) :
    Stored jReader c (t :: ts) l := by
  intro before u after buf refMsg msgEvent hts hnothing hread hparse hother hsoon
  have hevent : eventOf jReader (u.read c) = some (refMsg, msgEvent) := by
    rw [hread]
    exact hparse
  have hu : u.msData - ms < cMsDelayDataMax :=
    htime u (hts ▸ List.mem_append_right _ List.mem_cons_self)
  rw [run_concat]
  cases before with
  | nil =>
    obtain rfl : t = u := (List.cons.inj hts).1
    exact process_lookup hopen hu hevent hother hsoon
  | cons v before =>
    obtain ⟨rfl, hts'⟩ := List.cons.inj hts
    have hwaits : Received jReader c ms (t :: before) l := run_received hopen
      (fun w hw => hpeer w (hts' ▸ List.mem_append_left _ hw))
      (fun w hw => htime w (hts ▸ List.mem_append_left _ hw))
      fun w hw => by rw [hnothing w hw]; exact Read.noConfusion
    have hfirst : firstData ((t :: before).map fun w => w.read c) = none :=
      firstData_nothing (List.forall_mem_map.mpr hnothing)
    refine process_lookup ?_ hu hevent hother hsoon
    rw [connOf_accept (hpeer u (hts' ▸ List.mem_append_right _ List.mem_cons_self)), hwaits.1,
      hfirst]
    rfl

/-- The bytes of a message come over a connection in any pieces, from the tick on in which it is
accepted or open, within the timeout. The event of the first piece, if it has one, is all that is
enqueued, and what is enqueued is what the store gets. So where the reader accepts no proper
beginning of the message, the event is enqueued if the first piece is the whole message, which then
fits into the buffer, and otherwise nothing is. -/
theorem reception [LawfulJsonValue V] {m : List UInt8}
    (hopen : connOf c (connectionsAccept t l.mConnsOpen) = [⟨c, ms⟩])
    (hpeer : ∀ u ∈ ts, u.peerFd ≠ some c)
    (htime : ∀ u ∈ t :: ts, u.msData - ms < cMsDelayDataMax)
    (hseg : Segments m ((t :: ts).map fun u => u.read c))
    (hm : msgParse jReader m = some (refMsg, msgEvent)) :
    Received jReader c ms (t :: ts) l ∧ Stores jReader (t :: ts) l ∧
      Stored jReader c (t :: ts) l ∧
      ((∀ buf, buf <+: m → buf ≠ m → jReader buf = none) →
        logOf c (run jReader (t :: ts) l) = logOf c l ++
          if firstData ((t :: ts).map fun u => u.read c) = some m ∧ m.length ≤ lenReq then
            [(c, refMsg, msgEvent)] else []) := by
  have hkept : ∀ u ∈ t :: ts, u.read c ≠ .lost := by
    intro u hu he
    have hpiece := hseg.piece _ (List.mem_map_of_mem hu)
    rw [he] at hpiece
    exact hpiece
  have hreceived : Received jReader c ms (t :: ts) l := run_received hopen hpeer htime hkept
  refine ⟨hreceived, run_stores jReader _ l, run_stored hopen hpeer htime, fun hreader => ?_⟩
  refine hreceived.2.trans (congrArg _ ?_)
  cases hfirst : firstData ((t :: ts).map fun u => u.read c) with
  | none => simp
  | some buf =>
    obtain ⟨hpre, hmem⟩ := firstData_prefix hseg hfirst
    by_cases hbuf : buf = m
    · subst hbuf
      simp [hm, (hseg.piece _ hmem).2]
    · have hparse : msgParse jReader buf = none := by
        rw [msgParse, hreader buf hpre hbuf]
      simp [hparse, hbuf]

/-- A tick in which connection 5 gives this. -/
def tickOf (peerFd : Option Nat) (ms : UInt32) (read : Read) : Tick :=
  ⟨peerFd, true, ms, ms, fun c => if c = 5 then read else .nothing, fun _ => ms, ms⟩

theorem reader_eventA (buf : List UInt8) (hne : buf ≠ eventA) : readerA buf = none := if_neg hne

/-- The event as it is stored at 100 ms. -/
def storedA : Value := .object [(str "msEnqueued", .uint 100)]

/-- The message comes as a whole in the tick after the one of its connection. -/
theorem reception_whole :
    logOf 5 (run readerA [tickOf (some 5) 0 .nothing, tickOf none 100 (.data eventA)]
        ⟨[], ∅, []⟩) = [(5, str "a", .object [])] ∧
      (run readerA [tickOf (some 5) 0 .nothing, tickOf none 100 (.data eventA)]
        ⟨[], ∅, []⟩).mEvents.lookup (str "a") = some storedA := by
  have hopen : connOf 5 (connectionsAccept (tickOf (some 5) 0 .nothing) []) = [⟨5, 0⟩] := rfl
  have hseg : Segments eventA ([tickOf (some 5) 0 .nothing, tickOf none 100 (.data eventA)].map
      fun u => u.read 5) := ⟨by decide, rfl⟩
  obtain ⟨-, -, hstored, hwhole⟩ := reception (l := ⟨[], ∅, []⟩) hopen (by simp [tickOf])
    (by simp [tickOf, cMsDelayDataMax]) hseg parse_eventA
  refine ⟨(hwhole fun buf _ hne => reader_eventA buf hne).trans rfl, ?_⟩
  refine hstored [tickOf (some 5) 0 .nothing] (tickOf none 100 (.data eventA)) [] eventA (str "a")
    (.object []) rfl (by simp [tickOf]) rfl parse_eventA (fun d hd x hx => ?_) (by decide)
  have hnothing : (tickOf none 100 (.data eventA)).read d = .nothing := if_neg hd
  rw [hnothing] at hx
  cases hx

/-- A reader that takes nothing but the whole message: of two pieces within 100 ms nothing is
stored, of one piece the event is. -/
theorem reception_fails :
    Segments eventA ([tickOf (some 5) 0 (.data (eventA.take 5)),
        tickOf none 100 (.data (eventA.drop 5))].map fun t => t.read 5) ∧
      msgParse readerA eventA = some (str "a", .object []) ∧
      (∀ buf, buf ≠ eventA → readerA buf = none) ∧
      (run readerA [tickOf (some 5) 0 (.data (eventA.take 5)),
        tickOf none 100 (.data (eventA.drop 5))] ⟨[], ∅, []⟩).mEvents = ∅ ∧
      (run readerA [tickOf (some 5) 0 .nothing, tickOf none 100 (.data eventA)]
        ⟨[], ∅, []⟩).mEvents.lookup (str "a") = some storedA :=
  ⟨⟨by decide, rfl⟩, parse_eventA, reader_eventA, rfl, rfl⟩

end EventListening

end ProcessingCommon
