import ProcessingCommon.EventListening.Model
import ProcessingCommon.Lib.Custody
import ProcessingCommon.Lib.Transition

/-!
# The events in store

What becomes of every event that was enqueued. The store is shared by the listener and by all
those who pop; `msgEnqueue` and `pop` hold `mMtxEvents`, `dequeueTimeoutsCheck` does not and is one
step here all the same. Beside the store runs a history, which only reads the results of the
operations.
-/

namespace ProcessingCommon

namespace EventListening

open Transition (Reachable ofFun)

variable {V : Type} [JsonValue V]

/-- Only objects are enqueued. -/
theorem msgParse_isObject [LawfulJsonValue V] {jReader : List UInt8 → Option V} {buf : List UInt8}
    {refMsg : StdString} {msgEvent : V} (h : msgParse jReader buf = some (refMsg, msgEvent)) :
    JsonValue.isObject msgEvent = true := by
  unfold msgParse at h
  split at h
  · cases h
  · next val _ =>
    split at h
    · next hkey =>
      dsimp only at h
      split at h
      · cases h
        rw [jKeyFind, Bool.and_eq_true] at hkey
        exact LawfulJsonValue.isObject_removeMember (LawfulJsonValue.isObject_of_isMember hkey.2)
      · cases h
    · cases h

/-! ## The clock -/

/-- `millis()` when the steady clock is at `now`. -/
def millis (now : Nat) : UInt32 := UInt32.ofNat now

/-- A difference of 600 ms on the 32-bit clock takes at least 600 ms. -/
theorem le_of_timeout {time now : Nat} (h : time ≤ now)
    (hd : ¬ millis now - millis time < cMsDelayDequeueMax) : time + 600 ≤ now := by
  rw [UInt32.lt_iff_toNat_lt, UInt32.toNat_sub] at hd
  have hnow : (millis now).toNat = now % 2 ^ 32 := UInt32.toNat_ofNat
  have htime : (millis time).toNat = time % 2 ^ 32 := UInt32.toNat_ofNat
  rw [hnow, htime, show cMsDelayDequeueMax.toNat = 600 from rfl] at hd
  omega

theorem mem_dequeueLoop {cur : UInt32} {es : List (Sigma fun _ : StdString => V)}
    {e : Sigma fun _ : StdString => V} :
    e ∈ dequeueLoop cur es ↔ e ∈ es ∧ cur - enqueuedAt e.2 < cMsDelayDequeueMax := by
  induction es with
  | nil => simp [dequeueLoop]
  | cons x es ih =>
    rw [dequeueLoop]
    split
    · next hx =>
      rw [List.mem_cons, List.mem_cons, ih]
      constructor
      · rintro (rfl | ⟨he, hlt⟩)
        · exact ⟨.inl rfl, hx⟩
        · exact ⟨.inr he, hlt⟩
      · rintro ⟨rfl | he, hlt⟩
        · exact .inl rfl
        · exact .inr ⟨he, hlt⟩
    · next hx =>
      rw [List.mem_cons, ih]
      constructor
      · rintro ⟨he, hlt⟩
        exact ⟨.inr he, hlt⟩
      · rintro ⟨rfl | he, hlt⟩
        · exact absurd hlt hx
        · exact ⟨he, hlt⟩

theorem lookup_dequeue {cur : UInt32} {mEvents : Events V} {refMsg : StdString} {v : V} :
    (dequeueTimeoutsCheck cur mEvents).lookup refMsg = some v ↔
      mEvents.lookup refMsg = some v ∧ cur - enqueuedAt v < cMsDelayDequeueMax := by
  have hmem : ∀ {m : Events V}, m.lookup refMsg = some v ↔ ⟨refMsg, v⟩ ∈ m.entries :=
    AList.mem_lookup_iff
  rw [hmem, hmem]
  exact mem_dequeueLoop

/-! ## The store with its history -/

/-- An event for which `msgEnqueue` has returned `Positive`: the received object without its
reference, and when it was enqueued. The number tells apart events that are alike. -/
structure Event (V : Type) where
  id : Nat
  refMsg : StdString
  msgEvent : V
  time : Nat

/-- How an event leaves the store. -/
inductive Fate (V : Type)
  /-- `pop` of this reference has given this object -/
  | returned (refMsg : StdString) (msgEvent : V)
  /-- dropped by `dequeueTimeoutsCheck` at this time -/
  | expired (time : Nat)
  /-- its place was taken by this event -/
  | replaced (id : Nat)

structure System (V : Type) where
  mEvents : Events V
  /-- the steady clock in ms -/
  now : Nat
  history : Custody (Event V) (Fate V)

inductive Op
  | msgEnqueue (read : Read)
  | pop (refMsg : StdString)
  | dequeueTimeoutsCheck
  | wait (ms : Nat)

/-- The object as it is stored. -/
def Event.stored (e : Event V) : V := stamped (millis e.time) e.msgEvent

variable {jReader : List UInt8 → Option V}

def step (jReader : List UInt8 → Option V) (s : System V) : Op → System V
  | .msgEnqueue read =>
    let r := msgEnqueue jReader (millis s.now) read s.mEvents
    match r.event with
    | none => { s with mEvents := r.mEvents }
    | some (refMsg, msgEvent) =>
      let e : Event V := ⟨s.history.entered.length, refMsg, msgEvent, s.now⟩
      { s with
        mEvents := r.mEvents
        history := (s.history.dismiss (fun o => o.refMsg = refMsg)
          fun _ => .replaced e.id).enter e }
  | .pop refMsg =>
    let r := pop refMsg s.mEvents
    match r.1 with
    | none => { s with mEvents := r.2 }
    | some msgEvent =>
      { s with
        mEvents := r.2
        history := s.history.dismiss (fun o => o.refMsg = refMsg)
          fun _ => .returned refMsg msgEvent }
  | .dequeueTimeoutsCheck =>
    let mEvents := dequeueTimeoutsCheck (millis s.now) s.mEvents
    { s with
      mEvents := mEvents
      history := s.history.dismiss (fun o => (mEvents.lookup o.refMsg).isNone)
        fun _ => .expired s.now }
  | .wait ms => { s with now := s.now + ms }

def Start (s : System V) : Prop := s.mEvents = ∅ ∧ s.history = {}

/-- What is true of an event and its fate, whatever the values are like. -/
def Met (entered : List (Event V)) (e : Event V) : Fate V → Prop
  | .returned refMsg msgEvent =>
    refMsg = e.refMsg ∧ msgEvent = JsonValue.removeMember e.stored (str "msEnqueued")
  | .expired time =>
    e.time ≤ time ∧ ¬ millis time - enqueuedAt e.stored < cMsDelayDequeueMax
  | .replaced id => e.id < id ∧ ∃ e' ∈ entered, e'.id = id ∧ e'.refMsg = e.refMsg

structure System.Ok (jReader : List UInt8 → Option V) (s : System V) : Prop where
  balanced : s.history.Balanced
  ids : s.history.entered.map Event.id = List.range s.history.entered.length
  parsed : ∀ e ∈ s.history.entered, ∃ buf, msgParse jReader buf = some (e.refMsg, e.msgEvent)
  time : ∀ e ∈ s.history.entered, e.time ≤ s.now
  refs : (s.history.held.map Event.refMsg).Nodup
  held : ∀ e ∈ s.history.held, s.mEvents.lookup e.refMsg = some e.stored
  owned : ∀ refMsg v, s.mEvents.lookup refMsg = some v → ∃ e ∈ s.history.held, e.refMsg = refMsg
  met : ∀ x ∈ s.history.left, Met s.history.entered x.1 x.2

variable {s : System V} {refMsg : StdString} {e : Event V} {entered : List (Event V)} {f : Fate V}

theorem Met.append {es : List (Event V)} (h : Met entered e f) : Met (entered ++ es) e f := by
  cases f with
  | replaced id =>
    obtain ⟨hlt, e', he', hid⟩ := h
    exact ⟨hlt, e', List.mem_append_left _ he', hid⟩
  | _ => exact h

theorem System.Ok.id_lt (h : s.Ok jReader) (he : e ∈ s.history.entered) :
    e.id < s.history.entered.length := by
  have hid : e.id ∈ s.history.entered.map Event.id := List.mem_map_of_mem he
  rw [h.ids] at hid
  exact List.mem_range.mp hid

omit [JsonValue V] in
/-- The references that stay are distinct. -/
theorem nodup_refs_dismiss {c : Custody (Event V) (Fate V)} {p : Event V → Bool}
    {g : Event V → Fate V}
    (h : (c.held.map Event.refMsg).Nodup) : ((c.dismiss p g).held.map Event.refMsg).Nodup :=
  h.sublist (List.filter_sublist.map _)

theorem start_ok (h : Start s) : s.Ok jReader := by
  obtain ⟨hevents, hhistory⟩ := h
  refine ⟨?_, ?_, ?_, ?_, ?_, ?_, ?_, ?_⟩ <;> rw [hhistory]
  · exact Custody.balanced_empty
  · rfl
  · exact fun e he => nomatch he
  · exact fun e he => nomatch he
  · exact .nil
  · exact fun e he => nomatch he
  · intro refMsg v hv
    rw [hevents, AList.lookup_empty] at hv
    cases hv
  · exact fun x hx => nomatch hx

/-- A new event takes the place of an older one of its reference. -/
theorem System.Ok.enqueue {msgEvent : V} {buf : List UInt8} (h : s.Ok jReader)
    (hparse : msgParse jReader buf = some (refMsg, msgEvent)) :
    System.Ok jReader
      { s with
        mEvents := s.mEvents.insert refMsg (stamped (millis s.now) msgEvent)
        history := (s.history.dismiss (fun o => o.refMsg = refMsg)
          fun _ => .replaced s.history.entered.length).enter
            ⟨s.history.entered.length, refMsg, msgEvent, s.now⟩ } where
  balanced := h.balanced.dismiss.enter _
  ids := by
    simp only [Custody.entered_enter, Custody.entered_dismiss, List.map_append, h.ids,
      List.length_append, List.length_singleton, List.range_succ]
    rfl
  parsed := by
    intro e he
    rcases List.mem_append.mp he with he | he
    · exact h.parsed e he
    · cases List.mem_singleton.mp he
      exact ⟨buf, hparse⟩
  time := by
    intro e he
    rcases List.mem_append.mp he with he | he
    · exact h.time e he
    · cases List.mem_singleton.mp he
      exact Nat.le_refl _
  refs := by
    rw [Custody.held_enter, List.map_append, List.nodup_append]
    refine ⟨nodup_refs_dismiss h.refs, List.nodup_singleton _, fun r hr r' hr' => ?_⟩
    obtain ⟨o, ho, rfl⟩ := List.mem_map.mp hr
    have hne := (Custody.mem_held_dismiss.mp ho).2
    cases List.mem_singleton.mp hr'
    exact of_decide_eq_false hne
  held := by
    intro e he
    rcases List.mem_append.mp he with he | he
    · obtain ⟨he, hne⟩ := Custody.mem_held_dismiss.mp he
      show (s.mEvents.insert refMsg _).lookup e.refMsg = _
      rw [AList.lookup_insert_ne (of_decide_eq_false hne)]
      exact h.held e he
    · cases List.mem_singleton.mp he
      exact AList.lookup_insert _
  owned := by
    intro r v hv
    by_cases hr : r = refMsg
    · exact ⟨_, List.mem_append_right _ List.mem_cons_self, hr.symm⟩
    · replace hv : (s.mEvents.insert refMsg _).lookup r = some v := hv
      rw [AList.lookup_insert_ne hr] at hv
      obtain ⟨o, ho, rfl⟩ := h.owned r v hv
      exact ⟨o, List.mem_append_left _ (Custody.mem_held_dismiss.mpr ⟨ho, decide_eq_false hr⟩), rfl⟩
  met := by
    intro x hx
    rcases Custody.mem_left_dismiss.mp hx with hx | ⟨o, ho, heq, rfl⟩
    · exact (h.met x hx).append
    · have hlt := h.id_lt (h.balanced.entered_of_held ho)
      exact ⟨hlt, _, List.mem_append_right _ List.mem_cons_self, rfl, (of_decide_eq_true heq).symm⟩

/-- Events leave, and the others stay in the store. -/
theorem System.Ok.dismiss {m : Events V} {p : Event V → Bool} (h : s.Ok jReader)
    (hkeep : ∀ e ∈ s.history.held, p e = false → m.lookup e.refMsg = some e.stored)
    (howned : ∀ r v, m.lookup r = some v → ∃ e ∈ s.history.held, p e = false ∧ e.refMsg = r)
    (hmet : ∀ e ∈ s.history.held, p e = true → Met s.history.entered e f) :
    System.Ok jReader { s with mEvents := m, history := s.history.dismiss p fun _ => f } where
  balanced := h.balanced.dismiss
  ids := h.ids
  parsed := h.parsed
  time := h.time
  refs := nodup_refs_dismiss h.refs
  held := by
    intro e he
    obtain ⟨he, hp⟩ := Custody.mem_held_dismiss.mp he
    exact hkeep e he hp
  owned := by
    intro r v hv
    obtain ⟨e, he, hp, hr⟩ := howned r v hv
    exact ⟨e, Custody.mem_held_dismiss.mpr ⟨he, hp⟩, hr⟩
  met := by
    intro x hx
    rcases Custody.mem_left_dismiss.mp hx with hx | ⟨e, he, hp, rfl⟩
    · exact h.met x hx
    · exact hmet e he hp

theorem System.Ok.pop (h : s.Ok jReader) (refMsg : StdString) :
    (step jReader s (.pop refMsg)).Ok jReader := by
  simp only [step, EventListening.pop]
  split
  · next hnone =>
    split at hnone
    · exact h
    · cases hnone
  · next v hsome =>
    split at hsome
    · cases hsome
    · next msgEvent hlook =>
      cases hsome
      refine h.dismiss (fun e he hp => ?_) (fun r v hv => ?_) fun e he hp => ?_
      · rw [AList.lookup_erase_ne (of_decide_eq_false hp)]
        exact h.held e he
      · have hr : r ≠ refMsg := by
          rintro rfl
          rw [AList.lookup_erase] at hv
          cases hv
        rw [AList.lookup_erase_ne hr] at hv
        -- an event of another reference stays
        obtain ⟨e, he, rfl⟩ := h.owned r v hv
        exact ⟨e, he, decide_eq_false hr, rfl⟩
      · have href := of_decide_eq_true hp
        have hstored := h.held e he
        rw [href, hlook] at hstored
        exact ⟨href.symm, by rw [Option.some.inj hstored]⟩

theorem System.Ok.dequeue (h : s.Ok jReader) :
    (step jReader s .dequeueTimeoutsCheck).Ok jReader := by
  refine h.dismiss (fun e he hp => ?_) (fun r v hv => ?_) fun e he hp => ?_
  · obtain ⟨v, hv⟩ := Option.isSome_iff_exists.mp (Option.isNone_eq_false_iff.mp hp)
    rw [hv, ← (lookup_dequeue.mp hv).1]
    exact h.held e he
  · obtain ⟨e, he, rfl⟩ := h.owned r v (lookup_dequeue.mp hv).1
    exact ⟨e, he, Option.isNone_eq_false_iff.mpr (Option.isSome_of_eq_some hv), rfl⟩
  · refine ⟨h.time e (h.balanced.entered_of_held he), fun hlt => ?_⟩
    rw [lookup_dequeue.mpr ⟨h.held e he, hlt⟩] at hp
    cases hp

theorem System.Ok.step (h : s.Ok jReader) (op : Op) : (step jReader s op).Ok jReader := by
  cases op with
  | msgEnqueue read =>
    cases read with
    | data buf =>
      cases hparse : msgParse jReader buf with
      | none =>
        simp only [EventListening.step, msgEnqueue, hparse]
        exact h
      | some m =>
        simp only [EventListening.step, msgEnqueue, hparse]
        exact h.enqueue hparse
    | _ => exact h
  | pop refMsg => exact h.pop refMsg
  | dequeueTimeoutsCheck => exact h.dequeue
  | wait ms =>
    exact ⟨h.balanced, h.ids, h.parsed, fun e he => Nat.le_add_right_of_le (h.time e he),
      h.refs, h.held, h.owned, h.met⟩

theorem reachable_ok (h : Reachable Start (ofFun (step jReader)) s) : s.Ok jReader :=
  h.invariant (fun _ => start_ok) fun _ op _ hs hst => hst ▸ hs.step op

theorem System.Ok.nodup (h : s.Ok jReader) :
    (s.history.held ++ s.history.left.map Prod.fst).Nodup := by
  refine h.balanced.nodup (List.Nodup.of_map Event.id ?_)
  rw [h.ids]
  exact List.nodup_range

/-! ## What the values promise -/

theorem System.Ok.isObject [LawfulJsonValue V] (h : s.Ok jReader) (he : e ∈ s.history.entered) :
    JsonValue.isObject e.msgEvent = true := by
  obtain ⟨buf, hbuf⟩ := h.parsed e he
  exact msgParse_isObject hbuf

theorem enqueuedAt_stamped [LawfulJsonValue V] {msgEvent : V} (ms : UInt32)
    (h : JsonValue.isObject msgEvent = true) : enqueuedAt (stamped ms msgEvent) = ms := by
  rw [enqueuedAt, stamped, LawfulJsonValue.get_set h, LawfulJsonValue.asUInt_ofUInt]

/-- Where the object had no such member, it is given back as it was received. -/
theorem removeMember_stamped [LawfulJsonValue V] {msgEvent : V} (ms : UInt32)
    (h : JsonValue.isObject msgEvent = true)
    (hno : JsonValue.isMember msgEvent (str "msEnqueued") = false) :
    JsonValue.removeMember (stamped ms msgEvent) (str "msEnqueued") = msgEvent := by
  rw [stamped, LawfulJsonValue.removeMember_set h, LawfulJsonValue.removeMember_of_not h hno]

theorem System.Ok.entered_of_left (h : s.Ok jReader) (hx : (e, f) ∈ s.history.left) :
    e ∈ s.history.entered :=
  h.balanced.symm.subset (List.mem_append_right _ (List.mem_map_of_mem hx))

/-- In every run: the events enqueued are those in store and those that have left it, each once.
One in store is found under its reference and is the only one of it, and nothing else is found.
One that was popped was popped by its reference and, where it had no `msEnqueued` of its own, with
the content received; one that was dropped for its age is at least 600 ms old; the others were
replaced by a later event of the same reference. -/
theorem events_accounted [LawfulJsonValue V] (h : Reachable Start (ofFun (step jReader)) s) :
    s.history.entered.Perm (s.history.held ++ s.history.left.map Prod.fst) ∧
      (s.history.held ++ s.history.left.map Prod.fst).Nodup ∧
      (∀ e ∈ s.history.entered, ∃ buf, msgParse jReader buf = some (e.refMsg, e.msgEvent)) ∧
      (s.history.held.map Event.refMsg).Nodup ∧
      (∀ e ∈ s.history.held, s.mEvents.lookup e.refMsg = some e.stored) ∧
      (∀ refMsg v, s.mEvents.lookup refMsg = some v →
        ∃ e ∈ s.history.held, e.refMsg = refMsg) ∧
      (∀ e refMsg msgEvent, (e, .returned refMsg msgEvent) ∈ s.history.left →
        refMsg = e.refMsg ∧
          (JsonValue.isMember e.msgEvent (str "msEnqueued") = false → msgEvent = e.msgEvent)) ∧
      (∀ e time, (e, .expired time) ∈ s.history.left → e.time + 600 ≤ time) ∧
      ∀ e id, (e, .replaced id) ∈ s.history.left →
        e.id < id ∧ ∃ e' ∈ s.history.entered, e'.id = id ∧ e'.refMsg = e.refMsg := by
  have hok := reachable_ok h
  refine ⟨hok.balanced, hok.nodup, hok.parsed, hok.refs, hok.held, hok.owned,
    fun e r v hx => ?_, fun e t hx => ?_, fun e id hx => hok.met _ hx⟩
  · have hobject := hok.isObject (hok.entered_of_left hx)
    obtain ⟨href, hv⟩ := hok.met _ hx
    exact ⟨href, fun hno => hv.trans (removeMember_stamped _ hobject hno)⟩
  · have hobject := hok.isObject (hok.entered_of_left hx)
    obtain ⟨htime, hd⟩ := hok.met _ hx
    rw [Event.stored, enqueuedAt_stamped _ hobject] at hd
    exact le_of_timeout htime hd

/-- The first event times out, the second one is popped. -/
theorem events_accounted_run : ∃ s, Reachable Start (ofFun (step readerA)) s ∧
    s.history.held = [] ∧ s.history.left = [
      (⟨0, str "a", .object [], 0⟩, .expired 600),
      (⟨1, str "a", .object [], 600⟩, .returned (str "a") (.object []))] ∧
    s.history.entered.Perm (s.history.held ++ s.history.left.map Prod.fst) := by
  have hstart : Reachable Start (ofFun (step readerA)) ⟨∅, 0, {}⟩ := .start ⟨rfl, rfl⟩
  have hrun := hstart.foldl [.msgEnqueue (.data eventA), .wait 600, .dequeueTimeoutsCheck,
    .msgEnqueue (.data eventA), .pop (str "a")]
  exact ⟨_, hrun, rfl, rfl, (events_accounted hrun).1⟩

/-- The event was popped as it was received, was dropped for its age, or is in store. -/
def Event.Kept (s : System V) (e : Event V) : Prop :=
  (e, .returned e.refMsg e.msgEvent) ∈ s.history.left ∨
    (∃ time, (e, .expired time) ∈ s.history.left ∧ e.time + 600 ≤ time) ∨ e ∈ s.history.held

/-- A message with a member that has the name of the bookkeeping. -/
def eventB : List UInt8 := str "\x7b\"msEnqueued\":1,\"refMsg\":\"b\"\x7d"

def readerB (buf : List UInt8) : Option Value :=
  if buf = eventB then
    some (.object [(str "msEnqueued", .int 1), (str "refMsg", .string (str "b"))])
  else none

/-- A second event of a reference takes the place of the first one, which nobody gets; and a
member of the name `msEnqueued` does not come back. -/
theorem events_accounted_fails :
    (∃ s, Reachable Start (ofFun (step readerA)) s ∧
      ∃ e ∈ s.history.entered, ¬ e.Kept s) ∧
    ∃ s, Reachable Start (ofFun (step readerB)) s ∧
      ∃ e ∈ s.history.entered, ¬ e.Kept s := by
  have hstart : ∀ {r : List UInt8 → Option Value}, Reachable Start (ofFun (step r)) ⟨∅, 0, {}⟩ :=
    .start ⟨rfl, rfl⟩
  have htwice := hstart.foldl (f := step readerA)
    [.msgEnqueue (.data eventA), .msgEnqueue (.data eventA)]
  have hmember := hstart.foldl (f := step readerB) [.msgEnqueue (.data eventB), .pop (str "b")]
  refine ⟨⟨_, htwice, ⟨0, str "a", .object [], 0⟩, List.mem_cons_self, ?_⟩,
    ⟨_, hmember, ⟨0, str "b", .object [(str "msEnqueued", .int 1)], 0⟩, List.mem_cons_self, ?_⟩⟩
  · rintro (hret | ⟨time, hexp, -⟩ | hheld)
    · cases List.mem_singleton.mp hret
    · cases List.mem_singleton.mp hexp
    · cases List.mem_singleton.mp hheld
  · rintro (hret | ⟨time, hexp, -⟩ | hheld)
    · cases List.mem_singleton.mp hret
    · cases List.mem_singleton.mp hexp
    · cases hheld

end EventListening

end ProcessingCommon
