import Mathlib.Data.List.AList
import ProcessingCommon.Processing

/-!
# Event listening

`EventListening`: connections are accepted, each is read in every tick, and what one read gives
is parsed as an event message. The events wait under their reference until they are popped or
time out. The JSON library is a parameter, its reader and its values.
-/

namespace ProcessingCommon

namespace EventListening

/-- The bytes of a `std::string`. -/
abbrev StdString := List UInt8

def str (s : String) : StdString := s.toUTF8.data.toList

/-- What is used of `Json::Value`. -/
class JsonValue (V : Type) where
  isObject : V → Bool
  isNull : V → Bool
  isString : V → Bool
  isMember : V → StdString → Bool
  /-- `operator[]` of a key -/
  get : V → StdString → V
  /-- `operator[]` with an assignment -/
  set : V → StdString → V → V
  removeMember : V → StdString → V
  asString : V → StdString
  asUInt : V → UInt32
  /-- the conversion of a `uint32_t` -/
  ofUInt : UInt32 → V

/-- What the documentation of `Json::Value` promises of them. -/
class LawfulJsonValue (V : Type) [JsonValue V] : Prop where
  isObject_of_isMember {v : V} {k : StdString} :
    JsonValue.isMember v k = true → JsonValue.isObject v = true
  isObject_removeMember {v : V} {k : StdString} :
    JsonValue.isObject v = true → JsonValue.isObject (JsonValue.removeMember v k) = true
  /-- a member can be read back -/
  get_set {v val : V} {k : StdString} :
    JsonValue.isObject v = true → JsonValue.get (JsonValue.set v k val) k = val
  /-- a member can be taken out again -/
  removeMember_set {v val : V} {k : StdString} : JsonValue.isObject v = true →
    JsonValue.removeMember (JsonValue.set v k val) k = JsonValue.removeMember v k
  /-- an object without the member stays as it is -/
  removeMember_of_not {v : V} {k : StdString} : JsonValue.isObject v = true →
    JsonValue.isMember v k = false → JsonValue.removeMember v k = v
  asUInt_ofUInt (n : UInt32) : JsonValue.asUInt (JsonValue.ofUInt n : V) = n

variable {V : Type} [JsonValue V]

def jKeyFind (val : V) (nameKey : StdString) : Bool :=
  (JsonValue.isObject val || JsonValue.isNull val) && JsonValue.isMember val nameKey

abbrev Events (V : Type) := AList fun _ : StdString => V

/-- `sizeof(mBuf) - 1` -/
def lenReq : Nat := 511

/-- What `read` gives of a connection: nothing yet, the loss of it, or up to `lenReq` bytes. -/
inductive Read
  | nothing
  | lost
  | data (buf : List UInt8)
deriving DecidableEq

/-- The reference and the event in what was read, from `parse` to `removeMember`. -/
def msgParse (jReader : List UInt8 → Option V) (buf : List UInt8) : Option (StdString × V) :=
  match jReader buf with
  | none => none
  | some msgEvent =>
    if jKeyFind msgEvent (str "refMsg") then
      let refMsg := JsonValue.get msgEvent (str "refMsg")
      if JsonValue.isString refMsg then
        some (JsonValue.asString refMsg, JsonValue.removeMember msgEvent (str "refMsg"))
      else none
    else none

/-- The result of `msgEnqueue` and the events after it, with the event that was enqueued. -/
structure Enqueue (V : Type) where
  success : Success
  mEvents : Events V
  event : Option (StdString × V)

/-- The object with the time at which it is enqueued. -/
def stamped (millis : UInt32) (msgEvent : V) : V :=
  JsonValue.set msgEvent (str "msEnqueued") (JsonValue.ofUInt millis)

def msgEnqueue (jReader : List UInt8 → Option V) (millis : UInt32) (read : Read)
    (mEvents : Events V) : Enqueue V :=
  match read with
  | .nothing => ⟨.pending, mEvents, none⟩
  | .lost => ⟨.negative, mEvents, none⟩
  | .data buf =>
    match msgParse jReader buf with
    | none => ⟨.negative, mEvents, none⟩
    | some (refMsg, msgEvent) =>
      ⟨.positive, mEvents.insert refMsg (stamped millis msgEvent), some (refMsg, msgEvent)⟩

/-- The event, if one is found, in place of the result 1. -/
def pop (refMsg : StdString) (mEvents : Events V) : Option V × Events V :=
  match mEvents.lookup refMsg with
  | none => (none, mEvents)
  | some msgEvent =>
    (some (JsonValue.removeMember msgEvent (str "msEnqueued")), mEvents.erase refMsg)

def cMsDelayDataMax : UInt32 := 300
def cNumOpenConnsMax : Nat := 10
def cMsDelayDequeueMax : UInt32 := 600

/-- `msStart` -/
def enqueuedAt (msgEvent : V) : UInt32 :=
  JsonValue.asUInt (JsonValue.get msgEvent (str "msEnqueued"))

def dequeueLoop (curTimeMs : UInt32) :
    List (Sigma fun _ : StdString => V) → List (Sigma fun _ : StdString => V)
  | [] => []
  | iter :: rest =>
    if curTimeMs - enqueuedAt iter.2 < cMsDelayDequeueMax then
      iter :: dequeueLoop curTimeMs rest
    else dequeueLoop curTimeMs rest

theorem dequeueLoop_sublist (curTimeMs : UInt32) (es : List (Sigma fun _ : StdString => V)) :
    (dequeueLoop curTimeMs es).Sublist es := by
  induction es with
  | nil => exact .slnil
  | cons e es ih =>
    rw [dequeueLoop]
    split
    · exact ih.cons_cons e
    · exact ih.cons e

/-- It does not take `mMtxEvents`. -/
def dequeueTimeoutsCheck (curTimeMs : UInt32) (mEvents : Events V) : Events V :=
  ⟨dequeueLoop curTimeMs mEvents.entries,
    mEvents.nodupKeys.sublist (dequeueLoop_sublist curTimeMs mEvents.entries)⟩

/-! ## The connections -/

/-- A connection is named by its file descriptor. -/
structure OpenEventConn where
  pConn : Nat
  msStart : UInt32
deriving DecidableEq

/-- What one tick of `process()` gets from outside: a new peer and whether a process is made for
it, the clock at each of its calls, and what the connections give. -/
structure Tick where
  peerFd : Option Nat
  created : Bool
  msAccept : UInt32
  msData : UInt32
  read : Nat → Read
  msEnqueue : Nat → UInt32
  msDequeue : UInt32

def connectionsAccept (t : Tick) (mConnsOpen : List OpenEventConn) : List OpenEventConn :=
  match t.peerFd with
  | none => mConnsOpen
  | some peerFd =>
    if cNumOpenConnsMax ≤ mConnsOpen.length then mConnsOpen
    else if t.created then mConnsOpen ++ [⟨peerFd, t.msAccept⟩]
    else mConnsOpen

def dataTimeoutsCheck (curTimeMs : UInt32) : List OpenEventConn → List OpenEventConn
  | [] => []
  | iter :: rest =>
    if curTimeMs - iter.msStart < cMsDelayDataMax then iter :: dataTimeoutsCheck curTimeMs rest
    else dataTimeoutsCheck curTimeMs rest

/-- The connections and the events, and a log of what was enqueued: the connection, the
reference and the event. -/
structure Listener (V : Type) where
  mConnsOpen : List OpenEventConn
  mEvents : Events V
  log : List (Nat × StdString × V)

def dataReceive (jReader : List UInt8 → Option V) (t : Tick) :
    List OpenEventConn → Events V → Listener V
  | [], mEvents => ⟨[], mEvents, []⟩
  | iter :: rest, mEvents =>
    let r := msgEnqueue jReader (t.msEnqueue iter.pConn) (t.read iter.pConn) mEvents
    let l := dataReceive jReader t rest r.mEvents
    if r.success = .pending then { l with mConnsOpen := iter :: l.mConnsOpen }
    else { l with log := r.event.toList.map (iter.pConn, ·) ++ l.log }

/-- A tick in `StMain`. -/
def process (jReader : List UInt8 → Option V) (t : Tick) (l : Listener V) : Listener V :=
  let conns := dataTimeoutsCheck t.msData (connectionsAccept t l.mConnsOpen)
  let r := dataReceive jReader t conns l.mEvents
  ⟨r.mConnsOpen, dequeueTimeoutsCheck t.msDequeue r.mEvents, l.log ++ r.log⟩

/-! ## A type of values -/

/-- Values as JSON has them, with the members of an object in the order of their keys; a floating
point number is its bits. -/
inductive Value
  | null
  | int (i : Int)
  | uint (n : UInt64)
  | real (bits : UInt64)
  | string (s : StdString)
  | boolean (b : Bool)
  | array (elems : List Value)
  | object (members : List (StdString × Value))

namespace Value

def assign (k : StdString) (val : Value) : List (StdString × Value) → List (StdString × Value)
  | [] => [(k, val)]
  | m :: ms =>
    if m.1 = k then (k, val) :: ms
    else if k < m.1 then (k, val) :: m :: ms
    else m :: assign k val ms

instance : JsonValue Value where
  isObject
    | .object _ => true
    | _ => false
  isNull
    | .null => true
    | _ => false
  isString
    | .string _ => true
    | _ => false
  isMember
    | .object ms, k => (ms.lookup k).isSome
    | _, _ => false
  get
    | .object ms, k => (ms.lookup k).getD .null
    | _, _ => .null
  set
    | .object ms, k, val => .object (assign k val ms)
    | .null, k, val => .object [(k, val)]
    | v, _, _ => v
  removeMember
    | .object ms, k => .object (ms.filter fun m => m.1 ≠ k)
    | val, _ => val
  asString
    | .string s => s
    | _ => []
  asUInt
    | .uint n => n.toUInt32
    | _ => 0
  ofUInt n := .uint n.toUInt64

variable {k : StdString} {val : Value} {ms : List (StdString × Value)}

theorem lookup_assign : (assign k val ms).lookup k = some val := by
  induction ms with
  | nil => simp [assign]
  | cons m ms ih =>
    rw [assign]
    split
    · simp
    · next hne =>
      split
      · simp
      · rw [List.lookup_cons, beq_false_of_ne (Ne.symm hne)]
        exact ih

theorem filter_assign :
    (assign k val ms).filter (fun m => m.1 ≠ k) = ms.filter fun m => m.1 ≠ k := by
  induction ms with
  | nil => simp [assign]
  | cons m ms ih =>
    rw [assign]
    split
    · next he => simp [he]
    · split
      · simp
      · rw [List.filter_cons, List.filter_cons, ih]

theorem filter_of_lookup (h : (ms.lookup k).isSome = false) :
    (ms.filter fun m => m.1 ≠ k) = ms := by
  refine List.filter_eq_self.mpr fun m hm => ?_
  have hnone : ms.lookup k = none := Option.not_isSome_iff_eq_none.mp (Bool.eq_false_iff.mp h)
  have hne : k ≠ m.1 := bne_iff_ne.mp (List.lookup_eq_none_iff.mp hnone m hm)
  exact decide_eq_true (Ne.symm hne)

instance : LawfulJsonValue Value where
  isObject_of_isMember {v k} h := by
    cases v with
    | object ms => rfl
    | _ => cases h
  isObject_removeMember {v k} h := by
    cases v with
    | object ms => rfl
    | _ => cases h
  get_set {v val k} h := by
    cases v with
    | object ms => exact congrArg (Option.getD · .null) lookup_assign
    | _ => cases h
  removeMember_set {v val k} h := by
    cases v with
    | object ms => exact congrArg Value.object filter_assign
    | _ => cases h
  removeMember_of_not {v k} h hno := by
    cases v with
    | object ms => exact congrArg Value.object (filter_of_lookup hno)
    | _ => cases h
  asUInt_ofUInt n := UInt32.toUInt32_toUInt64 n

end Value

/-- A message without anything but its reference. -/
def eventA : List UInt8 := str "\x7b\"refMsg\":\"a\"\x7d"

/-- A reader as far as this message is concerned. -/
def readerA (buf : List UInt8) : Option Value :=
  if buf = eventA then some (.object [(str "refMsg", .string (str "a"))]) else none

theorem parse_eventA : msgParse readerA eventA = some (str "a", .object []) := by
  rfl

end EventListening

end ProcessingCommon
