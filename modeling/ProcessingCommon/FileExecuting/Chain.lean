import ProcessingCommon.FileExecuting.Container
import ProcessingCommon.Lib.Transition

/-!
# What arrives at the stdin of the commands

A chain of commands whose ticks come in any order. The children drain their stdin
at any pace, also between two calls of a tick: a non-blocking `write()` takes a part of
the data while there is room, and would block when the pipe is full.

`intSend` takes would block for a failure and closes the pipe, and `autoSink` stops at a
buffer that is not full before the chunk has got to the next command. Without these
two (`Fits`) nothing is lost: what a command has accepted is what was read
from the output before it, and a chunk that is on its way (`Pair.flow`).
-/

namespace ProcessingCommon

namespace FileExecuting

namespace Chains

open Program (wp Exec rounds each)

/-- A descriptor of the parent: one end of a pipe of a command. -/
structure Slot where
  cmd : Nat
  node : NodeSel
  pend : PipeEnd
deriving DecidableEq

/-- The pipes of the commands. -/
structure Os where
  fds : Int → Option Slot
  /-- What the stdin of a command has accepted, and what of it is still in the pipe. -/
  accepted : Nat → Bytes
  unread : Nat → Bytes
  /-- The write end of the stdin has been closed. -/
  closed : Nat → Bool
  /-- What has been read from the stdout of a command. -/
  outRead : Nat → Bytes

structure Chain where
  cmds : Nat → FileExecuting
  os : Os

/-- The container and the system it is started on. -/
structure Setup where
  container : Container
  /-- The descriptors and the memory of the user. -/
  user : List Int
  size : Nat → Nat
  /-- The capacity of a pipe. -/
  cap : Nat

namespace Setup

variable (S : Setup)

def count : Nat := S.container.mLstExec.length

/-- The content of an automatic buffer or string source. -/
def source : Option Bytes := S.container.mNodeIn.lstBuffers.head?.map (·.pSrc)

def cmds (j : Nat) : FileExecuting := S.container.start[j]?.getD {}

/-- The stdin of these commands is fed by the source or by the command before. -/
def Claimed (j : Nat) : Prop := 1 ≤ j ∨ S.source ≠ none

/-- The memory is a buffer at an output that feeds a command. -/
def Feeds (d : Nat) : Prop :=
  ∃ j, j + 1 < S.count ∧ ∃ b ∈ (S.cmds j).mNodeOut.lstBuffers, b.pDest = some d

end Setup

namespace Os

def openFd (o : Os) (fd : Int) (s : Slot) : Os :=
  { o with fds := Function.update o.fds fd (some s) }

def closeFd (o : Os) (fd : Int) : Os :=
  { o with
    fds := Function.update o.fds fd none
    closed := match o.fds fd with
      | some ⟨j, .nodeIn, .fdWrite⟩ => Function.update o.closed j true
      | _ => o.closed }

/-- The pipe of the stdin takes data. -/
def accept (o : Os) (j : Nat) (d : Bytes) : Os :=
  { o with
    accepted := Function.update o.accepted j (o.accepted j ++ d)
    unread := Function.update o.unread j (o.unread j ++ d) }

end Os

def Chain.setCmd (w : Chain) (k : Nat) (fe : FileExecuting) : Chain :=
  { w with cmds := Function.update w.cmds k fe }

variable (S : Setup)

def Fresh (o : Os) (fd : Int) : Prop := 0 ≤ fd ∧ fd ∉ S.user ∧ o.fds fd = none

/-- The children take what they like from their stdin. -/
def Drained (o o' : Os) : Prop :=
  ∃ u, o' = { o with unread := u } ∧ ∀ j, u j <:+ o.unread j

/-- A non-blocking `write()`. The parent has the read end open, so it does not fail. -/
def writePipe (o : Os) (j : Nat) (data : Bytes) (r : WriteResult) (o' : Os) : Prop :=
  if data = [] then r = .done 0 ∧ o' = o
  else if (o.unread j).length < S.cap then
    ∃ m, r = .done m ∧ 0 < m ∧ m ≤ data.length ∧ (o.unread j).length + m ≤ S.cap ∧
      o' = o.accept j (data.take m)
  else r = .eagain ∧ o' = o

/-- The calls of command `k` to the system. -/
def sys (k : Nat) (o : Os) : (c : Call) → Answer c → Os → Prop
  | .pipe n, r, o' =>
    match r with
    | none => o' = o
    | some p =>
      Fresh S o p.fdRead ∧ Fresh S o p.fdWrite ∧ p.fdRead ≠ p.fdWrite ∧
        o' = (o.openFd p.fdRead ⟨k, n, .fdRead⟩).openFd p.fdWrite ⟨k, n, .fdWrite⟩
  | .openNull n, r, o' =>
    match r with
    | none => o' = o
    | some fd => Fresh S o fd ∧ o' = o.openFd fd ⟨k, n, .fdWrite⟩
  | .read fd len, r, o' =>
    match o.fds fd, r with
    | some ⟨j, .nodeOut, .fdRead⟩, .data d =>
      d.length ≤ len ∧ o' = { o with outRead := Function.update o.outRead j (o.outRead j ++ d) }
    | _, _ => o' = o
  | .write fd data, r, o' =>
    match o.fds fd with
    | some ⟨j, .nodeIn, .fdWrite⟩ => writePipe S o j data r o'
    | _ => o' = o
  | .close fd, _, o' => o' = o.closeFd fd
  | _, _, o' => o' = o

/-- A call that meets the condition `ok`, after the children have drained. -/
def osCall (ok : Os → Call → Prop) (k : Nat) (o : Os) (c : Call) (r : Answer c) (o' : Os) : Prop :=
  ∃ o₁, Drained o o₁ ∧ ok o₁ c ∧ sys S k o₁ c r o'

/-- The calls of command `k`, also to the other commands. -/
def env (ok : Os → Call → Prop) (k : Nat) (w : Chain) : (c : Call) → Answer c → Chain → Prop
  | .transSend (.exec j) d, _, w' =>
    ∃ res fe o, Exec (osCall S ok j) (send d) (w.cmds j) w.os res fe o ∧
      w' = ⟨Function.update w.cmds j fe, o⟩
  | .doneSet (.exec j), _, w' => w' = w.setCmd j { w.cmds j with mDone := true }
  | .sendReady (.exec j), r, w' => r = (w.cmds j).mSendReady ∧ w' = w
  | c, r, w' => ∃ o, osCall S ok k w.os c r o ∧ w' = { w with os := o }

def Start (w : Chain) : Prop :=
  w.cmds = S.cmds ∧ (∀ fd, w.os.fds fd = none) ∧ (∀ j, w.os.accepted j = []) ∧
    (∀ j, w.os.closed j = false) ∧ ∀ j, w.os.outRead j = []

/-- A tick of command `k`. -/
def Step (ok : Os → Call → Prop) (w : Chain) (k : Nat) (w' : Chain) : Prop :=
  k < S.count ∧ ∃ res fe w₁, Exec (env S ok k) process (w.cmds k) w res fe w₁ ∧
    w' = w₁.setCmd k fe

/-- There is room in the pipe to be written to, and a chunk fills the buffers of an
output that feeds a command. -/
def Fits (o : Os) : Call → Prop
  | .write fd _ => ∀ j, S.Claimed j → o.fds fd = some ⟨j, .nodeIn, .fdWrite⟩ →
      (o.unread j).length < S.cap
  | .memcpy d offs data => S.Feeds d → offs + data.length = S.size d
  | _ => True

end Chains

end FileExecuting

end ProcessingCommon
