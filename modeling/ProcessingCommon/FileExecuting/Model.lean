import ProcessingCommon.Lib.Program
import ProcessingCommon.Processing

/-!
# The internal commands (`FileExecuting.cpp`)

An internal `FileExecuting` runs one command with up to three pipes to it. It is a
`Program` over its members: a system call, a call of another `Transfering` and a
write to the user's memory are calls that the environment answers. The child side
of `vfork()` is not the parent's and belongs to the environment.
-/

namespace ProcessingCommon

abbrev Bytes := List UInt8

/-- The three nodes of a command. -/
inductive NodeSel
  | nodeIn
  | nodeOut
  | nodeErr
deriving DecidableEq

inductive PipeEnd
  | fdRead
  | fdWrite
deriving DecidableEq

/-- What a `Transfering *` points to: the next command of the chain or an object of the user. -/
inductive Transfering
  | exec (idx : Nat)
  | user (id : Nat)
deriving DecidableEq

structure FePairFd where
  fdRead : Int := -1
  fdWrite : Int := -1
deriving DecidableEq

def FePairFd.fd (p : FePairFd) : PipeEnd → Int
  | .fdRead => p.fdRead
  | .fdWrite => p.fdWrite

def FePairFd.set (p : FePairFd) (e : PipeEnd) (fd : Int) : FePairFd :=
  match e with
  | .fdRead => { p with fdRead := fd }
  | .fdWrite => { p with fdWrite := fd }

/-- `pSrc` is the memory it points to, `pDest` names the memory. -/
structure FeNodeBuffer where
  pSrc : Bytes := []
  pDest : Option Nat := none
  len : Nat := 0
  processed : Nat := 0
deriving DecidableEq

structure FeFileDescSetting where
  fd : Int := -1
  autoClose : Bool := false
deriving DecidableEq

/-- The strings of the user are named by `lstStrings`. -/
structure FeNode where
  pipe : FePairFd := {}
  lstBuffers : List FeNodeBuffer := []
  lstStrings : List Nat := []
  lstFds : List FeFileDescSetting := []
  lstTransfers : List Transfering := []
  manualEnabled : Bool := false
  autoEnabled : Bool := false
  autoDone : Bool := false
deriving DecidableEq

structure FeResult where
  childStopped : Bool := false
  childTerminated : Bool := false
  childTerminatedBySig : Bool := false
  idChild : Int := -1
  codeSig : Int := 0
  codeRet : Int := 0
deriving DecidableEq

inductive ProcState
  | stStart
  | stInternalStart
  | stPipesCreate
  | stFork
  | stParentStart
  | stSinksReadyWait
  | stChildSupervise
  | stSdStart
  | stSdInternals
  | stSdPipesClose
deriving DecidableEq

structure FileExecuting where
  mState : ProcState := .stStart
  mNodeIn : FeNode := {}
  mNodeOut : FeNode := {}
  mNodeErr : FeNode := {}
  mResult : FeResult := {}
  mSendReady : Bool := false
  mReadReady : Bool := false
  mDone : Bool := false
  mDoneAck : Bool := false
deriving DecidableEq

/-! ## Calls -/

inductive Call
  | pipe (node : NodeSel)
  /-- `open("/dev/null", O_WRONLY)` for the write end of a node. -/
  | openNull (node : NodeSel)
  | vecConstCharToCharList
  | vfork
  | fcntl (fd : Int)
  | read (fd : Int) (len : Nat)
  | write (fd : Int) (data : Bytes)
  | close (fd : Int)
  | waitpid (id : Int)
  | memcpy (dest : Nat) (offs : Nat) (data : Bytes)
  /-- `+=` on a string of the user. -/
  | append (str : Nat) (data : Bytes)
  /-- `mSendReady` of a `Transfering`. -/
  | sendReady (trans : Transfering)
  | transRead (trans : Transfering) (len : Nat)
  | transSend (trans : Transfering) (data : Bytes)
  | doneSet (trans : Transfering)

/-- `data []` is the end of the file; `eagain` is also `EWOULDBLOCK`. -/
inductive ReadResult
  | data (d : Bytes)
  | eagain
  | error
deriving DecidableEq

inductive WriteResult
  | done (n : Nat)
  | eagain
  | error
deriving DecidableEq

/-- The result of `waitpid` and what the macros say about the status. -/
inductive WaitResult
  | unchanged
  | eagain
  | error
  | exited (code : Int)
  | signaled (sig : Int)
  | stopped (sig : Int)
  | continued
  | unknown
deriving DecidableEq

/-- `none` is a negative result where the result is else a descriptor, a process or data. -/
@[reducible] def Answer : Call → Type
  | .pipe _ => Option FePairFd
  | .openNull _ => Option Int
  | .vecConstCharToCharList => Bool
  | .vfork => Option Int
  | .fcntl _ => Bool
  | .read _ _ => ReadResult
  | .write _ _ => WriteResult
  | .close _ => Unit
  | .waitpid _ => WaitResult
  | .memcpy _ _ _ => Unit
  | .append _ _ => Unit
  | .sendReady _ => Bool
  | .transRead _ _ => Option Bytes
  | .transSend _ _ => Unit
  | .doneSet _ => Unit

abbrev Fe := Program Call Answer FileExecuting

namespace FileExecuting

open Program (rounds each)

/-- `STDOUT_FILENO` or not. -/
inductive Output
  | out
  | err
deriving DecidableEq

def Output.node : Output → NodeSel
  | .out => .nodeOut
  | .err => .nodeErr

abbrev perform (k : Call) : Fe (Answer k) := Program.perform k

/-! ## Members -/

def node (fe : FileExecuting) : NodeSel → FeNode
  | .nodeIn => fe.mNodeIn
  | .nodeOut => fe.mNodeOut
  | .nodeErr => fe.mNodeErr

def setNode (fe : FileExecuting) (n : NodeSel) (v : FeNode) : FileExecuting :=
  match n with
  | .nodeIn => { fe with mNodeIn := v }
  | .nodeOut => { fe with mNodeOut := v }
  | .nodeErr => { fe with mNodeErr := v }

/-- The descriptor at one end of the pipe of a node. -/
def fd (fe : FileExecuting) (n : NodeSel) (e : PipeEnd) : Int :=
  (fe.node n).pipe.fd e

def setPipe (fe : FileExecuting) (n : NodeSel) (p : FePairFd) : FileExecuting :=
  fe.setNode n { fe.node n with pipe := p }

def setFd (fe : FileExecuting) (n : NodeSel) (e : PipeEnd) (fd : Int) : FileExecuting :=
  fe.setPipe n ((fe.node n).pipe.set e fd)

section

variable (fe : FileExecuting) (n n' : NodeSel) (e e' : PipeEnd) (v : FeNode)

@[simp] theorem node_setNode : (fe.setNode n v).node n' = if n' = n then v else fe.node n' := by
  cases n <;> cases n' <;> rfl

theorem node_setNode_self : (fe.setNode n v).node n = v := by
  rw [node_setNode, if_pos rfl]

@[simp] theorem setNode_mState : (fe.setNode n v).mState = fe.mState := by cases n <;> rfl

@[simp] theorem setNode_mResult : (fe.setNode n v).mResult = fe.mResult := by cases n <;> rfl

@[simp] theorem setNode_mSendReady : (fe.setNode n v).mSendReady = fe.mSendReady := by
  cases n <;> rfl

@[simp] theorem setNode_mReadReady : (fe.setNode n v).mReadReady = fe.mReadReady := by
  cases n <;> rfl

@[simp] theorem setNode_mDone : (fe.setNode n v).mDone = fe.mDone := by cases n <;> rfl

@[simp] theorem node_setPipe (p : FePairFd) :
    (fe.setPipe n p).node n' = if n' = n then { fe.node n with pipe := p } else fe.node n' :=
  node_setNode ..

@[simp] theorem fd_setFd (fd : Int) :
    (fe.setFd n e fd).fd n' e' = if n' = n ∧ e' = e then fd else fe.fd n' e' := by
  cases n <;> cases n' <;> cases e <;> cases e' <;> rfl

/-- A node whose pipe stays keeps its descriptors. -/
theorem fd_setNode (h : v.pipe = (fe.node n).pipe) : (fe.setNode n v).fd n' e' = fe.fd n' e' := by
  rw [fd, fd, node_setNode]
  by_cases hn : n' = n
  · rw [if_pos hn, h, hn]
  · rw [if_neg hn]

end

/-! ## Descriptors -/

/-- Gives the value the reference has afterwards. -/
def fdClose (fd : Int) : Fe Int := do
  if fd < 0 then return fd
  perform (.close fd)
  return -1

def fdCloseAt (n : NodeSel) (e : PipeEnd) : Fe Unit := do
  let fd ← fdClose ((← get).fd n e)
  modify fun fe => fe.setFd n e fd

def pipeClose (n : NodeSel) : Fe Unit := do
  fdCloseAt n .fdRead
  fdCloseAt n .fdWrite

def fileNonBlockingSet (fd : Int) : Fe Bool := do
  if !(← perform (.fcntl fd)) then return false
  perform (.fcntl fd)

/-! ## Sending and reading -/

/-- One `write()` of what is left; the bytes sent so far are the result of the loop. -/
def intSendRound (left : Bytes × Nat) : Fe (Bytes × Nat ⊕ Int) := do
  if left.1 = [] then return .inr left.2
  match ← perform (.write (← get).mNodeIn.pipe.fdWrite left.1) with
  | .done 0 => return .inr left.2
  | .done n => return .inl (left.1.drop n, left.2 + n)
  -- would block is an error like every other
  | .eagain | .error =>
    fdCloseAt .nodeIn .fdWrite
    return .inr (-1)

def intSend (data : Bytes) : Fe Int := do
  if data = [] then return -1
  if !(← get).mSendReady then return -1
  if (← get).mNodeIn.pipe.fdWrite < 0 then return -1
  rounds intSendRound (fun left => return left.2) data.length (data, 0)

def send (data : Bytes) : Fe Int := do
  if (← get).mNodeIn.autoEnabled then return -1
  if !(← get).mNodeIn.manualEnabled then return -1
  intSend data

/-- The result and the data in the buffer. -/
def intSinkRead (n : NodeSel) (lenReq : Nat) : Fe (Int × Bytes) := do
  if lenReq = 0 then return (-1, [])
  if !(← get).mReadReady then return (0, [])
  if (← get).fd n .fdRead < 0 then return (-2, [])
  match ← perform (.read ((← get).fd n .fdRead) lenReq) with
  | .data [] =>
    fdCloseAt n .fdRead
    return (-4, [])
  | .data d => return (d.length, d)
  | .eagain =>
    if !(← get).mResult.childTerminated then return (0, [])
    fdCloseAt n .fdRead
    return (-4, [])
  | .error =>
    fdCloseAt n .fdRead
    return (-3, [])

def sinkRead (n : NodeSel) (lenReq : Nat) : Fe (Int × Bytes) := do
  if ((← get).node n).autoEnabled then return (-1, [])
  if !((← get).node n).manualEnabled then return (-1, [])
  intSinkRead n lenReq

/-! ## Sources -/

def autoSourceDone : Fe Unit := do
  if (← get).mNodeIn.autoDone then return
  fdCloseAt .nodeIn .fdWrite
  modify fun fe => { fe with mNodeIn := { fe.mNodeIn with autoDone := true }, mDone := true }

def autoSourceBuffer (buff : FeNodeBuffer) : Fe Unit := do
  let lenPlanned := min 512 (buff.len - buff.processed)
  let lenDone ← intSend ((buff.pSrc.drop buff.processed).take lenPlanned)
  if lenDone < 0 then
    autoSourceDone
    return
  let processed := buff.processed + lenDone.toNat
  modify fun fe => fe.setNode .nodeIn { fe.mNodeIn with
    lstBuffers := fe.mNodeIn.lstBuffers.modifyHead fun b => { b with processed := processed } }
  if processed < buff.len then return
  autoSourceDone

def autoSourceFdDone (pFd : FeFileDescSetting) : Fe Unit := do
  if pFd.autoClose then
    let fd ← fdClose pFd.fd
    modify fun fe => fe.setNode .nodeIn { fe.mNodeIn with
      lstFds := fe.mNodeIn.lstFds.modifyHead fun f => { f with fd := fd } }
  autoSourceDone

/-- Up to 14 bytes of the descriptor; would block is an end of the file. -/
def autoSourceFdRound (pFd : FeFileDescSetting) (lenLeft : Nat) : Fe (Nat ⊕ Unit) := do
  if lenLeft = 0 then return .inr ()
  match ← perform (.read pFd.fd (min 14 lenLeft)) with
  | .data (b :: d) =>
    let lenDone ← intSend (b :: d)
    if lenDone ≠ (b :: d).length then
      autoSourceDone
      return .inr ()
    return .inl (lenLeft - (b :: d).length)
  | _ =>
    autoSourceFdDone pFd
    return .inr ()

def autoSourceTransferRound (pTrans : Transfering) (lenLeft : Nat) : Fe (Nat ⊕ Unit) := do
  if lenLeft = 0 then return .inr ()
  match ← perform (.transRead pTrans (min 14 lenLeft)) with
  | some [] => return .inr ()
  | none =>
    autoSourceDone
    return .inr ()
  | some d =>
    let lenDone ← intSend d
    if lenDone ≠ d.length then
      autoSourceDone
      return .inr ()
    return .inl (lenLeft - d.length)

def autoSource : Fe Unit := do
  if !(← get).mNodeIn.autoEnabled then return
  if (← get).mNodeIn.autoDone then return
  match (← get).mNodeIn.lstBuffers, (← get).mNodeIn.lstFds, (← get).mNodeIn.lstTransfers with
  | buff :: _, _, _ => autoSourceBuffer buff
  | [], pFd :: _, _ => rounds (autoSourceFdRound pFd) (fun _ => return) 512 512
  | [], [], pTrans :: _ => rounds (autoSourceTransferRound pTrans) (fun _ => return) 512 512
  | [], [], [] => return

/-! ## Sinks -/

/-- The buffers after a chunk, and whether the loop came to its end. -/
def autoSinkBuffers (buf : Bytes) : List FeNodeBuffer → Fe (List FeNodeBuffer × Bool)
  | [] => return ([], true)
  | b :: bs =>
    match b.pDest with
    | none => do
      let (bs', ok) ← autoSinkBuffers buf bs
      return (b :: bs', ok)
    | some pDest => do
      if b.len - b.processed = 0 then
        let (bs', ok) ← autoSinkBuffers buf bs
        return (b :: bs', ok)
      let lenPlanned := min buf.length (b.len - b.processed)
      perform (.memcpy pDest b.processed (buf.take lenPlanned))
      let b := { b with processed := b.processed + lenPlanned }
      -- `return` of `autoSink`: a buffer that is not full ends the tick for all other sinks
      if b.processed < b.len then return (b :: bs, false)
      let (bs', ok) ← autoSinkBuffers buf bs
      return (b :: bs', ok)

/-- The descriptors to be closed at the end of the data. -/
def autoSinkFdsClose : List FeFileDescSetting → Fe (List FeFileDescSetting)
  | [] => return []
  | f :: fs => do
    let fd ← if f.autoClose then fdClose f.fd else pure f.fd
    let fs' ← autoSinkFdsClose fs
    return { f with fd := fd } :: fs'

def autoSinkFinish (n : NodeSel) : Fe Unit := do
  let lstFds ← autoSinkFdsClose ((← get).node n).lstFds
  each ((← get).node n).lstTransfers fun trans => perform (.doneSet trans)
  modify fun fe => fe.setNode n { fe.node n with lstFds := lstFds, autoDone := true }

/-- The sinks behind the buffers. -/
def autoSinkOthers (n : NodeSel) (buf : Bytes) : Fe Unit := do
  let node := (← get).node n
  each node.lstStrings fun str => perform (.append str buf)
  each node.lstFds fun f => do let _ ← perform (.write f.fd buf)
  each node.lstTransfers fun trans => perform (.transSend trans buf)

/-- One chunk of 22 bytes to every sink. -/
def autoSinkRound (n : NodeSel) : Fe (Unit ⊕ Unit) := do
  let (lenDone, buf) ← intSinkRead n 22
  if lenDone = 0 then return .inr ()
  if lenDone < 0 then
    autoSinkFinish n
    return .inr ()
  let (lstBuffers, ok) ← autoSinkBuffers buf ((← get).node n).lstBuffers
  modify fun fe => fe.setNode n { fe.node n with lstBuffers := lstBuffers }
  if !ok then return .inr ()
  autoSinkOthers n buf
  return .inl ()

def autoSink (n : NodeSel) : Fe Unit := do
  if !((← get).node n).autoEnabled then return
  if ((← get).node n).autoDone then return
  rounds (fun _ => autoSinkRound n) (fun _ => return) 23 ()

/-! ## The state machine -/

def sinksReady : List Transfering → Fe Bool
  | [] => return true
  | t :: ts => do
    if !(← perform (.sendReady t)) then return false
    sinksReady ts

def childStateRecord : Fe Success := do
  if (← get).mResult.childTerminated then return .pending
  match ← perform (.waitpid (← get).mResult.idChild) with
  | .error => return .negative
  | .unchanged | .eagain => return .pending
  | .exited code =>
    modify fun fe => { fe with mResult := { fe.mResult with
      idChild := -1, childTerminated := true, childTerminatedBySig := false, codeRet := code } }
    return .positive
  | .signaled sig =>
    modify fun fe => { fe with mResult := { fe.mResult with
      idChild := -1, childTerminated := true, childTerminatedBySig := true, codeSig := sig } }
    return .positive
  | .stopped sig =>
    modify fun fe => { fe with mResult := { fe.mResult with childStopped := true, codeSig := sig } }
    return .positive
  | .continued =>
    modify fun fe => { fe with mResult := { fe.mResult with childStopped := false, codeSig := 0 } }
    return .positive
  | .unknown => return .negative

/-- Goes on in another state. -/
def goto (st : ProcState) : Fe Success := do
  modify fun fe => { fe with mState := st }
  return .pending

/-- The pipe of an output, or the null device if nobody wants it. -/
def outputCreate (n : NodeSel) : Fe Bool := do
  let node := (← get).node n
  if node.manualEnabled || node.autoEnabled then
    match ← perform (.pipe n) with
    | none => return false
    | some p =>
      modify fun fe => fe.setPipe n p
      return true
  else
    match ← perform (.openNull n) with
    | none =>
      modify fun fe => fe.setFd n .fdWrite (-1)
      return false
    | some fd =>
      modify fun fe => fe.setFd n .fdWrite fd
      return true

def pipesCreate : Fe Success := do
  match ← perform (.pipe .nodeIn) with
  | none => return .negative
  | some p =>
    modify fun fe => fe.setPipe .nodeIn p
    if !(← outputCreate .nodeOut) then return .negative
    if !(← outputCreate .nodeErr) then return .negative
    goto .stFork

/-- The parent's side. -/
def forkStart : Fe Success := do
  if !(← perform .vecConstCharToCharList) then return .negative
  if !(← perform .vecConstCharToCharList) then return .negative
  match ← perform .vfork with
  | none => return .negative
  | some idProc =>
    modify fun fe => { fe with mResult := { fe.mResult with idChild := idProc } }
    goto .stParentStart

def nonBlockingSetAt (n : NodeSel) (e : PipeEnd) : Fe Bool := do
  let fd := (← get).fd n e
  if fd < 0 then return true
  fileNonBlockingSet fd

/-- Nobody sends to the command. -/
def stdinUnusedClose : Fe Unit := do
  if !((← get).mNodeIn.manualEnabled || (← get).mNodeIn.autoEnabled) then
    fdCloseAt .nodeIn .fdWrite

def parentStart : Fe Success := do
  -- the read end of stdin stays open
  fdCloseAt .nodeOut .fdWrite
  fdCloseAt .nodeErr .fdWrite
  stdinUnusedClose
  if !(← nonBlockingSetAt .nodeIn .fdWrite) then return .negative
  if !(← nonBlockingSetAt .nodeOut .fdRead) then return .negative
  if !(← nonBlockingSetAt .nodeErr .fdRead) then return .negative
  modify fun fe => { fe with mSendReady := true, mReadReady := true }
  goto .stSinksReadyWait

def sinksReadyWait : Fe Success := do
  if !(← sinksReady (← get).mNodeOut.lstTransfers) then return .pending
  if !(← sinksReady (← get).mNodeErr.lstTransfers) then return .pending
  goto .stChildSupervise

/-- `doneSet()` from outside ends the source. -/
def doneCheck : Fe Unit := do
  if (← get).mDone && !(← get).mDoneAck then
    autoSourceDone
    modify fun fe => { fe with mDoneAck := true }

def childSupervise : Fe Success := do
  doneCheck
  autoSource
  autoSink .nodeOut
  autoSink .nodeErr
  if (← childStateRecord) = .negative then return .negative
  if !(← get).mResult.childTerminated then return .pending
  if (← get).mNodeOut.pipe.fdRead ≠ -1 then return .pending
  if (← get).mNodeErr.pipe.fdRead ≠ -1 then return .pending
  return .positive

def process : Fe Success := do
  match (← get).mState with
  | .stStart => goto .stInternalStart
  | .stInternalStart => goto .stPipesCreate
  | .stPipesCreate => pipesCreate
  | .stFork => forkStart
  | .stParentStart => parentStart
  | .stSinksReadyWait => sinksReadyWait
  | .stChildSupervise => childSupervise
  | _ => return .pending

def shutdown : Fe Success := do
  match (← get).mState with
  | .stSdStart => goto .stSdInternals
  | .stSdInternals => goto .stSdPipesClose
  | .stSdPipesClose =>
    pipeClose .nodeIn
    pipeClose .nodeOut
    pipeClose .nodeErr
    return .positive
  | _ => goto .stSdStart

/-- `doneSet()` of the base class. -/
def doneSet : Fe Unit :=
  modify fun fe => { fe with mDone := true }

end FileExecuting

end ProcessingCommon
