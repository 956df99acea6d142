import Mathlib.Algebra.Group.Nat.Defs
import ProcessingCommon.HttpRequesting.Model

/-!
# Mails over one multi handle (`MailSending.h`, `MailSending.cpp`)

As with the HTTP requests, the tick of any mail drains the messages of the shared multi handle
for all of them. A member function is a `Program` over all mails that is called on number `i`, and
libcurl answers its calls. A `std::string` is the list of its bytes.
-/

namespace ProcessingCommon

namespace MailSending

open HttpRequesting (Resource CURLcode CURLE_OK CURLMsg)

abbrev Bytes := List UInt8

/-- A literal of the source. -/
def ascii (s : String) : Bytes := s.toList.map fun c => UInt8.ofNat c.toNat

inductive MailSeState
  | mailSeStart
  | mailSeDoneWait
deriving DecidableEq

end MailSending

open HttpRequesting in
structure MailSending where
  mState : MailSending.MailSeState := .mailSeStart
  mStartMs : UInt32 := 0
  mServer : MailSending.Bytes := []
  mPort : UInt16 := 465
  mPassword : MailSending.Bytes := []
  mRecipientAddr : MailSending.Bytes := []
  mRecipientName : MailSending.Bytes := []
  mSenderAddr : MailSending.Bytes := []
  mSenderName : MailSending.Bytes := []
  mSubject : MailSending.Bytes := []
  mBody : MailSending.Bytes := []
  mpCurl : Option Resource := none
  mpListRecipients : Option Resource := none
  mNumSent : Nat := 0
  mDone : Success := .pending
  mCurlRes : CURLcode := CURLE_OK
  mRespCode : Nat := 0

namespace MailSending

open HttpRequesting (Resource CURLcode CURLE_OK CURLMsg)

def dMailSendTimeoutMs : UInt32 := 1000

def dSmtpCodeActionOkeyCompleted : Nat := 250

/-! ## Configuration by the user -/

/-- `find_last_of(ch)`; `none` is `npos`. -/
def findLastOf (ch : UInt8) : Bytes → Option Nat
  | [] => none
  | c :: cs =>
    match findLastOf ch cs with
    | some pos => some (pos + 1)
    | none => if c = ch then some 0 else none

/-- Name and address. -/
def nameAddrSplit (strIn : Bytes) : Bytes × Bytes :=
  match findLastOf 32 strIn with
  | some pos => (strIn.take pos, strIn.drop (pos + 1))
  | none => ([], strIn)

inductive Setting
  | serverSet (server : Bytes)
  | passwordSet (password : Bytes)
  | recipientSet (recipient : Bytes)
  | senderSet (sender : Bytes)
  | subjectSet (subject : Bytes)
  | bodySet (body : Bytes)

def apply (m : MailSending) : Setting → MailSending
  | .serverSet server => { m with mServer := server }
  | .passwordSet password => { m with mPassword := password }
  | .recipientSet recipient =>
    { m with
      mRecipientName := (nameAddrSplit recipient).1
      mRecipientAddr := (nameAddrSplit recipient).2 }
  | .senderSet sender =>
    { m with
      mSenderName := (nameAddrSplit sender).1
      mSenderAddr := (nameAddrSplit sender).2 }
  | .subjectSet subject => { m with mSubject := subject }
  | .bodySet body => { m with mBody := body }

/-! ## The message -/

def strUrl (m : MailSending) : Bytes :=
  ascii "smtps://" ++ m.mServer ++ ascii ":" ++ ascii (toString m.mPort.toNat) ++ ascii "/target"

def strUserPwd (m : MailSending) : Bytes := m.mSenderAddr ++ ascii ":" ++ m.mPassword

def strBodyPrefix (m : MailSending) : Bytes :=
  ascii "To: " ++ m.mRecipientName ++ ascii " <" ++ m.mRecipientAddr ++ ascii ">" ++ ascii "\r\n" ++
  ascii "From: " ++ m.mSenderName ++ ascii " <" ++ m.mSenderAddr ++ ascii ">" ++ ascii "\r\n" ++
  ascii "Subject: " ++ m.mSubject ++ ascii "\r\n" ++ ascii "\r\n"

/-- The new `mBody` of `easyHandleCreate`. -/
def message (m : MailSending) : Bytes := m.strBodyPrefix ++ m.mBody

/-- `(curl_off_t)(mBody.size() + 20)`: the sum is a `size_t`, the result is signed. -/
def inFileSize (m : MailSending) : Int := ((m.mBody.length + 20 : Nat) : Int).bmod (2 ^ 64)

/-- The mail after the call, and the bytes it has written to `ptr`; their number is returned. -/
def stringToCurlDataRead (m : MailSending) (size nmemb : Nat) : MailSending × Bytes :=
  let numReq := size * nmemb % 2 ^ 64
  let numLeft := (m.mBody.length + (2 ^ 64 - m.mNumSent)) % 2 ^ 64
  let numRead := min numReq numLeft
  if numRead = 0 then (m, [])
  else ({ m with mNumSent := m.mNumSent + numRead }, (m.mBody.drop m.mNumSent).take numRead)

/-! ## libcurl -/

inductive CurlOpt
  | url (s : Bytes)
  | mailRcpt (l : Option Resource)
  | userPwd (s : Bytes)
  | mailFrom (s : Bytes)
  | userAgent (s : Bytes)
  | upload
  | maxRedirs (n : Nat)
  | httpVersion2Tls
  | useSslAll
  | ftpSkipPasvIp
  | tcpKeepAlive
  | inFileSizeLarge (n : Int)
  | bufferSize (n : Nat)
  | uploadBufferSize (n : Nat)
  | readFunction
  | readData (this : Nat)
  /-- `CURLOPT_PRIVATE` -/
  | privateData (this : Nat)

inductive Call
  | curlGlobalInit
  | easyInit
  | easySetopt (pCurl : Resource) (opt : CurlOpt)
  | easyCleanup (pCurl : Option Resource)
  | getinfoPrivate (pCurl : Resource)
  | getinfoResponseCode (pCurl : Resource)
  | multiInit
  | multiAddHandle (pCurl : Option Resource)
  | multiRemoveHandle (pCurl : Resource)
  | multiPerform
  | multiInfoRead
  | slistAppend (pList : Option Resource) (str : Bytes)
  | slistFreeAll (pList : Resource)

/-- A call of `stringToCurlDataRead`, with its `CURLOPT_READDATA`. -/
structure Read where
  pReq : Nat
  size : Nat
  nmemb : Nat

/-- `none` is `NULL`, `false` an error. `curl_multi_perform` answers with the calls that it makes
back. -/
@[reducible] def Answer : Call → Type
  | .curlGlobalInit => Unit
  | .easyInit => Option Resource
  | .easySetopt _ _ => Unit
  | .easyCleanup _ => Unit
  | .getinfoPrivate _ => Nat
  | .getinfoResponseCode _ => Nat
  | .multiInit => Bool
  | .multiAddHandle _ => Bool
  | .multiRemoveHandle _ => Bool
  | .multiPerform => List Read
  | .multiInfoRead => Option CURLMsg
  | .slistAppend _ _ => Option Resource
  | .slistFreeAll _ => Unit

/-- The members that hold something of libcurl. -/
inductive Member
  | mpCurl
  | mpListRecipients
deriving DecidableEq

def member (m : MailSending) : Member → Option Resource
  | .mpCurl => m.mpCurl
  | .mpListRecipients => m.mpListRecipients

/-- All mails, and whether `pCurlMulti` has been created. -/
structure Mails where
  pCurlMulti : Bool
  mail : Nat → MailSending

abbrev Mail := Program Call Answer Mails

abbrev perform (k : Call) : Mail (Answer k) := Program.perform k

def Mails.update (ms : Mails) (i : Nat) (f : MailSending → MailSending) : Mails :=
  { ms with mail := Function.update ms.mail i (f (ms.mail i)) }

/-- `this` of mail `i`. -/
def this (i : Nat) : Mail MailSending := return (← get).mail i

def assign (i : Nat) (f : MailSending → MailSending) : Mail Unit := modify fun ms => ms.update i f

section

variable {ω : Type} {env : ω → (c : Call) → Answer c → ω → Prop} {ms : Mails} {w : ω}

@[simp] theorem wp_this (i : Nat) {Q : MailSending → Mails → ω → Prop} :
    Program.wp env (this i) Q ms w = Q (ms.mail i) ms w := rfl

@[simp] theorem wp_assign (i : Nat) (f : MailSending → MailSending)
    {Q : Unit → Mails → ω → Prop} :
    Program.wp env (assign i f) Q ms w = Q () (ms.update i f) w := rfl

end

/-! ## The easy handle -/

def setopts (pCurl : Resource) (opts : List CurlOpt) : Mail Unit :=
  Program.each opts fun opt => perform (.easySetopt pCurl opt)

/-- The options between the recipients and the assembly of the message. -/
def optsTransfer (m : MailSending) : List CurlOpt :=
  [.userPwd m.strUserPwd, .mailFrom m.mSenderAddr, .userAgent (ascii "TGSA"), .upload,
    .maxRedirs 50, .httpVersion2Tls, .useSslAll, .ftpSkipPasvIp, .tcpKeepAlive,
    .inFileSizeLarge m.inFileSize, .bufferSize 59, .uploadBufferSize 59]

def easyHandleCreate (i : Nat) : Mail Success := do
  let p ← perform .easyInit
  assign i fun m => { m with mpCurl := p }
  match p with
  | none => return .negative
  | some pCurl =>
    setopts pCurl [.url (← this i).strUrl]
    assign i fun m => { m with mpListRecipients := none }
    let l ← perform (.slistAppend none (← this i).mRecipientAddr)
    assign i fun m => { m with mpListRecipients := l }
    setopts pCurl [.mailRcpt l]
    setopts pCurl (optsTransfer (← this i))
    assign i fun m => { m with mBody := m.message }
    setopts pCurl [.readFunction, .readData i, .privateData i]
    return .positive

def curlEasyHandleBind (i : Nat) : Mail Success := do
  if !(← get).pCurlMulti then
    let pMulti ← perform .multiInit
    modify fun ms => { ms with pCurlMulti := pMulti }
  if !(← get).pCurlMulti then return .negative
  if !(← perform (.multiAddHandle (← this i).mpCurl)) then return .negative
  return .positive

/-! ## Messages -/

def listFree (i : Nat) : Mail Unit := do
  match (← this i).mpListRecipients with
  | none => return
  | some pList =>
    perform (.slistFreeAll pList)
    assign i fun m => { m with mpListRecipients := none }

/-- A completion is applied to the mail that the handle names. -/
def complete (curlMsg : CURLMsg) : Mail Unit := do
  let pCurl := curlMsg.easyHandle
  let pReq ← perform (.getinfoPrivate pCurl)
  assign pReq fun m => { m with mCurlRes := curlMsg.result }
  let respCode ← perform (.getinfoResponseCode pCurl)
  assign pReq fun m => { m with mRespCode := respCode }
  let _ ← perform (.multiRemoveHandle pCurl)
  listFree pReq
  perform (.easyCleanup (← this pReq).mpCurl)
  assign pReq fun m => { m with mpCurl := none }
  assign pReq fun m => { m with mDone := .positive }

def messageRound (_ : Unit) : Mail (Unit ⊕ Unit) := do
  match ← perform .multiInfoRead with
  | none => return .inr ()
  | some curlMsg =>
    if curlMsg.msg ≠ .done then return .inl ()
    complete curlMsg
    return .inl ()

/-- `n` bounds the rounds of the loop over the messages, which ends at the first `NULL`. -/
def multiProcess (n : Nat) : Mail Unit := do
  let reads ← perform .multiPerform
  Program.each reads fun r => assign r.pReq fun m => (m.stringToCurlDataRead r.size r.nmemb).1
  Program.rounds messageRound (fun _ => return) n ()

/-! ## The state machine -/

def mailStart (n i : Nat) (curTimeMs : UInt32) : Mail Success := do
  perform .curlGlobalInit
  if (← easyHandleCreate i) ≠ .positive then return .negative
  if (← curlEasyHandleBind i) ≠ .positive then return .negative
  multiProcess n
  assign i fun m => { m with mStartMs := curTimeMs, mState := .mailSeDoneWait }
  return .pending

def mailDoneWait (n i : Nat) (curTimeMs : UInt32) : Mail Success := do
  let diffMs := curTimeMs - (← this i).mStartMs
  multiProcess n
  if diffMs > dMailSendTimeoutMs then return .negative
  let m ← this i
  if m.mDone = .pending then return .pending
  if m.mCurlRes ≠ CURLE_OK then return .negative
  if m.mRespCode ≠ dSmtpCodeActionOkeyCompleted then return .negative
  return .positive

/-- `curTimeMs` is `millis()`. -/
def process (n i : Nat) (curTimeMs : UInt32) : Mail Success := do
  match (← this i).mState with
  | .mailSeStart => mailStart n i curTimeMs
  | .mailSeDoneWait => mailDoneWait n i curTimeMs

def destruct (i : Nat) : Mail Unit := do
  listFree i
  if (← this i).mpCurl = none then return
  perform (.easyCleanup (← this i).mpCurl)
  assign i fun m => { m with mpCurl := none }

end MailSending

end ProcessingCommon
