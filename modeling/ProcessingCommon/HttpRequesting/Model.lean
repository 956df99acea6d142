import ProcessingCommon.Lib.Program
import ProcessingCommon.Processing

/-!
# HTTP requests over one multi handle (`HttpRequesting.cpp`)

All requests share `pCurlMulti`, and the tick of any of them drains its messages on behalf
of the others. A member function is a `Program` over all requests that is called on number `i`;
libcurl, the resolver and the string functions of `LibDspc` answer its calls. A `std::string` is
a `String` whose characters are its bytes.
-/

namespace ProcessingCommon

namespace HttpRequesting

inductive Kind
  | easy
  | slist
deriving DecidableEq

/-- What a pointer from libcurl was given for. `owner` is the request that asked for it, and no two
are the same, but what was given back leaves its address to others. -/
structure Resource where
  kind : Kind
  owner : Nat
  serial : Nat
  addr : Nat
deriving DecidableEq

abbrev CURLcode := Nat

def CURLE_OK : CURLcode := 0

inductive SslVersion
  | sslv2
  | sslv3
  | tlsv1
  | tlsv1_0
  | tlsv1_1
  | tlsv1_2
  | tlsv1_3
deriving DecidableEq

inductive HttpVersion
  | http1_0
  | http1_1
  | http2_0
deriving DecidableEq

inductive CurlOpt
  | url (s : String)
  | port (n : Nat)
  | httpAuthDigest
  | sslVerifyPeer (on : Bool)
  | sslVerifyHost (on : Bool)
  /-- `CURLSSLOPT_NATIVE_CA | CURLSSLOPT_NO_REVOKE` -/
  | sslOptions
  | sslVersion (v : SslVersion)
  | httpVersion (v : HttpVersion)
  | httpHeader (l : Resource)
  | resolve (l : Resource)
  | postFields (data : List UInt8)
  | postFieldSize (n : Nat)
  | userPwd (s : String)
  | headerFunction
  | headerData
  | writeFunction
  | writeData
  /-- `CURLOPT_PRIVATE` -/
  | privateData (this : Nat)
  | debugFunction
  | verbose

/-- `CURLMSG_DONE` or something else. -/
inductive CURLMSG
  | done
  | other
deriving DecidableEq

/-- `respCode` is the response code of the transfer that is done. -/
structure CURLMsg where
  msg : CURLMSG
  easyHandle : Resource
  result : CURLcode
  respCode : Nat
deriving DecidableEq

inductive AddrFamily
  | unspec
  | inet
  | inet6
deriving DecidableEq

structure UrlParts where
  protocol : String
  host : String
  port : Nat
  path : String
  queries : String

inductive ProcState
  | stStart
  | stDnsResolvStart
  | stDnsResolvDoneWait
  | stUrlReAsm
  | stEasyInit
  | stEasyBind
  | stReqStart
  | stReqDoneWait
deriving DecidableEq

end HttpRequesting

open HttpRequesting in
structure HttpRequesting where
  mState : HttpRequesting.ProcState := .stStart
  mUrl : String := ""
  mProtocol : String := ""
  mNameHost : String := ""
  mAddrHost : String := ""
  mTypeNameHost : AddrFamily := .unspec
  mPort : Nat := 0
  mPath : String := ""
  mQueries : String := ""
  mMethod : String := "get"
  mUserPw : String := ""
  mLstHdrs : List String := []
  mData : List UInt8 := []
  mAuthMethod : String := "basic"
  mVersionTls : String := ""
  mVersionHttp : String := ""
  mModeDebug : Bool := false
  mpCurl : Option Resource := none
  mCurlBound : Bool := false
  mpListHeader : Option Resource := none
  mpListResolv : Option Resource := none
  mCurlRes : CURLcode := CURLE_OK
  mRespCode : Nat := 0
  mDoneCurl : Success := .pending

namespace HttpRequesting

open Program (rounds each)

/-- All requests, and whether `pCurlMulti` has been created. -/
structure Requests where
  pCurlMulti : Bool
  req : Nat → HttpRequesting

inductive Call
  | easyInit
  | easySetopt (pCurl : Option Resource) (opt : CurlOpt)
  | easyCleanup (pCurl : Option Resource)
  | getinfoPrivate (pCurl : Resource)
  | getinfoResponseCode (pCurl : Resource)
  | multiInit
  | multiAddHandle (pCurl : Option Resource)
  | multiRemoveHandle (pCurl : Option Resource)
  | multiPerform
  | multiInfoRead
  | slistAppend (pList : Option Resource) (str : String)
  | slistFreeAll (pList : Resource)
  | curlGlobalInit
  | urlToParts (url : String)
  | typeIp (ip : String)
  /-- `DnsResolving`: created and started, asked, and repelled. -/
  | resolvStart (nameHost : String)
  | resolvSuccess
  | resolvRepel

/-- `none` is `NULL`, `false` an error. A private pointer is there after an error too, and a response
code is not written then. -/
@[reducible] def Answer : Call → Type
  | .easyInit => Option Resource
  | .easySetopt _ _ => Bool
  | .easyCleanup _ => Unit
  | .getinfoPrivate _ => Bool × Nat
  | .getinfoResponseCode _ => Option Nat
  | .multiInit => Bool
  | .multiAddHandle _ => Bool
  | .multiRemoveHandle _ => Bool
  | .multiPerform => Unit
  | .multiInfoRead => Option CURLMsg
  | .slistAppend _ _ => Option Resource
  | .slistFreeAll _ => Unit
  | .curlGlobalInit => Unit
  | .urlToParts _ => UrlParts
  | .typeIp _ => AddrFamily
  | .resolvStart _ => Bool
  | .resolvSuccess => Success × List String
  | .resolvRepel => Unit

abbrev Http := Program Call Answer Requests

abbrev perform (k : Call) : Http (Answer k) := Program.perform k

/-! ## Members -/

/-- The members that own something of libcurl. -/
inductive Member
  | mpCurl
  | mpListHeader
  | mpListResolv
deriving DecidableEq

def member (r : HttpRequesting) : Member → Option Resource
  | .mpCurl => r.mpCurl
  | .mpListHeader => r.mpListHeader
  | .mpListResolv => r.mpListResolv

def setMember (r : HttpRequesting) (m : Member) (p : Option Resource) : HttpRequesting :=
  match m with
  | .mpCurl => { r with mpCurl := p }
  | .mpListHeader => { r with mpListHeader := p }
  | .mpListResolv => { r with mpListResolv := p }

def Requests.update (rs : Requests) (i : Nat) (f : HttpRequesting → HttpRequesting) : Requests :=
  { rs with req := Function.update rs.req i (f (rs.req i)) }

/-- `this` of request `i`. -/
def this (i : Nat) : Http HttpRequesting := return (← get).req i

def assign (i : Nat) (f : HttpRequesting → HttpRequesting) : Http Unit :=
  modify fun rs => rs.update i f

section

variable {ω : Type} {env : ω → (c : Call) → Answer c → ω → Prop} {rs : Requests} {w : ω}

@[simp] theorem wp_this (i : Nat) {Q : HttpRequesting → Requests → ω → Prop} :
    Program.wp env (this i) Q rs w = Q (rs.req i) rs w := rfl

@[simp] theorem wp_assign (i : Nat) (f : HttpRequesting → HttpRequesting)
    {Q : Unit → Requests → ω → Prop} :
    Program.wp env (assign i f) Q rs w = Q () (rs.update i f) w := rfl

end

/-! ## Configuration by the user -/

inductive Setting
  | urlSet (url : String)
  | addrHostAdd (addrHost : String)
  | methodSet (method : String)
  | userPwSet (userPw : String)
  | hdrAdd (hdr : String)
  | dataSet (data : List UInt8)
  | authMethodSet (authMethod : String)
  | versionTlsSet (versionTls : String)
  | versionHttpSet (versionHttp : String)
  | modeDebugSet (en : Bool)

/-- An empty string changes nothing. -/
def orKept (new old : String) : String := if new = "" then old else new

def apply (r : HttpRequesting) : Setting → HttpRequesting
  | .urlSet url => { r with mUrl := orKept url r.mUrl }
  | .addrHostAdd addrHost => { r with mAddrHost := orKept addrHost r.mAddrHost }
  | .methodSet method => { r with mMethod := orKept method r.mMethod }
  | .userPwSet userPw => { r with mUserPw := orKept userPw r.mUserPw }
  | .hdrAdd hdr => { r with mLstHdrs := r.mLstHdrs ++ [hdr] }
  | .dataSet data => { r with mData := data }
  | .authMethodSet authMethod => { r with mAuthMethod := orKept authMethod r.mAuthMethod }
  | .versionTlsSet versionTls => { r with mVersionTls := orKept versionTls r.mVersionTls }
  | .versionHttpSet versionHttp => { r with mVersionHttp := orKept versionHttp r.mVersionHttp }
  | .modeDebugSet en => { r with mModeDebug := en }

/-! ## Lists -/

def curlListFree (i : Nat) (ppList : Member) : Http Unit := do
  match (← this i).member ppList with
  | none => return
  | some pList =>
    perform (.slistFreeAll pList)
    assign i fun r => r.setMember ppList none

def headersAppend (i : Nat) : List String → Http Unit
  | [] => return
  | hdr :: hdrs => do
    match ← perform (.slistAppend (← this i).mpListHeader hdr) with
    | none => return
    | some pEntry =>
      assign i fun r => if r.mpListHeader = none then { r with mpListHeader := some pEntry } else r
      headersAppend i hdrs

/-! ## The easy handle -/

def sslVersion : String → Option SslVersion
  | "SSLv2" => some .sslv2
  | "SSLv3" => some .sslv3
  | "TLSv1" => some .tlsv1
  | "TLSv1.0" => some .tlsv1_0
  | "TLSv1.1" => some .tlsv1_1
  | "TLSv1.2" => some .tlsv1_2
  | "TLSv1.3" => some .tlsv1_3
  | _ => none

def httpVersion : String → Option HttpVersion
  | "HTTP/1.0" => some .http1_0
  | "HTTP/1.1" => some .http1_1
  | "HTTP/2" => some .http2_0
  | _ => none

def versionTls (r : HttpRequesting) : String :=
  orKept r.mVersionTls (if r.mUrl.toList[4]? = some 's' then "TLSv1.2" else "")

/-- The options up to the TLS version. -/
def optsConnection (r : HttpRequesting) : List CurlOpt :=
  [.url r.mUrl] ++
  (if r.mPort ≠ 0 then [.port r.mPort] else []) ++
  (if r.mAuthMethod = "digest" then [.httpAuthDigest] else []) ++
  (if r.versionTls ≠ "" then [.sslVerifyPeer true, .sslVerifyHost false, .sslOptions] else [])

/-- The options behind the lists. -/
def optsContinued (i : Nat) (r : HttpRequesting) : List CurlOpt :=
  (if r.mMethod = "post" ∨ r.mMethod = "put" then
    [.postFields r.mData, .postFieldSize r.mData.length] else []) ++
  (if r.mUserPw ≠ "" then [.userPwd r.mUserPw] else []) ++
  [.headerFunction, .headerData, .writeFunction, .writeData, .privateData i] ++
  (if r.mModeDebug then [.debugFunction, .verbose] else [])

/-- Nobody asks whether an option was taken. -/
def setopts (i : Nat) (opts : List CurlOpt) : Http Unit :=
  each opts fun opt => do
    let _ ← perform (.easySetopt (← this i).mpCurl opt)

def errCleanupCurl (i : Nat) : Http Success := do
  curlListFree i .mpListHeader
  curlListFree i .mpListResolv
  -- the pointer stays
  perform (.easyCleanup (← this i).mpCurl)
  return .negative

def headersConfigure (i : Nat) : Http Unit := do
  curlListFree i .mpListHeader
  headersAppend i (← this i).mLstHdrs
  match (← this i).mpListHeader with
  | none => return
  | some l => setopts i [.httpHeader l]

def resolvConfigure (i : Nat) : Http Unit := do
  curlListFree i .mpListResolv
  let r ← this i
  if r.mTypeNameHost = .unspec ∧ r.mAddrHost ≠ "" then
    let l ← perform (.slistAppend none (r.mNameHost ++ ":" ++ toString r.mPort ++ ":" ++ r.mAddrHost))
    assign i fun r => { r with mpListResolv := l }
  match (← this i).mpListResolv with
  | none => return
  | some l => setopts i [.resolve l]

/-- The part of `easyHandleCurlConfigure` behind the TLS version. -/
def versionsConfigure (i : Nat) : Http Success := do
  match httpVersion (← this i).mVersionHttp with
  | none => pure ()
  | some v => setopts i [.httpVersion v]
  headersConfigure i
  resolvConfigure i
  setopts i (optsContinued i (← this i))
  return .positive

def easyHandleCurlConfigure (i : Nat) : Http Success := do
  let r ← this i
  if r.mpCurl = none then return .negative
  setopts i (optsConnection r)
  match sslVersion r.versionTls with
  | some v =>
    setopts i [.sslVersion v]
    versionsConfigure i
  | none =>
    if r.versionTls ≠ "" then errCleanupCurl i
    else versionsConfigure i

def multiHandleCurlInit : Http Unit := do
  let pMulti ← perform .multiInit
  modify fun rs => { rs with pCurlMulti := pMulti }

def easyHandleCurlBind (i : Nat) : Http Success := do
  if !(← get).pCurlMulti then multiHandleCurlInit
  if !(← get).pCurlMulti then return .negative
  if !(← perform (.multiAddHandle (← this i).mpCurl)) then return .negative
  assign i fun r => { r with mCurlBound := true }
  return .positive

def easyHandleCurlUnbind (i : Nat) : Http Unit := do
  if !(← this i).mCurlBound then return
  -- a failure is only logged
  let _ ← perform (.multiRemoveHandle (← this i).mpCurl)
  assign i fun r => { r with mCurlBound := false }

/-! ## Messages -/

/-- A completion is applied to the request that the handle names. -/
def complete (curlMsg : CURLMsg) : Http Unit := do
  let pCurl := curlMsg.easyHandle
  -- without the private pointer `pReq` is whatever was in the variable
  let (_, pReq) ← perform (.getinfoPrivate pCurl)
  assign pReq fun r => { r with mCurlRes := curlMsg.result }
  let respCode ← perform (.getinfoResponseCode pCurl)
  assign pReq fun r => { r with mRespCode := respCode.getD r.mRespCode }
  let _ ← perform (.multiRemoveHandle (some pCurl))
  assign pReq fun r => { r with mCurlBound := false }
  curlListFree pReq .mpListHeader
  curlListFree pReq .mpListResolv
  perform (.easyCleanup (← this pReq).mpCurl)
  assign pReq fun r => { r with mpCurl := none }
  assign pReq fun r => { r with mDoneCurl := .positive }

def messageRound (_ : Unit) : Http (Unit ⊕ Unit) := do
  match ← perform .multiInfoRead with
  | none => return .inr ()
  | some curlMsg =>
    if curlMsg.msg ≠ .done then return .inl ()
    complete curlMsg
    return .inl ()

/-- `n` bounds the rounds of the loop over the messages, which ends at the first `NULL`. -/
def multiProcess (n : Nat) : Http Unit := do
  perform .multiPerform
  rounds messageRound (fun _ => return) n ()

/-! ## The state machine -/

def goto (i : Nat) (st : ProcState) : Http Success := do
  assign i fun r => { r with mState := st }
  return .pending

def urlSplit (i : Nat) : Http Success := do
  let r ← this i
  if r.mpCurl = none then return .negative
  if r.mUrl = "" then return .negative
  perform .curlGlobalInit
  let parts ← perform (.urlToParts r.mUrl)
  let protocol := orKept parts.protocol "https"
  let typeNameHost ← perform (.typeIp parts.host)
  let port := if parts.port = 0 then (if protocol = "https" then 443 else 80) else parts.port
  assign i fun r => { r with
    mProtocol := protocol, mNameHost := parts.host, mPort := port
    mPath := parts.path, mQueries := parts.queries, mTypeNameHost := typeNameHost }
  if typeNameHost = .unspec ∧ r.mAddrHost = "" then goto i .stDnsResolvStart
  else goto i .stUrlReAsm

/-- Without c-ares the states pass on, as with a resolver that has no result. -/
def dnsResolvStart (i : Nat) : Http Success := do
  if !(← perform (.resolvStart (← this i).mNameHost)) then return .negative
  goto i .stDnsResolvDoneWait

def dnsResolvDoneWait (i : Nat) : Http Success := do
  let (success, lstAddr) ← perform .resolvSuccess
  if success = .pending then return .pending
  if success = .positive then
    assign i fun r => { r with mAddrHost := lstAddr.headD r.mAddrHost }
  perform .resolvRepel
  goto i .stUrlReAsm

def urlReAsm (r : HttpRequesting) : String :=
  r.mProtocol ++ "://" ++ r.mNameHost ++
  (if r.mPath ≠ "" then "/" ++ r.mPath else "") ++
  (if r.mQueries ≠ "" then "?" ++ r.mQueries else "")

def reqDoneWait (n i : Nat) : Http Success := do
  multiProcess n
  let r ← this i
  if r.mDoneCurl = .pending then return .pending
  if r.mCurlRes ≠ CURLE_OK then return .negative
  return .positive

def process (n i : Nat) : Http Success := do
  match (← this i).mState with
  | .stStart => urlSplit i
  | .stDnsResolvStart => dnsResolvStart i
  | .stDnsResolvDoneWait => dnsResolvDoneWait i
  | .stUrlReAsm =>
    assign i fun r => { r with mUrl := r.urlReAsm }
    goto i .stEasyInit
  | .stEasyInit =>
    if (← easyHandleCurlConfigure i) ≠ .positive then return .negative
    goto i .stEasyBind
  | .stEasyBind =>
    if (← easyHandleCurlBind i) ≠ .positive then return .negative
    goto i .stReqStart
  | .stReqStart =>
    multiProcess n
    goto i .stReqDoneWait
  | .stReqDoneWait => reqDoneWait n i

def shutdown (i : Nat) : Http Success := do
  easyHandleCurlUnbind i
  curlListFree i .mpListHeader
  curlListFree i .mpListResolv
  return .positive

/-- The two constructors differ in the HTTP version too. -/
def construct (i : Nat) (url : Option String) : Http Unit := do
  assign i fun _ => match url with
    | none => { mVersionHttp := "HTTP/2" }
    | some url => { mUrl := url }
  let pCurl ← perform .easyInit
  assign i fun r => { r with mpCurl := pCurl }

def destruct (i : Nat) : Http Unit := do
  if (← this i).mpCurl = none then return
  perform (.easyCleanup (← this i).mpCurl)
  assign i fun r => { r with mpCurl := none }

end HttpRequesting

end ProcessingCommon
