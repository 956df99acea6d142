import ProcessingCommon.HttpRequesting.Model

/-!
# What libcurl is told

The options that a request sets on its handle, one after the other, and what they make of the
transfer together.
-/

namespace ProcessingCommon

namespace HttpRequesting

open Program (wp rounds each wp_mono wp_seq)

variable {i : Nat} {r : HttpRequesting}

/-! ## Transfers -/

/-- What the options of a handle ask for. `none` and `false` are the defaults of libcurl, except that
it verifies the peer and its host. -/
structure Transfer where
  url : String := ""
  port : Option Nat := none
  digest : Bool := false
  verifyPeer : Bool := true
  verifyHost : Bool := true
  nativeCa : Bool := false
  sslVersion : Option SslVersion := none
  httpVersion : Option HttpVersion := none
  headers : Option Resource := none
  resolve : Option Resource := none
  postFields : Option (List UInt8) := none
  postFieldSize : Option Nat := none
  userPwd : Option String := none
  headerTo : Bool := false
  dataTo : Bool := false
  priv : Option Nat := none
  debug : Bool := false

/-- A later option replaces an earlier one. -/
def Transfer.set (t : Transfer) : CurlOpt → Transfer
  | .url s => { t with url := s }
  | .port n => { t with port := some n }
  | .httpAuthDigest => { t with digest := true }
  | .sslVerifyPeer on => { t with verifyPeer := on }
  | .sslVerifyHost on => { t with verifyHost := on }
  | .sslOptions => { t with nativeCa := true }
  | .sslVersion v => { t with sslVersion := some v }
  | .httpVersion v => { t with httpVersion := some v }
  | .httpHeader l => { t with headers := some l }
  | .resolve l => { t with resolve := some l }
  | .postFields data => { t with postFields := some data }
  | .postFieldSize n => { t with postFieldSize := some n }
  | .userPwd s => { t with userPwd := some s }
  | .headerData => { t with headerTo := true }
  | .writeData => { t with dataTo := true }
  | .privateData this => { t with priv := some this }
  | .verbose => { t with debug := true }
  | .headerFunction | .writeFunction | .debugFunction => t

/-- A request has a body if its method is `post` or `put`. -/
def hasBody (r : HttpRequesting) : Prop := r.mMethod = "post" ∨ r.mMethod = "put"

instance (r : HttpRequesting) : Decidable r.hasBody :=
  inferInstanceAs (Decidable (r.mMethod = "post" ∨ r.mMethod = "put"))

/-- The transfer that a request asks for, with its lists. -/
def transfer (i : Nat) (r : HttpRequesting) (header resolv : Option Resource) : Transfer where
  url := r.mUrl
  port := if r.mPort ≠ 0 then some r.mPort else none
  digest := decide (r.mAuthMethod = "digest")
  verifyHost := decide (r.versionTls = "")
  nativeCa := decide (r.versionTls ≠ "")
  sslVersion := HttpRequesting.sslVersion r.versionTls
  httpVersion := HttpRequesting.httpVersion r.mVersionHttp
  headers := header
  resolve := resolv
  postFields := if r.hasBody then some r.mData else none
  postFieldSize := if r.hasBody then some r.mData.length else none
  userPwd := if r.mUserPw ≠ "" then some r.mUserPw else none
  headerTo := true
  dataTo := true
  priv := some i
  debug := r.mModeDebug

/-- All options of a configuration, in the order in which they are set. -/
def requestOpts (i : Nat) (r : HttpRequesting) (header resolv : Option Resource) : List CurlOpt :=
  optsConnection r ++ (sslVersion r.versionTls).toList.map .sslVersion ++
    (httpVersion r.mVersionHttp).toList.map .httpVersion ++ header.toList.map .httpHeader ++
    resolv.toList.map .resolve ++ optsContinued i r

end HttpRequesting

end ProcessingCommon
