import ProcessingCommon.Lib.Transition
import ProcessingCommon.MailSending.Model

/-!
# The upload of a mail

curl fetches the message with `stringToCurlDataRead`, in requests of any sizes, and counts on the
size that was announced before. The chunks are the message from its beginning, and there is an end
only at its end. The announced size is that of the body and 20 bytes: the header alone has
at least 33.
-/

namespace ProcessingCommon

namespace MailSending

variable {m : MailSending} {msg : Bytes} {reqs : List (Nat × Nat)} {chunks : List Bytes}

/-! ## What is wanted -/

/-- `size * nmemb`, a `size_t`. -/
def numReq (req : Nat × Nat) : Nat := req.1 * req.2 % 2 ^ 64

/-- The chunks are a part of the message from its beginning, and a request for at least one byte
gets none only when all of it is delivered. -/
structure Delivered (msg : Bytes) (reqs : List (Nat × Nat)) (chunks : List Bytes) : Prop where
  isPrefix : chunks.flatten <+: msg
  complete : ∀ k req, reqs[k]? = some req → 0 < numReq req → chunks[k]? = some [] →
    (chunks.take k).flatten = msg

/-- The mail behind `easyHandleCreate`. -/
def assembled (m : MailSending) : MailSending := { m with mBody := m.message }

/-- The chunks that the requests of curl get. -/
def chunksRead (m : MailSending) (reqs : List (Nat × Nat)) : List Bytes :=
  Transition.outputs (fun m (req : Nat × Nat) => m.stringToCurlDataRead req.1 req.2) m reqs

/-- The message is delivered as it should be, and its length was announced. -/
structure UploadComplete (m : MailSending) (reqs : List (Nat × Nat)) : Prop where
  delivered : Delivered m.message reqs (m.assembled.chunksRead reqs)
  announced : m.inFileSize = m.message.length

/-! ## Delivery -/

/-- One request gets what is next, as far as there is something left. -/
theorem stringToCurlDataRead_eq (hlen : m.mBody.length < 2 ^ 64)
    (hle : m.mNumSent ≤ m.mBody.length) (req : Nat × Nat) :
    m.stringToCurlDataRead req.1 req.2 =
      ({ m with mNumSent := m.mNumSent + min (numReq req) (m.mBody.length - m.mNumSent) },
        (m.mBody.drop m.mNumSent).take (min (numReq req) (m.mBody.length - m.mNumSent))) := by
  have hleft : (m.mBody.length + (2 ^ 64 - m.mNumSent)) % 2 ^ 64 = m.mBody.length - m.mNumSent := by
    omega
  rw [stringToCurlDataRead, hleft, ← numReq]
  split
  · next h0 =>
    rw [h0, List.take_zero]
    rfl
  · rfl

/-- The rest of the message, from where the mail stands. -/
theorem chunksRead_delivered (hlen : m.mBody.length < 2 ^ 64) (hle : m.mNumSent ≤ m.mBody.length)
    (reqs : List (Nat × Nat)) :
    Delivered (m.mBody.drop m.mNumSent) reqs (m.chunksRead reqs) := by
  induction reqs generalizing m with
  | nil =>
    refine ⟨List.nil_prefix, ?_⟩
    intro k req hk
    cases hk
  | cons req reqs ih =>
    rw [chunksRead, Transition.outputs, stringToCurlDataRead_eq hlen hle]
    have hrest := ih (m := { m with
      mNumSent := m.mNumSent + min (numReq req) (m.mBody.length - m.mNumSent) }) hlen
      (by dsimp only; omega)
    rw [← List.drop_drop] at hrest
    change Delivered _ _ (_ :: chunksRead _ reqs)
    generalize hn : min (numReq req) (m.mBody.length - m.mNumSent) = n at hrest ⊢
    have hsplit := List.take_append_drop n (m.mBody.drop m.mNumSent)
    refine ⟨?_, ?_⟩
    · rw [List.flatten_cons]
      conv_rhs => rw [← hsplit]
      exact (List.prefix_append_right_inj _).mpr hrest.isPrefix
    · intro k r hk hpos hchunk
      cases k with
      | zero =>
        cases hk
        have hzero := congrArg List.length (Option.some.inj hchunk)
        rw [List.length_take, List.length_drop, List.length_nil] at hzero
        have hend : m.mBody.drop m.mNumSent = [] := List.drop_of_length_le (by omega)
        rw [hend]
        rfl
      | succ k =>
        have hall := hrest.complete k r hk hpos hchunk
        rw [List.take_succ_cons, List.flatten_cons, hall, hsplit]

/-- A new mail delivers its message, however curl asks. A string is shorter than `2 ^ 64`. -/
theorem upload_delivered (h0 : m.mNumSent = 0) (hlen : m.message.length < 2 ^ 64)
    (reqs : List (Nat × Nat)) : Delivered m.message reqs (m.assembled.chunksRead reqs) := by
  have hsent : m.assembled.mNumSent = 0 := h0
  have hd := chunksRead_delivered (m := m.assembled) hlen (by omega) reqs
  rwa [hsent, List.drop_zero] at hd

/-! ## The announced size -/

/-- The header has 33 bytes besides names, addresses and subject. -/
theorem strBodyPrefix_length (m : MailSending) : m.strBodyPrefix.length =
    33 + m.mRecipientName.length + m.mRecipientAddr.length + m.mSenderName.length +
      m.mSenderAddr.length + m.mSubject.length := by
  simp only [strBodyPrefix, List.length_append]
  have hTo : (ascii "To: ").length = 4 := rfl
  have hFrom : (ascii "From: ").length = 6 := rfl
  have hSubject : (ascii "Subject: ").length = 9 := rfl
  have hLt : (ascii " <").length = 2 := rfl
  have hGt : (ascii ">").length = 1 := rfl
  have hEnd : (ascii "\r\n").length = 2 := rfl
  omega

theorem bmod_natCast_le (n w : Nat) : (n : Int).bmod w ≤ n := by
  have hmod : (n : Int) % w ≤ n := by exact_mod_cast Nat.mod_le n w
  rw [Int.bmod_def]
  split
  · exact hmod
  · omega

theorem inFileSize_le (m : MailSending) : m.inFileSize ≤ m.mBody.length + 20 := by
  have hle := bmod_natCast_le (m.mBody.length + 20) (2 ^ 64)
  rwa [Int.natCast_add] at hle

/-- Every mail announces less than it has. -/
theorem inFileSize_lt (m : MailSending) : m.inFileSize < m.message.length := by
  have hle := inFileSize_le m
  have hpre := strBodyPrefix_length m
  rw [message, List.length_append]
  omega

/-- No upload is delivered and announced as it should be. -/
theorem upload_incomplete (m : MailSending) (reqs : List (Nat × Nat)) : ¬ UploadComplete m reqs :=
  fun h => absurd h.announced (Int.ne_of_lt (inFileSize_lt m))

/-- The mail without any text: 33 bytes of header, 20 announced. -/
theorem upload_incomplete_fails :
    ¬ ∀ (m : MailSending) (reqs : List (Nat × Nat)), UploadComplete m reqs := by
  intro h
  exact absurd (h {} [(1, 16384)]).announced (by decide)

end MailSending

end ProcessingCommon
