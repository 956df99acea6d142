import ProcessingCommon.Lib.HeaderLines
import ProcessingCommon.MailSending.Model

/-!
# The header of a mail

`easyHandleCreate` puts the names, the addresses and the subject into the message as they are. They
come out again as the three header lines, in front of the body, exactly if none of them brings a
line end along.
-/

namespace ProcessingCommon

namespace MailSending

open HeaderLines (crlf)

/-- A name and an address as the value of a header line. -/
def pairText (p : Bytes × Bytes) : Bytes := p.1 ++ ascii " <" ++ p.2 ++ ascii ">"

/-- The three header lines. -/
def headerLines (recipient sender subject : Bytes) : List Bytes :=
  [ascii "To: " ++ pairText (nameAddrSplit recipient),
    ascii "From: " ++ pairText (nameAddrSplit sender), ascii "Subject: " ++ subject]

/-- A mail with these strings. -/
def written (m : MailSending) (recipient sender subject body : Bytes) : MailSending :=
  [Setting.recipientSet recipient, .senderSet sender, .subjectSet subject, .bodySet body].foldl
    apply m

/-- The message reads as the three header lines and the body. -/
def ReadsBack (recipient sender subject body : Bytes) : Prop :=
  ∀ m : MailSending, HeaderLines.read (m.written recipient sender subject body).message =
    some (headerLines recipient sender subject, body)

variable {recipient sender subject body s : Bytes} {pos : Nat}

/-! ## Names and addresses -/

theorem findLastOf_some {ch : UInt8} (h : findLastOf ch s = some pos) :
    s = s.take pos ++ ch :: s.drop (pos + 1) := by
  induction s generalizing pos with
  | nil => cases h
  | cons c s ih =>
    unfold findLastOf at h
    split at h
    · next p hp =>
      cases h
      exact congrArg (c :: ·) (ih hp)
    · split at h
      · next hc =>
        cases h
        rw [hc]
        rfl
      · cases h

/-- The two parts have a CR LF inside exactly if the string has. -/
theorem crlf_nameAddrSplit (s : Bytes) :
    crlf <:+: (nameAddrSplit s).1 ∨ crlf <:+: (nameAddrSplit s).2 ↔ crlf <:+: s := by
  unfold nameAddrSplit
  split
  · next pos hpos =>
    rw [← HeaderLines.crlf_infix_append (c := 32) (by decide) (by decide),
      ← findLastOf_some hpos]
  · exact or_iff_right HeaderLines.not_crlf_nil

/-- A field name in front and the delimiters of a pair add no CR LF. -/
theorem crlf_pairLine (name : Bytes) (hname : ¬ crlf <:+: name) (p : Bytes × Bytes) :
    crlf <:+: name ++ 32 :: pairText p ↔ crlf <:+: p.1 ∨ crlf <:+: p.2 := by
  have hnil := HeaderLines.not_crlf_nil
  have hpair : pairText p = p.1 ++ 32 :: ([] ++ 60 :: (p.2 ++ 62 :: [])) := by
    rw [pairText, List.append_assoc, List.append_assoc]
    rfl
  rw [hpair, HeaderLines.crlf_infix_append (by decide) (by decide), or_iff_right hname,
    HeaderLines.crlf_infix_append (by decide) (by decide),
    HeaderLines.crlf_infix_append (by decide) (by decide), or_iff_right hnil,
    HeaderLines.crlf_infix_append (by decide) (by decide), or_iff_left hnil]

/-! ## The message -/

theorem message_written (m : MailSending) (recipient sender subject body : Bytes) :
    (m.written recipient sender subject body).message =
      HeaderLines.write (headerLines recipient sender subject) body := by
  have hend : ascii "\r\n" = crlf := rfl
  simp only [written, List.foldl_cons, List.foldl_nil, apply, message, strBodyPrefix, headerLines,
    HeaderLines.write, pairText, List.flatMap_cons, List.flatMap_nil, List.append_assoc,
    List.nil_append, hend]

/-- The strings come back exactly if the recipient, the sender and the subject have no CR LF
inside. -/
theorem readsBack_iff (recipient sender subject body : Bytes) :
    ReadsBack recipient sender subject body ↔
      ¬ crlf <:+: recipient ∧ ¬ crlf <:+: sender ∧ ¬ crlf <:+: subject := by
  have hto : crlf <:+: ascii "To: " ++ pairText (nameAddrSplit recipient) ↔ crlf <:+: recipient :=
    (crlf_pairLine (ascii "To:") (by decide) _).trans (crlf_nameAddrSplit recipient)
  have hfrom : crlf <:+: ascii "From: " ++ pairText (nameAddrSplit sender) ↔ crlf <:+: sender :=
    (crlf_pairLine (ascii "From:") (by decide) _).trans (crlf_nameAddrSplit sender)
  have hsubject : crlf <:+: ascii "Subject: " ++ subject ↔ crlf <:+: subject :=
    (HeaderLines.crlf_infix_append (c := 32) (by decide) (by decide) (ascii "Subject:") _).trans
      (or_iff_right (by decide))
  have hne : ∀ l ∈ headerLines recipient sender subject, l ≠ [] := by
    intro l hl
    simp only [headerLines, List.mem_cons, List.not_mem_nil, or_false] at hl
    rcases hl with rfl | rfl | rfl <;> exact List.cons_ne_nil _ _
  have hread : ReadsBack recipient sender subject body ↔
      ∀ l ∈ headerLines recipient sender subject, ¬ crlf <:+: l := by
    simp only [ReadsBack, message_written, HeaderLines.read_write_iff hne]
    exact ⟨fun h => h {}, fun h _ => h⟩
  rw [hread]
  simp only [headerLines, List.forall_mem_cons, List.not_mem_nil, false_implies, implies_true,
    and_true, hto, hfrom, hsubject]

/-- A subject that brings another header line along. -/
theorem readsBack_forged :
    ¬ (∀ recipient sender subject body : Bytes, ReadsBack recipient sender subject body) ∧
    HeaderLines.read (MailSending.message
      (written {} (ascii "a@b") (ascii "c@d") (ascii "x\r\nBcc: e@f") (ascii "y"))) =
      some ([ascii "To:  <a@b>", ascii "From:  <c@d>", ascii "Subject: x", ascii "Bcc: e@f"],
        ascii "y") := by
  have hforged : HeaderLines.read (MailSending.message
      (written {} (ascii "a@b") (ascii "c@d") (ascii "x\r\nBcc: e@f") (ascii "y"))) =
      some ([ascii "To:  <a@b>", ascii "From:  <c@d>", ascii "Subject: x", ascii "Bcc: e@f"],
        ascii "y") := by
    decide +kernel
  refine ⟨fun hall => ?_, hforged⟩
  have h := hall (ascii "a@b") (ascii "c@d") (ascii "x\r\nBcc: e@f") (ascii "y") {}
  rw [hforged] at h
  exact absurd h (by decide +kernel)

end MailSending

end ProcessingCommon
