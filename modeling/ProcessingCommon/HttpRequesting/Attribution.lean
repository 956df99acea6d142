import ProcessingCommon.HttpRequesting.Handles

/-!
# Every completion goes to its own request

The tick of any request takes the completions of all of them. Where all TLS versions are known, each
one is applied to the running request whose handle it names, once, and a request is done when it has
got its own. The handle that an unknown TLS version has cleaned up twice is the one of another
request the second time.
-/

namespace ProcessingCommon

namespace HttpRequesting

open Program (wp wp_mono wp_seq)
open Transition (Reachable)

variable {i j : Nat} {r r' : HttpRequesting} {ms ms' : List CURLMsg}

/-- The completion of the handle of a pending request gives it its result. -/
structure Applied (m : CURLMsg) (r r' : HttpRequesting) : Prop where
  handle : r.mpCurl = some m.easyHandle
  pending : r.mDoneCurl = .pending
  mDoneCurl : r'.mDoneCurl = .positive
  mCurlRes : r'.mCurlRes = m.result
  mRespCode : r'.mRespCode = m.respCode

structure SameResult (r r' : HttpRequesting) : Prop where
  mDoneCurl : r'.mDoneCurl = r.mDoneCurl
  mCurlRes : r'.mCurlRes = r.mCurlRes
  mRespCode : r'.mRespCode = r.mRespCode

theorem own_append (i : Nat) (ms ms' : List CURLMsg) : own i (ms ++ ms') = own i ms ++ own i ms' :=
  List.filter_append ..

theorem mem_own {m : CURLMsg} : m ∈ own i ms ↔ m ∈ ms ∧ m.easyHandle.owner = i := by
  simp only [own, List.mem_filter, decide_eq_true_eq]

theorem Outcome.same (h : Outcome True r ms) (h' : Outcome True r' ms) : SameResult r r' := by
  match ms with
  | [] => exact ⟨h'.1.trans h.1.symm, h'.2.1.trans h.2.1.symm, h'.2.2.trans h.2.2.symm⟩
  | [m] =>
    exact ⟨h'.1.trans h.1.symm, h'.2.1.trans h.2.1.symm,
      (h'.2.2.1 trivial).trans (h.2.2.1 trivial).symm⟩
  | _ :: _ :: _ => exact h.elim

/-- The new completions of a request, if there are any, are one. -/
theorem Outcome.cases (h : Outcome True r ms) (h' : Outcome True r' (ms ++ ms')) :
    ms' = [] ∨ ms = [] ∧ ∃ m, ms' = [m] := by
  match ms, ms' with
  | _, [] => exact .inl rfl
  | [], [m] => exact .inr ⟨rfl, m, rfl⟩
  | [], _ :: _ :: _ => exact h'.elim
  | [_], _ :: _ => exact h'.elim
  | _ :: _ :: _, _ :: _ => exact h.elim

theorem Outcome.done (h : Outcome True r ms) (hd : r.mDoneCurl ≠ .pending) :
    ∃ m, ms = [m] ∧ r.mCurlRes = m.result ∧ r.mRespCode = m.respCode := by
  match ms with
  | [] => exact absurd h.1 hd
  | [m] => exact ⟨m, rfl, h.2.1, h.2.2.1 trivial⟩
  | _ :: _ :: _ => exact h.elim

/-- `process()` has a result in this state only when the request is done. -/
theorem process_result {ω : Type} {env : ω → (c : Call) → Answer c → ω → Prop} {rs : Requests}
    (hst : (rs.req i).mState = .stReqDoneWait) (n : Nat) (w : ω) :
    wp env (process n i) (fun success rs' _ => success ≠ .pending →
      (rs'.req i).mDoneCurl ≠ .pending ∧
        (success = .positive → (rs'.req i).mCurlRes = CURLE_OK)) rs w := by
  rw [process, Program.wp_bind, wp_this, hst]
  refine wp_seq (Program.wp_true (multiProcess n)) fun _ rs₁ w₁ _ => ?_
  simp only [Program.wp_bind, wp_this, Program.wp_ite, Program.wp_pure]
  split
  · exact fun h => absurd rfl h
  · next hdone =>
    split
    · exact fun _ => ⟨hdone, fun h => by cases h⟩
    · next hres => exact fun _ => ⟨hdone, fun _ => not_not.mp hres⟩

/-- In every step of every run: each new completion is applied to the request that owns its handle
and to no other, that request is running and its shutdown has not finished, and a request that is
done has got the completion of its own handle, with the result it reports. -/
theorem completions_attributed {s t : System} {a : Action}
    (hs : Reachable Start (Step TlsKnown (Obeyed True)) s)
    (h : Step TlsKnown (Obeyed True) s a t) :
    ∃ ms, t.curl.consumed = s.curl.consumed ++ ms ∧
      (∀ j, own j ms = [] ∧ SameResult (s.requests.req j) (t.requests.req j) ∨
        ∃ m, own j ms = [m] ∧ s.phase j = .running ∧
          Applied m (s.requests.req j) (t.requests.req j)) ∧
      ∀ i success, a = .tick i success → (s.requests.req i).mState = .stReqDoneWait →
        success ≠ .pending → ∃ m, own i t.curl.consumed = [m] ∧
          (t.requests.req i).mCurlRes = m.result ∧ (t.requests.req i).mRespCode = m.respCode ∧
          (success = .positive → m.result = CURLE_OK) := by
  have hok : s.Ok True := reachable_ok hs
  obtain ⟨hok', ms, hms, hrun⟩ := h.ok hok
  refine ⟨ms, hms, fun j => ?_, fun i success ha hst hres => ?_⟩
  · have hout := (hok.1.req j).outcome
    have hout' := (hok'.1.req j).outcome
    rw [hms, own_append] at hout'
    rcases hout.cases hout' with hnil | ⟨hfirst, m, hm⟩
    · rw [hnil, List.append_nil] at hout'
      exact .inl ⟨hnil, hout.same hout'⟩
    · rw [hfirst, hm] at hout'
      rw [hfirst] at hout
      obtain ⟨hmem, rfl⟩ := mem_own.mp (hm ▸ List.mem_singleton_self m : m ∈ own j ms)
      obtain ⟨hphase, hhandle⟩ := hrun m hmem
      exact .inr ⟨m, hm, hphase, hhandle, hout.1, hout'.1, hout'.2.1, hout'.2.2.1 trivial⟩
  · subst ha
    cases h with
    | tick _ _ he =>
      obtain ⟨hdone, hpos⟩ := Program.wp_iff.mp (process_result hst _ _) _ _ _ he hres
      obtain ⟨m, hm, hresult, hcode⟩ := (hok'.1.req i).outcome.done hdone
      exact ⟨m, hm, hresult, hcode, fun hp => hresult.symm.trans (hpos hp)⟩

/-- The first completion is taken in the second tick after it came, and another one of the handle
goes with it. -/
theorem completions_attributed_waiting : ∃ s t,
    Reachable Start (Step TlsKnown (Obeyed True)) s ∧
    Step TlsKnown (Obeyed True) s (.tick 0 .positive) t ∧ s.curl.consumed = [] ∧
    t.curl.msgs = [] ∧ ∃ m, own 0 t.curl.consumed = [m] ∧ m.result = CURLE_OK ∧
      (t.requests.req 0).mRespCode = m.respCode := by
  have hok := obeyed_oneHandle True
  have hnew : ∀ {r : HttpRequesting}, r.mVersionTls = "" → TlsKnown r := fun h _ => .inl h
  have h₀ : Played TlsKnown (Obeyed True) _ := .start
  have h₁ := h₀.construct hok 0 rfl
  have h₂ := h₁.tick hok 0 0 rfl (hnew rfl)
  have h₃ := h₂.tick hok 0 0 rfl (hnew rfl)
  have h₄ := h₃.tick hok 0 0 rfl (hnew rfl)
  have h₅ := h₄.tick hok 0 0 rfl (hnew rfl)
  have h₆ := h₅.tick hok 0 0 rfl (hnew rfl)
  obtain ⟨he, -⟩ := h₆.exec hok 0 (process 2 0)
  obtain ⟨_, -, -, hres⟩ := completions_attributed h₆.reach (.tick rfl (hnew rfl) he)
  obtain ⟨m, hm, -, hcode, hpos⟩ := hres 0 .positive rfl rfl (by decide)
  exact ⟨_, _, h₆.reach, .tick rfl (hnew rfl) he, rfl, rfl, m, hm, hpos rfl, hcode⟩

/-- Request 0 has an unknown TLS version. The address of its handle goes to request 1, whose handle
the destructor of request 0 cleans up, and so to request 2, too. The completion of their transfer is
taken in the tick of request 1 and applied to request 2, which was shut down before. -/
theorem completions_attributed_fails : ∃ s t,
    Reachable Start (Step (fun _ => True) (Obeyed True)) s ∧
    Step (fun _ => True) (Obeyed True) s (.tick 1 .pending) t ∧ s.phase 2 = .down ∧
    s.curl.consumed = [] ∧ t.curl.consumed = [⟨.done, easy 2, CURLE_OK, 200⟩] ∧
    (s.requests.req 2).mDoneCurl = .pending ∧ (t.requests.req 2).mDoneCurl = .positive ∧
    (t.requests.req 1).mDoneCurl = .pending := by
  have hok := obeyed_oneHandle True
  have h₀ : Played (fun _ => True) (Obeyed True) _ := .start
  have h₁ := h₀.construct hok 0 rfl
  have h₂ := h₁.configure 0 (.versionTlsSet "foo") rfl
  have h₃ := h₂.tick hok 0 0 rfl trivial
  have h₄ := h₃.tick hok 0 0 rfl trivial
  have h₅ := h₄.tick hok 0 0 rfl trivial
  have h₆ := h₅.shutdown hok 0 rfl
  -- the pointer of request 0 now means the handle of request 1
  have h₇ := h₆.construct hok 1 rfl
  have h₈ := h₇.destruct hok 0 rfl
  have h₉ := h₈.construct hok 2 rfl
  have h₁₀ := h₉.tick hok 0 1 rfl trivial
  have h₁₁ := h₁₀.tick hok 0 1 rfl trivial
  have h₁₂ := h₁₁.tick hok 0 1 rfl trivial
  have h₁₃ := h₁₂.tick hok 0 2 rfl trivial
  have h₁₄ := h₁₃.tick hok 0 2 rfl trivial
  have h₁₅ := h₁₄.tick hok 0 2 rfl trivial
  have h₁₆ := h₁₅.shutdown hok 2 rfl
  have h₁₇ := h₁₆.tick hok 0 1 rfl trivial
  obtain ⟨he, -⟩ := h₁₇.exec hok 1 (process 2 1)
  exact ⟨_, _, h₁₇.reach, .tick rfl trivial he, rfl, rfl, rfl, rfl, rfl, rfl⟩

end HttpRequesting

end ProcessingCommon
