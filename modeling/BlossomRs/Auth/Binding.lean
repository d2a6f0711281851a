import BlossomRs.Auth.Client

/-!
# One event, one request

What an accepted event says about the request it is accepted for.  Each binding check leaves no
choice for the tags of its name, so an event that is accepted twice was accepted for the same path
and method, and for the same hash wherever both requests expect one (`accepted_event_binds`).

An event is remembered by its id.  The id of an accepted event is the digest of its fields, so it
cannot be varied without varying what was signed.
-/

namespace BlossomRs.Auth

open Protocol

namespace Accepts

variable {secp : Secp256k1} {baseUrl : String} {event : NostrEvent} {request : Expectation}
  {now : Nat}

section

variable (h : Accepts secp baseUrl event request now)
include h

/-- An accepted event is of one of the two kinds, and passed the verifier of its kind. -/
theorem kinds :
    (event.kind = 24242 ∧ verifyBlossomAuthBound secp now event request.action (serverOf baseUrl)
        (serverOf baseUrl ++ request.path) request.method request.hash = .ok ())
      ∨ (event.kind = 27235 ∧ verifyNip98AuthWithPayload secp now event
        (some (serverOf baseUrl ++ request.path)) (some request.method)
        (if bindsPayload request.method then request.hash else none) = .ok ()) := by
  unfold Accepts verifyAuthEventClaims at h
  by_cases hbearer : event.kind = 24242
  · exact Or.inl ⟨hbearer, by simpa only [if_pos hbearer] using h⟩
  by_cases hhttp : event.kind = 27235
  · exact Or.inr ⟨hhttp, by simpa only [if_neg hbearer, if_pos hhttp] using h⟩
  · simp [hbearer, hhttp] at h

theorem identity :
    event.id = Hex.encode event.computedId.toList := by
  rcases h.kinds with ⟨-, h⟩ | ⟨-, h⟩
  · obtain ⟨⟨-, -, -, -, hidentity⟩, -⟩ := verifyBlossomAuthBound_eq_ok_iff.mp h
    exact (checkIdentity_eq_ok_iff.mp hidentity).1.symm
  · obtain ⟨-, -, -, -, -, hidentity⟩ := verifyNip98AuthWithPayload_eq_ok_iff.mp h
    exact (checkIdentity_eq_ok_iff.mp hidentity).1.symm

theorem url :
    namedTags event "u" = [["u", serverOf baseUrl ++ request.path]] := by
  rcases h.kinds with ⟨-, h⟩ | ⟨-, h⟩
  · exact (verifyBlossomAuthBound_eq_ok_iff.mp h).2.2.1
  · exact (verifyNip98AuthWithPayload_eq_ok_iff.mp h).2.2.1

theorem method :
    ∃ value, namedTags event "method" = [["method", value]]
      ∧ RustStr.toAsciiLowercase value = RustStr.toAsciiLowercase request.method := by
  rcases h.kinds with ⟨-, h⟩ | ⟨-, h⟩
  · exact ⟨_, (verifyBlossomAuthBound_eq_ok_iff.mp h).2.2.2.1,
      RustStr.toAsciiLowercase_toAsciiUppercase _⟩
  · obtain ⟨value, htags, hvalue⟩ := (verifyNip98AuthWithPayload_eq_ok_iff.mp h).2.2.2.1
    exact ⟨value, htags, RustStr.eqIgnoreAsciiCase_iff.mp hvalue⟩

end

/-- The tag that carries the hash of a request, by the kind of the event. -/
def hashTag (event : NostrEvent) : String :=
  if event.kind = 24242 then "x" else "payload"

theorem hash (h : Accepts secp baseUrl event request now) {x : String}
    (hx : request.hash = some x)
    (hbinds : event.kind = 24242 ∨ bindsPayload request.method = true) :
    namedTags event (hashTag event) = [[hashTag event, x]] := by
  rcases h.kinds with ⟨hkind, h⟩ | ⟨hkind, h⟩
  · simp only [hashTag, hkind, if_true]
    exact (verifyBlossomAuthBound_eq_ok_iff.mp h).2.2.2.2 x hx
  · have hne : event.kind ≠ 24242 := by
      rw [hkind]
      decide
    have hpayload := (verifyNip98AuthWithPayload_eq_ok_iff.mp h).2.2.2.2.1
    rw [if_pos (hbinds.resolve_left hne)] at hpayload
    simp only [hashTag, if_neg hne]
    exact hpayload x hx

end Accepts

/-- **One event, one request.**  Two requests for which an event is accepted agree on the path, on
the method up to letter case, and on the hash where both expect one and the event can carry it.
The id an accepted event is remembered by is the one of its own fields: equal fields give equal ids,
and equal ids give equal fields where the digest has no collision. -/
theorem accepted_event_binds (secp : Secp256k1) (baseUrl : String) :
    (∀ event request request' now now', Accepts secp baseUrl event request now →
      Accepts secp baseUrl event request' now' →
        request.path = request'.path
        ∧ RustStr.eqIgnoreAsciiCase request.method request'.method = true
        ∧ ∀ x x', request.hash = some x → request'.hash = some x' →
          event.kind = 24242
            ∨ (bindsPayload request.method = true ∧ bindsPayload request'.method = true) →
          x = x')
      ∧ (∀ event request now, Accepts secp baseUrl event request now →
        event.id = Hex.encode (computeEventId event.pubkey event.createdAt event.kind event.tags
          event.content).toList)
      ∧ (∀ event event' request request' now now', Accepts secp baseUrl event request now →
        Accepts secp baseUrl event' request' now' →
          event.pubkey = event'.pubkey → event.createdAt = event'.createdAt →
          event.kind = event'.kind → event.tags = event'.tags → event.content = event'.content →
          event.id = event'.id)
      ∧ ∀ event event' request request' now now', Accepts secp baseUrl event request now →
        Accepts secp baseUrl event' request' now' →
          Sha256.CollisionFreeOn (· ∈ [event.text, event'.text]) → event.id = event'.id →
          event.pubkey = event'.pubkey ∧ event.createdAt = event'.createdAt
            ∧ event.kind = event'.kind ∧ event.tags = event'.tags
            ∧ event.content = event'.content := by
  refine ⟨?_, ?_, ?_, ?_⟩
  · intro event request request' now now' h h'
    refine ⟨?_, ?_, ?_⟩
    · have hurl : serverOf baseUrl ++ request.path = serverOf baseUrl ++ request'.path := by
        simpa using h.url.symm.trans h'.url
      simpa using hurl
    · obtain ⟨value, htags, hvalue⟩ := h.method
      obtain ⟨value', htags', hvalue'⟩ := h'.method
      obtain rfl : value = value' := by simpa using htags.symm.trans htags'
      rw [RustStr.eqIgnoreAsciiCase_iff, ← hvalue, hvalue']
    · intro x x' hx hx' hbinds
      have htag := h.hash hx (hbinds.imp id And.left)
      have htag' := h'.hash hx' (hbinds.imp id And.right)
      simpa using htag.symm.trans htag'
  · intro event request now h
    exact h.identity
  · intro event event' request request' now now' h h' hpubkey hcreated hkind htags hcontent
    rw [h.identity, h'.identity, NostrEvent.computedId, NostrEvent.computedId, hpubkey, hcreated,
      hkind, htags, hcontent]
  · intro event event' request request' now now' h h' hfree hid
    have hdigest : Sha256.sha256 event.text = Sha256.sha256 event'.text := by
      rw [h.identity, h'.identity] at hid
      exact List.Vector.toList_injective (Hex.encode_injective hid)
    have htext : event.text = event'.text := hfree _ _ (by simp) (by simp) hdigest
    exact eventText_injective htext

/-- Two valid signatures of one message. -/
def helloSignatures : List (Nat × Nat) := [
  (0x9bf4f50f557e92bba9b57432f59175b3632393981e432b9a5af5c9e6a35edddc,
    0x7b88e25df0b6106eefaaca2e268490400c6e7a9b35fa79cc1b26f9c85dea7d03),
  (0x18df866d42539ced0fe17cbec68f42cb4d1e9dda61309a227eac262da50e913e,
    0x8ea5d4fb83777200603645d475bc44ad88a6ca44cb2664a276e91bda7b0db4ad)]

/-- The event of an upload of the bytes of "hello". -/
def helloEvent (sig : Nat × Nat) : NostrEvent :=
  testEvent sig 1700000000 "n1" "upload" (some (sha256Hex [104, 101, 108, 108, 111])) "http://h"
    "/upload" "PUT" []

theorem accepts_helloEvent {sig : Nat × Nat} (hsig : sig ∈ helloSignatures) (hash : Option String)
    (hhash : ∀ x, hash = some x → some (sha256Hex [104, 101, 108, 108, 111]) = some x) :
    Accepts (.knowing (helloSignatures.map helloEvent)) "http://h" (helloEvent sig)
      ⟨"upload", "/upload", "PUT", hash⟩ 1700000001 := by
  exact accepts_testEvent rfl (List.mem_map.mpr ⟨sig, hsig, rfl⟩) (by simp) (by simp) hhash
    (by decide) (by decide) (by decide)

/-- An upload checks its event twice, before and after it has the body, and a client may sign the
same event twice: all four checks pass, and all of them are for one request and one id. -/
theorem helloEvent_binds : ∃ sig ∈ helloSignatures, ∃ sig' ∈ helloSignatures, sig ≠ sig'
    ∧ Accepts (.knowing (helloSignatures.map helloEvent)) "http://h" (helloEvent sig)
      ⟨"upload", "/upload", "PUT", none⟩ 1700000001
    ∧ Accepts (.knowing (helloSignatures.map helloEvent)) "http://h" (helloEvent sig')
      ⟨"upload", "/upload", "PUT", some (sha256Hex [104, 101, 108, 108, 111])⟩ 1700000001
    ∧ RustStr.eqIgnoreAsciiCase "PUT" "PUT" = true
    ∧ (helloEvent sig).id = Hex.encode (computeEventId testKey 1700000000 24242
      (helloEvent sig).tags "").toList
    ∧ (helloEvent sig).id = (helloEvent sig').id
    ∧ (helloEvent sig).tags = (helloEvent sig').tags := by
  obtain ⟨hrequests, hids, hsame, hfields⟩ :=
    accepted_event_binds (.knowing (helloSignatures.map helloEvent)) "http://h"
  refine ⟨_, List.mem_cons_self, _, List.mem_cons_of_mem _ List.mem_cons_self, by decide, ?_⟩
  have hbefore := accepts_helloEvent List.mem_cons_self none nofun
  have hafter := accepts_helloEvent (List.mem_cons_of_mem _ List.mem_cons_self)
    (some (sha256Hex [104, 101, 108, 108, 111])) (fun _ h => h)
  have hbound := accepts_helloEvent List.mem_cons_self
    (some (sha256Hex [104, 101, 108, 108, 111])) (fun _ h => h)
  have hid := hsame _ _ _ _ _ _ hbefore hafter rfl rfl rfl rfl rfl
  have hfree : ∀ text, Sha256.CollisionFreeOn (· ∈ [text, text]) := by
    intro text x y hx hy _
    simp only [List.mem_cons, List.not_mem_nil, or_false, or_self] at hx hy
    rw [hx, hy]
  exact ⟨hbefore, hafter, (hrequests _ _ _ _ _ hbefore hbound).2.1, hids _ _ _ hbefore, hid,
    (hfields _ _ _ _ _ _ hbefore hafter (hfree _) hid).2.2.2.1⟩

end BlossomRs.Auth
