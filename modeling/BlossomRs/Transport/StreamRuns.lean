import BlossomRs.Server.AuthRuns
import BlossomRs.Transport.Stream

/-!
# What streams use up

Every stream under way carries an event that was fresh when it was checked (`Checked`), and only a
stream at its commit touches the replay cache (`seen_streamStep`).

`event_committed_once`: no event is used up twice, provided every stream uses its event up less than
thirty seconds after it was checked.  Without that an event can be checked in the last second of its
life and used up after the cache has forgotten its first use (`late_commit`).
-/

namespace BlossomRs.Transport

open Protocol Auth Storage Database Access Lfs Locks Server ReplayWindow

variable {β δ ν κ : Type}

/-! ### Where events are used up -/

/-- The next stretch of a stream uses its event up. -/
def Stream.AtCommit (stream : Stream) : Prop :=
  if stream.request.op = .upload then stream.stage = .reserved
  else (requestAuthBinding stream.request).isSome ∧ stream.stage ∉ [.verified, .committed]

instance (stream : Stream) : Decidable stream.AtCommit :=
  inferInstanceAs (Decidable (ite _ _ _))

/-- The stream that an event of a run makes use its event up. -/
def committing (st : Streams β δ ν κ) (event : StreamEvent) : Option (Stream × VerifiedAuth) :=
  match event with
  | .resume id _ =>
    (st.active id).bind fun stream =>
      if stream.AtCommit then stream.auth.map fun auth => (stream, auth) else none
  | _ => none

/-- The attempt at the cache that this is. -/
def attemptAt (now : SystemTime) (auth : VerifiedAuth) : Attempt String String :=
  ⟨auth.pubkey, auth.eventId, now.secs⟩

section Stretch

variable {stream stream' : Stream} {w w' : Shared β δ ν κ}

theorem preflight_seen
    (check : ServerState β δ ν κ → Except Response Unit × ServerState β δ ν κ) :
    (preflight stream check w).2.seen = w.seen := by
  unfold preflight
  split <;> rfl

theorem commitStream_seen (now : SystemTime) :
    (commitStream stream now w).2.seen
      = stream.auth.elim w.seen fun auth => (w.seen.call (attemptAt now auth)).2 := by
  unfold commitStream
  cases hauth : stream.auth with
  | none => rfl
  | some auth =>
    dsimp only [Option.elim_some, ReplayCache.call, attemptAt]
    split
    · rename_i hcommit
      rw [hcommit]
    · rename_i hcommit
      rw [hcommit]
      dsimp only
      split <;> rfl

/-- A stretch that goes on leaves the request, the event and the time of its check as they are. -/
def SameRequest (stream stream' : Stream) : Prop :=
  stream'.request = stream.request ∧ stream'.auth = stream.auth
    ∧ stream'.verifiedAt = stream.verifiedAt

theorem preflight_next
    {check : ServerState β δ ν κ → Except Response Unit × ServerState β δ ν κ}
    (h : preflight stream check w = (.next stream', w')) : SameRequest stream stream' := by
  unfold preflight at h
  split at h
  · cases h
  · cases h
    exact ⟨rfl, rfl, rfl⟩

theorem reserveBody_next (h : reserveBody stream w = (.next stream', w')) :
    SameRequest stream stream' := by
  unfold reserveBody at h
  dsimp only at h
  split_ifs at h <;> cases h
  exact ⟨rfl, rfl, rfl⟩

theorem commitStream_next {now : SystemTime} (h : commitStream stream now w = (.next stream', w')) :
    SameRequest stream stream' := by
  unfold commitStream at h
  split at h
  · cases h
    exact ⟨rfl, rfl, rfl⟩
  · split at h
    · cases h
      exact ⟨rfl, rfl, rfl⟩
    · cases h

theorem checkBodyLen_next (h : checkBodyLen stream w = .next stream') :
    SameRequest stream stream' := by
  unfold checkBodyLen at h
  dsimp only at h
  split_ifs at h
  cases h
  exact ⟨rfl, rfl, rfl⟩

end Stretch

section Checked

variable {ext : Externals} {receiver : String} {st : Streams β δ ν κ}

/-- The event of a stream was fresh when it was checked. -/
def Stream.WasFresh (ext : Externals) (stream : Stream) (auth : VerifiedAuth) : Prop :=
  ∃ e, decodeAuth ext stream.request.auth = .ok e
    ∧ auth = ⟨e.pubkey, e.id⟩ ∧ checkFreshness stream.verifiedAt.secs e = .ok ()

/-- Every stream under way was checked by now: its event was fresh when it was. -/
def Checked (ext : Externals) (now : Nat) (st : Streams β δ ν κ) : Prop :=
  ∀ id stream auth, st.active id = some stream → stream.auth = some auth →
    stream.verifiedAt.secs ≤ now ∧ stream.WasFresh ext auth

theorem checked_openStream {request : Request} {now : SystemTime} {stream : Stream}
    {auth : VerifiedAuth} (h : openStream ext receiver request now = .ok stream)
    (hauth : stream.auth = some auth) :
    stream.verifiedAt = now ∧ stream.WasFresh ext auth := by
  unfold openStream at h
  split_ifs at h
  · cases h
    cases hauth
  · split at h
    · cases h
    · rename_i verified hverified
      cases h
      cases hauth
      obtain ⟨e, hdecode, hevent⟩ := Checks.bind_eq_ok.mp hverified
      obtain ⟨-, hblossom, -, -, hauth⟩ := verifyEvent_eq_ok_iff.mp hevent
      simp only [verifyBlossomAuth, Checks.seq_eq_ok] at hblossom
      exact ⟨rfl, e, hdecode, hauth, hblossom.2.1⟩

theorem Checked.mono {now later : Nat} (h : Checked ext now st) (hle : now ≤ later) :
    Checked ext later st := by
  intro id stream auth hactive hauth
  obtain ⟨htime, hevent⟩ := h id stream auth hactive hauth
  exact ⟨le_trans htime hle, hevent⟩

/-- A stream that is set in its place is checked if it was checked before it was set. -/
theorem Checked.set {now : Nat} (h : Checked ext now st) {id : Nat} {new : Option Stream}
    {shared : Shared β δ ν κ}
    (hnew : ∀ stream auth, new = some stream → stream.auth = some auth →
      stream.verifiedAt.secs ≤ now ∧ stream.WasFresh ext auth) :
    Checked ext now { st.set id new with shared := shared } := by
  intro other stream auth hactive hauth
  by_cases hother : other = id
  · subst hother
    have hset : new = some stream := by simpa [Streams.set] using hactive
    exact hnew stream auth hset hauth
  · have hkept : st.active other = some stream := by
      simpa [Streams.set, Function.update_of_ne hother] using hactive
    exact h other stream auth hkept hauth

/-- A stream that uses its event up was under way. -/
theorem active_of_committing {event : StreamEvent} {stream : Stream} {auth : VerifiedAuth}
    (h : committing st event = some (stream, auth)) :
    ∃ id, st.active id = some stream ∧ stream.auth = some auth := by
  cases event with
  | arrive => cases h
  | drop => cases h
  | resume id moment =>
    obtain ⟨stream', hactive, hcommit⟩ := Option.bind_eq_some_iff.mp h
    split at hcommit
    · obtain ⟨auth', hauth, hpair⟩ := Option.map_eq_some_iff.mp hcommit
      cases hpair
      exact ⟨id, hactive, hauth⟩
    · cases hcommit

end Checked

section Step

variable [BlobBackend β] [BlobDatabase δ] [LfsVersionDatabase ν] [LockDatabase κ]

section Advance

variable {ext : Externals} {moment : Moment} {stream stream' : Stream} {w w' : Shared β δ ν κ}

/-- Only the commit of a stream touches the cache. -/
theorem advance_seen :
    (advance ext moment stream w).2.seen
      = if stream.AtCommit then
          stream.auth.elim w.seen fun auth => (w.seen.call (attemptAt moment.now auth)).2
        else w.seen := by
  unfold advance Stream.AtCommit
  by_cases hupload : stream.request.op = .upload
  · simp only [if_pos hupload]
    cases hstage : stream.stage with
    | verified => simp
    | sized => simpa using preflight_seen _
    | admitted =>
      simp only [reserveBody]
      split_ifs <;> simp_all
    | reserved => simpa using commitStream_seen moment.now
    | committed =>
      dsimp only
      split <;> simp [runStream, Shared.giveBack]
  · simp only [if_neg hupload]
    by_cases hbound : (requestAuthBinding stream.request).isSome
    · simp only [hbound, true_and]
      cases hstage : stream.stage <;> cases hauth : stream.auth <;>
        simp [preflight_seen, commitStream_seen, runStream, hauth]
    · simp [hbound, runStream]

theorem advance_next (h : advance ext moment stream w = (.next stream', w')) :
    SameRequest stream stream' := by
  unfold advance at h
  split_ifs at h
  · split at h
    · exact checkBodyLen_next (Prod.mk.inj h).1
    · exact preflight_next h
    · exact reserveBody_next h
    · exact commitStream_next h
    · split at h <;> cases h
  · split at h
    · cases h
    · exact preflight_next h
    · cases h
    · exact commitStream_next h
  · cases h

end Advance

section Step

variable {ext : Externals} {receiver : String} {st : Streams β δ ν κ} {event : StreamEvent}

/-- What a step does to the cache. -/
theorem seen_streamStep :
    (streamStep ext receiver st event).shared.seen
      = (committing st event).elim st.shared.seen fun next =>
          (st.shared.seen.call (attemptAt event.now next.2)).2 := by
  cases event with
  | arrive id request now =>
    simp only [streamStep]
    split <;> rfl
  | drop id now =>
    simp only [streamStep, Streams.dropStream]
    split
    · split <;> rfl
    · rfl
  | resume id moment =>
    simp only [streamStep, committing]
    cases hactive : st.active id with
    | none => rfl
    | some stream =>
      have hseen : (advance ext moment stream st.shared).2.seen
          = (if stream.AtCommit then stream.auth.map fun auth => (stream, auth)
              else none).elim st.shared.seen fun next =>
                (st.shared.seen.call (attemptAt moment.now next.2)).2 := by
        rw [advance_seen]
        split
        · cases stream.auth <;> rfl
        · rfl
      dsimp only [Option.bind_some, StreamEvent.now]
      rw [← hseen]
      split
      · rename_i hadvance
        rw [hadvance]
      · rename_i hadvance
        rw [hadvance]

/-- Streams stay checked when time goes on. -/
theorem checked_streamStep {now : Nat} (h : Checked ext now st) (hclock : now ≤ event.now.secs) :
    Checked ext event.now.secs (streamStep ext receiver st event) := by
  have hlater := h.mono hclock
  cases event with
  | arrive id request time =>
    simp only [streamStep]
    split
    · rename_i stream hopen
      refine hlater.set ?_
      rintro _ auth ⟨rfl⟩ hauth
      obtain ⟨htime, hevent⟩ := checked_openStream hopen hauth
      exact ⟨le_of_eq (by rw [htime]; rfl), hevent⟩
    · exact hlater.set (by simp)
  | drop id time =>
    simp only [streamStep, Streams.dropStream]
    split
    · split
      · exact hlater.set (by simp)
      · exact hlater.set (by simp)
    · exact hlater
  | resume id moment =>
    simp only [streamStep]
    cases hactive : st.active id with
    | none => exact hlater
    | some stream =>
      dsimp only
      split
      · rename_i stream' shared hadvance
        obtain ⟨hrequest, hsame, htime⟩ := advance_next hadvance
        refine hlater.set ?_
        rintro _ auth ⟨rfl⟩ hauth
        rw [Stream.WasFresh, hrequest, htime]
        exact hlater id stream auth hactive (hsame ▸ hauth)
      · exact hlater.set (by simp)

end Step

/-! ### Runs -/

/-- A run of stream events. -/
def runStreams (ext : Externals) (receiver : String) (st : Streams β δ ν κ)
    (events : List StreamEvent) : Streams β δ ν κ :=
  Runs.run (streamStep ext receiver) st events

/-- An event of the run uses up the given authorization event. -/
def UsesUp (ext : Externals) (st : Streams β δ ν κ) (event : StreamEvent) (e : NostrEvent) : Prop :=
  ∃ stream auth, committing st event = some (stream, auth)
    ∧ decodeAuth ext stream.request.auth = .ok e
    ∧ (st.shared.seen.call (attemptAt event.now auth)).1 = true

/-- An event of the run makes the cache forget an id that has not expired. -/
def EvictsForLimit (ext : Externals) (receiver : String) (st : Streams β δ ν κ)
    (event : StreamEvent) (id : String) : Prop :=
  id ∈ (st.shared.seen.pruneExpired event.now.secs).entries
    ∧ id ∉ (streamStep ext receiver st event).shared.seen.entries

section Runs

variable {ext : Externals} {receiver : String} {st : Streams β δ ν κ} {events : List StreamEvent}

theorem runStreams_append_cons (pre : List StreamEvent) (event : StreamEvent)
    (post : List StreamEvent) :
    runStreams ext receiver st (pre ++ event :: post)
      = runStreams ext receiver (streamStep ext receiver (runStreams ext receiver st pre) event)
        post :=
  Runs.run_append pre (event :: post)

theorem checked_runStreams {now later : Nat} (h : Checked ext now st)
    (hfirst : ∀ event ∈ events, now ≤ event.now.secs)
    (hclock : events.Pairwise (·.now.secs ≤ ·.now.secs))
    (hlater : now ≤ later) (hlast : ∀ event ∈ events, event.now.secs ≤ later) :
    Checked ext later (runStreams ext receiver st events) := by
  induction events generalizing st now with
  | nil => exact h.mono hlater
  | cons event events ih =>
    obtain ⟨hhead, htail⟩ := List.pairwise_cons.mp hclock
    exact ih (checked_streamStep h (hfirst event List.mem_cons_self)) hhead htail
      (hlast event List.mem_cons_self) fun e he => hlast e (List.mem_cons_of_mem _ he)

/-- An id is remembered through a run that ends before it expires and does not push it out. -/
theorem remembers_runStreams {id : String} {expiresAt : Nat}
    (h : st.shared.seen.Remembers id expiresAt)
    (hlive : ∀ event ∈ events, event.now.secs < expiresAt)
    (hkept : ∀ pre event post, events = pre ++ event :: post →
      ¬ EvictsForLimit ext receiver (runStreams ext receiver st pre) event id) :
    (runStreams ext receiver st events).shared.seen.Remembers id expiresAt := by
  induction events generalizing st with
  | nil => exact h
  | cons event events ih =>
    obtain ⟨hfirst, hrest⟩ := Runs.forall_split_cons.mp hkept
    have hstep : (streamStep ext receiver st event).shared.seen.Remembers id expiresAt := by
      have hfirst : ¬ EvictsForLimit ext receiver st event id := hfirst
      rw [EvictsForLimit, seen_streamStep] at hfirst
      rw [seen_streamStep]
      cases hcommitting : committing st event with
      | none => exact h
      | some next =>
        rw [hcommitting] at hfirst
        exact ReplayCache.memoryLaws.kept _ (attemptAt event.now next.2) id expiresAt h
          (hlive event List.mem_cons_self) hfirst
    exact ih hstep (fun e he => hlive e (List.mem_cons_of_mem _ he)) hrest

/-- **One event is used up at most once**, whatever the streams that carry it do, when every stream
uses its event up within thirty seconds of checking it. -/
theorem event_committed_once (ext : Externals) (receiver : String) (st : Streams β δ ν κ)
    (events : List StreamEvent) (hidle : ∀ id, st.active id = none)
    (hclock : events.Pairwise (·.now.secs ≤ ·.now.secs))
    (hkept : ∀ pre event post, events = pre ++ event :: post → ∀ id,
      ¬ EvictsForLimit ext receiver (runStreams ext receiver st pre) event id)
    (hprompt : ∀ pre event post, events = pre ++ event :: post → ∀ stream auth,
      committing (runStreams ext receiver st pre) event = some (stream, auth) →
      event.now.secs < stream.verifiedAt.secs + 30) :
    ∀ pre first mid again post e, events = pre ++ first :: mid ++ again :: post →
      UsesUp ext (runStreams ext receiver st pre) first e →
      ¬ UsesUp ext (runStreams ext receiver st (pre ++ first :: mid)) again e := by
  rintro pre first mid again post e hsplit ⟨stream, auth, hcommits, hdecode, hused⟩
    ⟨stream', auth', hcommits', hdecode', hused'⟩
  have hnew : Checked ext 0 st := by
    intro id stream auth hactive
    rw [hidle id] at hactive
    cases hactive
  -- the order of the clock readings along the run
  have horder := hclock
  rw [hsplit, List.pairwise_append, List.pairwise_append, List.pairwise_cons,
    List.pairwise_cons] at horder
  obtain ⟨⟨hpre, ⟨hmid, hmidOrder⟩, hpreMid⟩, -, hagain⟩ := horder
  have hmidAgain : ∀ event ∈ mid, event.now.secs ≤ again.now.secs := fun event hevent =>
    hagain event (List.mem_append_right _ (List.mem_cons_of_mem _ hevent)) again List.mem_cons_self
  -- the event was fresh when it was first checked, and again when it was last checked
  obtain ⟨id, hactive, hauth⟩ := active_of_committing hcommits
  obtain ⟨hverified, e₁, he₁, rfl, hfresh⟩ :=
    checked_runStreams hnew (fun _ _ => Nat.zero_le _) hpre (Nat.zero_le first.now.secs)
      (fun event hevent => hpreMid event hevent first List.mem_cons_self) id stream auth hactive hauth
  obtain ⟨id', hactive', hauth'⟩ := active_of_committing hcommits'
  obtain ⟨-, e₂, he₂, rfl, hfresh'⟩ :=
    checked_runStreams hnew (fun _ _ => Nat.zero_le _)
      (List.pairwise_append.mpr ⟨hpre, List.pairwise_cons.mpr ⟨hmid, hmidOrder⟩, hpreMid⟩)
      (Nat.zero_le again.now.secs)
      (fun event hevent => hagain event hevent again List.mem_cons_self) id' stream' auth' hactive'
      hauth'
  obtain rfl : e₁ = e := Except.ok.inj (he₁.symm.trans hdecode)
  obtain rfl : e₂ = e₁ := Except.ok.inj (he₂.symm.trans hdecode')
  have hsoon := hprompt (pre ++ first :: mid) again post hsplit stream' _ hcommits'
  have hlive : again.now.secs < saturatingAdd first.now.secs 120 := by
    obtain ⟨hfuture, -⟩ := checkFreshness_eq_ok_iff.mp hfresh
    obtain ⟨-, hage⟩ := checkFreshness_eq_ok_iff.mp hfresh'
    have hrange := again.now.secs_lt
    unfold saturatingAdd at *
    omega
  -- so the cache still remembers the first use
  have hremembers : (runStreams ext receiver st (pre ++ first :: mid)).shared.seen.Remembers e₂.id
      (saturatingAdd first.now.secs 120) := by
    have hfirst : (streamStep ext receiver (runStreams ext receiver st pre) first).shared.seen.Remembers
        e₂.id (saturatingAdd first.now.secs 120) := by
      rw [seen_streamStep, hcommits]
      exact ReplayCache.memoryLaws.accepted _ _ hused
    rw [runStreams_append_cons]
    refine remembers_runStreams hfirst
      (fun event hevent => lt_of_le_of_lt (hmidAgain event hevent) hlive) ?_
    intro before event behind hmidSplit
    have hplace := hkept (pre ++ first :: before) event (behind ++ again :: post)
      (by rw [hsplit, hmidSplit]; simp) e₂.id
    rwa [runStreams_append_cons] at hplace
  have hrefused := ReplayCache.memoryLaws.refused _ (attemptAt again.now ⟨e₂.pubkey, e₂.id⟩) _
    hremembers hlive
  exact absurd hused' (ne_true_of_eq_false hrefused)

end Runs

end Step

/-! ### A late commit -/

/-- An empty cache of the size the endpoint has takes any event. -/
theorem call_new (a : Attempt String String) : ((ReplayCache.new 10000 256).call a).1 = true := by
  simp [ReplayCache.call, ReplayCache.commit, ReplayCache.pruneExpired, ReplayCache.pruneLoop,
    ReplayCache.new]

/-- Streams of servers in memory. -/
abbrev MemoryStreams : Type :=
  Streams MemoryBackend MemoryDatabase MemoryLfsVersionDatabase MemoryLockDatabase

/-- An open server without locks, with a given cache. -/
def openShared (seen : ReplayCache) :
    Shared MemoryBackend MemoryDatabase MemoryLfsVersionDatabase MemoryLockDatabase :=
  ⟨.new .new "http://h", seen, maxInFlightBodyBytes⟩

/-- Two streams on that server. -/
def twoStreams (seen : ReplayCache) (first second : Option Stream) : MemoryStreams where
  shared := openShared seen
  active id := if id = 1 then first else if id = 2 then second else none

/-- A stretch at a given time. -/
def stretch (stream : Nat) (now : SystemTime) : StreamEvent :=
  .resume stream ⟨now, 0, "", none⟩

/-- Two streams with one request.  The first is done at once, thirty seconds before the event was
created; the second is checked in the last second of the event's life, and uses it up at a time of
its own. -/
def lateRun (request : Request) (last : SystemTime) : List StreamEvent :=
  [.arrive 1 request ⟨1699999970, by decide⟩, stretch 1 ⟨1699999970, by decide⟩,
    stretch 1 ⟨1699999970, by decide⟩, .arrive 2 request ⟨1700000060, by decide⟩,
    stretch 2 ⟨1700000060, by decide⟩, stretch 2 last]

/-- A request whose event is used up twice. -/
def lateRequest : Request :=
  { unlockRequest "" with auth := authHeaderValue unlockEvent }

/-- What its check leaves of the event. -/
def lateAuth : VerifiedAuth :=
  ⟨"f9308a019258c31049344f85f89d5229b531c845836f99b08601f113bce036f9",
    "48db403715a5f66ed9138231131762c0ba5a5aacf9b296af88ee18ffc1b09198"⟩

theorem openStream_lateRequest (now : SystemTime) (hearly : 1699999970 ≤ now.secs)
    (hlate : now.secs ≤ 1700000060) :
    openStream (.knowing [unlockEvent]) "iroh://peer" lateRequest now
      = .ok ⟨lateRequest, some lateAuth, now, .verified⟩ := by
  have hverified : verifyAuth (.knowing [unlockEvent]) now.secs lateRequest.auth lateRequest
      "iroh://peer" = .ok ⟨unlockEvent.pubkey, unlockEvent.id⟩ :=
    verifyAuth_peerEvent (List.mem_singleton_self _) rfl rfl ⟨rfl, rfl, rfl, rfl⟩ now.secs
      (by omega) hlate
  have hauth : lateRequest.auth ≠ "" := authHeaderValue_ne_empty unlockEvent
  have hop : lateRequest.op = .lockDelete := rfl
  have hread : (⟨unlockEvent.pubkey, unlockEvent.id⟩ : VerifiedAuth) = lateAuth := by decide +kernel
  simp [openStream, hop, hauth, hverified, hread]

theorem decodeAuth_lateRequest :
    decodeAuth (.knowing [unlockEvent]) lateRequest.auth = .ok unlockEvent :=
  decodeAuth_authHeaderValue (List.mem_singleton_self _)

/-- A step of that run, with the answer of the check put in. -/
def passedStep (st : MemoryStreams) : StreamEvent → MemoryStreams
  | .arrive id request now =>
    st.set id (some ⟨request, some lateAuth, now, .verified⟩)
  | event => streamStep (.knowing [unlockEvent]) "iroh://peer" st event

section Late

variable {last : SystemTime} {pre post : List StreamEvent} {st : MemoryStreams}

/-- The check passes at both arrivals, so the states of the run can be computed without it. -/
theorem runStreams_lateRun (hsplit : lateRun lateRequest last = pre ++ post) :
    runStreams (.knowing [unlockEvent]) "iroh://peer" st pre = Runs.run passedStep st pre := by
  refine List.foldl_ext _ _ _ fun st event hevent => ?_
  have hmem : event ∈ lateRun lateRequest last := hsplit ▸ List.mem_append_left post hevent
  simp only [lateRun, List.mem_cons, List.not_mem_nil, or_false] at hmem
  have harrive : ∀ (id : Nat) (now : SystemTime), 1699999970 ≤ now.secs → now.secs ≤ 1700000060 →
      streamStep (.knowing [unlockEvent]) "iroh://peer" st (.arrive id lateRequest now)
        = passedStep st (.arrive id lateRequest now) := by
    intro id now hearly hlate
    rw [streamStep, openStream_lateRequest now hearly hlate, passedStep]
  rcases hmem with rfl | rfl | rfl | rfl | rfl | rfl
  · exact harrive 1 _ (by decide) (by decide)
  · rfl
  · rfl
  · exact harrive 2 _ (by decide) (by decide)
  · rfl
  · rfl

/-- An event evicts nothing if what it leaves of the cache has all that has not expired. -/
theorem not_evictsForLimit {ext : Externals} {receiver : String} {event : StreamEvent}
    (h : ∀ id ∈ (st.shared.seen.pruneExpired event.now.secs).entries.keys,
      id ∈ ((committing st event).elim st.shared.seen fun next =>
        (st.shared.seen.call (attemptAt event.now next.2)).2).entries) (id : String) :
    ¬ EvictsForLimit ext receiver st event id := by
  rintro ⟨hthere, hgone⟩
  rw [seen_streamStep] at hgone
  exact hgone (h id hthere)

/-- No limit of the cache is reached in that run, whether the last stream is late or not. -/
theorem lateRun_not_evicts
    (hlast : last = ⟨1700000089, by decide⟩ ∨ last = ⟨1700000090, by decide⟩) :
    ∀ pre event post, lateRun lateRequest last = pre ++ event :: post → ∀ id,
      ¬ EvictsForLimit (.knowing [unlockEvent]) "iroh://peer" (runStreams (.knowing [unlockEvent])
        "iroh://peer" (twoStreams (.new 10000 256) none none) pre) event id := by
  intro pre event post hsplit
  rw [runStreams_lateRun hsplit]
  refine not_evictsForLimit ?_
  revert pre event post
  rcases hlast with rfl | rfl <;>
  · simp only [lateRun, Runs.forall_split_cons, Runs.forall_split_nil]
    decide +kernel

/-- The first stream uses its event up, whatever the second one does. -/
theorem first_commit (last : SystemTime) :
    UsesUp (.knowing [unlockEvent])
      (runStreams (.knowing [unlockEvent]) "iroh://peer" (twoStreams (.new 10000 256) none none)
        ((lateRun lateRequest last).take 2))
      (stretch 1 ⟨1699999970, by decide⟩) unlockEvent := by
  rw [runStreams_lateRun (List.take_append_drop 2 _).symm]
  exact ⟨_, _, rfl, decodeAuth_lateRequest, call_new _⟩

/-- A second before the wait is too long, the second use is refused. -/
theorem prompt_commit_refused :
    let run events := runStreams (.knowing [unlockEvent]) "iroh://peer"
      (twoStreams (.new 10000 256) none none) events
    UsesUp (.knowing [unlockEvent]) (run ((lateRun lateRequest ⟨1700000089, by decide⟩).take 2))
        (stretch 1 ⟨1699999970, by decide⟩) unlockEvent
      ∧ ¬ UsesUp (.knowing [unlockEvent])
        (run ((lateRun lateRequest ⟨1700000089, by decide⟩).take 5))
        (stretch 2 ⟨1700000089, by decide⟩) unlockEvent := by
  intro run
  refine ⟨first_commit _, ?_⟩
  refine event_committed_once (.knowing [unlockEvent]) "iroh://peer"
    (twoStreams (.new 10000 256) none none) (lateRun lateRequest ⟨1700000089, by decide⟩) ?_ ?_ ?_ ?_
    ((lateRun lateRequest ⟨1700000089, by decide⟩).take 2) (stretch 1 ⟨1699999970, by decide⟩)
    [.arrive 2 lateRequest ⟨1700000060, by decide⟩, stretch 2 ⟨1700000060, by decide⟩] _ []
    unlockEvent rfl (first_commit _)
  · intro id
    simp [twoStreams]
  · simp [lateRun, stretch, StreamEvent.now]
  · exact lateRun_not_evicts (Or.inl rfl)
  · intro pre event post hsplit stream auth hcommits
    rw [runStreams_lateRun hsplit] at hcommits
    have hprompt : ∀ pre event post, lateRun lateRequest ⟨1700000089, by decide⟩
        = pre ++ event :: post → ∀ next ∈ committing (Runs.run passedStep
          (twoStreams (.new 10000 256) none none) pre) event,
        event.now.secs < next.1.verifiedAt.secs + 30 := by
      simp only [lateRun, Runs.forall_split_cons, Runs.forall_split_nil]
      decide +kernel
    exact hprompt pre event post hsplit _ hcommits

/-- **A late commit.**  The clock does not run backwards and no limit of the cache is reached, and one
event is used up by two streams. -/
theorem late_commit :
    let run events := runStreams (.knowing [unlockEvent]) "iroh://peer"
      (twoStreams (.new 10000 256) none none) events
    (lateRun lateRequest ⟨1700000090, by decide⟩).Pairwise (·.now.secs ≤ ·.now.secs)
      ∧ (∀ pre event post, lateRun lateRequest ⟨1700000090, by decide⟩ = pre ++ event :: post → ∀ id,
        ¬ EvictsForLimit (.knowing [unlockEvent]) "iroh://peer" (run pre) event id)
      ∧ UsesUp (.knowing [unlockEvent]) (run ((lateRun lateRequest ⟨1700000090, by decide⟩).take 2))
        (stretch 1 ⟨1699999970, by decide⟩) unlockEvent
      ∧ UsesUp (.knowing [unlockEvent]) (run ((lateRun lateRequest ⟨1700000090, by decide⟩).take 5))
        (stretch 2 ⟨1700000090, by decide⟩) unlockEvent := by
  intro run
  refine ⟨?_, ?_, first_commit _, ?_⟩
  · simp [lateRun, stretch, StreamEvent.now]
  · exact lateRun_not_evicts (Or.inr rfl)
  · dsimp only [run]
    rw [runStreams_lateRun (List.take_append_drop 5 _).symm]
    exact ⟨_, _, rfl, decodeAuth_lateRequest, by decide +kernel⟩

end Late

end BlossomRs.Transport
