/-
  ToolGateway.Gateway.Webhook

  `WebhookNotifier` (`adapters/webhook.py`): one signed message per gated call,
  delivered in the background with bounded retries.  Network errors and 5xx are
  retried, any other status is final, and the outcome goes to the audit log.

  `except httpx.HTTPError` is the only handler of the delivery.  An exception of the
  client that is none (an invalid URL, say) leaves the task without an outcome; so does
  the pause after attempt 1025, whose power of two is too large for a float.
-/

import ToolGateway.Python.Binary64
import ToolGateway.Python.Dumps
import ToolGateway.Gateway.World

namespace ToolGateway

open Py

-- ============================================================================
-- The parts of a delivery
-- ============================================================================

/-- What a `client.post` ends with. -/
inductive PostOutcome where
  | status (code : ℤ)
  /-- an `httpx.HTTPError` -/
  | httpError (typeName text : String)
  /-- any other exception -/
  | raised (typeName text : String)

/-- What the delivery raises. -/
inductive Escaped where
  | client (typeName text : String)
  | python (e : PyError)

/-- One message as it is posted. -/
structure Post where
  url : String
  content : Bytes
  headers : Dict String

/-- What a delivery does, awaits included. -/
inductive DeliveryStep where
  | posted (post : Post) (reply : PostOutcome)
  | slept (seconds : Float64)
  | audited (event : AuditEvent)

/-- A delivery: what it did, and whether it returned. -/
structure Delivery where
  steps : List DeliveryStep
  ending : Except Escaped Unit

/-- The delivery goes on after these. -/
def Delivery.after (first : List DeliveryStep) (d : Delivery) : Delivery :=
  { d with steps := first ++ d.steps }

/-- `hmac.new(secret, body, hashlib.sha256).hexdigest()` -/
class HmacSha256 where
  hexdigest : Bytes → Bytes → String

/-- `x * y` of two finite floats: past the range it is an infinity. -/
def mulFinite (x y : ℚ) : Float64 :=
  match roundBinary64 (x * y) with
  | some r => .fin r
  | none => .inf (decide (x * y < 0))

-- ============================================================================
-- The notifier
-- ============================================================================

/-- `WebhookNotifier`, as it is configured. -/
structure WebhookNotifier where
  url : String
  secret : Bytes := []
  attempts : ℕ := 3
  /-- `backoff_seconds`, a float -/
  backoff : ℚ := 1

namespace WebhookNotifier

/-- The message about a gated call. -/
def body [PrintTables] (ticketId : TicketId) (call : ToolCall) (mode : ApprovalMode) : Bytes :=
  encodeAscii (Json.dumps (.dict
    [("event", .str "approval_requested"), ("ticket_id", .str ticketId),
      ("approval_mode", .str mode.value), ("agent_id", .str call.agentId),
      ("tool", .str call.fullName), ("arguments", call.arguments),
      ("annotations", .dict call.annotations)])).toList

variable (n : WebhookNotifier) (ticketId : TicketId) (call : ToolCall)

/-- The headers of the post, with the signature when there is a secret to sign with. -/
def headers [HmacSha256] (body : Bytes) : Dict String :=
  let headers := [("Content-Type", "application/json")]
  if n.secret ≠ [] then
    Dict.set headers "X-Pico-Signature" ("sha256=" ++ HmacSha256.hexdigest n.secret body)
  else headers

/-- `self._backoff * 2 ** (attempt - 1)`: the power is converted to a float. -/
def pause (attempt : ℕ) : Except PyError Float64 :=
  match floatOfInt (2 ^ (attempt - 1)) with
  | .ok (.fin factor) => .ok (mulFinite n.backoff factor)
  | .ok factor => .ok factor
  | .error e => .error e

/-- The event of a post that was taken. -/
def notified (attempt : ℕ) : AuditEvent where
  event := "notified"
  tool := call.fullName
  agent := call.agentId
  fields := [("ticket_id", .str ticketId), ("attempts", .int attempt)]

/-- The event of a delivery that gave up. -/
def notifyError (error : String) : AuditEvent where
  event := "notify.error"
  tool := call.fullName
  agent := call.agentId
  fields := [("ticket_id", .str ticketId), ("error", .str error)]

/-- After the loop. -/
def giveUp (error : String) : Delivery :=
  { steps := [.audited (notifyError ticketId call error)], ending := .ok () }

/-- The end of a round that is to be retried: pause, unless it was the last one. -/
def thenRetry (attempt : ℕ) (rest : Delivery) : Delivery :=
  if attempt < n.attempts then
    match n.pause attempt with
    | .ok seconds => rest.after [.slept seconds]
    | .error e => { steps := [], ending := .error (.python e) }
  else rest

/-- The rounds that are left, from this attempt on; `error` is the last error so far and
    `replies` what the posts to come end with. -/
def deliverFrom (post : Post) : ℕ → ℕ → String → (ℕ → PostOutcome) → Delivery
  | 0, _, error, _ => giveUp ticketId call error
  | left + 1, attempt, _, replies =>
      Delivery.after [.posted post (replies 0)] <|
      match replies 0 with
      | .status code =>
          if code < 400 then
            { steps := [.audited (notified ticketId call attempt)], ending := .ok () }
          else
            let error := "HTTP " ++ toString code
            if code < 500 then giveUp ticketId call error
            else
              n.thenRetry attempt
                (deliverFrom post left (attempt + 1) error fun k => replies (k + 1))
      | .httpError typeName text =>
          n.thenRetry attempt
            (deliverFrom post left (attempt + 1) (typeName ++ ": " ++ text) fun k => replies (k + 1))
      | .raised typeName text => { steps := [], ending := .error (.client typeName text) }

/-- `_deliver(ticket_id, call, body)` -/
def deliver [HmacSha256] (body : Bytes) (replies : ℕ → PostOutcome) : Delivery :=
  n.deliverFrom ticketId call { url := n.url, content := body, headers := n.headers body }
    n.attempts 1 "" replies

/-- `notify_approvers(ticket_id, call, mode)`: the delivery it starts, if there is a
    channel. -/
def notifyApprovers [PrintTables] [HmacSha256] (mode : ApprovalMode) (replies : ℕ → PostOutcome) :
    Option Delivery :=
  if n.url = "" then none else some (n.deliver ticketId call (body ticketId call mode) replies)

end WebhookNotifier

-- ============================================================================
-- One audited outcome
-- ============================================================================

/-- A server error or a network error: the round is retried. -/
def PostOutcome.retried : PostOutcome → Bool
  | .status code => 500 ≤ code
  | .httpError _ _ => true
  | .raised _ _ => false

/-- An exception that is no `httpx.HTTPError`. -/
def PostOutcome.foreign : PostOutcome → Bool
  | .raised _ _ => true
  | _ => false

/-- What came back to a post. -/
def DeliveryStep.reply? : DeliveryStep → Option PostOutcome
  | .posted _ reply => some reply
  | _ => none

/-- What was audited. -/
def DeliveryStep.event? : DeliveryStep → Option AuditEvent
  | .audited event => some event
  | _ => none

/-- The post that was sent. -/
def DeliveryStep.post? : DeliveryStep → Option Post
  | .posted post _ => some post
  | _ => none

namespace Delivery

variable (d : Delivery)

/-- What the posts ended with, in order. -/
def replies : List PostOutcome := d.steps.filterMap DeliveryStep.reply?

/-- What the delivery recorded. -/
def events : List AuditEvent := d.steps.filterMap DeliveryStep.event?

/-- What it posted, in order. -/
def posts : List Post := d.steps.filterMap DeliveryStep.post?

/-- The last post ended with a status below 400. -/
def Accepted : Prop := ∃ code < 400, d.replies.getLast? = some (.status code)

/-- The delivery keeps to its attempts and ends in exactly one audited outcome. -/
structure Accounted (attempts : ℕ) (ticketId : TicketId) (call : ToolCall) : Prop where
  posts_le : d.replies.length ≤ attempts
  /-- a status below 500 is the last -/
  final : ∀ code, .status code ∈ d.replies.dropLast → 500 ≤ code
  /-- one event: notified, with the number of posts, or an error -/
  outcome : (d.Accepted ∧ d.events = [WebhookNotifier.notified ticketId call d.replies.length]) ∨
    (¬ d.Accepted ∧ ∃ error, d.events = [WebhookNotifier.notifyError ticketId call error])

end Delivery

/-- The first post that is not retried ends with a status, and the loop does not go on
    past attempt 1025. -/
structure Handled (attempts : ℕ) (replies : ℕ → PostOutcome) : Prop where
  caught : ∀ k < attempts, (∀ j < k, (replies j).retried = true) → (replies k).foreign = false
  pauses : 1025 < attempts → ∃ k < 1025, (replies k).retried = false

-- ============================================================================
-- The loop, round by round
-- ============================================================================

namespace Delivery

@[simp] theorem replies_after (first : List DeliveryStep) (d : Delivery) :
    (d.after first).replies = first.filterMap DeliveryStep.reply? ++ d.replies :=
  List.filterMap_append ..

@[simp] theorem events_after (first : List DeliveryStep) (d : Delivery) :
    (d.after first).events = first.filterMap DeliveryStep.event? ++ d.events :=
  List.filterMap_append ..

@[simp] theorem posts_after (first : List DeliveryStep) (d : Delivery) :
    (d.after first).posts = first.filterMap DeliveryStep.post? ++ d.posts :=
  List.filterMap_append ..

@[simp] theorem ending_after (first : List DeliveryStep) (d : Delivery) :
    (d.after first).ending = d.ending :=
  rfl

/-- The posts and records of the rounds that are left, when `posted` are over. -/
structure Sound (d : Delivery) (left posted : ℕ) (ticketId : TicketId) (call : ToolCall) : Prop where
  posts_le : d.replies.length ≤ left
  retried : ∀ r ∈ d.replies.dropLast, r.retried = true
  recorded : d.ending = .ok () →
    (d.Accepted ∧ d.events = [WebhookNotifier.notified ticketId call (posted + d.replies.length)]) ∨
      (¬ d.Accepted ∧ ∃ error, d.events = [WebhookNotifier.notifyError ticketId call error])
  silent : ∀ e, d.ending = .error e → d.events = []

variable {d : Delivery} {left posted : ℕ} {ticketId : TicketId} {call : ToolCall}

/-- A post that is retried does not decide whether the delivery is accepted. -/
theorem accepted_after_retried {post : Post} {r : PostOutcome} (hr : r.retried = true) :
    (d.after [.posted post r]).Accepted ↔ d.Accepted := by
  have hcons : (d.after [.posted post r]).replies = r :: d.replies := by simp [DeliveryStep.reply?]
  unfold Accepted
  rw [hcons, List.getLast?_cons]
  cases hlast : d.replies.getLast? with
  | none =>
      refine iff_of_false ?_ ?_
      · rintro ⟨code, hcode, h⟩
        obtain rfl : r = .status code := Option.some.inj h
        have hserver : 500 ≤ code := by simpa [PostOutcome.retried] using hr
        omega
      · rintro ⟨code, -, h⟩
        cases h
  | some last => exact Iff.rfl

/-- A round that is retried, before rounds that are sound. -/
theorem Sound.after_retried (hd : d.Sound left (posted + 1) ticketId call) {post : Post}
    {r : PostOutcome} (hr : r.retried = true) :
    (d.after [.posted post r]).Sound (left + 1) posted ticketId call := by
  have hcons : (d.after [.posted post r]).replies = r :: d.replies := by simp [DeliveryStep.reply?]
  have hevents : (d.after [.posted post r]).events = d.events := by simp [DeliveryStep.event?]
  refine ⟨?_, ?_, ?_, ?_⟩
  · rw [hcons, List.length_cons]
    have hle := hd.posts_le
    omega
  · rw [hcons]
    intro r' hr'
    cases hlist : d.replies with
    | nil =>
        rw [hlist] at hr'
        cases hr'
    | cons first rest =>
        rw [hlist, List.dropLast_cons_cons, List.mem_cons] at hr'
        obtain rfl | hlater := hr'
        · exact hr
        · exact hd.retried r' (hlist ▸ hlater)
  · intro hok
    have hattempts : posted + (r :: d.replies).length = posted + 1 + d.replies.length := by
      rw [List.length_cons]
      omega
    rw [accepted_after_retried hr, hevents, hcons, hattempts]
    exact hd.recorded hok
  · intro e he
    rw [hevents]
    exact hd.silent e he

/-- The last round, when it records the outcome. -/
theorem sound_recorded {post : Post} {r : PostOutcome} {event : AuditEvent}
    (hevent : ((∃ code < 400, r = .status code) ∧
        event = WebhookNotifier.notified ticketId call (posted + 1)) ∨
      ((∀ code, r = .status code → 400 ≤ code) ∧
        ∃ error, event = WebhookNotifier.notifyError ticketId call error)) :
    (Delivery.after [.posted post r] { steps := [.audited event], ending := .ok () }).Sound
      (left + 1) posted ticketId call := by
  refine ⟨?_, ?_, ?_, ?_⟩
  · show 1 ≤ left + 1
    omega
  · intro r' hr'
    cases hr'
  · intro _
    obtain ⟨⟨code, hcode, rfl⟩, rfl⟩ | ⟨hrejected, error, rfl⟩ := hevent
    · exact .inl ⟨⟨code, hcode, rfl⟩, rfl⟩
    · refine .inr ⟨?_, error, rfl⟩
      rintro ⟨code, hcode, h⟩
      have hge := hrejected code (Option.some.inj h)
      omega
  · intro e he
    cases he

/-- A round that raises. -/
theorem sound_raised {post : Post} {r : PostOutcome} {e : Escaped} :
    (Delivery.after [.posted post r] { steps := [], ending := .error e }).Sound
      (left + 1) posted ticketId call := by
  refine ⟨?_, ?_, ?_, ?_⟩
  · show 1 ≤ left + 1
    omega
  · intro r' hr'
    cases hr'
  · intro h
    cases h
  · intro _ _
    rfl

end Delivery

namespace WebhookNotifier

variable {n : WebhookNotifier} {ticketId : TicketId} {call : ToolCall} {post : Post}
variable {left posted attempt : ℕ} {rest : Delivery}

/-- A round that is retried: the pause ends it, or leads on to the rest. -/
theorem sound_thenRetry (hrest : rest.Sound left (posted + 1) ticketId call) {r : PostOutcome}
    (hr : r.retried = true) :
    (Delivery.after [.posted post r] (n.thenRetry attempt rest)).Sound (left + 1) posted
      ticketId call := by
  unfold thenRetry
  split
  · split
    · rename_i seconds _
      have hslept : (rest.after [.slept seconds]).Sound left (posted + 1) ticketId call :=
        ⟨hrest.posts_le, hrest.retried, hrest.recorded, hrest.silent⟩
      exact hslept.after_retried hr
    · exact Delivery.sound_raised
  · exact hrest.after_retried hr

theorem deliverFrom_sound (error : String) (replies : ℕ → PostOutcome) :
    (n.deliverFrom ticketId call post left (posted + 1) error replies).Sound left posted
      ticketId call := by
  induction left generalizing posted error replies with
  | zero =>
      refine ⟨Nat.le_refl _, fun r hr => (by cases hr), fun _ => .inr ⟨?_, error, rfl⟩, ?_⟩
      · rintro ⟨code, -, h⟩
        cases h
      · intro e he
        cases he
  | succ left ih =>
      rw [deliverFrom]
      cases hreply : replies 0 with
      | status code =>
          show Delivery.Sound (Delivery.after _
            (if code < 400 then _ else if code < 500 then _ else _)) _ _ _ _
          split
          · exact Delivery.sound_recorded (.inl ⟨⟨code, ‹_›, rfl⟩, rfl⟩)
          · split
            · refine Delivery.sound_recorded (.inr ⟨?_, _, rfl⟩)
              intro code' h
              obtain rfl := PostOutcome.status.inj h
              omega
            · exact sound_thenRetry (ih _ _) (by simp [PostOutcome.retried]; omega)
      | httpError typeName text => exact sound_thenRetry (ih _ _) rfl
      | raised typeName text => exact Delivery.sound_raised

/-- A pause posts nothing. -/
theorem mem_posts_thenRetry {other : Post} (h : other ∈ (n.thenRetry attempt rest).posts) :
    other ∈ rest.posts := by
  unfold thenRetry at h
  split at h
  · split at h
    · exact h
    · cases h
  · exact h

/-- Every round posts the same message. -/
theorem eq_of_mem_posts {other : Post} {error : String} {replies : ℕ → PostOutcome}
    (h : other ∈ (n.deliverFrom ticketId call post left attempt error replies).posts) :
    other = post := by
  induction left generalizing attempt error replies with
  | zero => cases h
  | succ left ih =>
      rw [deliverFrom, Delivery.posts_after] at h
      rcases List.mem_cons.mp h with hfirst | h
      · exact hfirst
      cases hreply : replies 0 with
      | status code =>
          simp only [hreply] at h
          split at h
          · cases h
          · split at h
            · cases h
            · exact ih (mem_posts_thenRetry h)
      | httpError typeName text =>
          simp only [hreply] at h
          exact ih (mem_posts_thenRetry h)
      | raised typeName text =>
          simp only [hreply] at h
          cases h

-- ============================================================================
-- How the loop ends
-- ============================================================================

/-- A power of two is past the range of a float from `2 ** 1024` on. -/
theorem pastBinary64_two_pow (k : ℕ) : PastBinary64 (2 ^ k) ↔ 1024 ≤ k := by
  have habs : |(2 : ℤ) ^ k| = 2 ^ k := abs_of_nonneg (by positivity)
  unfold PastBinary64
  rw [habs]
  constructor
  · intro h
    by_contra hk
    have hle : (2 : ℤ) ^ k ≤ 2 ^ 1023 := pow_le_pow_right₀ (by norm_num) (by omega)
    have hdouble : (2 : ℤ) ^ 1024 = 2 ^ 1023 * 2 := pow_succ 2 1023
    have hsmall : (2 : ℤ) ^ 970 < 2 ^ 1023 := pow_lt_pow_right₀ (by norm_num) (by norm_num)
    omega
  · intro hk
    have hle : (2 : ℤ) ^ 1024 ≤ 2 ^ k := pow_le_pow_right₀ (by norm_num) hk
    have hpos : (0 : ℤ) < 2 ^ 970 := by positivity
    omega

theorem pause_early {attempt : ℕ} (h : attempt ≤ 1024) :
    ∃ seconds, n.pause attempt = .ok seconds := by
  have hrange : ¬ PastBinary64 (2 ^ (attempt - 1)) := by
    rw [pastBinary64_two_pow]
    omega
  unfold pause
  rw [floatOfInt_of_not_past hrange]
  exact ⟨_, rfl⟩

theorem pause_late {attempt : ℕ} (h : 1025 ≤ attempt) : n.pause attempt = .error .overflowError := by
  have hpast : PastBinary64 (2 ^ (attempt - 1)) := (pastBinary64_two_pow _).mpr (by omega)
  unfold pause
  rw [(floatOfInt_eq_error_iff _).mpr ⟨hpast, rfl⟩]

/-- `Handled` for the rounds that are left, when `posted` are over. -/
def HandledFrom (posted left : ℕ) (replies : ℕ → PostOutcome) : Prop :=
  (∀ k < left, (∀ j < k, (replies j).retried = true) → (replies k).foreign = false) ∧
    (1025 < posted + left → ∃ k, posted + k < 1025 ∧ (replies k).retried = false)

theorem handledFrom_final {replies : ℕ → PostOutcome} (hposted : posted ≤ 1024)
    (hfinal : (replies 0).retried = false) :
    HandledFrom posted (left + 1) replies ↔ (replies 0).foreign = false := by
  constructor
  · intro h
    exact h.1 0 (Nat.zero_lt_succ _) fun j hj => absurd hj (Nat.not_lt_zero j)
  · intro h
    refine ⟨fun k _ hbefore => ?_, fun _ => ⟨0, by omega, hfinal⟩⟩
    cases k with
    | zero => exact h
    | succ k =>
        have hretried := hbefore 0 (Nat.zero_lt_succ _)
        rw [hfinal] at hretried
        cases hretried

theorem handledFrom_retried {replies : ℕ → PostOutcome} (hretried : (replies 0).retried = true)
    (hlocal : (replies 0).foreign = false) :
    HandledFrom posted (left + 1) replies ↔
      HandledFrom (posted + 1) left fun k => replies (k + 1) := by
  constructor
  · rintro ⟨hcaught, hpauses⟩
    refine ⟨fun k hk hbefore => hcaught (k + 1) (by omega) fun j hj => ?_, fun hlong => ?_⟩
    · cases j with
      | zero => exact hretried
      | succ j => exact hbefore j (by omega)
    · obtain ⟨k, hk, hfinal⟩ := hpauses (by omega)
      cases k with
      | zero =>
          rw [hretried] at hfinal
          cases hfinal
      | succ k => exact ⟨k, by omega, hfinal⟩
  · rintro ⟨hcaught, hpauses⟩
    refine ⟨fun k hk hbefore => ?_, fun hlong => ?_⟩
    · cases k with
      | zero => exact hlocal
      | succ k => exact hcaught k (by omega) fun j hj => hbefore (j + 1) (by omega)
    · obtain ⟨k, hk, hfinal⟩ := hpauses (by omega)
      exact ⟨k + 1, by omega, hfinal⟩

/-- A round that is retried ends well exactly if it can pause and the rest ends well. -/
theorem ending_thenRetry (hcount : posted + (left + 1) = n.attempts) (hposted : posted ≤ 1024)
    {replies : ℕ → PostOutcome}
    (hrest : posted + 1 ≤ 1024 → (rest.ending = .ok () ↔ HandledFrom (posted + 1) left replies))
    (hover : left = 0 → rest.ending = .ok ()) :
    (n.thenRetry (posted + 1) rest).ending = .ok () ↔ HandledFrom (posted + 1) left replies := by
  unfold thenRetry
  by_cases hmore : posted + 1 < n.attempts
  · rw [if_pos hmore]
    by_cases hearly : posted + 1 ≤ 1024
    · obtain ⟨seconds, hpause⟩ := n.pause_early hearly
      rw [hpause]
      exact hrest hearly
    · rw [n.pause_late (by omega)]
      refine iff_of_false (fun h => (by cases h)) fun h => ?_
      obtain ⟨k, hk, -⟩ := h.2 (by omega)
      omega
  · rw [if_neg hmore]
    have hlast : left = 0 := by omega
    refine iff_of_true (hover hlast) ⟨fun k hk => ?_, fun hlong => ?_⟩
    · omega
    · omega

/-- The loop ends without an exception exactly on replies that are handled. -/
theorem ending_deliverFrom (hcount : posted + left = n.attempts) (hposted : posted ≤ 1024)
    (error : String) (replies : ℕ → PostOutcome) :
    (n.deliverFrom ticketId call post left (posted + 1) error replies).ending = .ok () ↔
      HandledFrom posted left replies := by
  induction left generalizing posted error replies with
  | zero =>
      refine iff_of_true rfl ⟨fun k hk => ?_, fun hlong => ?_⟩
      · omega
      · omega
  | succ left ih =>
      have hover : ∀ error, left = 0 → (n.deliverFrom ticketId call post left (posted + 1 + 1) error
          fun k => replies (k + 1)).ending = .ok () := by
        rintro error rfl
        rfl
      have hretry : (replies 0).retried = true → (replies 0).foreign = false → ∀ error,
          ((n.thenRetry (posted + 1) (n.deliverFrom ticketId call post left (posted + 1 + 1) error
            fun k => replies (k + 1))).ending = .ok () ↔ HandledFrom posted (left + 1) replies) := by
        intro hretried hlocal error
        rw [handledFrom_retried hretried hlocal]
        exact ending_thenRetry hcount hposted (fun hearly => ih (by omega) hearly error _)
          (hover error)
      rw [deliverFrom]
      cases hreply : replies 0 with
      | status code =>
          rw [hreply] at hretry
          have hlocal : (PostOutcome.status code).foreign = false := rfl
          show (Delivery.after _
            (if code < 400 then _ else if code < 500 then _ else _)).ending = _ ↔ _
          by_cases hserver : 500 ≤ code
          · rw [if_neg (by omega), if_neg (by omega)]
            exact hretry (by simpa [PostOutcome.retried] using hserver) hlocal _
          · have hfinal : (replies 0).retried = false := by
              simp only [hreply, PostOutcome.retried, decide_eq_false_iff_not]
              exact hserver
            rw [handledFrom_final hposted hfinal, hreply]
            split
            · exact iff_of_true rfl hlocal
            · rw [if_pos (by omega)]
              exact iff_of_true rfl hlocal
      | httpError typeName text =>
          rw [hreply] at hretry
          exact hretry rfl rfl _
      | raised typeName text =>
          have hfinal : (replies 0).retried = false := by simp [hreply, PostOutcome.retried]
          rw [handledFrom_final hposted hfinal, hreply]
          exact iff_of_false (fun h => (by cases h)) (fun h => (by cases h))

theorem handledFrom_zero {attempts : ℕ} {replies : ℕ → PostOutcome} :
    HandledFrom 0 attempts replies ↔ Handled attempts replies := by
  constructor
  · rintro ⟨hcaught, hpauses⟩
    refine ⟨hcaught, fun hlong => ?_⟩
    obtain ⟨k, hk, hfinal⟩ := hpauses (by omega)
    exact ⟨k, by omega, hfinal⟩
  · rintro ⟨hcaught, hpauses⟩
    refine ⟨hcaught, fun hlong => ?_⟩
    obtain ⟨k, hk, hfinal⟩ := hpauses (by omega)
    exact ⟨k, by omega, hfinal⟩

variable [HmacSha256]

/-- The messages that `notify_approvers` has the client post. -/
def sent [PrintTables] (n : WebhookNotifier) (ticketId : TicketId) (call : ToolCall)
    (mode : ApprovalMode) (replies : ℕ → PostOutcome) : List Post :=
  ((n.notifyApprovers ticketId call mode replies).map Delivery.posts).getD []

/-- Each of them is the body that was made at the notification. -/
theorem content_of_mem_sent [PrintTables] {n : WebhookNotifier} {ticketId : TicketId}
    {call : ToolCall} {mode : ApprovalMode} {replies : ℕ → PostOutcome} {post : Post}
    (h : post ∈ n.sent ticketId call mode replies) : post.content = body ticketId call mode := by
  unfold sent notifyApprovers at h
  split at h
  · cases h
  · rw [eq_of_mem_posts h]

/-- A delivery keeps to its attempts and ends in exactly one audited outcome, if and only
    if its replies are handled. -/
theorem accounted_iff (n : WebhookNotifier) (ticketId : TicketId) (call : ToolCall) (body : Bytes)
    (replies : ℕ → PostOutcome) :
    (n.deliver ticketId call body replies).Accounted n.attempts ticketId call ↔
      Handled n.attempts replies := by
  have hsound : (n.deliver ticketId call body replies).Sound n.attempts 0 ticketId call :=
    deliverFrom_sound "" replies
  have hending :
      (n.deliver ticketId call body replies).ending = .ok () ↔ Handled n.attempts replies := by
    rw [← handledFrom_zero]
    exact ending_deliverFrom (Nat.zero_add _) (Nat.zero_le _) "" replies
  rw [← hending]
  constructor
  · intro h
    cases hend : (n.deliver ticketId call body replies).ending with
    | ok _ => rfl
    | error e =>
        have hnone := hsound.silent e hend
        obtain ⟨-, hone⟩ | ⟨-, error, hone⟩ := h.outcome
        · rw [hnone] at hone
          cases hone
        · rw [hnone] at hone
          cases hone
  · intro hok
    refine ⟨hsound.posts_le, fun code hcode => ?_, ?_⟩
    · simpa [PostOutcome.retried] using hsound.retried _ hcode
    · have hrecorded := hsound.recorded hok
      rwa [Nat.zero_add] at hrecorded

omit [HmacSha256] in
/-- A URL the client refuses: the task ends with the exception and nothing is recorded. -/
theorem refused_url_unrecorded :
    letI : HmacSha256 := ⟨fun _ _ => ""⟩
    ¬ (({ url := "http://[::1" } : WebhookNotifier).deliver "tkt-1"
      ⟨"1", "alice", "bank", "wire", .dict [], []⟩ []
        fun _ => .raised "InvalidURL" "Invalid port").Accounted 3 "tkt-1"
          ⟨"1", "alice", "bank", "wire", .dict [], []⟩ := by
  intro h
  obtain ⟨-, hone⟩ | ⟨-, error, hone⟩ := h.outcome
  · cases hone
  · cases hone

end WebhookNotifier

end ToolGateway
