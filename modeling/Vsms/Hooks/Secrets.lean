import Vsms.Lib.Optimistic
import Vsms.Hooks.Lifecycle
import Vsms.Hooks.Signature
import Mathlib.Computability.RegularExpressions

/-! # Secrets of an endpoint

An `hmac` endpoint has a secret and, after a rotation, the one before it; deliveries are signed with
both. `rotate_secret` writes a new secret over the two, and `switch_mode` takes the endpoint from
one mode to the other, with the columns each mode has. Both read the row and write it by a
compare-and-swap, beside the deliveries and the health columns these write.

`History` has the secrets in the order they came: those of the current `hmac` period, newest first,
and those of the periods before. The two columns are always the first two of the period (`Agrees`),
so a delivery is accepted by a receiver that has one of these and by none that has another
(`rotation_overlap`). -/

namespace Vsms.Hooks.Secrets

open Vsms.Lib.Runs Vsms.Lib.Optimistic Vsms.Lib.Framing Vsms.Schema.Types Vsms.Schema.Webhooks
open Vsms.Hooks.Deliver Vsms.Hooks.Lifecycle Vsms.Hooks.Signature

/-! ## Columns -/

/-- A row of `webhook_endpoints` with the time of the last rotation. -/
structure Endpoint extends WebhookEndpoint where
  secretRotatedAt : Option Time
  deriving DecidableEq

instance : Versioned Endpoint := ⟨fun e => e.version⟩

structure UpdateEndpointInput extends UpdateWebhookEndpointInput where
  deliveryMode : Option WebhookDeliveryMode := none
  audience : Option (Option String) := none
  secret : Option (Option String) := none
  prevSecret : Option (Option String) := none
  secretRotatedAt : Option (Option Time) := none

def UpdateEndpointInput.apply (u : UpdateEndpointInput) (now : Time) (e : Endpoint) : Endpoint where
  toWebhookEndpoint := { u.toUpdateWebhookEndpointInput.apply now e.toWebhookEndpoint with
    deliveryMode := u.deliveryMode.getD e.deliveryMode
    audience := u.audience.getD e.audience
    secret := u.secret.getD e.secret
    prevSecret := u.prevSecret.getD e.prevSecret }
  secretRotatedAt := u.secretRotatedAt.getD e.secretRotatedAt

/-! ### Sealable URLs -/

def oneOf (chars : String) : RegularExpression Char :=
  (chars.toList.map RegularExpression.char).foldr (· + ·) 0

def literal (text : String) : RegularExpression Char :=
  (text.toList.map RegularExpression.char).foldr (· * ·) 1

def optional (r : RegularExpression Char) : RegularExpression Char := 1 + r

def letters : String := "ABCDEFGHIJKLMNOPQRSTUVWXYZabcdefghijklmnopqrstuvwxyz"

def digits : String := "0123456789"

/-- A port from 1 to 65535. -/
def portPattern : RegularExpression Char :=
  let d := oneOf digits
  literal "6553" * oneOf "012345" + literal "655" * oneOf "012" * d +
    literal "65" * oneOf "01234" * d * d + literal "6" * oneOf "01234" * d * d * d +
    oneOf "12345" * d * d * d * d + oneOf "123456789" * (1 + d + d * d + d * d * d)

def hostPattern : RegularExpression Char :=
  let alphanumeric := oneOf (letters ++ digits)
  let v6 := oneOf (digits ++ "ABCDEFabcdef:.")
  alphanumeric * optional (.star (oneOf (letters ++ digits ++ ".-")) * alphanumeric) +
    literal "[" * (v6 * .star v6) * literal "]"

/-- `SEALABLE_URL_PATTERN` -/
def sealableUrlPattern : RegularExpression Char :=
  oneOf "Hh" * oneOf "Tt" * oneOf "Tt" * oneOf "Pp" * optional (oneOf "Ss") * literal "://" *
    hostPattern * optional (literal ":" * portPattern) *
    optional (literal "/" * .star (oneOf (letters ++ digits ++ "._~!$&'()*+,;=:@/-")))

/-- **`url_can_be_sealed`** -/
def urlCanBeSealed (url : String) : Bool := sealableUrlPattern.rmatch url.toList

/-- **The constraints of `0010_sealed_webhooks`** on the columns of each mode. -/
def ModeConstraints (e : Endpoint) : Prop :=
  match e.deliveryMode with
  | .sealed => e.audience.isSome ∧ urlCanBeSealed e.url ∧ e.secret = none ∧ e.prevSecret = none ∧
      e.secretRotatedAt = none
  | .hmac => e.secret.isSome ∧ e.audience = none

/-- Without a secret there is no previous one. -/
theorem ModeConstraints.prevSecret {e : Endpoint} (h : ModeConstraints e) (hs : e.secret = none) :
    e.prevSecret = none := by
  unfold ModeConstraints at h
  split at h
  · exact h.2.2.2.1
  · rw [hs] at h
    cases h.1

theorem modeConstraints_hmac {e : Endpoint} (h : e.deliveryMode = .hmac) :
    ModeConstraints e ↔ e.secret.isSome ∧ e.audience = none := by
  unfold ModeConstraints
  rw [h]

/-! ### Validation -/

/-- The `@regex` of `audience`: any text on one line but `vsms`. -/
def audiencePattern : List Char → Bool
  | 'v' :: 's' :: 'm' :: 's' :: rest => rest ≠ [] && rest.all (· ≠ '\n')
  | 'v' :: 's' :: 'm' :: _ :: rest => rest.all (· ≠ '\n')
  | ['v', 's', 'm'] | ['v', 's'] | ['v'] => true
  | 'v' :: 's' :: _ :: rest => rest.all (· ≠ '\n')
  | 'v' :: _ :: rest => rest.all (· ≠ '\n')
  | _ :: rest => rest.all (· ≠ '\n')
  | [] => false

/-- `validate()` of the generated input type. -/
def UpdateEndpointInput.validate (u : UpdateEndpointInput) : Bool :=
  (match u.audience with
    | some (some a) => 1 ≤ a.length && a.length ≤ 255 && audiencePattern a.toList
    | _ => true) &&
  match u.secret with
    | some (some s) => 32 ≤ s.length
    | _ => true

/-! ## The procedures -/

/-- **`generate_secret`**, from the bytes it draws. -/
def generateSecret (bytes : Tag) : String := "whsec_" ++ hexEncode bytes.toList

/-- **`rotate_secret`**, up to the write. -/
def rotateSecret (gate : HmacWebhooks) (endpoint : Endpoint) (bytes : Tag) (now : Time) :
    Except ApiError UpdateEndpointInput := do
  gate.require "a signing secret cannot be rotated (rotateWebhookSecret)"
  if endpoint.deliveryMode ≠ .hmac then
    .error (.validation ("webhook endpoint " ++ endpoint.id ++ " is sealed: it has no signing " ++
      "secret to rotate (its deliveries are sealed under vsms's envelope signing key)"))
  else return {
    secret := some (some (generateSecret bytes))
    prevSecret := some endpoint.secret
    secretRotatedAt := some (some now) }

/-- What `Url::parse` finds in a URL. -/
structure ParsedUrl where
  scheme : String
  username : String
  password : Option String
  query : Option String
  fragment : Option String
  path : String

/-- **`delivery_route`**, with the reason for which it refuses a URL. -/
def deliveryRoute (parse : String → Option ParsedUrl) (url : String) : Except String String :=
  match parse url with
  | none => .error "not a URL"
  | some parsed =>
    if parsed.scheme ≠ "http" ∧ parsed.scheme ≠ "https" then
      .error "the scheme is not http or https"
    else if parsed.username ≠ "" ∨ parsed.password.isSome then .error "it carries credentials"
    else if parsed.query.isSome then .error "it carries a query"
    else if parsed.fragment.isSome then .error "it carries a fragment"
    else if parsed.path.toList.any (· ∈ ['\x7b', '\x7d', '%']) then
      .error "the path is not one literal route"
    else .ok parsed.path

def modeName : WebhookDeliveryMode → String
  | .sealed => "sealed"
  | .hmac => "hmac"

/-- **`plan_mode_switch`** -/
def planModeSwitch (parse : String → Option ParsedUrl) (endpoint : Endpoint)
    (mode : WebhookDeliveryMode) (audience : Option String) (bytes : Tag) :
    Except ApiError UpdateEndpointInput :=
  if endpoint.deliveryMode = mode then
    .error (.validation ("webhook endpoint " ++ endpoint.id ++ " is already " ++ modeName mode ++
      ": there is nothing to switch"))
  else match mode with
  | .hmac =>
    if audience.isSome then .error (.validation "an hmac endpoint has no audience: leave it out")
    else .ok {
      deliveryMode := some .hmac
      audience := some none
      secret := some (some (generateSecret bytes))
      prevSecret := some none
      secretRotatedAt := some none }
  | .sealed =>
    match audience.filter (· ≠ "") with
    | none => .error (.validation
        "a sealed endpoint needs an audience: the name its receiver answers to")
    | some audience =>
      if !urlCanBeSealed endpoint.url then
        let reason := match deliveryRoute parse endpoint.url with
          | .error reason => reason
          | .ok _ => "its host or port is not written in the form a sealed endpoint takes"
        .error (.validation
          ("webhook endpoint " ++ endpoint.id ++ "'s URL cannot carry a sealed " ++
          "delivery (" ++ reason ++ "): change the URL first"))
      else .ok {
        deliveryMode := some .sealed
        audience := some (some audience)
        secret := some none
        prevSecret := some none
        secretRotatedAt := some none }

/-- **`switch_mode`**, up to the write. -/
def switchMode (parse : String → Option ParsedUrl) (gate : HmacWebhooks) (endpoint : Endpoint)
    (mode : WebhookDeliveryMode) (audience : Option String) (bytes : Tag) :
    Except ApiError UpdateEndpointInput := do
  if mode = .hmac then
    gate.require "an endpoint cannot be switched to hmac (switchWebhookDeliveryMode)"
  planModeSwitch parse endpoint mode audience bytes

/-! ## Deliveries -/

structure Request where
  url : String
  event : String
  eventId : String
  timestamp : ℤ
  signature : String
  body : String

/-- **`hmac_request`** -/
def hmacRequest (sha256 : List UInt8 → Tag) (hmac : List UInt8 → List UInt8 → Tag)
    (endpoint : Endpoint) (attempt : WebhookAttempt) (body : String) (now : Time) :
    Except Outcome Request :=
  match endpoint.secret with
  | none => .error (.retryable none ("delivery not signed: this hmac endpoint has no secret. " ++
      "Rotate it (rotateWebhookSecret) to mint one"))
  | some secret =>
    let timestamp := now / 1000000
    let secrets := secret :: endpoint.prevSecret.toList
    .ok {
      url := endpoint.url
      event := attempt.eventType
      eventId := attempt.sourceEventId
      timestamp
      signature := signHeader sha256 hmac secrets timestamp attempt.sourceEventId (strBytes body)
      body }

/-! ## The endpoint and everything that writes to it -/

/-- The secrets the endpoint has had: those of the current `hmac` period, newest first, and those of
earlier ones. -/
structure History where
  period : List String
  retired : List String
  deriving DecidableEq

/-- A rotation adds a secret to the period; a switch of the mode ends it. -/
def History.after (h : History) (u : UpdateEndpointInput) : History :=
  match u.deliveryMode, u.secret with
  | none, some (some secret) => ⟨secret :: h.period, h.retired⟩
  | none, _ => h
  | some _, some (some secret) => ⟨[secret], h.period ++ h.retired⟩
  | some _, _ => ⟨[], h.period ++ h.retired⟩

/-- What one process is doing. -/
inductive Call
  | idle
  /-- `rotate_secret`, `switch_mode` or the write of the health columns, after the read. -/
  | writing (endpoint : Endpoint) (change : UpdateEndpointInput)
  /-- A delivery, after the read; `history` is that of the row it has read. -/
  | delivering (endpoint : Endpoint) (history : History)

/-- The copy a process will write from. -/
def Call.held : Call → Option Endpoint
  | .writing endpoint _ => some endpoint
  | _ => none

/-- A delivery, and the secrets as of the read it was built from. -/
structure Sent where
  request : Except Outcome Request
  history : History

/-- The row and the calls; the secrets, all that were ever generated, and the deliveries, are
history. -/
structure State where
  shared : Shared Endpoint Call
  history : History
  generated : List String
  sent : List Sent

inductive Action
  | rotate (p : ℕ) (gate : HmacWebhooks) (bytes : Tag) (now : Time)
  | switch (p : ℕ) (gate : HmacWebhooks) (mode : WebhookDeliveryMode) (audience : Option String)
      (bytes : Tag)
  /-- `hooks` reads the endpoint and is to write its health. -/
  | health (p : ℕ) (change : UpdateWebhookEndpointInput)
  /-- `audienceTaken`: another endpoint has the audience that is to be written. -/
  | write (p : ℕ) (now : Time) (audienceTaken : Bool)
  | readEndpoint (p : ℕ)
  | send (p : ℕ) (attempt : WebhookAttempt) (body : String) (now : Time)
  /-- The process stops, or its read fails. -/
  | stop (p : ℕ)

/-- The secret a change brings in. -/
def UpdateEndpointInput.newSecret (u : UpdateEndpointInput) : Option String := u.secret.join

/-- A call has made its plan, or has been refused. -/
def State.plan (s : State) (p : ℕ) (planned : Except ApiError UpdateEndpointInput) : State :=
  match planned with
  | .ok change => { s with
      shared := s.shared.become p (.writing s.shared.row change)
      generated := change.newSecret.toList ++ s.generated }
  | .error _ => s

section system
variable (sha256 : List UInt8 → Tag) (hmac : List UInt8 → List UInt8 → Tag)
  (parse : String → Option ParsedUrl)

/-- **One statement** of a procedure or of a worker. -/
def step (s : State) : Action → Option State
  | .rotate p gate bytes now =>
    match s.shared.procs p with
    | .idle => some (s.plan p (rotateSecret gate s.shared.row bytes now))
    | _ => none
  | .switch p gate mode audience bytes =>
    match s.shared.procs p with
    | .idle => some (s.plan p (switchMode parse gate s.shared.row mode audience bytes))
    | _ => none
  | .health p change =>
    match s.shared.procs p with
    | .idle => some (s.plan p (.ok { toUpdateWebhookEndpointInput := change }))
    | _ => none
  | .write p now audienceTaken =>
    match s.shared.procs p with
    | .writing endpoint change =>
      if s.shared.row.version = endpoint.version ∧ change.validate ∧
          ¬ (audienceTaken ∧ change.audience.join.isSome) then
        some { s with
          shared := s.shared.commit (change.apply now s.shared.row) p .idle
          history := s.history.after change }
      else some { s with shared := s.shared.become p .idle }
    | _ => none
  | .readEndpoint p =>
    match s.shared.procs p with
    | .idle => some { s with shared := s.shared.become p (.delivering s.shared.row s.history) }
    | _ => none
  | .send p attempt body now =>
    match s.shared.procs p with
    | .delivering endpoint history =>
      if endpoint.deliveryMode = .hmac then
        some { s with
          shared := s.shared.become p .idle
          sent := ⟨hmacRequest sha256 hmac endpoint attempt body now, history⟩ :: s.sent }
      else some { s with shared := s.shared.become p .idle }
    | _ => none
  | .stop p => some { s with shared := s.shared.become p .idle }

/-- The secrets a row holds, newest first. -/
def secretsOf (row : Endpoint) : List String := row.secret.toList ++ row.prevSecret.toList

def start (row : Endpoint) : State where
  shared := ⟨row, fun _ => .idle⟩
  history := ⟨secretsOf row, []⟩
  generated := (secretsOf row).dedup
  sent := []

/-- **What is asked of `generate_secret` and of HMAC**: no secret is generated twice, and no two of
them give the same tag. -/
def Distinct (_ : State) (_ : Action) (s' : State) : Prop :=
  s'.generated.Nodup ∧ ∀ canonical, Set.InjOn (fun key => mac hmac key canonical)
    {key | key ∈ s'.generated}

/-- A receiver that has only `key` accepts the request. -/
def Accepts (key : String) (r : Request) : Prop :=
  verify sha256 hmac [key] r.timestamp r.eventId (strBytes r.body) r.signature

/-- **The overlap**: a delivery is accepted by a receiver that has the newest secret of the period,
or the one before it, and by none that has an older one or one of an earlier period. -/
def Overlap (d : Sent) : Prop :=
  ∃ r, d.request = .ok r ∧ (∀ key ∈ d.history.period.take 2, Accepts sha256 hmac key r) ∧
    (∀ key ∈ d.history.period, key ∉ d.history.period.take 2 → ¬ Accepts sha256 hmac key r) ∧
    ∀ key ∈ d.history.retired, ¬ Accepts sha256 hmac key r

end system

/-! ## The columns and the history -/

/-- **The columns are the first two secrets of the period.** -/
structure Agrees (row : Endpoint) (h : History) : Prop where
  mode : ModeConstraints row
  secret : row.secret = h.period[0]?
  prevSecret : row.prevSecret = h.period[1]?
  nonempty : ∀ key ∈ h.period ++ h.retired, key ≠ ""
  disjoint : ∀ key ∈ h.retired, key ∉ h.period

/-- **The changes there are**, by the row they were planned on. -/
inductive Planned (endpoint : Endpoint) : UpdateEndpointInput → Prop
  | rotation (hmode : endpoint.deliveryMode = .hmac) (secret : String) (now : Time) :
      Planned endpoint {
        secret := some (some secret)
        prevSecret := some endpoint.secret
        secretRotatedAt := some (some now) }
  | toHmac (hmode : endpoint.deliveryMode = .sealed) (secret : String) :
      Planned endpoint {
        deliveryMode := some .hmac
        audience := some none
        secret := some (some secret)
        prevSecret := some none
        secretRotatedAt := some none }
  | toSealed (hmode : endpoint.deliveryMode = .hmac) (hurl : urlCanBeSealed endpoint.url)
      (audience : String) :
      Planned endpoint {
        deliveryMode := some .sealed
        audience := some (some audience)
        secret := some none
        prevSecret := some none
        secretRotatedAt := some none }
  | health (change : UpdateWebhookEndpointInput) :
      Planned endpoint { toUpdateWebhookEndpointInput := change }

theorem generateSecret_ne_empty (bytes : Tag) : generateSecret bytes ≠ "" := by
  intro h
  have hlist := congrArg String.toList h
  rw [generateSecret, String.toList_append] at hlist
  cases hlist

theorem rotateSecret_ok {gate : HmacWebhooks} {endpoint : Endpoint} {bytes : Tag} {now : Time}
    {change : UpdateEndpointInput} (h : rotateSecret gate endpoint bytes now = .ok change) :
    Planned endpoint change ∧ ∀ key ∈ change.newSecret, key ≠ "" := by
  unfold rotateSecret at h
  cases gate with
  | disabled => cases h
  | permitted =>
    change (if endpoint.deliveryMode ≠ .hmac then _ else _) = _ at h
    split_ifs at h with hmode
    cases h
    refine ⟨.rotation (not_not.mp hmode) _ _, ?_⟩
    rintro key ⟨⟩
    exact generateSecret_ne_empty bytes

theorem planModeSwitch_ok {parse : String → Option ParsedUrl} {endpoint : Endpoint}
    {mode : WebhookDeliveryMode} {audience : Option String} {bytes : Tag}
    {change : UpdateEndpointInput}
    (h : planModeSwitch parse endpoint mode audience bytes = .ok change) :
    Planned endpoint change ∧ ∀ key ∈ change.newSecret, key ≠ "" := by
  unfold planModeSwitch at h
  by_cases hsame : endpoint.deliveryMode = mode
  · rw [if_pos hsame] at h
    cases h
  rw [if_neg hsame] at h
  cases mode with
  | hmac =>
    dsimp only at h
    split_ifs at h
    cases h
    have hmode : endpoint.deliveryMode = .sealed := by
      cases hd : endpoint.deliveryMode with
      | hmac => exact absurd hd hsame
      | sealed => rfl
    refine ⟨.toHmac hmode _, ?_⟩
    rintro key ⟨⟩
    exact generateSecret_ne_empty bytes
  | sealed =>
    dsimp only at h
    have hmode : endpoint.deliveryMode = .hmac := by
      cases hd : endpoint.deliveryMode with
      | hmac => rfl
      | sealed => exact absurd hd hsame
    split at h
    · cases h
    · split_ifs at h with hurl
      cases h
      refine ⟨.toSealed hmode (by simpa using hurl) _, ?_⟩
      rintro key ⟨⟩

theorem switchMode_ok {parse : String → Option ParsedUrl} {gate : HmacWebhooks}
    {endpoint : Endpoint} {mode : WebhookDeliveryMode} {audience : Option String} {bytes : Tag}
    {change : UpdateEndpointInput}
    (h : switchMode parse gate endpoint mode audience bytes = .ok change) :
    Planned endpoint change ∧ ∀ key ∈ change.newSecret, key ≠ "" := by
  have hplan : planModeSwitch parse endpoint mode audience bytes = .ok change := by
    unfold switchMode at h
    cases mode with
    | hmac =>
      cases gate with
      | disabled => cases h
      | permitted => exact h
    | sealed => exact h
  exact planModeSwitch_ok hplan

/-- **A change keeps the columns and the history together.** -/
theorem Agrees.write {row : Endpoint} {h : History} (hrow : Agrees row h)
    {change : UpdateEndpointInput} (hplan : Planned row change) (now : Time)
    (hnew : ∀ key ∈ change.newSecret, key ≠ "" ∧ key ∉ h.period ++ h.retired) :
    Agrees (change.apply now row) (h.after change) := by
  obtain ⟨hmode, hsecret, hprev, hnonempty, hdisjoint⟩ := hrow
  cases hplan with
  | rotation hd secret rotatedAt =>
    obtain ⟨hne, hfresh⟩ := hnew secret rfl
    have hrotated : ∀ e : Endpoint, e.deliveryMode = row.deliveryMode → e.secret.isSome →
        e.audience = row.audience → ModeConstraints e := by
      intro e he hs ha
      rw [modeConstraints_hmac (he.trans hd), ha]
      exact ⟨hs, ((modeConstraints_hmac hd).mp hmode).2⟩
    refine ⟨hrotated _ rfl rfl rfl, rfl, ?_, ?_, ?_⟩
    · exact hsecret.trans (by simp [History.after])
    · intro key hkey
      rcases List.mem_cons.mp hkey with rfl | hkey
      · exact hne
      · exact hnonempty key hkey
    · intro key hkey hmem
      rcases List.mem_cons.mp hmem with rfl | hmem
      · exact hfresh (List.mem_append_right _ hkey)
      · exact hdisjoint key hkey hmem
  | toHmac hd secret =>
    obtain ⟨hne, hfresh⟩ := hnew secret rfl
    refine ⟨⟨rfl, rfl⟩, rfl, rfl, ?_, ?_⟩
    · intro key hkey
      rcases List.mem_cons.mp hkey with rfl | hkey
      · exact hne
      · exact hnonempty key hkey
    · intro key hkey hmem
      rw [List.mem_singleton.mp hmem] at hkey
      exact hfresh hkey
  | toSealed hd hurl audience =>
    refine ⟨⟨rfl, hurl, rfl, rfl, rfl⟩, rfl, rfl, hnonempty, ?_⟩
    intro key _ hmem
    cases hmem
  | health change => exact ⟨hmode, hsecret, hprev, hnonempty, hdisjoint⟩

/-- **A delivery of a row that agrees with its history** is accepted by the right receivers. -/
theorem Agrees.overlap {sha256 : List UInt8 → Tag} {hmac : List UInt8 → List UInt8 → Tag}
    {endpoint : Endpoint} {h : History} (hrow : Agrees endpoint h)
    (hmode : endpoint.deliveryMode = .hmac)
    (hinj : ∀ canonical, Set.InjOn (fun key => mac hmac key canonical)
      {key | key ∈ h.period ++ h.retired})
    (attempt : WebhookAttempt) (body : String) (now : Time) :
    Overlap sha256 hmac ⟨hmacRequest sha256 hmac endpoint attempt body now, h⟩ := by
  obtain ⟨hconstraints, hsecret, hprev, hnonempty, hdisjoint⟩ := hrow
  obtain ⟨secret, hs⟩ :=
    Option.isSome_iff_exists.mp ((modeConstraints_hmac hmode).mp hconstraints).1
  have hkeys : secret :: endpoint.prevSecret.toList = h.period.take 2 := by
    rw [hs] at hsecret
    rw [hprev]
    rcases hperiod : h.period with _ | ⟨first, _ | ⟨second, rest⟩⟩ <;> rw [hperiod] at hsecret <;>
      cases hsecret <;> rfl
  have hrequest : hmacRequest sha256 hmac endpoint attempt body now = .ok
      { url := endpoint.url
        event := attempt.eventType
        eventId := attempt.sourceEventId
        timestamp := now / 1000000
        signature := signHeader sha256 hmac (h.period.take 2) (now / 1000000) attempt.sourceEventId
          (strBytes body)
        body } := by
    unfold hmacRequest
    rw [hs, ← hkeys]
  -- Only a secret that signed the delivery has one of its tags.
  have hrefused : ∀ key ∈ h.period ++ h.retired, key ∉ h.period.take 2 →
      ¬ verify sha256 hmac [key] (now / 1000000) attempt.sourceEventId (strBytes body)
        (signHeader sha256 hmac (h.period.take 2) (now / 1000000) attempt.sourceEventId
          (strBytes body)) := by
    intro key hkey hout hverify
    obtain ⟨candidate, hcandidate, -, signed, hsigned, htag⟩ := verify_signHeader.mp hverify
    rw [List.mem_singleton.mp hcandidate] at htag
    have hmem : signed ∈ h.period ++ h.retired :=
      List.mem_append_left _ (List.mem_of_mem_take hsigned)
    rw [← hinj _ hmem hkey htag] at hout
    exact hout hsigned
  refine ⟨_, hrequest, fun key hkey => ?_, fun key hkey hout => ?_, fun key hkey => ?_⟩
  · refine verify_signHeader.mpr ⟨key, List.mem_singleton_self key, hnonempty key ?_,
      key, hkey, rfl⟩
    exact List.mem_append_left _ (List.mem_of_mem_take hkey)
  · exact hrefused key (List.mem_append_left _ hkey) hout
  · refine hrefused key (List.mem_append_right _ hkey) fun hmem => ?_
    exact hdisjoint key hkey (List.mem_of_mem_take hmem)

/-! ## Runs -/

section runs
variable {sha256 : List UInt8 → Tag} {hmac : List UInt8 → List UInt8 → Tag}
  {parse : String → Option ParsedUrl}

/-- Every secret there has been. -/
def History.all (h : History) : List String := h.period ++ h.retired

variable (sha256 hmac) in
structure Inv (s : State) : Prop where
  snapshots : Snapshots Call.held s.shared
  agrees : Agrees s.shared.row s.history
  known : s.history.all ⊆ s.generated
  planned : ∀ p endpoint change, s.shared.procs p = .writing endpoint change →
    Planned endpoint change ∧
      ∀ key ∈ change.newSecret, key ≠ "" ∧ key ∈ s.generated ∧ key ∉ s.history.all
  /-- No two calls are about to write the same secret. -/
  apart : ∀ p q e e' change change' key, s.shared.procs p = .writing e change →
    s.shared.procs q = .writing e' change' → key ∈ change.newSecret →
      key ∈ change'.newSecret → p = q
  reading : ∀ p endpoint history, s.shared.procs p = .delivering endpoint history →
    Agrees endpoint history ∧ history.all ⊆ s.generated
  sent : ∀ d ∈ s.sent, Overlap sha256 hmac d

/-- A process goes on with what is neither a change nor a row, or with the row it reads. -/
theorem Inv.become {s s' : State} (h : Inv sha256 hmac s) {p : ℕ} {x : Call}
    (hshared : s'.shared = s.shared.become p x) (hhistory : s'.history = s.history)
    (hgenerated : s'.generated = s.generated)
    (hx : x = .idle ∨ x = .delivering s.shared.row s.history)
    (hsent : ∀ d ∈ s'.sent, Overlap sha256 hmac d) : Inv sha256 hmac s' := by
  have hwriting : ∀ q e change, s'.shared.procs q = .writing e change →
      s.shared.procs q = .writing e change := by
    intro q e change hq
    rw [hshared, Shared.procs_become] at hq
    rcases update_cases (fun x => x) hq with ⟨-, hq⟩ | ⟨-, hq⟩
    · rcases hx with rfl | rfl <;> cases hq
    · exact hq
  refine ⟨?_, ?_, ?_, fun q e change hq => ?_, fun q r e e' change change' key hq hr => ?_,
    fun q e history hq => ?_, hsent⟩
  · have hmove : Move Call.held s.shared p s'.shared := by
      rw [hshared]
      refine .become x fun m hm => ?_
      rcases hx with rfl | rfl <;> cases hm
    exact hmove.snapshots h.snapshots
  · rw [hshared, Shared.row_become, hhistory]
    exact h.agrees
  · rw [hhistory, hgenerated]
    exact h.known
  · rw [hhistory, hgenerated]
    exact h.planned q e change (hwriting q e change hq)
  · exact h.apart q r e e' change change' key (hwriting q e change hq) (hwriting r e' change' hr)
  · rw [hgenerated]
    rw [hshared, Shared.procs_become] at hq
    rcases update_cases (fun x => x) hq with ⟨-, hq⟩ | ⟨-, hq⟩
    · rcases hx with rfl | rfl
      · cases hq
      · cases hq
        exact ⟨h.agrees, h.known⟩
    · exact h.reading q e history hq

/-- A call plans a change of the row it has read. -/
theorem Inv.plan {s : State} (h : Inv sha256 hmac s) (p : ℕ)
    {planned : Except ApiError UpdateEndpointInput}
    (hplan : ∀ change, planned = .ok change → Planned s.shared.row change ∧
      ∀ key ∈ change.newSecret, key ≠ "")
    (hnodup : (s.plan p planned).generated.Nodup) : Inv sha256 hmac (s.plan p planned) := by
  cases planned with
  | error e => exact h
  | ok change =>
    obtain ⟨hchange, hne⟩ := hplan change rfl
    have hfresh : ∀ key ∈ change.newSecret, key ∉ s.generated := by
      intro key hkey hmem
      have hdisjoint := (List.nodup_append.mp hnodup).2.2
      exact hdisjoint key (Option.mem_toList.mpr hkey) key hmem rfl
    have hgrow : s.generated ⊆ change.newSecret.toList ++ s.generated :=
      List.subset_append_right _ _
    have hpending : ∀ q e change', s.shared.procs q = .writing e change' →
        ∀ key ∈ change'.newSecret, key ∉ change.newSecret := fun q e change' hq key hkey hnew =>
      hfresh key hnew ((h.planned q e change' hq).2 key hkey).2.1
    refine ⟨?_, h.agrees, List.Subset.trans h.known hgrow, fun q e change' hq => ?_,
      fun q r e e' change₁ change₂ key hq hr hkey₁ hkey₂ => ?_, fun q e history hq => ?_, h.sent⟩
    · have hmove :
          Move Call.held s.shared p (s.shared.become p (.writing s.shared.row change)) := by
        refine .become _ fun m hm => ?_
        cases hm
        exact .inr rfl
      exact hmove.snapshots h.snapshots
    · rcases update_cases (fun x => x) hq with ⟨-, hq⟩ | ⟨-, hq⟩
      · cases hq
        refine ⟨hchange, fun key hkey => ⟨hne key hkey, ?_, fun hmem => ?_⟩⟩
        · exact List.mem_append_left _ (Option.mem_toList.mpr hkey)
        · exact hfresh key hkey (h.known hmem)
      · obtain ⟨hp, hkeys⟩ := h.planned q e change' hq
        refine ⟨hp, fun key hkey => ?_⟩
        obtain ⟨hne, hgen, hout⟩ := hkeys key hkey
        exact ⟨hne, hgrow hgen, hout⟩
    · rcases update_cases (fun x => x) hq with ⟨hqp, hq⟩ | ⟨-, hq⟩ <;>
        rcases update_cases (fun x => x) hr with ⟨hrp, hr⟩ | ⟨-, hr⟩
      · rw [hqp, hrp]
      · cases hq
        exact absurd hkey₁ (hpending r e' change₂ hr key hkey₂)
      · cases hr
        exact absurd hkey₂ (hpending q e change₁ hq key hkey₁)
      · exact h.apart q r e e' change₁ change₂ key hq hr hkey₁ hkey₂
    · rcases update_cases (fun x => x) hq with ⟨-, hq⟩ | ⟨-, hq⟩
      · cases hq
      · obtain ⟨hagrees, hknown⟩ := h.reading q e history hq
        exact ⟨hagrees, List.Subset.trans hknown hgrow⟩

theorem History.mem_after {h : History} {change : UpdateEndpointInput} {key : String}
    (hkey : key ∈ (h.after change).all) : key ∈ h.all ∨ key ∈ change.newSecret := by
  unfold History.after at hkey
  unfold History.all at hkey ⊢
  split at hkey
  · rename_i secret _ hs
    rcases List.mem_cons.mp hkey with rfl | hkey
    · exact .inr (by rw [UpdateEndpointInput.newSecret, hs]; rfl)
    · exact .inl hkey
  · exact .inl hkey
  · rename_i secret _ hs
    rcases List.mem_cons.mp hkey with rfl | hkey
    · exact .inr (by rw [UpdateEndpointInput.newSecret, hs]; rfl)
    · exact .inl hkey
  · exact .inl hkey

/-- A change is written over the row it was planned on. -/
theorem Inv.write {s : State} (h : Inv sha256 hmac s) {p : ℕ} {endpoint : Endpoint}
    {change : UpdateEndpointInput} (now : Time)
    (hp : s.shared.procs p = .writing endpoint change)
    (hversion : s.shared.row.version = endpoint.version) :
    Inv sha256 hmac { s with
      shared := s.shared.commit (change.apply now s.shared.row) p .idle
      history := s.history.after change } := by
  obtain ⟨hplanned, hkeys⟩ := h.planned p endpoint change hp
  have hrow : endpoint = s.shared.row :=
    (h.snapshots p endpoint (by rw [hp]; rfl)).eq hversion.symm
  rw [hrow] at hplanned
  refine ⟨?_, ?_, fun key hkey => ?_, fun q e change' hq => ?_,
    fun q r e e' change₁ change₂ key hq hr => ?_, fun q e history hq => ?_, h.sent⟩
  · have hmove : Move Call.held s.shared p
        (s.shared.commit (change.apply now s.shared.row) p .idle) := by
      refine .commit endpoint _ _ (by rw [hp]; rfl) hversion.symm (Nat.lt_succ_self _) ?_
      rintro m ⟨⟩
    exact hmove.snapshots h.snapshots
  · refine h.agrees.write hplanned now fun key hkey => ?_
    exact ⟨(hkeys key hkey).1, (hkeys key hkey).2.2⟩
  · rcases History.mem_after hkey with hkey | hkey
    · exact h.known hkey
    · exact (hkeys key hkey).2.1
  · rcases update_cases (fun x => x) hq with ⟨-, hq⟩ | ⟨hqp, hq⟩
    · cases hq
    · obtain ⟨hplan', hkeys'⟩ := h.planned q e change' hq
      refine ⟨hplan', fun key hkey => ?_⟩
      obtain ⟨hne, hgen, hout⟩ := hkeys' key hkey
      refine ⟨hne, hgen, fun hmem => ?_⟩
      rcases History.mem_after hmem with hmem | hmem
      · exact hout hmem
      · exact hqp (h.apart q p e endpoint change' change key hq hp hkey hmem)
  · rcases update_cases (fun x => x) hq with ⟨-, hq⟩ | ⟨-, hq⟩
    · cases hq
    · rcases update_cases (fun x => x) hr with ⟨-, hr⟩ | ⟨-, hr⟩
      · cases hr
      · exact h.apart q r e e' change₁ change₂ key hq hr
  · rcases update_cases (fun x => x) hq with ⟨-, hq⟩ | ⟨-, hq⟩
    · cases hq
    · exact h.reading q e history hq

/-- **A step keeps the columns and the history together**, and what it sends overlaps. -/
theorem Inv.step_inv {s s' : State} {a : Action} (h : Inv sha256 hmac s)
    (hs : step sha256 hmac parse s a = some s') (hdistinct : Distinct hmac s a s') :
    Inv sha256 hmac s' := by
  cases a with
  | rotate p gate bytes now =>
    simp only [step] at hs
    split at hs <;> cases hs
    exact h.plan p (fun change hc => rotateSecret_ok hc) hdistinct.1
  | switch p gate mode audience bytes =>
    simp only [step] at hs
    split at hs <;> cases hs
    exact h.plan p (fun change hc => switchMode_ok hc) hdistinct.1
  | health p change =>
    simp only [step] at hs
    split at hs <;> cases hs
    refine h.plan p (fun change' hc => ?_) hdistinct.1
    cases hc
    exact ⟨.health change, by rintro key ⟨⟩⟩
  | write p now audienceTaken =>
    simp only [step] at hs
    split at hs
    · rename_i endpoint change hp
      split_ifs at hs with hw
      · cases hs
        exact h.write now hp hw.1
      · cases hs
        exact h.become rfl rfl rfl (.inl rfl) h.sent
    · cases hs
  | readEndpoint p =>
    simp only [step] at hs
    split at hs <;> cases hs
    exact h.become rfl rfl rfl (.inr rfl) h.sent
  | send p attempt body now =>
    simp only [step] at hs
    split at hs
    · rename_i endpoint history hp
      obtain ⟨hagrees, hknown⟩ := h.reading p endpoint history hp
      split_ifs at hs with hmode
      · cases hs
        refine h.become rfl rfl rfl (.inl rfl) fun d hd => ?_
        rcases List.mem_cons.mp hd with rfl | hd
        · exact hagrees.overlap hmode (fun canonical => (hdistinct.2 canonical).mono hknown)
            attempt body now
        · exact h.sent d hd
      · cases hs
        exact h.become rfl rfl rfl (.inl rfl) h.sent
    · cases hs
  | stop p =>
    cases hs
    exact h.become rfl rfl rfl (.inl rfl) h.sent

theorem Inv.start {row : Endpoint} (hrow : ModeConstraints row)
    (hempty : ∀ key ∈ secretsOf row, key ≠ "") : Inv sha256 hmac (start row) := by
  refine ⟨by rintro p m ⟨⟩, ⟨hrow, ?_, ?_, ?_, by rintro key ⟨⟩⟩, ?_, by rintro p e change ⟨⟩,
    by rintro p q e e' change change' key ⟨⟩, by rintro p e history ⟨⟩, by rintro d ⟨⟩⟩
  · change row.secret = (secretsOf row)[0]?
    unfold secretsOf
    cases hs : row.secret with
    | some secret => rfl
    | none =>
      rw [hrow.prevSecret hs]
      rfl
  · change row.prevSecret = (secretsOf row)[1]?
    unfold secretsOf
    cases hs : row.secret with
    | some secret => cases row.prevSecret <;> rfl
    | none =>
      rw [hrow.prevSecret hs]
      rfl
  · intro key hkey
    exact hempty key (by simpa [Secrets.start] using hkey)
  · intro key hkey
    simpa [Secrets.start, History.all] using hkey

/-- **Secrets overlap over one rotation.** In every interleaving of rotations, switches of the mode,
health writes and deliveries: the row meets the constraints of its mode, and every delivery is
accepted by receivers that have one of the two newest secrets of the period in which its row was
read, and by no receiver with an older secret of the period or with one of an earlier period. -/
theorem rotation_overlap (sha256 : List UInt8 → Tag) (hmac : List UInt8 → List UInt8 → Tag)
    (parse : String → Option ParsedUrl) (row : Endpoint) (actions : List Action)
    (hrow : ModeConstraints row) (hempty : ∀ key ∈ secretsOf row, key ≠ "")
    (hdistinct : Along (step sha256 hmac parse) (Distinct hmac) (start row) actions) :
    Always (step sha256 hmac parse)
      (fun s => ModeConstraints s.shared.row ∧ ∀ d ∈ s.sent, Overlap sha256 hmac d)
      (start row) actions :=
  hdistinct.always (I := Inv sha256 hmac) (fun _ h => ⟨h.agrees.mode, h.sent⟩)
    (fun _ _ _ h hs hd => h.step_inv hs hd) (Inv.start hrow hempty)

end runs

/-! ### Out of `hmac` and back -/

/-- The secrets of the run below: the first, the one it is rotated to, and the one of the second
period. -/
def firstSecret : String := generateSecret (Vector.replicate 32 0)

def rotatedSecret : String := generateSecret (Vector.replicate 32 1)

def laterSecret : String := generateSecret (Vector.replicate 32 2)

def sampleSecrets : List String := [firstSecret, rotatedSecret, laterSecret]

/-- SHA-256 of the body `\x7b\x7d`. -/
def bodyDigest : Tag :=
  #v[0x44, 0x13, 0x6f, 0xa3, 0x55, 0xb3, 0x67, 0x8a, 0x11, 0x46, 0xad, 0x16, 0xf7, 0xe8, 0x64, 0x9e,
    0x94, 0xfb, 0x4f, 0xc2, 0x1f, 0xe7, 0x7e, 0x83, 0x10, 0xc0, 0x60, 0xf6, 0x1c, 0xaa, 0xff, 0x8a]

/-- HMAC-SHA256 of the delivery's canonical string under the three secrets. -/
def sampleTag (key : List UInt8) : Tag :=
  if key = strBytes firstSecret then
    #v[0xa0, 0x2a, 0xb6, 0xdc, 0x14, 0x1d, 0xc2, 0xd8, 0x5a, 0x69, 0x98, 0x03, 0x8c,
      0xaa, 0x11, 0x84, 0xb5, 0x6d, 0x8a, 0xe9, 0x6b, 0x4b, 0xd9, 0x2e, 0x45, 0x49, 0xba, 0x15,
      0xa0, 0xdd, 0xdd, 0xe8]
  else if key = strBytes rotatedSecret then
    #v[0xc5, 0x8f, 0x54, 0x75, 0xa5, 0xfc, 0x04, 0x47, 0xb2, 0x1e, 0x54, 0x0c, 0xa4,
      0xb8, 0xf4, 0x43, 0x78, 0x62, 0x63, 0xb6, 0xed, 0xe9, 0x91, 0x9e, 0x56, 0x1c, 0x2a, 0x81,
      0x3a, 0x21, 0x7b, 0x44]
  else
    #v[0xc3, 0x27, 0x88, 0xa3, 0x8b, 0x49, 0x9c, 0x1e, 0xcd, 0x81, 0xa5, 0x69, 0x39,
      0x5c, 0x22, 0xd4, 0xe0, 0x3e, 0xb7, 0x93, 0x3c, 0xc2, 0x98, 0x7d, 0xf0, 0x6a, 0xce, 0xdb,
      0x17, 0x53, 0xef, 0x43]

def sampleEventId : String := "11111111-1111-4111-8111-111111111111"

def sampleCanonical : String :=
  canonicalString (fun _ => bodyDigest) 1790000000 sampleEventId (strBytes "\x7b\x7d")

/-- HMAC-SHA256 on that string; on others, a tag for each secret. -/
def sampleHmac (key message : List UInt8) : Tag :=
  if message = strBytes sampleCanonical then sampleTag key
  else if key = strBytes firstSecret then Vector.replicate 32 0
  else if key = strBytes rotatedSecret then Vector.replicate 32 1
  else Vector.replicate 32 2

def sampleEndpoint : Endpoint where
  toWebhookEndpoint :=
    ⟨"e1", "a1", "http://a", .hmac, none, some firstSecret, none, true, 8, none, 0,
    0, 0⟩
  secretRotatedAt := none

def sampleAttempt : WebhookAttempt :=
  enqueue ⟨"w1", "e1", sampleEventId, "message.delivered", "", 0⟩

/-- A rotation with a delivery after it, a switch to `sealed`, one back, and another delivery. -/
def outAndBack : List Action :=
  [.rotate 0 .permitted (Vector.replicate 32 1) 0, .write 0 0 false,
    .readEndpoint 1, .send 1 sampleAttempt "\x7b\x7d" (seconds 1790000000),
    .switch 0 .permitted .sealed (some "receiver") (Vector.replicate 32 0), .write 0 0 false,
    .switch 0 .permitted .hmac none (Vector.replicate 32 2), .write 0 0 false,
    .readEndpoint 1, .send 1 sampleAttempt "\x7b\x7d" (seconds 1790000000)]

theorem sampleHmac_injOn (canonical : String) :
    Set.InjOn (fun key => mac sampleHmac key canonical) {key | key ∈ sampleSecrets} := by
  have htag : ∀ x ∈ sampleSecrets, ∀ y ∈ sampleSecrets,
      sampleTag (strBytes x) = sampleTag (strBytes y) → x = y := by decide +kernel
  have hother : ∀ x ∈ sampleSecrets, ∀ y ∈ sampleSecrets,
      sampleHmac (strBytes x) [] = sampleHmac (strBytes y) [] → x = y := by decide +kernel
  intro x hx y hy hxy
  by_cases hc : strBytes canonical = strBytes sampleCanonical
  · refine htag x hx y hy ?_
    simpa only [mac, sampleHmac, if_pos hc] using hxy
  · refine hother x hx y hy ?_
    have hnil : ([] : List UInt8) ≠ strBytes sampleCanonical := by decide +kernel
    simpa only [mac, sampleHmac, if_neg hc, if_neg hnil] using hxy

theorem rotation_overlap_out_and_back :
    (exec (step (fun _ => bodyDigest) sampleHmac fun _ => none) (start sampleEndpoint)
      outAndBack).map (fun s => s.sent.map Sent.history) =
        some [⟨[laterSecret], [rotatedSecret, firstSecret]⟩, ⟨[rotatedSecret, firstSecret], []⟩] ∧
    Always (step (fun _ => bodyDigest) sampleHmac fun _ => none)
      (fun s => ModeConstraints s.shared.row ∧
        ∀ d ∈ s.sent, Overlap (fun _ => bodyDigest) sampleHmac d)
      (start sampleEndpoint) outAndBack := by
  have hgenerated : Along (step (fun _ => bodyDigest) sampleHmac fun _ => none)
      (fun _ _ s' => s'.generated.Nodup ∧ ∀ key ∈ s'.generated, key ∈ sampleSecrets)
      (start sampleEndpoint) outAndBack := by decide +kernel
  refine ⟨by decide +kernel, rotation_overlap _ _ _ _ _ ⟨rfl, rfl⟩ (by decide +kernel) ?_⟩
  refine hgenerated.imp fun s a s' _ h => ⟨h.1, fun canonical => ?_⟩
  exact (sampleHmac_injOn canonical).mono h.2

end Vsms.Hooks.Secrets
