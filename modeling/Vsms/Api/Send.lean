import Vsms.Core.Chrono
import Vsms.Core.Encoding
import Vsms.Core.Numbers
import Vsms.Core.Pack
import Vsms.Lib.Indexes
import Vsms.Schema.Messages
import Mathlib.Algebra.Order.Ring.Rat

/-! # `previewMessage` and `sendMessage`

`send` decides whether a message may be sent, analyses the body that will be sent, and stores the
row; each of its statements finds the tables as they are at that moment, or fails (`Env`). `preview`
analyses a body without any of that: it normalises it as `send` does, and does not transliterate it,
whatever the app has chosen.

What `send` stores of a message it accepts is read off it by `send_ok`. A preview of the same body
and recipient names the same number; it names the encoding and the parts of the stored message
exactly if the app does not transliterate, or transliterating makes no difference to them
(`preview_agrees_iff`). -/

namespace Vsms.Api.Send

open Vsms.Schema.Types Vsms.Schema.Messages Vsms.Core.Chrono Vsms.Core.Encoding Vsms.Core.Numbers
open Vsms.Lib.Indexes

/-- How a procedure ends without a result. -/
inductive Failure
  | error (e : CratestackError)
  /-- `Validation`, with the text of the error. -/
  | number (e : MsisdnError)
  | panicked
  deriving DecidableEq, Repr

/-! ## Preview -/

structure PreviewInput where
  body : String
  recipient : Option String

structure PreviewResult where
  encoding : Encoding
  segments : ℤ
  length : ℤ
  perSegment : ℤ
  offending : List String
  suggestion : Option String
  operator : OperatorCode
  normalizedTo : Option String
  deriving DecidableEq, Repr

/-- `distinct_offending`: in the order in which they first occur. -/
def distinctOffending (report : EncodingReport) : List String :=
  report.offending.foldl (fun seen offending =>
    let ch := String.ofList [offending.ch]
    if ch ∈ seen then seen else seen ++ [ch]) []

/-- `i64::try_from(..).unwrap_or(i64::MAX)` -/
def toI64 (n : ℕ) : ℤ := min n maxI64

section preview
variable (phones : PhoneLib) (unicode : UnicodeLib)

/-- `Msisdn::parse_mobile`, and its error as the procedures return it. -/
def parseRecipient (to' : String) : Except Failure Msisdn :=
  match parseMobile phones to' with
  | .ok m => .ok m
  | .error e => .error (.number e)

/-- The recipient of a preview: one that is blank is none. -/
def previewRecipient (recipient : Option String) : Except Failure (Option String) :=
  match recipient.filter fun to' => Core.Pack.trim to'.toList ≠ [] with
  | none => .ok none
  | some to' => do
    let m ← parseRecipient phones to'
    .ok (some m.e164)

/-- **`preview`** -/
def preview (args : PreviewInput) : Except Failure PreviewResult := do
  let normalised := normalise unicode args.body.toList
  let report := analyse unicode normalised
  let normalizedTo ← previewRecipient phones args.recipient
  .ok
    { encoding := report.encoding
      segments := report.segments
      length := toI64 report.length
      perSegment := toI64 report.perSegment
      offending := distinctOffending report
      suggestion := report.suggestion.map String.ofList
      operator := .unknown
      normalizedTo := normalizedTo }

end preview

/-! ## The caller -/

/-- A value of a claim: of a list, the items that are strings. -/
inductive Value
  | string (s : String)
  | list (items : List (Option String))
  | other
  deriving DecidableEq, Repr

structure CratestackContext where
  authField : String → Option Value
  extensions : String → Option Value

def fail {α : Type} (e : CratestackError) : Except Failure α := .error (.error e)

/-- `holds` -/
def holds (perms : List String) (scope : Option String) (permission : String) : Bool :=
  permission ∈ perms || scope.any (Core.Pack.contains · permission)

/-- `require_permission` -/
def requirePermission (ctx : CratestackContext) (required : String) : Except Failure Unit :=
  let perms := match ctx.extensions "perms" with
    | some (.list items) => items.filterMap id
    | _ => []
  let scope := match ctx.extensions "scope" with
    | some (.string scope) => some scope
    | _ => none
  if holds perms scope required then .ok ()
  else fail (.forbidden ("missing required permission \"" ++ required ++ "\""))

/-- `caller_client_id` -/
def callerClientId (ctx : CratestackContext) : Except Failure String :=
  match ctx.authField "kind" with
  | some (.string kind) =>
    if kind ≠ "app" then
      fail (.validation
        ("sendMessage currently requires a machine (registered client key) caller — " ++
        "deriving an App for a human caller has no design yet"))
    else
      match ctx.authField "sub" with
      | some (.string sub) => .ok sub
      | _ => fail (.unauthorized "missing sub claim")
  | _ => fail (.unauthorized "missing kind claim")

/-! ## The tables -/

structure App where
  id : String
  active : Bool
  monthlyQuota : ℤ
  defaultSenderIdId : Option String
  transliterateToGsm7 : Bool
  deriving DecidableEq, Repr

structure AppClient where
  clientId : String
  appId : String
  active : Bool

structure ConsentRecord where
  appId : String
  msisdnHash : String
  scope : MessageClass

structure SenderId where
  id : String
  value : String
  active : Bool

structure SenderIdRegistration where
  senderIdId : String
  status : String

structure OperatorPrefixRule where
  /-- `prefix` -/
  leading : String
  operator : OperatorCode
  active : Bool

structure PricedProvider where
  state : ProviderState
  costPerSegmentXaf : ℚ

/-- What `send` reads, each table in the order in which its rows are found. -/
structure Tables where
  apps : List App
  clients : List AppClient
  /-- The hashes of the numbers. -/
  optOuts : List String
  consents : List ConsentRecord
  /-- The app of each message, and when it was created. -/
  messages : List (String × Time)
  senderIds : List SenderId
  registrations : List SenderIdRegistration
  rules : List OperatorPrefixRule
  providers : List PricedProvider

/-- The reads of `send`. -/
inductive Statement
  | appClient
  | app
  | optOut
  | consent
  | quota
  | defaultSender
  | sender
  | registration
  | operators
  | provider
  deriving DecidableEq, Repr

/-- The prefixes, the longest first. -/
structure OperatorPrefixTable where
  entries : List (List Char × String)

def operatorCodeStr : OperatorCode → String
  | .mtn => "mtn"
  | .orange => "orange"
  | .camtel => "camtel"
  | .nexttel => "nexttel"
  | .unknown => "unknown"

def parseOperatorCode (s : String) : Option OperatorCode :=
  [OperatorCode.mtn, .orange, .camtel, .nexttel, .unknown].find? (operatorCodeStr · = s)

/-- `OperatorPrefixTable::new`; the sort is stable. -/
def OperatorPrefixTable.new (rows : List (List Char × String)) : OperatorPrefixTable :=
  ⟨(rows.filter fun row => row.1 ≠ [] && row.1.all Char.isDigit).mergeSort
    fun a b => b.1.length ≤ a.1.length⟩

def OperatorPrefixTable.lookupNational (table : OperatorPrefixTable) (national : List Char) :
    Option String :=
  (table.entries.find? (·.1.isPrefixOf national)).map (·.2)

/-- What a call of `send` meets. -/
structure Env where
  /-- What a statement finds, or why it fails. -/
  read : Statement → Except CratestackError Tables
  /-- The entries of the caches that are fresh. -/
  cachedApp : String → Option App
  cachedOperators : Option OperatorPrefixTable
  /-- `hmac_sha256_hex` under the deployment's pepper. -/
  keyedHash : String → String
  /-- `{:?}` of a string. -/
  debug : String → String
  now : Time
  /-- The id and the creation time of the row. -/
  newId : String
  createdAt : Time
  /-- Why `create` refuses a row: a bound of the schema, an index, or the database. -/
  refuses : NewMessage → Option CratestackError

section send
variable (env : Env)

def Env.tables (statement : Statement) : Except Failure Tables :=
  match env.read statement with
  | .ok tables => .ok tables
  | .error e => fail e

/-- What a query with a limit of one finds, or the error it is turned into. -/
def one {α : Type} (rows : List α) (e : CratestackError) : Except Failure α :=
  match rows with
  | row :: _ => .ok row
  | [] => fail e

/-- `resolve_app`, through its cache. -/
def resolveApp (clientId : String) : Except Failure App :=
  match env.cachedApp clientId with
  | some app => .ok app
  | none => do
    let tables ← env.tables .appClient
    let client ← one (tables.clients.filter fun c => c.clientId = clientId && c.active)
      (.unauthorized "unknown client")
    let tables ← env.tables .app
    one (tables.apps.filter fun a => a.id = client.appId && a.active)
      (.unauthorized "app not found or inactive")

/-- The app of the caller. -/
def callerApp (ctx : CratestackContext) : Except Failure App := do
  let clientId ← callerClientId ctx
  resolveApp env clientId

def requiresRecipientConsentControls : MessageClass → Bool
  | .otp | .transactional => false
  | .notification | .marketing => true

def subjectToQuietHours : MessageClass → Bool
  | .marketing => true
  | .otp | .transactional | .notification => false

/-- `ensure_not_opted_out` -/
def ensureNotOptedOut (msisdnHash : String) : Except Failure Unit := do
  let tables ← env.tables .optOut
  if msisdnHash ∈ tables.optOuts then
    fail (.validation "recipient has opted out of messages from this scope")
  else .ok ()

/-- `is_within_marketing_quiet_hours`: the hour in West Africa Time; `none` if the sum overflows. -/
def isWithinMarketingQuietHours (t : Time) : Option Bool :=
  (addDuration t (hours 1)).map fun wat => 8 ≤ hour wat && hour wat < 20

/-- `ensure_within_marketing_quiet_hours` -/
def ensureWithinMarketingQuietHours (delivery : Time) : Except Failure Unit :=
  match isWithinMarketingQuietHours delivery with
  | none => .error .panicked
  | some true => .ok ()
  | some false =>
    fail (.validation ("marketing messages are only sent between 08:00 and 20:00 WAT " ++
      "(self-imposed quiet hours, docs/architecture.md §10) — schedule this send for that " ++
      "window instead"))

def classText : MessageClass → String
  | .otp => "otp"
  | .transactional => "transactional"
  | .notification => "notification"
  | .marketing => "marketing"

/-- `ensure_consent_on_file` -/
def ensureConsentOnFile (appId msisdnHash : String) (messageClass : MessageClass) :
    Except Failure Unit := do
  let tables ← env.tables .consent
  if tables.consents.any fun r =>
      r.appId = appId && r.msisdnHash = msisdnHash && r.scope = messageClass then
    .ok ()
  else
    fail (.validation ("no consent record on file for this recipient for " ++
      classText messageClass ++
        " messages — Law No. 2024/017 requires opt-in consent before this class may be sent"))

/-- `ensure_within_quota` -/
def ensureWithinQuota (app : App) : Except Failure Unit := do
  let tables ← env.tables .quota
  let sentThisMonth := tables.messages.countP fun m => m.1 = app.id && monthStart env.now ≤ m.2
  if (sentThisMonth : ℤ) < app.monthlyQuota then .ok ()
  else fail (.validation ("monthly quota of " ++ toString app.monthlyQuota ++ " messages exceeded"))

/-- The sender the caller names, or the app's own. -/
def requestedSender (app : App) (requested : Option String) : Except Failure String :=
  match requested with
  | some value => .ok value
  | none =>
    match app.defaultSenderIdId with
    | none => fail (.validation "no senderId given and this app has no default sender")
    | some defaultId => do
      let tables ← env.tables .defaultSender
      let sender ← one (tables.senderIds.filter (·.id = defaultId))
        (.validation "this app's default sender id no longer exists")
      .ok sender.value

/-- `resolve_sender_id` -/
def resolveSenderId (app : App) (requested : Option String) : Except Failure String := do
  let value ← requestedSender env app requested
  let tables ← env.tables .sender
  let sender ← one (tables.senderIds.filter fun s => s.value = value && s.active)
    (.validation ("sender id " ++ env.debug value ++ " is not a registered sender"))
  let tables ← env.tables .registration
  if tables.registrations.any fun r => r.senderIdId = sender.id && r.status = "approved" then
    .ok value
  else
    fail (.validation
      ("sender id " ++ env.debug value ++ " has no approved provider registration"))

/-- `operator_table`, through its cache. -/
def operatorTable : Except Failure OperatorPrefixTable :=
  match env.cachedOperators with
  | some table => .ok table
  | none => do
    let tables ← env.tables .operators
    .ok (.new ((tables.rules.filter (·.active)).map fun row =>
      (row.leading.toList, operatorCodeStr row.operator)))

/-- `classify_operator` -/
def classifyOperator (m : Msisdn) : Except Failure OperatorCode := do
  let table ← operatorTable env
  .ok (((table.lookupNational m.national.toList).bind parseOperatorCode).getD .unknown)

/-- What a part costs at the cheapest active provider. -/
def Tables.cheapest (tables : Tables) : ℚ :=
  ((tables.providers.filter (·.state = .active)).map (·.costPerSegmentXaf)).min?.getD 0

/-- `estimate_cost` -/
def estimateCost (segments : ℤ) : Except Failure ℚ := do
  let tables ← env.tables .provider
  .ok (tables.cheapest * segments)

/-! ## Send -/

structure SendMessageInput where
  recipient : String
  body : String
  senderId : Option String
  messageClass : Option MessageClass
  clientRef : Option String
  scheduledAt : Option Time
  validityMinutes : Option ℤ

structure SendMessageResult where
  messageId : String
  state : MessageState
  encoding : Encoding
  segments : ℤ
  operator : OperatorCode
  estimatedCostXaf : ℚ

/-- The length of time in which the message may be sent; `none` if it overflows. -/
def validityOf (args : SendMessageInput) (messageClass : MessageClass) : Option Time :=
  match args.validityMinutes with
  | some n => durationMinutes n
  | none =>
    match messageClass with
    | .otp => some (minutes 15)
    | .transactional | .notification | .marketing => some (hours 24)

/-- `scheduledAt.unwrap_or(now) + validity` -/
def expiryOf (args : SendMessageInput) (messageClass : MessageClass) : Except Failure Time :=
  match (validityOf args messageClass).bind (addDuration (args.scheduledAt.getD env.now)) with
  | some expiresAt => .ok expiresAt
  | none => .error .panicked

/-- The checks on the recipient, the app and the time, before anything else is decided. -/
def ensureSendable (app : App) (args : SendMessageInput) (messageClass : MessageClass)
    (msisdnHash : String) :
    Except Failure Unit := do
  if requiresRecipientConsentControls messageClass then ensureNotOptedOut env msisdnHash else .ok ()
  if subjectToQuietHours messageClass then
    ensureWithinMarketingQuietHours (args.scheduledAt.getD env.now)
  else .ok ()
  if requiresRecipientConsentControls messageClass then
    ensureConsentOnFile env app.id msisdnHash messageClass
  else .ok ()
  ensureWithinQuota env app

variable (phones : PhoneLib) (unicode : UnicodeLib)

/-- The body that is sent. -/
def sentBody (app : App) (body : String) : List Char :=
  let normalised := normalise unicode body.toList
  if app.transliterateToGsm7 then (transliterateToGsm7 unicode normalised).1 else normalised

/-- `db.message().create(..)` -/
def create (c : NewMessage) : Except Failure Message :=
  match env.refuses c with
  | some e => fail e
  | none => .ok (accept c)

/-- **`send`**: the row it stores, and what it answers. -/
def send (ctx : CratestackContext) (args : SendMessageInput) :
    Except Failure (Message × SendMessageResult) := do
  requirePermission ctx "sms:send"
  let app ← callerApp env ctx
  let msisdn ← parseRecipient phones args.recipient
  let msisdnHash := env.keyedHash msisdn.e164
  let messageClass := args.messageClass.getD .transactional
  ensureSendable env app args messageClass msisdnHash
  let senderIdValue ← resolveSenderId env app args.senderId
  let body := sentBody unicode app args.body
  let report := analyse unicode body
  let operator ← classifyOperator env msisdn
  let segments : ℤ := report.segments
  let estimatedCost ← estimateCost env segments
  let expiresAt ← expiryOf env args messageClass
  let message ← create env
    { id := env.newId
      appId := app.id
      clientRef := args.clientRef
      msisdn := msisdn.e164
      msisdnHash := msisdnHash
      operator := operator
      senderIdValue := senderIdValue
      messageClass := messageClass
      body := String.ofList body
      bodyHash := env.keyedHash (String.ofList body)
      bodyLength := toI64 (String.ofList body).utf8ByteSize
      encoding := report.encoding
      segments := segments
      scheduledAt := args.scheduledAt
      expiresAt := expiresAt
      createdAt := env.createdAt }
  .ok (message,
    { messageId := message.id
      state := message.state
      encoding := message.encoding
      segments := message.segments
      operator := message.operator
      estimatedCostXaf := estimatedCost })

/-! ## What a message that is accepted is -/

variable {env phones unicode} {ctx : CratestackContext} {args : SendMessageInput}
    {message : Message}
  {result : SendMessageResult}

theorem create_ok {c : NewMessage} (h : create env c = .ok message) : message = accept c := by
  unfold create at h
  split at h
  · exact absurd h (by simp [fail])
  · exact (Except.ok.inj h).symm

theorem parseRecipient_ok {input : String} {m : Msisdn} (h : parseRecipient phones input = .ok m) :
    parseMobile phones input = .ok m := by
  unfold parseRecipient at h
  split at h
  · next hm => rw [hm, Except.ok.inj h]
  · exact absurd h (by simp)

theorem estimateCost_ok {segments : ℤ} {cost : ℚ} (h : estimateCost env segments = .ok cost) :
    ∃ tables, env.read .provider = .ok tables ∧ cost = tables.cheapest * segments := by
  obtain ⟨tables, htables, h⟩ := bind_ok.mp h
  refine ⟨tables, ?_, (Except.ok.inj h).symm⟩
  unfold Env.tables at htables
  split at htables
  · next hread => rw [hread, Except.ok.inj htables]
  · exact absurd htables (by simp [fail])

/-- **What `send` has decided** when it accepts a message, and the row it stores for that. -/
theorem send_accepts (h : send env phones unicode ctx args = .ok (message, result)) :
    ∃ app msisdn tables row, callerApp env ctx = .ok app ∧
      parseMobile phones args.recipient = .ok msisdn ∧
      ensureSendable env app args (args.messageClass.getD .transactional)
        (env.keyedHash msisdn.e164) = .ok () ∧
      expiryOf env args (args.messageClass.getD .transactional) = .ok row.expiresAt ∧
      message = accept row ∧ row.msisdn = msisdn.e164 ∧
      row.encoding = (analyse unicode (sentBody unicode app args.body)).encoding ∧
      row.segments = (analyse unicode (sentBody unicode app args.body)).segments ∧
      row.scheduledAt = args.scheduledAt ∧
      env.read .provider = .ok tables ∧
      result.estimatedCostXaf = tables.cheapest * row.segments := by
  obtain ⟨-, -, h⟩ := bind_ok.mp h
  obtain ⟨app, happ, h⟩ := bind_ok.mp h
  obtain ⟨msisdn, hmsisdn, h⟩ := bind_ok.mp h
  obtain ⟨_, hsendable, h⟩ := bind_ok.mp h
  obtain ⟨senderIdValue, -, h⟩ := bind_ok.mp h
  obtain ⟨operator, -, h⟩ := bind_ok.mp h
  obtain ⟨cost, hcost, h⟩ := bind_ok.mp h
  obtain ⟨expiresAt, hexpires, h⟩ := bind_ok.mp h
  obtain ⟨stored, hstored, h⟩ := bind_ok.mp h
  obtain ⟨tables, htables, hprice⟩ := estimateCost_ok hcost
  obtain ⟨rfl, rfl⟩ := Prod.mk.inj (Except.ok.inj h)
  exact ⟨app, msisdn, tables, _, happ, parseRecipient_ok hmsisdn, hsendable, hexpires,
    create_ok hstored, rfl, rfl, rfl, rfl, htables, hprice⟩

/-- **What is stored** of an accepted message: the number it is for, and the encoding and the parts
of the body that is sent, which are also priced. -/
theorem send_ok (h : send env phones unicode ctx args = .ok (message, result)) :
    ∃ app msisdn tables, callerApp env ctx = .ok app ∧
      parseMobile phones args.recipient = .ok msisdn ∧ message.msisdn = msisdn.e164 ∧
      message.encoding = (analyse unicode (sentBody unicode app args.body)).encoding ∧
      message.segments = (analyse unicode (sentBody unicode app args.body)).segments ∧
      env.read .provider = .ok tables ∧
      result.estimatedCostXaf = tables.cheapest * message.segments := by
  obtain ⟨app, msisdn, tables, row, happ, hmsisdn, -, -, rfl, hto, hencoding, hsegments, -,
      htables, hprice⟩ :=
    send_accepts h
  exact ⟨app, msisdn, tables, happ, hmsisdn, hto, hencoding, hsegments, htables, hprice⟩

/-! ## Preview and send -/

theorem isWhitespace_of_isDigit {c : Char} (h : c.isDigit = true) :
    Core.Pack.isWhitespace c = false := by
  have hrange : 48 ≤ c.toNat ∧ c.toNat ≤ 57 := Char.isDigit_iff_toNat.mp h
  unfold Core.Pack.isWhitespace
  simp
  omega

variable (unicode) in
/-- **A preview of an accepted message's recipient names the number that is stored.** -/
theorem preview_ok {msisdn : Msisdn} (h : parseMobile phones args.recipient = .ok msisdn) :
    ∃ r, preview phones unicode ⟨args.body, some args.recipient⟩ = .ok r ∧
      r.encoding = (analyse unicode (normalise unicode args.body.toList)).encoding ∧
      r.segments = (analyse unicode (normalise unicode args.body.toList)).segments ∧
      r.normalizedTo = some msisdn.e164 := by
  obtain ⟨c, hc, hdigit⟩ := parseMobile_isDigit h
  have hblank : Core.Pack.trim args.recipient.toList ≠ [] :=
    Core.Pack.trim_ne_nil hc (isWhitespace_of_isDigit hdigit)
  have hrecipient : previewRecipient phones (some args.recipient) = .ok (some msisdn.e164) := by
    simp [previewRecipient, Option.filter, hblank, parseRecipient, h, bind, Except.bind]
  refine ⟨_, bind_ok.mpr ⟨_, hrecipient, rfl⟩, rfl, rfl, rfl⟩

/-- **A preview agrees with the message that is sent exactly if the app does not transliterate, or
the body is one that transliterating keeps in its encoding and parts.** -/
theorem preview_agrees_iff (h : send env phones unicode ctx args = .ok (message, result))
    {app : App} (happ : callerApp env ctx = .ok app) :
    (∃ r tables, preview phones unicode ⟨args.body, some args.recipient⟩ = .ok r ∧
      r.encoding = message.encoding ∧ r.segments = message.segments ∧
      env.read .provider = .ok tables ∧ result.estimatedCostXaf = tables.cheapest * r.segments ∧
      r.normalizedTo = some message.msisdn) ↔
      (app.transliterateToGsm7 = false ∨
        KeepsParts unicode (normalise unicode args.body.toList)) := by
  obtain ⟨app', msisdn, tables, happ', hmsisdn, hstored, hencoding, hsegments, htables, hprice⟩ :=
    send_ok h
  obtain rfl : app' = app := Except.ok.inj (happ'.symm.trans happ)
  obtain ⟨r, hr, hrencoding, hrsegments, hrto⟩ := preview_ok unicode hmsisdn
  have hsame : (r.encoding = message.encoding ∧ r.segments = message.segments) ↔
      (app'.transliterateToGsm7 = false ∨
        KeepsParts unicode (normalise unicode args.body.toList)) := by
    rw [hrencoding, hrsegments, hencoding, hsegments, ← analyse_transliterate_iff, Nat.cast_inj]
    unfold sentBody
    rcases app'.transliterateToGsm7 with _ | _ <;> simp
  rw [← hsame]
  constructor
  · rintro ⟨r', tables', hr', hencoding', hsegments', -⟩
    obtain rfl : r' = r := Except.ok.inj (hr'.symm.trans hr)
    exact ⟨hencoding', hsegments'⟩
  · rintro ⟨hencoding', hsegments'⟩
    refine ⟨r, tables, hr, hencoding', hsegments', htables, ?_, ?_⟩
    · rw [hprice, hsegments']
    · rw [hrto, hstored]

end send

section runs

/-- Cameroon's plan, of which every number is a mobile one. -/
def samplePlan : Metadata where
  id := "CM"
  general := ⟨fun _ => true, "[26][0-9]+", [9]⟩
  fixedLine := none
  mobile := some ⟨fun _ => true, "6[0-9]+", [9]⟩
  tollFree := none
  premiumRate := none
  sharedCost := none
  personalNumber := none
  voip := none
  pager := none
  uan := none
  voicemail := none

def samplePhones : PhoneLib where
  parse _ _ := .ok ⟨237, 0, 677123456⟩
  metadata _ := some samplePlan
  region id := some id

/-- On the characters below, none of which has a decomposition. -/
def sampleUnicode : UnicodeLib := ⟨id, fun c => [c]⟩

/-- An app that transliterates. -/
def sampleApp : App := ⟨"app1", true, 1000, none, true⟩

def sampleEnv : Env where
  read _ := .ok
    { apps := [sampleApp]
      clients := [⟨"appc_1", "app1", true⟩]
      optOuts := []
      consents := []
      messages := []
      senderIds := [⟨"s1", "VSMS", true⟩]
      registrations := [⟨"s1", "approved"⟩]
      rules := []
      providers := [⟨.active, 22⟩] }
  cachedApp _ := none
  cachedOperators := some ⟨[("67".toList, "mtn")]⟩
  keyedHash input := "v1:" ++ input
  debug value := value
  now := 0
  newId := "m1"
  createdAt := 0
  refuses _ := none

def sampleCtx : CratestackContext where
  authField name := if name = "kind" then some (.string "app") else some (.string "appc_1")
  extensions name := if name = "scope" then some (.string " sms:send ") else none

def sampleInput (body : String) : SendMessageInput :=
  ⟨"677123456", body, some "VSMS", none, none, none, none⟩

/-- A body in the alphabet. -/
theorem preview_agrees_plain : ∃ message result,
    send sampleEnv samplePhones sampleUnicode sampleCtx (sampleInput "code 4821") =
      .ok (message, result) ∧
      ∃ r tables, preview samplePhones sampleUnicode ⟨"code 4821", some "677123456"⟩ = .ok r ∧
        r.encoding = message.encoding ∧ r.segments = message.segments ∧
        sampleEnv.read .provider = .ok tables ∧
        result.estimatedCostXaf = tables.cheapest * r.segments ∧
        r.normalizedTo = some message.msisdn :=
  ⟨_, _, rfl,
    (@preview_agrees_iff sampleEnv samplePhones sampleUnicode sampleCtx (sampleInput "code 4821")
    _ _ rfl sampleApp rfl).mpr (Or.inr (Or.inl (by decide)))⟩

/-- `œ` is not in the alphabet, and the app has it written as two letters: the message is sent in
GSM-7, and the preview says UCS-2. -/
theorem preview_of_transliterated : ∃ message result,
    send sampleEnv samplePhones sampleUnicode sampleCtx (sampleInput "cœur") =
      .ok (message, result) ∧
      message.encoding = .gsm7 ∧
      ¬ ∃ r, preview samplePhones sampleUnicode ⟨"cœur", some "677123456"⟩ = .ok r ∧
        r.encoding = message.encoding := by
  refine ⟨_, _, rfl, rfl, ?_⟩
  rintro ⟨r, hr, hencoding⟩
  rw [← Except.ok.inj hr] at hencoding
  exact absurd hencoding (by decide)

end runs

end Vsms.Api.Send
