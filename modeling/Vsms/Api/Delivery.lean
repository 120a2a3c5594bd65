import Vsms.Api.Lookups
import Vsms.Api.Send
import Mathlib.Data.List.Sort

/-! # Delivery lookups

`lookup` reads under a context that sees every app: what a caller is shown is decided by the plan
that `LookupPlan::from_args` makes of the arguments, and by the filter that `message_filter` makes
of the plan.

An app key's plan always names its own app, so the filter picks among that app's messages, the
receipts are those of the messages picked, and the budget counts the caller's own rows: what the
other apps have does not show in the answer (`lookup_congr`). A lookup by number reads messages that
are not purged and at most ninety days old, newest first, one more than it returns
(`lookup_confined`). -/

namespace Vsms.Api.Delivery

open Vsms.Schema.Types Vsms.Schema.Messages Vsms.Core.Chrono Vsms.Core.Numbers Vsms.Lib.Indexes
open Vsms.Api.Lookups (Asker Key Caller DeliveryLookup DeliveryLookupOutcome account settle counted
  budgetedLookupsPerHour)
open Vsms.Api.Send (CratestackContext Failure fail)

/-! ## The plan -/

structure DeliveryStatusQuery where
  messageId : Option String
  appId : Option String
  clientRef : Option String
  msisdn : Option String
  since : Option Time
  «until» : Option Time
  limit : Option ℤ
  deriving DecidableEq, Repr

structure LookupPlan where
  key : Key
  appId : Option String
  since : Option Time
  «until» : Option Time
  limit : ℤ
  deriving DecidableEq, Repr

def defaultLimit : ℤ := 10

def maxLimit : ℤ := 50

def defaultWindowDays : ℤ := 7

def maxWindowDays : ℤ := 90

/-- A cuid is lowercase alphanumeric, 2 to 32 characters. -/
def isCuid (value : String) : Bool :=
  2 ≤ value.utf8ByteSize && value.utf8ByteSize ≤ 32 && value.toList.all fun c =>
    c.isLower || c.isDigit

def invalid {α : Type} (message : String) : Except Failure α := fail (.validation message)

theorem invalid_ne_ok {α : Type} (message : String) (a : α) : invalid message ≠ .ok a := by
    simp [invalid, fail]

/-- Exactly one of the three keys is named. -/
def oneKey (args : DeliveryStatusQuery) : Except Failure Unit :=
  if ([args.messageId.isSome, args.clientRef.isSome, args.msisdn.isSome].filter id).length ≠ 1 then
    invalid "name exactly one of messageId, clientRef or msisdn"
  else .ok ()

/-- The app every row must belong to. -/
def planApp (args : DeliveryStatusQuery) : Asker → Except Failure (Option String)
  | .app appId =>
    match args.appId with
    | none => .ok (some appId)
    | some named =>
      if named = appId then .ok (some appId)
      else invalid "an app key looks up its own app's messages only"
  | .person => .ok args.appId

/-- An app that is named has the shape of an id. -/
def ensureAppId (appId : Option String) : Except Failure Unit :=
  if appId.all isCuid then .ok () else invalid "appId is not an id"

def planKey (phones : PhoneLib) (args : DeliveryStatusQuery) (appId : Option String) :
    Except Failure Key :=
  match args.messageId with
  | some id => if isCuid id then .ok (.messageId id) else invalid "messageId is not an id"
  | none =>
    match args.clientRef with
    | some reference =>
      if Core.Pack.trim reference.toList = [] then invalid "clientRef must not be blank"
      else if appId.isNone then invalid "a clientRef belongs to one app: name it with appId"
      else .ok (.clientRef reference)
    | none =>
      match parseMobile phones (args.msisdn.getD "") with
      | .ok number => .ok (.msisdn number.e164)
      | .error _ => invalid "msisdn is not a valid mobile number"

def planLimit (args : DeliveryStatusQuery) : Except Failure ℤ :=
  let limit := args.limit.getD defaultLimit
  if 1 ≤ limit ∧ limit ≤ maxLimit then .ok limit else invalid "limit must be between 1 and 50"

/-- The window as it is asked for; the default of `since` is computed whether it is needed or not.
-/
def planWindow (args : DeliveryStatusQuery) (now : Time) :
    Key → Except Failure (Option Time × Option Time)
  | .messageId _ => .ok (args.since, args.until)
  | _ =>
    let until' := args.until.getD now
    match subDuration until' (days defaultWindowDays) with
    | none => .error .panicked
    | some start => .ok (some (args.since.getD start), some until')

def ensureWindow (key : Key) (now since until' : Time) : Except Failure Unit :=
  if until' < since then invalid "since is after until"
  else if days maxWindowDays < until' - since then
    invalid "the window may not be wider than 90 days"
  else
    match key with
    | .msisdn _ =>
      match subDuration now (days maxWindowDays) with
      | none => .error .panicked
      | some earliest =>
        if since < earliest then invalid "a lookup by number may not start more than 90 days ago"
          else .ok ()
    | _ => .ok ()

/-- The window's bounds are checked if it has both. -/
def ensureWindowOf (key : Key) (now : Time) : Option Time → Option Time → Except Failure Unit
  | some since, some until' => ensureWindow key now since until'
  | _, _ => .ok ()

/-- **`LookupPlan::from_args`** -/
def LookupPlan.fromArgs (phones : PhoneLib) (args : DeliveryStatusQuery) (asker : Asker)
    (now : Time) :
    Except Failure LookupPlan := do
  oneKey args
  let appId ← planApp args asker
  ensureAppId appId
  let key ← planKey phones args appId
  let limit ← planLimit args
  let window ← planWindow args now key
  ensureWindowOf key now window.1 window.2
  .ok ⟨key, appId, window.1, window.2, limit⟩

/-- A claim that is a text. -/
def field (ctx : CratestackContext) (name : String) : Option String :=
  match ctx.authField name with
  | some (.string value) => some value
  | _ => none

/-- **`Caller::of`** -/
def callerOf (ctx : CratestackContext) : Except Failure Caller :=
  match (field ctx "sub").filter (· ≠ "") with
  | none => fail (.forbidden "a delivery lookup needs a caller identity")
  | some sub =>
    let role := (field ctx "role").getD ""
    let kind := (field ctx "kind").getD ""
    if kind = "app" then
      match (field ctx "appId").filter (· ≠ "") with
      | none => fail (.forbidden "an app key without an app cannot look up messages")
      | some appId => .ok ⟨sub, role, .app appId⟩
    else if kind = "user" then .ok ⟨sub, role, .person⟩
    else fail (.forbidden "a delivery lookup needs a person or an app key")

/-! ## The answer -/

structure DeliveryReceipt where
  id : String
  messageId : String
  providerId : String
  outcome : ReceiptOutcome
  rawStatus : String
  errorCode : Option String
  networkCode : OperatorCode
  receivedAt : Time
  occurredAt : Option Time
  deriving DecidableEq, Repr

structure DeliveryReceiptSummary where
  id : String
  providerId : String
  outcome : ReceiptOutcome
  rawStatus : String
  errorCode : Option String
  networkCode : OperatorCode
  receivedAt : Time
  occurredAt : Option Time
  deriving DecidableEq, Repr

structure DeliveryStatus where
  messageId : String
  appId : String
  recipient : Option String
  operator : OperatorCode
  senderIdValue : String
  messageClass : MessageClass
  encoding : Encoding
  segments : ℤ
  state : MessageState
  attempts : ℤ
  acceptedAt : Time
  scheduledAt : Option Time
  submittedAt : Option Time
  finalizedAt : Option Time
  expiresAt : Time
  purged : Bool
  lastReceipt : Option DeliveryReceiptSummary
  deriving DecidableEq, Repr

structure DeliveryStatusResult where
  statuses : List DeliveryStatus
  truncated : Bool
  deriving DecidableEq, Repr

/-- The tables, each in the order in which its rows are read. -/
structure Database where
  messages : List Message
  receipts : List DeliveryReceipt
  lookups : List DeliveryLookup

/-- The statements of `lookup`. -/
inductive Statement
  | claim
  | count
  | refuse
  | messages
  | receipts
  | settle
  | record
  deriving DecidableEq, Repr

structure Env where
  phones : PhoneLib
  /-- `hmac_sha256_hex` under the deployment's pepper. -/
  hmac : String → String
  /-- Why a statement fails. -/
  faults : Statement → Option CratestackError
  /-- What the trigger on `delivery_lookups` raises. -/
  guarded : CratestackError
  /-- When the row of the call is created. -/
  createdAt : Time

section answer
variable (env : Env)

def Env.run {α : Type} (statement : Statement) (result : α) : Except Failure α :=
  match env.faults statement with
  | some e => fail e
  | none => .ok result

/-- **`message_filter`** -/
def messageFilter (plan : LookupPlan) (m : Message) : Bool :=
  (match plan.key with
    | .messageId id => decide (m.id = id)
    | .clientRef reference => decide (m.idempotencyKey = some reference)
    | .msisdn e164 => decide (m.msisdnHash = env.hmac e164) && m.purgedAt.isNone) &&
  plan.appId.all (· = m.appId) && plan.since.all (· ≤ m.createdAt) &&
    plan.until.all (m.createdAt ≤ ·)

/-- `recipient` -/
def recipient (row : Message) : Option String :=
  if row.purgedAt.isSome then none else (parse env.phones row.msisdn).toOption.map Msisdn.masked

def summary (row : DeliveryReceipt) : DeliveryReceiptSummary where
  id := row.id
  providerId := row.providerId
  outcome := row.outcome
  rawStatus := row.rawStatus
  errorCode := row.errorCode
  networkCode := row.networkCode
  receivedAt := row.receivedAt
  occurredAt := row.occurredAt

/-- **`status`** -/
def status (row : Message) (lastReceipt : Option DeliveryReceiptSummary) : DeliveryStatus where
  messageId := row.id
  appId := row.appId
  recipient := recipient env row
  operator := row.operator
  senderIdValue := row.senderIdValue
  messageClass := row.messageClass
  encoding := row.encoding
  segments := row.segments
  state := row.state
  attempts := row.attempts
  acceptedAt := row.createdAt
  scheduledAt := row.scheduledAt
  submittedAt := row.submittedAt
  finalizedAt := row.finalizedAt
  expiresAt := row.expiresAt
  purged := row.purgedAt.isSome
  lastReceipt := lastReceipt

/-- The loop of `newest_receipts`: the first row of a message is its newest. -/
def newestOf (rows : List DeliveryReceipt) : List (String × DeliveryReceiptSummary) :=
  rows.foldl (fun newest row =>
    if newest.any (·.1 = row.messageId) then newest
      else newest ++ [(row.messageId, summary row)]) []

/-- `newest_receipts` -/
def newestReceipts (receipts : List DeliveryReceipt) (ids : List String) :
    Except Failure (List (String × DeliveryReceiptSummary)) :=
  if ids = [] then .ok []
  else do
    let rows ← env.run .receipts ((receipts.filter (·.messageId ∈ ids)).mergeSort
      fun a b => b.receivedAt ≤ a.receivedAt)
    .ok (newestOf rows)

/-- The statuses; a receipt is taken out of the map as it is used. -/
def statuses : List Message → List (String × DeliveryReceiptSummary) → List DeliveryStatus
  | [], _ => []
  | row :: rows, receipts =>
    status env row ((receipts.find? (·.1 = row.id)).map (·.2)) ::
      statuses rows (receipts.filter (·.1 ≠ row.id))

/-- `ORDER BY created_at DESC` -/
def newestFirst (rows : List Message) : List Message :=
  rows.mergeSort fun a b => b.createdAt ≤ a.createdAt

/-- The messages of a plan, one more than it returns. -/
def foundRows (db : Database) (plan : LookupPlan) : List Message :=
  (newestFirst (db.messages.filter (messageFilter env plan))).take (plan.limit + 1).toNat

/-- What `lookup` reads and makes of it. -/
def answer (db : Database) (plan : LookupPlan) : Except Failure DeliveryStatusResult := do
  let found ← env.run .messages (foundRows env db plan)
  let truncated := decide (plan.limit.toNat < found.length)
  let rows := found.take plan.limit.toNat
  let receipts ← newestReceipts env db.receipts (rows.map (·.id))
  .ok ⟨statuses env rows receipts, truncated⟩

/-! ## The call -/

/-- What the audit row records of the plan. -/
def LookupPlan.recorded (plan : LookupPlan) : Lookups.LookupPlan := ⟨plan.key, plan.appId⟩

/-- An id that no row has. -/
def freshId (rows : List DeliveryLookup) : ℕ := rows.foldr (fun r n => max (r.id + 1) n) 0

/-- The outcome of a statement, and the table of lookups after it. -/
abbrev Outcome (α : Type) := Except Failure α × List DeliveryLookup

/-- `settle`, as a statement. -/
def settled {α : Type} (statement : Statement) (rows : List DeliveryLookup) (id : ℕ)
    (outcome : DeliveryLookupOutcome) (resultCount : Option ℕ) (result : Except Failure α) :
    Outcome α :=
  match env.faults statement with
  | some e => (fail e, rows)
  | none =>
    match settle rows id outcome resultCount with
    | some rows => (result, rows)
    | none => (fail env.guarded, rows)

def exhausted : CratestackError :=
  .forbidden "delivery lookup budget exhausted: 60 lookups by number or reference per hour"

/-- **`claim_budget`** -/
def claimBudget (rows : List DeliveryLookup) (caller : Caller) (plan : LookupPlan) (now : Time) :
    Outcome ℕ :=
  match env.faults .claim with
  | some e => (fail e, rows)
  | none =>
    let id := freshId rows
    let rows := rows ++ [account env.hmac caller plan.recorded .pending none id env.createdAt]
    match subDuration now (hours 1), env.faults .count with
    | none, _ => (.error .panicked, rows)
    | some _, some e => (fail e, rows)
    | some _, none =>
      if budgetedLookupsPerHour < rows.countP (counted caller now) then
        settled env .refuse rows id .overBudget none (fail exhausted)
      else (.ok id, rows)

/-- The answer leaves only once it is accounted for. -/
def recordAnswer (rows : List DeliveryLookup) (caller : Caller) (plan : LookupPlan)
    (claimed : Option ℕ) (result : DeliveryStatusResult) : Outcome DeliveryStatusResult :=
  match claimed with
  | some id => settled env .settle rows id .answered (some result.statuses.length) (.ok result)
  | none =>
    match env.faults .record with
    | some e => (fail e, rows)
    | none => (.ok result, rows ++
        [account env.hmac caller plan.recorded .answered (some result.statuses.length)
          (freshId rows)
          env.createdAt])

/-- The read and its record, once the lookup may go on. -/
def answered (db : Database) (rows : List DeliveryLookup) (caller : Caller) (plan : LookupPlan)
    (claimed : Option ℕ) : Outcome DeliveryStatusResult :=
  match answer env db plan with
  | .error e => (.error e, rows)
  | .ok result => recordAnswer env rows caller plan claimed result

/-- **`lookup`** -/
def lookup (db : Database) (ctx : CratestackContext) (args : DeliveryStatusQuery) (now : Time) :
    Outcome DeliveryStatusResult :=
  match callerOf ctx with
  | .error e => (.error e, db.lookups)
  | .ok caller =>
    match LookupPlan.fromArgs env.phones args caller.asker now with
    | .error e => (.error e, db.lookups)
    | .ok plan =>
      if caller.budgeted plan.key then
        match claimBudget env db.lookups caller plan now with
        | (.error e, rows) => (.error e, rows)
        | (.ok id, rows) => answered env db rows caller plan (some id)
      else answered env db db.lookups caller plan none

end answer

/-! ## What the plan says -/

section plan
variable {phones : PhoneLib} {args : DeliveryStatusQuery} {asker : Asker} {now : Time}
    {plan : LookupPlan}

/-- **The plan's parts.** -/
theorem fromArgs_ok (h : LookupPlan.fromArgs phones args asker now = .ok plan) :
    oneKey args = .ok () ∧ planApp args asker = .ok plan.appId ∧
      planKey phones args plan.appId = .ok plan.key ∧ planLimit args = .ok plan.limit ∧
      planWindow args now plan.key = .ok (plan.since, plan.until) ∧
      ∀ since until', plan.since = some since → plan.until = some until' →
        ensureWindow plan.key now since until' = .ok () := by
  obtain ⟨⟨⟩, hone, h⟩ := bind_ok.mp h
  obtain ⟨appId, happ, h⟩ := bind_ok.mp h
  obtain ⟨-, -, h⟩ := bind_ok.mp h
  obtain ⟨key, hkey, h⟩ := bind_ok.mp h
  obtain ⟨limit, hlimit, h⟩ := bind_ok.mp h
  obtain ⟨⟨since, until'⟩, hwindow, h⟩ := bind_ok.mp h
  obtain ⟨⟨⟩, hensure, h⟩ := bind_ok.mp h
  rw [← Except.ok.inj h]
  refine ⟨hone, happ, hkey, hlimit, hwindow, fun since₀ until₀ hsince huntil => ?_⟩
  simp only at hsince huntil hensure
  rw [hsince, huntil] at hensure
  exact hensure

/-- **An app key's plan names its own app.** -/
theorem planApp_app {appId : String} {named : Option String}
    (h : planApp args (.app appId) = .ok named) :
    named = some appId := by
  dsimp only [planApp] at h
  split at h
  · exact (Except.ok.inj h).symm
  · split_ifs at h
    · exact (Except.ok.inj h).symm
    · exact absurd h (invalid_ne_ok _ _)

theorem planLimit_ok {limit : ℤ} (h : planLimit args = .ok limit) :
    limit = args.limit.getD defaultLimit ∧ 1 ≤ limit := by
  dsimp only [planLimit] at h
  split_ifs at h with hrange
  · rw [← Except.ok.inj h]
    exact ⟨rfl, hrange.1⟩
  · exact absurd h (invalid_ne_ok _ _)

/-- A query that names a number is planned by that number. -/
theorem planKey_msisdn {appId : Option String} {key : Key} (hone : oneKey args = .ok ())
    (hmsisdn : args.msisdn.isSome = true) (h : planKey phones args appId = .ok key) :
    ∃ e164, key = .msisdn e164 := by
  have hothers : args.messageId = none ∧ args.clientRef = none := by
    unfold oneKey at hone
    split_ifs at hone with hcount
    · exact absurd hone (invalid_ne_ok _ _)
    · rcases hid : args.messageId with _ | _
      · rcases href : args.clientRef with _ | _
        · exact ⟨rfl, rfl⟩
        · simp [hid, href, hmsisdn] at hcount
      · rcases href : args.clientRef with _ | _ <;> simp [hid, href, hmsisdn] at hcount
  unfold planKey at h
  rw [hothers.1, hothers.2] at h
  dsimp only at h
  split at h
  · next number _ => exact ⟨number.e164, (Except.ok.inj h).symm⟩
  · exact absurd h (invalid_ne_ok _ _)

/-- **A lookup by number starts at most ninety days ago.** -/
theorem plan_since (h : LookupPlan.fromArgs phones args asker now = .ok plan) {e164 : String}
    (hkey : plan.key = .msisdn e164) :
    ∃ since, plan.since = some since ∧ now - days maxWindowDays ≤ since := by
  obtain ⟨-, -, -, -, hwindow, hensure⟩ := fromArgs_ok h
  rw [hkey] at hwindow hensure
  dsimp only [planWindow] at hwindow
  split at hwindow
  · exact absurd hwindow (by simp)
  · obtain ⟨hsince, huntil⟩ := Prod.mk.inj (Except.ok.inj hwindow)
    have hensure := hensure _ _ hsince.symm huntil.symm
    refine ⟨_, hsince.symm, ?_⟩
    dsimp only [ensureWindow] at hensure
    split_ifs at hensure
    · exact absurd hensure (invalid_ne_ok _ _)
    · exact absurd hensure (invalid_ne_ok _ _)
    · split at hensure
      · exact absurd hensure (by simp)
      · next earliest hearliest =>
        split_ifs at hensure with hearly
        · exact absurd hensure (invalid_ne_ok _ _)
        · unfold subDuration at hearliest
          split_ifs at hearliest
          rw [Option.some.inj hearliest]
          exact not_lt.mp hearly

end plan

/-! ## What an app key's answer depends on -/

/-- The receipts of an app's messages. -/
def Database.receiptsOf (db : Database) (appId : String) : List DeliveryReceipt :=
  db.receipts.filter fun r => r.messageId ∈ (db.messages.filter (·.appId = appId)).map (·.id)

/-- The lookups of a caller. -/
def ownLookup (caller : Caller) (r : DeliveryLookup) : Bool :=
  r.actorSub = caller.sub && r.actorKind = caller.kind

/-- **Two databases with the same messages and receipts of an app, and the same lookups of a
caller.** -/
structure Agree (caller : Caller) (appId : String) (db db' : Database) : Prop where
  messages : db.messages.filter (·.appId = appId) = db'.messages.filter (·.appId = appId)
  receipts : db.receiptsOf appId = db'.receiptsOf appId
  lookups : db.lookups.filter (ownLookup caller) = db'.lookups.filter (ownLookup caller)

section congr
variable {env : Env} {caller : Caller} {appId : String} {db db' : Database} {plan : LookupPlan}
    {now : Time}

/-- The rows that meet a narrower condition are among those that meet a wider one. -/
theorem filter_eq_of_imp {α : Type} {p q : α → Bool} (h : ∀ a, q a = true → p a = true)
    (l : List α) :
    l.filter q = (l.filter p).filter q := by
  rw [List.filter_filter]
  refine List.filter_congr fun a _ => ?_
  rcases hq : q a with _ | _
  · rfl
  · rw [h a hq]
    rfl

theorem messageFilter_appId (hplan : plan.appId = some appId) {m : Message}
    (h : messageFilter env plan m = true) : m.appId = appId := by
  unfold messageFilter at h
  simp only [hplan, Option.all_some, Bool.and_eq_true, decide_eq_true_eq] at h
  exact h.1.1.2.symm

theorem mem_foundRows {m : Message} (h : m ∈ foundRows env db plan) :
    m ∈ db.messages ∧ messageFilter env plan m = true := by
  have hmem := List.mem_of_mem_take h
  unfold newestFirst at hmem
  rw [(List.mergeSort_perm _ _).mem_iff] at hmem
  exact List.mem_filter.mp hmem

theorem foundRows_congr (hplan : plan.appId = some appId) (h : Agree caller appId db db') :
    foundRows env db plan = foundRows env db' plan := by
  have himp : ∀ m, messageFilter env plan m = true → decide (m.appId = appId) = true :=
    fun m hm => decide_eq_true (messageFilter_appId hplan hm)
  unfold foundRows
  rw [filter_eq_of_imp himp db.messages, filter_eq_of_imp himp db'.messages, h.messages]

variable (env) in
theorem newestReceipts_congr (h : Agree caller appId db db') (ids : List String)
    (hids : ∀ id ∈ ids, id ∈ (db.messages.filter (·.appId = appId)).map (·.id)) :
    newestReceipts env db.receipts ids = newestReceipts env db'.receipts ids := by
  have hrows : db.receipts.filter (·.messageId ∈ ids) =
      db'.receipts.filter (·.messageId ∈ ids) := by
    have himp : ∀ r : DeliveryReceipt, decide (r.messageId ∈ ids) = true →
        decide (r.messageId ∈ (db.messages.filter (·.appId = appId)).map (·.id)) = true :=
      fun r hr => decide_eq_true (hids _ (of_decide_eq_true hr))
    have hreceipts := h.receipts
    unfold Database.receiptsOf at hreceipts
    rw [← h.messages] at hreceipts
    rw [filter_eq_of_imp himp db.receipts, filter_eq_of_imp himp db'.receipts, hreceipts]
  unfold newestReceipts
  rw [hrows]

variable (env) in
/-- What is read of the messages and receipts is the app's own. -/
theorem answer_congr (hplan : plan.appId = some appId) (h : Agree caller appId db db') :
    answer env db plan = answer env db' plan := by
  rcases hfault : env.faults .messages with _ | e
  · have hreceipts := newestReceipts_congr env h
      (((foundRows env db plan).take plan.limit.toNat).map (·.id)) fun id hid => by
        obtain ⟨m, hm, rfl⟩ := List.mem_map.mp hid
        obtain ⟨hmem, hfilter⟩ := mem_foundRows (List.mem_of_mem_take hm)
        exact List.mem_map_of_mem (List.mem_filter.mpr
          ⟨hmem, decide_eq_true (messageFilter_appId hplan hfilter)⟩)
    unfold answer Env.run
    simp only [hfault, ← foundRows_congr hplan h, bind, Except.bind, hreceipts]
  · unfold answer Env.run
    simp only [hfault]
    rfl

/-- The budget counts the caller's own rows. -/
theorem counted_own {r : DeliveryLookup} (h : counted caller now r = true) :
    ownLookup caller r = true := by
  unfold counted at h
  unfold ownLookup
  simp only [Bool.and_eq_true] at h ⊢
  exact h.1.1.1

theorem countP_congr (h : Agree caller appId db db') :
    db.lookups.countP (counted caller now) = db'.lookups.countP (counted caller now) := by
  rw [List.countP_eq_length_filter, List.countP_eq_length_filter,
    filter_eq_of_imp (fun r => counted_own) db.lookups,
      filter_eq_of_imp (fun r => counted_own) db'.lookups,
    h.lookups]

/-! ### The own row -/

theorem lt_freshId {rows : List DeliveryLookup} {r : DeliveryLookup} (h : r ∈ rows) :
    r.id < freshId rows := by
  induction rows with
  | nil => exact absurd h List.not_mem_nil
  | cons r' rows ih =>
    unfold freshId
    rw [List.foldr_cons]
    rcases List.mem_cons.mp h with rfl | h
    · exact lt_of_lt_of_le (Nat.lt_succ_self _) (le_max_left _ _)
    · exact lt_of_lt_of_le (ih h) (le_max_right _ _)

/-- A row that has just been inserted, `pending`, can be settled. -/
theorem settle_own (rows : List DeliveryLookup) (own : DeliveryLookup) (hid : own.id = freshId rows)
    (hpending : own.outcome = .pending) {outcome : DeliveryLookupOutcome} {count : Option ℕ}
    (houtcome : outcome ≠ .pending) (hcount : (outcome = .answered) ↔ count.isSome = true) :
    ∃ rows', settle (rows ++ [own]) (freshId rows) outcome count = some rows' := by
  have hnone : rows.find? (·.id = freshId rows) = none := by
    rw [List.find?_eq_none]
    intro r hr
    simpa using (lt_freshId hr).ne
  have hfind : (rows ++ [own]).find? (·.id = freshId rows) = some own := by
    rw [List.find?_append, hnone]
    simp [hid]
  have hguard : Lookups.updateGuard own { own with outcome := outcome, resultCount := count } =
      true := by
    rcases hisSome : count.isSome with _ | _
    · simp_all [Lookups.updateGuard]
    · simp_all [Lookups.updateGuard]
  refine ⟨(rows ++ [own]).map fun r => if r.id = freshId rows then
    { own with outcome := outcome, resultCount := count } else r, ?_⟩
  unfold settle
  rw [hfind]
  exact if_pos hguard

variable (env caller plan) in
/-- The row a budgeted lookup inserts. -/
def claimRow (rows : List DeliveryLookup) : DeliveryLookup :=
  account env.hmac caller plan.recorded .pending none (freshId rows) env.createdAt

/-- The settling of the claim does not fail on the row. -/
theorem settled_claimRow {α : Type} (rows : List DeliveryLookup) {statement : Statement}
    {outcome : DeliveryLookupOutcome} {count : Option ℕ} (houtcome : outcome ≠ .pending)
    (hcount : (outcome = .answered) ↔ count.isSome = true) (result : Except Failure α) :
    (settled env statement (rows ++ [claimRow env caller plan rows])
      (freshId rows) outcome count result).1 =
      env.run statement () >>= fun _ => result := by
  obtain ⟨rows', hrows'⟩ := settle_own rows (claimRow env caller plan rows) rfl rfl houtcome hcount
  unfold settled Env.run
  rcases hfault : env.faults statement with _ | e
  · simp only [hrows']
    rfl
  · rfl

/-- A refused claim ends in an error, whether it can be marked or not. -/
theorem refused_error (env : Env) :
    ∃ e, (env.run .refuse () >>= fun _ => (fail exhausted : Except Failure ℕ)) = .error e := by
  unfold Env.run
  rcases env.faults .refuse with _ | e
  · exact ⟨_, rfl⟩
  · exact ⟨_, rfl⟩

variable (env plan now) in
/-- **The claim of two callers alike**: both are refused alike, or both may go on. -/
theorem claimBudget_congr (h : Agree caller appId db db') :
    (∃ e rows rows', claimBudget env db.lookups caller plan now = (.error e, rows) ∧
      claimBudget env db'.lookups caller plan now = (.error e, rows')) ∨
    (claimBudget env db.lookups caller plan now =
        (.ok (freshId db.lookups), db.lookups ++ [claimRow env caller plan db.lookups]) ∧
      claimBudget env db'.lookups caller plan now =
        (.ok (freshId db'.lookups), db'.lookups ++ [claimRow env caller plan db'.lookups])) := by
  have hused : (db.lookups ++ [claimRow env caller plan db.lookups]).countP (counted caller now) =
      (db'.lookups ++ [claimRow env caller plan db'.lookups]).countP (counted caller now) := by
    rw [List.countP_append, List.countP_append, countP_congr h]
    rfl
  unfold claimBudget
  rcases hclaim : env.faults .claim with _ | e
  · rcases hhour : subDuration now (hours 1) with _ | hour
    · exact Or.inl ⟨_, _, _, rfl, rfl⟩
    · rcases hcount : env.faults .count with _ | e
      · by_cases hover : budgetedLookupsPerHour <
            (db.lookups ++ [claimRow env caller plan db.lookups]).countP (counted caller now)
        · obtain ⟨e, he⟩ := refused_error env
          refine Or.inl ⟨e, _, _, (if_pos hover).trans (Prod.ext ?_ rfl),
            (if_pos (hused ▸ hover)).trans (Prod.ext ?_ rfl)⟩
          · exact (settled_claimRow db.lookups (by simp) (by simp) _).trans he
          · exact (settled_claimRow db'.lookups (by simp) (by simp) _).trans he
        · exact Or.inr ⟨if_neg hover, if_neg (hused ▸ hover)⟩
      · exact Or.inl ⟨_, _, _, rfl, rfl⟩
  · exact Or.inl ⟨_, _, _, rfl, rfl⟩

/-- What a claimed lookup answers. -/
theorem answered_claimed (rows : List DeliveryLookup) :
    (answered env db (rows ++ [claimRow env caller plan rows]) caller plan
      (some (freshId rows))).1 =
      answer env db plan >>= fun result => env.run .settle () >>= fun _ => .ok result := by
  unfold answered
  rcases answer env db plan with e | result
  · rfl
  · exact settled_claimRow rows (by simp) (by simp) _

/-- What a lookup that is not budgeted answers. -/
theorem answered_unclaimed (rows : List DeliveryLookup) :
    (answered env db rows caller plan none).1 =
      answer env db plan >>= fun result => env.run .record () >>= fun _ => .ok result := by
  unfold answered recordAnswer Env.run
  rcases answer env db plan with e | result
  · rfl
  · rcases env.faults .record with _ | e
    · rfl
    · rfl

/-- **What the other apps have does not show**: on two databases that agree on what an app key may
see, its lookup ends alike. -/
theorem lookup_congr {ctx : CratestackContext} {args : DeliveryStatusQuery}
    (hcaller : callerOf ctx = .ok caller) (hasker : caller.asker = .app appId)
    (h : Agree caller appId db db') :
    (lookup env db ctx args now).1 = (lookup env db' ctx args now).1 := by
  unfold lookup
  rw [hcaller]
  dsimp only
  rcases hplan : LookupPlan.fromArgs env.phones args caller.asker now with e | plan
  · rfl
  · have happ : plan.appId = some appId := by
      have hnamed := (fromArgs_ok hplan).2.1
      rw [hasker] at hnamed
      exact planApp_app hnamed
    have hanswer := answer_congr env happ h
    dsimp only
    by_cases hbudgeted : caller.budgeted plan.key = true
    · simp only [hbudgeted, if_true]
      rcases claimBudget_congr env plan now h with
        ⟨e, rows, rows', hrows, hrows'⟩ | ⟨hrows, hrows'⟩
      · rw [hrows, hrows']
      · rw [hrows, hrows']
        simp only [answered_claimed, hanswer]
    · rw [if_neg hbudgeted, if_neg hbudgeted, answered_unclaimed, answered_unclaimed, hanswer]

end congr

/-! ## A lookup by number -/

section number
variable {env : Env} {db : Database} {ctx : CratestackContext} {args : DeliveryStatusQuery}
    {now : Time}
  {plan : LookupPlan} {result : DeliveryStatusResult}

/-- An answer is one that was read for the caller's plan. -/
theorem lookup_ok (h : (lookup env db ctx args now).1 = .ok result) :
    ∃ caller plan, callerOf ctx = .ok caller ∧
      LookupPlan.fromArgs env.phones args caller.asker now = .ok plan ∧
      answer env db plan = .ok result := by
  have hread : ∀ rows caller plan claimed,
    (answered env db rows caller plan claimed).1 = .ok result →
      answer env db plan = .ok result := by
    intro rows caller plan claimed h
    unfold answered at h
    split at h
    · exact absurd h (by simp)
    · next result' hanswer =>
      suffices result' = result by rw [hanswer, this]
      unfold recordAnswer settled at h
      split at h
      · split at h
        · exact absurd h (by simp [fail])
        · split at h
          · exact Except.ok.inj h
          · exact absurd h (by simp [fail])
      · split at h
        · exact absurd h (by simp [fail])
        · exact Except.ok.inj h
  unfold lookup at h
  split at h
  · exact absurd h (by simp)
  · next caller hcaller =>
    split at h
    · exact absurd h (by simp)
    · next plan hplan =>
      refine ⟨caller, plan, hcaller, hplan, ?_⟩
      split_ifs at h
      · split at h
        · exact absurd h (by simp)
        · exact hread _ _ _ _ h
      · exact hread _ _ _ _ h

/-- The rows that are returned. -/
theorem answer_ok (h : answer env db plan = .ok result) :
    ∃ receipts, result = ⟨statuses env ((foundRows env db plan).take plan.limit.toNat) receipts,
      decide (plan.limit.toNat < (foundRows env db plan).length)⟩ := by
  obtain ⟨found, hfound, h⟩ := bind_ok.mp h
  obtain ⟨receipts, -, h⟩ := bind_ok.mp h
  have hrows : found = foundRows env db plan := by
    unfold Env.run at hfound
    split at hfound
    · exact absurd hfound (by simp [fail])
    · exact (Except.ok.inj hfound).symm
  rw [← Except.ok.inj h, hrows]
  exact ⟨receipts, rfl⟩

theorem statuses_rows (rows : List Message) (receipts : List (String × DeliveryReceiptSummary)) :
    List.Forall₂ (fun answered row => ∃ last, answered = status env row last)
      (statuses env rows receipts)
      rows := by
  induction rows generalizing receipts with
  | nil => exact .nil
  | cons row rows ih => exact .cons ⟨_, rfl⟩ (ih _)

theorem newestFirst_pairwise (rows : List Message) :
    (newestFirst rows).Pairwise fun a b => b.createdAt ≤ a.createdAt := by
  let le : Message → Message → Bool := fun a b => decide (b.createdAt ≤ a.createdAt)
  have htrans : ∀ a b c, le a b = true → le b c = true → le a c = true := fun a b c hab hbc =>
    decide_eq_true (le_trans (of_decide_eq_true hbc) (of_decide_eq_true hab))
  have htotal : ∀ a b, (le a b || le b a) = true := fun a b => by
    simpa [le] using le_total b.createdAt a.createdAt
  have hsorted := List.pairwise_mergeSort htrans htotal rows
  exact hsorted.imp fun h => of_decide_eq_true h

variable (env db args now result) in
/-- **What a lookup by number returns.** -/
structure ByNumber (plan : LookupPlan) (rows : List Message) : Prop where
  statuses :
    List.Forall₂ (fun answered row => ∃ last, answered = status env row last) result.statuses rows
  found : ∀ row ∈ rows, row ∈ db.messages ∧ messageFilter env plan row = true
  unpurged : ∀ row ∈ rows, row.purgedAt = none
  recent : ∀ row ∈ rows, now - days 90 ≤ row.createdAt
  limit : plan.limit = args.limit.getD 10 ∧ (rows.length : ℤ) ≤ plan.limit
  newestFirst : rows.Pairwise fun a b => b.createdAt ≤ a.createdAt
  /-- What is left out is not newer. -/
  newest : ∀ other ∈ db.messages, messageFilter env plan other = true → other ∉ rows →
    ∀ row ∈ rows, other.createdAt ≤ row.createdAt
  truncated : result.truncated = true ↔ plan.limit < db.messages.countP (messageFilter env plan)

theorem byNumber {asker : Asker} (hplan : LookupPlan.fromArgs env.phones args asker now = .ok plan)
    {e164 : String} (hkey : plan.key = .msisdn e164) (hanswer : answer env db plan = .ok result) :
    ByNumber env db args now result plan ((foundRows env db plan).take plan.limit.toNat) := by
  obtain ⟨receipts, rfl⟩ := answer_ok hanswer
  obtain ⟨hlimit, hpos⟩ := planLimit_ok (fromArgs_ok hplan).2.2.2.1
  obtain ⟨since, hsince, hrecent⟩ := plan_since hplan hkey
  have hfound : ∀ row ∈ (foundRows env db plan).take plan.limit.toNat,
      row ∈ db.messages ∧ messageFilter env plan row = true :=
    fun row hrow => mem_foundRows (List.mem_of_mem_take hrow)
  have hsucc : (plan.limit + 1).toNat = plan.limit.toNat + 1 := by omega
  have hrows : (foundRows env db plan).take plan.limit.toNat =
      (newestFirst (db.messages.filter (messageFilter env plan))).take plan.limit.toNat := by
    unfold foundRows
    rw [List.take_take, hsucc, Nat.min_eq_left (Nat.le_succ _)]
  have hpairwise := newestFirst_pairwise (db.messages.filter (messageFilter env plan))
  have hfilter : ∀ row, messageFilter env plan row = true →
      row.purgedAt = none ∧ since ≤ row.createdAt := by
    intro row hrow
    unfold messageFilter at hrow
    simp only [hkey, hsince, Option.all_some, Bool.and_eq_true, decide_eq_true_eq,
      Option.isNone_iff_eq_none] at hrow
    exact ⟨hrow.1.1.1.2, hrow.1.2⟩
  constructor
  · exact statuses_rows _ _
  · exact hfound
  · exact fun row hrow => (hfilter row (hfound row hrow).2).1
  · exact fun row hrow => le_trans hrecent (hfilter row (hfound row hrow).2).2
  · refine ⟨hlimit, ?_⟩
    have hlength := List.length_take_le plan.limit.toNat (foundRows env db plan)
    omega
  · rw [hrows]
    exact hpairwise.sublist (List.take_sublist _ _)
  · intro other hother hmatches hnot row hrow
    rw [hrows] at hnot hrow
    have hmem : other ∈ newestFirst (db.messages.filter (messageFilter env plan)) := by
      unfold newestFirst
      rw [(List.mergeSort_perm _ _).mem_iff]
      exact List.mem_filter.mpr ⟨hother, hmatches⟩
    rw [← List.take_append_drop plan.limit.toNat
      (newestFirst (db.messages.filter (messageFilter env plan)))] at hmem hpairwise
    rcases List.mem_append.mp hmem with hmem | hmem
    · exact absurd hmem hnot
    · exact (List.pairwise_append.mp hpairwise).2.2 row hrow other hmem
  · have hlength : (foundRows env db plan).length =
        min (plan.limit.toNat + 1) (db.messages.countP (messageFilter env plan)) := by
      unfold foundRows newestFirst
      rw [List.length_take, List.length_mergeSort, hsucc, List.countP_eq_length_filter]
    rw [decide_eq_true_iff, hlength]
    omega

/-- **Lookups are confined**: an app key's lookup ends alike on any two databases that agree on the
messages and receipts of its app and on the caller's lookups; and a lookup by number returns
messages that are not purged and not more than ninety days old, at most `limit` of them, newest
first. -/
theorem lookup_confined (env : Env) (ctx : CratestackContext) (args : DeliveryStatusQuery)
    (now : Time) :
    (∀ caller appId db db', callerOf ctx = .ok caller → caller.asker = .app appId →
      Agree caller appId db db' →
      (lookup env db ctx args now).1 = (lookup env db' ctx args now).1) ∧
    ∀ db result, args.msisdn.isSome = true → (lookup env db ctx args now).1 = .ok result →
      ∃ caller plan rows, callerOf ctx = .ok caller ∧
        LookupPlan.fromArgs env.phones args caller.asker now = .ok plan ∧
        ByNumber env db args now result plan rows := by
  constructor
  · intro caller appId db db' hcaller hasker h
    exact lookup_congr hcaller hasker h
  · intro db result hmsisdn h
    obtain ⟨caller, plan, hcaller, hplan, hanswer⟩ := lookup_ok h
    obtain ⟨hone, -, hkey, -⟩ := fromArgs_ok hplan
    obtain ⟨e164, hkey⟩ := planKey_msisdn hone hmsisdn hkey
    exact ⟨caller, plan, _, hcaller, hplan, byNumber hplan hkey hanswer⟩

end number

section runs

def sampleEnv : Env where
  phones := Send.samplePhones
  hmac input := "v1:" ++ input
  faults _ := none
  guarded := .database "SM001"
  createdAt := 0

/-- A message of an app to the number. -/
def sampleMessage (id appId : String) : Message := accept
  { id := id
    appId := appId
    clientRef := none
    msisdn := "+237677123456"
    msisdnHash := "v1:+237677123456"
    operator := .mtn
    senderIdValue := "VSMS"
    messageClass := .transactional
    body := "code 4821"
    bodyHash := "v1:code 4821"
    bodyLength := 9
    encoding := .gsm7
    segments := 1
    scheduledAt := none
    expiresAt := hours 24
    createdAt := 0 }

/-- The caller's app, and another's message to the same number. -/
def sampleDb (others : List Message) : Database := ⟨sampleMessage "m1" "capp1" :: others, [], []⟩

def sampleKey : CratestackContext where
  authField name :=
    if name = "kind" then some (.string "app")
    else if name = "appId" then some (.string "capp1") else some (.string "appc_1")
  extensions _ := none

def sampleQuery : DeliveryStatusQuery := ⟨none, none, none, some "677123456", none, none, none⟩

/-- An app key asks for a number that another app has written to as well. -/
theorem lookup_confined_number :
    (lookup sampleEnv (sampleDb [sampleMessage "m2" "capp2"]) sampleKey sampleQuery (hours 1)).1 =
      (lookup sampleEnv (sampleDb []) sampleKey sampleQuery (hours 1)).1 ∧
    ∃ result caller plan rows, callerOf sampleKey = .ok caller ∧
      LookupPlan.fromArgs sampleEnv.phones sampleQuery caller.asker (hours 1) = .ok plan ∧
      ByNumber sampleEnv (sampleDb []) sampleQuery (hours 1) result plan rows := by
  have h := lookup_confined sampleEnv sampleKey sampleQuery (hours 1)
  have hfound : (lookup sampleEnv (sampleDb []) sampleKey sampleQuery (hours 1)).1 =
      .ok ⟨[status sampleEnv (sampleMessage "m1" "capp1") none], false⟩ := by decide +kernel
  exact ⟨h.1 ⟨"appc_1", "appc_1", .app "capp1"⟩ "capp1" _ _ rfl rfl ⟨rfl, rfl, rfl⟩, _,
    h.2 _ _ rfl hfound⟩

end runs

end Vsms.Api.Delivery
