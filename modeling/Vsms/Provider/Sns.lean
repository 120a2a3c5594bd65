import Vsms.Lib.Fields
import Vsms.Schema.Types
import Vsms.Message.Dispatch

/-! # Delivery receipts from a topic

A receipt is posted in an envelope, and what the sender signed is the text of its fields: the name
of each on a line and its value on the next. Nothing is escaped, the subject is there only if the
envelope has one, and confirmations have other fields than notifications. `verify` looks at the
topic, at the version, at the address of the certificate, and at the signature, in this order.

An envelope with the text of a genuine one has the fields that matter in common with it, and of the
same text there are no two topics, so that a signature made for another topic is of no use
(`signature_binds`). -/

namespace Vsms.Provider.Sns

open Vsms.Lib.Fields Vsms.Lib.Framing Vsms.Schema.Types Vsms.Message.Dispatch

/-! ## The envelope -/

structure Envelope where
  kind : String
  messageId : String
  token : Option String
  topicArn : String
  subject : Option String
  message : String
  subscribeUrl : Option String
  timestamp : String
  signatureVersion : String
  signature : String
  signingCertUrl : String
  deriving DecidableEq, Repr

def confirmations : List String := ["SubscriptionConfirmation", "UnsubscribeConfirmation"]

/-- The fields that are signed; `none` if one that the kind requires is missing. -/
def signedFields (envelope : Envelope) : Option (List (String × String)) :=
  let fields := [("Message", envelope.message), ("MessageId", envelope.messageId)]
  if envelope.kind = "Notification" then
    some (fields ++ envelope.subject.toList.map (("Subject", ·)) ++
      [("Timestamp", envelope.timestamp), ("TopicArn", envelope.topicArn), ("Type", envelope.kind)])
  else if envelope.kind ∈ confirmations then do
    let subscribeUrl ← envelope.subscribeUrl
    let token ← envelope.token
    some (fields ++ [("SubscribeURL", subscribeUrl), ("Timestamp", envelope.timestamp),
      ("Token", token), ("TopicArn", envelope.topicArn), ("Type", envelope.kind)])
  else none

/-- **`string_to_sign`.** -/
def stringToSign (envelope : Envelope) : Option String :=
  (signedFields envelope).map fun fields =>
    fields.foldl (fun out field => out ++ field.1 ++ "\n" ++ field.2 ++ "\n") ""

/-! ## The verifier -/

/-- **`region_of_topic_arn`.** -/
def regionOfTopicArn (arn : String) : Option String :=
  match arn.toList.splitOn ':' with
  | [arn, aws, sns, region, account, name] =>
    if arn = "arn".toList ∧ aws = "aws".toList ∧ sns = "sns".toList ∧
        region ≠ [] ∧ account ≠ [] ∧ name ≠ [] then
      some (String.ofList region)
    else none
  | _ => none

/-- A URL that was parsed; `href` is the whole of it. -/
structure Url where
  scheme : String
  host : Option String
  port : Option ℕ
  username : String
  password : Option String
  path : String
  query : Option String
  fragment : Option String
  href : String
  deriving DecidableEq, Repr

/-- What the verifier is given: the parsers of the libraries, the check of a signature with the key
of a certificate, and the outbound request. -/
structure World (Cert Key : Type) where
  /-- `{:?}` of a string. -/
  debug : String → String
  parseUrl : String → Except String Url
  decodeBase64 : String → Option (List UInt8)
  get : Url → Except String (List UInt8)
  fromPem : List UInt8 → Except String Cert
  endEntity : Cert → Option Key
  verifySignature : Key → List UInt8 → List UInt8 → Except String Unit

/-- The topic that is configured, and its region. -/
structure Verifier where
  topicArn : String
  region : String
  region_eq : regionOfTopicArn topicArn = some region

/-- The certificates by the path of their URL, and the last request for one. -/
structure Certs (Cert : Type) where
  certs : List (String × Cert)
  lastUncachedFetch : Option Time

inductive Verdict
  | authentic
  | refused (reason : String)
  | unsupportedSignatureVersion (reason : String)
  deriving DecidableEq, Repr

def acceptedSignatureVersion : String := "2"

def maxCachedCerts : ℕ := 8

def minUncachedFetchInterval : Time := seconds 5

section verify
variable {Cert Key : Type} (w : World Cert Key) (v : Verifier)

/-- **`sns_url`.** -/
def snsUrl (raw region : String) : Except String Url :=
  match w.parseUrl raw with
  | .error error => .error (w.debug raw ++ " is not a URL: " ++ error)
  | .ok url =>
    let expectedHost := "sns." ++ region ++ ".amazonaws.com"
    if url.scheme ≠ "https" ∨ url.host ≠ some expectedHost ∨ url.port.isSome ∨ url.username ≠ "" ∨
        url.password.isSome then
      .error (w.debug raw ++ " is not an https URL on " ++ expectedHost)
    else .ok url

/-- `is_ascii_hexdigit`. -/
def isAsciiHexdigit (c : Char) : Bool := c.isDigit || ('a' ≤ c && c ≤ 'f') || ('A' ≤ c && c ≤ 'F')

/-- **`is_signing_cert_url`**: 32 hexadecimal digits between the two parts of the path. -/
def isSigningCertUrl (url : Url) : Bool :=
  url.query.isNone && url.fragment.isNone &&
    (("/SimpleNotificationService-".toList.isPrefixOf? url.path.toList).bind
      fun rest => ".pem".toList.isSuffixOf? rest).any
      fun id => id.length = 32 && id.all isAsciiHexdigit

/-- **`permit_uncached_fetch`.** -/
def permitUncachedFetch (now : Time) (s : Certs Cert) : Except ProviderError (Certs Cert) :=
  if s.lastUncachedFetch.any (now - · < minUncachedFetchInterval) then
    .error (.unavailable "signing certificate fetches are rate limited; try again shortly")
  else .ok { s with lastUncachedFetch := some now }

/-- The cache with one more certificate, cleared if it is full. -/
def Certs.insert (s : Certs Cert) (path : String) (cert : Cert) : Certs Cert :=
  let certs := if s.certs.length ≥ maxCachedCerts then [] else s.certs
  { s with certs := (path, cert) :: certs.filter (·.1 ≠ path) }

/-- **`certificate`.** `meanwhile` is what other calls do to the cache until the answer is there. -/
def certificate (meanwhile : Certs Cert → Certs Cert) (now : Time) (s : Certs Cert) (url : Url) :
    Except ProviderError Cert × Certs Cert :=
  match s.certs.lookup url.path with
  | some cert => (.ok cert, s)
  | none =>
    match permitUncachedFetch now s with
    | .error error => (.error error, s)
    | .ok s =>
      match w.get url with
      | .error message => (.error (.unavailable message), meanwhile s)
      | .ok pem =>
        match w.fromPem pem with
        | .error error =>
          (.error (.unavailable (url.href ++ " did not contain a PEM certificate: " ++ error)),
            meanwhile s)
        | .ok cert => (.ok cert, (meanwhile s).insert url.path cert)

/-- **`Verifier::verify`.** -/
def verify (meanwhile : Certs Cert → Certs Cert) (now : Time) (s : Certs Cert)
    (envelope : Envelope) :
    Except ProviderError Verdict × Certs Cert :=
  if envelope.topicArn ≠ v.topicArn then
    (.ok (.refused ("TopicArn " ++ w.debug envelope.topicArn ++
      " is not the configured events topic")), s)
  else if envelope.signatureVersion ≠ acceptedSignatureVersion then
    (.ok (.unsupportedSignatureVersion ("SignatureVersion " ++ w.debug envelope.signatureVersion ++
      " refused; set the topic's SignatureVersion attribute to 2")), s)
  else
    match snsUrl w envelope.signingCertUrl v.region with
    | .error reason => (.ok (.refused ("SigningCertURL: " ++ reason)), s)
    | .ok certUrl =>
      if isSigningCertUrl certUrl = false then
        (.ok (.refused ("SigningCertURL " ++ certUrl.href ++
          " is not /SimpleNotificationService-<32 hex digits>.pem without a query or fragment")), s)
      else
        match stringToSign envelope with
        | none =>
          (.ok (.refused ("a " ++ w.debug envelope.kind ++
            " message without the fields its signature covers")), s)
        | some signed =>
          match w.decodeBase64 envelope.signature with
          | none => (.ok (.refused "Signature is not base64"), s)
          | some signature =>
            match certificate w meanwhile now s certUrl with
            | (.error error, s) => (.error error, s)
            | (.ok cert, s) =>
              match w.endEntity cert with
              | none => (.ok (.refused (certUrl.href ++ " is not an X.509 certificate")), s)
              | some endEntity =>
                match w.verifySignature endEntity (strBytes signed) signature with
                | .ok () => (.ok .authentic, s)
                | .error error => (.ok (.refused ("signature does not verify: " ++ error)), s)

/-- **What is authentic** is of the topic, and its text was signed. -/
theorem verify_authentic {meanwhile : Certs Cert → Certs Cert} {now : Time} {s : Certs Cert}
    {envelope : Envelope} (h : (verify w v meanwhile now s envelope).1 = .ok .authentic) :
    envelope.topicArn = v.topicArn ∧ ∃ signed signature key, stringToSign envelope = some signed ∧
      w.decodeBase64 envelope.signature = some signature ∧
      w.verifySignature key (strBytes signed) signature = .ok () := by
  unfold verify at h
  split at h
  · cases h
  rename_i htopic
  refine ⟨not_ne_iff.mp htopic, ?_⟩
  split at h
  · cases h
  split at h
  · cases h
  split at h
  · cases h
  split at h
  · cases h
  rename_i signed hsigned
  split at h
  · cases h
  rename_i signature hsignature
  split at h
  · cases h
  split at h
  · cases h
  rename_i key _
  split at h
  · rename_i hverified
    exact ⟨signed, signature, key, hsigned, hsignature, hverified⟩
  · cases h

end verify

/-! ## What the text binds -/

def Field.chars (field : String × String) : List Char × List Char :=
  (field.1.toList, field.2.toList)

theorem Field.chars_injective : Function.Injective Field.chars := by
  intro field other h
  obtain ⟨hname, hvalue⟩ := Prod.ext_iff.mp h
  exact Prod.ext (String.toList_inj.mp hname) (String.toList_inj.mp hvalue)

theorem toList_foldl (fields : List (String × String)) (out : String) :
    (fields.foldl (fun out field => out ++ field.1 ++ "\n" ++ field.2 ++ "\n") out).toList =
      out.toList ++ render '\n' (fields.map Field.chars) := by
  induction fields generalizing out with
  | nil => simp [render]
  | cons field fields ih =>
    rw [List.foldl_cons, ih]
    simp [render, Field.chars]

/-- **The two sets of fields**, as whole lists. -/
theorem signedFields_cases {e : Envelope} {fields : List (String × String)}
    (h : signedFields e = some fields) :
    (e.kind = "Notification" ∧
      fields = ("Message", e.message) :: ("MessageId", e.messageId) ::
        (e.subject.toList.map (("Subject", ·)) ++ [("Timestamp", e.timestamp)]) ++
        [("TopicArn", e.topicArn), ("Type", e.kind)]) ∨
    (e.kind ∈ confirmations ∧ ∃ subscribeUrl token,
      e.subscribeUrl = some subscribeUrl ∧ e.token = some token ∧
      fields = ("Message", e.message) :: ("MessageId", e.messageId) ::
        [("SubscribeURL", subscribeUrl), ("Timestamp", e.timestamp), ("Token", token)] ++
        [("TopicArn", e.topicArn), ("Type", e.kind)]) := by
  unfold signedFields at h
  split at h
  · rename_i hkind
    refine .inl ⟨hkind, ?_⟩
    rw [← Option.some.inj h]
    simp
  · split at h
    · rename_i hkind
      obtain ⟨subscribeUrl, hurl, h⟩ := Option.bind_eq_some_iff.mp h
      obtain ⟨token, htoken, h⟩ := Option.bind_eq_some_iff.mp h
      exact .inr ⟨hkind, subscribeUrl, token, hurl, htoken, (Option.some.inj h).symm⟩
    · cases h

/-- The fields start with the message, and end with the topic and the kind. -/
theorem signedFields_ends {e : Envelope} {fields : List (String × String)}
    (h : signedFields e = some fields) :
    ∃ middle, fields = ("Message", e.message) :: ("MessageId", e.messageId) :: middle ++
      [("TopicArn", e.topicArn), ("Type", e.kind)] := by
  rcases signedFields_cases h with ⟨-, rfl⟩ | ⟨-, _, _, -, -, rfl⟩
  · exact ⟨_, rfl⟩
  · exact ⟨_, rfl⟩

theorem signedFields_of_confirmation {e : Envelope} {fields : List (String × String)}
    (h : signedFields e = some fields) (hkind : e.kind ∈ confirmations) :
    ∃ subscribeUrl token, e.subscribeUrl = some subscribeUrl ∧ e.token = some token ∧
      fields = [("Message", e.message), ("MessageId", e.messageId)] ++ ("SubscribeURL",
        subscribeUrl) ::
        ("Timestamp", e.timestamp) ::
          [("Token", token), ("TopicArn", e.topicArn), ("Type", e.kind)] := by
  rcases signedFields_cases h with ⟨hnotification, -⟩ | ⟨-, hall⟩
  · rw [hnotification] at hkind
    exact absurd hkind (by decide)
  · exact hall

theorem newline_notMem_kind {e : Envelope} {fields : List (String × String)}
    (h : signedFields e = some fields) : '\n' ∉ e.kind.toList := by
  rcases signedFields_cases h with ⟨hkind, -⟩ | ⟨hkind, -⟩
  · rw [hkind]
    decide
  · rcases List.mem_pair.mp hkind with hkind | hkind <;> rw [hkind] <;> decide

/-- The names that are signed: without a subject, with one, and of a confirmation. -/
def signedNames : List (List String) :=
  [["Message", "MessageId", "Timestamp", "TopicArn", "Type"],
    ["Message", "MessageId", "Subject", "Timestamp", "TopicArn", "Type"],
    ["Message", "MessageId", "SubscribeURL", "Timestamp", "Token", "TopicArn", "Type"]]

theorem names_of_signedFields {e : Envelope} {fields : List (String × String)}
    (h : signedFields e = some fields) : fields.map (·.1) ∈ signedNames := by
  rcases signedFields_cases h with ⟨-, rfl⟩ | ⟨-, _, _, -, -, rfl⟩
  · cases e.subject <;> simp [signedNames]
  · simp [signedNames]

/-- The names are different lines, and none is empty. -/
theorem signedNames_ok : ∀ names ∈ signedNames, (names.map String.toList).Nodup ∧
    ∀ name ∈ names, '\n' ∉ name.toList ∧ name.toList ≠ [] := by decide

/-- **A genuine envelope**: what it signs has no newline in it and is none of the names it signs. -/
def Genuine (e : Envelope) : Prop :=
  ∀ fields, signedFields e = some fields → ∀ field ∈ fields,
    '\n' ∉ field.2.toList ∧ ∀ other ∈ fields, field.2 ≠ other.1

theorem Genuine.plain {e : Envelope} (he : Genuine e) {fields : List (String × String)}
    (h : signedFields e = some fields) : Plain '\n' (fields.map Field.chars) := by
  obtain ⟨hnodup, hname⟩ := signedNames_ok _ (names_of_signedFields h)
  refine ⟨?_, ?_, ?_, ?_⟩
  · rw [List.forall_mem_map]
    exact fun field hfield => (he fields h field hfield).1
  · rw [List.forall_mem_map]
    intro field hfield
    rw [List.forall_mem_map]
    exact fun other hother heq =>
      (he fields h field hfield).2 other hother (String.toList_inj.mp heq)
  · rw [List.map_map] at hnodup ⊢
    exact hnodup
  · rw [List.forall_mem_map]
    exact fun field hfield => (hname field.1 (List.mem_map_of_mem hfield)).2

/-- One text is one list of lines. -/
theorem lines_of_stringToSign {e : Envelope} {text : String} (h : stringToSign e = some text) :
    ∃ fields, signedFields e = some fields ∧
      text.toList.splitOn '\n' = lines '\n' (fields.map Field.chars) ++ [[]] := by
  obtain ⟨fields, hfields, rfl⟩ := Option.map_eq_some_iff.mp h
  refine ⟨fields, hfields, ?_⟩
  rw [toList_foldl, String.toList_empty, List.nil_append]
  refine splitOn_render ?_
  rw [List.forall_mem_map]
  have hnames := (signedNames_ok _ (names_of_signedFields hfields)).2
  exact fun field hfield => (hnames field.1 (List.mem_map_of_mem hfield)).1

section same
variable {fields fields' as bs as' bs' : List (String × String)}
    {name value value' next next₁ next₂ : String}

theorem value_eq (hplain : Plain '\n' (fields.map Field.chars))
    (heq : lines '\n' (fields.map Field.chars) ++ [[]] =
      lines '\n' (fields'.map Field.chars) ++ [[]])
    (h : fields = as ++ (name, value) :: (next, next₁) :: bs)
    (h' : fields' = as' ++ (name, value') :: (next, next₂) :: bs') : value' = value := by
  subst h h'
  simp only [List.map_append, List.map_cons] at hplain heq
  exact String.toList_inj.mp (hplain.value_unique heq)

theorem last_eq (hplain : Plain '\n' (fields.map Field.chars))
    (heq : lines '\n' (fields.map Field.chars) ++ [[]] =
      lines '\n' (fields'.map Field.chars) ++ [[]])
    (h : fields = as ++ [(name, value)]) (h' : fields' = as' ++ [(name, value')]) :
    value' = value := by
  subst h h'
  rw [List.map_append] at hplain heq
  rw [List.map_append] at heq
  exact String.toList_inj.mp (hplain.last_unique heq)

end same

/-- **An envelope with the text of a genuine one** is of its kind and its topic, and has its
message; a confirmation has its URL and its token. -/
theorem Genuine.same {e e' : Envelope} (he : Genuine e) {text : String}
    (h : stringToSign e = some text) (h' : stringToSign e' = some text) :
    e'.kind = e.kind ∧ e'.message = e.message ∧ e'.topicArn = e.topicArn ∧
      (e.kind ∈ confirmations → e'.subscribeUrl = e.subscribeUrl ∧ e'.token = e.token) := by
  obtain ⟨fields, hfields, hlines⟩ := lines_of_stringToSign h
  obtain ⟨fields', hfields', hlines'⟩ := lines_of_stringToSign h'
  have hplain := he.plain hfields
  have heq := hlines.symm.trans hlines'
  obtain ⟨middle, hends⟩ := signedFields_ends hfields
  obtain ⟨middle', hends'⟩ := signedFields_ends hfields'
  have hkind : e'.kind = e.kind :=
    last_eq hplain heq (hends.trans (List.append_cons ..)) (hends'.trans (List.append_cons ..))
  refine ⟨hkind, ?_, value_eq hplain heq hends hends', fun hconfirmation => ?_⟩
  · exact value_eq hplain heq (hends.trans (List.nil_append _).symm)
      (hends'.trans (List.nil_append _).symm)
  · obtain ⟨url, token, hurl, htoken, hall⟩ := signedFields_of_confirmation hfields hconfirmation
    obtain ⟨url', token', hurl', htoken', hall'⟩ :=
      signedFields_of_confirmation hfields' (hkind ▸ hconfirmation)
    have hsubscribe : url' = url := value_eq hplain heq hall hall'
    have hconfirm : token' = token := by
      rw [List.append_cons, List.append_cons] at hall hall'
      exact value_eq hplain heq hall hall'
    exact ⟨by rw [hurl, hurl', hsubscribe], by rw [htoken, htoken', hconfirm]⟩

/-- **Of one text there are no two topics**, if they have no newline in them, and no two kinds. -/
theorem topic_unique {e e' : Envelope} (he : '\n' ∉ e.topicArn.toList)
    (he' : '\n' ∉ e'.topicArn.toList) {text : String} (h : stringToSign e = some text)
    (h' : stringToSign e' = some text) :
    e'.kind = e.kind ∧ e'.topicArn = e.topicArn := by
  obtain ⟨fields, hfields, hlines⟩ := lines_of_stringToSign h
  obtain ⟨fields', hfields', hlines'⟩ := lines_of_stringToSign h'
  have heq := hlines.symm.trans hlines'
  obtain ⟨middle, hends⟩ := signedFields_ends hfields
  obtain ⟨middle', hends'⟩ := signedFields_ends hfields'
  rw [hends, hends', List.map_append, List.map_append] at heq
  have hline : ∀ {topic kind : String}, '\n' ∉ topic.toList → '\n' ∉ kind.toList →
      ∀ field ∈ [("TopicArn", topic), ("Type", kind)].map Field.chars, '\n' ∉ field.2 := by
    intro topic kind htopic hkind field hfield
    rcases List.mem_pair.mp hfield with rfl | rfl
    · exact htopic
    · exact hkind
  have htail := suffix_unique (by rfl) (hline he (newline_notMem_kind hfields))
    (hline he' (newline_notMem_kind hfields')) heq
  have hpairs := List.map_injective_iff.mpr Field.chars_injective htail
  simp only [List.cons.injEq, Prod.mk.injEq, true_and, and_true] at hpairs
  exact ⟨hpairs.2.symm, hpairs.1.symm⟩

/-- The signature was made for the text of `e`: with no key is it good for another. -/
def MadeFor {Cert Key : Type} (w : World Cert Key) (e : Envelope) (signature : String) : Prop :=
  ∀ bytes, w.decodeBase64 signature = some bytes → ∀ key text,
    w.verifySignature key text bytes = .ok () → ∃ signed,
      stringToSign e = some signed ∧ text = strBytes signed

/-- **What a signature binds.** An envelope that has the text of a genuine one has its kind, its
message and its topic, and of a confirmation its URL and its token; two envelopes with one text have
one kind and one topic, if the topics have no newline in them; and a signature that was made for
another topic does not make a message authentic for the one that is configured, whatever is in the
cache. -/
theorem signature_binds {Cert Key : Type} (w : World Cert Key) (v : Verifier) :
    (∀ e e' text, Genuine e → stringToSign e = some text → stringToSign e' = some text →
      e'.kind = e.kind ∧ e'.message = e.message ∧ e'.topicArn = e.topicArn ∧
        (e.kind ∈ confirmations → e'.subscribeUrl = e.subscribeUrl ∧ e'.token = e.token)) ∧
    (∀ e e' text, '\n' ∉ e.topicArn.toList → '\n' ∉ e'.topicArn.toList →
      stringToSign e = some text → stringToSign e' = some text →
      e'.kind = e.kind ∧ e'.topicArn = e.topicArn) ∧
    ∀ e e', '\n' ∉ e.topicArn.toList → '\n' ∉ v.topicArn.toList → e.topicArn ≠ v.topicArn →
      MadeFor w e e'.signature → ∀ meanwhile now s,
      (verify w v meanwhile now s e').1 ≠ .ok .authentic := by
  refine ⟨fun e e' text he h h' => he.same h h', fun e e' text he he' h h' =>
    topic_unique he he' h h', ?_⟩
  intro e e' he hv hne hmade meanwhile now s hverify
  obtain ⟨htopic, signed, signature, key, hsigned, hbytes, hverified⟩ :=
    verify_authentic w v hverify
  obtain ⟨signed', hsigned', htext⟩ := hmade signature hbytes key _ hverified
  rw [← strBytes_injective htext] at hsigned'
  exact hne ((topic_unique he (htopic ▸ hv) hsigned' hsigned).2.symm.trans htopic)

/-! ### A subject moved into the message id -/

def sampleTopic : String := "arn:aws:sns:eu-west-1:1:t"

def sampleNotification : Envelope :=
  { kind := "Notification", messageId := "m", token := none, topicArn := sampleTopic,
    subject := some "hi", message := "body", subscribeUrl := none, timestamp :=
      "ts", signatureVersion := "2",
    signature := "c2ln",
    signingCertUrl := "https://sns.eu-west-1.amazonaws.com/" ++
      "SimpleNotificationService-0123456789abcdef0123456789abcdef.pem" }

/-- It has the text of the notification. -/
def sampleMoved : Envelope :=
  { sampleNotification with messageId := "m\nSubject\nhi", subject := none }

def sampleConfirmation : Envelope :=
  { sampleNotification with kind := "SubscriptionConfirmation", token := some "tok", subject :=
    none,
                            subscribeUrl := some "https://x" }

/-- A subject is not signed in a confirmation. -/
def sampleOther : Envelope := { sampleConfirmation with subject := some "Token" }

/-- What was signed is of another topic. -/
def sampleForeign : Envelope := { sampleNotification with topicArn := "arn:aws:sns:eu-west-1:1:u" }

def sampleSigned : Option String := stringToSign sampleForeign

/-- One key, and one signature, of the text of the other topic. -/
def sampleWorld : World Unit Unit where
  debug value := "\"" ++ value ++ "\""
  parseUrl raw :=
    if raw = sampleNotification.signingCertUrl then
      .ok ⟨"https", some "sns.eu-west-1.amazonaws.com", none, "", none,
        "/SimpleNotificationService-0123456789abcdef0123456789abcdef.pem", none, none, raw⟩
    else .error "relative URL without a base"
  decodeBase64 text := if text = "c2ln" then some [115, 105, 103] else none
  get _ := .ok [45, 45, 45]
  fromPem _ := .ok ()
  endEntity _ := some ()
  verifySignature _ text signature :=
    if signature = [115, 105, 103] ∧ some text = sampleSigned.map strBytes then .ok ()
    else .error "InvalidSignatureForPublicKey"

def sampleVerifier : Verifier := ⟨sampleTopic, "eu-west-1", by decide +kernel⟩

theorem madeFor_sampleForeign : MadeFor sampleWorld sampleForeign "c2ln" := by
  intro bytes _ key text hverified
  simp only [sampleWorld, ite_eq_left_iff, reduceCtorEq, imp_false, not_not] at hverified
  obtain ⟨signed, hsigned, htext⟩ := Option.map_eq_some_iff.mp hverified.2.symm
  exact ⟨signed, hsigned, htext.symm⟩

instance (e : Envelope) : Decidable (Genuine e) :=
  decidable_of_iff (∀ fields ∈ (signedFields e).toList, ∀ field ∈ fields,
    '\n' ∉ field.2.toList ∧ ∀ other ∈ fields, field.2 ≠ other.1) (by simp [Genuine])

theorem signature_binds_samples :
    sampleMoved.message = sampleNotification.message ∧
    sampleOther.token = sampleConfirmation.token ∧
      sampleMoved.topicArn = sampleTopic ∧
      (verify sampleWorld sampleVerifier id 0 ⟨[], none⟩ sampleNotification).1 ≠
        .ok .authentic := by
  obtain ⟨hgenuine, htopic, hforeign⟩ := signature_binds sampleWorld sampleVerifier
  refine ⟨?_, ?_, ?_, ?_⟩
  · exact (hgenuine sampleNotification sampleMoved _ (by decide +kernel) rfl
      (by decide +kernel)).2.1
  · exact ((hgenuine sampleConfirmation sampleOther _ (by decide +kernel) rfl
      (by decide +kernel)).2.2.2
      (by decide)).2
  · exact (htopic sampleNotification sampleMoved _ (by decide +kernel) (by decide +kernel) rfl
      (by decide +kernel)).2
  · exact hforeign sampleForeign sampleNotification (by decide +kernel) (by decide +kernel)
      (by decide +kernel)
      madeFor_sampleForeign id 0 ⟨[], none⟩

end Vsms.Provider.Sns
