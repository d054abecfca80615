/-
  Single use of SAML assertions: `parse_and_verify_saml_response` of `app/sso.py`, and the claims
  on assertion ids of `app/storage.py` with the pass that prunes them.

  Time is in microseconds.  A call reads the clock in the check of its conditions, and claims the
  id in a later transaction; a pass reads the clock before its own.
-/
import RuleMind.Lib.Run
import RuleMind.Lib.Raises
import RuleMind.Value

namespace RuleMind.Saml

open Lib

/-! ### A response -/

structure Conditions where
  notBefore : Option String
  notOnOrAfter : Option String
  /-- The texts of the audiences, for each restriction. -/
  audienceRestrictions : List (List String)
  deriving DecidableEq

structure SubjectConfirmationData where
  recipient : Option String
  notOnOrAfter : Option String
  deriving DecidableEq

structure Attribute where
  name : Option String
  friendlyName : Option String
  value : Option String
  deriving DecidableEq

structure Assertion where
  id : Option String
  conditions : Option Conditions
  subjectConfirmations : List SubjectConfirmationData
  attributes : List Attribute
  nameId : Option String
  deriving DecidableEq

structure Config where
  spEntityId : String
  acsUrl : String
  idpCert : String

structure Identity where
  email : String
  name : String
  attributes : List (String × String)
  deriving DecidableEq

/-- What the code takes from `lxml`, `signxml` and `datetime`. -/
structure Library (Xml : Type) where
  /-- `base64.b64decode` and `etree.fromstring`. -/
  decode : String → Except String Xml
  /-- The `Destination` of the root. -/
  destination : Xml → Option String
  /-- `XMLVerifier().verify`, and the assertion in the subtree that is signed. -/
  verify : Xml → String → Except String (Option Assertion)
  /-- `datetime.fromisoformat`, in UTC. -/
  fromisoformat : String → Option ℤ
  /-- `_cert_to_pem`, and whether what it returns holds a certificate. -/
  certToPem : String → String
  hasCertificate : String → Bool
  /-- `str(sorted(audiences))`. -/
  sortedText : List String → String

def strip (s : String) : String := String.ofList (pyStrip s.toList)

/-- The two minutes of `skew_seconds`. -/
def skew : ℤ := 120000000

section Check

variable {Xml : Type} (lib : Library Xml)

def parseSamlDatetime (value : Option String) : Option ℤ :=
  let text := strip (value.getD "")
  if value.getD "" = "" then none
  else if text.toList.getLast? = some 'Z' then
    lib.fromisoformat (String.ofList text.toList.dropLast ++ "+00:00")
  else lib.fromisoformat text

/-- The loop over the `SubjectConfirmationData` elements. -/
def checkConfirmations (expectedAcs : String) (now : ℤ) :
    List SubjectConfirmationData → Except String Unit
  | [] => .ok ()
  | data :: rest =>
    let recipient := strip (data.recipient.getD "")
    if recipient ≠ "" ∧ expectedAcs ≠ "" ∧ recipient ≠ expectedAcs then
      .error "SAML SubjectConfirmationData Recipient does not match this ACS URL."
    else if (parseSamlDatetime lib data.notOnOrAfter).any fun expiry => now - skew ≥ expiry then
      .error "SAML SubjectConfirmation has expired."
    else checkConfirmations expectedAcs now rest

/-- The audiences and the confirmations, after the two times. -/
def checkAddressees (assertion : Assertion) (conditions : Conditions) (config : Config) (now : ℤ) :
    Except String Unit :=
  if conditions.audienceRestrictions = [] then .error "SAML assertion has no AudienceRestriction."
  else
    let audiences := conditions.audienceRestrictions.flatten.map strip
    if config.spEntityId ∉ audiences then
      .error ("SAML assertion audience " ++ lib.sortedText audiences.dedup ++
        " does not include this service provider.")
    else checkConfirmations lib (strip config.acsUrl) now assertion.subjectConfirmations

def validateSamlConditions (assertion : Assertion) (config : Config) (now : ℤ) :
    Except String Unit :=
  match assertion.conditions with
  | none => .error "SAML assertion has no Conditions element (cannot establish validity)."
  | some conditions =>
    match parseSamlDatetime lib conditions.notBefore,
      parseSamlDatetime lib conditions.notOnOrAfter with
    | some notBefore, some notOnOrAfter =>
      if now + skew < notBefore then .error "SAML assertion is not yet valid."
      else if now - skew ≥ notOnOrAfter then .error "SAML assertion has expired."
      else checkAddressees lib assertion conditions config now
    | _, _ => .error "SAML assertion Conditions must carry NotBefore and NotOnOrAfter."

/-- The assertion that the response carries inside its signature. -/
def signedAssertion (config : Config) (samlResponse : String) : Except String Assertion := do
  let root ← lib.decode samlResponse
  let expectedAcs := strip config.acsUrl
  let destination := strip ((lib.destination root).getD "")
  if destination ≠ "" ∧ expectedAcs ≠ "" ∧ destination ≠ expectedAcs then
    throw "SAMLResponse Destination does not match this ACS URL."
  else if lib.hasCertificate (lib.certToPem config.idpCert) = false then
    throw "No IdP certificate configured for SAML signature verification."
  else
    match ← lib.verify root (lib.certToPem config.idpCert) with
    | none => throw "No signed assertion found in SAMLResponse."
    | some assertion => return assertion

/-- What is claimed: the id, and the expiry to prune it by. -/
def assertionId (assertion : Assertion) : String := strip (assertion.id.getD "")

def expiryOf (assertion : Assertion) : Option ℤ :=
  assertion.conditions.bind fun conditions => parseSamlDatetime lib conditions.notOnOrAfter

/-- `parse_and_verify_saml_response`, up to the claim. -/
def verifyResponse (config : Config) (samlResponse : String) (now : ℤ) :
    Except String Assertion := do
  let assertion ← signedAssertion lib config samlResponse
  validateSamlConditions lib assertion config now
  if assertionId assertion = "" then
    throw "SAML assertion has no ID, so single-use cannot be enforced."
  else return assertion

end Check

/-- `attributes[name]`. -/
def attributesOf : List Attribute → List (String × String) → List (String × String)
  | [], attributes => attributes
  | attr :: rest, attributes =>
    let name := if attr.name.getD "" = "" then attr.friendlyName.getD "" else attr.name.getD ""
    if name ≠ "" ∧ attr.value.getD "" ≠ "" then
      let value := strip (attr.value.getD "")
      attributesOf rest (if attributes.any (·.1 == name) then
        attributes.map fun entry => if entry.1 == name then (name, value) else entry
        else attributes ++ [(name, value)])
    else attributesOf rest attributes

/-- `attributes.get(key)`, where it is not empty. -/
def attributeOf (attributes : List (String × String)) (key : String) : Option String :=
  ((attributes.find? (·.1 == key)).map Prod.snd).filter (· ≠ "")

def emailKeys : List String :=
  ["email", "mail", "urn:oid:0.9.2342.19200300.100.1.3",
    "http://schemas.xmlsoap.org/ws/2005/05/identity/claims/emailaddress"]

/-- `parse_and_verify_saml_response`, after the claim. -/
def identityOf (assertion : Assertion) : Except String Identity :=
  let attributes := attributesOf assertion.attributes []
  let nameId := strip (assertion.nameId.getD "")
  match emailKeys.findSome? (attributeOf attributes) <|>
      (if '@' ∈ nameId.toList then some nameId else none) with
  | none => .error "SAML assertion has no email (NameID or email attribute)."
  | some email =>
    let display := attributeOf attributes "name" <|> attributeOf attributes
      "http://schemas.xmlsoap.org/ws/2005/05/identity/claims/name"
    .ok ⟨email, display.getD email, attributes⟩

/-! ### Calls and passes -/

/-- A row of `saml_assertions_seen`. -/
structure Seen where
  tenant : String
  assertionId : String
  notOnOrAfter : Option ℤ
  deriving DecidableEq

inductive Phase
  | idle
  | posted (tenant samlResponse : String)
  /-- It has passed every check. -/
  | verified (tenant : String) (assertion : Assertion)
  | refused (error : String)
  /-- It has claimed the id, and returned or raised. -/
  | claimed (tenant : String) (assertion : Assertion) (result : Except String Identity)

structure State where
  now : ℤ
  seen : List Seen
  call : ℕ → Phase

inductive Action
  | wait (microseconds : ℕ)
  | post (n : ℕ) (tenant samlResponse : String)
  | verify (n : ℕ)
  /-- `claim_saml_assertion`, and the rest of the call. -/
  | claim (n : ℕ)
  /-- `prune_saml_assertions`, with the time it has read. -/
  | prune (tenant : String) (now : ℤ)

section Runs

variable {Xml : Type} (lib : Library Xml) (config : String → Config)

def State.init (now : ℤ) : State := ⟨now, [], fun _ => .idle⟩

def State.move (s : State) (n : ℕ) (phase : Phase) : State :=
  { s with call := Function.update s.call n phase }

def State.insert (s : State) (row : Seen) : State := { s with seen := s.seen ++ [row] }

def Seen.is (row : Seen) (tenant id : String) : Bool :=
  row.tenant == tenant && row.assertionId == id

/-- The rows that a pass at `now` deletes. -/
def Seen.stale (row : Seen) (tenant : String) (now : ℤ) : Bool :=
  row.tenant == tenant && row.notOnOrAfter.any (· < now)

def step (s : State) : Action → Option State
  | .wait d => some { s with now := s.now + d }
  | .post n tenant samlResponse =>
    match s.call n with
    | .idle => some (s.move n (.posted tenant samlResponse))
    | _ => none
  | .verify n =>
    match s.call n with
    | .posted tenant samlResponse =>
      match verifyResponse lib (config tenant) samlResponse s.now with
      | .error e => some (s.move n (.refused e))
      | .ok assertion => some (s.move n (.verified tenant assertion))
    | _ => none
  | .claim n =>
    match s.call n with
    | .verified tenant assertion =>
      if s.seen.any (·.is tenant (assertionId assertion)) then
        some (s.move n (.refused "This SAML assertion has already been used."))
      else
        some ((s.insert ⟨tenant, assertionId assertion, expiryOf lib assertion⟩).move n
          (.claimed tenant assertion (identityOf assertion)))
    | _ => none
  | .prune tenant now =>
    if now ≤ s.now then some { s with seen := s.seen.filter fun row => !row.stale tenant now }
    else none

/-! ### Single use -/

/-- The tenant's identity provider has signed a response with this assertion. -/
def Signed (tenant : String) (assertion : Assertion) : Prop :=
  ∃ samlResponse, signedAssertion lib (config tenant) samlResponse = .ok assertion

/-- The id cannot be presented any more: no call is past its checks with it, and whatever is signed
    with it has expired, skew included. -/
structure Spent (s : State) (tenant id : String) : Prop where
  verified : ∀ n assertion, s.call n = .verified tenant assertion → assertionId assertion ≠ id
  expired : ∀ assertion, Signed lib config tenant assertion → assertionId assertion = id →
    ∀ expiry ∈ expiryOf lib assertion, expiry ≤ s.now - skew

/-- The pass drops no claim on an id that can still be presented. -/
def Late (s : State) : Action → Prop
  | .prune tenant now =>
    ∀ row ∈ s.seen, row.stale tenant now = true → Spent lib config s tenant row.assertionId
  | _ => True

def Claimed (s : State) (n : ℕ) (tenant id : String) : Prop :=
  ∃ assertion result, s.call n = .claimed tenant assertion result ∧ assertionId assertion = id

/-- The call has returned an identity, for this id. -/
def LoggedIn (s : State) (n : ℕ) (tenant id : String) : Prop :=
  ∃ assertion identity, s.call n = .claimed tenant assertion (.ok identity) ∧
    assertionId assertion = id

/-- What a claim comes with: its row, unless the id is spent, and no second claim. -/
structure Kept (s : State) : Prop where
  row : ∀ n tenant id, Claimed s n tenant id →
    s.seen.any (·.is tenant id) = true ∨ Spent lib config s tenant id
  once : ∀ m n tenant id, Claimed s m tenant id → Claimed s n tenant id → m = n

variable {lib config} {s s' : State} {n : ℕ} {tenant id : String} {assertion : Assertion}

variable {samlResponse : String}

theorem verifyResponse_ok {c : Config} {now : ℤ}
    (h : verifyResponse lib c samlResponse now = .ok assertion) :
    signedAssertion lib c samlResponse = .ok assertion ∧
      ∃ expiry ∈ expiryOf lib assertion, now - skew < expiry := by
  obtain ⟨assertion', hsigned, h⟩ := bind_eq_ok.1 h
  obtain ⟨_, hvalid, h⟩ := bind_eq_ok.1 h
  split at h
  · cases h
  · cases h
    grind [validateSamlConditions, expiryOf]

theorem Spent.not_verified (h : Spent lib config s tenant id)
    (hverify : verifyResponse lib (config tenant) samlResponse s.now = .ok assertion) :
    assertionId assertion ≠ id := by
  intro hid
  obtain ⟨hsigned, expiry, hexpiry, hfresh⟩ := verifyResponse_ok hverify
  have hle := h.expired assertion ⟨samlResponse, hsigned⟩ hid expiry hexpiry
  omega

theorem Spent.of_calls (h : Spent lib config s tenant id) (hnow : s.now ≤ s'.now)
    (hcalls : ∀ n assertion, s'.call n = .verified tenant assertion →
      s.call n = .verified tenant assertion ∨ assertionId assertion ≠ id) :
    Spent lib config s' tenant id where
  verified n assertion hcall := by
    rcases hcalls n assertion hcall with hold | hid
    · exact h.verified n assertion hold
    · exact hid
  expired assertion hsigned hid expiry hexpiry := by
    have hle := h.expired assertion hsigned hid expiry hexpiry
    omega

@[simp] theorem move_now (s : State) (n : ℕ) (phase : Phase) : (s.move n phase).now = s.now := rfl

@[simp] theorem move_seen (s : State) (n : ℕ) (phase : Phase) :
    (s.move n phase).seen = s.seen := rfl

theorem move_call (s : State) (n m : ℕ) (phase : Phase) :
    (s.move n phase).call m = if m = n then phase else s.call m :=
  Function.update_apply s.call n phase m

theorem Kept.move (h : Kept lib config s) {phase : Phase}
    (hphase : ∀ tenant assertion, phase ≠ .verified tenant assertion)
    (hphase' : ∀ tenant assertion result, phase ≠ .claimed tenant assertion result) :
    Kept lib config (s.move n phase) := by
  have hclaimed : ∀ m tenant id, Claimed (s.move n phase) m tenant id → Claimed s m tenant id := by
    rintro m tenant id ⟨assertion, result, hcall, hid⟩
    rw [move_call] at hcall
    split at hcall
    · exact absurd hcall (hphase' _ _ _)
    · exact ⟨assertion, result, hcall, hid⟩
  refine ⟨?_, fun m m' tenant id hm hm' => h.once m m' tenant id (hclaimed _ _ _ hm)
    (hclaimed _ _ _ hm')⟩
  intro m tenant id hm
  rcases h.row m tenant id (hclaimed _ _ _ hm) with hrow | hspent
  · exact .inl hrow
  · refine .inr (hspent.of_calls le_rfl ?_)
    grind [move_call]

theorem Kept.verify (h : Kept lib config s)
    (hverify : verifyResponse lib (config tenant) samlResponse s.now = .ok assertion) :
    Kept lib config (s.move n (.verified tenant assertion)) := by
  have hclaimed : ∀ m tenant' id, Claimed (s.move n (.verified tenant assertion)) m tenant' id →
      Claimed s m tenant' id := by
    rintro m tenant' id ⟨assertion', result, hcall, hid⟩
    rw [move_call] at hcall
    split at hcall
    · cases hcall
    · exact ⟨assertion', result, hcall, hid⟩
  refine ⟨?_, fun m m' tenant' id hm hm' => h.once m m' tenant' id (hclaimed _ _ _ hm)
    (hclaimed _ _ _ hm')⟩
  intro m tenant' id hm
  rcases h.row m tenant' id (hclaimed _ _ _ hm) with hrow | hspent
  · exact .inl hrow
  · refine .inr (hspent.of_calls le_rfl ?_)
    intro k assertion' hcall
    rw [move_call] at hcall
    split at hcall
    · cases hcall
      exact .inr (hspent.not_verified hverify)
    · exact .inl hcall

theorem seen_append {rows : List Seen} {row : Seen} (h : rows.any (·.is tenant id) = true) :
    (rows ++ [row]).any (·.is tenant id) = true := by
  rw [List.any_append, h, Bool.true_or]

theorem Kept.claim (h : Kept lib config s) (hcall : s.call n = .verified tenant assertion)
    (hfree : s.seen.any (·.is tenant (assertionId assertion)) = false)
    (result : Except String Identity) {expiry : Option ℤ} :
    Kept lib config ((s.insert ⟨tenant, assertionId assertion, expiry⟩).move n
      (.claimed tenant assertion result)) := by
  -- No call has claimed it before: its row would be there, or the id spent.
  have hfirst : ∀ m, ¬ Claimed s m tenant (assertionId assertion) := by
    intro m hm
    rcases h.row m tenant _ hm with hrow | hspent
    · rw [hfree] at hrow
      cases hrow
    · exact hspent.verified n assertion hcall rfl
  have hclaimed : ∀ m tenant' id, Claimed ((s.insert ⟨tenant, assertionId assertion, expiry⟩).move n
      (.claimed tenant assertion result)) m tenant' id →
      m = n ∧ tenant' = tenant ∧ id = assertionId assertion ∨ m ≠ n ∧ Claimed s m tenant' id := by
    rintro m tenant' id ⟨assertion', result', hcall', hid⟩
    rw [move_call] at hcall'
    split at hcall'
    · simp_all
    · rename_i hm
      exact .inr ⟨hm, assertion', result', hcall', hid⟩
  constructor
  · intro m tenant' id hm
    rcases hclaimed m tenant' id hm with ⟨rfl, rfl, rfl⟩ | ⟨hmn, hm⟩
    · left
      simp [State.insert, Seen.is]
    · rcases h.row m tenant' id hm with hrow | hspent
      · exact .inl (seen_append hrow)
      · refine .inr (hspent.of_calls le_rfl ?_)
        intro k assertion' hcall'
        rw [move_call] at hcall'
        split at hcall'
        · cases hcall'
        · exact .inl hcall'
  · intro m m' tenant' id hm hm'
    rcases hclaimed m tenant' id hm with ⟨rfl, rfl, rfl⟩ | ⟨_, hold⟩
    · grind
    · rcases hclaimed m' _ _ hm' with ⟨rfl, rfl, rfl⟩ | ⟨_, hold'⟩
      · exact absurd hold (hfirst m)
      · exact h.once m m' tenant' id hold hold'

theorem Kept.prune (h : Kept lib config s) {now : ℤ}
    (hlate : Late lib config s (.prune tenant now)) :
    Kept lib config { s with seen := s.seen.filter fun row => !row.stale tenant now } := by
  refine ⟨?_, h.once⟩
  intro m tenant' id hm
  rcases h.row m tenant' id hm with hrow | hspent
  · obtain ⟨row, hmem, his⟩ := List.any_eq_true.1 hrow
    simp only [Seen.is, Bool.and_eq_true, beq_iff_eq] at his
    cases hstale : row.stale tenant now with
    | false =>
      left
      refine List.any_eq_true.2 ⟨row, List.mem_filter.2 ⟨hmem, by simp [hstale]⟩, ?_⟩
      simp [Seen.is, his]
    | true =>
      have htenant : row.tenant = tenant := by
        simp only [Seen.stale, Bool.and_eq_true, beq_iff_eq] at hstale
        exact hstale.1
      have hspent := hlate row hmem hstale
      rw [← htenant, his.1, his.2] at hspent
      exact .inr ⟨hspent.verified, hspent.expired⟩
  · exact .inr ⟨hspent.verified, hspent.expired⟩

theorem step_kept {a : Action} (h : Kept lib config s) (hlate : Late lib config s a)
    (hstep : step lib config s a = some s') : Kept lib config s' := by
  cases a with
  | wait d =>
    obtain rfl := Option.some.inj hstep
    refine ⟨fun m tenant id hm => ?_, h.once⟩
    rcases h.row m tenant id hm with hrow | hspent
    · exact .inl hrow
    · exact .inr (hspent.of_calls (by simp) fun _ _ hcall => .inl hcall)
  | post n tenant samlResponse =>
    simp only [step] at hstep
    split at hstep
    · obtain rfl := Option.some.inj hstep
      exact h.move (fun _ _ h => nomatch h) fun _ _ _ h => nomatch h
    · cases hstep
  | verify n =>
    simp only [step] at hstep
    split at hstep
    · split at hstep
      · obtain rfl := Option.some.inj hstep
        exact h.move (fun _ _ h => nomatch h) fun _ _ _ h => nomatch h
      · rename_i hverify
        obtain rfl := Option.some.inj hstep
        exact h.verify hverify
    · cases hstep
  | claim n =>
    simp only [step] at hstep
    split at hstep
    · rename_i tenant assertion hcall
      split at hstep
      · obtain rfl := Option.some.inj hstep
        exact h.move (fun _ _ h => nomatch h) fun _ _ _ h => nomatch h
      · rename_i hfree
        obtain rfl := Option.some.inj hstep
        exact h.claim hcall (by simpa using hfree) _
    · cases hstep
  | prune tenant now =>
    obtain ⟨_, hstep⟩ := Option.ite_none_right_eq_some.1 hstep
    obtain rfl := Option.some.inj hstep
    exact h.prune hlate

theorem init_kept (now : ℤ) : Kept lib config (State.init now) where
  row _ _ _ := fun ⟨_, _, hcall, _⟩ => nomatch hcall
  once _ _ _ _ := fun ⟨_, _, hcall, _⟩ => nomatch hcall

/-- **An assertion logs in at most once**: in every interleaving of calls and passes in which a
    pass drops no claim on an id that can still be presented, no two calls of a tenant log in on
    assertions with the same id. -/
theorem logs_in_once {now : ℤ}
    (hrun : Reach (step lib config) (Late lib config) (State.init now) s) {m n : ℕ} (hmn : m ≠ n)
    {tenant id id' : String} (hm : LoggedIn s m tenant id) (hn : LoggedIn s n tenant id') :
    id ≠ id' := by
  have hkept : Kept lib config s :=
    hrun.invariant (init_kept now) fun _ _ _ h hlate hstep => step_kept h hlate hstep
  obtain ⟨assertion, identity, hcall, hid⟩ := hm
  obtain ⟨assertion', identity', hcall', hid'⟩ := hn
  rintro rfl
  exact hmn (hkept.once m n tenant id ⟨assertion, _, hcall, hid⟩ ⟨assertion', _, hcall', hid'⟩)

end Runs

/-! ### Two assertions of one workspace -/

/-- An assertion that is valid for the first five minutes. -/
def demoAssertion (id : String) : Assertion where
  id := some id
  conditions := some ⟨some "2026-01-01T00:00:00Z", some "2026-01-01T00:05:00Z", [["rulemind"]]⟩
  subjectConfirmations := []
  attributes := []
  nameId := some "ada@acme.test"

/-- The texts that the two assertions need; a document is known by the id of its assertion. -/
def demoLibrary : Library String where
  decode
    | "first" => .ok "_a1"
    | "second" => .ok "_a2"
    | _ => .error "SAMLResponse is not valid base64: Incorrect padding"
  destination _ := none
  verify id _ := .ok (some (demoAssertion id))
  fromisoformat text :=
    if text = "2026-01-01T00:00:00+00:00" then some 0
    else if text = "2026-01-01T00:05:00+00:00" then some 300000000
    else none
  certToPem cert := cert
  hasCertificate _ := true
  sortedText _ := "[]"

def demoConfig (_ : String) : Config := ⟨"rulemind", "", "-----BEGIN CERTIFICATE-----"⟩

theorem demo_signed {tenant : String} {assertion : Assertion}
    (h : Signed demoLibrary demoConfig tenant assertion) : ∃ id, assertion = demoAssertion id := by
  obtain ⟨samlResponse, h⟩ := h
  obtain ⟨root, _, h⟩ := bind_eq_ok.1 h
  exact ⟨root, (Except.ok.inj h).symm⟩

theorem demo_expiry (id : String) : expiryOf demoLibrary (demoAssertion id) = some 300000000 := rfl

/-- Both log in; a pass seven minutes after midnight drops both claims. -/
def latePass : List Action :=
  [.post 0 "acme" "first", .post 1 "acme" "second", .verify 0, .verify 1, .claim 1, .claim 0,
    .wait 420000000]

theorem demo_late {s : State} (hnow : s.now = 420000000)
    (hcalls : ∀ n tenant assertion, s.call n ≠ .verified tenant assertion) :
    Late demoLibrary demoConfig s (.prune "acme" 420000000) := by
  intro row _ _
  refine ⟨fun n assertion hcall => absurd hcall (hcalls n _ _), ?_⟩
  intro assertion hsigned _ expiry hexpiry
  obtain ⟨id, rfl⟩ := demo_signed hsigned
  rw [demo_expiry] at hexpiry
  cases hexpiry
  rw [hnow]
  decide

theorem late_pass_logs_in_once :
    ∃ s s' : State, step demoLibrary demoConfig s (.prune "acme" 420000000) = some s' ∧
      s.seen.length = 2 ∧ s'.seen = [] ∧ LoggedIn s' 0 "acme" "_a1" ∧ LoggedIn s' 1 "acme" "_a2" ∧
      "_a1" ≠ "_a2" := by
  obtain ⟨s, hs⟩ : ∃ s, exec (step demoLibrary demoConfig) (State.init 0) latePass = some s :=
    ⟨_, rfl⟩
  have hreach : Reach (step demoLibrary demoConfig) (Late demoLibrary demoConfig)
      (State.init 0) s :=
    reach_exec hs (.cons trivial rfl (.cons trivial rfl (.cons trivial rfl (.cons trivial rfl
      (.cons trivial rfl (.cons trivial rfl (.cons trivial rfl trivial)))))))
  have hcalls : ∀ n tenant assertion, s.call n ≠ .verified tenant assertion := by
    cases hs
    rintro (_ | _ | n) tenant assertion hcall
    · cases hcall
    · cases hcall
    · cases hcall
  have hlate : Late demoLibrary demoConfig s (.prune "acme" 420000000) :=
    demo_late (by cases hs; rfl) hcalls
  obtain ⟨s', hs'⟩ : ∃ s', step demoLibrary demoConfig s (.prune "acme" 420000000) = some s' := by
    cases hs
    exact ⟨_, rfl⟩
  have hlast := hreach.next hlate hs'
  have hfirst : LoggedIn s' 0 "acme" "_a1" := by
    cases hs
    cases hs'
    exact ⟨demoAssertion "_a1", _, rfl, rfl⟩
  have hsecond : LoggedIn s' 1 "acme" "_a2" := by
    cases hs
    cases hs'
    exact ⟨demoAssertion "_a2", _, rfl, rfl⟩
  refine ⟨s, s', hs', ?_, ?_, hfirst, hsecond, logs_in_once hlast Nat.zero_ne_one hfirst hsecond⟩
  · cases hs
    rfl
  · cases hs
    cases hs'
    rfl

/-- **A claim is pruned before its assertion stops to pass**: a minute past its NotOnOrAfter, and a
    pass later, the assertion logs in again. -/
theorem pruned_in_skew :
    ∃ s, Reachable (step demoLibrary demoConfig) (State.init 0) s ∧
      LoggedIn s 0 "acme" "_a1" ∧ LoggedIn s 1 "acme" "_a1" :=
  ⟨_, reachable_exec (show exec _ _ [.post 0 "acme" "first", .verify 0, .claim 0, .wait 360000000,
    .prune "acme" 360000000, .post 1 "acme" "first", .verify 1, .claim 1] = some _ from rfl),
    ⟨demoAssertion "_a1", _, rfl, rfl⟩, ⟨demoAssertion "_a1", _, rfl, rfl⟩⟩

end RuleMind.Saml
