import Foundrix.OidcValidator.Check

/-!
# What a verdict of the OIDC validator says

The verdict of `check` against the exchanges that it recorded.

* `Rejection`, `Endpoint.Acceptance`: what an answer says about the credentials.
* `Endpoint.attempt_spec`, `tryFrom_spec`: one attempt, and the attempts one after another.
* `verdict_sound`: the verdict tells the answers, and where the credentials were sent.
-/

namespace Foundrix.OidcValidator

open Text

/-! ## What is probed -/

/-- An endpoint that the credentials are tried at. -/
inductive Endpoint where
  | introspection (url : String)
  | token (url : String)

/-- The introspection endpoint where one is advertised, otherwise the token endpoint. -/
def probed (doc : Json) : Option Endpoint :=
  match (doc.get "introspection_endpoint").bind Json.asStr with
  | some url => some (.introspection url)
  | none => ((doc.get "token_endpoint").bind Json.asStr).map .token

theorem probed_none {doc : Json} (h : probed doc = none) :
    (doc.get "introspection_endpoint").bind Json.asStr = none ∧
      (doc.get "token_endpoint").bind Json.asStr = none := by
  unfold probed at h
  cases hi : (doc.get "introspection_endpoint").bind Json.asStr with
  | some url =>
    rw [hi] at h
    cases h
  | none =>
    rw [hi] at h
    exact ⟨rfl, Option.map_eq_none_iff.mp h⟩

/-! ## What the answers say -/

section Answers

variable [Externals]

/-- The server looked at the credentials and rejected them. -/
def Rejection (a : Answer) : Prop :=
  ∃ reply, a = .ok reply ∧ success reply.status = false ∧ reply.status ≠ 429 ∧
    reply.status < 500 ∧ (errorCode reply.text = some "invalid_client" ∨
      (reply.status = 401 ∨ reply.status = 403) ∧ errorCode reply.text = none)

namespace Endpoint

/-- The key of the endpoint in the discovery document. -/
def key : Endpoint → String
  | introspection _ => "introspection_endpoint"
  | token _ => "token_endpoint"

def url : Endpoint → String
  | introspection url => url
  | token url => url

/-- The key under which the methods of the endpoint are advertised. -/
def methodsKey : Endpoint → String
  | introspection _ => "introspection_endpoint_auth_methods_supported"
  | token _ => "token_endpoint_auth_methods_supported"

def request (p : Endpoint) (args : Args) (clientId clientSecret : String) (m : AuthMethod) :
    Request where
  method := .post
  url := p.url
  headers := requestHeaders clientId clientSecret m
  form := match p with
    | introspection _ => introspectionForm clientId clientSecret m
    | token _ => tokenForm args clientId clientSecret m

/-- The answer proves the credentials: an introspection answer also says whether the token
is active. -/
def Acceptance (p : Endpoint) (a : Answer) : Prop :=
  ∃ reply, a = .ok reply ∧ success reply.status = true ∧
    match p with
    | introspection _ => ∃ v active, Externals.jsonFromStr reply.text = .ok v ∧
        (v.get "active").bind Json.asBool = some active
    | token _ => True

end Endpoint

/-- The exchange gave the discovery document. -/
def Discovered (args : Args) (e : Exchange) (doc : Json) : Prop :=
  e.request = { method := .get, url := discoveryUrl (trimEndMatches args.issuer '/') } ∧
    ∃ reply body, e.answer = .ok reply ∧ success reply.status = true ∧ reply.body = .ok body ∧
      Externals.jsonFromStr body = .ok doc

/-- After discovery, `p` was asked with some of the negotiated methods in their order. -/
def Probing (args : Args) (clientId clientSecret : String) (sent : List Exchange) (p : Endpoint)
    (methods : List AuthMethod) (probes : List Exchange) : Prop :=
  ∃ discovery doc tried, sent = discovery :: probes ∧ Discovered args discovery doc ∧
    probed doc = some p ∧ negotiatedMethods doc p.methodsKey = .ok methods ∧
    tried <+: methods ∧
    probes.map Exchange.request = tried.map (p.request args clientId clientSecret)

/-- The endpoint was asked with every negotiated method and rejected every one. -/
def AllRejected (args : Args) (clientId clientSecret : String) (sent : List Exchange) : Prop :=
  ∃ p methods probes, Probing args clientId clientSecret sent p methods probes ∧
    probes.map Exchange.request = methods.map (p.request args clientId clientSecret) ∧
    ∀ e ∈ probes, Rejection e.answer

/-- The last answer proved the credentials, and the methods before it were rejected. -/
def OneAccepted (args : Args) (clientId clientSecret : String) (sent : List Exchange) : Prop :=
  ∃ p methods earlier last,
    Probing args clientId clientSecret sent p methods (earlier ++ [last]) ∧
    (∀ e ∈ earlier, Rejection e.answer) ∧ p.Acceptance last.answer

/-- The request has an `Authorization` header or the secret in its form. -/
def Request.CarriesCredentials (r : Request) : Prop :=
  (∃ v, ("Authorization", v) ∈ r.headers) ∨ ∃ v, ("client_secret", v) ∈ r.form

/-! ## One answer -/

theorem Rejection.not_acceptance {p : Endpoint} {a : Answer} (h : Rejection a) :
    ¬ p.Acceptance a := by
  rintro ⟨reply', ha', hs', -⟩
  obtain ⟨reply, ha, hs, -⟩ := h
  rw [ha] at ha'
  cases ha'
  rw [hs] at hs'
  cases hs'

/-- Away from success the two classifications agree on their status. -/
theorem classify_status {status : Nat} (h : success status = false) (body : String) :
    (classifyIntrospection status body).status = (classifyToken status body).status := by
  unfold classifyIntrospection classifyToken
  simp only [h, Bool.false_eq_true, if_false]
  by_cases hfailed : (decide (status ≥ 500) || status == 429) = true
  · rw [if_pos hfailed, if_pos hfailed]
    rfl
  · rw [if_neg hfailed, if_neg hfailed]
    cases errorCode body with
    | none =>
      by_cases hauth : (status == 401 || status == 403) = true
      · simp [hauth, Verdict.status]
      · simp [hauth, Verdict.status]
    | some code =>
      by_cases hclient : code = "invalid_client"
      · simp [hclient, Verdict.status]
      · by_cases hgrant : code ∈ grantRefusals
        · simp [hclient, hgrant, Verdict.status]
        · simp [hclient, hgrant, Verdict.status]

theorem classifyToken_invalid {reply : Reply} :
    (classifyToken reply.status reply.text).status = .invalid ↔ Rejection (.ok reply) := by
  unfold classifyToken Rejection
  simp only [Except.ok.injEq, exists_eq_left']
  by_cases hs : success reply.status = true
  · simp [hs, Verdict.status]
  · have hs' : success reply.status = false := by simpa using hs
    by_cases hfailed : (decide (reply.status ≥ 500) || reply.status == 429) = true
    · have hno : ¬ (reply.status ≠ 429 ∧ reply.status < 500) := by
        simp only [Bool.or_eq_true, decide_eq_true_eq, beq_iff_eq] at hfailed
        omega
      rw [if_neg hs, if_pos hfailed]
      constructor
      · intro h
        cases h
      · rintro ⟨-, h429, h500, -⟩
        exact absurd ⟨h429, h500⟩ hno
    · have hno : reply.status ≠ 429 ∧ reply.status < 500 := by
        simp only [Bool.or_eq_true, decide_eq_true_eq, beq_iff_eq] at hfailed
        omega
      rw [if_neg hs, if_neg hfailed]
      simp only [hs', hno, ne_eq, not_false_eq_true, true_and]
      cases errorCode reply.text with
      | none =>
        by_cases hauth : reply.status = 401 ∨ reply.status = 403
        · simp [hauth, Verdict.status]
        · simp [hauth, Verdict.status]
      | some code =>
        by_cases hclient : code = "invalid_client"
        · simp [hclient, Verdict.status]
        · by_cases hgrant : code ∈ grantRefusals
          · simp [hclient, hgrant, Verdict.status]
          · simp [hclient, hgrant, Verdict.status]

theorem classifyToken_valid (url : String) {reply : Reply} :
    (classifyToken reply.status reply.text).status = .valid ↔
      (Endpoint.token url).Acceptance (.ok reply) := by
  unfold Endpoint.Acceptance
  simp only [Except.ok.injEq, exists_eq_left', and_true]
  by_cases hs : success reply.status = true
  · simp [classifyToken, hs, Verdict.status]
  · have hs' : success reply.status = false := by simpa using hs
    rw [← classify_status hs']
    unfold classifyIntrospection
    simp only [hs', Bool.false_eq_true, if_false, iff_false]
    split
    · exact nofun
    · split <;> split <;> exact nofun

theorem classifyIntrospection_valid {url : String} {reply : Reply} :
    (classifyIntrospection reply.status reply.text).status = .valid ↔
      (Endpoint.introspection url).Acceptance (.ok reply) := by
  unfold Endpoint.Acceptance
  simp only [Except.ok.injEq, exists_eq_left']
  by_cases hs : success reply.status = true
  · unfold classifyIntrospection
    rw [if_pos hs]
    cases hv : Externals.jsonFromStr reply.text with
    | error e => simp [Except.toOption, hs, Verdict.status]
    | ok v =>
      cases hactive : (v.get "active").bind Json.asBool with
      | none => simp [Except.toOption, hs, hactive, Verdict.status]
      | some active => simp [Except.toOption, hs, hactive, Verdict.status]
  · have hs' : success reply.status = false := by simpa using hs
    rw [classify_status hs', classifyToken_valid url]
    simp [Endpoint.Acceptance, hs']

theorem classifyIntrospection_invalid {reply : Reply} :
    (classifyIntrospection reply.status reply.text).status = .invalid ↔ Rejection (.ok reply) := by
  by_cases hs : success reply.status = true
  · unfold classifyIntrospection Rejection
    rw [if_pos hs]
    simp only [Except.ok.injEq, exists_eq_left', hs, Bool.true_eq_false, false_and, iff_false]
    split <;> exact nofun
  · have hs' : success reply.status = false := by simpa using hs
    rw [classify_status hs', classifyToken_invalid]

/-! ## Attempts -/

/-- One attempt with a method at an endpoint. -/
def Endpoint.attempt (p : Endpoint) (servers : Servers) (args : Args)
    (clientId clientSecret : String) (m : AuthMethod) : StateM (List Exchange) Verdict :=
  match p with
  | introspection url => introspectionRequest servers url clientId clientSecret m
  | token url => tokenRequest servers args url clientId clientSecret m

/-- The verdict of one attempt on its answer. -/
def Endpoint.verdict : Endpoint → Answer → Verdict
  | introspection _, .ok reply => classifyIntrospection reply.status reply.text
  | introspection url, .error e => .error s!"introspection request to {url}: {e}"
  | token _, .ok reply => classifyToken reply.status reply.text
  | token url, .error e => .error s!"token request to {url}: {e}"

/-- One attempt sends one request, and its verdict is that of the answer. -/
theorem Endpoint.attempt_eq (p : Endpoint) (servers : Servers) (args : Args)
    (clientId clientSecret : String) (m : AuthMethod) (sent : List Exchange) :
    let r := p.request args clientId clientSecret m
    p.attempt servers args clientId clientSecret m sent =
      (p.verdict (servers sent r), sent ++ [⟨r, servers sent r⟩]) := by
  cases p with
  | introspection url =>
    show introspectionRequest servers url clientId clientSecret m sent = _
    rw [introspectionRequest, send_bind]
    simp only [request, Endpoint.url]
    cases servers sent _ with
    | error e => rfl
    | ok reply => rfl
  | token url =>
    show tokenRequest servers args url clientId clientSecret m sent = _
    rw [tokenRequest, send_bind]
    simp only [request, Endpoint.url]
    cases servers sent _ with
    | error e => rfl
    | ok reply => rfl

theorem Endpoint.verdict_invalid {p : Endpoint} {a : Answer} :
    (p.verdict a).status = .invalid ↔ Rejection a := by
  cases a with
  | error e =>
    have herror : (p.verdict (.error e)).status = .error := by cases p <;> rfl
    rw [herror]
    constructor
    · exact nofun
    · rintro ⟨reply, h, -⟩
      cases h
  | ok reply =>
    cases p with
    | introspection url => exact classifyIntrospection_invalid
    | token url => exact classifyToken_invalid

theorem Endpoint.verdict_valid {p : Endpoint} {a : Answer} :
    (p.verdict a).status = .valid ↔ p.Acceptance a := by
  cases a with
  | error e =>
    have herror : (p.verdict (.error e)).status = .error := by cases p <;> rfl
    rw [herror]
    constructor
    · exact nofun
    · rintro ⟨reply, h, -⟩
      cases h
  | ok reply =>
    cases p with
    | introspection url => exact classifyIntrospection_valid
    | token url => exact classifyToken_valid url

/-- The attempts with the methods left: what was asked, and what the verdict says of it. -/
theorem tryFrom_spec (p : Endpoint) (servers : Servers) (args : Args)
    (clientId clientSecret : String) (last : Option String) (methods : List AuthMethod)
    (sent : List Exchange) :
    ∃ v probes tried,
      tryFrom (p.attempt servers args clientId clientSecret) last methods sent =
        (v, sent ++ probes) ∧
      tried <+: methods ∧
      probes.map Exchange.request = tried.map (p.request args clientId clientSecret) ∧
      (v.status = .invalid ↔
        probes.map Exchange.request = methods.map (p.request args clientId clientSecret) ∧
          ∀ e ∈ probes, Rejection e.answer) ∧
      (v.status = .valid ↔ ∃ earlier e, probes = earlier ++ [e] ∧
        (∀ e ∈ earlier, Rejection e.answer) ∧ p.Acceptance e.answer) := by
  induction methods generalizing last sent with
  | nil =>
    refine ⟨.invalid (last.getD "credentials rejected"), [], [], ?_, List.prefix_rfl, rfl, ?_, ?_⟩
    · rw [List.append_nil]
      rfl
    · simp [Verdict.status]
    · simp [Verdict.status]
  | cons m ms ih =>
    let r := p.request args clientId clientSecret m
    let answer := servers sent r
    have hstep : p.attempt servers args clientId clientSecret m sent =
        (p.verdict answer, sent ++ [⟨r, answer⟩]) :=
      Endpoint.attempt_eq p servers args clientId clientSecret m sent
    by_cases hrej : Rejection answer
    · have hstatus := Endpoint.verdict_invalid (p := p).mpr hrej
      cases hv : p.verdict answer with
      | valid text => rw [hv] at hstatus; cases hstatus
      | error text => rw [hv] at hstatus; cases hstatus
      | invalid text =>
        obtain ⟨v, probes, tried, hrun, htried, hrequests, hinvalid, hvalid⟩ :=
          ih (some text) (sent ++ [⟨r, answer⟩])
        refine ⟨v, ⟨r, answer⟩ :: probes, m :: tried, ?_, ?_, ?_, ?_, ?_⟩
        · rw [tryFrom_cons, hstep, hv]
          simpa using hrun
        · exact (List.prefix_cons_inj m).mpr htried
        · rw [List.map_cons, List.map_cons, hrequests]
        · rw [hinvalid]
          simp [r, hrej]
        · rw [hvalid]
          constructor
          · rintro ⟨earlier, e, rfl, hearlier, he⟩
            exact ⟨⟨r, answer⟩ :: earlier, e, rfl, List.forall_mem_cons.mpr ⟨hrej, hearlier⟩, he⟩
          · rintro ⟨earlier, e, hsplit, hearlier, he⟩
            cases earlier with
            | nil =>
              cases hsplit
              exact absurd he hrej.not_acceptance
            | cons x xs =>
              cases hsplit
              exact ⟨xs, e, rfl, fun y hy => hearlier y (List.mem_cons_of_mem _ hy), he⟩
    · have hstatus := (Endpoint.verdict_invalid (p := p)).not.mpr hrej
      refine ⟨p.verdict answer, [⟨r, answer⟩], [m], ?_, ?_, rfl, ?_, ?_⟩
      · rw [tryFrom_cons, hstep]
        cases hv : p.verdict answer with
        | invalid text => rw [hv] at hstatus; exact absurd rfl hstatus
        | valid text => rfl
        | error text => rfl
      · exact ⟨ms, rfl⟩
      · simp [hstatus, hrej]
      · rw [Endpoint.verdict_valid]
        constructor
        · exact fun h => ⟨[], ⟨r, answer⟩, rfl, by simp, h⟩
        · rintro ⟨earlier, e, hsplit, -, he⟩
          cases earlier with
          | nil => cases hsplit; exact he
          | cons x xs => simp at hsplit

/-! ## The whole check -/

theorem negotiatedMethods_ne_nil {doc : Json} {key : String} {methods : List AuthMethod}
    (h : negotiatedMethods doc key = .ok methods) : methods ≠ [] := by
  unfold negotiatedMethods at h
  dsimp only at h
  split at h
  · cases h
    simp
  · split at h
    · cases h
    · rename_i hknown
      cases h
      exact hknown

/-- Discovery is one request, and it gives the document of its answer. -/
theorem discover_spec (servers : Servers) (args : Args) :
    ∃ res e, discover servers (trimEndMatches args.issuer '/') [] = (res, [e]) ∧
      e.request = { method := .get, url := discoveryUrl (trimEndMatches args.issuer '/') } ∧
      ∀ doc, res = .ok doc ↔ Discovered args e doc := by
  rw [discover, send_bind]
  cases servers [] _ with
  | error e =>
    refine ⟨.error _, ⟨_, _⟩, rfl, rfl, fun doc => ⟨nofun, ?_⟩⟩
    rintro ⟨-, reply, body, h, -⟩
    cases h
  | ok reply =>
    dsimp only
    by_cases hs : success reply.status = true
    · rw [if_pos hs]
      cases hbody : reply.body with
      | error e =>
        refine ⟨.error _, ⟨_, _⟩, rfl, rfl, fun doc => ⟨nofun, ?_⟩⟩
        rintro ⟨-, reply', body, h, -, hbody', -⟩
        cases h
        rw [hbody] at hbody'
        cases hbody'
      | ok body =>
        dsimp only
        cases hparse : Externals.jsonFromStr body with
        | error e =>
          refine ⟨.error _, ⟨_, _⟩, rfl, rfl, fun doc => ⟨nofun, ?_⟩⟩
          rintro ⟨-, reply', body', h, -, hbody', hparse'⟩
          cases h
          rw [hbody] at hbody'
          cases hbody'
          rw [hparse] at hparse'
          cases hparse'
        | ok v =>
          refine ⟨.ok v, ⟨_, _⟩, rfl, rfl, fun doc => ⟨fun h => ?_, ?_⟩⟩
          · cases h
            exact ⟨rfl, reply, body, rfl, hs, hbody, hparse⟩
          · rintro ⟨-, reply', body', h, -, hbody', hparse'⟩
            cases h
            rw [hbody] at hbody'
            cases hbody'
            rw [hparse] at hparse'
            cases hparse'
            rfl
    · rw [if_neg hs]
      refine ⟨.error _, ⟨_, _⟩, rfl, rfl, fun doc => ⟨nofun, ?_⟩⟩
      rintro ⟨-, reply', body, h, hs', -⟩
      cases h
      exact absurd hs' hs

/-- What follows discovery where an endpoint is advertised. -/
theorem check_of_probed {servers : Servers} {args : Args} (clientId clientSecret : String)
    {doc : Json} {p : Endpoint} {sent : List Exchange}
    (hhttps : (!https (trimEndMatches args.issuer '/') && !args.allowInsecureHttp) = false)
    (hdiscover : discover servers (trimEndMatches args.issuer '/') [] = (.ok doc, sent))
    (hp : probed doc = some p) :
    check servers args clientId clientSecret [] =
      if !https p.url && !args.allowInsecureHttp then (refusal p.key p.url, sent)
      else
        match negotiatedMethods doc p.methodsKey with
        | .error e => (.error e, sent)
        | .ok methods =>
          tryFrom (p.attempt servers args clientId clientSecret) none methods sent := by
  unfold check
  simp only [hhttps, Bool.false_eq_true, if_false]
  rw [bind_apply, hdiscover]
  unfold probed at hp
  dsimp only
  cases hi : (doc.get "introspection_endpoint").bind Json.asStr with
  | some url =>
    rw [hi] at hp
    cases hp
    dsimp only [Endpoint.url, Endpoint.key, Endpoint.methodsKey]
    by_cases hgate : (!https url && !args.allowInsecureHttp) = true
    · simp only [hgate, if_true]
      rfl
    · simp only [hgate, Bool.false_eq_true, if_false]
      cases negotiatedMethods doc "introspection_endpoint_auth_methods_supported" with
      | error e => rfl
      | ok methods => rfl
  | none =>
    rw [hi] at hp
    cases ht : (doc.get "token_endpoint").bind Json.asStr with
    | none =>
      rw [ht] at hp
      cases hp
    | some url =>
      rw [ht] at hp
      cases hp
      dsimp only [Endpoint.url, Endpoint.key, Endpoint.methodsKey]
      by_cases hgate : (!https url && !args.allowInsecureHttp) = true
      · simp only [hgate, if_true]
        rfl
      · simp only [hgate, Bool.false_eq_true, if_false]
        cases negotiatedMethods doc "token_endpoint_auth_methods_supported" with
        | error e => rfl
        | ok methods => rfl

theorem Probing.not_short {args : Args} {clientId clientSecret : String} {sent : List Exchange}
    {p : Endpoint} {methods : List AuthMethod} {probes : List Exchange}
    (h : Probing args clientId clientSecret sent p methods probes) :
    sent.length = probes.length + 1 ∧ methods ≠ [] := by
  obtain ⟨discovery, doc, tried, rfl, -, -, hmethods, -, -⟩ := h
  exact ⟨rfl, negotiatedMethods_ne_nil hmethods⟩

/-- Where no more than discovery was sent, nothing was accepted or rejected. -/
theorem undecided_of_short (args : Args) (clientId clientSecret : String) {sent : List Exchange}
    (h : sent.length ≤ 1) :
    ¬ AllRejected args clientId clientSecret sent ∧
      ¬ OneAccepted args clientId clientSecret sent := by
  constructor
  · rintro ⟨p, methods, probes, hprobing, hall, -⟩
    obtain ⟨hlength, hne⟩ := hprobing.not_short
    have hmethods : methods.length = 0 := by
      have := congrArg List.length hall
      simp only [List.length_map] at this
      omega
    exact hne (List.length_eq_zero_iff.mp hmethods)
  · rintro ⟨p, methods, earlier, last, hprobing, -⟩
    obtain ⟨hlength, -⟩ := hprobing.not_short
    simp only [List.length_append, List.length_cons, List.length_nil] at hlength
    omega

/-- The exchanges of a check tell what was probed. -/
theorem Probing.unique {args : Args} {clientId clientSecret : String} {d : Exchange}
    {probes probes' : List Exchange} {doc : Json} {p p' : Endpoint}
    {methods methods' : List AuthMethod} (hd : Discovered args d doc) (hp : probed doc = some p)
    (hmethods : negotiatedMethods doc p.methodsKey = .ok methods)
    (h : Probing args clientId clientSecret (d :: probes) p' methods' probes') :
    p' = p ∧ methods' = methods ∧ probes' = probes := by
  obtain ⟨d', doc', tried, hsent, hd', hp', hmethods', -, -⟩ := h
  obtain ⟨rfl, rfl⟩ := List.cons.inj hsent
  have hdoc : doc' = doc := by
    obtain ⟨-, reply, body, hreply, -, hbody, hparse⟩ := hd
    obtain ⟨-, reply', body', hreply', -, hbody', hparse'⟩ := hd'
    rw [hreply] at hreply'
    cases hreply'
    rw [hbody] at hbody'
    cases hbody'
    rw [hparse] at hparse'
    cases hparse'
    rfl
  subst hdoc
  rw [hp] at hp'
  cases hp'
  rw [hmethods] at hmethods'
  cases hmethods'
  exact ⟨rfl, rfl, rfl⟩

/-- The verdict is what the answers call for, and the credentials were kept to https. -/
structure Sound (args : Args) (clientId clientSecret : String) (v : Verdict)
    (sent : List Exchange) : Prop where
  invalid : v.status = .invalid ↔ AllRejected args clientId clientSecret sent
  valid : v.status = .valid ↔ OneAccepted args clientId clientSecret sent
  clear : ∀ e ∈ sent, e.request.CarriesCredentials →
    args.allowInsecureHttp = true ∨ https e.request.url = true

/-- An error is sound where no more than discovery was sent. -/
theorem sound_of_short {args : Args} {clientId clientSecret text : String}
    {sent : List Exchange} (hshort : sent.length ≤ 1)
    (hbare : ∀ e ∈ sent, ¬ e.request.CarriesCredentials) :
    Sound args clientId clientSecret (.error text) sent := by
  obtain ⟨hrejected, haccepted⟩ := undecided_of_short args clientId clientSecret hshort
  constructor
  · exact ⟨nofun, fun h => absurd h hrejected⟩
  · exact ⟨nofun, fun h => absurd h haccepted⟩
  · exact fun e he hcarries => absurd hcarries (hbare e he)

/-- What was probed after discovery is sound. -/
theorem sound_of_probes {args : Args} {clientId clientSecret : String} {d : Exchange}
    {doc : Json} {p : Endpoint} {methods tried : List AuthMethod} {v : Verdict}
    {probes : List Exchange} (hd : Discovered args d doc) (hp : probed doc = some p)
    (hmethods : negotiatedMethods doc p.methodsKey = .ok methods)
    (hbare : ¬ d.request.CarriesCredentials)
    (hclear : args.allowInsecureHttp = true ∨ https p.url = true) (htried : tried <+: methods)
    (hrequests : probes.map Exchange.request = tried.map (p.request args clientId clientSecret))
    (hinvalid : v.status = .invalid ↔
      probes.map Exchange.request = methods.map (p.request args clientId clientSecret) ∧
        ∀ e ∈ probes, Rejection e.answer)
    (hvalid : v.status = .valid ↔ ∃ earlier e, probes = earlier ++ [e] ∧
      (∀ e ∈ earlier, Rejection e.answer) ∧ p.Acceptance e.answer) :
    Sound args clientId clientSecret v (d :: probes) := by
  have hprobing : Probing args clientId clientSecret (d :: probes) p methods probes :=
    ⟨d, doc, tried, rfl, hd, hp, hmethods, htried, hrequests⟩
  constructor
  · rw [hinvalid]
    constructor
    · rintro ⟨hall, hrejected⟩
      exact ⟨p, methods, probes, hprobing, hall, hrejected⟩
    · rintro ⟨p', methods', probes', hprobing', hall, hrejected⟩
      obtain ⟨rfl, rfl, rfl⟩ := hprobing'.unique hd hp hmethods
      exact ⟨hall, hrejected⟩
  · rw [hvalid]
    constructor
    · rintro ⟨earlier, last, rfl, hrejected, haccepted⟩
      exact ⟨p, methods, earlier, last, hprobing, hrejected, haccepted⟩
    · rintro ⟨p', methods', earlier, last, hprobing', hrejected, haccepted⟩
      obtain ⟨rfl, rfl, hsplit⟩ := hprobing'.unique hd hp hmethods
      exact ⟨earlier, last, hsplit.symm, hrejected, haccepted⟩
  · intro e he hcarries
    rcases List.mem_cons.mp he with rfl | he
    · exact absurd hcarries hbare
    · have hmem := List.mem_map_of_mem (f := Exchange.request) he
      rw [hrequests] at hmem
      obtain ⟨m, -, hm⟩ := List.mem_map.mp hmem
      have hurl : e.request.url = p.url := by
        rw [← hm]
        rfl
      rw [hurl]
      exact hclear

/-- What the verdict and the exchanges of every check have to do with each other. -/
theorem check_spec (servers : Servers) (args : Args) (clientId clientSecret : String) :
    ∃ v sent, check servers args clientId clientSecret [] = (v, sent) ∧
      Sound args clientId clientSecret v sent := by
  by_cases hgate : (!https (trimEndMatches args.issuer '/') && !args.allowInsecureHttp) = true
  · refine ⟨refusal "issuer" (trimEndMatches args.issuer '/'), [], ?_,
      sound_of_short (by simp) (by simp)⟩
    unfold check
    simp only [hgate, if_true]
    rfl
  have hgate' : (!https (trimEndMatches args.issuer '/') && !args.allowInsecureHttp) = false := by
    simpa using hgate
  obtain ⟨res, d, hdiscover, hrequest, hd⟩ := discover_spec servers args
  have hbare : ¬ d.request.CarriesCredentials := by
    rw [hrequest]
    rintro (⟨v, hv⟩ | ⟨v, hv⟩)
    · simp at hv
    · simp at hv
  have herror : ∀ text, Sound args clientId clientSecret (.error text) [d] := by
    intro text
    apply sound_of_short
    · simp
    · simpa using hbare
  cases res with
  | error text =>
    refine ⟨.error text, [d], ?_, herror text⟩
    unfold check
    simp only [hgate', Bool.false_eq_true, if_false]
    rw [bind_apply, hdiscover]
    rfl
  | ok doc =>
    cases hp : probed doc with
    | none =>
      obtain ⟨hintrospection, htoken⟩ := probed_none hp
      refine ⟨noEndpoint (discoveryUrl (trimEndMatches args.issuer '/')), [d], ?_, herror _⟩
      unfold check
      simp only [hgate', Bool.false_eq_true, if_false]
      rw [bind_apply, hdiscover]
      dsimp only
      rw [hintrospection]
      dsimp only
      rw [htoken]
      rfl
    | some p =>
      have hcheck := check_of_probed clientId clientSecret hgate' hdiscover hp
      by_cases hendpoint : (!https p.url && !args.allowInsecureHttp) = true
      · rw [if_pos hendpoint] at hcheck
        exact ⟨_, _, hcheck, herror _⟩
      rw [if_neg hendpoint] at hcheck
      have hclear : args.allowInsecureHttp = true ∨ https p.url = true := by
        cases hallow : args.allowInsecureHttp with
        | true => exact Or.inl rfl
        | false => exact Or.inr (by simpa [hallow] using hendpoint)
      cases hmethods : negotiatedMethods doc p.methodsKey with
      | error text =>
        rw [hmethods] at hcheck
        exact ⟨_, _, hcheck, herror text⟩
      | ok methods =>
        rw [hmethods] at hcheck
        obtain ⟨v, probes, tried, hrun, htried, hrequests, hinvalid, hvalid⟩ :=
          tryFrom_spec p servers args clientId clientSecret none methods [d]
        exact ⟨v, d :: probes, hcheck.trans hrun, sound_of_probes ((hd doc).mp rfl) hp hmethods
          hbare hclear htried hrequests hinvalid hvalid⟩

/-- The verdict is sound. It is a rejection exactly where the probed endpoint was asked with
every negotiated method and rejected every one; it is an acceptance exactly where an answer
proved the credentials and the methods before it were rejected; in every other case it is an
error. Away from success the two endpoints are judged alike, and the credentials are sent in
the clear only where the operator allowed it. -/
theorem verdict_sound (servers : Servers) (args : Args) (clientId clientSecret : String) :
    let (v, sent) := check servers args clientId clientSecret []
    (v.status = .invalid ↔ AllRejected args clientId clientSecret sent) ∧
    (v.status = .valid ↔ OneAccepted args clientId clientSecret sent) ∧
    (¬ AllRejected args clientId clientSecret sent →
      ¬ OneAccepted args clientId clientSecret sent → v.status = .error) ∧
    (∀ reply : Reply, success reply.status = false →
      (classifyIntrospection reply.status reply.text).status =
        (classifyToken reply.status reply.text).status) ∧
    ∀ e ∈ sent, e.request.CarriesCredentials →
      args.allowInsecureHttp = true ∨ https e.request.url = true := by
  have hspec := check_spec servers args clientId clientSecret
  generalize check servers args clientId clientSecret [] = out at hspec ⊢
  obtain ⟨v, sent, rfl, hsound⟩ := hspec
  refine ⟨hsound.invalid, hsound.valid, ?_, fun reply h => classify_status h _, hsound.clear⟩
  intro hrejected haccepted
  cases v with
  | valid text => exact absurd (hsound.valid.mp rfl) haccepted
  | invalid text => exact absurd (hsound.invalid.mp rfl) hrejected
  | error text => rfl

end Answers

end Foundrix.OidcValidator
