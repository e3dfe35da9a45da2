import Foundrix.Effect.Wp
import Foundrix.Stalwart.SelfService

/-!
# What a request of the self-service API may change

* `Server`, `upstream`: the mail server and the identity provider, which may answer
  anything; an update that is refused changes nothing.
* `Accepted`, `Asked`, `Permitted`: who may change an account, what the body asks for, and how it
  may be changed.
* `Unchanged`, `changeFor_spec`, `handlePost_spec`: the parts of the handler.
* `request_changes`: a request changes one permitted address or nothing.
-/

namespace Foundrix.Stalwart.SelfService

open Text Effect

variable {R : Type*} {rt : Runtime} {spec : Spec} {req : Request}

/-! ## The servers -/

/-- The principals, and the variable of the service. -/
structure Server (R : Type*) where
  accounts : Accounts R
  endpoint : Option Json

/-- An answer by which the server says that it did nothing. -/
def Refused (answer : Except String Reply) : Prop := ∃ r, answer = .ok r ∧ r.ok = false

def upstreamStep : {β : Type} → Op β → Server R → β → Server R → Prop
  | _, .mail (.updatePrincipal name us), s, answer, s' =>
    s' = s ∨ (¬ Refused answer ∧ s' = { s with accounts := s.accounts.updated name us })
  | _, .mail (.deployPrincipal p), s, _, s' =>
    s'.endpoint = s.endpoint ∧ ∀ n, n ≠ p.name → s'.accounts n = s.accounts n
  | _, .readEndpoint, s, endpoint, s' => s' = s ∧ endpoint = s.endpoint
  | _, .writeEndpoint endpoint, s, _, s' => s' = { s with endpoint }
  | _, _, s, _, s' => s' = s

/-- What is seen of a request: the answers of the userinfo endpoint, and those of the mail server
on principals. -/
inductive Event where
  | userinfo (authorization : String) (answer : Except String HttpReply)
  | principal (name : String) (answer : Except String Reply)
  | update (name : String) (us : List Update) (answer : Except String Reply)

def seen : {β : Type} → Op β → Server R → β → Option Event
  | _, .userinfo _ auth, _, answer => some (.userinfo auth answer)
  | _, .mail (.getPrincipal name), _, answer => some (.principal name answer)
  | _, .mail (.updatePrincipal name us), _, answer => some (.update name us answer)
  | _, _, _, _ => none

/-- The servers, with a log of what is seen. -/
def upstream : Handler Op (Server R × List Event) :=
  Handler.logged ⟨upstreamStep⟩ seen

/-- An update that was not refused. -/
def Event.Taken : Event → Prop
  | .update _ _ answer => ¬ Refused answer
  | _ => False

/-! ## Permissions -/

/-- The identity provider accepted the token of the request, and its claims have the role. -/
def Accepted (spec : Spec) (req : Request) (log : List Event) : Prop :=
  ∃ auth r claims, req.authorization = some auth ∧ startsWith auth "Bearer " = true ∧
    .userinfo auth (.ok r) ∈ log ∧ r.ok = true ∧ r.json = some claims ∧ hasRole spec claims = true

/-- The fields of the body: the one of this action, and the one that must not be there. -/
def given : Action → String × String
  | .addItem => ("add", "remove")
  | .removeItem => ("remove", "add")

/-- The body names an account, and of `add` and `remove` it has this one alone. -/
def Asked (rt : Runtime) (req : Request) (action : Action) (account raw : String) : Prop :=
  ∃ body, req.body = some body ∧ truthy rt (body.get "account") = true ∧
    rt.text (body.get "account") = some account ∧
    body.get (given action).1 = some (.string raw) ∧ body.get (given action).2 = none

/-- The mail server has answered for the account with this principal. -/
def Found (log : List Event) (account : String) (principal : Json) : Prop :=
  ∃ r, .principal account (.ok r) ∈ log ∧ r.ok = true ∧ r.data.get "error" = none ∧
    principal = r.data

/-- What the address may do to those of the account with this login name. -/
inductive Permitted (rt : Runtime) (spec : Spec) (name address : String) :
    Action → List String → List String → Prop where
  | gains {emails : List String} {localPart domain : String}
      (parts : address = localPart ++ "@" ++ domain)
      (local_chars : localPart.toList.all isLocalChar = true)
      (domain_chars : domain.toList.all isDomainChar = true)
      (allowed : domain ∈ spec.addressDomains) (lower : rt.toLowerCase address = address)
      (new : address ∉ emails) : Permitted rt spec name address .addItem emails (emails ++ [address])
  | loses {emails : List String} (old : address ∈ emails)
      (other : rt.toLowerCase address ≠ rt.toLowerCase name) :
      Permitted rt spec name address .removeItem emails (emails.filter fun e => e != address)

/-- The account that the body asks for gained or lost the one address it asks for, and nothing
else changed. -/
def OneAddress (rt : Runtime) (spec : Spec) (req : Request) (log : List Event)
    (m m' : Accounts R) : Prop :=
  ∃ action account raw principal name a emails, Asked rt req action account raw ∧
    Found log account principal ∧ rt.text (principal.get "name") = some name ∧
    m name = some a ∧
    Permitted rt spec name (rt.toLowerCase (jsTrim raw)) action a.emails emails ∧
    m' = Function.update m name (some { a with emails })

theorem Found.mono {log log' : List Event} {account : String} {principal : Json}
    (h : Found log account principal) (hlog : log <+: log') : Found log' account principal := by
  obtain ⟨r, hmem, hrest⟩ := h
  exact ⟨r, hlog.subset hmem, hrest⟩

theorem OneAddress.mono {log log' : List Event} {m m' : Accounts R}
    (h : OneAddress rt spec req log m m') (hlog : log <+: log') :
    OneAddress rt spec req log' m m' := by
  obtain ⟨action, account, raw, principal, name, a, emails, hasked, hfound, hrest⟩ := h
  exact ⟨action, account, raw, principal, name, a, emails, hasked, hfound.mono hlog, hrest⟩

/-! ## Parts that change nothing -/

/-- An operation that leaves the principals alone. -/
def Quiet : {β : Type} → Op β → Prop
  | _, .mail (.updatePrincipal _ _) => False
  | _, .mail (.deployPrincipal _) => False
  | _, _ => True

/-- What a part of the handler that changes nothing keeps. -/
def Unchanged (x y : Server R × List Event) : Prop :=
  y.1.accounts = x.1.accounts ∧ x.2 <+: y.2

theorem Unchanged.refl (x : Server R × List Event) : Unchanged x x := ⟨rfl, List.prefix_rfl⟩

theorem Unchanged.trans {x y z : Server R × List Event} (h : Unchanged x y)
    (h' : Unchanged y z) : Unchanged x z :=
  ⟨h'.1.trans h.1, h.2.trans h'.2⟩

theorem unchanged_step {β : Type} {e : Op β} {x y : Server R × List Event} {b : β}
    (he : Quiet e) (hs : upstream.step e x b y) : Unchanged x y := by
  obtain ⟨hs, hlog⟩ := hs
  have hkept : y.1.accounts = x.1.accounts := by
    cases e with
    | mail c => cases c <;> first | exact he.elim | exact congrArg Server.accounts hs
    | readEndpoint => exact congrArg Server.accounts hs.1
    | writeEndpoint endpoint =>
      change y.1 = _ at hs
      rw [hs]
    | discovery url => exact congrArg Server.accounts hs
    | userinfo endpoint auth => exact congrArg Server.accounts hs
    | log line => exact congrArg Server.accounts hs
  refine ⟨hkept, ?_⟩
  rw [hlog]
  exact List.prefix_append _ _

theorem unchanged_of_only {α : Type} {p : Service α} (hp : p.Only Quiet)
    (x : Server R × List Event) : wp upstream (Unchanged x) p (fun _ y => Unchanged x y) x :=
  wp_only hp (fun _ _ _ _ he hy hs => hy.trans (unchanged_step he hs)) (.refl x)

/-- A part that changes nothing, before the rest. -/
theorem unchanged_seq {α β : Type} {p : Service α} {f : α → Service β}
    {Q : β → Server R × List Event → Prop} {x : Server R × List Event} (hp : p.Only Quiet)
    (hf : ∀ a y, Unchanged x y → wpOk upstream (Unchanged y) (f a) Q y) :
    wpOk upstream (Unchanged x) (p.bind f) Q x := by
  refine wpOk_seq_trans (S := Unchanged) (fun hxy hyz => hxy.trans hyz)
    (R := fun _ _ => True) ?_ fun a y hy _ => hf a y hy
  exact wp_mono (unchanged_of_only hp x) fun _ _ _ _ _ _ => trivial

theorem quiet_request {c : Call} (hc : Quiet (.mail c)) :
    (request c : Service Reply).Only Quiet :=
  Prog.only_bind (Prog.only_perform hc) fun r => Prog.only_orFail r

theorem quiet_getPrincipal (name : String) : (getPrincipal name : Service _).Only Quiet := by
  apply Prog.only_bind (quiet_request (show Quiet (.mail (.getPrincipal name)) from trivial))
  intro r
  split
  · trivial
  · split <;> trivial

theorem quiet_shown (v : Option Json) : (shown rt v).Only Quiet := by
  unfold shown
  cases rt.text v <;> trivial

theorem quiet_readJson (r : HttpReply) : (readJson r).Only Quiet := by
  unfold readJson
  cases r.json <;> trivial

theorem quiet_getUserinfoEndpoint : (getUserinfoEndpoint spec).Only Quiet := by
  apply Prog.only_bind (Prog.only_perform trivial)
  intro endpoint
  split
  · apply Prog.only_bind (Prog.only_perform trivial)
    intro r
    apply Prog.only_bind (Prog.only_orFail r)
    intro resp
    split
    · trivial
    · apply Prog.only_bind (quiet_readJson resp)
      intro doc
      split
      · trivial
      · exact Prog.only_bind (Prog.only_perform trivial) fun _ => trivial
  · trivial

theorem quiet_handleGet (rt : Runtime) (req : Request) : (handleGet rt req).Only Quiet := by
  unfold handleGet
  split
  · trivial
  · trivial
  · apply Prog.only_bind (quiet_getPrincipal _)
    intro p
    split
    · split <;> trivial
    · trivial

/-! ## Authorisation -/

theorem authorize_spec (spec : Spec) (req : Request) (x : Server R × List Event) :
    wpOk upstream (Unchanged x) (authorize spec req)
      (fun r y => ∀ admin, r = .inr admin → Accepted spec req y.2) x := by
  unfold authorize
  by_cases hauth : startsWith (req.authorization.getD "") "Bearer " = true
  swap
  · rw [if_pos (by simpa using hauth)]
    exact wpOk_pure (.refl x) nofun
  rw [if_neg (by simpa using hauth)]
  have hasked : wpOk upstream (Unchanged x)
      (Prog.attempt ((getUserinfoEndpoint spec).bind fun endpoint =>
        (Prog.perform (.userinfo endpoint (req.authorization.getD ""))).bind Prog.orFail))
      (fun asked y => ∀ resp, asked = .ok resp →
        .userinfo (req.authorization.getD "") (.ok resp) ∈ y.2) x := by
    apply wpOk_attempt
    apply unchanged_seq quiet_getUserinfoEndpoint
    intro endpoint y hy
    apply wpOk_step (.refl y)
    intro answer z hs
    have hz : Unchanged y z :=
      unchanged_step (show Quiet (.userinfo endpoint (req.authorization.getD "")) from trivial) hs
    cases answer with
    | error e => exact wpOk_fail hz
    | ok resp =>
      apply wpOk_pure hz
      rw [hs.2]
      simp [seen]
  apply wpOk_seq_trans (S := Unchanged) (fun hxy hyz => hxy.trans hyz) hasked
  intro asked y _ hseen
  cases asked with
  | error e => exact wpOk_pure (.refl y) nofun
  | ok resp =>
    dsimp only
    cases hok : resp.ok with
    | false => exact wpOk_pure (.refl y) nofun
    | true =>
      cases hjson : resp.json with
      | none =>
        have hread : readJson resp = .fail "SyntaxError" := by
          unfold readJson
          rw [hjson]
        rw [hread]
        exact wpOk_fail (.refl y)
      | some claims =>
        have hread : readJson resp = .pure claims := by
          unfold readJson
          rw [hjson]
          rfl
        rw [hread]
        show wpOk _ _ (if (!hasRole spec claims) = true then _ else _) _ _
        by_cases hrole : hasRole spec claims = true
        swap
        · rw [if_pos (by simpa using hrole)]
          exact wpOk_pure (.refl y) nofun
        rw [if_neg (by simpa using hrole)]
        have haccepted : Accepted spec req y.2 := by
          cases hreq : req.authorization with
          | none =>
            rw [hreq] at hauth
            exact absurd hauth (by decide)
          | some auth =>
            rw [hreq] at hauth hseen
            exact ⟨auth, resp, claims, hreq, hauth, hseen resp rfl, hok, hjson, hrole⟩
        split <;> exact wpOk_pure (.refl y) fun _ _ => haccepted

/-! ## Changes -/

theorem matchAddress_some {address localPart domain : String}
    (h : matchAddress address = some (localPart, domain)) :
    address = localPart ++ "@" ++ domain ∧ localPart.toList.all isLocalChar = true ∧
      domain.toList.all isDomainChar = true := by
  unfold matchAddress at h
  cases hs : splitOnce address '@' with
  | none => rw [hs] at h; cases h
  | some parts =>
    obtain ⟨l, d⟩ := parts
    rw [hs] at h
    have hsplit := splitOnce_some hs
    dsimp only at h
    split at h
    · rename_i hall
      cases h
      simp only [Bool.and_eq_true] at hall
      refine ⟨?_, hall.1.1, hall.2⟩
      apply String.toList_inj.mp
      rw [hsplit]
      simp
    · cases h

/-- What the checks of an update have seen to. -/
inductive Checked (rt : Runtime) (spec : Spec) (principal : Json) (add remove : Option Json) :
    Update → Prop where
  | add {raw localPart domain : String} (given : add = some (.string raw))
      (parts : rt.toLowerCase (jsTrim raw) = localPart ++ "@" ++ domain)
      (local_chars : localPart.toList.all isLocalChar = true)
      (domain_chars : domain.toList.all isDomainChar = true)
      (allowed : domain ∈ spec.addressDomains) :
      Checked rt spec principal add remove ⟨.addItem, .emails, rt.toLowerCase (jsTrim raw)⟩
  | remove {raw name : String} (given : add = none ∧ remove = some (.string raw))
      (named : principal.get "name" = some (.string name))
      (other : rt.toLowerCase (jsTrim raw) ≠ rt.toLowerCase name) :
      Checked rt spec principal add remove ⟨.removeItem, .emails, rt.toLowerCase (jsTrim raw)⟩

theorem validateAddress_checked {raw address : String} {principal : Json} {remove : Option Json}
    (h : validateAddress rt spec raw = .ok address) :
    Checked rt spec principal (some (.string raw)) remove ⟨.addItem, .emails, address⟩ := by
  unfold validateAddress at h
  dsimp only at h
  split at h
  · cases h
  · rename_i l d hmatch
    split at h
    · cases h
    · rename_i hallowed
      cases h
      obtain ⟨hsplit, hl, hd⟩ := matchAddress_some hmatch
      exact .add rfl hsplit hl hd (by simpa using hallowed)

/-- The body, the account and the update fit together. -/
structure Fits (rt : Runtime) (spec : Spec) (req : Request) (log : List Event) (name : String)
    (u : Update) : Prop where
  asked : ∃ account raw principal, Asked rt req u.action account raw ∧
    Found log account principal ∧ rt.text (principal.get "name") = some name ∧
    u.value = rt.toLowerCase (jsTrim raw)
  emails : u.field = .emails
  allowed : ∀ emails : List String, u.action.apply u.value emails = emails ∨
    Permitted rt spec name u.value u.action emails (u.action.apply u.value emails)

/-- An update that passed the checks fits, where exactly one field was given. -/
theorem fits_of_checked {body principal : Json} {account name : String} {u : Update}
    {log : List Event} (hbody : req.body = some body)
    (haccount : truthy rt (body.get "account") = true)
    (hone : ¬ ((body.get "add").isNone == (body.get "remove").isNone) = true)
    (htext : rt.text (body.get "account") = some account) (hfound : Found log account principal)
    (hname : rt.text (principal.get "name") = some name)
    (h : Checked rt spec principal (body.get "add") (body.get "remove") u) :
    Fits rt spec req log name u := by
  cases h with
  | @add raw localPart domain hgiven hparts hlocal hdomain hallowed =>
    have hother : body.get "remove" = none := by
      rw [hgiven] at hone
      simpa using hone
    refine ⟨⟨account, raw, principal, ⟨body, hbody, haccount, htext, hgiven, hother⟩, hfound, hname,
      rfl⟩, rfl, fun emails => ?_⟩
    by_cases hmem : rt.toLowerCase (jsTrim raw) ∈ emails
    · exact Or.inl (if_pos hmem)
    · right
      rw [Action.apply, if_neg hmem]
      exact .gains hparts hlocal hdomain hallowed (rt.toLowerCase_idem _) hmem
  | @remove raw name' hgiven hnamed hother =>
    have hsame : name' = name := by
      rw [hnamed, rt.text_string] at hname
      exact Option.some.inj hname
    subst hsame
    refine ⟨⟨account, raw, principal, ⟨body, hbody, haccount, htext, hgiven.2, hgiven.1⟩, hfound,
      hname, rfl⟩, rfl, fun emails => ?_⟩
    by_cases hmem : rt.toLowerCase (jsTrim raw) ∈ emails
    · exact Or.inr (.loses hmem (by rwa [rt.toLowerCase_idem]))
    · left
      rw [Action.apply, List.filter_eq_self]
      intro e he
      simpa using fun h : e = rt.toLowerCase (jsTrim raw) => hmem (h ▸ he)

/-- An update that fits changes one permitted address or nothing. -/
theorem oneAddress_of_fits {log : List Event} {name : String} {u : Update}
    (h : Fits rt spec req log name u) (m : Accounts R) :
    m.updated name [u] = m ∨ OneAddress rt spec req log m (m.updated name [u]) := by
  have hsame : ∀ n, n ≠ name → m.updated name [u] n = m n := fun n hn => if_neg hn
  have hself : m.updated name [u] name = (m name).map fun a => u.apply a := if_pos rfl
  cases hm : m name with
  | none =>
    left
    funext n
    by_cases hn : n = name
    · rw [hn, hself, hm, Option.map_none]
    · exact hsame n hn
  | some a =>
    have hresult : m.updated name [u] = Function.update m name (some (u.apply a)) := by
      funext n
      by_cases hn : n = name
      · rw [hn, hself, hm, Function.update_self, Option.map_some]
      · rw [hsame n hn, Function.update_of_ne hn]
    have happly : u.apply a = { a with emails := u.action.apply u.value a.emails } := by
      simp only [Update.apply, h.emails]
    rcases h.allowed a.emails with hkept | hpermitted
    · left
      rw [hresult, happly, hkept, ← hm, Function.update_eq_self]
    · obtain ⟨account, raw, principal, hasked, hfound, hname, hvalue⟩ := h.asked
      refine Or.inr ⟨u.action, account, raw, principal, name, a, _, hasked, hfound, hname, hm,
        hvalue ▸ hpermitted, ?_⟩
      rw [hresult, happly, hvalue]

theorem asText_spec (v : Option Json) (method : String) (x : Server R × List Event) :
    wpOk upstream (Unchanged x) (asText v method) (fun s _ => v = some (.string s)) x := by
  unfold asText
  split
  · exact wpOk_pure (.refl x) rfl
  · exact wpOk_fail (.refl x)

theorem shown_spec (v : Option Json) (x : Server R × List Event) :
    wpOk upstream (Unchanged x) (shown rt v) (fun s _ => rt.text v = some s) x := by
  unfold shown
  cases rt.text v with
  | some s => exact wpOk_pure (.refl x) rfl
  | none => exact wpOk_fail (.refl x)

/-- A principal that is found was answered. -/
theorem getPrincipal_spec (name : String) (x : Server R × List Event) :
    wpOk upstream (Unchanged x) (getPrincipal name)
      (fun p y => ∀ principal, p = some principal → Found y.2 name principal) x := by
  refine wp_op.mpr ⟨.refl x, fun answer y hs => ?_⟩
  have hy : Unchanged x y :=
    unchanged_step (show Quiet (.mail (.getPrincipal name)) from trivial) hs
  cases answer with
  | error e => exact wpOk_fail hy
  | ok r =>
    have hlog : .principal name (.ok r) ∈ y.2 := by
      rw [hs.2]
      exact List.mem_append_right _ (List.mem_singleton_self _)
    show wpOk _ _ (if (!r.ok) = true then _ else _) _ _
    split
    · exact wpOk_pure hy nofun
    · rename_i hok
      show wpOk _ _ (if (r.data.get "error").isSome = true then _ else _) _ _
      split
      · exact wpOk_pure hy nofun
      · rename_i herror
        refine wpOk_pure hy fun principal hp => ?_
        exact ⟨r, hlog, by simpa using hok, by simpa using herror, (Option.some.inj hp).symm⟩

theorem changeFor_spec (principal : Json) (add remove : Option Json)
    (x : Server R × List Event) :
    wpOk upstream (Unchanged x) (changeFor rt spec principal add remove)
      (fun r _ => ∀ u, r = .inr (some u) → Checked rt spec principal add remove u) x := by
  cases add with
  | some v =>
    apply wpOk_seq_trans (S := Unchanged) (fun hxy hyz => hxy.trans hyz)
      (asText_spec (some v) _ x)
    intro raw y _ hraw
    rw [hraw]
    cases hvalid : validateAddress rt spec raw with
    | error e => exact wpOk_pure (.refl y) nofun
    | ok address =>
      apply unchanged_seq (Prog.only_orFail _)
      intro present z _
      cases present with
      | true => exact wpOk_pure (.refl z) nofun
      | false =>
        refine wpOk_pure (.refl z) fun u hu => ?_
        cases hu
        exact validateAddress_checked hvalid
  | none =>
    apply wpOk_seq_trans (S := Unchanged) (fun hxy hyz => hxy.trans hyz)
      (asText_spec remove _ x)
    intro raw y _ hraw
    apply wpOk_seq_trans (S := Unchanged) (fun hxy hyz => hxy.trans hyz)
      (asText_spec (principal.get "name") _ y)
    intro name z _ hname
    split
    · exact wpOk_pure (.refl z) nofun
    · rename_i hother
      apply unchanged_seq (Prog.only_orFail _)
      intro present w _
      cases present with
      | false => exact wpOk_pure (.refl w) nofun
      | true =>
        refine wpOk_pure (.refl w) fun u hu => ?_
        cases hu
        exact .remove ⟨rfl, hraw⟩ hname (by simpa using hother)

/-- What a request may do: nothing, or one permitted change by an update that was taken. -/
def Allowed (rt : Runtime) (spec : Spec) (req : Request) (x y : Server R × List Event) : Prop :=
  x.2 <+: y.2 ∧ (y.1.accounts = x.1.accounts ∨
    (OneAddress rt spec req y.2 x.1.accounts y.1.accounts ∧ ∃ e ∈ y.2, e.Taken))

theorem Unchanged.allowed {x y : Server R × List Event} (h : Unchanged x y) :
    Allowed rt spec req x y :=
  ⟨h.2, Or.inl h.1⟩

theorem Allowed.unchanged {x y z : Server R × List Event} (h : Allowed rt spec req x y)
    (hyz : Unchanged y z) : Allowed rt spec req x z := by
  refine ⟨h.1.trans hyz.2, ?_⟩
  rw [hyz.1]
  rcases h.2 with h | ⟨h, e, he, ht⟩
  · exact Or.inl h
  · exact Or.inr ⟨h.mono hyz.2, e, hyz.2.subset he, ht⟩

theorem Unchanged.then_allowed {x y z : Server R × List Event} (h : Unchanged x y)
    (hyz : Allowed rt spec req y z) : Allowed rt spec req x z := by
  refine ⟨h.2.trans hyz.1, ?_⟩
  rw [← h.1]
  exact hyz.2

theorem updatePrincipal_spec {name : String} {u : Update} {x : Server R × List Event}
    (h : Fits rt spec req x.2 name u) :
    wp upstream (Allowed rt spec req x) (updatePrincipal rt name [u] : Service Unit)
      (fun _ y => Allowed rt spec req x y) x := by
  have hstart : Allowed rt spec req x x := (Unchanged.refl x).allowed
  refine wp_op.mpr ⟨hstart, fun answer y hs => ?_⟩
  have hy : Allowed rt spec req x y := by
    obtain ⟨hs, hlog⟩ := hs
    refine ⟨hlog ▸ List.prefix_append _ _, ?_⟩
    rcases hs with hs | ⟨htaken, hs⟩
    · exact Or.inl (congrArg Server.accounts hs)
    · have haccounts : y.1.accounts = x.1.accounts.updated name [u] := by rw [hs]
      rw [haccounts]
      rcases oneAddress_of_fits h x.1.accounts with heq | hone
      · exact Or.inl heq
      · refine Or.inr ⟨hone.mono (hlog ▸ List.prefix_append _ _), .update name [u] answer, ?_, htaken⟩
        rw [hlog]
        exact List.mem_append_right _ (List.mem_singleton_self _)
  cases answer with
  | error e => exact wp_fail.mpr ⟨hy, hy⟩
  | ok r =>
    show wp _ _ (Prog.bind (if (!r.ok) = true then _ else _) _) _ _
    split
    · exact wp_fail.mpr ⟨hy, hy⟩
    · exact wp_pure.mpr ⟨hy, hy⟩

/-! ## The handler -/

/-- From `y` on, a program does what a request that started in `x` may do, and it answers a
change with nothing but a 200. -/
def Serves (rt : Runtime) (spec : Spec) (req : Request) (x : Server R × List Event)
    (p : Service Response) (y : Server R × List Event) : Prop :=
  wp upstream (Allowed rt spec req x) p (fun r z =>
    Allowed rt spec req x z ∧ ∀ resp, r = .ok resp → resp.status ≠ 200 → Unchanged x z) y

theorem serves_pure {x y : Server R × List Event} (h : Unchanged x y) (resp : Response) :
    Serves rt spec req x (.pure resp) y := by
  apply wp_pure.mpr
  exact ⟨h.allowed, h.allowed, fun _ _ _ => h⟩

theorem serves_fail {x y : Server R × List Event} (h : Unchanged x y) (e : String) :
    Serves rt spec req x (.fail e) y := by
  apply wp_fail.mpr
  exact ⟨h.allowed, h.allowed, nofun⟩

/-- A part that changes nothing, in the middle of the handler. -/
theorem allowed_seq_ok {α : Type} {p : Service α} {f : α → Service Response}
    {P : α → Server R × List Event → Prop} {x y : Server R × List Event}
    (hp : wpOk upstream (Unchanged y) p P y) (hy : Allowed rt spec req x y)
    (hf : ∀ a z, Unchanged y z → P a z → Serves rt spec req x (f a) z) :
    Serves rt spec req x (p.bind f) y := by
  have hkept := wp_mono hp fun r z hz hP => And.intro hz hP
  have h := wp_always_mono hkept fun z hz => hy.unchanged hz
  refine wp_seq h fun r z hI hz => ?_
  cases r with
  | ok a => exact hf a z hz.1 (hz.2 a rfl)
  | error e => exact ⟨hI, nofun⟩

theorem allowed_seq {α : Type} {p : Service α} {f : α → Service Response}
    {x y : Server R × List Event} (hp : p.Only Quiet) (hy : Allowed rt spec req x y)
    (hf : ∀ a z, Unchanged y z → Serves rt spec req x (f a) z) : Serves rt spec req x (p.bind f) y := by
  have h : wpOk upstream (Unchanged y) p (fun _ _ => True) y :=
    wp_mono (unchanged_of_only hp y) fun _ _ _ _ _ _ => trivial
  exact allowed_seq_ok h hy fun a z hz _ => hf a z hz

/-- The answer after an update tells what the account has then. -/
theorem readBack_spec {principal : Json} {x y : Server R × List Event}
    (hy : Allowed rt spec req x y) :
    Serves rt spec req x (do
      let updated ← getPrincipal (← shown rt (principal.get "name"))
      return listing (principal.get "name") (orEmpty (updated.bind fun u => u.get "emails"))) y := by
  apply allowed_seq (quiet_shown _) hy
  intro name z hz
  apply allowed_seq (quiet_getPrincipal _) (hy.unchanged hz)
  intro updated w hw
  apply wp_pure.mpr
  refine ⟨(hy.unchanged hz).unchanged hw, (hy.unchanged hz).unchanged hw, fun resp hr h200 => ?_⟩
  cases hr
  exact absurd rfl h200

theorem handlePost_spec (rt : Runtime) (spec : Spec) (req : Request) (admin : Json)
    (x : Server R × List Event) :
    Serves rt spec req x (handlePost rt spec req admin) x := by
  unfold handlePost
  split
  · exact serves_pure (.refl x) _
  · exact serves_fail (.refl x) _
  rename_i body hnull hbody
  dsimp only
  split
  · exact serves_pure (.refl x) _
  rename_i hwell
  rw [Bool.or_eq_true, not_or] at hwell
  have htruthy : truthy rt (body.get "account") = true := by simpa using hwell.1
  apply allowed_seq_ok (shown_spec _ x) (Unchanged.refl x).allowed
  intro account y hy haccount
  apply allowed_seq_ok (getPrincipal_spec account y) hy.allowed
  intro principal z hz hfound
  split
  · exact serves_pure (hy.trans hz) _
  rename_i hthere
  have hprincipal : Found z.2 account (principal.getD .null) := by
    cases principal with
    | none => exact absurd rfl hthere
    | some p => exact hfound p rfl
  apply allowed_seq_ok (changeFor_spec _ _ _ z) (hy.trans hz).allowed
  intro r w hw hchecked
  have hxw := (hy.trans hz).trans hw
  cases r with
  | inl refusal => exact serves_pure hxw refusal
  | inr change =>
    cases change with
    | none => exact readBack_spec hxw.allowed
    | some u =>
      apply allowed_seq (quiet_shown _) hxw.allowed
      intro admin v hv
      apply allowed_seq_ok (shown_spec _ v) (hxw.trans hv).allowed
      intro name v' hv' hname
      have hlog : (Prog.perform
          (.log s!"{admin}: {(verb u.action).1} {u.value} {(verb u.action).2} {name}") :
          Service Unit).Only Quiet := Prog.only_perform trivial
      apply allowed_seq hlog ((hxw.trans hv).trans hv').allowed
      intro _ t ht
      have hxt := ((hxw.trans hv).trans hv').trans ht
      have hfits : Fits rt spec req t.2 name u :=
        fits_of_checked hbody htruthy hwell.2 haccount
          (hprincipal.mono (((hw.trans hv).trans hv').trans ht).2) hname (hchecked u rfl)
      have hupdate := wp_always_mono (updatePrincipal_spec hfits)
        fun s hs => hxt.then_allowed hs
      refine wp_seq hupdate fun r s _ hs => ?_
      cases r with
      | ok _ => exact readBack_spec (hxt.then_allowed hs)
      | error e => exact ⟨hxt.then_allowed hs, nofun⟩

/-- The request is one that may change an account. -/
def Entitled (spec : Spec) (req : Request) (log : List Event) : Prop :=
  req.pathname = "/self-service/api/aliases" ∧ req.method = "POST" ∧ Accepted spec req log

theorem Accepted.mono {log log' : List Event} (h : Accepted spec req log) (hlog : log <+: log') :
    Accepted spec req log' := by
  obtain ⟨auth, r, claims, hauth, hbearer, hmem, hrest⟩ := h
  exact ⟨auth, r, claims, hauth, hbearer, hlog.subset hmem, hrest⟩

/-- A request keeps within what it may do, and what it does it is entitled to. -/
def Within (rt : Runtime) (spec : Spec) (req : Request) (x y : Server R × List Event) : Prop :=
  Allowed rt spec req x y ∧ (y.1.accounts = x.1.accounts ∨ Entitled spec req y.2)

theorem Unchanged.within {x y : Server R × List Event} (h : Unchanged x y) :
    Within rt spec req x y :=
  ⟨h.allowed, Or.inl h.1⟩

theorem Within.unchanged {x y z : Server R × List Event} (h : Within rt spec req x y)
    (hyz : Unchanged y z) : Within rt spec req x z := by
  refine ⟨h.1.unchanged hyz, ?_⟩
  rcases h.2 with heq | ⟨hpath, hmethod, haccepted⟩
  · exact Or.inl (hyz.1.trans heq)
  · exact Or.inr ⟨hpath, hmethod, haccepted.mono hyz.2⟩

theorem Unchanged.then_within {x y z : Server R × List Event} (h : Unchanged x y)
    (hyz : Within rt spec req y z) : Within rt spec req x z := by
  refine ⟨h.then_allowed hyz.1, ?_⟩
  rw [← h.1]
  exact hyz.2

/-- What is behind the authorisation, by the methods. -/
theorem dispatch_spec (rt : Runtime) (hpath : req.pathname = "/self-service/api/aliases") (admin : Json)
    {x : Server R × List Event} (haccepted : Accepted spec req x.2) :
    wp upstream (Within rt spec req x)
      (if req.method == "GET" then handleGet rt req
        else if req.method == "POST" then handlePost rt spec req admin
        else return ⟨405, errorBody "Method not allowed"⟩)
      (fun r y => ∀ resp, r = .ok resp → resp.status ≠ 200 → Unchanged x y) x := by
  split
  · have hkept := wp_mono (unchanged_of_only (quiet_handleGet rt req) x)
      fun r y hy _ resp (_ : r = .ok resp) (_ : resp.status ≠ 200) => hy
    exact wp_always_mono hkept fun y hy => hy.within
  split
  · rename_i hget hpost
    have hmethod : req.method = "POST" := by simpa using hpost
    have h := handlePost_spec rt spec req admin x
    have hkept := wp_mono h fun r y _ hr => hr.2
    refine wp_always_mono hkept fun y hy => ⟨hy, ?_⟩
    rcases hy.2 with heq | _
    · exact Or.inl heq
    · exact Or.inr ⟨hpath, hmethod, haccepted.mono hy.1⟩
  · apply wp_pure.mpr
    exact ⟨(Unchanged.refl x).within, fun _ _ _ => .refl x⟩

theorem serve_spec (rt : Runtime) (spec : Spec) (req : Request) (x : Server R × List Event) :
    wp upstream (Within rt spec req x) (serve rt spec req)
      (fun r y => (∀ resp, r = .ok resp → resp.status ≠ 200 → resp.status ≠ 500 →
        Unchanged x y) ∧ ∀ e, r = .error e → Unchanged x y) x := by
  have hrefused : ∀ {y : Server R × List Event} (resp : Response), Unchanged x y →
      wp upstream (Within rt spec req x) (.pure resp : Service Response)
        (fun r y => (∀ resp, r = .ok resp → resp.status ≠ 200 → resp.status ≠ 500 →
          Unchanged x y) ∧ ∀ e, r = .error e → Unchanged x y) y :=
    fun _ hy => wp_pure.mpr ⟨hy.within, fun _ _ _ _ => hy, nofun⟩
  unfold serve
  split
  · exact hrefused _ (.refl x)
  rename_i hpath
  have hpath : req.pathname = "/self-service/api/aliases" := by simpa using hpath
  have hkept := wp_mono (authorize_spec spec req x)
    fun r y hy hP => And.intro hy hP
  refine wp_seq (wp_always_mono hkept fun y hy => hy.within) fun r y _ hr => ?_
  obtain ⟨hy, hok⟩ := hr
  rcases r with e | refusal | admin
  · exact ⟨nofun, fun _ _ => hy⟩
  · exact hrefused refusal hy
  have haccepted : Accepted spec req y.2 := hok _ rfl admin rfl
  have hdispatch := wp_always_mono (dispatch_spec rt hpath admin haccepted)
    fun z hz => hy.then_within hz
  have hhandled := wp_attempt (Q := fun r z => Within rt spec req x z ∧ ∃ a, r = .ok a ∧
    ∀ resp, a = .ok resp → resp.status ≠ 200 → Unchanged y z)
    (wp_mono hdispatch fun r z hz hP => ⟨hz, r, rfl, hP⟩)
  refine wp_seq hhandled fun r z _ hr => ?_
  obtain ⟨hz, a, rfl, hok⟩ := hr
  rcases a with e | resp
  · have hlog : Quiet (.log s!"{req.method} {req.pathname}: {e}") := trivial
    apply wp_step hz
    intro _ w hs
    apply wp_pure.mpr
    refine ⟨hz.unchanged (unchanged_step hlog hs), fun resp hresp _ h500 => ?_, nofun⟩
    cases hresp
    exact absurd rfl h500
  · apply wp_pure.mpr
    refine ⟨hz, fun resp' hresp h200 _ => ?_, nofun⟩
    cases hresp
    exact hy.trans (hok resp rfl h200)

/-- A request changes the one permitted address that it asks for, of the account that it asks for,
and only for an admin, or it changes nothing. It changes nothing either where its body is malformed
or has both or neither of `add` and `remove`, where no account is found, and with every answer but
a 200 and the 500 of a failure after an update that was taken. -/
theorem request_changes {s s' : Server R} {log : List Event} {o : Option (Except String Response)}
    (h : Run upstream (serve rt spec req) (s, []) o (s', log)) :
    (s'.accounts ≠ s.accounts → req.pathname = "/self-service/api/aliases" ∧
      req.method = "POST" ∧ Accepted spec req log ∧
      OneAddress rt spec req log s.accounts s'.accounts ∧ ∃ e ∈ log, e.Taken) ∧
    ((∀ action account raw, ¬ Asked rt req action account raw) → s'.accounts = s.accounts) ∧
    ((∀ account principal, ¬ Found log account principal) → s'.accounts = s.accounts) ∧
    (∀ resp, o = some (.ok resp) → resp.status ≠ 200 → resp.status ≠ 500 →
      s'.accounts = s.accounts) ∧
    ∀ e, o = some (.error e) → s'.accounts = s.accounts := by
  have hserve := serve_spec rt spec req (s, [])
  have hchange : s'.accounts ≠ s.accounts → req.pathname = "/self-service/api/aliases" ∧
      req.method = "POST" ∧ Accepted spec req log ∧
      OneAddress rt spec req log s.accounts s'.accounts ∧ ∃ e ∈ log, e.Taken := by
    intro hchanged
    obtain ⟨hallowed, hentitled⟩ := hserve.1 _ h.toCut
    obtain ⟨hpath, hmethod, haccepted⟩ := hentitled.resolve_left hchanged
    exact ⟨hpath, hmethod, haccepted, hallowed.2.resolve_left hchanged⟩
  refine ⟨hchange, fun hmalformed => ?_, fun hunknown => ?_, fun resp ho h200 h500 => ?_,
    fun e ho => ?_⟩
  · by_contra hchanged
    obtain ⟨-, -, -, ⟨action, account, raw, principal, name, a, emails, hasked, -⟩, -⟩ :=
      hchange hchanged
    exact hmalformed action account raw hasked
  · by_contra hchanged
    obtain ⟨-, -, -, ⟨action, account, raw, principal, name, a, emails, -, hfound, -⟩, -⟩ :=
      hchange hchanged
    exact hunknown account principal hfound
  · rw [ho] at h
    exact ((hserve.2 _ _ h).1 resp rfl h200 h500).1
  · rw [ho] at h
    exact ((hserve.2 _ _ h).2 e rfl).1

/-! ## A request on a small server -/

def principalOf (m : Accounts Unit) (name : String) : Json :=
  match m name with
  | none => .object [("error", .string "notFound")]
  | some a => .object [("data", .object [("name", .string name),
      ("emails", .array (a.emails.map .string))])]

/-- Servers that answer as they should, but for the mail server once it has done an update,
where it is to go `down` then. -/
def answerOf (down : Bool) :
    {β : Type} → Op β → Server Unit × List Event → Option (β × Server Unit)
  | _, .mail (.getPrincipal name), (s, log) =>
    if down && log.length == 3 then some (.error "TypeError: connection refused", s)
    else some (.ok ⟨true, "", some (principalOf s.accounts name)⟩, s)
  | _, .mail (.updatePrincipal name us), (s, _) =>
    some (.ok ⟨true, "", some (.object [])⟩, { s with accounts := s.accounts.updated name us })
  | _, .mail _, _ => none
  | _, .discovery _, (s, _) =>
    some (.ok ⟨true, 200, some (.object [("userinfo_endpoint", .string "https://id.a.org/me")])⟩, s)
  | _, .userinfo _ _, (s, _) =>
    some (.ok ⟨true, 200, some (.object [(rolesClaim, .object [("admin", .object [])]),
      ("preferred_username", .string "ann@a.org")])⟩, s)
  | _, .readEndpoint, (s, _) => some (s.endpoint, s)
  | _, .writeEndpoint endpoint, (s, _) => some ((), { s with endpoint })
  | _, .log _, (s, _) => some ((), s)

def answering (down : Bool) : Oracle Op (Server Unit × List Event) where
  answer e w := (answerOf down e w).map fun r => (r.1, r.2, w.2 ++ (seen e w.1 r.1).toList)

theorem answerOf_step {down : Bool} {β : Type} {e : Op β} {w : Server Unit × List Event} {b : β}
    {s' : Server Unit} (h : answerOf down e w = some (b, s')) : upstreamStep e w.1 b s' := by
  cases e with
  | mail c =>
    cases c with
    | getPrincipal name =>
      change (if down && w.2.length == 3 then _ else _) = _ at h
      split at h <;> cases h <;> rfl
    | updatePrincipal name us =>
      cases h
      refine Or.inr ⟨?_, rfl⟩
      rintro ⟨r, hr, hrefused⟩
      cases hr
      cases hrefused
    | _ => cases h
  | readEndpoint => cases h; exact ⟨rfl, rfl⟩
  | _ => cases h; rfl

def oneAccount : Server Unit where
  accounts name := if name = "ann@a.org" then some ⟨["ann@a.org"], ["user"], ()⟩ else none
  endpoint := some .null

def exampleSpec : Spec where
  issuer := "https://id.a.org"
  adminRole := "admin"
  addressDomains := ["a.org"]

/-- The admin asks for the catch-all of the domain. -/
def catchAllRequest : Request where
  method := "POST"
  pathname := "/self-service/api/aliases"
  authorization := some "Bearer abc"
  body := some (.object [("account", .string "ann@a.org"), ("add", .string "@A.org ")])

def served (down : Bool) : Option (Except String Response) × Server Unit × List Event :=
  (serve ascii exampleSpec catchAllRequest).exec (answering down) 40 (oneAccount, [])

theorem served_run (down : Bool) :
    Run upstream (serve ascii exampleSpec catchAllRequest) (oneAccount, []) (served down).1
      ((served down).2.1, (served down).2.2) := by
  apply exec_run
  intro β e w b w' h
  rw [answering, Option.map_eq_some_iff] at h
  obtain ⟨⟨b', s'⟩, ha, he⟩ := h
  cases he
  exact ⟨answerOf_step ha, rfl⟩

/-- The account has the catch-all at the end, and it had not before. -/
theorem served_changed (down : Bool) : (served down).2.1.accounts ≠ oneAccount.accounts := by
  have hemails : ((served down).2.1.accounts "ann@a.org").map Account.emails =
      some ["ann@a.org", "@a.org"] := by
    cases down <;> decide +kernel
  intro h
  rw [h] at hemails
  exact absurd hemails (by decide)

theorem request_changes_sample : Accepted exampleSpec catchAllRequest (served false).2.2 ∧
    OneAddress ascii exampleSpec catchAllRequest (served false).2.2 oneAccount.accounts
      (served false).2.1.accounts := by
  obtain ⟨-, -, haccepted, hone, -⟩ :=
    (request_changes (served_run false)).1 (served_changed false)
  exact ⟨haccepted, hone⟩

/-- A failure of the mail server after the update is answered like one before it. -/
theorem read_back_lost : ¬ ∀ (rt : Runtime) (spec : Spec) (req : Request) (s s' : Server Unit)
    (log : List Event) (resp : Response),
    Run upstream (serve rt spec req) (s, []) (some (.ok resp)) (s', log) → resp.status = 500 →
      s'.accounts = s.accounts := by
  intro h
  have hstatus : (match (served true).1 with
      | some (.ok resp) => resp.status
      | some (.error _) => 0
      | none => 0) = 500 := by
    decide +kernel
  have hrun := served_run true
  split at hstatus
  · rename_i resp ho
    rw [ho] at hrun
    exact served_changed true (h _ _ _ _ _ _ _ hrun hstatus)
  · cases hstatus
  · cases hstatus

end Foundrix.Stalwart.SelfService
