import Foundrix.OidcValidator.Verdict

/-!
# Replies that could not be read

The requests of the validator take an empty text for a body whose reading fails.

* `Received`, `Lost`: a reply that came with its body, and one that is taken for a rejection
  without it.
* `rejected_unread_iff`: among the replies without a body, these are the lost ones.
* `unread_never_rejects_iff`: when a rejection rests on replies that were read.
-/

namespace Foundrix.OidcValidator

open Text

/-- A reply with its body. -/
def Received (a : Answer) : Prop := ∃ reply body, a = .ok reply ∧ reply.body = .ok body

/-- A 401 or a 403 whose body could not be read. -/
def Lost (a : Answer) : Prop :=
  ∃ reply err, a = .ok reply ∧ reply.body = .error err ∧
    (reply.status = 401 ∨ reply.status = 403)

theorem Lost.not_received {a : Answer} (h : Lost a) : ¬ Received a := by
  obtain ⟨reply, err, rfl, hbody, -⟩ := h
  rintro ⟨reply', body, he, hbody'⟩
  cases he
  rw [hbody] at hbody'
  cases hbody'

section Replies

variable [Externals]

/-- There is no JSON value in an empty text. -/
def NothingInEmpty : Prop := ∀ v, Externals.jsonFromStr "" ≠ .ok v

theorem errorCode_empty (hempty : NothingInEmpty) : errorCode "" = none := by
  rw [errorCode]
  cases hv : Externals.jsonFromStr "" with
  | ok v => exact absurd hv (hempty v)
  | error e => rfl

/-- A reply without a body counts as a rejection exactly for its status. -/
theorem rejected_unread_iff (hempty : NothingInEmpty) {reply : Reply} {err : String}
    (hbody : reply.body = .error err) :
    Rejection (.ok reply) ↔ reply.status = 401 ∨ reply.status = 403 := by
  have htext : reply.text = "" := by
    rw [Reply.text, hbody]
    rfl
  have hcode : errorCode reply.text = none := htext ▸ errorCode_empty hempty
  constructor
  · rintro ⟨reply', he, -, -, -, hclient | ⟨hstatus, -⟩⟩
    · cases he
      rw [hcode] at hclient
      cases hclient
    · cases he
      exact hstatus
  · intro hstatus
    have hsuccess : success reply.status = false := by
      rcases hstatus with h | h <;> rw [h] <;> decide
    exact ⟨reply, rfl, hsuccess, by omega, by omega, Or.inr ⟨hstatus, hcode⟩⟩

/-- A rejection that was not received was lost. -/
theorem Rejection.lost (hempty : NothingInEmpty) {a : Answer} (h : Rejection a)
    (hnot : ¬ Received a) : Lost a := by
  obtain ⟨reply, rfl, -⟩ := id h
  cases hbody : reply.body with
  | ok body => exact absurd ⟨reply, body, rfl, hbody⟩ hnot
  | error err => exact ⟨reply, err, rfl, hbody, (rejected_unread_iff hempty hbody).mp h⟩

/-- A check rejects the credentials on replies that it has read, for every method that it
tried, exactly if none of these is a 401 or a 403 whose body could not be read, or not every
method is answered by a rejection. -/
theorem unread_never_rejects_iff (hempty : NothingInEmpty) (servers : Servers) (args : Args)
    (clientId clientSecret : String) :
    let (v, sent) := check servers args clientId clientSecret []
    ((v.status = .invalid → ∀ e ∈ sent.tail, Received e.answer) ↔
      (∀ e ∈ sent.tail, ¬ Lost e.answer) ∨ ¬ AllRejected args clientId clientSecret sent) := by
  have hspec := check_spec servers args clientId clientSecret
  generalize check servers args clientId clientSecret [] = out at hspec ⊢
  obtain ⟨v, sent, rfl, hsound⟩ := hspec
  constructor
  · intro h
    by_cases hall : AllRejected args clientId clientSecret sent
    · left
      intro e he hlost
      exact hlost.not_received (h (hsound.invalid.mpr hall) e he)
    · exact Or.inr hall
  · intro h hinvalid e he
    have hall := hsound.invalid.mp hinvalid
    have hnone := h.resolve_right fun hnot => hnot hall
    obtain ⟨p, methods, probes, ⟨d, doc, tried, rfl, -⟩, -, hrejected⟩ := hall
    by_contra hnot
    exact hnone e he ((hrejected e he).lost hempty hnot)

end Replies

/-! ## A reset connection -/

/-- A decoder that knows one document. -/
@[reducible] def oneDocument : Externals where
  jsonFromStr t :=
    if t = "d" then .ok (.object [("introspection_endpoint", .string "https://sso/introspect")])
    else .error "EOF while parsing a value at line 1 column 0"
  debugStr t := t

theorem oneDocument_empty : @NothingInEmpty oneDocument := by
  intro v h
  cases h

/-- The document is served, and every reply with a verdict breaks off after its status. -/
def brokenOff : Servers := fun _ request =>
  match request.method with
  | .get => .ok ⟨200, .ok "d"⟩
  | .post => .ok ⟨401, .error "connection reset"⟩

def unreadCheck : Verdict × List Exchange :=
  letI := oneDocument
  check brokenOff { issuer := "https://sso" } "id" "secret" []

theorem unreadCheck_rejects : unreadCheck.1.status = .invalid := by decide

theorem unreadCheck_answers : unreadCheck.2.tail.map Exchange.answer =
    [.ok ⟨401, .error "connection reset"⟩, .ok ⟨401, .error "connection reset"⟩] := by
  decide

theorem unreadCheck_not_received : ∃ e ∈ unreadCheck.2.tail, ¬ Received e.answer := by
  have hmem : (.ok ⟨401, .error "connection reset"⟩ : Answer) ∈
      unreadCheck.2.tail.map Exchange.answer := by
    rw [unreadCheck_answers]
    exact List.mem_cons_self
  obtain ⟨e, he, hanswer⟩ := List.mem_map.mp hmem
  have hlost : Lost e.answer := ⟨_, _, hanswer, rfl, Or.inl rfl⟩
  exact ⟨e, he, hlost.not_received⟩

theorem unread_never_rejects_iff_sample :
    ¬ ((∀ e ∈ unreadCheck.2.tail, ¬ Lost e.answer) ∨
      ¬ @AllRejected oneDocument { issuer := "https://sso" } "id" "secret" unreadCheck.2) := by
  let _ := oneDocument
  intro h
  have hiff := unread_never_rejects_iff oneDocument_empty brokenOff { issuer := "https://sso" }
    "id" "secret"
  obtain ⟨e, he, hnot⟩ := unreadCheck_not_received
  exact hnot (hiff.mpr h unreadCheck_rejects e he)

/-- Two replies that broke off reject the credentials. -/
theorem rejected_unread : ¬ ∀ (ext : Externals) (servers : Servers) (args : Args)
    (clientId clientSecret : String), @NothingInEmpty ext →
      (@check ext servers args clientId clientSecret []).1.status = .invalid →
        ∀ e ∈ (@check ext servers args clientId clientSecret []).2.tail, Received e.answer := by
  intro h
  obtain ⟨e, he, hnot⟩ := unreadCheck_not_received
  exact hnot (h oneDocument brokenOff { issuer := "https://sso" } "id" "secret"
    oneDocument_empty unreadCheck_rejects e he)

end Foundrix.OidcValidator
